import SchemaWire.Proofs.Message.Struct

/-!
# Readers with other fields

Where schemas travel, a writer and a reader may know a struct by different fields. The reader
takes the fields that match its own, passes over the others, and makes up for its own fields
that nothing matches, or fails if it has to have one of them.
-/

namespace SchemaWire

namespace Member

variable {found : List (Nat × Datum)} {members : List (Member Shape)}
  {content parts : List (String × Datum)} {place start : Nat} {member : Member Shape}

/-- The parts of a struct are what a reader with the given members makes of the writer's
fields. -/
structure Evolved (members : List (Member Shape)) (content parts : List (String × Datum)) :
    Prop where
  /-- The parts have the reader's names, in the reader's order. -/
  names : parts.map Prod.fst = members.map Member.name
  /-- A part that a field matches holds the value of the field. -/
  matched : ∀ field ∈ content, ∀ place,
    Name.match? (members.map Member.name) field.1 = some place →
      (parts.map Prod.snd)[place]? = some field.2
  /-- A part that no field matches may be missing, and holds what stands in for it. -/
  missing : ∀ place member, members[place]? = some member →
    (∀ field ∈ content, Name.match? (members.map Member.name) field.1 ≠ some place) →
      ∃ value, member.missing = .ok value ∧ (parts.map Prod.snd)[place]? = some value

/-- Nothing else can be made of the fields. -/
theorem Evolved.unique (h : Evolved members content parts) {others : List (String × Datum)}
    (hothers : Evolved members content others) : parts = others := by
  have hnames := h.names.trans hothers.names.symm
  have hvalues : parts.map Prod.snd = others.map Prod.snd := by
    refine List.ext_getElem? fun place => ?_
    cases hmember : members[place]? with
    | none =>
      have houtside {fields : List (String × Datum)}
          (hfields : fields.map Prod.fst = members.map Member.name) :
          (fields.map Prod.snd)[place]? = none := by
        have hlength := congrArg List.length hfields
        rw [List.length_map, List.length_map] at hlength
        rw [List.getElem?_eq_none_iff, List.length_map, hlength]
        exact List.getElem?_eq_none_iff.mp hmember
      rw [houtside h.names, houtside hothers.names]
    | some member =>
      by_cases hmatch : ∃ field ∈ content,
          Name.match? (members.map Member.name) field.1 = some place
      · obtain ⟨field, hfield, hmatch⟩ := hmatch
        rw [h.matched field hfield place hmatch, hothers.matched field hfield place hmatch]
      · have hnone (field : String × Datum) (hfield : field ∈ content)
            (hsome : Name.match? (members.map Member.name) field.1 = some place) : False :=
          hmatch ⟨field, hfield, hsome⟩
        obtain ⟨value, hvalue, hpart⟩ := h.missing place member hmember hnone
        obtain ⟨other, hother, hsame⟩ := hothers.missing place member hmember hnone
        cases hvalue.symm.trans hother
        rw [hpart, hsame]
  have hparts : parts = (parts.map Prod.fst).zip (parts.map Prod.snd) := List.zip_of_prod rfl rfl
  rw [hparts, hnames, hvalues]
  exact (List.zip_of_prod rfl rfl).symm

/-- What a part is filled with: what was found in its place, or else what stands in for it. -/
def filled (found : List (Nat × Datum)) (place : Nat) (member : Member Shape) :
    Except Error Datum :=
  match found.lookup place with
  | some value => .ok value
  | none => member.missing

/-- Parts are filled one after the other. -/
theorem assemble_cons (rest : List (Member Shape)) :
    assemble found (member :: rest) start = (do
      let first ← filled found start member
      return (member.name, first) :: (← assemble found rest (start + 1))) := by
  rw [assemble, filled]
  cases found.lookup start <;> rfl

/-- Where parts are assembled, each of them is filled. -/
theorem filled_of_assemble_ok (h : assemble found members start = .ok parts) :
    parts.map Prod.fst = members.map Member.name ∧
      ∀ place member, members[place]? = some member →
        ∃ value, filled found (start + place) member = .ok value ∧
          (parts.map Prod.snd)[place]? = some value := by
  induction members generalizing start parts with
  | nil =>
    cases h
    exact ⟨rfl, nofun⟩
  | cons first rest ih =>
    rw [assemble_cons] at h
    obtain ⟨value, hvalue, h⟩ := exists_of_except_bind_ok h
    obtain ⟨others, hothers, h⟩ := exists_of_except_bind_ok h
    cases h
    obtain ⟨hnames, hplaces⟩ := ih hothers
    refine ⟨by rw [List.map_cons, List.map_cons, hnames], fun place member hmember => ?_⟩
    cases place with
    | zero =>
      cases hmember
      exact ⟨value, hvalue, rfl⟩
    | succ place =>
      have hnext := hplaces place member hmember
      rwa [Nat.add_assoc, Nat.add_comm 1 place] at hnext

/-- Where parts cannot be assembled, one of them cannot be filled. -/
theorem exists_of_assemble_error {e : Error} (h : assemble found members start = .error e) :
    ∃ place member, members[place]? = some member ∧
      filled found (start + place) member = .error e := by
  induction members generalizing start with
  | nil => cases h
  | cons first rest ih =>
    rw [assemble_cons] at h
    cases hfirst : filled found start first with
    | error other =>
      rw [hfirst] at h
      cases h
      exact ⟨0, first, rfl, hfirst⟩
    | ok value =>
      cases hrest : assemble found rest (start + 1) with
      | ok others =>
        rw [hfirst, hrest] at h
        cases h
      | error other =>
        rw [hfirst, hrest] at h
        cases h
        obtain ⟨place, member, hmember, hfilled⟩ := ih hrest
        rw [Nat.add_assoc, Nat.add_comm 1 place] at hfilled
        exact ⟨place + 1, member, hmember, hfilled⟩

/-- A part that no field matches is filled with what stands in for it. -/
theorem filled_of_no_match
    (h : ∀ field ∈ content, Name.match? (members.map Member.name) field.1 ≠ some place) :
    filled (given (members.map Member.name) content) place member = member.missing := by
  have hfresh : place ∉ (given (members.map Member.name) content).map Prod.fst := by
    intro hmem
    obtain ⟨entry, hentry, rfl⟩ := List.mem_map.mp hmem
    obtain ⟨field, hfield, hgiven⟩ := List.mem_filterMap.mp hentry
    obtain ⟨place, hmatch, rfl⟩ := Option.map_eq_some_iff.mp hgiven
    exact h field hfield hmatch
  rw [filled, lookup_eq_none hfresh]

/-- A part that may not be missing is turned down. -/
theorem eq_rejected_of_missing {e : Error} (h : member.missing = .error e) : e = .rejected := by
  unfold missing at h
  split at h
  · cases h
  · split at h
    · cases h
    · cases h
      rfl

section Given

variable (hkeys : ((given (members.map Member.name) content).map Prod.fst).Nodup)
include hkeys

/-- A part that a field matches is filled with its value. -/
theorem filled_of_match {field : String × Datum} (hfield : field ∈ content)
    (hmatch : Name.match? (members.map Member.name) field.1 = some place) :
    filled (given (members.map Member.name) content) place member = .ok field.2 := by
  rw [filled, lookup_of_mem hkeys (mem_given hfield hmatch)]

/-- What is assembled of the writer's fields are the reader's parts. -/
theorem evolved_of_assemble_ok
    (h : assemble (given (members.map Member.name) content) members 0 = .ok parts) :
    Evolved members content parts := by
  obtain ⟨hnames, hplaces⟩ := filled_of_assemble_ok h
  simp only [Nat.zero_add] at hplaces
  refine ⟨hnames, fun field hfield place hmatch => ?_, fun place member hmember hnone => ?_⟩
  · obtain ⟨member, hmember⟩ := exists_part hmatch
    obtain ⟨value, hfilled, hpart⟩ := hplaces place member hmember
    rw [filled_of_match hkeys hfield hmatch] at hfilled
    cases hfilled
    exact hpart
  · obtain ⟨value, hfilled, hpart⟩ := hplaces place member hmember
    rw [filled_of_no_match hnone] at hfilled
    exact ⟨value, hfilled, hpart⟩

/-- What cannot be assembled of the writer's fields lacks a part that no field matches. -/
theorem exists_missing_of_assemble_error {e : Error}
    (h : assemble (given (members.map Member.name) content) members 0 = .error e) :
    ∃ place member, members[place]? = some member ∧
      (∀ field ∈ content, Name.match? (members.map Member.name) field.1 ≠ some place) ∧
        member.missing = .error .rejected ∧ e = .rejected := by
  obtain ⟨place, member, hmember, hfilled⟩ := exists_of_assemble_error h
  rw [Nat.zero_add] at hfilled
  have hnone : ∀ field ∈ content,
      Name.match? (members.map Member.name) field.1 ≠ some place := by
    intro field hfield hmatch
    rw [filled_of_match hkeys hfield hmatch] at hfilled
    cases hfilled
  rw [filled_of_no_match hnone] at hfilled
  cases eq_rejected_of_missing hfilled
  exact ⟨place, member, hmember, hnone, hfilled, rfl⟩

end Given

end Member

namespace Engine

/-- The writer has a struct with the given members registered under one name. The reader has
another name registered, which stands for a struct with the given parts. Both let schemas
travel, and they agree on the types in the writer's fields and on the fields that match. -/
structure Evolves (writer reader : Engine) (hosts : HostType → Prop) (sent asked : String)
    (members parts : List (Member Shape)) : Prop extends writer.Matches reader hosts where
  /-- Schemas travel. -/
  travels : writer.config.compatible = true
  /-- The writer's struct is registered with its fields. -/
  registered : ∃ spec registration fields,
    writer.registry.resolve (.scalar (.user sent) false) = .ok spec ∧
      spec.role = .struct registration fields ∧
        fields.map (fun field => (field.name, field.type)) =
          members.map fun member => (member.name, member.content.declared)
  /-- The types of the writer's fields can be declared. -/
  declarable : ∀ member ∈ members, member.content.Declarable hosts
  /-- The reader's struct is registered. -/
  known : ∃ spec, reader.registry.resolve (.scalar (.user asked) false) = .ok spec
  /-- No two of the writer's fields have names of one normal form. -/
  distinct : (members.map fun member => Name.normalized member.name).Nodup
  /-- Fields that match are of one type, whatever collections are called in it. -/
  same : ∀ member ∈ members, ∀ place part,
    Name.match? (parts.map Member.name) member.name = some place → parts[place]? = some part →
      part.content.Resembles member.content

namespace Evolves

variable {writer reader : Engine} {hosts : HostType → Prop} {sent asked : String}
  {members parts : List (Member Shape)} (h : writer.Evolves reader hosts sent asked members parts)
  {content : List (String × Datum)} (hnames : members.map Member.name = content.map Prod.fst)
include h hnames

/-- The writer's fields give no part of the reader two values. -/
theorem nodup_given : ((Member.given (parts.map Member.name) content).map Prod.fst).Nodup := by
  refine Member.nodup_given_of_normalized ?_
  have hsame := congrArg (List.map Name.normalized) hnames
  rw [List.map_map, List.map_map] at hsame
  exact hsame ▸ h.distinct

omit hnames in
/-- The writer sends its struct with its declared fields. -/
theorem exists_sends : ∃ declared : List FieldDescriptor,
    writer.Sends reader hosts sent asked declared ∧
      declared.map (fun field => (field.name, field.type)) =
        members.map fun member => (member.name, member.content.declared) := by
  obtain ⟨spec, registration, declared, hspec, hrole, hdeclared⟩ := h.registered
  have hagree : (writer.peers reader [] []).Agree hosts := h.agree fun _ => .nil
  have hfits : spec.role.Fits reader.shapes hosts (.struct sent members) :=
    hrole ▸ .struct hdeclared h.declarable
  have hover := TypeSpec.among_of_fits hfits
  rw [TypeSpec.fields, hrole] at hover
  have hderived := Schema.exists_ofFields hagree.sameRoles hagree.written hagree.own hover true
  exact ⟨declared, { h with registered := ⟨spec, registration, hspec, hrole⟩, derived := hderived },
    hdeclared⟩

/-- A message with the writer's struct is read as the struct with the reader's parts. -/
theorem exists_decodeWithin_eq_evolved {title : String}
    (hshape : reader.shapes.resolve (.user asked) = .struct title parts)
    (hholds : ∀ part ∈ members.zip content, part.1.content.Holds reader.shapes part.2.2)
    {name : String} {before after : WriteTables} {message : Message}
    (hencode : writer.encode (.scalar (.user sent) false) (.struct name content) before =
      .ok message after) (label : String) (context : ReadContext) :
    ∃ fuel kept, reader.decodeWithin fuel ⟨label, .scalar (.user asked) false, .user asked⟩
        ⟨message.toList, context⟩ =
      match Member.assemble (Member.given (parts.map Member.name) content) parts 0 with
      | .ok fields => .ok (.struct title fields) ⟨[], kept⟩
      | .error e => .error e ⟨[], kept⟩ := by
  obtain ⟨declared, hsends, hdeclared⟩ := h.exists_sends
  have hnodup : (members.map Member.name).Nodup := by
    refine List.Nodup.of_map Name.normalized ?_
    rw [List.map_map]
    exact h.distinct
  refine ⟨Datum.heightOfFields content + 2 + 1, hsends.exists_decodeWithin_eq_evolved hshape hencode
    (fun schemas hagree fields hschema => ?_) label context⟩
  exact (hagree.concur.follows (Datum.heightOfFields content + 2)).mirrors_given hdeclared h.declarable
    hnodup hnames hholds (Nat.lt_succ_self _) hschema h.same (h.nodup_given hnames) 1 true

end Evolves

end Engine

/-- A struct is read by an engine that knows it by other fields. What a field holds arrives at
the part that its name matches, and other fields are passed over. A part that no field
matches is missing: the reader makes up for it, or fails if there is no value for it. -/
theorem compatible_evolution {writer reader : Engine} {hosts : HostType → Prop}
    {sent asked : String} {members parts : List (Member Shape)}
    (h : writer.Evolves reader hosts sent asked members parts) {title : String}
    (hshape : reader.shapes.resolve (.user asked) = .struct title parts) {name : String}
    {content : List (String × Datum)}
    (hholds : (Shape.struct name members).Holds reader.shapes (.struct name content))
    {before after : WriteTables} {message : Message}
    (hencode : writer.encode (.scalar (.user sent) false) (.struct name content) before =
      .ok message after) (label : String) (context : ReadContext) :
    ∃ kept,
      (∃ fields, Member.Evolved parts content fields ∧
        reader.decode ⟨label, .scalar (.user asked) false, .user asked⟩
          ⟨message.toList, context⟩ = .ok (.struct title fields) ⟨[], kept⟩) ∨
      ∃ place part, parts[place]? = some part ∧
        (∀ field ∈ content, Name.match? (parts.map Member.name) field.1 ≠ some place) ∧
          part.missing = .error .rejected ∧
            reader.decode ⟨label, .scalar (.user asked) false, .user asked⟩
              ⟨message.toList, context⟩ = .error .rejected ⟨[], kept⟩ := by
  cases hholds with
  | struct hnames hparts =>
  have hkeys := h.nodup_given hnames
  obtain ⟨fuel, kept, hread⟩ :=
    h.exists_decodeWithin_eq_evolved hnames hshape hparts hencode label context
  refine ⟨kept, ?_⟩
  cases hfields : Member.assemble (Member.given (parts.map Member.name) content) parts 0 with
  | ok fields =>
    rw [hfields] at hread
    refine .inl ⟨fields, Member.evolved_of_assemble_ok hkeys hfields, ?_⟩
    rw [Engine.decode_eq_of_ends (by rw [hread]; exact nofun), hread]
  | error e =>
    rw [hfields] at hread
    obtain ⟨place, part, hpart, hnone, hmissing, rfl⟩ :=
      Member.exists_missing_of_assemble_error hkeys hfields
    refine .inr ⟨place, part, hpart, hnone, hmissing, ?_⟩
    rw [Engine.decode_eq_of_ends (by rw [hread]; exact nofun), hread]

namespace Sample

/-- The parts of a profile. -/
def profile : List (Member Shape) :=
  [⟨"user_name", false, .string⟩, ⟨"marks", false, .list "marks" (.int .int32)⟩,
    ⟨"tags", false, .set "HashSet" .string⟩, ⟨"home", false, .option (.user "Home")⟩]

/-- The parts of a profile in a later version, with another type of sets. -/
def laterProfile : List (Member Shape) :=
  [⟨"home", false, .option (.user "Home")⟩, ⟨"userName", false, .string⟩,
    ⟨"tags", false, .set "BTreeSet" .string⟩, ⟨"email", true, .string⟩,
    ⟨"motto", false, .option .string⟩]

/-- The declared fields of a struct with the given parts. -/
def declaredFields (members : List (Member Shape)) : List FieldDescriptor :=
  members.map fun member => ⟨member.name, member.content.declared, false⟩

/-- The parts of a home. -/
def homeParts : List (Member Shape) := [⟨"city", false, .string⟩]

/-- A registry with homes. -/
def homes : Registry where
  specs := Registry.standard.specs ++
    [⟨some (.user "Home"), "Home", false, .struct (.id 1) (declaredFields homeParts)⟩]

/-- A registry with homes and with a struct of the given name and parts. -/
def profiles (name : String) (members : List (Member Shape)) : Registry where
  specs := homes.specs ++
    [⟨some (.user name), name, false, .struct (.id 2) (declaredFields members)⟩]

/-- An engine for homes and for a struct of the given name and parts, whose schemas travel. -/
def keeper (name : String) (members : List (Member Shape)) : Engine where
  config := ⟨true, true, .tracking, 5⟩
  registry := profiles name members
  shapes := [("Home", .struct "Home" homeParts), (name, .struct name members)]

/-- A home. -/
def arlington : Datum := .struct "Home" [("city", .text "Arlington")]

/-- The fields of a profile. -/
def grace : List (String × Datum) :=
  [("user_name", .text "grace"), ("marks", .seq true [.int .int32 7]),
    ("tags", .seq true [.text "navy"]), ("home", .some arlington)]

/-- The fields of the profile in the later version. -/
def laterGrace : List (String × Datum) :=
  [("home", .some arlington), ("userName", .text "grace"), ("tags", .seq true [.text "navy"]),
    ("email", .absent), ("motto", .none)]

/-- The registry of homes is built by one registration. -/
theorem built_homes : homes.Built := by
  have hadded : Registry.standard.registerStruct (.user "Home") (.id 1) (declaredFields homeParts) =
      .ok homes := rfl
  exact .struct .standard hadded

/-- Homes are known to both, and so are the fields of a profile that match those of a later one. -/
theorem evolves_keeper : (keeper "Profile" profile).Evolves (keeper "Later" laterProfile)
    (· ∈ [HostType.user "Home", .collection "marks", .collection "HashSet"]) "Profile" "Later" profile
    laterProfile where
  xlang := rfl
  compatible := rfl
  refMode := rfl
  depth := Nat.le_refl _
  written := by
    have hadded : homes.registerStruct (.user "Profile") (.id 2) (declaredFields profile) =
        .ok (profiles "Profile" profile) := rfl
    exact .struct built_homes hadded
  own := by
    have hadded : homes.registerStruct (.user "Later") (.id 2) (declaredFields laterProfile) =
        .ok (profiles "Later" laterProfile) := rfl
    exact .struct built_homes hadded
  addressable := by decide +kernel
  types := by
    intro host hhost
    simp only [List.mem_cons, List.not_mem_nil, or_false] at hhost
    rcases hhost with rfl | rfl | rfl
    · refine .inl ⟨_, _, rfl, rfl, rfl, .struct rfl fun member hmember => ?_, nofun⟩
      cases List.mem_singleton.mp hmember
      exact .string
    · exact .inr ⟨rfl, rfl, rfl⟩
    · exact .inr ⟨rfl, rfl, rfl⟩
  travels := rfl
  registered := ⟨_, _, _, rfl, rfl, rfl⟩
  known := ⟨_, rfl⟩
  declarable := by
    intro member hmember
    simp only [profile, List.mem_cons, List.not_mem_nil, or_false] at hmember
    rcases hmember with rfl | rfl | rfl | rfl
    · exact .string
    · exact .list (by decide) (.int .int32)
    · exact .set (by decide) .string
    · exact .option rfl (.user (by decide))
  distinct := by decide +kernel
  same := by
    intro member hmember place part hmatch hpart
    simp only [profile, List.mem_cons, List.not_mem_nil, or_false] at hmember
    rcases hmember with rfl | rfl | rfl | rfl
    · have hplace : Name.match? (laterProfile.map Member.name) "user_name" = some 1 := by
        decide +kernel
      cases hmatch.symm.trans hplace
      cases hpart
      exact .refl _
    · have hplace : Name.match? (laterProfile.map Member.name) "marks" = none := by
        decide +kernel
      cases hmatch.symm.trans hplace
    · have hplace : Name.match? (laterProfile.map Member.name) "tags" = some 2 := by
        decide +kernel
      cases hmatch.symm.trans hplace
      cases hpart
      exact .set _ _ (.refl _)
    · have hplace : Name.match? (laterProfile.map Member.name) "home" = some 0 := by
        decide +kernel
      cases hmatch.symm.trans hplace
      cases hpart
      exact .refl _

/-- The fields of the later profile are made of those of the profile. -/
theorem evolved_grace : Member.Evolved laterProfile grace laterGrace :=
  Member.evolved_of_assemble_ok (by decide +kernel) rfl

end Sample

/-- A profile is read by an engine that knows profiles by other fields. -/
theorem compatible_evolution_profile :
    ∃ message after, (Sample.keeper "Profile" Sample.profile).encode
        (.scalar (.user "Profile") false) (.struct "Profile" Sample.grace) .empty =
          .ok message after ∧
      ∃ kept, (Sample.keeper "Later" Sample.laterProfile).decode
        ⟨"Later", .scalar (.user "Later") false, .user "Later"⟩ ⟨message.toList, .empty⟩ =
          .ok (.struct "Later" Sample.laterGrace) ⟨[], kept⟩ := by
  have hholds : (Shape.struct "Profile" Sample.profile).Holds
      (Sample.keeper "Later" Sample.laterProfile).shapes (.struct "Profile" Sample.grace) := by
    refine .struct rfl fun part hpart => ?_
    simp only [Sample.profile, Sample.grace, List.zip_cons_cons, List.zip_nil_right, List.mem_cons,
      List.not_mem_nil, or_false] at hpart
    rcases hpart with rfl | rfl | rfl | rfl
    · exact .string "grace"
    · refine .list (fun v hv => ?_) (.inl rfl)
      cases List.mem_singleton.mp hv
      exact .int rfl
    · refine .set (fun v hv => ?_) (.inl rfl)
      cases List.mem_singleton.mp hv
      exact .string "navy"
    · refine .some (.user (.struct rfl fun part hpart => ?_))
      cases List.mem_singleton.mp hpart
      exact .string "Arlington"
  have hok : ((Sample.keeper "Profile" Sample.profile).encode (.scalar (.user "Profile") false)
      (.struct "Profile" Sample.grace) .empty matches .ok ..) = true := by
    decide +kernel
  cases hencode : (Sample.keeper "Profile" Sample.profile).encode (.scalar (.user "Profile") false)
      (.struct "Profile" Sample.grace) .empty with
  | error e after =>
    rw [hencode] at hok
    cases hok
  | ok message after =>
    obtain ⟨kept, ⟨fields, hfields, hread⟩ | ⟨place, part, hpart, hnone, hmissing, -⟩⟩ :=
      compatible_evolution Sample.evolves_keeper rfl hholds hencode "Later" .empty
    · cases hfields.unique Sample.evolved_grace
      exact ⟨message, after, rfl, kept, hread⟩
    · obtain ⟨value, hvalue, -⟩ := Sample.evolved_grace.missing place part hpart hnone
      cases hvalue.symm.trans hmissing

end SchemaWire
