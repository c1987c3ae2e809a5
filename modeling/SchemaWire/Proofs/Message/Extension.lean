import SchemaWire.Proofs.Data.PassedOver
import SchemaWire.Proofs.Message.Struct
import SchemaWire.Proofs.Types.History

/-!
# Fields that were added

A writer may add fields to a struct. Where schemas travel, a reader with the fields of before
passes over the added ones and reads the others, although it knows none of the types that came
with the added fields. Only an enum that is registered by a number stops it, since its type
information does not come with a schema.
-/

namespace SchemaWire

/-- In a list without repetitions, the members of a sublist are the sublist. -/
theorem filter_mem_of_sublist {α : Type} [DecidableEq α] {part whole : List α}
    (h : part.Sublist whole) (hnodup : whole.Nodup) : whole.filter (· ∈ part) = part := by
  induction h with
  | slnil => rfl
  | @cons part whole a hsub ih =>
    obtain ⟨hfresh, hrest⟩ := List.nodup_cons.mp hnodup
    have hout : a ∉ part := fun hmem => hfresh (hsub.subset hmem)
    rw [List.filter_cons_of_neg (by simpa using hout)]
    exact ih hrest
  | @cons_cons part whole a hsub ih =>
    obtain ⟨hfresh, hrest⟩ := List.nodup_cons.mp hnodup
    have hsame : whole.filter (· ∈ a :: part) = whole.filter (· ∈ part) := by
      refine List.filter_congr fun b hb => ?_
      have hne : b ≠ a := fun heq => hfresh (heq ▸ hb)
      simp [hne]
    rw [List.filter_cons_of_pos (by simp), hsame, ih hrest]

/-- A type over some types is one over more of them. -/
theorem FieldType.Over.imp {scalars others : HostType → Prop} {collections rest : String → Prop}
    {type : FieldType} (h : type.Over scalars collections)
    (hscalars : ∀ host, scalars host → others host)
    (hcollections : ∀ name, collections name → rest name) : type.Over others rest := by
  induction type with
  | scalar host nullable => exact hscalars host h
  | list name element nullable ih | set name element nullable ih =>
    exact ⟨hcollections name h.1, ih h.2⟩
  | map name key value nullable ihKey ihValue =>
    exact ⟨hcollections name h.1, ihKey h.2.1, ihValue h.2.2⟩

namespace Engine

/-- The writer's struct has the given fields. Among them, in their order, are fields of the given
names and shapes, which are the reader's fields except for what collections are called. The others
match none of the reader's fields, and their types are made of builtins, of types whose values can be
passed over and of collections that are not registered. Schemas travel, and the engines agree on the
types of the reader's fields. -/
structure Extends (writer reader : Engine) (hosts others : HostType → Prop) (sent asked : String)
    (declared : List FieldDescriptor) (members parts : List (Member Shape)) : Prop
    extends writer.Matches reader hosts where
  /-- Schemas travel. -/
  travels : writer.config.compatible = true
  /-- The writer's struct is registered with its fields. -/
  registered : ∃ spec registration, writer.registry.resolve (.scalar (.user sent) false) = .ok spec ∧
    spec.role = .struct registration declared
  /-- The reader's struct is registered. -/
  known : ∃ spec, reader.registry.resolve (.scalar (.user asked) false) = .ok spec
  /-- The types of the fields that the reader knows can be declared. -/
  declarable : ∀ member ∈ members, member.content.Declarable hosts
  /-- These fields are among the writer's, in their order. -/
  kept : (members.map fun member => (member.name, member.content.declared)).Sublist
    (declared.map fun field => (field.name, field.type))
  /-- The reader's fields are these, whatever collections are called in them. -/
  same : List.Forall₂ (fun part member => part.name = member.name ∧
    part.content.Resembles member.content) parts members
  /-- Every other field is over types that can be passed over, and matches no field of the reader. -/
  added : ∀ field ∈ declared, field.name ∉ parts.map Member.name →
    field.type.Among others ∧
      ∀ part ∈ parts, Name.normalized part.name ≠ Name.normalized field.name
  /-- Values of these types can be passed over, or they are collections that are not registered. -/
  passable : ∀ host, others host →
    (∃ spec, writer.registry.ofHost? host = some spec ∧ spec.Passable others) ∨
      host.isCollection = true ∧ writer.registry.ofHost? host = none

namespace Extends

variable {writer reader : Engine} {hosts others : HostType → Prop} {sent asked : String}
  {declared : List FieldDescriptor} {members parts : List (Member Shape)}
  (h : writer.Extends reader hosts others sent asked declared members parts)
include h

/-- The writer's fields have different names. -/
theorem nodup_declared : (declared.map FieldDescriptor.name).Nodup := by
  obtain ⟨spec, registration, hspec, hrole⟩ := h.registered
  exact h.written.wellFormed.nodup_names (Registry.mem_of_resolve hspec) hrole

/-- The reader's fields have the names of the fields that it knows. -/
theorem names_eq : parts.map Member.name = members.map Member.name := by
  have hnames := h.same.imp fun _ _ hsame => hsame.1
  rw [← List.forall₂_eq_eq_eq, List.forall₂_map_left_iff, List.forall₂_map_right_iff]
  exact hnames

/-- The names of the reader's fields are among the writer's. -/
theorem sublist_names :
    (parts.map Member.name).Sublist (declared.map FieldDescriptor.name) := by
  have hnames := h.kept.map Prod.fst
  rw [List.map_map, List.map_map] at hnames
  exact h.names_eq ▸ hnames

/-- The reader's fields have different names. -/
theorem nodup_parts : (parts.map Member.name).Nodup :=
  h.nodup_declared.sublist h.sublist_names

/-- A field of the writer matches a part of its own name and type, or no part. -/
theorem match?_cases {field : FieldDescriptor} (hfield : field ∈ declared) :
    (∃ place part member, Name.match? (parts.map Member.name) field.name = some place ∧
      parts[place]? = some part ∧ member ∈ members ∧ part.name = field.name ∧
        member.name = field.name ∧ part.content.Resembles member.content ∧
          member.content.declared = field.type) ∨
    field.name ∉ parts.map Member.name ∧ Name.match? (parts.map Member.name) field.name = none := by
  by_cases hmem : field.name ∈ parts.map Member.name
  · obtain ⟨part, hpart, hname⟩ := List.mem_map.mp hmem
    obtain ⟨place, hplace⟩ := List.mem_iff_getElem?.mp hpart
    obtain ⟨member, hat, hsame, hresembles⟩ := exists_getElem?_of_forall₂ h.same hplace
    have hmember := List.mem_of_getElem? hat
    have hposition : (parts.map Member.name)[place]? = some field.name := by
      rw [List.getElem?_map, hplace, ← hname]
      rfl
    have hentry : (member.name, member.content.declared) ∈
        declared.map fun field => (field.name, field.type) :=
      h.kept.subset (List.mem_map.mpr ⟨member, hmember, rfl⟩)
    obtain ⟨other, hother, heq⟩ := List.mem_map.mp hentry
    obtain ⟨hown, htype⟩ := Prod.mk.inj heq
    have hone : other = field :=
      List.inj_on_of_nodup_map h.nodup_declared hother hfield (hown.trans (hsame.symm.trans hname))
    exact .inl ⟨place, part, member, Name.match?_of_getElem? h.nodup_parts hposition, hplace, hmember,
      hname, hsame.symm.trans hname, hresembles, hone ▸ htype.symm⟩
  · refine .inr ⟨hmem, ?_⟩
    cases hmatch : Name.match? (parts.map Member.name) field.name with
    | none => rfl
    | some place =>
      obtain ⟨other, hother, hsame⟩ := Name.exists_of_match?_eq_some hmatch
      obtain ⟨part, hpart, rfl⟩ := List.mem_map.mp (List.mem_of_getElem? hother)
      exact absurd hsame ((h.added field hfield hmem).2 part hpart)

variable {schemas : List Schema} {queue : SchemaQueue}

/-- The added fields can be passed over. -/
theorem passesOver (hagree : (writer.peers reader schemas queue).Agree hosts) :
    (writer.peers reader schemas queue).PassesOver others :=
  { hagree.linked with depth := h.depth, travels := h.travels, types := h.passable }

/-- The writer sends its struct with its declared fields. -/
theorem sends : writer.Sends reader hosts sent asked declared := by
  have hagree : (writer.peers reader [] []).Agree hosts := h.agree fun _ => .nil
  have hown : writer.registry.SameRoles writer.registry
      (fun host => HostType.Among hosts host ∨ HostType.Among others host)
      fun name => hosts (.collection name) ∨ others (.collection name) := by
    constructor
    · rintro host (hhost | hhost)
      · obtain ⟨spec, -, hspec, -⟩ := hagree.sameRoles.scalars host hhost
        exact ⟨spec, spec, hspec, hspec, rfl⟩
      · exact (h.passesOver hagree).sameRoles.scalars host hhost
    · rintro name (hname | hname)
      · exact (hagree.sameRoles.collections name hname).imp
          (fun ⟨spec, _, hspec, _⟩ => ⟨spec, spec, hspec, hspec, rfl⟩)
          fun ⟨hnone, _⟩ => ⟨hnone, hnone⟩
      · exact (h.passesOver hagree).sameRoles.collections name hname
  have hover : ∀ field ∈ declared, field.type.Over
      (fun host => HostType.Among hosts host ∨ HostType.Among others host)
      fun name => hosts (.collection name) ∨ others (.collection name) := by
    intro field hfield
    obtain ⟨_, _, member, -, -, hmember, -, -, -, htype⟩ | ⟨hnew, -⟩ := h.match?_cases hfield
    · exact htype ▸ (h.declarable member hmember).among.imp (fun _ => .inl) fun _ => .inl
    · exact (h.added field hfield hnew).1.imp (fun _ => .inr) fun _ => .inr
  have hwritten := h.written.wellFormed
  exact { h with derived := Schema.exists_ofFields hown hwritten hwritten hover true }

variable {content : List (String × Datum)}
  (hnames : declared.map FieldDescriptor.name = content.map Prod.fst)
include hnames

/-- The fields that the reader knows have the names of its parts. -/
theorem names_filter : ((content.filter fun field => field.1 ∈ parts.map Member.name).map Prod.fst) =
    parts.map Member.name := by
  have hfilter := filter_mem_of_sublist h.sublist_names h.nodup_declared
  rw [hnames, List.filter_map] at hfilter
  exact hfilter

/-- Only the fields that the reader knows give it anything. -/
theorem given_filter : Member.given (parts.map Member.name)
    (content.filter fun field => field.1 ∈ parts.map Member.name) =
      Member.given (parts.map Member.name) content := by
  rw [Member.given, Member.given, List.filterMap_filter]
  refine List.filterMap_congr fun field hfield => ?_
  by_cases hmem : field.1 ∈ parts.map Member.name
  · rw [if_pos (by simpa using hmem)]
  · have hname : field.1 ∈ declared.map FieldDescriptor.name := hnames ▸ List.mem_map_of_mem hfield
    obtain ⟨own, hown, hsame⟩ := List.mem_map.mp hname
    rw [if_neg (by simpa using hmem)]
    obtain ⟨_, part, _, -, hpart, -, hknown, -⟩ | ⟨-, hnone⟩ := h.match?_cases hown
    · have hin : part.name ∈ parts.map Member.name :=
        List.mem_map_of_mem (List.mem_of_getElem? hpart)
      exact absurd (hsame ▸ hknown ▸ hin) hmem
    · rw [← hsame, hnone]
      rfl

/-- The reader assembles exactly the fields that it knows. -/
theorem assemble_given :
    Member.assemble (Member.given (parts.map Member.name) content) parts 0 =
      .ok (content.filter fun field => field.1 ∈ parts.map Member.name) := by
  rw [← h.given_filter hnames]
  exact Member.assemble_given (h.names_filter hnames).symm h.nodup_parts

/-- The reader gives its parts the values of the fields that it knows, and passes over the others. -/
theorem givesParts (hagree : (writer.peers reader schemas queue).Agree hosts)
    (hheld : ∀ field ∈ content, field.1 ∉ parts.map Member.name → field.2.Held writer.shapes)
    (hholds : ∀ member ∈ members, ∀ value, (member.name, value) ∈ content →
      member.content.Holds reader.shapes value) {fuel : Nat}
    (hheight : Datum.heightOfFields content + 1 < fuel) :
    writer.GivesParts reader schemas queue fuel declared parts content := by
  intro fields hschema
  have hderived := Schema.forall₂_of_ofFields_ok hschema
  have hkeys : (([] ++ Member.given (parts.map Member.name) content).map Prod.fst).Nodup := by
    rw [List.nil_append, ← h.given_filter hnames]
    exact Member.nodup_given_self (h.names_filter hnames).symm h.nodup_parts
  refine Peers.mirrors_fields [] ?_ hkeys
  refine List.forall₂_iff_zip.mpr ⟨hderived.length_eq, fun {field made} hzip value hvalue => ?_⟩
  obtain ⟨hname, -, hwire⟩ := (List.forall₂_iff_zip.mp hderived).2 hzip
  have hfield := (List.of_mem_zip hzip).1
  have hlow : value.height + 1 < fuel :=
    Nat.lt_of_le_of_lt (Nat.succ_le_succ (Datum.height_le_of_mem_fields hvalue)) hheight
  obtain ⟨place, part, member, hmatch, hpart, hmember, -, hsame, hresembles, htype⟩ |
    ⟨hnew, hnone⟩ := h.match?_cases hfield
  · refine ⟨hname, fun other found hother hfound => ?_, fun hnone => ?_⟩
    · cases hother.symm.trans hmatch
      cases hfound.symm.trans hpart
      rw [← htype] at hwire ⊢
      rw [Read.datumWithin_eq_of_resembles hresembles]
      exact ((hagree.concur.follows fuel).declared (h.declarable member hmember)
        (hholds member hmember value (hsame ▸ hvalue)) hlow hwire 1 true).read
    · cases hnone.symm.trans hmatch
  · refine ⟨hname, fun place part hmatch _ => ?_, fun _ => ?_⟩
    · cases hmatch.symm.trans hnone
    · exact (h.passesOver hagree).below writer.shapes fuel (h.added field hfield hnew).1
        (hheld _ hvalue hnew) hlow hwire 1 true

omit hnames in
/-- What is written of the writer's struct are its declared fields. -/
theorem names_of_encode {name : String} {before after : WriteTables} {message : Message}
    (hencode : writer.encode (.scalar (.user sent) false) (.struct name content) before =
      .ok message after) : declared.map FieldDescriptor.name = content.map Prod.fst := by
  obtain ⟨frame, framed, -, -, hbody, -⟩ := h.exists_frame_of_encode hencode rfl
  obtain ⟨spec, info, between, data, -, -, hspec, -, hdata, -⟩ :=
    exists_decodeBody_eq h.refMode hbody
  obtain ⟨own, registration, hown, hrole⟩ := h.registered
  cases hspec.symm.trans hown
  rw [Write.datum_of_struct hspec hrole] at hdata
  split at hdata
  · cases hdata
  · exact Write.names_of_fields_ok hdata

end Extends

end Engine

/-- Fields that a writer adds to a struct do not lock out a reader with the fields of before. Their
types may be structs and enums with names that only the writer has registered, to any depth. The
reader finds exactly the fields that it knows, and nothing is left of the message. -/
theorem added_fields_passed_over {writer reader : Engine} {hosts others : HostType → Prop}
    {sent asked : String} {declared : List FieldDescriptor} {members parts : List (Member Shape)}
    (h : writer.Extends reader hosts others sent asked declared members parts) {title : String}
    (hshape : reader.shapes.resolve (.user asked) = .struct title parts) {name : String}
    {content : List (String × Datum)}
    (hheld : ∀ field ∈ content, field.1 ∉ parts.map Member.name → field.2.Held writer.shapes)
    (hholds : ∀ member ∈ members, ∀ value, (member.name, value) ∈ content →
      member.content.Holds reader.shapes value) {before after : WriteTables} {message : Message}
    (hencode : writer.encode (.scalar (.user sent) false) (.struct name content) before =
      .ok message after) (label : String) (context : ReadContext) :
    ∃ kept, reader.decode ⟨label, .scalar (.user asked) false, .user asked⟩
      ⟨message.toList, context⟩ =
        .ok (.struct title (content.filter fun field => field.1 ∈ parts.map Member.name))
          ⟨[], kept⟩ := by
  have hnames := h.names_of_encode hencode
  obtain ⟨kept, hread⟩ := h.sends.exists_decodeWithin_eq_evolved hshape hencode
    (fun schemas hagree => h.givesParts hnames hagree hheld hholds (Nat.lt_succ_self _)) label context
  rw [h.assemble_given hnames] at hread
  exact ⟨kept, (Engine.decode_eq_of_ends (by rw [hread]; exact nofun)).trans hread⟩

namespace Sample

/-- What readers know of an account. -/
def accountParts : List (Member Shape) := [⟨"owner", false, .string⟩]

/-- An account with badges in front of its owner and a grade behind. -/
def laterAccount : List FieldDescriptor :=
  [⟨"badges", .list "badges" (.scalar (.user "Badge") false) false, false⟩,
    ⟨"owner", .scalar .string false, false⟩, ⟨"grade", .scalar (.user "Grade") true, false⟩]

/-- An account with a mood behind its owner. -/
def moodyAccount : List FieldDescriptor :=
  [⟨"owner", .scalar .string false, false⟩, ⟨"mood", .scalar (.user "Mood") false, false⟩]

/-- An engine for accounts with the given fields and for other types, whose schemas travel. -/
def bank (changes : List Registry.Change) (fields : List FieldDescriptor) : Engine where
  config := ⟨true, true, .tracking, 5⟩
  registry := Registry.standard.history (changes ++ [.struct (.user "Account") (.id 1) fields])
  shapes := [("Account", .struct "Account" accountParts)]

/-- An engine for accounts and nothing else. -/
def teller : Engine :=
  bank [] [⟨"owner", .scalar .string false, false⟩]

/-- An engine for accounts with badges and grades. -/
def laterBank : Engine :=
  bank [.struct (.user "Badge") (.id 2) [⟨"grade", .scalar (.user "Grade") false, false⟩,
    ⟨"years", .list "years" (.scalar (.int .int32) true) false, true⟩],
    .enum (.user "Grade") (.name "bank" "Grade")] laterAccount

/-- An engine for accounts with moods, which are registered by a number. -/
def moodyBank : Engine :=
  bank [.enum (.user "Mood") (.id 2)] moodyAccount

/-- The target of who reads accounts. -/
def anAccount : Target := ⟨"Account", .scalar (.user "Account") false, .user "Account"⟩

/-- The grade in the second place. -/
def gold : Datum := .unitVariant "Grade" 1 "Gold"

/-- The fields of an account with one badge and a grade. -/
def richAccount : List (String × Datum) :=
  [("badges", .seq true [.struct "Badge" [("grade", gold),
    ("years", .seq true [.some (.int .int32 7), .none])]]),
    ("owner", .text "ada"), ("grade", .some gold)]

/-- The fields of an account with a mood. -/
def gladAccount : List (String × Datum) :=
  [("owner", .text "ada"), ("mood", .unitVariant "Mood" 0 "Glad")]

/-- Accounts with badges and grades have what the teller knows of an account, and the teller can
pass over the rest. -/
theorem extends_laterBank : laterBank.Extends teller (fun _ => False)
    (· ∈ [HostType.user "Badge", .user "Grade", .collection "badges", .collection "years"]) "Account"
    "Account" laterAccount accountParts accountParts where
  xlang := rfl
  compatible := rfl
  refMode := rfl
  depth := Nat.le_refl _
  written := .history .standard
  own := .history .standard
  addressable := by decide +kernel
  types := nofun
  travels := rfl
  registered := ⟨_, _, rfl, rfl⟩
  known := ⟨_, rfl⟩
  declarable := by
    intro part hpart
    cases List.mem_singleton.mp hpart
    exact .string
  kept := by decide
  same := .cons ⟨rfl, .refl _⟩ .nil
  added := by
    intro field hfield hnew
    simp only [laterAccount, List.mem_cons, List.not_mem_nil, or_false] at hfield
    rcases hfield with rfl | rfl | rfl
    · exact ⟨⟨by decide, show _ ∈ _ by decide⟩, by decide +kernel⟩
    · exact absurd (List.mem_singleton.mpr rfl) hnew
    · exact ⟨show _ ∈ _ by decide, by decide +kernel⟩
  passable := by
    intro host hhost
    simp only [List.mem_cons, List.not_mem_nil, or_false] at hhost
    rcases hhost with rfl | rfl | rfl | rfl
    · refine .inl ⟨_, rfl, .struct rfl fun field hfield => ?_⟩
      simp only [List.mem_cons, List.not_mem_nil, or_false] at hfield
      rcases hfield with rfl | rfl
      · exact show _ ∈ _ by decide
      · exact ⟨by decide, trivial⟩
    · exact .inl ⟨_, rfl, .enum rfl⟩
    · exact .inr ⟨rfl, rfl⟩
    · exact .inr ⟨rfl, rfl⟩

/-- Grades are values of a program with grades. -/
theorem held_gold : gold.Held laterBank.shapes :=
  ⟨.enum "Grade" [⟨"Silver", .unit⟩, ⟨"Gold", .unit⟩], .unitVariant rfl (by decide)⟩

/-- So are badges. -/
theorem held_badges : (Datum.seq true [.struct "Badge" [("grade", gold),
    ("years", .seq true [.some (.int .int32 7), .none])]]).Held laterBank.shapes := by
  obtain ⟨shape, hshape⟩ := held_gold
  refine ⟨.list "badges" (.struct "Badge" [⟨"grade", false, shape⟩,
    ⟨"years", false, .list "years" (.option (.int .int32))⟩]), .list (fun v hv => ?_) (.inl rfl)⟩
  cases List.mem_singleton.mp hv
  refine .struct rfl fun part hpart => ?_
  simp only [List.zip_cons_cons, List.zip_nil_right, List.mem_cons, List.not_mem_nil, or_false]
    at hpart
  rcases hpart with rfl | rfl
  · exact hshape
  · refine .list (fun v hv => ?_) (.inl rfl)
    simp only [List.mem_cons, List.not_mem_nil, or_false] at hv
    rcases hv with rfl | rfl
    · exact .some (.int rfl)
    · exact .none _

/-- The bytes that an engine sends for an account, if it can. -/
def sent? (writer : Engine) (content : List (String × Datum)) : Option (List UInt8) :=
  match writer.encode (.scalar (.user "Account") false) (.struct "Account" content) .empty with
  | .ok message _ => some message.toList
  | .error .. => none

/-- How the teller fails to read an account, if it does. -/
def tellerFailure? (bytes : List UInt8) : Option Error :=
  match teller.decode anAccount ⟨bytes, .empty⟩ with
  | .ok .. => none
  | .error e _ => some e

end Sample

/-- A teller who knows neither badges nor grades reads the owner of an account that has both. -/
theorem added_fields_passed_over_account :
    ∃ message after, Sample.laterBank.encode (.scalar (.user "Account") false)
        (.struct "Account" Sample.richAccount) .empty = .ok message after ∧
      ∃ kept, Sample.teller.decode Sample.anAccount ⟨message.toList, .empty⟩ =
        .ok (.struct "Account" [("owner", .text "ada")]) ⟨[], kept⟩ := by
  have hheld : ∀ field ∈ Sample.richAccount,
      field.1 ∉ Sample.accountParts.map Member.name → field.2.Held Sample.laterBank.shapes := by
    intro field hfield hnew
    simp only [Sample.richAccount, List.mem_cons, List.not_mem_nil, or_false] at hfield
    rcases hfield with rfl | rfl | rfl
    · exact Sample.held_badges
    · exact absurd (List.mem_singleton.mpr rfl) hnew
    · obtain ⟨shape, hshape⟩ := Sample.held_gold
      exact ⟨.option shape, .some hshape⟩
  have hholds : ∀ part ∈ Sample.accountParts, ∀ value, (part.name, value) ∈ Sample.richAccount →
      part.content.Holds Sample.teller.shapes value := by
    intro part hpart value hvalue
    cases List.mem_singleton.mp hpart
    have howner : value = .text "ada" := by
      simpa [Sample.richAccount] using hvalue
    exact howner ▸ .string "ada"
  have hok : (Sample.laterBank.encode (.scalar (.user "Account") false)
      (.struct "Account" Sample.richAccount) .empty matches .ok ..) = true := by
    decide +kernel
  cases hencode : Sample.laterBank.encode (.scalar (.user "Account") false)
      (.struct "Account" Sample.richAccount) .empty with
  | error e after =>
    rw [hencode] at hok
    cases hok
  | ok message after =>
    exact ⟨message, after, rfl, added_fields_passed_over Sample.extends_laterBank rfl hheld hholds
      hencode "Account" .empty⟩

/-- A teller who does not know moods cannot read an account with one: the teller has only to pass
over the mood, which matches none of its fields, but looks up its number all the same. -/
theorem numbered_enum_locks_out :
    Name.match? (Sample.accountParts.map Member.name) "mood" = none ∧
      (Sample.sent? Sample.moodyBank Sample.gladAccount).bind Sample.tellerFailure? =
        some (.unregistered "user type id 2") := by
  decide +kernel

end SchemaWire
