import SchemaWire.Data.Read
import SchemaWire.Proofs.Message.Peers
import SchemaWire.Proofs.Name.Match

/-!
# Fields find the parts that they match

The fields of a struct arrive in the writer's order. Each of them is read for the reader's
part whose name matches, or passed over where none does. The parts are then assembled in the
reader's order.
-/

namespace SchemaWire

namespace Member

/-- What the writer's fields give to the reader's parts: the value of each field that matches,
under the place of its part. -/
def given (names : List String) (fields : List (String × Datum)) : List (Nat × Datum) :=
  fields.filterMap fun field => (Name.match? names field.1).map (·, field.2)

variable {names : List String} {fields : List (String × Datum)} {place : Nat}

/-- Without parts nothing is given. -/
theorem given_nil (fields : List (String × Datum)) : given [] fields = [] :=
  List.filterMap_eq_nil_iff.mpr fun _ _ => rfl

/-- A field whose name matches gives its value before the others. -/
theorem given_cons_of_match {field : String × Datum} (rest : List (String × Datum))
    (hmatch : Name.match? names field.1 = some place) :
    given names (field :: rest) = (place, field.2) :: given names rest := by
  simp [given, hmatch]

/-- A field gives its value where its name matches. -/
theorem mem_given {field : String × Datum} (hfield : field ∈ fields)
    (hmatch : Name.match? names field.1 = some place) : (place, field.2) ∈ given names fields :=
  List.mem_filterMap.mpr ⟨field, hfield, by rw [hmatch]; rfl⟩

/-- At a matching place there is a part. -/
theorem exists_part {parts : List (Member Shape)} {name : String}
    (h : Name.match? (parts.map Member.name) name = some place) :
    ∃ part, parts[place]? = some part := by
  obtain ⟨other, hother, -⟩ := Name.exists_of_match?_eq_some h
  rw [List.getElem?_map] at hother
  obtain ⟨part, hpart, -⟩ := Option.map_eq_some_iff.mp hother
  exact ⟨part, hpart⟩

/-- Where the names of parts are distinct, a part is found under its own name. -/
theorem eq_of_match? {parts : List (Member Shape)} (hnodup : (parts.map Member.name).Nodup)
    {member part : Member Shape} (hmember : member ∈ parts)
    (hmatch : Name.match? (parts.map Member.name) member.name = some place)
    (hpart : parts[place]? = some part) : part = member := by
  obtain ⟨index, hindex⟩ := List.mem_iff_getElem?.mp hmember
  have hname : (parts.map Member.name)[index]? = some member.name := by
    rw [List.getElem?_map, hindex]
    rfl
  have hplace := Name.match?_of_getElem? hnodup hname
  cases hmatch.symm.trans hplace
  cases hpart.symm.trans hindex
  rfl

/-- In a list without repeated keys, looking a key up gives its value. -/
theorem lookup_of_mem {found : List (Nat × Datum)} (hnodup : (found.map Prod.fst).Nodup)
    {value : Datum} (hmem : (place, value) ∈ found) : found.lookup place = some value := by
  induction found with
  | nil => cases hmem
  | cons first rest ih =>
    obtain ⟨key, other⟩ := first
    have hkeys := List.nodup_cons.mp hnodup
    rcases List.mem_cons.mp hmem with heq | hrest
    · cases heq
      rw [List.lookup_cons, beq_self_eq_true]
    · have hkey : place ∈ rest.map Prod.fst := List.mem_map.mpr ⟨(place, value), hrest, rfl⟩
      have hne : place ≠ key := by
        rintro rfl
        exact hkeys.1 hkey
      rw [List.lookup_cons, beq_false_of_ne hne]
      exact ih hkeys.2 hrest

/-- A key that does not occur is not found. -/
theorem lookup_eq_none {found : List (Nat × Datum)} (h : place ∉ found.map Prod.fst) :
    found.lookup place = none := by
  rw [List.lookup_eq_none_iff]
  intro entry hmem
  have hne : place ≠ entry.1 := by
    rintro rfl
    exact h (List.mem_map_of_mem hmem)
  exact bne_iff_ne.mpr hne

/-- Parts that were all found are assembled with what was found for them. -/
theorem assemble_eq_ok {found : List (Nat × Datum)} {parts : List (Member Shape)} {start : Nat}
    (hnames : parts.map Member.name = fields.map Prod.fst)
    (h : ∀ i field, fields[i]? = some field → found.lookup (start + i) = some field.2) :
    assemble found parts start = .ok fields := by
  induction parts generalizing fields start with
  | nil =>
    cases fields with
    | nil => rfl
    | cons => cases hnames
  | cons member others ih =>
    cases fields with
    | nil => cases hnames
    | cons field rest =>
      obtain ⟨name, value⟩ := field
      rw [List.map_cons, List.map_cons] at hnames
      obtain ⟨hname, hnames⟩ := List.cons.inj hnames
      have hfirst := h 0 (name, value) rfl
      have hrest := ih hnames fun i field hfield => by
        have hnext := h (i + 1) field hfield
        rwa [Nat.add_comm i 1, ← Nat.add_assoc] at hnext
      rw [Nat.add_zero] at hfirst
      cases hname
      rw [assemble, hfirst, hrest]
      rfl

/-- Fields of distinct names that match distinct places give no place two values. -/
theorem nodup_given (hfields : (fields.map Prod.fst).Nodup)
    (hplaces : ∀ a ∈ fields, ∀ b ∈ fields, ∀ place, Name.match? names a.1 = some place →
      Name.match? names b.1 = some place → a.1 = b.1) :
    ((given names fields).map Prod.fst).Nodup := by
  induction fields with
  | nil => exact List.nodup_nil
  | cons field rest ih =>
    have hkeys := List.nodup_cons.mp hfields
    have hrest := ih hkeys.2 fun a ha b hb =>
      hplaces a (List.mem_cons_of_mem _ ha) b (List.mem_cons_of_mem _ hb)
    cases hmatch : Name.match? names field.1 with
    | none => simpa [given, hmatch] using hrest
    | some place =>
      have hfresh : place ∉ (given names rest).map Prod.fst := by
        intro hmem
        obtain ⟨entry, hentry, hkey⟩ := List.mem_map.mp hmem
        obtain ⟨other, hother, hgiven⟩ := List.mem_filterMap.mp hentry
        obtain ⟨found, hfound, rfl⟩ := Option.map_eq_some_iff.mp hgiven
        cases hkey
        have hsame := hplaces field List.mem_cons_self other (List.mem_cons_of_mem _ hother)
          found hmatch hfound
        exact hkeys.1 (hsame ▸ List.mem_map_of_mem hother)
      rw [given_cons_of_match rest hmatch]
      exact List.nodup_cons.mpr ⟨hfresh, hrest⟩

/-- Fields whose names have distinct normal forms give no place two values. -/
theorem nodup_given_of_normalized
    (h : (fields.map fun field => Name.normalized field.1).Nodup) :
    ((given names fields).map Prod.fst).Nodup := by
  have hnames : (fields.map Prod.fst).Nodup := by
    refine List.Nodup.of_map Name.normalized ?_
    rwa [List.map_map]
  refine nodup_given hnames fun a ha b hb place hfirst hsecond => ?_
  have hsame := Name.normalized_eq_of_match? hfirst hsecond
  rw [List.inj_on_of_nodup_map h ha hb hsame]

/-- Fields with the names of the parts give each part its own value. -/
theorem nodup_given_self (hnames : names = fields.map Prod.fst) (hnodup : names.Nodup) :
    ((given names fields).map Prod.fst).Nodup := by
  have hown (field : String × Datum) (hfield : field ∈ fields) (place : Nat)
      (hmatch : Name.match? names field.1 = some place) : names[place]? = some field.1 := by
    obtain ⟨index, hindex⟩ := List.mem_iff_getElem?.mp (List.mem_map_of_mem (f := Prod.fst) hfield)
    rw [← hnames] at hindex
    have hplace := Name.match?_of_getElem? hnodup hindex
    cases hmatch.symm.trans hplace
    exact hindex
  refine nodup_given (hnames ▸ hnodup) fun a ha b hb place hfirst hsecond => ?_
  have hsame := (hown a ha place hfirst).symm.trans (hown b hb place hsecond)
  exact Option.some.inj hsame

/-- Fields with the names of the parts are assembled as they are. -/
theorem assemble_given {parts : List (Member Shape)}
    (hnames : parts.map Member.name = fields.map Prod.fst)
    (hnodup : (parts.map Member.name).Nodup) :
    assemble (given (parts.map Member.name) fields) parts 0 = .ok fields := by
  refine assemble_eq_ok hnames fun i field hfield => ?_
  have hname : (parts.map Member.name)[i]? = some field.1 := by
    rw [hnames, List.getElem?_map, hfield]
    rfl
  have hmatch := Name.match?_of_getElem? hnodup hname
  have hmem := mem_given (List.mem_of_getElem? hfield) hmatch
  rw [Nat.zero_add]
  exact lookup_of_mem (nodup_given_self hnames hnodup) hmem

end Member

namespace Peers

variable {peers : Peers}

/-- Whoever reads the fields of a struct gets the value of the field where it matches a part,
and passes over it where it does not. -/
structure Gives (peers : Peers) (depth : Nat) (read : WireType → Shape → Read Datum)
    (skip : WireType → Read Unit) (parts : List (Member Shape)) (field : FieldDescriptor)
    (made : SchemaField) (value : Datum) : Prop where
  /-- The field travels under its name. -/
  name : made.name = field.name
  /-- Where the name matches, the value is read. -/
  found : ∀ place part, Name.match? (parts.map Member.name) field.name = some place →
    parts[place]? = some part →
    peers.Mirrors
      (Write.datum peers.write depth (.declared field.type field.tracked true) value)
      (read made.type part.content) value
  /-- Where the name does not match, the value is passed over. -/
  skipped : Name.match? (parts.map Member.name) field.name = none →
    peers.Mirrors
      (Write.datum peers.write depth (.declared field.type field.tracked true) value)
      (skip made.type) ()

end Peers

/-- To pass over fields is to read them for a shape without parts. -/
theorem Read.skipFields_eq (read : WireType → Shape → Read Datum) (skip : WireType → Read Unit)
    (fields : List SchemaField) (found : List (Nat × Datum)) :
    skipFields skip fields = (do let _ ← Read.fields read skip [] fields found) := by
  induction fields with
  | nil => rfl
  | cons field rest ih =>
    have hmatch : Name.match? (([] : List (Member Shape)).map Member.name) field.name = none := rfl
    rw [skipFields, Read.fields, hmatch, ih]
    simp only [Option.bind_eq_bind, Option.bind_none, bind_assoc]

namespace Peers

variable {peers : Peers}

/-- The fields of a struct are given to the parts that they match. -/
theorem mirrors_fields {depth : Nat} {read : WireType → Shape → Read Datum}
    {skip : WireType → Read Unit} {parts : List (Member Shape)} {declared : List FieldDescriptor}
    {fields : List SchemaField} {content : List (String × Datum)} (found : List (Nat × Datum))
    (h : List.Forall₂ (fun field made => ∀ value, (field.name, value) ∈ content →
      peers.Gives depth read skip parts field made value) declared fields)
    (hnodup :
      ((found ++ Member.given (parts.map Member.name) content).map Prod.fst).Nodup) :
    peers.Mirrors (Write.fields peers.write depth declared content)
      (Read.fields read skip parts fields found)
      (found ++ Member.given (parts.map Member.name) content) := by
  induction declared generalizing fields content found with
  | nil =>
    cases h
    cases content with
    | nil =>
      rw [Write.fields, Member.given, List.filterMap_nil, List.append_nil]
      exact .pure fun _ => .pure found
    | cons first rest =>
      obtain ⟨name, value⟩ := first
      by_cases habsent : value = .absent
      · subst habsent
        rw [Write.fields]
        exact .throw _
      · rw [Write.fields_nil_cons habsent]
        exact .throw _
  | cons field others ih =>
    cases h with
    | @cons _ made _ rest' hfield hothers =>
      cases content with
      | nil =>
        rw [Write.fields]
        exact .throw _
      | cons first rest =>
        obtain ⟨name, value⟩ := first
        by_cases habsent : value = .absent
        · subst habsent
          rw [Write.fields]
          exact .throw _
        rw [Write.fields_cons habsent]
        by_cases hname : field.name = name
        · subst hname
          have hgives := hfield value List.mem_cons_self
          have hrest (found' : List (Nat × Datum))
              (hkeys : ((found' ++ Member.given (parts.map Member.name) rest).map Prod.fst).Nodup) :
              peers.Mirrors (Write.fields peers.write depth others rest)
                (Read.fields read skip parts rest' found')
                (found' ++ Member.given (parts.map Member.name) rest) :=
            ih found' (hothers.imp fun _ _ h value hmem => h value (List.mem_cons_of_mem _ hmem)) hkeys
          rw [if_neg (not_not_intro rfl)]
          rw [Read.fields, hgives.name]
          cases hmatch : Name.match? (parts.map Member.name) field.name with
          | none =>
            have hgiven : Member.given (parts.map Member.name) ((field.name, value) :: rest) =
                Member.given (parts.map Member.name) rest := by
              simp [Member.given, hmatch]
            rw [hgiven] at hnodup ⊢
            exact (hgives.skipped hmatch).append (hrest found hnodup)
          | some place =>
            obtain ⟨part, hpart⟩ := Member.exists_part hmatch
            have hgiven : found ++ Member.given (parts.map Member.name) ((field.name, value) :: rest) =
                found ++ [(place, value)] ++ Member.given (parts.map Member.name) rest := by
              rw [Member.given_cons_of_match rest hmatch, List.append_assoc, List.singleton_append]
            rw [hgiven] at hnodup ⊢
            have hkeys : place ∉ found.map Prod.fst := by
              rw [List.map_append, List.map_append] at hnodup
              have hfront := (List.nodup_append.mp hnodup).1
              exact fun hmem => (List.nodup_append.mp hfront).2.2 place hmem place
                List.mem_cons_self rfl
            have hfresh : (found.lookup place).isSome = false := by
              rw [Member.lookup_eq_none hkeys]
              rfl
            simp only [hpart, hfresh, Option.bind_eq_bind, Option.bind_some, Option.pure_def,
              Bool.false_eq_true, if_false]
            exact (hgives.found place part hmatch hpart).append (hrest _ hnodup)
        · rw [if_pos hname]
          exact .throw _

end Peers

end SchemaWire
