import Mathlib.Data.List.Pairwise
import SchemaWire.Proofs.Message.Evolution
import SchemaWire.Proofs.Types.History

/-!
# Fields are delivered to parts

A reader is given the fields of a struct under the names of its own parts. A field goes to the
part of its name, and if there is none, to the first part whose name has the same normal form,
whichever part other fields go to. So two fields may go to one part, and then the struct cannot be
read. Where every part is given one field at most, all fields are read, and a part that has the
name of a field is given what that field holds.
-/

namespace SchemaWire

namespace Name

variable {parts names : List String} {name key : String}

/-- The name of the part that a field of the given name goes to. -/
def key? (parts : List String) (name : String) : Option String :=
  (match? parts name).bind (parts[·]?)

/-- The names under which fields of the given names arrive, in the order of the fields. -/
def keys (parts names : List String) : List String :=
  names.filterMap (key? parts)

/-- The places of the parts that fields of the given names go to, in the order of the fields. -/
def places (parts names : List String) : List Nat :=
  names.filterMap (match? parts)

/-- A field goes to the part of its name. -/
theorem key?_of_mem (h : name ∈ parts) : key? parts name = some name := by
  cases hfound : parts.findIdx? (· == name) with
  | none =>
    have hdiffers := List.findIdx?_eq_none_iff.mp hfound name h
    rw [beq_self_eq_true] at hdiffers
    cases hdiffers
  | some place =>
    obtain ⟨hlt, hsame, -⟩ := List.findIdx?_eq_some_iff_getElem.mp hfound
    have hmatch : match? parts name = some place := by rw [match?, hfound]
    rw [key?, hmatch, Option.bind_some, List.getElem?_eq_getElem hlt, eq_of_beq hsame]

/-- A field goes to a part whose name has the normal form of its own. -/
theorem normalized_eq_of_key? (h : key? parts name = some key) :
    key ∈ parts ∧ normalized key = normalized name := by
  obtain ⟨place, hmatch, hkey⟩ := Option.bind_eq_some_iff.mp h
  obtain ⟨other, hother, hsame⟩ := exists_of_match?_eq_some hmatch
  cases hkey.symm.trans hother
  exact ⟨List.mem_of_getElem? hkey, hsame⟩

/-- A field goes to some part if a name has the normal form of its own. -/
theorem exists_key?_of_normalized_eq (h : key ∈ parts) (hsame : normalized key = normalized name) :
    ∃ other, key? parts name = some other := by
  have hmatch : match? parts name ≠ none := by
    rw [match?]
    split
    · exact Option.some_ne_none _
    · intro hnone
      have hdiffers := List.findIdx?_eq_none_iff.mp hnone key h
      exact ne_of_beq_false hdiffers hsame
  obtain ⟨place, hplace⟩ := Option.ne_none_iff_exists'.mp hmatch
  obtain ⟨other, hother, -⟩ := exists_of_match?_eq_some hplace
  exact ⟨other, by rw [key?, hplace, Option.bind_some, hother]⟩

/-- Different fields that go to one part make its name arrive twice. -/
theorem nodup_keys_iff (hnames : names.Nodup) :
    (keys parts names).Nodup ↔
      ∀ first ∈ names, ∀ second ∈ names, first ≠ second →
        ∀ key, key? parts first = some key → key? parts second ≠ some key := by
  rw [keys, List.Nodup, List.pairwise_filterMap]
  constructor
  · intro hpairs first hfirst second hsecond hne key hkey hsame
    have hsymm : Std.Symm fun a b : String => ∀ key, key? parts a = some key →
        ∀ other, key? parts b = some other → key ≠ other :=
      ⟨fun a b h key hkey other hother heq => h other hother key hkey heq.symm⟩
    exact hpairs.forall hfirst hsecond hne key hkey key hsame rfl
  · intro happart
    refine hnames.imp_of_mem fun {a b} ha hb hne key hkey other hother heq => ?_
    cases heq
    exact happart a ha b hb hne key hkey hother

/-- Where the reader's names are among the writer's, each of them arrives once exactly if no other
field of the writer has the normal form of one. -/
theorem nodup_keys_iff_of_subset (hnames : names.Nodup) (hsub : parts ⊆ names) :
    (keys parts names).Nodup ↔
      ∀ name ∈ names, name ∉ parts → ∀ part ∈ parts, normalized part ≠ normalized name := by
  rw [nodup_keys_iff hnames]
  constructor
  · intro happart name hname hnew part hpart hsame
    obtain ⟨key, hkey⟩ := exists_key?_of_normalized_eq hpart hsame
    have hmem := (normalized_eq_of_key? hkey).1
    have hne : name ≠ key := fun heq => hnew (heq ▸ hmem)
    exact happart name hname key (hsub hmem) hne key hkey (key?_of_mem hmem)
  · intro halone first hfirst second hsecond hne key hkey hother
    -- A field that is not a part of its own name would share its normal form with the key.
    have hown {name : String} (hname : name ∈ names) (h : key? parts name = some key) :
        name = key := by
      by_cases hmem : name ∈ parts
      · exact Option.some.inj ((key?_of_mem hmem).symm.trans h)
      · obtain ⟨hpart, hsame⟩ := normalized_eq_of_key? h
        exact absurd hsame (halone name hname hmem key hpart)
    exact hne ((hown hfirst hkey).trans (hown hsecond hother).symm)

/-- Where the parts have different names, a name arrives twice exactly if a place is taken twice. -/
theorem nodup_keys_iff_nodup_places (hparts : parts.Nodup) :
    (keys parts names).Nodup ↔ (places parts names).Nodup := by
  -- A key is the name at its place, and different places have different names.
  have hsame : (keys parts names).map some = (places parts names).map (parts[·]?) := by
    induction names with
    | nil => rfl
    | cons name rest ih =>
      cases hmatch : match? parts name with
      | none =>
        have hkey : key? parts name = none := by rw [key?, hmatch]; rfl
        rw [keys, places, List.filterMap_cons_none hkey, List.filterMap_cons_none hmatch]
        exact ih
      | some place =>
        obtain ⟨key, hkey, -⟩ := exists_of_match?_eq_some hmatch
        have hgiven : key? parts name = some key := by rw [key?, hmatch, Option.bind_some, hkey]
        rw [keys, places, List.filterMap_cons_some hgiven, List.filterMap_cons_some hmatch,
          List.map_cons, List.map_cons, hkey]
        exact congrArg _ ih
  have hinj : ∀ i ∈ places parts names, ∀ j ∈ places parts names,
      parts[i]? = parts[j]? → i = j := by
    intro i hi j _ heq
    obtain ⟨name, -, hmatch⟩ := List.mem_filterMap.mp hi
    obtain ⟨key, hkey, -⟩ := exists_of_match?_eq_some hmatch
    exact (List.getElem?_inj (List.getElem?_eq_some_iff.mp hkey).1 hparts).mp heq
  rw [← List.nodup_map_iff (Option.some_injective _), hsame]
  exact ⟨.of_map _, fun h => h.map_on hinj⟩

end Name

/-- A key that occurs is found. -/
theorem Member.exists_lookup_of_mem {found : List (Nat × Datum)} {place : Nat}
    (h : place ∈ found.map Prod.fst) : ∃ value, found.lookup place = some value := by
  obtain ⟨entry, hentry, rfl⟩ := List.mem_map.mp h
  cases hlookup : found.lookup entry.1 with
  | none => exact absurd rfl (bne_iff_ne.mp (List.lookup_eq_none_iff.mp hlookup entry hentry))
  | some value => exact ⟨value, rfl⟩

namespace Read

/-- Read the fields of a struct one after the other, whatever part another field goes to. -/
def deliver (content : WireType → Shape → Read Datum) (skip : WireType → Read Unit)
    (parts : List (Member Shape)) : List SchemaField → Read (List (Nat × Datum))
  | [] => return []
  | field :: rest => do
    let part? := do
      let place ← Name.match? (parts.map Member.name) field.name
      let part ← parts[place]?
      return (place, part)
    match part? with
    | some (place, part) =>
      let value ← content field.type part.content
      return (place, value) :: (← deliver content skip parts rest)
    | none =>
      skip field.type
      deliver content skip parts rest

section Deliver

variable {content : WireType → Shape → Read Datum} {skip : WireType → Read Unit}
  {parts : List (Member Shape)} {field : SchemaField} {place : Nat} {part : Member Shape}

/-- A field that matches a part is read for it. -/
theorem deliver_of_match (hmatch : Name.match? (parts.map Member.name) field.name = some place)
    (hpart : parts[place]? = some part) (rest : List SchemaField) :
    deliver content skip parts (field :: rest) = (do
      let value ← content field.type part.content
      return (place, value) :: (← deliver content skip parts rest)) := by
  rw [deliver, hmatch]
  simp only [Option.bind_eq_bind, Option.bind_some, hpart, Option.pure_def]

/-- A field that matches no part is passed over. -/
theorem deliver_of_no_match (hmatch : Name.match? (parts.map Member.name) field.name = none)
    (rest : List SchemaField) :
    deliver content skip parts (field :: rest) = (do
      skip field.type
      deliver content skip parts rest) := by
  rw [deliver, hmatch]
  simp only [Option.bind_eq_bind, Option.bind_none]

/-- A field that matches a part is read for it, unless the part has a value. -/
theorem fields_of_match (hmatch : Name.match? (parts.map Member.name) field.name = some place)
    (hpart : parts[place]? = some part) (rest : List SchemaField) (found : List (Nat × Datum)) :
    fields content skip parts (field :: rest) found = (do
      if (found.lookup place).isSome then throw .rejected
      let value ← content field.type part.content
      fields content skip parts rest (found ++ [(place, value)])) := by
  rw [fields, hmatch]
  simp only [Option.bind_eq_bind, Option.bind_some, hpart, Option.pure_def]

/-- A field that matches no part is passed over. -/
theorem fields_of_no_match (hmatch : Name.match? (parts.map Member.name) field.name = none)
    (rest : List SchemaField) (found : List (Nat × Datum)) :
    fields content skip parts (field :: rest) found = (do
      skip field.type
      fields content skip parts rest found) := by
  rw [fields, hmatch]
  simp only [Option.bind_eq_bind, Option.bind_none]

/-- Where no place is taken twice, nothing but the fields themselves is in the way of reading
them. -/
theorem fields_eq_deliver {schema : List SchemaField} {found : List (Nat × Datum)}
    (h : (found.map Prod.fst ++
      Name.places (parts.map Member.name) (schema.map SchemaField.name)).Nodup) :
    fields content skip parts schema found = (do
      return found ++ (← deliver content skip parts schema)) := by
  induction schema generalizing found with
  | nil => simp only [fields, deliver, pure_bind, List.append_nil]
  | cons field rest ih =>
    cases hmatch : Name.match? (parts.map Member.name) field.name with
    | none =>
      rw [List.map_cons, Name.places, List.filterMap_cons_none hmatch] at h
      rw [fields_of_no_match hmatch, deliver_of_no_match hmatch, ih h, bind_assoc]
    | some place =>
      obtain ⟨part, hpart⟩ := Member.exists_part hmatch
      rw [List.map_cons, Name.places, List.filterMap_cons_some hmatch] at h
      have hnew : place ∉ found.map Prod.fst := fun hmem =>
        (List.nodup_append.mp h).2.2 place hmem place List.mem_cons_self rfl
      have hfresh : (found.lookup place).isSome = false := by
        rw [Member.lookup_eq_none hnew, Option.isSome_none]
      -- A place goes over from those to come to those found, whatever value it gets.
      have hrest (value : Datum) : ((found ++ [(place, value)]).map Prod.fst ++
          Name.places (parts.map Member.name) (rest.map SchemaField.name)).Nodup := by
        rw [List.map_append, List.append_assoc]
        exact h
      rw [fields_of_match hmatch hpart, deliver_of_match hmatch hpart, hfresh]
      simp only [Bool.false_eq_true, if_false, bind_assoc, pure_bind, ih (hrest _),
        List.append_assoc, List.singleton_append]

/-- What is delivered is delivered to the places that the fields match, in their order. -/
theorem places_of_deliver_ok {schema : List SchemaField} {found : List (Nat × Datum)}
    {s t : ReadState} (h : deliver content skip parts schema s = .ok found t) :
    found.map Prod.fst = Name.places (parts.map Member.name) (schema.map SchemaField.name) := by
  induction schema generalizing found s with
  | nil =>
    cases h
    rfl
  | cons field rest ih =>
    cases hmatch : Name.match? (parts.map Member.name) field.name with
    | none =>
      rw [deliver_of_no_match hmatch] at h
      obtain ⟨-, s', -, hrest⟩ := exists_of_bind_ok h
      rw [List.map_cons, Name.places, List.filterMap_cons_none hmatch]
      exact ih hrest
    | some place =>
      obtain ⟨part, hpart⟩ := Member.exists_part hmatch
      rw [deliver_of_match hmatch hpart] at h
      obtain ⟨value, s', -, h⟩ := exists_of_bind_ok h
      obtain ⟨others, s'', hrest, h⟩ := exists_of_bind_ok h
      cases h
      rw [List.map_cons, List.map_cons, Name.places, List.filterMap_cons_some hmatch, ih hrest,
        Name.places]

/-- Fields of which two go to one part are not read. -/
theorem nodup_of_fields_ok {schema : List SchemaField} {found result : List (Nat × Datum)}
    (hfound : (found.map Prod.fst).Nodup) {s t : ReadState}
    (h : fields content skip parts schema found s = .ok result t) :
    (found.map Prod.fst ++
      Name.places (parts.map Member.name) (schema.map SchemaField.name)).Nodup := by
  induction schema generalizing found s with
  | nil => rwa [List.map_nil, Name.places, List.filterMap_nil, List.append_nil]
  | cons field rest ih =>
    cases hmatch : Name.match? (parts.map Member.name) field.name with
    | none =>
      rw [fields_of_no_match hmatch] at h
      obtain ⟨-, s', -, hrest⟩ := exists_of_bind_ok h
      rw [List.map_cons, Name.places, List.filterMap_cons_none hmatch]
      exact ih hfound hrest
    | some place =>
      obtain ⟨part, hpart⟩ := Member.exists_part hmatch
      rw [fields_of_match hmatch hpart] at h
      by_cases htaken : (found.lookup place).isSome
      · rw [if_pos htaken] at h
        cases h
      · rw [if_neg htaken] at h
        obtain ⟨value, s', -, hrest⟩ := exists_of_bind_ok h
        have hnew : place ∉ found.map Prod.fst := by
          intro hmem
          obtain ⟨other, hother⟩ := Member.exists_lookup_of_mem hmem
          rw [hother] at htaken
          exact htaken rfl
        have hmore : ((found ++ [(place, value)]).map Prod.fst).Nodup := by
          rw [List.map_append]
          exact hfound.append (List.nodup_singleton place) (List.disjoint_singleton.mpr hnew)
        have hwhole := ih hmore hrest
        rw [List.map_append, List.append_assoc] at hwhole
        rw [List.map_cons, Name.places, List.filterMap_cons_some hmatch]
        exact hwhole

/-- Fields are delivered from the front to the back. -/
theorem deliver_append (front back : List SchemaField) :
    deliver content skip parts (front ++ back) = (do
      let found ← deliver content skip parts front
      return found ++ (← deliver content skip parts back)) := by
  induction front with
  | nil => simp only [List.nil_append, deliver, pure_bind, bind_pure]
  | cons field rest ih =>
    rw [List.cons_append]
    cases hmatch : Name.match? (parts.map Member.name) field.name with
    | none => rw [deliver_of_no_match hmatch, deliver_of_no_match hmatch, ih, bind_assoc]
    | some place =>
      obtain ⟨part, hpart⟩ := Member.exists_part hmatch
      rw [deliver_of_match hmatch hpart, deliver_of_match hmatch hpart, ih]
      simp only [bind_assoc, pure_bind, List.cons_append]

/-- The fields in front are delivered, a field is read for a part and gives it the value, and the
fields behind it are delivered. -/
def Delivered (content : WireType → Shape → Read Datum) (skip : WireType → Read Unit)
    (parts : List (Member Shape)) (front : List SchemaField) (field : SchemaField)
    (back : List SchemaField) (part : Member Shape) (value : Datum) (s t : ReadState) : Prop :=
  ∃ earlier before after later,
    deliver content skip parts front s = .ok earlier before ∧
      content field.type part.content before = .ok value after ∧
        deliver content skip parts back after = .ok later t

/-- Where fields are delivered, each of them gives a value to the part that it matches. -/
theorem exists_delivered {front back : List SchemaField}
    (hmatch : Name.match? (parts.map Member.name) field.name = some place)
    (hpart : parts[place]? = some part) {found : List (Nat × Datum)} {s t : ReadState}
    (h : deliver content skip parts (front ++ field :: back) s = .ok found t) :
    ∃ value, Delivered content skip parts front field back part value s t ∧
      (place, value) ∈ found := by
  rw [deliver_append, deliver_of_match hmatch hpart] at h
  obtain ⟨earlier, before, hfront, h⟩ := exists_of_bind_ok h
  obtain ⟨later, last, h, hfound⟩ := exists_of_bind_ok h
  obtain ⟨value, after, hvalue, h⟩ := exists_of_bind_ok h
  obtain ⟨others, s', hothers, h⟩ := exists_of_bind_ok h
  cases h
  cases hfound
  exact ⟨value, ⟨earlier, before, after, others, hfront, hvalue, hothers⟩,
    List.mem_append_right _ List.mem_cons_self⟩

end Deliver

end Read

/-- The names under which the fields of a struct arrive at a reader with the given parts. -/
def Schema.keys (schema : Schema) (parts : List (Member Shape)) : List String :=
  Name.keys (parts.map Member.name) (schema.fields.map SchemaField.name)

namespace Read

variable {env : ReadEnv} {content : WireType → Shape → Read Datum} {skip : WireType → Read Unit}
  {schema : Schema} {title : String} {parts : List (Member Shape)}
  (hparts : (parts.map Member.name).Nodup)
include hparts

/-- Where no name arrives twice, nothing but the fields themselves and parts without a value are in
the way of reading a struct. -/
theorem struct_eq_deliver (h : (schema.keys parts).Nodup) :
    struct env content skip schema (.struct title parts) = (do
      let found ← deliver content skip parts schema.fields
      return .struct title (← MonadExcept.ofExcept (Member.assemble found parts 0))) := by
  have hplaces := (Name.nodup_keys_iff_nodup_places hparts).mp h
  have hfields : fields content skip parts schema.fields [] =
      deliver content skip parts schema.fields := by
    rw [fields_eq_deliver (by rwa [List.map_nil, List.nil_append])]
    simp only [List.nil_append, bind_pure]
  rw [struct, hfields]

/-- In a struct that is read, no name arrives twice. -/
theorem nodup_keys_of_struct_ok {value : Datum} {s t : ReadState}
    (h : struct env content skip schema (.struct title parts) s = .ok value t) :
    (schema.keys parts).Nodup := by
  obtain ⟨found, s', hfound, -⟩ := exists_of_bind_ok h
  have hnone : (([] : List (Nat × Datum)).map Prod.fst).Nodup := List.nodup_nil
  exact (Name.nodup_keys_iff_nodup_places hparts).mpr (nodup_of_fields_ok hnone hfound)

/-- A struct that is read has delivered its fields and has assembled its parts of them. -/
theorem exists_of_struct_ok {value : Datum} {s t : ReadState}
    (h : struct env content skip schema (.struct title parts) s = .ok value t) :
    ∃ found made, deliver content skip parts schema.fields s = .ok found t ∧
      Member.assemble found parts 0 = .ok made ∧ value = .struct title made := by
  rw [struct_eq_deliver hparts (nodup_keys_of_struct_ok hparts h)] at h
  obtain ⟨found, s', hfound, h⟩ := exists_of_bind_ok h
  obtain ⟨made, s'', hassemble, hvalue⟩ := exists_of_bind_ok h
  obtain ⟨hmade, rfl⟩ := exists_of_ofExcept_ok hassemble
  cases hvalue
  exact ⟨found, made, hfound, hmade, rfl⟩

/-- In a struct that is read, a part with the name of a field has the value of that field. -/
theorem exists_delivered_of_struct_ok {value : Datum} {s t : ReadState}
    (h : struct env content skip schema (.struct title parts) s = .ok value t)
    {front back : List SchemaField} {field : SchemaField}
    (hfield : schema.fields = front ++ field :: back) {part : Member Shape} (hpart : part ∈ parts)
    (hname : part.name = field.name) :
    ∃ made given, value = .struct title made ∧ (part.name, given) ∈ made ∧
      Delivered content skip parts front field back part given s t := by
  have hkeys := nodup_keys_of_struct_ok hparts h
  obtain ⟨found, made, hfound, hmade, rfl⟩ := exists_of_struct_ok hparts h
  obtain ⟨place, hplace⟩ := List.mem_iff_getElem?.mp hpart
  have hat : (parts.map Member.name)[place]? = some field.name := by
    rw [List.getElem?_map, hplace, ← hname]
    rfl
  have hdeliver := hfound
  rw [hfield] at hdeliver
  obtain ⟨given, hgiven, hmem⟩ :=
    exists_delivered (Name.match?_of_getElem? hparts hat) hplace hdeliver
  have hnodup : (found.map Prod.fst).Nodup := by
    rw [places_of_deliver_ok hfound]
    exact (Name.nodup_keys_iff_nodup_places hparts).mp hkeys
  obtain ⟨hnames, hfilled⟩ := Member.filled_of_assemble_ok hmade
  obtain ⟨filling, hfilling, hsecond⟩ := hfilled place part hplace
  rw [Nat.zero_add, Member.filled, Member.lookup_of_mem hnodup hmem] at hfilling
  cases hfilling
  refine ⟨made, given, rfl, ?_, hgiven⟩
  -- The part and its value stand at the same place of what was assembled.
  have hfirst : (made.map Prod.fst)[place]? = some part.name := by rw [hnames, hat, hname]
  rw [List.getElem?_map] at hfirst hsecond
  obtain ⟨entry, hentry, hkey⟩ := Option.map_eq_some_iff.mp hfirst
  obtain ⟨other, hother, hvalue⟩ := Option.map_eq_some_iff.mp hsecond
  cases hentry.symm.trans hother
  rw [← hkey, ← hvalue]
  exact List.mem_of_getElem? hentry

/-- If the parts are among the fields, none of them is missing. -/
theorem exists_assemble_of_subset
    (hsub : parts.map Member.name ⊆ schema.fields.map SchemaField.name)
    {found : List (Nat × Datum)} {s t : ReadState}
    (h : deliver content skip parts schema.fields s = .ok found t) :
    ∃ made, Member.assemble found parts 0 = .ok made := by
  cases hmade : Member.assemble found parts 0 with
  | ok made => exact ⟨made, rfl⟩
  | error e =>
    obtain ⟨place, part, hpart, hfilled⟩ := Member.exists_of_assemble_error hmade
    have hat : (parts.map Member.name)[place]? = some part.name := by
      rw [List.getElem?_map, hpart]
      rfl
    have hplace : place ∈ found.map Prod.fst := by
      rw [places_of_deliver_ok h]
      exact List.mem_filterMap.mpr
        ⟨part.name, hsub (List.mem_of_getElem? hat), Name.match?_of_getElem? hparts hat⟩
    obtain ⟨value, hvalue⟩ := Member.exists_lookup_of_mem hplace
    rw [Nat.zero_add, Member.filled, hvalue] at hfilled
    cases hfilled

end Read

/-- Let a struct have fields of different names, and a reader parts of different names. If no name
of a part arrives twice, no field is turned down: all fields are delivered, and the parts are made
of them. If a name arrives twice, the struct is not read. In a struct that is read, a part with the
name of a field is given what is read for that field. If the parts are among the fields, a name
arrives twice exactly where another field has the normal form of a part, and otherwise the struct is
read wherever its fields are. -/
theorem keys_delivered_once {schema : Schema} {parts : List (Member Shape)}
    (hfields : (schema.fields.map SchemaField.name).Nodup)
    (hparts : (parts.map Member.name).Nodup) (env : ReadEnv)
    (content : WireType → Shape → Read Datum) (skip : WireType → Read Unit) (title : String) :
    ((schema.keys parts).Nodup →
      Read.struct env content skip schema (.struct title parts) = (do
        let found ← Read.deliver content skip parts schema.fields
        return .struct title (← MonadExcept.ofExcept (Member.assemble found parts 0)))) ∧
    (∀ s value t, Read.struct env content skip schema (.struct title parts) s = .ok value t →
      (schema.keys parts).Nodup ∧
      ∀ front field back, schema.fields = front ++ field :: back →
        ∀ part ∈ parts, part.name = field.name →
          ∃ made given, value = .struct title made ∧ (part.name, given) ∈ made ∧
            Read.Delivered content skip parts front field back part given s t) ∧
    (parts.map Member.name ⊆ schema.fields.map SchemaField.name →
      ((schema.keys parts).Nodup ↔
        ∀ field ∈ schema.fields, field.name ∉ parts.map Member.name →
          ∀ part ∈ parts, Name.normalized part.name ≠ Name.normalized field.name) ∧
      ((schema.keys parts).Nodup →
        ∀ s found t, Read.deliver content skip parts schema.fields s = .ok found t →
          ∃ made, Read.struct env content skip schema (.struct title parts) s =
            .ok (.struct title made) t)) := by
  refine ⟨Read.struct_eq_deliver hparts, fun s value t h => ⟨Read.nodup_keys_of_struct_ok hparts h,
    fun front field back hfield part hpart hname =>
      Read.exists_delivered_of_struct_ok hparts h hfield hpart hname⟩, fun hsub => ⟨?_, ?_⟩⟩
  · rw [Schema.keys, Name.nodup_keys_iff_of_subset hfields hsub, List.forall_mem_map]
    simp only [List.forall_mem_map]
  · intro hkeys s found t hdeliver
    obtain ⟨made, hmade⟩ := Read.exists_assemble_of_subset hparts hsub hdeliver
    refine ⟨made, ?_⟩
    rw [Read.struct_eq_deliver hparts hkeys, bind_of_ok hdeliver, ofExcept_bind_of_ok hmade]
    rfl

namespace Sample

/-- Parts of one byte with the given names. -/
def byteParts (names : List String) : List (Member Shape) :=
  names.map fun name => ⟨name, false, .int .uint8⟩

/-- The schema of a struct with fields of one byte. -/
def byteSchema (names : List String) : Schema :=
  ⟨false, 1, "", "", names.map fun name =>
    ⟨name, false, false, ⟨UInt32.ofNat Kind.uint8.code, false, false, []⟩⟩⟩

/-- Read one byte as a number. -/
def readByte (_ : WireType) (_ : Shape) : Read Datum := do
  return .int .uint8 (← Read.take Take.byte).toNat

/-- Pass over one byte. -/
def skipByte (_ : WireType) : Read Unit := Read.take (Take.skip 1)

/-- What is read of is two bytes. -/
def twoBytes : ReadState := ⟨[1, 2], [], []⟩

/-- An engine for pairs of bytes with the given names, whose schemas travel. -/
def pairEngine (names : List String) : Engine where
  config := ⟨false, true, .none, 5⟩
  registry := Registry.standard.history
    [.struct (.user "Pair") (.id 1) (declaredFields (byteParts names))]
  shapes := [("Pair", .struct "Pair" (byteParts names))]

/-- How an engine for pairs with the given names fails to read what another one writes, if it
does. -/
def pairFailure? (written asked : List String) (content : List (String × Datum)) : Option Error :=
  match (pairEngine written).encode (.scalar (.user "Pair") false) (.struct "Pair" content)
    .empty with
  | .ok message _ =>
    match (pairEngine asked).decode ⟨"Pair", .scalar (.user "Pair") false, .user "Pair"⟩
        ⟨message.toList, .empty⟩ with
    | .ok .. => none
    | .error e _ => some e
  | .error .. => none

end Sample

/-- Of two bytes with different names, a reader of the first one gets the first one. -/
theorem keys_delivered_once_pair :
    ["ab", "cd"].Nodup ∧ ["ab"].Nodup ∧ (∀ env, ∃ made,
      Read.struct env Sample.readByte Sample.skipByte (Sample.byteSchema ["ab", "cd"])
        (.struct "Pair" (Sample.byteParts ["ab"])) Sample.twoBytes =
          .ok (.struct "Pair" made) ⟨[], [], []⟩ ∧ ("ab", .int .uint8 1) ∈ made) := by
  have hfields : ((Sample.byteSchema ["ab", "cd"]).fields.map SchemaField.name).Nodup := by decide
  have hparts : ((Sample.byteParts ["ab"]).map Member.name).Nodup := by decide
  refine ⟨hfields, hparts, fun env => ?_⟩
  obtain ⟨-, hread, hsubset⟩ :=
    keys_delivered_once hfields hparts env Sample.readByte Sample.skipByte "Pair"
  obtain ⟨hiff, hok⟩ := hsubset (by decide)
  obtain ⟨made, hmade⟩ := hok (hiff.mpr (by decide +kernel)) Sample.twoBytes [(0, .int .uint8 1)]
    ⟨[], [], []⟩ rfl
  obtain ⟨-, hgiven⟩ := hread _ _ _ hmade
  obtain ⟨made', given, heq, hmem, earlier, before, after, later, hfront, hvalue, -⟩ :=
    hgiven [] _ _ rfl _ List.mem_cons_self rfl
  cases heq
  cases hfront
  have hone (type : WireType) : Sample.readByte type (.int .uint8) Sample.twoBytes =
      .ok (.int .uint8 1) ⟨[2], [], []⟩ := rfl
  cases hvalue.symm.trans (hone _)
  exact ⟨made, hmade, hmem⟩

/-- A reader who asks for one of two fields with different names may get neither: both arrive under
the one name that it asks for. -/
theorem key_delivered_twice :
    ["ab", "a_b"].Nodup ∧ ["ab"].Nodup ∧ ["ab"] ⊆ ["ab", "a_b"] ∧
      (Sample.byteSchema ["ab", "a_b"]).keys (Sample.byteParts ["ab"]) = ["ab", "ab"] ∧
        Sample.pairFailure? ["ab", "a_b"] ["ab"] [("ab", .int .uint8 1), ("a_b", .int .uint8 2)] =
          some .rejected :=
  ⟨by decide, by decide, by decide, by decide +kernel, by decide +kernel⟩

end SchemaWire
