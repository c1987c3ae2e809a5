import SchemaWire.Proofs.Data.Eventually
import SchemaWire.Proofs.Data.RoundTrip

/-!
# Fields that stand in the order of the parts

Where the fields of a struct have the names of its reader's parts, in the same order, each field
is read for the part in its own place, and nothing is passed over or missing. Such a struct is
read in turn, and its parts are the values that were read.
-/

namespace SchemaWire

namespace Read

/-- Read fields one after the other, each for the part in its place. -/
def inTurn (content : WireType → Shape → Read Datum) :
    List SchemaField → List (Member Shape) → Read (List Datum)
  | field :: fields, part :: parts => do
    let value ← content field.type part.content
    return value :: (← inTurn content fields parts)
  | _, _ => return []

variable {content : WireType → Shape → Read Datum}

/-- In turn every part is given a value. -/
theorem length_of_inTurn_ok {fields : List SchemaField} {parts : List (Member Shape)}
    (hlength : fields.length = parts.length) {s t : ReadState} {values : List Datum}
    (h : inTurn content fields parts s = .ok values t) : values.length = parts.length := by
  induction fields generalizing parts s t values with
  | nil =>
    cases parts with
    | nil =>
      cases h
      rfl
    | cons => cases hlength
  | cons field fields ih =>
    cases parts with
    | nil => cases hlength
    | cons part parts =>
      obtain ⟨value, between, -, h⟩ := exists_of_bind_ok h
      obtain ⟨others, last, hothers, h⟩ := exists_of_bind_ok h
      cases h
      exact congrArg Nat.succ (ih (Nat.succ.inj hlength) hothers)

/-- The fields in front are read for the parts in front, and then the others for the others. -/
theorem inTurn_append {front back : List SchemaField} {parts others : List (Member Shape)}
    (hlength : front.length = parts.length) :
    inTurn content (front ++ back) (parts ++ others) = (do
      let values ← inTurn content front parts
      return values ++ (← inTurn content back others)) := by
  induction front generalizing parts with
  | nil =>
    cases parts with
    | nil =>
      simp only [List.nil_append, inTurn, pure_bind, bind_pure]
    | cons => cases hlength
  | cons field front ih =>
    cases parts with
    | nil => cases hlength
    | cons part parts =>
      simp only [List.cons_append, inTurn, ih (Nat.succ.inj hlength), bind_assoc, pure_bind]

/-- Reading in turn needs a bound that is high enough for every value. -/
theorem Rising.inTurn {R : Nat → WireType → Shape → Read Datum}
    (h : ∀ type shape, Rising fun n => R n type shape) (fields : List SchemaField)
    (parts : List (Member Shape)) : Rising fun n => Read.inTurn (R n) fields parts := by
  induction fields generalizing parts with
  | nil => exact const _
  | cons field fields ih =>
    cases parts with
    | nil => exact const _
    | cons part parts =>
      exact (h field.type part.content).bind fun value => (ih parts).map (value :: ·)

section Names

variable {skip : WireType → Read Unit} {front parts : List (Member Shape)}
  (hnodup : ((front ++ parts).map Member.name).Nodup)
include hnodup

/-- Fields that have the names of the parts that are left are read for them in turn. -/
theorem fields_eq_inTurn {fields : List SchemaField}
    (hnames : fields.map SchemaField.name = parts.map Member.name) {found : List (Nat × Datum)}
    (hfound : ∀ place ∈ found.map Prod.fst, place < front.length) :
    Read.fields content skip (front ++ parts) fields found = (do
      let values ← inTurn content fields parts
      return found ++ Member.given ((front ++ parts).map Member.name)
        ((parts.map Member.name).zip values)) := by
  induction fields generalizing front parts found with
  | nil =>
    cases parts with
    | nil =>
      simp only [Read.fields, inTurn, pure_bind, List.map_nil, List.zip_nil_left, Member.given,
        List.filterMap_nil, List.append_nil]
    | cons => cases hnames
  | cons field fields ih =>
    cases parts with
    | nil => cases hnames
    | cons part parts =>
      obtain ⟨hname, hothers⟩ := List.cons.inj hnames
      have hplace : (front ++ part :: parts)[front.length]? = some part := by
        rw [List.getElem?_append_right (Nat.le_refl _), Nat.sub_self]
        rfl
      have hat : ((front ++ part :: parts).map Member.name)[front.length]? = some part.name := by
        rw [List.getElem?_map, hplace]
        rfl
      have hmatch := Name.match?_of_getElem? hnodup hat
      have hfresh : (found.lookup front.length).isSome = false := by
        rw [Member.lookup_eq_none fun hmem => Nat.lt_irrefl _ (hfound _ hmem)]
        rfl
      have hshift : front ++ part :: parts = (front ++ [part]) ++ parts := by
        rw [List.append_assoc, List.singleton_append]
      have hkeys (value : Datum) :
          ∀ place ∈ (found ++ [(front.length, value)]).map Prod.fst,
            place < (front ++ [part]).length := by
        intro place hmem
        rw [List.map_append, List.mem_append] at hmem
        rw [List.length_append]
        rcases hmem with hmem | hmem
        · exact Nat.lt_succ_of_lt (hfound place hmem)
        · cases List.mem_singleton.mp hmem
          exact Nat.lt_succ_self _
      have hgiven (value : Datum) (values : List Datum) :
          Member.given ((front ++ part :: parts).map Member.name)
            (((part :: parts).map Member.name).zip (value :: values)) =
          (front.length, value) :: Member.given ((front ++ part :: parts).map Member.name)
            ((parts.map Member.name).zip values) :=
        Member.given_cons_of_match _ hmatch
      rw [Read.fields, hname]
      simp only [hmatch, hplace, hfresh, Option.bind_eq_bind, Option.bind_some, Option.pure_def,
        Bool.false_eq_true, if_false, inTurn, bind_assoc, pure_bind, hgiven]
      refine bind_congr fun value => ?_
      rw [hshift] at hnodup ⊢
      rw [ih hnodup hothers (hkeys value)]
      simp only [List.append_assoc, List.singleton_append]

end Names

/-- A struct whose fields have the names of the parts is read in turn. -/
theorem struct_eq_inTurn (env : ReadEnv) {skip : WireType → Read Unit} {schema : Schema}
    {parts : List (Member Shape)} (hnodup : (parts.map Member.name).Nodup)
    (hnames : schema.fields.map SchemaField.name = parts.map Member.name) (title : String) :
    struct env content skip schema (.struct title parts) = (do
      let values ← inTurn content schema.fields parts
      return .struct title ((parts.map Member.name).zip values)) := by
  have hlength : schema.fields.length = parts.length := by
    have hsame := congrArg List.length hnames
    rwa [List.length_map, List.length_map] at hsame
  have hdistinct : ((([] : List (Member Shape)) ++ parts).map Member.name).Nodup := hnodup
  have hfields : fields content skip parts schema.fields [] = (do
      let values ← inTurn content schema.fields parts
      return Member.given (parts.map Member.name) ((parts.map Member.name).zip values)) :=
    fields_eq_inTurn hdistinct hnames nofun
  rw [struct, hfields]
  funext s
  cases hread : inTurn content schema.fields parts s with
  | error e t =>
    simp only [bind_assoc, pure_bind]
    rw [bind_of_error hread, bind_of_error hread]
  | ok values t =>
    have hparts : parts.map Member.name = ((parts.map Member.name).zip values).map Prod.fst := by
      rw [List.map_fst_zip]
      rw [List.length_map, length_of_inTurn_ok hlength hread]
    have hassemble := Member.assemble_given hparts hnodup
    simp only [bind_assoc, pure_bind]
    rw [bind_of_ok hread, bind_of_ok hread, ofExcept_bind_of_ok hassemble]

/-- With a bound that is high enough, the parts are given the values, each by the field in its
place. -/
def InTurn (env : ReadEnv) (scope : Scope) (fields : List SchemaField) (parts : List (Member Shape))
    (s : ReadState) (values : List Datum) (t : ReadState) : Prop :=
  Eventually (fun n => inTurn (fun type => datumWithin env n scope (.declared type)) fields parts)
    s values t

namespace InTurn

variable {env : ReadEnv} {scope : Scope} {s t : ReadState} {values : List Datum}
  {fields others : List SchemaField} {parts back : List (Member Shape)}

/-- Reading declared values in turn needs a bound that is high enough for each of them. -/
theorem rising (env : ReadEnv) (scope : Scope) (fields : List SchemaField)
    (parts : List (Member Shape)) :
    Rising fun n => inTurn (fun type => datumWithin env n scope (.declared type)) fields parts :=
  .inTurn (fun type shape => .datumWithin env scope (.declared type) shape) fields parts

/-- The first part is given its value, and behind it the others are given theirs. -/
theorem cons_iff {field : SchemaField} {part : Member Shape} :
    InTurn env scope (field :: fields) (part :: parts) s values t ↔
      ∃ value u rest, Gives env scope (.declared field.type) part.content s value u ∧
        InTurn env scope fields parts u rest t ∧ values = value :: rest := by
  simp only [InTurn, inTurn]
  rw [eventually_bind_iff (.datumWithin env scope (.declared field.type) part.content)
    fun value => (rising env scope fields parts).map (value :: ·)]
  simp only [eventually_map_iff, exists_and_left]
  rfl

/-- The parts in front are given their values, and behind them the others are given theirs. -/
theorem append_iff (hlength : fields.length = parts.length) :
    InTurn env scope (fields ++ others) (parts ++ back) s values t ↔
      ∃ front u rest, InTurn env scope fields parts s front u ∧
        InTurn env scope others back u rest t ∧ values = front ++ rest := by
  simp only [InTurn, inTurn_append hlength]
  rw [eventually_bind_iff (rising env scope fields parts)
    fun values => (rising env scope others back).map (values ++ ·)]
  simp only [eventually_map_iff, exists_and_left]

/-- Every part is given a value. -/
theorem length_eq (hlength : fields.length = parts.length)
    (h : InTurn env scope fields parts s values t) : values.length = parts.length := by
  obtain ⟨n, hn⟩ := h
  exact length_of_inTurn_ok hlength hn

end InTurn

/-- A struct whose fields have the names of the parts gives its parts their values in turn. -/
theorem gives_struct_iff {env : ReadEnv} {scope inner : Scope} {type : WireType} {kind : Kind}
    (hkind : WireType.kindOf type.id = .ok kind)
    (hdeeper : scope.deeper env.config.maxDepth = .ok inner) {schema : Schema}
    {parts : List (Member Shape)} (hnodup : (parts.map Member.name).Nodup)
    (hnames : schema.fields.map SchemaField.name = parts.map Member.name) {title : String}
    {s t : ReadState} {v : Datum} :
    Gives env scope (.entered type (.struct schema)) (.struct title parts) s v t ↔
      ∃ values, InTurn env inner schema.fields parts s values t ∧
        v = .struct title ((parts.map Member.name).zip values) := by
  have hshape : env.shapes.resolve (.struct title parts) ≠ .refused := nofun
  have henter : enter env scope.recording (.entered type (.struct schema)) s =
      .ok (.value type (.struct schema)) s :=
    ofExcept_bind_of_ok hkind _ s
  rw [Gives.iff_content hshape henter]
  have hinside (n : Nat) : content env n (datumWithin env n) (skipWithin env n) scope type
      (.struct schema) (env.shapes.resolve (.struct title parts)) s = (do
        let values ← inTurn (fun type => datumWithin env n inner (.declared type)) schema.fields parts
        return Datum.struct title ((parts.map Member.name).zip values)) s :=
    (ofExcept_bind_of_ok hdeeper _ s).trans
      (congrFun (struct_eq_inTurn env hnodup hnames title) s)
  simp only [Eventually, hinside]
  exact eventually_map_iff

end Read

namespace Peers

variable {peers : Peers} {hosts : HostType → Prop}

/-- Declared fields stand in step with the schema that was derived of them, with the parts of a
reader and with values: in each place the value has the name of the field, and the part is of the
field's type and holds the value. -/
inductive InStep (peers : Peers) (hosts : HostType → Prop) :
    List FieldDescriptor → List SchemaField → List (Member Shape) → List (String × Datum) → Prop
  | nil : InStep peers hosts [] [] [] []
  | cons {field : FieldDescriptor} {made : SchemaField} {part : Member Shape} {value : Datum}
    {declared : List FieldDescriptor} {fields : List SchemaField} {parts : List (Member Shape)}
    {content : List (String × Datum)} (htype : field.type = part.content.declared)
    (hwire : WireType.ofFieldType peers.write.registry peers.write.config.compatible
      part.content.declared field.tracked = .ok made.type)
    (hdeclarable : part.content.Declarable hosts)
    (hholds : part.content.Holds peers.read.shapes value)
    (hrest : InStep peers hosts declared fields parts content) :
    InStep peers hosts (field :: declared) (made :: fields) (part :: parts)
      ((field.name, value) :: content)

/-- Fields of values that are held by the parts in their places stand in step. -/
theorem inStep_of_ofFields_ok {declared : List FieldDescriptor} {parts : List (Member Shape)}
    (hdeclared : declared.map (fun field => (field.name, field.type)) =
      parts.map fun part => (part.name, part.content.declared))
    (hparts : ∀ part ∈ parts, part.content.Declarable hosts) {content : List (String × Datum)}
    (hnames : parts.map Member.name = content.map Prod.fst)
    (hholds : ∀ part ∈ parts.zip content, part.1.content.Holds peers.read.shapes part.2.2)
    {fields : List SchemaField}
    (hschema : Schema.ofFields peers.write.registry peers.write.config.compatible declared =
      .ok fields) : peers.InStep hosts declared fields parts content := by
  have hderived := Schema.forall₂_of_ofFields_ok hschema
  clear hschema
  induction hderived generalizing parts content with
  | nil =>
    cases parts with
    | cons => cases hdeclared
    | nil =>
      cases content with
      | cons => cases hnames
      | nil => exact .nil
  | @cons field made declared fields hfield hrest ih =>
    cases parts with
    | nil => cases hdeclared
    | cons part parts =>
      cases content with
      | nil => cases hnames
      | cons first content =>
        obtain ⟨name, value⟩ := first
        obtain ⟨hpair, hothers⟩ := List.cons.inj hdeclared
        obtain ⟨hname, htype⟩ := Prod.mk.inj hpair
        obtain ⟨hsame, hbehind⟩ := List.cons.inj hnames
        obtain ⟨-, -, hwire⟩ := hfield
        cases hname.trans hsame
        exact .cons htype (htype ▸ hwire) (hparts part List.mem_cons_self)
          (hholds (part, field.name, value) List.mem_cons_self)
          (ih hothers (fun other hmem => hparts other (List.mem_cons_of_mem _ hmem)) hbehind
            fun other hmem => hholds other (List.mem_cons_of_mem _ hmem))

/-- Fields that stand in step are read back in turn. -/
theorem Follows.mirrors_inTurn {fuel : Nat} (ih : peers.Follows hosts fuel)
    {declared : List FieldDescriptor} {fields : List SchemaField} {parts : List (Member Shape)}
    {content : List (String × Datum)} (h : peers.InStep hosts declared fields parts content)
    (hheight : Datum.heightOfFields content + 1 < fuel) (depth : Nat) (recording : Bool) :
    peers.Mirrors (Write.fields peers.write depth declared content)
      (Read.inTurn
        (fun type => Read.datumWithin peers.read fuel ⟨depth, recording⟩ (.declared type)) fields
        parts) (content.map Prod.snd) := by
  induction h with
  | nil =>
    rw [Write.fields]
    exact .pure fun _ => .pure []
  | @cons field made part value declared fields parts content htype hwire hdeclarable hholds hrest
      ih' =>
    rw [Datum.heightOfFields] at hheight
    have hvalue := ih.declared hdeclarable hholds (by omega) hwire depth recording
    rw [Write.fields_cons hholds.ne_absent, if_neg (not_not_intro rfl), htype]
    exact hvalue.read.append ((ih' (by omega)).map (value :: ·))

end Peers

end SchemaWire
