import SchemaWire.Proofs.Data.InTurn
import SchemaWire.Proofs.Data.RoundTrip

/-!
# Wrappers around a value

A wrapper around one value leaves no trace in a message: what it holds is written in its place.
A reader who asks for the wrapper goes on with what it holds once it has found a value there. So
it reads the same as one who asks for the value itself, except where the value is missing, and
where a value with a layout of its own may be missing.
-/

namespace SchemaWire

/-- The shape within wrappers of the given names. -/
def Shape.wrapped (shape : Shape) : List String → Shape
  | [] => shape
  | name :: others => .newtype name (shape.wrapped others)

/-- The part of a struct whose shape is within wrappers of the given names. -/
def Member.wrapped (part : Member Shape) (wrappers : List String) : Member Shape :=
  ⟨part.name, part.optional, part.content.wrapped wrappers⟩

/-- Wrappers around a part do not change its name. -/
theorem Member.map_name_wrapped (front back : List (Member Shape)) (part : Member Shape)
    (wrappers : List String) : (front ++ part.wrapped wrappers :: back).map Member.name =
      (front ++ part :: back).map Member.name := by
  rw [List.map_append, List.map_append]
  rfl

/-- Whether the shape has something for a missing value. -/
def Shape.acceptsMissing : Shape → Bool
  | .option _ | .ignored => true
  | _ => false

namespace Datum

/-- The value within the given number of wrappers. -/
def wrapped (v : Datum) : Nat → Datum
  | 0 => v
  | n + 1 => .newtype (v.wrapped n)

/-- The fields of a struct, of which the one at the place is within wrappers. -/
def wrapField (fields : List (String × Datum)) (place n : Nat) : List (String × Datum) :=
  fields.modify place fun field => (field.1, field.2.wrapped n)

/-- A struct whose field at the place is within wrappers. -/
def wrapAt (place n : Nat) : Datum → Datum
  | .struct name fields => .struct name (wrapField fields place n)
  | v => v

end Datum

/-- The element behind the front of a list is changed alone. -/
theorem modify_append_cons {α : Type} (front back : List α) (a : α) (f : α → α) :
    (front ++ a :: back).modify front.length f = front ++ f a :: back := by
  induction front with
  | nil => rfl
  | cons first rest ih => exact congrArg (first :: ·) ih

/-- Values are within wrappers whether names stand before them or not. -/
theorem Datum.zip_modify_wrapped (names : List String) (values : List Datum) (place n : Nat) :
    names.zip (values.modify place (·.wrapped n)) = wrapField (names.zip values) place n := by
  induction names generalizing values place with
  | nil => cases place <;> rfl
  | cons name names ih =>
    cases values with
    | nil => cases place <;> rfl
    | cons value values =>
      cases place with
      | zero => rfl
      | succ place => exact congrArg ((name, value) :: ·) (ih values place)

namespace Write

variable {α β : Type} {env : WriteEnv}

/-- One writer writes exactly what the other one writes, though they may fail in different ways. -/
def Alike (x y : Write α) : Prop :=
  ∀ before a after, x before = .ok a after ↔ y before = .ok a after

namespace Alike

/-- A writer writes what it writes. -/
theorem refl (x : Write α) : Alike x x :=
  fun _ _ _ => .rfl

/-- Writers that both fail are alike. -/
theorem of_fails {x y : Write α} (hx : ∀ before a after, x before ≠ .ok a after)
    (hy : ∀ before a after, y before ≠ .ok a after) : Alike x y :=
  fun before a after =>
    ⟨fun h => absurd h (hx before a after), fun h => absurd h (hy before a after)⟩

/-- Writers in sequence are alike if their parts are. -/
theorem bind {x y : Write α} {k l : α → Write β} (h : Alike x y) (hnext : ∀ a, Alike (k a) (l a)) :
    Alike (x >>= k) (y >>= l) := by
  intro before b after
  constructor
  · intro hok
    obtain ⟨a, between, hfirst, hsecond⟩ := exists_of_bind_ok hok
    exact (bind_of_ok ((h _ _ _).mp hfirst)).trans ((hnext a _ _ _).mp hsecond)
  · intro hok
    obtain ⟨a, between, hfirst, hsecond⟩ := exists_of_bind_ok hok
    exact (bind_of_ok ((h _ _ _).mpr hfirst)).trans ((hnext a _ _ _).mpr hsecond)

/-- What is put around the bytes does not matter. -/
theorem map {x y : Write α} (h : Alike x y) (f : α → β) :
    Alike (do return f (← x)) (do return f (← y)) :=
  h.bind fun a => refl (pure (f a))

end Alike

/-- What a wrapper holds is written in its place. -/
theorem datum_wrapped (depth : Nat) (place : Place) (v : Datum) (n : Nat) :
    datum env depth place (v.wrapped n) = datum env depth place v := by
  induction n with
  | zero => rfl
  | succ n ih =>
    rw [Datum.wrapped, datum]
    exact ih

/-- Where no value is present, only a missing one is written, as its flag alone. -/
theorem null_of_datum_ok {type : FieldType} {tracked : Bool} {depth : Nat}
    {before after : WriteTables} {bytes : List UInt8} : (v : Datum) → v.isPresent = false →
    datum env depth (.declared type tracked true) v before = .ok bytes after →
    type.nullable = true ∧ bytes = [RefFlag.null.toByte] ∧ after = before
  | .none, _, h => by
    rw [datum] at h
    cases hnullable : type.nullable with
    | false =>
      rw [hnullable] at h
      cases h
    | true =>
      rw [hnullable] at h
      cases h
      exact ⟨rfl, rfl, rfl⟩
  | .some content, habsent, h => by
    rw [datum] at h
    · exact null_of_datum_ok content habsent h
    · exact nofun
  | .newtype content, habsent, h => by
    rw [datum] at h
    exact null_of_datum_ok content habsent h
  | .firstEntry .., _, h | .choice _, _, h | .absent, _, h | .refused _, _, h => by
    rw [datum] at h
    cases h

/-- What is left out is not written, and neither is a wrapper around it. -/
theorem datum_wrapped_absent_ne_ok (depth : Nat) (place : Place) (n : Nat) (before : WriteTables)
    (bytes : List UInt8) (after : WriteTables) :
    datum env depth place (Datum.absent.wrapped n) before ≠ .ok bytes after := by
  rw [datum_wrapped, datum]
  exact nofun

/-- Fields are written only if their values are. -/
theorem fields_cons_absent_ne_ok (depth : Nat) (declared : List FieldDescriptor) (name : String)
    (n : Nat) (rest : List (String × Datum)) (before : WriteTables) (bytes : List UInt8)
    (after : WriteTables) :
    fields env depth declared ((name, Datum.absent.wrapped n) :: rest) before ≠
      .ok bytes after := by
  intro h
  obtain ⟨-, field, others, front, between, back, -, -, -, hvalue, -⟩ := exists_of_fields_cons_ok h
  exact datum_wrapped_absent_ne_ok _ _ _ _ _ _ hvalue

/-- Parts of a plain struct are written only if their values are. -/
theorem members_cons_absent_ne_ok (depth : Nat) (name : String) (n : Nat)
    (rest : List (String × Datum)) (before : WriteTables) (bytes : List UInt8)
    (after : WriteTables) :
    members env depth false ((name, Datum.absent.wrapped n) :: rest) before ≠ .ok bytes after := by
  generalize hvalue : Datum.absent.wrapped n = value
  by_cases habsent : value = .absent
  · rw [habsent, members]
    exact nofun
  · rw [members_cons habsent]
    intro h
    obtain ⟨front, between, hfirst, -⟩ := exists_of_bind_ok h
    exact datum_wrapped_absent_ne_ok depth .plain n before front between (hvalue ▸ hfirst)

/-- Only what is left out is left out. -/
theorem wrapped_ne_absent {v : Datum} (h : v ≠ .absent) (n : Nat) : v.wrapped n ≠ .absent := by
  cases n with
  | zero => exact h
  | succ n => exact nofun

/-- A wrapper around a field is not seen by who writes the fields. -/
theorem alike_fields_wrapField (depth : Nat) (declared : List FieldDescriptor)
    (content : List (String × Datum)) (place n : Nat) :
    Alike (fields env depth declared (Datum.wrapField content place n))
      (fields env depth declared content) := by
  induction content generalizing declared place with
  | nil =>
    cases place <;> exact .refl _
  | cons first rest ih =>
    obtain ⟨name, value⟩ := first
    cases place with
    | zero =>
      -- A wrapper hides that a field is left out, and its content fails with another error.
      by_cases habsent : value = .absent
      · subst habsent
        exact .of_fails (fields_cons_absent_ne_ok depth declared name n rest)
          (fields_cons_absent_ne_ok depth declared name 0 rest)
      · have hwrapped := wrapped_ne_absent habsent n
        change Alike (fields env depth declared ((name, value.wrapped n) :: rest)) _
        cases declared with
        | nil =>
          rw [fields_nil_cons hwrapped, fields_nil_cons habsent]
          exact .refl _
        | cons field others =>
          rw [fields_cons hwrapped, fields_cons habsent, datum_wrapped]
          exact .refl _
    | succ place =>
      change Alike (fields env depth declared ((name, value) :: Datum.wrapField rest place n)) _
      by_cases habsent : value = .absent
      · subst habsent
        exact .of_fails (fields_cons_absent_ne_ok depth declared name 0 _)
          (fields_cons_absent_ne_ok depth declared name 0 rest)
      · cases declared with
        | nil =>
          rw [fields_nil_cons habsent, fields_nil_cons habsent]
          exact .refl _
        | cons field others =>
          have hrest : Alike
              (do
                let bytes ← datum env depth (.declared field.type field.tracked true) value
                return bytes ++ (← fields env depth others (Datum.wrapField rest place n)))
              (do
                let bytes ← datum env depth (.declared field.type field.tracked true) value
                return bytes ++ (← fields env depth others rest)) :=
            (Alike.refl _).bind fun bytes => (ih others place).map (bytes ++ ·)
          rw [fields_cons habsent, fields_cons habsent]
          split
          · exact (Alike.refl _).bind fun _ => hrest
          · exact hrest

/-- A wrapper around a part is not seen by who writes the parts of a plain struct. -/
theorem alike_members_wrapField (depth : Nat) (content : List (String × Datum)) (place n : Nat) :
    Alike (members env depth false (Datum.wrapField content place n))
      (members env depth false content) := by
  induction content generalizing place with
  | nil =>
    cases place <;> exact .refl _
  | cons first rest ih =>
    obtain ⟨name, value⟩ := first
    cases place with
    | zero =>
      by_cases habsent : value = .absent
      · subst habsent
        exact .of_fails (members_cons_absent_ne_ok depth name n rest)
          (members_cons_absent_ne_ok depth name 0 rest)
      · have hwrapped := wrapped_ne_absent habsent n
        change Alike (members env depth false ((name, value.wrapped n) :: rest)) _
        rw [members_cons hwrapped, members_cons habsent, datum_wrapped]
        exact .refl _
    | succ place =>
      change Alike (members env depth false ((name, value) :: Datum.wrapField rest place n)) _
      by_cases habsent : value = .absent
      · subst habsent
        exact .of_fails (members_cons_absent_ne_ok depth name 0 _)
          (members_cons_absent_ne_ok depth name 0 rest)
      · rw [members_cons habsent, members_cons habsent]
        exact (Alike.refl _).bind fun bytes => (ih place).map (bytes ++ ·)

/-- A wrapper around a field of a struct is not seen by who writes the struct. -/
theorem alike_datum_wrapAt (depth : Nat) (place : Place) (at' n : Nat) (v : Datum) :
    Alike (datum env depth place (v.wrapAt at' n)) (datum env depth place v) := by
  cases v with
  | struct name content =>
    rw [Datum.wrapAt, datum, datum]
    refine (Alike.refl _).bind fun entered => ?_
    obtain ⟨head, layout⟩ := entered
    refine Alike.map ?_ (head ++ ·)
    cases layout with
    | plain => exact alike_members_wrapField depth content at' n
    | typed spec type =>
      cases hrole : spec.role with
      | struct registration declared =>
        simp only [hrole]
        split
        · exact .refl _
        · exact alike_fields_wrapField (depth + 1) declared content at' n
      | _ =>
        simp only [hrole]
        exact .refl _
  | _ => exact .refl _

end Write

namespace Read

variable {env : ReadEnv} {scope : Scope} {spot : Spot} {shape : Shape} {s t u : ReadState}
  {v : Datum} {type : WireType} {resolved : Resolved} {name : String}

/-- A shape that has nothing for a missing value does not take one. -/
theorem missing_ne_ok (h : shape.acceptsMissing = false) (v : Datum) : missing shape ≠ .ok v := by
  cases shape with
  | option | ignored => cases h
  | _ => exact nofun

/-- A value that follows its annotations is given behind them. -/
theorem Gives.iff_entered
    (henter : enter env scope.recording spot s = .ok (.value type resolved) u) :
    Gives env scope (.entered type resolved) shape u v t ↔ Gives env scope spot shape s v t := by
  obtain ⟨kind, hkind, -⟩ := announced_of_enter_ok henter
  have hsame : enter env scope.recording (.entered type resolved) u =
      .ok (.value type resolved) u :=
    ofExcept_bind_of_ok hkind _ u
  by_cases hshape : env.shapes.resolve shape = .refused
  · exact ⟨fun h => absurd hshape h.exists_enter.1, fun h => absurd hshape h.exists_enter.1⟩
  · rw [iff_content hshape hsame, iff_content hshape henter]

/-- Behind the annotations a value that may be missing is present, and its content is read. -/
theorem gives_option_iff {kind : Kind} (hkind : WireType.kindOf type.id = .ok kind) :
    Gives env scope (.entered type resolved) (.option shape) s v t ↔
      ∃ w, Gives env scope (.entered type resolved) shape s w t ∧ v = .some w := by
  have hshape : env.shapes.resolve (.option shape) ≠ .refused := nofun
  have henter : enter env scope.recording (.entered type resolved) s =
      .ok (.value type resolved) s :=
    ofExcept_bind_of_ok hkind _ s
  rw [Gives.iff_content hshape henter]
  exact eventually_map_iff

/-- A value with a layout of its own is what is read plainly. -/
theorem eventually_ext_iff : Eventually (fun n => ext env n (env.shapes.resolve shape)) s v t ↔
    Eventually (fun n => take (Take.plainWithin env.shapes n shape)) s v t := by
  simp only [← plainWithin_resolve env.shapes _ shape]
  have hown := env.shapes.resolve_resolve shape
  generalize env.shapes.resolve shape = own at hown
  cases own with
  | any | identifier | choice names =>
    constructor
    · rintro ⟨n, hn⟩
      cases hn
    · rintro ⟨n, hn⟩
      cases n <;> cases hn
  | _ => exact .rfl

/-- A wrapper is read plainly as what it holds. -/
theorem eventually_plain_newtype_iff :
    Eventually (fun n => take (Take.plainWithin env.shapes n (.newtype name shape))) s v t ↔
      ∃ w, Eventually (fun n => take (Take.plainWithin env.shapes n shape)) s w t ∧
        v = .newtype w := by
  have hinside (n : Nat) : take (Take.plainWithin env.shapes (n + 1) (.newtype name shape)) = (do
      return .newtype (← take (Take.plainWithin env.shapes n shape))) :=
    take_bind _ _
  rw [← (Rising.plainWithin env.shapes (.newtype name shape)).eventually_succ_iff]
  simp only [hinside]
  exact eventually_map_iff

/-- A value with a layout of its own is read plainly by a shape that has nothing for a missing
value. -/
theorem Gives.iff_plain {host : Option HostType}
    (henter : enter env scope.recording spot s = .ok (.value type (.ext host)) u)
    (haccepts : (env.shapes.resolve shape).acceptsMissing = false) :
    Gives env scope spot shape s v t ↔
      Eventually (fun n => take (Take.plainWithin env.shapes n shape)) u v t := by
  by_cases hrefused : env.shapes.resolve shape = .refused
  · refine ⟨fun h => absurd hrefused h.exists_enter.1, fun ⟨n, hn⟩ => ?_⟩
    dsimp only at hn
    rw [← plainWithin_resolve, hrefused] at hn
    cases n <;> cases hn
  · have hinside (n : Nat) : content env n (datumWithin env n) (skipWithin env n) scope type
        (.ext host) (env.shapes.resolve shape) = ext env n (env.shapes.resolve shape) := by
      generalize env.shapes.resolve shape = own at haccepts
      cases own with
      | option | ignored => cases haccepts
      | _ => rfl
    simp only [Gives.iff_content hrefused henter, hinside, eventually_ext_iff]

/-- Where a value follows, a wrapper is read as what it holds, unless the value has a layout of its
own and the wrapper holds what may be missing. -/
theorem gives_newtype_iff_of_value
    (henter : enter env scope.recording spot s = .ok (.value type resolved) u)
    (hplain : (env.shapes.resolve shape).acceptsMissing = false ∨ ∀ host, resolved ≠ .ext host) :
    Gives env scope spot (.newtype name shape) s v t ↔
      ∃ w, Gives env scope spot shape s w t ∧ v = .newtype w := by
  by_cases hext : ∃ host, resolved = .ext host
  · obtain ⟨host, rfl⟩ := hext
    have haccepts : (env.shapes.resolve shape).acceptsMissing = false :=
      hplain.resolve_right fun h => h host rfl
    have hwrapper : (env.shapes.resolve (.newtype name shape)).acceptsMissing = false := rfl
    simp only [Gives.iff_plain henter haccepts, Gives.iff_plain henter hwrapper]
    exact eventually_plain_newtype_iff
  · have hwrapper : env.shapes.resolve (.newtype name shape) ≠ .refused := nofun
    have hinside (n : Nat) : content env n (datumWithin env n) (skipWithin env n) scope type
        resolved (env.shapes.resolve (.newtype name shape)) = (do
          return .newtype (← datumWithin env n scope (.entered type resolved) shape)) := by
      cases resolved with
      | ext host => exact absurd ⟨host, rfl⟩ hext
      | _ => rfl
    rw [Gives.iff_content hwrapper henter]
    simp only [hinside, ← Gives.iff_entered henter]
    exact eventually_map_iff

/-- A wrapper makes no difference to who reads the shape in front of which the reader stands: the
shape has nothing for a missing value, or what stands there is a value without a layout of its
own. -/
def Unmistaken (env : ReadEnv) (scope : Scope) (spot : Spot) (shape : Shape) (s : ReadState) :
    Prop :=
  (env.shapes.resolve shape).acceptsMissing = false ∨
    ∃ type resolved u, enter env scope.recording spot s = .ok (.value type resolved) u ∧
      ∀ host, resolved ≠ .ext host

/-- Behind annotations a wrapper is read as what it holds, if that has nothing for a missing
value. -/
theorem gives_newtype_iff_entered (haccepts : (env.shapes.resolve shape).acceptsMissing = false) :
    Gives env scope (.entered type resolved) (.newtype name shape) s v t ↔
      ∃ w, Gives env scope (.entered type resolved) shape s w t ∧ v = .newtype w := by
  cases hkind : WireType.kindOf type.id with
  | ok kind =>
    have henter : enter env scope.recording (.entered type resolved) s =
        .ok (.value type resolved) s :=
      ofExcept_bind_of_ok hkind _ s
    exact gives_newtype_iff_of_value henter (.inl haccepts)
  | error e =>
    have henter : enter env scope.recording (.entered type resolved) s = .error e s := by
      rw [enter, hkind]
      rfl
    constructor
    · intro h
      exact absurd henter h.enter_ne_error
    · rintro ⟨w, h, -⟩
      exact absurd henter h.enter_ne_error

/-- A wrapper is read as what it holds. -/
theorem gives_newtype_iff (h : Unmistaken env scope spot shape s) :
    Gives env scope spot (.newtype name shape) s v t ↔
      ∃ w, Gives env scope spot shape s w t ∧ v = .newtype w := by
  rcases h with haccepts | ⟨type, resolved, u, henter, hext⟩
  -- A missing value and an earlier one are the same to both, as the shape has nothing for the one.
  · cases henter : enter env scope.recording spot s with
    | error e u =>
      exact ⟨fun h => absurd henter h.enter_ne_error,
        fun ⟨_, h, _⟩ => absurd henter h.enter_ne_error⟩
    | ok entry u =>
      cases entry with
      | null =>
        simp only [Gives.iff_missing henter]
        constructor
        · rintro ⟨h, -⟩
          cases h
        · rintro ⟨w, ⟨h, -⟩, -⟩
          exact absurd h (missing_ne_ok haccepts w)
      | ref entry =>
        simp only [Gives.iff_again henter, gives_newtype_iff_entered haccepts]
        constructor
        · rintro ⟨between, ⟨w, h, rfl⟩, rfl⟩
          exact ⟨w, ⟨between, h, rfl⟩, rfl⟩
        · rintro ⟨w, ⟨between, h, rfl⟩, rfl⟩
          exact ⟨between, ⟨w, h, rfl⟩, rfl⟩
      | value type resolved => exact gives_newtype_iff_of_value henter (.inl haccepts)
  · exact gives_newtype_iff_of_value henter (.inr hext)

/-- Wrappers are read as what they hold. -/
theorem gives_wrapped_iff (h : Unmistaken env scope spot shape s) (wrappers : List String) :
    Gives env scope spot (shape.wrapped wrappers) s v t ↔
      ∃ w, Gives env scope spot shape s w t ∧ v = w.wrapped wrappers.length := by
  induction wrappers generalizing v with
  | nil => exact ⟨fun h => ⟨v, h, rfl⟩, fun ⟨_, h, heq⟩ => heq ▸ h⟩
  | cons name others ih =>
    -- A wrapper has nothing for a missing value itself.
    have hinside : Unmistaken env scope spot (shape.wrapped others) s := by
      cases others with
      | nil => exact h
      | cons => exact .inl rfl
    rw [Shape.wrapped, gives_newtype_iff hinside]
    simp only [ih]
    constructor
    · rintro ⟨-, ⟨w, hw, rfl⟩, rfl⟩
      exact ⟨w, hw, rfl⟩
    · rintro ⟨w, hw, rfl⟩
      exact ⟨_, ⟨w, hw, rfl⟩, rfl⟩

/-- The error that there is no value for a wrapper of the given name. -/
def wrapperMissing (name : String) : Error :=
  .nullValue (Shape.labelled "Newtype" [Text.quoted name] ++ " position")

/-- In the place of a missing value nothing is found for a wrapper, whatever it holds. -/
theorem datumWithin_newtype_of_missing
    (henter : enter env scope.recording spot s = .ok .null u) (fuel : Nat) :
    datumWithin env (fuel + 1) scope spot (.newtype name shape) s =
      .error (wrapperMissing name) u := by
  have hwrapper : env.shapes.resolve (.newtype name shape) ≠ .refused := nofun
  rw [datumWithin_of_ne_refused hwrapper]
  exact bind_of_ok henter

section Parts

variable {fields others : List SchemaField} {field : SchemaField} {front back : List (Member Shape)}
  (hlength : fields.length = front.length) {part : Member Shape}
include hlength

/-- Parts one of which is within wrappers are read in turn as they are without the wrappers. -/
theorem inTurn_wrapped_iff {values : List Datum}
    (h : ∀ values u, InTurn env scope fields front s values u →
      Unmistaken env scope (.declared field.type) part.content u) (wrappers : List String) :
    InTurn env scope (fields ++ field :: others)
        (front ++ part.wrapped wrappers :: back) s values t ↔
      ∃ bare, InTurn env scope (fields ++ field :: others) (front ++ part :: back)
        s bare t ∧ values = bare.modify front.length (·.wrapped wrappers.length) := by
  simp only [InTurn.append_iff hlength, InTurn.cons_iff]
  constructor
  · rintro ⟨first, u, -, hfront, ⟨value, w, rest, hvalue, hback, rfl⟩, rfl⟩
    obtain ⟨held, hheld, rfl⟩ := (gives_wrapped_iff (h first u hfront) wrappers).mp hvalue
    refine ⟨_, ⟨first, u, _, hfront, ⟨held, w, rest, hheld, hback, rfl⟩, rfl⟩, ?_⟩
    rw [← hfront.length_eq hlength, modify_append_cons]
  · rintro ⟨-, ⟨first, u, -, hfront, ⟨held, w, rest, hheld, hback, rfl⟩, rfl⟩, rfl⟩
    have hvalue := (gives_wrapped_iff (h first u hfront) wrappers).mpr ⟨held, hheld, rfl⟩
    refine ⟨first, u, _, hfront, ⟨_, w, rest, hvalue, hback, rfl⟩, ?_⟩
    rw [← hfront.length_eq hlength, modify_append_cons]

section Struct

variable {kind : Kind} (hkind : WireType.kindOf type.id = .ok kind) {inner : Scope}
  (hdeeper : scope.deeper env.config.maxDepth = .ok inner) {schema : Schema}
  (hschema : schema.fields = fields ++ field :: others)
  (hnodup : ((front ++ part :: back).map Member.name).Nodup)
  (hnames : schema.fields.map SchemaField.name =
    (front ++ part :: back).map Member.name) (title : String)
include hkind hdeeper hschema hnodup hnames

/-- A struct one part of which is within wrappers is read as it is without the wrappers. -/
theorem gives_struct_wrapped_iff
    (h : ∀ values u, InTurn env inner fields front s values u →
      Unmistaken env inner (.declared field.type) part.content u) (wrappers : List String) :
    Gives env scope (.entered type (.struct schema))
        (.struct title (front ++ part.wrapped wrappers :: back)) s v t ↔
      ∃ bare, Gives env scope (.entered type (.struct schema))
        (.struct title (front ++ part :: back)) s bare t ∧
          v = bare.wrapAt front.length wrappers.length := by
  have hsame := Member.map_name_wrapped front back part wrappers
  have hwrapped := hsame ▸ hnodup
  rw [gives_struct_iff hkind hdeeper hwrapped (hnames.trans hsame.symm), hsame]
  simp only [gives_struct_iff hkind hdeeper hnodup hnames, hschema, inTurn_wrapped_iff hlength h]
  constructor
  · rintro ⟨-, ⟨values, hread, rfl⟩, rfl⟩
    exact ⟨_, ⟨values, hread, rfl⟩, congrArg _ (Datum.zip_modify_wrapped _ _ _ _)⟩
  · rintro ⟨-, ⟨values, hread, rfl⟩, rfl⟩
    exact ⟨_, ⟨values, hread, rfl⟩, congrArg _ (Datum.zip_modify_wrapped _ _ _ _).symm⟩

/-- A struct whose part is within wrappers is not read where a missing value stands for the part,
whatever the wrappers hold. -/
theorem datumWithin_struct_of_missing {fuel : Nat} {values : List Datum}
    (hfront : inTurn (fun type => datumWithin env (fuel + 1) inner (.declared type)) fields front
      s = .ok values u) {w : ReadState}
    (henter : enter env inner.recording (.declared field.type) u = .ok .null w) (wrapper : String)
    (wrappers : List String) :
    datumWithin env (fuel + 2) scope (.entered type (.struct schema))
        (.struct title (front ++ part.wrapped (wrapper :: wrappers) :: back)) s =
      .error (wrapperMissing wrapper) w := by
  have hsame := Member.map_name_wrapped front back part (wrapper :: wrappers)
  have hshape : env.shapes.resolve (.struct title
      (front ++ part.wrapped (wrapper :: wrappers) :: back)) ≠ .refused := nofun
  have hstruct : enter env scope.recording (.entered type (.struct schema)) s =
      .ok (.value type (.struct schema)) s :=
    ofExcept_bind_of_ok hkind _ s
  have hmissing : datumWithin env (fuel + 1) inner (.declared field.type)
      (part.content.wrapped (wrapper :: wrappers)) u =
        .error (wrapperMissing wrapper) w :=
    datumWithin_newtype_of_missing henter fuel
  rw [datumWithin_of_ne_refused hshape, bind_of_ok hstruct]
  refine (ofExcept_bind_of_ok hdeeper _ s).trans ?_
  have hturn := hnames.trans hsame.symm
  refine (congrFun (struct_eq_inTurn env (hsame ▸ hnodup) hturn title) s).trans ?_
  rw [hschema, inTurn_append hlength]
  refine bind_of_error ((bind_of_ok hfront).trans (bind_of_error ?_))
  exact bind_of_error hmissing

end Struct

end Parts

end Read

namespace Peers

/-- In front of a value that was written its reader finds that it is missing, or of what type it
is. -/
theorem Concur.exists_enter_of_datum_ok {peers : Peers} {hosts : HostType → Prop}
    (h : peers.Concur hosts) {type : FieldType} (hover : type.Among hosts)
    {tracked : Bool} {wire : WireType}
    (hwire : WireType.ofFieldType peers.write.registry peers.write.config.compatible type tracked =
      .ok wire) {depth : Nat} {v : Datum} {before after : WriteTables} {bytes : List UInt8}
    (hsound : before.Sound peers.write.registry) (hqueue : after.queue <+: peers.queue)
    (hdatum : Write.datum peers.write depth (.declared type tracked true) v before =
      .ok bytes after)
    (recording : Bool) (back : List UInt8) (refs : List RefEntry) :
    ∃ entry u,
      Read.enter peers.read recording (.declared wire) ⟨bytes ++ back, before.names, refs⟩ =
          .ok entry u ∧
        (v.isPresent = false → entry = .null) ∧
          (v.isPresent = true → ∃ spec resolved, peers.write.registry.resolve type = .ok spec ∧
            peers.Describes spec resolved ∧ entry = .value wire resolved) := by
  cases hpresent : v.isPresent with
  | false =>
    obtain ⟨hnullable, rfl, rfl⟩ := Write.null_of_datum_ok v hpresent hdatum
    have henter := peers.mirrors_enter_null hnullable hwire recording
    obtain ⟨refs', hread⟩ := henter.reads _ _ _ hsound hqueue rfl back refs
    exact ⟨.null, _, hread, fun _ => rfl, nofun⟩
  | true =>
    obtain ⟨spec, hspec, -⟩ := WireType.of_ofFieldType_ok hwire
    rw [Write.datum_annotated hspec depth tracked v hpresent] at hdatum
    obtain ⟨head, between, hhead, hdatum⟩ := exists_of_bind_ok hdatum
    obtain ⟨body, last, hbody, hdatum⟩ := exists_of_bind_ok hdatum
    cases hdatum
    obtain ⟨resolved, hdescribes, henter⟩ :=
      h.exists_mirrors_enter hover hspec hwire hsound hhead recording
    have hkeeps : Write.Keeps peers.write.registry
        (Write.datum peers.write depth (.declared type tracked false) v) :=
      Write.keeps_datum v depth _
    have hbetween := (hkeeps _ _ _ hbody).queue.trans hqueue
    obtain ⟨refs', hread⟩ := henter.reads _ _ _ hsound hbetween hhead (body ++ back) refs
    rw [← List.append_assoc] at hread
    exact ⟨.value wire resolved, _, hread, nofun, fun _ => ⟨spec, resolved, hspec, hdescribes, rfl⟩⟩

end Peers

end SchemaWire
