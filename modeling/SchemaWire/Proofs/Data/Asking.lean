import SchemaWire.Data.Read
import SchemaWire.Proofs.Value.Resolve

/-!
# What reading asks of a shape

Reading by a shape is reading by what the shape stands for. It does not ask what a collection is
called: it follows what the message says of a value, and of the shape it only asks whether this is a
list, a set or a map and of what. So shapes that differ in nothing but the names of their collections
read the same values.
-/

namespace SchemaWire

namespace Read

/-- Plain values are read by what their shape stands for. -/
theorem plainWithin_resolve (shapes : Shapes) (fuel : Nat) (shape : Shape) :
    Take.plainWithin shapes fuel (shapes.resolve shape) = Take.plainWithin shapes fuel shape := by
  cases fuel with
  | zero => rfl
  | succ fuel =>
    unfold Take.plainWithin
    rw [Shapes.resolve_resolve]

/-- Reading by what a shape stands for is reading by the shape. -/
theorem datumWithin_resolve (env : ReadEnv) (fuel : Nat) (scope : Scope) (spot : Spot) (shape : Shape) :
    datumWithin env fuel scope spot (env.shapes.resolve shape) =
      datumWithin env fuel scope spot shape := by
  cases fuel with
  | zero => rfl
  | succ fuel =>
    unfold datumWithin
    rw [Shapes.resolve_resolve]

variable {env : ReadEnv} {scope : Scope} {s t : ReadState}

/-- Reading by a shape that is not refused starts with the annotations. -/
theorem datumWithin_of_ne_refused {shape : Shape} (hshape : env.shapes.resolve shape ≠ .refused)
    (fuel : Nat) (scope : Scope) (spot : Spot) :
    datumWithin env (fuel + 1) scope spot shape = (do
      match ← enter env scope.recording spot with
      | .null => MonadExcept.ofExcept (missing (env.shapes.resolve shape))
      | .ref entry =>
        again entry fun spot => datumWithin env fuel { scope with recording := false } spot
          (env.shapes.resolve shape)
      | .value type resolved =>
        content env fuel (datumWithin env fuel) (skipWithin env fuel) scope type resolved
          (env.shapes.resolve shape)) := by
  rw [datumWithin]
  generalize env.shapes.resolve shape = own at hshape
  cases own with
  | refused => exact absurd rfl hshape
  | _ => rfl

/-- A shape that a value was read by is not refused. -/
theorem ne_refused_of_datumWithin_ok {fuel : Nat} {spot : Spot} {shape : Shape} {v : Datum}
    (h : datumWithin env (fuel + 1) scope spot shape s = .ok v t) :
    env.shapes.resolve shape ≠ .refused := by
  intro hrefused
  rw [datumWithin, hrefused] at h
  cases h

end Read

namespace Shape

/-- The shapes differ in nothing but what their collections are called. -/
inductive Resembles : Shape → Shape → Prop
  /-- A shape resembles itself. -/
  | refl (shape : Shape) : Resembles shape shape
  /-- Values that may be missing. -/
  | option {content other : Shape} (h : Resembles content other) :
    Resembles (.option content) (.option other)
  /-- Lists. -/
  | list (name own : String) {element other : Shape} (h : Resembles element other) :
    Resembles (.list name element) (.list own other)
  /-- Sets. -/
  | set (name own : String) {element other : Shape} (h : Resembles element other) :
    Resembles (.set name element) (.set own other)
  /-- Maps. -/
  | map (name own : String) {key value other another : Shape} (hkey : Resembles key other)
    (hvalue : Resembles value another) : Resembles (.map name key value) (.map own other another)

namespace Resembles

variable {a b : Shape} (h : a.Resembles b)
include h

/-- The shapes that they stand for resemble each other. -/
theorem resolve (shapes : Shapes) : (shapes.resolve a).Resembles (shapes.resolve b) := by
  cases h with
  | refl => exact .refl _
  | option h => exact .option h
  | list name own h => exact .list name own h
  | set name own h => exact .set name own h
  | map name own hkey hvalue => exact .map name own hkey hvalue

/-- Either both accept nothing or none of them. -/
theorem refused_iff : a = .refused ↔ b = .refused := by
  cases h with
  | refl => rfl
  | option | list | set | map => exact iff_of_false nofun nofun

/-- They have the same value for a number. -/
theorem ofInt (t : IntType) (v : Int) : a.ofInt t v = b.ofInt t v := by
  cases h <;> rfl

/-- They have the same value, or none, where a value is missing. -/
theorem missing : Read.missing a = Read.missing b := by
  cases h <;> rfl

/-- They have the same value for the name of a field. -/
theorem ofName (s : String) : a.ofName s = b.ofName s := by
  cases h <;> rfl

end Resembles

end Shape

variable {σ : Type} {a b key value other another : Shape}

/-- The reader of elements does not ask what collections are called. -/
def Elements.IgnoresNames (read : Elements σ) : Prop :=
  ∀ index (a b : Shape), a.Resembles b → read index a = read index b

namespace Elements

variable {read : Elements σ} (hread : read.IgnoresNames)
include hread

/-- Elements are read alike. -/
theorem IgnoresNames.collect (h : a.Resembles b) (count index : Nat) :
    read.collect a count index = read.collect b count index := by
  induction count generalizing index with
  | zero => rfl
  | succ count ih => simp only [Elements.collect, hread index a b h, ih]

/-- Sequences are read alike. -/
theorem IgnoresNames.visit (h : a.Resembles b) (count : Nat) :
    read.visit count a = read.visit count b := by
  cases h with
  | refl => rfl
  | option | map => rfl
  | list name own h | set name own h => simp only [Elements.visit, hread.collect h]

end Elements

namespace Entries

variable {read : Entries σ} (hkeys : read.key.IgnoresNames) (hvalues : read.value.IgnoresNames)
include hkeys hvalues

/-- Entries are read alike. -/
theorem collect_eq_of_resembles (hkey : key.Resembles other) (hvalue : value.Resembles another)
    (count index : Nat) :
    read.collect key value count index = read.collect other another count index := by
  induction count generalizing index with
  | zero => rfl
  | succ count ih =>
    simp only [Entries.collect, hkeys index _ _ hkey, hvalues index _ _ hvalue, ih]

/-- Maps are read alike. -/
theorem visit_eq_of_resembles (h : a.Resembles b) (count : Nat) :
    read.visit count a = read.visit count b := by
  cases h with
  | refl => rfl
  | option | list | set => rfl
  | map name own hkey hvalue =>
    simp only [Entries.visit, collect_eq_of_resembles hkeys hvalues hkey hvalue]

end Entries

/-- Plain values are read alike. -/
theorem Take.plainWithin_eq_of_resembles (shapes : Shapes) (fuel : Nat) (h : a.Resembles b) :
    plainWithin shapes fuel a = plainWithin shapes fuel b := by
  induction fuel generalizing a b with
  | zero => rfl
  | succ fuel ih =>
    have helement : Elements.IgnoresNames fun _ shape => plainWithin shapes fuel shape :=
      fun _ _ _ h => ih h
    have hsame := h
    cases h with
    | refl => rfl
    | option h => exact congrArg optional (ih h)
    | list | set =>
      refine bind_congr fun count => ?_
      exact congrArg (Prod.fst <$> ·) (helement.visit hsame count)
    | map =>
      refine bind_congr fun count => ?_
      exact congrArg (Prod.fst <$> ·) (Entries.visit_eq_of_resembles helement helement hsame count)

namespace Read

variable {env : ReadEnv}

/-- Values with a layout of their own are read alike. -/
theorem ext_eq_of_resembles (fuel : Nat) (h : a.Resembles b) : ext env fuel a = ext env fuel b := by
  have hplain := Take.plainWithin_eq_of_resembles env.shapes fuel h
  cases h with
  | refl => rfl
  | option | list | set | map => exact congrArg take hplain

section Contents

variable {content : WireType → Shape → Read Datum}
  (hcontent : ∀ type, Elements.IgnoresNames fun _ => content type)
include hcontent

/-- The values of builtins are read alike. -/
theorem known_eq_of_resembles (h : a.Resembles b) (kind : Kind) (type : WireType) :
    known env content kind type a = known env content kind type b := by
  cases kind with
  | list | set =>
    refine bind_congr fun element => bind_congr fun count => ?_
    rw [(hcontent element).visit h count]
  | map =>
    refine bind_congr fun key => bind_congr fun value => bind_congr fun count => ?_
    rw [Entries.visit_eq_of_resembles (hcontent key) (hcontent value) h count]
  | duration =>
    refine bind_congr fun seconds => bind_congr fun nanos => ?_
    have hpart : Elements.IgnoresNames fun index shape =>
        (MonadExcept.ofExcept ((env.shapes.resolve shape).ofInt .int64
          (if index = 0 then seconds else nanos)) : Read Datum) :=
      fun _ _ _ h => congrArg MonadExcept.ofExcept ((h.resolve env.shapes).ofInt _ _)
    exact congrArg (Prod.fst <$> ·) (hpart.visit h 2)
  | _ => cases h <;> rfl

/-- The fields of structs are read alike. -/
theorem struct_eq_of_resembles (h : a.Resembles b) (skip : WireType → Read Unit) (schema : Schema) :
    struct env content skip schema a = struct env content skip schema b := by
  have hsame := h
  cases h with
  | refl => rfl
  | option | list | set => rfl
  | map =>
    refine congrArg (Prod.fst <$> ·) (Entries.visit_eq_of_resembles ?_ ?_ hsame _)
    · intro index a b h
      dsimp only
      cases schema.fields[index]? with
      | none => rfl
      | some field => exact congrArg MonadExcept.ofExcept ((h.resolve env.shapes).ofName field.name)
    · intro index a b h
      dsimp only
      cases schema.fields[index]? with
      | none => rfl
      | some field => exact hcontent field.type index a b h

end Contents

/-- What stands behind the annotations of a value is read alike, if what stands inside of it is. -/
theorem content_eq_of_resembles (h : a.Resembles b) (fuel : Nat)
    {read : Scope → Spot → Shape → Read Datum}
    (hread : ∀ scope spot, Elements.IgnoresNames fun _ => read scope spot)
    (skip : Scope → Spot → Read Unit) (scope : Scope) (type : WireType) (resolved : Resolved) :
    content env fuel read skip scope type resolved a =
      content env fuel read skip scope type resolved b := by
  have hcontent (scope : Scope) (type : WireType) :
      Elements.IgnoresNames fun _ => read scope (.declared type) :=
    hread scope (.declared type)
  have hsame := h
  cases h with
  | refl => rfl
  | option h => exact congrArg (Datum.some <$> ·) (hread scope (.entered type resolved) 0 _ _ h)
  | list | set | map =>
    cases resolved with
    | ext host => exact ext_eq_of_resembles fuel hsame
    | struct schema =>
      exact bind_congr fun scope => struct_eq_of_resembles (hcontent scope) hsame _ schema
    | enum => rfl
    | known kind => exact known_eq_of_resembles (hcontent scope) hsame kind type

/-- A value is read alike by shapes that differ in nothing but what collections are called. -/
theorem datumWithin_eq_of_resembles (h : a.Resembles b) (fuel : Nat) (scope : Scope) (spot : Spot) :
    datumWithin env fuel scope spot a = datumWithin env fuel scope spot b := by
  induction fuel generalizing scope spot a b with
  | zero => rfl
  | succ fuel ih =>
    have hsame := h.resolve env.shapes
    by_cases hrefused : env.shapes.resolve a = .refused
    · rw [datumWithin, datumWithin, hrefused, hsame.refused_iff.mp hrefused]
    · rw [datumWithin_of_ne_refused hrefused,
        datumWithin_of_ne_refused (hsame.refused_iff.not.mp hrefused)]
      refine bind_congr fun entry => ?_
      cases entry with
      | null => exact congrArg MonadExcept.ofExcept hsame.missing
      | ref entry => exact congrArg (again entry) (funext fun spot => ih hsame _ spot)
      | value type resolved =>
        exact content_eq_of_resembles hsame fuel (fun scope spot _ _ _ h => ih h scope spot) _ scope
          type resolved

end Read

end SchemaWire
