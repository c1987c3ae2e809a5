import SchemaWire.Value.Shape
import SchemaWire.Value.Datum

/-!
# Values that were taken whole

Most shapes take all that a message holds for them. The one that takes an entry of a map at most
keeps the number of entries that there were, so a value shows whether something was left anywhere
inside of it.
-/

namespace SchemaWire

namespace Datum

mutual

/-- Whether all entries were taken wherever the value holds the first one of them. -/
def isWhole : Datum → Bool
  | .some content | .newtype content | .newtypeVariant _ _ _ content => content.isWhole
  | .seq _ items | .tuple items | .tupleVariant _ _ _ items => areWhole items
  | .map _ entries => areWholeEntries entries
  | .firstEntry total entries => decide (total ≤ entries.length) && areWholeEntries entries
  | .struct _ fields | .structVariant _ _ _ fields => areWholeFields fields
  | _ => true

/-- Whether all of these values are whole. -/
def areWhole : List Datum → Bool
  | [] => true
  | first :: rest => first.isWhole && areWhole rest

/-- Whether the keys and the values of all these entries are whole. -/
def areWholeEntries : List (Datum × Datum) → Bool
  | [] => true
  | (key, value) :: rest => key.isWhole && value.isWhole && areWholeEntries rest

/-- Whether the values of all these fields are whole. -/
def areWholeFields : List (String × Datum) → Bool
  | [] => true
  | (_, value) :: rest => value.isWhole && areWholeFields rest

end

/-- How many elements or entries the value has, if it is made of any. -/
def count? : Datum → Option Nat
  | .seq _ items | .tuple items => Option.some items.length
  | .map _ entries | .firstEntry _ entries => Option.some entries.length
  | _ => Option.none

/-- Values are whole together if each of them is. -/
theorem areWhole_iff {items : List Datum} :
    areWhole items = true ↔ ∀ v ∈ items, v.isWhole = true := by
  induction items with
  | nil => exact ⟨nofun, fun _ => rfl⟩
  | cons first rest ih => rw [areWhole, Bool.and_eq_true, ih, List.forall_mem_cons]

/-- Entries are whole if each key and each value is. -/
theorem areWholeEntries_iff {entries : List (Datum × Datum)} :
    areWholeEntries entries = true ↔
      ∀ entry ∈ entries, entry.1.isWhole = true ∧ entry.2.isWhole = true := by
  induction entries with
  | nil => exact ⟨nofun, fun _ => rfl⟩
  | cons first rest ih =>
    rw [areWholeEntries, Bool.and_eq_true, Bool.and_eq_true, ih, List.forall_mem_cons]

/-- Fields are whole if each value is. -/
theorem areWholeFields_iff {fields : List (String × Datum)} :
    areWholeFields fields = true ↔ ∀ v ∈ fields.map Prod.snd, v.isWhole = true := by
  induction fields with
  | nil => exact ⟨nofun, fun _ => rfl⟩
  | cons first rest ih =>
    rw [areWholeFields, Bool.and_eq_true, ih, List.map_cons, List.forall_mem_cons]

end Datum

namespace Shape

/-- Whether values of the shape have no parts. -/
def isAtomic : Shape → Bool
  | .ignored | .int _ | .choice _ => true
  | _ => false

/-- The value is whole, unless values of the shape have no parts anyway. -/
def Whole (shape : Shape) (v : Datum) : Prop :=
  shape.isAtomic = false → v.isWhole = true

/-- Whole values are whole for every shape. -/
theorem Whole.of_isWhole (shape : Shape) {v : Datum} (h : v.isWhole = true) : shape.Whole v :=
  fun _ => h

/-- Every value is whole for a shape without parts. -/
theorem Whole.of_isAtomic {shape : Shape} (h : shape.isAtomic = true) (v : Datum) :
    shape.Whole v := by
  intro hparts
  rw [h] at hparts
  cases hparts

/-- What is whole for a shape is whole for what the shape stands for. -/
theorem Whole.resolve {shape : Shape} {v : Datum} (h : shape.Whole v) (shapes : Shapes) :
    (shapes.resolve shape).Whole v := by
  cases shape with
  | user name => exact .of_isWhole _ (h rfl)
  | _ => exact h

end Shape

end SchemaWire
