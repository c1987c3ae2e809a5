import SchemaWire.Proofs.Data.Twins

/-!
# Properties that loops of readers have with their turns

A property of readers that sequences have whose parts have it is had by loops whose turns have it:
by readers that are run several times, and by those that fill a shape with elements or entries.
Which steps have the property is another matter, and differs between readers of bytes and readers
of data.
-/

namespace SchemaWire

/-- A property of readers that holds of sequences of readers that have it. -/
structure Steps (σ : Type) where
  /-- The reader has the property. -/
  Holds {α : Type} : EStateM Error σ α → Prop
  /-- Doing nothing has it. -/
  pure {α : Type} (a : α) : Holds (Pure.pure a)
  /-- Failing has it. -/
  throw {α : Type} (e : Error) : Holds (MonadExcept.throw e : EStateM Error σ α)
  /-- A sequence has it. -/
  bind {α β : Type} {r : EStateM Error σ α} {next : α → EStateM Error σ β} (h : Holds r)
    (hnext : ∀ a, Holds (next a)) : Holds (r >>= next)

namespace Steps

variable {σ : Type} (d : Steps σ)

/-- A property as a relation that asks nothing of the second reader. -/
def twins : Twins σ where
  Rel r _ := d.Holds r
  pure a := d.pure a
  throw e := d.throw e
  bind h hnext := d.bind h hnext

/-- A check has every such property. -/
theorem ofExcept {α : Type} (e : Except Error α) : d.Holds (MonadExcept.ofExcept e) :=
  d.twins.ofExcept e

/-- What is made of the result afterwards has the property. -/
theorem map {α β : Type} {r : EStateM Error σ α} (h : d.Holds r) (f : α → β) :
    d.Holds (do return f (← r)) :=
  d.bind h fun a => d.pure (f a)

/-- Readers that are run several times have the property of each turn. -/
theorem times {α : Type} {r : EStateM Error σ α} (h : d.Holds r) (count : Nat) :
    d.Holds (Take.times r count) := by
  have hself : d.twins.Rel r r := h
  exact d.twins.times hself count

section Loops

variable {read : Elements σ} (hread : ∀ index shape, d.Holds (read index shape))
include hread

/-- Values by position have the property of each of them. -/
theorem positional (count : Nat) (items : List Shape) (index : Nat) :
    d.Holds (read.positional count items index) := by
  have hself : ∀ index shape, d.twins.Rel (read index shape) (read index shape) := hread
  exact d.twins.positional hself count items index

/-- The parts of a struct have the property of each of them. -/
theorem members (count : Nat) (parts : List (Member Shape)) (index : Nat) :
    d.Holds (read.members count parts index) := by
  have hself : ∀ index shape, d.twins.Rel (read index shape) (read index shape) := hread
  exact d.twins.members hself count parts index

/-- Filling a shape with elements has the property of each of them. -/
theorem visit (count : Nat) (shape : Shape) : d.Holds (read.visit count shape) := by
  have hself : ∀ index shape, d.twins.Rel (read index shape) (read index shape) := hread
  exact d.twins.visit hself count shape

end Loops

/-- Filling a shape with entries has the property of each key and value. -/
theorem visitEntries {read : Entries σ} (hkey : ∀ index shape, d.Holds (read.key index shape))
    (hvalue : ∀ index shape, d.Holds (read.value index shape)) (count : Nat) (shape : Shape) :
    d.Holds (read.visit count shape) := by
  have hkeys : ∀ index shape, d.twins.Rel (read.key index shape) (read.key index shape) := hkey
  have hvalues : ∀ index shape,
      d.twins.Rel (read.value index shape) (read.value index shape) := hvalue
  exact d.twins.visitEntries hkeys hvalues count shape

end Steps

end SchemaWire
