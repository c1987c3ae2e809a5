import SchemaWire.Proofs.Reading
import SchemaWire.Value.Visit

/-!
# Readers that go the same way

Two readers that are made of the same steps are twins where each pair of steps is. A relation
between readers that sequences keep to is also kept to by loops whose turns keep to it: by readers
that are run several times, and by those that fill a shape with elements or entries. Which single
steps are related is another matter. A property of one reader is a relation that asks nothing of
the other one.
-/

namespace SchemaWire

/-- A relation between readers that sequences of related readers keep to. -/
structure Twins (σ : Type) where
  /-- The readers are related. -/
  Rel {α : Type} : EStateM Error σ α → EStateM Error σ α → Prop
  /-- Doing nothing is related to itself. -/
  pure {α : Type} (a : α) : Rel (Pure.pure a) (Pure.pure a)
  /-- Failing is related to itself. -/
  throw {α : Type} (e : Error) :
    Rel (MonadExcept.throw e : EStateM Error σ α) (MonadExcept.throw e)
  /-- Sequences are related. -/
  bind {α β : Type} {x y : EStateM Error σ α} {k l : α → EStateM Error σ β} (h : Rel x y)
    (hnext : ∀ a, Rel (k a) (l a)) : Rel (x >>= k) (y >>= l)

namespace Twins

variable {σ : Type} (d : Twins σ)

/-- A check is related to itself. -/
theorem ofExcept {α : Type} (e : Except Error α) :
    d.Rel (MonadExcept.ofExcept e) (MonadExcept.ofExcept e) := by
  cases e with
  | ok a => exact d.pure a
  | error err => exact d.throw err

/-- What is made of the results afterwards is related. -/
theorem map {α β : Type} {x y : EStateM Error σ α} (h : d.Rel x y) (f : α → β) :
    d.Rel (do return f (← x)) (do return f (← y)) :=
  d.bind h fun a => d.pure (f a)

/-- Readers that are run several times are related if each turn is. -/
theorem times {α : Type} {x y : EStateM Error σ α} (h : d.Rel x y) (count : Nat) :
    d.Rel (Take.times x count) (Take.times y count) := by
  induction count with
  | zero => exact d.pure []
  | succ count ih => exact d.bind h fun first => d.map ih (first :: ·)

section Loops

variable {read other : Elements σ} (h : ∀ index shape, d.Rel (read index shape) (other index shape))
include h

/-- Readers of elements of one shape are related if those of each element are. -/
theorem collect (shape : Shape) (count index : Nat) :
    d.Rel (read.collect shape count index) (other.collect shape count index) := by
  induction count generalizing index with
  | zero => exact d.pure []
  | succ count ih =>
    exact d.bind (h index shape) fun first => d.map (ih (index + 1)) (first :: ·)

/-- Readers of values by position are related if those of each value are. -/
theorem positional (count : Nat) (items : List Shape) (index : Nat) :
    d.Rel (read.positional count items index) (other.positional count items index) := by
  induction items generalizing index with
  | nil => exact d.pure []
  | cons shape rest ih =>
    have hrest := d.bind (h index shape) fun first => d.map (ih (index + 1)) (first :: ·)
    unfold Elements.positional
    by_cases hcount : count ≤ index
    · simp only [if_pos hcount]
      exact d.bind (d.throw _) fun _ => hrest
    · simp only [if_neg hcount]
      exact hrest

/-- Readers of the parts of a struct are related if those of each part are. -/
theorem members (count : Nat) (parts : List (Member Shape)) (index : Nat) :
    d.Rel (read.members count parts index) (other.members count parts index) := by
  induction parts generalizing index with
  | nil => exact d.pure []
  | cons member rest ih =>
    have hothers (first : Datum) := d.map (ih (index + 1)) ((member.name, first) :: ·)
    unfold Elements.members
    by_cases hcount : index < count
    · simp only [if_pos hcount]
      exact d.bind (h index member.content) hothers
    · simp only [if_neg hcount]
      cases member.optional with
      | true => exact d.bind (d.pure Datum.absent) hothers
      | false => exact d.bind (d.throw _) hothers

/-- Readers that fill a shape with elements are related if those of each element are. -/
theorem visit (count : Nat) (shape : Shape) :
    d.Rel (read.visit count shape) (other.visit count shape) := by
  cases shape with
  | list name element | set name element =>
    exact d.map (d.collect h element count 0) fun items => (Datum.seq true items, count)
  | any | identifier =>
    exact d.map (d.collect h .any count 0) fun items => (Datum.seq true items, count)
  | ignored => exact d.map (d.collect h .ignored count 0) fun _ => (Datum.unit, count)
  | bytes =>
    exact d.map (d.collect h (.int .uint8) count 0) fun items =>
      (Datum.bytes (Elements.octets items), count)
  | tuple items | tupleStruct name items =>
    exact d.map (d.positional h count items 0) fun values => (Datum.tuple values, items.length)
  | struct name parts =>
    exact d.map (d.members h count parts 0) fun fields =>
      (Datum.struct name fields, min count parts.length)
  | _ => exact d.throw _

end Loops

section Entries

variable {read other : Entries σ}
  (hkey : ∀ index shape, d.Rel (read.key index shape) (other.key index shape))
  (hvalue : ∀ index shape, d.Rel (read.value index shape) (other.value index shape))
include hkey hvalue

/-- Readers of entries of one shape are related if those of each key and value are. -/
theorem collectEntries (key value : Shape) (count index : Nat) :
    d.Rel (read.collect key value count index) (other.collect key value count index) := by
  induction count generalizing index with
  | zero => exact d.pure []
  | succ count ih =>
    exact d.bind (hkey index key) fun k => d.bind (hvalue index value) fun v =>
      d.map (ih (index + 1)) ((k, v) :: ·)

/-- Readers of entries whose keys name the parts of a struct are related if those of each key and
value are. -/
theorem named (parts : List (Member Shape)) (count index : Nat) (found : List (Nat × Datum)) :
    d.Rel (read.named parts count index found) (other.named parts count index found) := by
  induction count generalizing index found with
  | zero => exact d.pure found
  | succ count ih =>
    have hother := d.bind (hvalue index .ignored) fun _ => ih (index + 1) found
    refine d.bind (hkey index _) fun key => ?_
    cases key with
    | choice place =>
      cases place with
      | none => exact hother
      | some place =>
        cases hpart : parts[place]? with
        | none =>
          simp only [hpart]
          exact d.throw _
        | some part =>
          have hfound := d.bind (hvalue index part.content) fun value =>
            ih (index + 1) (found ++ [(place, value)])
          simp only [hpart]
          by_cases htwice : (found.lookup place).isSome
          · simp only [if_pos htwice]
            exact d.bind (d.throw _) fun _ => hfound
          · simp only [if_neg htwice]
            exact hfound
    | _ => exact hother

/-- Readers that fill a shape with entries are related if those of each key and value are. -/
theorem visitEntries (count : Nat) (shape : Shape) :
    d.Rel (read.visit count shape) (other.visit count shape) := by
  cases shape with
  | map name key value =>
    exact d.map (d.collectEntries hkey hvalue key value count 0) fun entries =>
      (Datum.map true entries, count)
  | any | identifier =>
    exact d.map (d.collectEntries hkey hvalue .any .any count 0) fun entries =>
      (Datum.map true entries, count)
  | ignored =>
    exact d.map (d.collectEntries hkey hvalue .ignored .ignored count 0) fun _ =>
      (Datum.unit, count)
  | firstEntry name key value =>
    exact d.map (d.collectEntries hkey hvalue key value (min count 1) 0) fun entries =>
      (Datum.firstEntry count entries, min count 1)
  | struct name parts =>
    exact d.bind (d.named hkey hvalue parts count 0 []) fun found =>
      d.map (d.ofExcept _) fun fields => (Datum.struct name fields, count)
  | _ => exact d.throw _

end Entries

end Twins

end SchemaWire
