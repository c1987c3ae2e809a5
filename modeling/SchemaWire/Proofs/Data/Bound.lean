import SchemaWire.Proofs.Data.Contents
import SchemaWire.Proofs.Limit.Data

/-!
# Higher bounds

A reader of data that ends with some bound does the same with every higher one, in whatever state
it starts.
-/

namespace SchemaWire

namespace Read

/-- Wherever the first reader ends, the second one does the same. -/
def Steady {α : Type} (x y : Read α) : Prop :=
  ∀ s, ¬Unfinished (x s) → y s = x s

/-- A plain reader that ends does the same with every higher bound. -/
theorem steady_plain (shapes : Shapes) {n m : Nat} (hle : n ≤ m) (shape : Shape) :
    Steady (take (Take.plainWithin shapes n shape)) (take (Take.plainWithin shapes m shape)) := by
  intro s hends
  have hstable : shapes.Stable (shapes.within shape ++ []) := Shapes.stable_within shape nofun
  have hshape : shape ∈ shapes.within shape ++ [] := by
    simp [Shapes.within, shape.mem_within]
  have htraced : (Plain.realm shapes _ s.input).Traced _ (Take.plainWithin shapes · shape) _ :=
    Plain.traced_plainWithin hstable hshape
  have hplain : ¬Unfinished (Take.plainWithin shapes n shape s.input) := fun hstuck =>
    hends (unfinished_take_iff.mpr hstuck)
  have hsame : Take.plainWithin shapes m shape s.input = Take.plainWithin shapes n shape s.input :=
    htraced.steady trivial trivial hle (List.suffix_refl _) hplain
  rw [take, take, hsame]

namespace Steady

variable {α β : Type} {x y : Read α}

/-- A reader does what it does. -/
theorem refl (x : Read α) : Steady x x := fun _ _ => rfl

/-- A sequence that ends does the same with steady parts. -/
theorem bind {k l : α → Read β} (h : Steady x y) (hnext : ∀ a, Steady (k a) (l a)) :
    Steady (x >>= k) (y >>= l) := by
  intro s hends
  have hsame := h s fun hstuck => hends hstuck.bind
  cases hx : x s with
  | ok a t =>
    rw [bind_of_ok hx] at hends
    rw [bind_of_ok hx, bind_of_ok (hsame.trans hx)]
    exact hnext a t hends
  | error e t => rw [bind_of_error hx, bind_of_error (hsame.trans hx)]

/-- Reading a value again does the same where reading it does. -/
theorem again (entry : RefEntry) {read other : Spot → Read Datum}
    (h : ∀ spot, Steady (read spot) (other spot)) :
    Steady (Read.again entry read) (Read.again entry other) := by
  intro s hends
  have hsame := h _ _ fun hstuck => hends (unfinished_again_iff.mpr hstuck)
  cases hread : read (.entered entry.type entry.resolved) { s with input := entry.start } with
  | ok v t => rw [again_of_ok hread, again_of_ok (hsame.trans hread)]
  | error e t => rw [again_of_error hread, again_of_error (hsame.trans hread)]

/-- Readers that do the same where they end, within the same scopes. -/
def twins : DataTwins where
  Rel x y := Steady x y
  pure a := refl (Pure.pure a)
  throw e := refl (MonadExcept.throw e)
  bind := bind
  Near scope other := other = scope
  take _ _ := refl _
  deeper maxDepth outer other h R S hnext := by
    subst h
    exact (refl _).bind fun scope => hnext scope scope rfl

end Steady

variable (env : ReadEnv) {n m : Nat}

/-- Passing over a value does the same with every higher bound, if it ends. -/
theorem steady_skipWithin (hle : n ≤ m) (scope : Scope) (spot : Spot) :
    Steady (skipWithin env n scope spot) (skipWithin env m scope spot) := by
  induction n generalizing m scope spot with
  | zero => exact fun s hends => absurd ⟨s, rfl⟩ hends
  | succ n ih =>
    obtain ⟨m, rfl⟩ := Nat.exists_eq_add_of_lt hle
    have hbelow : n ≤ n + m := Nat.le_add_right n m
    refine Steady.twins.skipWithin_succ (steady_plain env.shapes hbelow) rfl (.refl _) ?_
    intro inner _ hsame spot
    exact hsame ▸ ih hbelow inner spot

/-- Reading a value does the same with every higher bound, if it ends. -/
theorem steady_datumWithin (hle : n ≤ m) (scope : Scope) (spot : Spot) (shape : Shape) :
    Steady (datumWithin env n scope spot shape) (datumWithin env m scope spot shape) := by
  induction n generalizing m scope spot shape with
  | zero => exact fun s hends => absurd ⟨s, rfl⟩ hends
  | succ n ih =>
    obtain ⟨m, rfl⟩ := Nat.exists_eq_add_of_lt hle
    have hbelow : n ≤ n + m := Nat.le_add_right n m
    refine Steady.twins.datumWithin_succ (steady_plain env.shapes hbelow) rfl (.refl _) ?_ ?_ ?_ shape
    · intro inner _ hsame spot
      exact hsame ▸ steady_skipWithin env hbelow inner spot
    · intro entry shape
      exact .again entry fun spot => ih hbelow _ spot shape
    · intro inner _ hsame spot shape
      exact hsame ▸ ih hbelow inner spot shape

end Read

end SchemaWire
