import SchemaWire.Proofs.Data.BackReference

/-!
# Bounds that are high enough

What a reader of data gives with some bound it gives with every higher one. Readers that rise in
this way give in sequence, with a bound that is high enough, exactly what they give one after the
other, so that bounds need not be added up.
-/

namespace SchemaWire

namespace Read

variable {α β : Type}

/-- With every higher bound the reader does the same, wherever it ends. -/
def Rising (R : Nat → Read α) : Prop :=
  ∀ n m : Nat, n ≤ m → Steady (R n) (R m)

/-- With a bound that is high enough the reader gives the value and leaves the state. -/
def Eventually (R : Nat → Read α) (s : ReadState) (a : α) (t : ReadState) : Prop :=
  ∃ n, R n s = .ok a t

namespace Rising

/-- A reader without a bound rises. -/
theorem const (x : Read α) : Rising fun _ => x :=
  fun _ _ _ => .refl x

/-- A sequence rises if its parts do. -/
theorem bind {R : Nat → Read α} {K : Nat → α → Read β} (h : Rising R)
    (hnext : ∀ a, Rising fun n => K n a) : Rising fun n => R n >>= K n :=
  fun n m hle => (h n m hle).bind fun a => hnext a n m hle

/-- What is made of the value afterwards needs no bound. -/
theorem map {R : Nat → Read α} (h : Rising R) (f : α → β) :
    Rising fun n => do return f (← R n) :=
  h.bind fun a => const (pure (f a))

/-- Reading a value rises. -/
theorem datumWithin (env : ReadEnv) (scope : Scope) (spot : Spot) (shape : Shape) :
    Rising fun n => Read.datumWithin env n scope spot shape :=
  fun _ _ hle => steady_datumWithin env hle scope spot shape

/-- Reading a plain value rises. -/
theorem plainWithin (shapes : Shapes) (shape : Shape) :
    Rising fun n => take (Take.plainWithin shapes n shape) :=
  fun _ _ hle => steady_plain shapes hle shape

variable {R : Nat → Read α} (h : Rising R) {s t u : ReadState} {a b : α}
include h

/-- What is given with some bound is given with every higher one. -/
theorem ok_of_le {n m : Nat} (hle : n ≤ m) (hok : R n s = .ok a t) : R m s = .ok a t :=
  (h n m hle s (not_unfinished_of_ok hok)).trans hok

/-- Nothing else is given with another bound. -/
theorem eventually_unique (hfirst : Eventually R s a t) (hsecond : Eventually R s b u) :
    a = b ∧ t = u := by
  obtain ⟨n, hn⟩ := hfirst
  obtain ⟨m, hm⟩ := hsecond
  have hleft := h.ok_of_le (Nat.le_max_left n m) hn
  have hright := h.ok_of_le (Nat.le_max_right n m) hm
  cases hleft.symm.trans hright
  exact ⟨rfl, rfl⟩

/-- The next bound gives nothing else. -/
theorem eventually_succ_iff : Eventually (fun n => R (n + 1)) s a t ↔ Eventually R s a t := by
  constructor
  · rintro ⟨n, hn⟩
    exact ⟨n + 1, hn⟩
  · rintro ⟨n, hn⟩
    exact ⟨n, h.ok_of_le (Nat.le_succ n) hn⟩

end Rising

section Sequences

variable {s t u : ReadState} {a : α} {b : β}

/-- Without a bound there is nothing to wait for. -/
theorem eventually_const_iff {x : Read α} : Eventually (fun _ => x) s a t ↔ x s = .ok a t :=
  ⟨fun ⟨_, h⟩ => h, fun h => ⟨0, h⟩⟩

/-- A sequence gives what its second part gives behind its first part. -/
theorem eventually_bind_iff {R : Nat → Read α} {K : Nat → α → Read β} (hR : Rising R)
    (hK : ∀ a, Rising fun n => K n a) :
    Eventually (fun n => R n >>= K n) s b u ↔
      ∃ a t, Eventually R s a t ∧ Eventually (fun n => K n a) t b u := by
  constructor
  · rintro ⟨n, hn⟩
    obtain ⟨a, t, hfirst, hsecond⟩ := exists_of_bind_ok hn
    exact ⟨a, t, ⟨n, hfirst⟩, ⟨n, hsecond⟩⟩
  · rintro ⟨a, t, ⟨n, hfirst⟩, ⟨m, hsecond⟩⟩
    -- The higher of the two bounds does for both parts.
    have hleft := hR.ok_of_le (Nat.le_max_left n m) hfirst
    have hright := (hK a).ok_of_le (Nat.le_max_right n m) hsecond
    exact ⟨max n m, (bind_of_ok hleft).trans hright⟩

/-- What is made of a value is given where the value is. -/
theorem eventually_map_iff {R : Nat → Read α} {f : α → β} :
    Eventually (fun n => do return f (← R n)) s b t ↔ ∃ a, Eventually R s a t ∧ b = f a := by
  constructor
  · rintro ⟨n, hn⟩
    obtain ⟨a, last, hfirst, hsecond⟩ := exists_of_bind_ok hn
    cases hsecond
    exact ⟨a, ⟨n, hfirst⟩, rfl⟩
  · rintro ⟨a, ⟨n, hn⟩, rfl⟩
    exact ⟨n, bind_of_ok hn⟩

/-- Behind a first part that needs no bound a sequence gives what its second part gives. -/
theorem eventually_bind_of_ok {x : Read α} {K : Nat → α → Read β} (hx : x s = .ok a t) :
    Eventually (fun n => x >>= K n) s b u ↔ Eventually (fun n => K n a) t b u := by
  have hsame (n : Nat) : (x >>= K n) s = K n a t := bind_of_ok hx
  simp only [Eventually, hsame]

end Sequences

/-- With a bound that is high enough, the value is read by the shape. -/
def Gives (env : ReadEnv) (scope : Scope) (spot : Spot) (shape : Shape) (s : ReadState) (v : Datum)
    (t : ReadState) : Prop :=
  Eventually (fun n => datumWithin env n scope spot shape) s v t

namespace Gives

variable {env : ReadEnv} {scope : Scope} {spot : Spot} {shape : Shape} {s t u : ReadState}
  {v : Datum} {type : WireType} {resolved : Resolved}

/-- No value is given without a bound. -/
theorem iff_succ : Gives env scope spot shape s v t ↔
    Eventually (fun n => datumWithin env (n + 1) scope spot shape) s v t :=
  (Rising.datumWithin env scope spot shape).eventually_succ_iff.symm

/-- Whoever gives a value has read the annotations. -/
theorem exists_enter (h : Gives env scope spot shape s v t) :
    env.shapes.resolve shape ≠ .refused ∧
      ∃ entry between, enter env scope.recording spot s = .ok entry between := by
  obtain ⟨n, hn⟩ := iff_succ.mp h
  have hshape := ne_refused_of_datumWithin_ok hn
  dsimp only at hn
  rw [datumWithin_of_ne_refused hshape] at hn
  obtain ⟨entry, between, henter, -⟩ := exists_of_bind_ok hn
  exact ⟨hshape, entry, between, henter⟩

/-- Nothing is given where the annotations cannot be read. -/
theorem enter_ne_error (h : Gives env scope spot shape s v t) {e : Error} :
    enter env scope.recording spot s ≠ .error e u := by
  intro herror
  obtain ⟨-, entry, between, henter⟩ := h.exists_enter
  cases henter.symm.trans herror

/-- Behind the annotations of a value its content is read. -/
theorem iff_content (hshape : env.shapes.resolve shape ≠ .refused)
    (henter : enter env scope.recording spot s = .ok (.value type resolved) u) :
    Gives env scope spot shape s v t ↔
      Eventually (fun n => content env n (datumWithin env n) (skipWithin env n) scope type resolved
        (env.shapes.resolve shape)) u v t := by
  rw [iff_succ]
  simp only [datumWithin_of_ne_refused hshape]
  exact eventually_bind_of_ok henter

/-- In the place of a missing value stands what the shape has for it. -/
theorem iff_missing (henter : enter env scope.recording spot s = .ok .null u) :
    Gives env scope spot shape s v t ↔ missing (env.shapes.resolve shape) = .ok v ∧ t = u := by
  by_cases hshape : env.shapes.resolve shape = .refused
  · refine ⟨fun h => absurd hshape h.exists_enter.1, fun ⟨h, _⟩ => ?_⟩
    rw [hshape] at h
    cases h
  rw [iff_succ]
  simp only [datumWithin_of_ne_refused hshape]
  rw [eventually_bind_of_ok henter, eventually_const_iff]
  constructor
  · exact exists_of_ofExcept_ok
  · rintro ⟨hmissing, rfl⟩
    rw [hmissing]
    rfl

/-- An earlier value is read from where it first stood. -/
theorem iff_again {entry : RefEntry}
    (henter : enter env scope.recording spot s = .ok (.ref entry) u) :
    Gives env scope spot shape s v t ↔
      ∃ between, Gives env { scope with recording := false } (.entered entry.type entry.resolved)
        shape { u with input := entry.start } v between ∧ t = { between with input := u.input } := by
  by_cases hshape : env.shapes.resolve shape = .refused
  · exact ⟨fun h => absurd hshape h.exists_enter.1, fun ⟨_, h, _⟩ => absurd hshape h.exists_enter.1⟩
  rw [iff_succ]
  simp only [datumWithin_of_ne_refused hshape, datumWithin_resolve]
  rw [eventually_bind_of_ok henter]
  constructor
  · rintro ⟨n, hn⟩
    obtain ⟨between, hread, rfl⟩ := exists_of_again_ok hn
    exact ⟨between, ⟨n, hread⟩, rfl⟩
  · rintro ⟨between, ⟨n, hread⟩, rfl⟩
    exact ⟨n, again_of_ok hread⟩

end Gives

end Read

end SchemaWire
