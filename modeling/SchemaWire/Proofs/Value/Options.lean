import SchemaWire.Proofs.Value.Resolve

/-!
# Options around options

A value may be missing at several levels. However many levels there are, a declared type tells only
whether there is any, so a value that is present and holds nothing counts as a missing one.
-/

namespace SchemaWire

/-- The shape with the given number of options around it. -/
def Shape.options (base : Shape) : Nat → Shape
  | 0 => base
  | n + 1 => .option (base.options n)

namespace Datum

/-- The value as it is present at the given number of levels. -/
def somes (v : Datum) : Nat → Datum
  | 0 => v
  | n + 1 => .some (v.somes n)

/-- Whether the value is missing at some level. -/
def isMissing : Datum → Bool
  | .none => true
  | .some content => content.isMissing
  | _ => false

/-- The value, which is missing at once where it is missing at some level. -/
def collapsed (v : Datum) : Datum :=
  if v.isMissing then .none else v

/-- A value that is present at some levels is missing where it was. -/
theorem isMissing_somes (v : Datum) (n : Nat) : (v.somes n).isMissing = v.isMissing := by
  induction n with
  | zero => rfl
  | succ n ih => exact ih

end Datum

/-- A place where a value may be missing stays one. -/
theorem FieldType.orNull_orNull (type : FieldType) : type.orNull.orNull = type.orNull := by
  cases type <;> rfl

namespace Shape

/-- The declared type tells only whether there are options. -/
theorem declared_options (base : Shape) (n : Nat) :
    (base.options (n + 1)).declared = base.declared.orNull := by
  induction n with
  | zero => rfl
  | succ n ih =>
    rw [options, declared, ih, FieldType.orNull_orNull]

/-- A value within options is missing at one of their levels, or is present at all of them. -/
theorem Holds.of_options {shapes : Shapes} {base : Shape} {n : Nat} {v : Datum}
    (h : (base.options n).Holds shapes v) :
    (∃ k < n, v = Datum.none.somes k) ∨ ∃ w, base.Holds shapes w ∧ v = w.somes n := by
  induction n generalizing v with
  | zero => exact .inr ⟨v, h, rfl⟩
  | succ n ih =>
    cases h with
    | none => exact .inl ⟨0, Nat.succ_pos n, rfl⟩
    | some hcontent =>
      rcases ih hcontent with ⟨k, hk, rfl⟩ | ⟨w, hw, rfl⟩
      · exact .inl ⟨k + 1, Nat.succ_lt_succ hk, rfl⟩
      · exact .inr ⟨w, hw, rfl⟩

end Shape

end SchemaWire
