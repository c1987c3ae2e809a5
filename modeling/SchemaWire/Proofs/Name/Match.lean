import Mathlib.Data.List.Nodup
import SchemaWire.Name.Match

/-!
# Which name matches

A name matches the first name that equals it, and otherwise the first one with the same
normal form. Either way the two have one normal form, so names of distinct normal forms match
distinct places.
-/

namespace SchemaWire.Name

variable {names : List String} {name : String} {place : Nat}

/-- The name at the matching place has the same normal form. -/
theorem exists_of_match?_eq_some (h : match? names name = some place) :
    ∃ other, names[place]? = some other ∧ normalized other = normalized name := by
  unfold match? at h
  split at h
  next index hfound =>
    cases h
    obtain ⟨hlt, hsame, -⟩ := List.findIdx?_eq_some_iff_getElem.mp hfound
    have heq : names[place] = name := by simpa using hsame
    exact ⟨name, by rw [List.getElem?_eq_getElem hlt, heq], rfl⟩
  next =>
    obtain ⟨hlt, hsame, -⟩ := List.findIdx?_eq_some_iff_getElem.mp h
    have heq : normalized names[place] = normalized name := by simpa using hsame
    exact ⟨names[place], List.getElem?_eq_getElem hlt, heq⟩

/-- Where names are distinct, a name of the list matches its own place. -/
theorem match?_of_getElem? (hnodup : names.Nodup) (h : names[place]? = some name) :
    match? names name = some place := by
  obtain ⟨hlt, heq⟩ := List.getElem?_eq_some_iff.mp h
  have hfound : names.findIdx? (· == name) = some place := by
    refine List.findIdx?_eq_some_iff_getElem.mpr ⟨hlt, by simpa using heq, ?_⟩
    intro j hj hsame
    have hequal : names[j] = names[place] := by
      rw [heq]
      simpa using hsame
    have hindex := (hnodup.getElem_inj_iff).mp hequal
    omega
  rw [match?, hfound]

/-- Names that match one place have one normal form. -/
theorem normalized_eq_of_match? {other : String} (h : match? names name = some place)
    (hother : match? names other = some place) : normalized name = normalized other := by
  obtain ⟨first, hfirst, hname⟩ := exists_of_match?_eq_some h
  obtain ⟨second, hsecond, hsame⟩ := exists_of_match?_eq_some hother
  cases hfirst.symm.trans hsecond
  rw [← hname, hsame]

end SchemaWire.Name
