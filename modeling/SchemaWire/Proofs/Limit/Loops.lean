import SchemaWire.Proofs.Limit.Realm
import SchemaWire.Proofs.Value.Parts
import SchemaWire.Value.Visit

/-!
# Loops of readers with a bound

Loops over elements, entries and parts are traced where each turn of them is. What a turn
reads is a part of the shape that the loop fills.
-/

namespace SchemaWire

namespace Realm

variable {σ : Type} {realm : Realm σ} {bounds : Nat → Prop}

/-- Elements of each of the given shapes are traced at every position. -/
def TracedElements (realm : Realm σ) (bounds : Nat → Prop) (read : Nat → Elements σ)
    (shapes : List Shape) : Prop :=
  ∀ shape ∈ shapes, ∀ index,
    realm.Traced bounds (fun n => read n index shape) fun _ => True

/-- Readers that are run several times are traced. -/
theorem traced_times {α : Type} {read : Nat → EStateM Error σ α} {post : α → Prop}
    (h : realm.Traced bounds read post) (count : Nat) :
    realm.Traced bounds (fun n => Take.times (read n) count) fun _ => True := by
  induction count with
  | zero => exact .pure trivial
  | succ count ih => exact h.bind fun first _ => ih.map (first :: ·)

namespace TracedElements

variable {read : Nat → Elements σ}

/-- Elements of one shape are traced. -/
theorem collect {shapes : List Shape} (h : realm.TracedElements bounds read shapes) {shape : Shape}
    (hshape : shape ∈ shapes) (count index : Nat) :
    realm.Traced bounds (fun n => (read n).collect shape count index) fun _ => True := by
  induction count generalizing index with
  | zero => exact .pure trivial
  | succ count ih =>
    exact (h shape hshape index).bind fun first _ => (ih (index + 1)).map (first :: ·)

/-- Values by position are traced. -/
theorem positional {items : List Shape} (h : realm.TracedElements bounds read items)
    (count index : Nat) :
    realm.Traced bounds (fun n => (read n).positional count items index) fun _ => True := by
  induction items generalizing index with
  | nil => exact .pure trivial
  | cons shape rest ih =>
    have hrest := ih fun shape hshape => h shape (List.mem_cons_of_mem _ hshape)
    unfold Elements.positional
    by_cases hcount : count ≤ index
    · simp only [if_pos hcount]
      exact (Traced.throw _ fun _ => True).bind fun _ _ =>
        (h shape List.mem_cons_self index).bind fun first _ =>
          (hrest (index + 1)).map (first :: ·)
    · simp only [if_neg hcount]
      exact (h shape List.mem_cons_self index).bind fun first _ =>
        (hrest (index + 1)).map (first :: ·)

/-- The parts of a struct are traced. -/
theorem members {parts : List (Member Shape)}
    (h : realm.TracedElements bounds read (parts.map Member.content)) (count index : Nat) :
    realm.Traced bounds (fun n => (read n).members count parts index) fun _ => True := by
  induction parts generalizing index with
  | nil => exact .pure trivial
  | cons member rest ih =>
    have hrest := ih fun shape hshape => h shape (List.mem_cons_of_mem _ hshape)
    have hothers (first : Datum) : realm.Traced bounds (fun n => do
        return (member.name, first) :: (← (read n).members count rest (index + 1))) fun _ => True :=
      (hrest (index + 1)).map ((member.name, first) :: ·)
    unfold Elements.members
    by_cases hcount : index < count
    · simp only [if_pos hcount]
      exact (h member.content List.mem_cons_self index).bind fun first _ => hothers first
    · simp only [if_neg hcount]
      cases member.optional with
      | true =>
        have habsent : realm.Traced bounds
            (fun _ => (Pure.pure Datum.absent : EStateM Error σ Datum)) fun _ => True :=
          .pure trivial
        exact habsent.bind fun first _ => hothers first
      | false => exact (Traced.throw _ fun _ => True).bind fun first _ => hothers first

/-- Filling a shape with elements is traced. -/
theorem visit {shape : Shape} (h : realm.TracedElements bounds read shape.parts) (count : Nat) :
    realm.Traced bounds (fun n => (read n).visit count shape) fun _ => True := by
  cases shape with
  | list name element | set name element =>
    exact (h.collect List.mem_cons_self count 0).map fun items => (Datum.seq true items, count)
  | any | identifier =>
    exact (h.collect List.mem_cons_self count 0).map fun items => (Datum.seq true items, count)
  | ignored => exact (h.collect List.mem_cons_self count 0).map fun _ => (Datum.unit, count)
  | bytes =>
    exact (h.collect List.mem_cons_self count 0).map fun items =>
      (Datum.bytes (Elements.octets items), count)
  | tuple items | tupleStruct name items =>
    exact (h.positional count 0).map fun values => (Datum.tuple values, items.length)
  | struct name parts =>
    have hparts : realm.TracedElements bounds read (parts.map Member.content) :=
      fun part hpart => h part (List.mem_cons_of_mem _ (List.mem_cons_of_mem _ hpart))
    exact (hparts.members count 0).map fun fields =>
      (Datum.struct name fields, min count parts.length)
  | _ => exact .throw _ _

end TracedElements

section Entries

variable {read : Nat → Entries σ}

/-- Entries of one shape are traced. -/
theorem traced_collect {keys values : List Shape}
    (hkeys : realm.TracedElements bounds (fun n => (read n).key) keys)
    (hvalues : realm.TracedElements bounds (fun n => (read n).value) values) {key value : Shape}
    (hkey : key ∈ keys) (hvalue : value ∈ values) (count index : Nat) :
    realm.Traced bounds (fun n => (read n).collect key value count index) fun _ => True := by
  induction count generalizing index with
  | zero => exact .pure trivial
  | succ count ih =>
    exact (hkeys key hkey index).bind fun k _ => (hvalues value hvalue index).bind fun v _ =>
      (ih (index + 1)).map ((k, v) :: ·)

/-- Entries whose keys name the parts of a struct are traced. -/
theorem traced_named {parts : List (Member Shape)} {shapes : List Shape}
    (hkeys : realm.TracedElements bounds (fun n => (read n).key) shapes)
    (hvalues : realm.TracedElements bounds (fun n => (read n).value) shapes)
    (hchoice : .choice (parts.map Member.name) ∈ shapes) (hignored : .ignored ∈ shapes)
    (hparts : ∀ part ∈ parts, part.content ∈ shapes) (count index : Nat)
    (found : List (Nat × Datum)) :
    realm.Traced bounds (fun n => (read n).named parts count index found) fun _ => True := by
  induction count generalizing index found with
  | zero => exact .pure trivial
  | succ count ih =>
    refine (hkeys _ hchoice index).bind fun key _ => ?_
    have hother : realm.Traced bounds (fun n => do
        let _ ← (read n).value index .ignored
        (read n).named parts count (index + 1) found) fun _ => True :=
      (hvalues _ hignored index).bind fun _ _ => ih (index + 1) found
    cases key with
    | choice place =>
      cases place with
      | none => exact hother
      | some place =>
        cases hpart : parts[place]? with
        | none =>
          simp only [hpart]
          exact .throw _ _
        | some part =>
          have hmem := hparts part (List.mem_of_getElem? hpart)
          simp only [hpart]
          by_cases htwice : (found.lookup place).isSome
          · simp only [if_pos htwice]
            exact (Traced.throw _ fun _ => True).bind fun _ _ =>
              (hvalues _ hmem index).bind fun _ _ => ih _ _
          · simp only [if_neg htwice]
            exact (hvalues _ hmem index).bind fun _ _ => ih _ _
    | _ => exact hother

/-- Filling a shape with entries is traced. -/
theorem traced_visit {shape : Shape}
    (hkeys : realm.TracedElements bounds (fun n => (read n).key) shape.parts)
    (hvalues : realm.TracedElements bounds (fun n => (read n).value) shape.parts) (count : Nat) :
    realm.Traced bounds (fun n => (read n).visit count shape) fun _ => True := by
  cases shape with
  | map name key value =>
    exact (traced_collect hkeys hvalues List.mem_cons_self
      (List.mem_cons_of_mem _ List.mem_cons_self) count 0).map fun entries =>
        (Datum.map true entries, count)
  | any | identifier =>
    exact (traced_collect hkeys hvalues List.mem_cons_self List.mem_cons_self count 0).map
      fun entries => (Datum.map true entries, count)
  | ignored =>
    exact (traced_collect hkeys hvalues List.mem_cons_self List.mem_cons_self count 0).map
      fun _ => (Datum.unit, count)
  | firstEntry name key value =>
    exact (traced_collect hkeys hvalues List.mem_cons_self
      (List.mem_cons_of_mem _ List.mem_cons_self) (min count 1) 0).map fun entries =>
        (Datum.firstEntry count entries, min count 1)
  | struct name parts =>
    have hchoice : Shape.choice (parts.map Member.name) ∈ (Shape.struct name parts).parts :=
      List.mem_cons_self
    have hignored : Shape.ignored ∈ (Shape.struct name parts).parts :=
      List.mem_cons_of_mem _ List.mem_cons_self
    have hparts (part : Member Shape) (hpart : part ∈ parts) :
        part.content ∈ (Shape.struct name parts).parts :=
      List.mem_cons_of_mem _ (List.mem_cons_of_mem _ (List.mem_map_of_mem hpart))
    refine (traced_named hkeys hvalues hchoice hignored hparts count 0 []).bind fun found _ => ?_
    exact (Traced.ofExcept fun _ _ => trivial).map fun fields => (Datum.struct name fields, count)
  | _ => exact .throw _ _

end Entries

end Realm

end SchemaWire
