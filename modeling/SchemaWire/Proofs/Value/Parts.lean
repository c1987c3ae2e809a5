import SchemaWire.Data.Places
import SchemaWire.Proofs.Value.Resolve

/-!
# Shapes inside of shapes

Reading a shape asks for its parts, and reading a part asks for parts of the part. All of
them stand in one list, which no step leaves: neither following the name of a user type nor
going on to a part.
-/

namespace SchemaWire

namespace Payload

/-- The shapes in the payload of a variant. -/
def parts : Payload Shape → List Shape
  | .unit => []
  | .newtype content => [content]
  | .tuple items => items
  | .struct members => members.map Member.content

end Payload

namespace Shape

/-- The shapes that reading a shape asks for. -/
def parts : Shape → List Shape
  | .option content | .newtype _ content | .list _ content | .set _ content => [content]
  | .any | .identifier => [.any]
  | .ignored => [.ignored]
  | .bytes => [.int .uint8]
  | .map _ key value | .firstEntry _ key value => [key, value]
  | .tuple items | .tupleStruct _ items => items
  | .struct _ members =>
    .choice (members.map Member.name) :: .ignored :: members.map Member.content
  | .enum _ variants => variants.flatMap fun variant => variant.payload.parts
  | _ => []

/-- A shape is among those that reading it comes by. -/
theorem mem_within (shape : Shape) : shape ∈ shape.within := by
  cases shape <;> simp [within]

/-- The shapes that reading an item comes by are among those of the items. -/
theorem within_subset_withinItems {items : List Shape} {item : Shape} (h : item ∈ items) :
    item.within ⊆ withinItems items := by
  induction items with
  | nil => cases h
  | cons first rest ih =>
    rw [withinItems]
    rcases List.mem_cons.mp h with rfl | hrest
    · exact List.subset_append_left _ _
    · exact fun part hpart => List.mem_append_right _ (ih hrest hpart)

/-- The shapes that reading a part comes by are among those of the parts. -/
theorem within_subset_withinMembers {members : List (Member Shape)} {member : Member Shape}
    (h : member ∈ members) : member.content.within ⊆ withinMembers members := by
  induction members with
  | nil => cases h
  | cons first rest ih =>
    obtain ⟨name, optional, content⟩ := first
    rw [withinMembers]
    rcases List.mem_cons.mp h with rfl | hrest
    · exact List.subset_append_left _ _
    · exact fun part hpart => List.mem_append_right _ (ih hrest hpart)

/-- The shapes of a variant are among those that reading the variants comes by. -/
theorem within_subset_withinVariants {variants : List (Variant Shape)} {variant : Variant Shape}
    (h : variant ∈ variants) {part : Shape} (hpart : part ∈ variant.payload.parts) :
    part.within ⊆ withinVariants variants := by
  induction variants with
  | nil => cases h
  | cons first rest ih =>
    obtain ⟨name, payload⟩ := first
    rcases List.mem_cons.mp h with rfl | hrest
    · cases payload with
      | unit => cases hpart
      | newtype content =>
        rw [withinVariants, List.mem_singleton.mp hpart]
        exact List.subset_append_left _ _
      | tuple items =>
        rw [withinVariants]
        exact fun s hs => List.mem_append_left _ (within_subset_withinItems hpart hs)
      | struct members =>
        obtain ⟨member, hmember, rfl⟩ := List.mem_map.mp hpart
        rw [withinVariants]
        exact fun s hs => List.mem_append_left _ (within_subset_withinMembers hmember hs)
    · have hothers := ih hrest
      cases payload with
      | unit => rwa [withinVariants]
      | newtype content | tuple items | struct members =>
        rw [withinVariants]
        exact fun s hs => List.mem_append_right _ (hothers hs)

end Shape

/-- The shapes that every reader may come by. -/
def Shapes.common : List Shape := [.any, .ignored, .refused, .int .uint8]

namespace Shape

/-- What reading a part comes by, reading the shape comes by, apart from the common shapes. -/
theorem within_subset_of_mem_parts {shape part : Shape} (h : part ∈ shape.parts) :
    part ∈ Shapes.common ∨ part.within ⊆ shape.within := by
  cases shape with
  | option content | newtype name content | list name content | set name content =>
    rw [List.mem_singleton.mp h, within]
    exact .inr (List.subset_cons_self _ _)
  | any | identifier | ignored | bytes =>
    rw [List.mem_singleton.mp h]
    exact .inl (by simp [Shapes.common])
  | map name key value | firstEntry name key value =>
    rw [within]
    rcases List.mem_pair.mp h with rfl | rfl
    · exact .inr fun s hs => List.mem_cons_of_mem _ (List.mem_append_left _ hs)
    · exact .inr fun s hs => List.mem_cons_of_mem _ (List.mem_append_right _ hs)
  | tuple items | tupleStruct name items =>
    rw [within]
    exact .inr fun s hs => List.mem_cons_of_mem _ (within_subset_withinItems h hs)
  | struct name members =>
    rw [within]
    rcases List.mem_cons.mp h with rfl | h
    · refine .inr fun s hs => ?_
      rw [within] at hs
      · rw [List.mem_singleton.mp hs]
        exact List.mem_cons_of_mem _ List.mem_cons_self
      all_goals exact nofun
    · rcases List.mem_cons.mp h with rfl | h
      · exact .inl (by simp [Shapes.common])
      · obtain ⟨member, hmember, rfl⟩ := List.mem_map.mp h
        refine .inr fun s hs => List.mem_cons_of_mem _ (List.mem_cons_of_mem _ ?_)
        exact within_subset_withinMembers hmember hs
  | enum name variants =>
    obtain ⟨variant, hvariant, hpart⟩ := List.mem_flatMap.mp h
    rw [within]
    exact .inr fun s hs => List.mem_cons_of_mem _ (within_subset_withinVariants hvariant hpart hs)
  | _ => cases h

/-- The parts of the listed shapes are listed, or common. -/
def Closed (shapes : List Shape) : Prop :=
  ∀ shape ∈ shapes, ∀ part ∈ shape.parts, part ∈ Shapes.common ∨ part ∈ shapes

/-- Two lists in sequence are closed if each of them is. -/
theorem Closed.append {front back : List Shape} (hfront : Closed front) (hback : Closed back) :
    Closed (front ++ back) := by
  intro shape hshape part hpart
  rcases List.mem_append.mp hshape with h | h
  · exact (hfront shape h part hpart).imp_right (List.mem_append_left _)
  · exact (hback shape h part hpart).imp_right (List.mem_append_right _)

/-- The list of nothing is closed. -/
theorem closed_nil : Closed [] := nofun

/-- What reading a shape comes by is closed, if that is which stands behind the shape. -/
theorem closed_of_rest {shape : Shape} {rest : List Shape} (h : shape.within = shape :: rest)
    (hrest : Closed rest) : Closed shape.within := by
  intro other hother part hpart
  rw [h] at hother
  rcases List.mem_cons.mp hother with rfl | hmem
  · exact (within_subset_of_mem_parts hpart).imp_right fun hsubset => hsubset part.mem_within
  · rw [h]
    exact (hrest other hmem part hpart).imp_right (List.mem_cons_of_mem _)

mutual

/-- What reading a shape comes by is closed. -/
theorem closed_within : (shape : Shape) → Closed shape.within
  | .option content => closed_of_rest rfl content.closed_within
  | .list _ element => closed_of_rest rfl element.closed_within
  | .set _ element => closed_of_rest rfl element.closed_within
  | .newtype _ content => closed_of_rest rfl content.closed_within
  | .map _ key value => closed_of_rest rfl (key.closed_within.append value.closed_within)
  | .firstEntry _ key value =>
    closed_of_rest rfl (key.closed_within.append value.closed_within)
  | .tuple items => closed_of_rest rfl (closed_withinItems items)
  | .tupleStruct _ items => closed_of_rest rfl (closed_withinItems items)
  | .struct _ members => by
    refine closed_of_rest rfl ?_
    intro other hother part hpart
    rcases List.mem_cons.mp hother with rfl | hmem
    · cases hpart
    · exact (closed_withinMembers members other hmem part hpart).imp_right
        (List.mem_cons_of_mem _)
  | .enum _ variants => closed_of_rest rfl (closed_withinVariants variants)
  | .bool | .int _ | .float32 | .float64 | .char | .string | .str | .bytes | .byteSlice | .any
  | .identifier | .ignored | .refused | .choice _ | .unit | .unitStruct _ | .user _ =>
    closed_of_rest rfl closed_nil

/-- What reading values by position comes by is closed. -/
theorem closed_withinItems : (items : List Shape) → Closed (withinItems items)
  | [] => closed_nil
  | item :: rest => item.closed_within.append (closed_withinItems rest)

/-- What reading the parts of a struct comes by is closed. -/
theorem closed_withinMembers : (members : List (Member Shape)) → Closed (withinMembers members)
  | [] => closed_nil
  | ⟨_, _, content⟩ :: rest => content.closed_within.append (closed_withinMembers rest)

/-- What reading the variants of an enum comes by is closed. -/
theorem closed_withinVariants : (variants : List (Variant Shape)) →
    Closed (withinVariants variants)
  | [] => closed_nil
  | ⟨_, .unit⟩ :: rest => closed_withinVariants rest
  | ⟨_, .newtype content⟩ :: rest => content.closed_within.append (closed_withinVariants rest)
  | ⟨_, .tuple items⟩ :: rest =>
    (closed_withinItems items).append (closed_withinVariants rest)
  | ⟨_, .struct members⟩ :: rest =>
    (closed_withinMembers members).append (closed_withinVariants rest)

end

end Shape

/-- Shapes that no step of reading leaves. -/
structure Shapes.Stable (shapes : Shapes) (all : List Shape) : Prop where
  /-- Following the name of a user type stays among them. -/
  resolve : ∀ shape ∈ all, shapes.resolve shape ∈ all
  /-- Going on to a part stays among them. -/
  parts : ∀ shape ∈ all, ∀ part ∈ shape.parts, part ∈ all

namespace Shapes

variable {shapes : Shapes}

/-- Following the name of a user type leads to a shape in the table or to none. -/
theorem follow_mem {all : List Shape} (hrefused : .refused ∈ all)
    (htable : ∀ entry ∈ shapes, entry.2 ∈ all) (n : Nat) {shape : Shape} (h : shape ∈ all) :
    shapes.follow n shape ∈ all := by
  induction n generalizing shape with
  | zero =>
    cases shape with
    | user name => exact hrefused
    | _ => exact h
  | succ n ih =>
    cases shape with
    | user name =>
      refine ih ?_
      rw [ofName]
      cases hlookup : shapes.lookup name with
      | none => exact hrefused
      | some found =>
        obtain ⟨front, back, rfl, -⟩ := List.lookup_eq_some_iff.mp hlookup
        exact htable (name, found) (List.mem_append_right _ List.mem_cons_self)
    | _ => exact h

/-- The parts of common shapes are common. -/
theorem parts_common {shape part : Shape} (h : shape ∈ common) (hpart : part ∈ shape.parts) :
    part ∈ common := by
  simp only [common, List.mem_cons, List.not_mem_nil, or_false] at h
  rcases h with rfl | rfl | rfl | rfl
  · rw [List.mem_singleton.mp hpart]
    simp [common]
  · rw [List.mem_singleton.mp hpart]
    simp [common]
  · cases hpart
  · cases hpart

/-- The shapes that a reader comes by are stable, together with shapes that hold no others. -/
theorem stable_within (top : Shape) {others : List Shape}
    (hothers : ∀ shape ∈ others, ∀ part ∈ shape.parts, part ∈ common) :
    shapes.Stable (shapes.within top ++ others) := by
  have hcommon : common ⊆ shapes.within top ++ others := fun shape h =>
    List.mem_append_left _ (List.mem_append_left _ (List.mem_append_left _ h))
  have hclosed : Shape.Closed (common ++ top.within ++
      shapes.flatMap (fun entry => entry.2.within) ++ others) := by
    refine Shape.Closed.append (Shape.Closed.append (Shape.Closed.append ?_ top.closed_within) ?_) ?_
    · exact fun shape hshape part hpart => .inl (parts_common hshape hpart)
    · intro shape hshape part hpart
      obtain ⟨entry, hentry, hmem⟩ := List.mem_flatMap.mp hshape
      exact (entry.2.closed_within shape hmem part hpart).imp_right fun h =>
        List.mem_flatMap.mpr ⟨entry, hentry, h⟩
    · exact fun shape hshape part hpart => .inl (hothers shape hshape part hpart)
  constructor
  · intro shape hshape
    refine follow_mem (hcommon (by simp [common])) (fun entry hentry => ?_) _ hshape
    have hown : entry.2 ∈ shapes.flatMap fun entry => entry.2.within :=
      List.mem_flatMap.mpr ⟨entry, hentry, entry.2.mem_within⟩
    exact List.mem_append_left _ (List.mem_append_right _ hown)
  · intro shape hshape part hpart
    rcases hclosed shape hshape part hpart with h | h
    · exact hcommon h
    · exact h

end Shapes

end SchemaWire
