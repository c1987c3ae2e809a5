import Mathlib.Data.List.Nodup
import SchemaWire.Proofs.Value.Typing

/-!
# Shapes that were resolved

A shape that was resolved is not the name of a user type, and resolving it again changes
nothing. A value of a user type is a value of the shape that the type stands for.
-/

namespace SchemaWire

/-- In a place where the value may be missing, the type says so. -/
theorem FieldType.nullable_orNull (type : FieldType) : type.orNull.nullable = true := by
  cases type <;> rfl

/-- A value that may be missing is of the same type otherwise. -/
theorem FieldType.host_orNull (type : FieldType) : type.orNull.host = type.host := by
  cases type <;> rfl

/-- Parts with the names and types of declared fields have their names. -/
theorem Member.names_of_declared {declared : List FieldDescriptor} {parts : List (Member Shape)}
    (h : declared.map (fun field => (field.name, field.type)) =
      parts.map fun part => (part.name, part.content.declared)) :
    declared.map FieldDescriptor.name = parts.map Member.name := by
  have hnames := congrArg (List.map Prod.fst) h
  rwa [List.map_map, List.map_map] at hnames

namespace Shapes

variable {shapes : Shapes}

/-- Following a shape never ends with the name of a user type. -/
theorem follow_ne_user (n : Nat) (shape : Shape) (name : String) :
    shapes.follow n shape ≠ .user name := by
  induction n generalizing shape with
  | zero => cases shape <;> exact nofun
  | succ n ih =>
    cases shape with
    | user other => exact ih (shapes.ofName other)
    | _ => exact nofun

/-- A shape that was resolved is not the name of a user type. -/
theorem resolve_ne_user (shape : Shape) (name : String) : shapes.resolve shape ≠ .user name :=
  follow_ne_user _ shape name

/-- A shape that is not the name of a user type stands for itself. -/
theorem resolve_of_ne_user {shape : Shape} (h : ∀ name, shape ≠ .user name) :
    shapes.resolve shape = shape := by
  cases shape with
  | user name => exact absurd rfl (h name)
  | _ => rfl

/-- Resolving a shape again changes nothing. -/
theorem resolve_resolve (shape : Shape) :
    shapes.resolve (shapes.resolve shape) = shapes.resolve shape :=
  resolve_of_ne_user (resolve_ne_user shape)

/-- A name whose shape is known and agrees with the table stands for that shape. -/
theorem Agrees.resolve_eq {name : String} {shape : Shape} (h : shapes.Agrees name shape)
    (hknown : (shapes.lookup name).isSome) (hshape : ∀ other, shape ≠ .user other) :
    shapes.resolve (.user name) = shape := by
  have hlookup : shapes.lookup name = some shape :=
    h.resolve_left (Option.isSome_iff_ne_none.mp hknown)
  rw [resolve, follow, ofName, hlookup, Option.getD_some]
  cases shape with
  | user other => exact absurd rfl (hshape other)
  | _ => cases shapes.length <;> rfl

end Shapes

namespace Shape

variable {shapes : Shapes} {shape : Shape} {v : Datum}

/-- A value of a shape is a value of what the shape stands for. -/
theorem Holds.resolved (h : Holds shapes shape v) : Holds shapes (shapes.resolve shape) v := by
  cases shape with
  | user name =>
    cases h with
    | user h => exact h
  | _ => exact h

/-- No value that is held is left out. -/
theorem Holds.ne_absent (h : Holds shapes shape v) : v ≠ .absent := by
  rintro rfl
  have hresolved := h.resolved
  have huser := shapes.resolve_ne_user shape
  generalize shapes.resolve shape = own at hresolved huser
  cases hresolved
  exact absurd rfl (huser _)

/-- The fields of a struct are held where its parts are. -/
theorem exists_holds_of_mem_fields {members : List (Member Shape)}
    {fields : List (String × Datum)} (hnames : members.map Member.name = fields.map Prod.fst)
    (h : ∀ part ∈ members.zip fields, Holds shapes part.1.content part.2.2)
    {field : String × Datum} (hfield : field ∈ fields) :
    ∃ member ∈ members, member.name = field.1 ∧ Holds shapes member.content field.2 := by
  induction members generalizing fields with
  | nil =>
    cases fields with
    | nil => cases hfield
    | cons => cases hnames
  | cons member others ih =>
    cases fields with
    | nil => cases hfield
    | cons first rest =>
      obtain ⟨hname, hrest⟩ := List.cons.inj hnames
      rcases List.mem_cons.mp hfield with rfl | hmem
      · exact ⟨member, List.mem_cons_self, hname, h (member, field) List.mem_cons_self⟩
      · obtain ⟨part, hpart, hheld⟩ := ih hrest
          (fun part hmem => h part (List.mem_cons_of_mem _ hmem)) hmem
        exact ⟨part, List.mem_cons_of_mem _ hpart, hheld⟩

/-- A declared field and the value under its name belong to one part of the struct. -/
theorem exists_member {declared : List FieldDescriptor} {members : List (Member Shape)}
    {fields : List (String × Datum)}
    (hdeclared : declared.map (fun field => (field.name, field.type)) =
      members.map fun member => (member.name, member.content.declared))
    (hnodup : (members.map Member.name).Nodup)
    (hnames : members.map Member.name = fields.map Prod.fst)
    (h : ∀ part ∈ members.zip fields, Holds shapes part.1.content part.2.2)
    {field : FieldDescriptor} (hfield : field ∈ declared) {value : Datum}
    (hvalue : (field.name, value) ∈ fields) :
    ∃ member ∈ members, member.name = field.name ∧ member.content.declared = field.type ∧
      Holds shapes member.content value := by
  have hpair : (field.name, field.type) ∈ declared.map fun field => (field.name, field.type) :=
    List.mem_map_of_mem hfield
  rw [hdeclared] at hpair
  obtain ⟨member, hmember, heq⟩ := List.mem_map.mp hpair
  obtain ⟨hname, htype⟩ := Prod.mk.inj heq
  obtain ⟨other, hother, hsame, hholds⟩ := exists_holds_of_mem_fields hnames h hvalue
  have hone : member = other :=
    List.inj_on_of_nodup_map hnodup hmember hother (hname.trans hsame.symm)
  exact ⟨member, hmember, hname, htype, hone ▸ hholds⟩

/-- A shape whose values may be missing holds values of another shape otherwise. -/
theorem exists_of_isOption (h : shape.isOption = true) : ∃ content, shape = .option content := by
  cases shape with
  | option content => exact ⟨content, rfl⟩
  | _ => cases h

/-- Only values that may be missing are declared as such. -/
theorem Declarable.nullable_declared {hosts : HostType → Prop} (h : Declarable hosts shape) :
    shape.declared.nullable = shape.isOption := by
  cases h with
  | @option content hflat hcontent => exact content.declared.nullable_orNull
  | _ => rfl

/-- A value that is not null where its type may be is there. -/
theorem Declarable.ne_none {hosts : HostType → Prop} (h : Declarable hosts shape) {v : Datum}
    (hvalue : (shape.declared.nullable && v.isNull) = false) (hoption : shape.isOption = true) :
    v ≠ .none := by
  rintro rfl
  rw [h.nullable_declared, hoption] at hvalue
  cases hvalue

/-- The table agrees on the shape of a collection of which a value is held. -/
theorem Declarable.exists_agrees {hosts : HostType → Prop} (h : Declarable hosts shape)
    (hholds : Holds shapes shape v) (hv : shape.isOption = true → v ≠ .none) {name : String}
    (hhost : shape.declared.host = .collection name) :
    ∃ own, shapes.Agrees name own ∧ own.declared.host = .collection name := by
  induction h generalizing v with
  | list | set | map =>
    cases hhost
    cases hholds
    exact ⟨_, ‹_›, rfl⟩
  | @option content hflat _ ih =>
    cases hholds with
    | none => exact absurd rfl (hv rfl)
    | some hheld =>
      refine ih hheld (fun hoption => ?_) (content.declared.host_orNull ▸ hhost)
      cases hflat.symm.trans hoption
  | _ => cases hhost

end Shape

end SchemaWire
