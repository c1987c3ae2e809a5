import SchemaWire.Varint

/-!
# Wire types

What a schema says about the values of a field: the type id and, for collections, the
types of what they hold. A nested type is written as one number, with its two flags in the
low bits. How many nested types follow is known from the kind, so their number is never
written.
-/

namespace SchemaWire

/-- The type of a field or of the contents of a collection. -/
structure WireType where
  /-- The id: a kind in the low byte, the number of a user type above it. -/
  id : UInt32
  /-- Whether values may be null. -/
  nullable : Bool
  /-- Whether values can be referred to later. -/
  tracked : Bool
  /-- The types of elements, or of keys and values. -/
  args : List WireType
  deriving Repr, Inhabited

namespace WireType

mutual

/-- Equality of wire types, decided part by part. -/
def decideEq : (s t : WireType) → Decidable (s = t)
  | ⟨i, n, r, xs⟩, ⟨j, m, q, ys⟩ =>
    if h : i = j ∧ n = m ∧ r = q then
      match decideEqAll xs ys with
      | isTrue hargs => isTrue (by rw [h.1, h.2.1, h.2.2, hargs])
      | isFalse hargs => isFalse fun heq => hargs (WireType.mk.inj heq).2.2.2
    else isFalse fun heq =>
      h ⟨(WireType.mk.inj heq).1, (WireType.mk.inj heq).2.1, (WireType.mk.inj heq).2.2.1⟩

/-- Equality of lists of wire types. -/
def decideEqAll : (xs ys : List WireType) → Decidable (xs = ys)
  | [], [] => isTrue rfl
  | [], _ :: _ => isFalse nofun
  | _ :: _, [] => isFalse nofun
  | x :: xs, y :: ys =>
    match decideEq x y, decideEqAll xs ys with
    | isTrue hhead, isTrue htail => isTrue (by rw [hhead, htail])
    | isFalse hhead, _ => isFalse fun heq => hhead (List.cons.inj heq).1
    | _, isFalse htail => isFalse fun heq => htail (List.cons.inj heq).2

end

instance : DecidableEq WireType := decideEq

mutual

/-- A wire type and the types nested in it. -/
def within : WireType → List WireType
  | ⟨id, nullable, tracked, args⟩ => ⟨id, nullable, tracked, args⟩ :: withinArgs args

/-- The types in a list of types. -/
def withinArgs : List WireType → List WireType
  | [] => []
  | arg :: rest => arg.within ++ withinArgs rest

end

/-- The kind of a type id, which must have one. -/
def kindOf (id : UInt32) : Except Error Kind :=
  match Kind.ofTypeId? id with
  | some kind => .ok kind
  | none => .error (.unknownKind (Kind.codeOfTypeId id))

/-- The number of a nested type: its id above its two flags. -/
def nestedWord (t : WireType) : Nat :=
  4 * t.id.toNat + 2 * t.nullable.toNat + t.tracked.toNat

mutual

/-- Write the nested types of a type. Their number has to be right for its kind. -/
def encodeArgs : WireType → Except Error (List UInt8)
  | ⟨id, _, _, args⟩ => do
    let kind ← kindOf id
    if args.length ≠ kind.arity then throw (.argumentCount id kind.arity args.length)
    encodeNested args

/-- Write nested types one after the other, each with the types nested in it. -/
def encodeNested : List WireType → Except Error (List UInt8)
  | [] => return []
  | t :: rest => do
    if 2 ^ 32 ≤ t.nestedWord then throw (.range t.nestedWord 32)
    let args ← encodeArgs t
    let others ← encodeNested rest
    return Varint.encode32 t.nestedWord ++ args ++ others

end

/-- The number of nested types that follow a type id. -/
def takeArity (id : UInt32) : Take Nat := do
  return (← MonadExcept.ofExcept (kindOf id)).arity

/-- Read nested types. The budget is the number of bytes that are left: every nested type
takes at least one of them. -/
def takeNested : Nat → Nat → Take (List WireType)
  | _, 0 => return []
  | 0, _ + 1 => throw (.unexpectedEnd 1)
  | budget + 1, count + 1 => do
    let word ← Varint.take32
    let id := UInt32.ofNat (word / 4)
    let args ← takeNested budget (← takeArity id)
    let others ← takeNested budget count
    return ⟨id, word / 2 % 2 == 1, word % 2 == 1, args⟩ :: others

/-- Read the types nested in a type with the given id. -/
def takeArgs (id : UInt32) : Take (List WireType) := do
  let count ← takeArity id
  takeNested (← get).length count

end WireType

end SchemaWire
