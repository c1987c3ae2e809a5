import SchemaWire.Engine

/-!
# What holds of every writer of data

Data are written by a few small writers in sequence, and fail for a few causes. What holds of
these, and of a sequence where it holds of the parts, holds of the writer of every value in every
place.
-/

namespace SchemaWire

/-- Whether an error says that parts of a value were told of in an order that no value has. -/
def Error.isDisorder : Error → Bool
  | outsidePlace | outsideSequence | outsideMap | outsideStruct | closedTwice | nothingWritten _
  | leftOpen => true
  | _ => false

/-- A declared type that does not resolve is not registered. -/
theorem Registry.eq_unregistered_of_resolve {registry : Registry} {type : FieldType} {e : Error}
    (h : registry.resolve type = .error e) : e = .unregistered type.label := by
  rw [resolve_eq] at h
  split at h
  · cases h
  · cases h
    rfl

namespace Write

section Fields

variable {env : WriteEnv} {value : Datum}

/-- There are no more fields than are declared. -/
theorem fields_nil_cons (h : value ≠ .absent) (depth : Nat) (name : String)
    (rest : List (String × Datum)) :
    fields env depth [] ((name, value) :: rest) =
      throw (.fieldMismatch "<end of struct>" name) := by
  rw [fields]
  exact h

/-- The first field has to be the one declared first. -/
theorem fields_cons (h : value ≠ .absent) (depth : Nat) (field : FieldDescriptor)
    (others : List FieldDescriptor) (name : String) (rest : List (String × Datum)) :
    fields env depth (field :: others) ((name, value) :: rest) = (do
      if field.name ≠ name then throw (.fieldMismatch field.name name)
      let bytes ← datum env depth (.declared field.type field.tracked true) value
      return bytes ++ (← fields env depth others rest)) := by
  rw [fields]
  exact h

/-- A part of a plain struct that is not left out is written in front of the others. -/
theorem members_cons (h : value ≠ .absent) (depth : Nat) (gaps : Bool) (name : String)
    (rest : List (String × Datum)) :
    members env depth gaps ((name, value) :: rest) = (do
      let bytes ← datum env depth .plain value
      return bytes ++ (← members env depth gaps rest)) := by
  rw [members]
  exact h

end Fields

/-- The property holds of the writers that data are written by, and of sequences of writers of which
it holds. -/
structure Closed (env : WriteEnv) (P : {α : Type} → Write α → Prop) : Prop where
  /-- It holds where nothing is written. -/
  pure : ∀ {α : Type} (a : α), P (Pure.pure a : Write α)
  /-- It holds where writing fails, but for disorder. -/
  throw : ∀ {α : Type} {e : Error}, e.isDisorder = false → P (MonadExcept.throw e : Write α)
  /-- It holds of sequences. -/
  bind : ∀ {α β : Type} {writer : Write α} {next : α → Write β}, P writer → (∀ a, P (next a)) →
    P (writer >>= next)
  /-- It holds where the type information of a registered type is written. -/
  typeInfo : ∀ {type : FieldType} {spec : TypeSpec}, env.registry.resolve type = .ok spec →
    P (typeInfo env.registry env.config.compatible spec)

namespace Closed

variable {env : WriteEnv} {P : {α : Type} → Write α → Prop} (h : Closed env P)
include h

/-- It holds of writers that a registered type is found for. -/
theorem resolve_bind {α : Type} (type : FieldType) {next : TypeSpec → Write α}
    (hnext : ∀ spec, env.registry.resolve type = .ok spec → P (next spec)) :
    P (MonadExcept.ofExcept (env.registry.resolve type) >>= next) := by
  cases hresolve : env.registry.resolve type with
  | ok spec => exact hnext spec hresolve
  | error e =>
    rw [Registry.eq_unregistered_of_resolve hresolve]
    exact h.throw rfl

/-- It holds where a length is written. -/
theorem length (n : Nat) : P (length n) := by
  unfold Write.length
  split
  · exact h.pure _
  · exact h.throw rfl

/-- It holds where bytes are written behind their number. -/
theorem counted (content : List UInt8) : P (counted content) :=
  h.bind (h.length _) fun _ => h.pure _

/-- It holds where the number of elements is written. -/
theorem size (sized : Bool) (n : Nat) : P (size sized n) := by
  unfold Write.size
  split
  · exact h.length n
  · exact h.throw rfl

/-- It holds where the annotations of a value are written. -/
theorem annotations {type : FieldType} {spec : TypeSpec}
    (hspec : env.registry.resolve type = .ok spec) (tracked : Bool) :
    P (annotations env type tracked spec) := by
  refine h.bind ?_ fun _ => h.pure _
  unfold info
  split
  · exact h.typeInfo hspec
  · exact h.pure _

/-- It holds where a place is opened. -/
theorem enter (place : Place) : P (enter env place) := by
  cases place with
  | plain => exact h.pure _
  | declared type tracked annotated =>
    refine h.resolve_bind type fun spec hspec => ?_
    split
    · exact h.bind (h.annotations hspec tracked) fun _ => h.pure _
    · exact h.bind (h.pure _) fun _ => h.pure _

/-- It holds behind annotations, if it does in every layout. -/
theorem behind (place : Place) {content : Layout → Write (List UInt8)}
    (hcontent : ∀ layout, P (content layout)) : P (behind env place content) :=
  h.bind (h.enter place) fun opened => h.bind (hcontent opened.2) fun _ => h.pure _

/-- It holds where a scalar is written. -/
theorem scalar (place : Place) (kind : Kind) {plain typed : Write (List UInt8)} (hplain : P plain)
    (htyped : P typed) : P (scalar env place kind plain typed) := by
  refine h.behind place fun layout => ?_
  cases layout with
  | plain => exact hplain
  | typed spec type =>
    dsimp only
    split
    · exact htyped
    · exact h.throw rfl

/-- It holds where a text is written. -/
theorem text (place : Place) (s : String) : P (text env place s) := by
  refine h.scalar place .string (h.counted _) ?_
  unfold Varint.encode36
  split
  · exact h.bind (h.pure _) fun _ => h.pure _
  · exact h.bind (h.throw rfl) fun _ => h.pure _

/-- It holds where a variant with a payload is written, if it does for the payload. -/
theorem variant (place : Place) (enum : String) (index : Nat) (name : String)
    {payload : Write (List UInt8)} (hpayload : P payload) :
    P (variant env place enum index name payload) := by
  refine h.behind place fun layout => ?_
  cases layout with
  | plain => exact h.bind hpayload fun _ => h.pure _
  | typed spec type => exact h.throw rfl

mutual

/-- It holds where a value is written. -/
theorem datum : (v : Datum) → (depth : Nat) → (place : Place) → P (datum env depth place v)
  | .bool _, _, place | .int _ _, _, place | .float32 _, _, place | .float64 _, _, place => by
    rw [Write.datum]
    exact h.scalar place _ (h.pure _) (h.pure _)
  | .char c, _, place => by
    cases place with
    | plain => rw [Write.datum]; exact h.pure _
    | declared =>
      rw [Write.datum]
      · exact h.text _ _
      · exact nofun
  | .text s, _, place => by
    rw [Write.datum]
    exact h.text place s
  | .bytes content, _, place => by
    rw [Write.datum]
    exact h.scalar place _ (h.counted _) (h.counted _)
  | .unit, _, place => by
    rw [Write.datum]
    refine h.behind place fun layout => ?_
    cases layout with
    | plain => exact h.pure _
    | typed spec type => exact h.throw rfl
  | .none, _, place => by
    cases place with
    | plain => rw [Write.datum]; exact h.pure _
    | declared =>
      rw [Write.datum]
      split
      · exact h.throw rfl
      · exact h.pure _
  | .some content, depth, place => by
    cases place with
    | plain => rw [Write.datum]; exact h.bind (datum content depth .plain) fun _ => h.pure _
    | declared =>
      rw [Write.datum]
      · exact datum content depth _
      · exact nofun
  | .newtype content, depth, place => by
    rw [Write.datum]
    exact datum content depth place
  | .seq sized content, depth, place => by
    rw [Write.datum]
    refine h.behind place fun layout => ?_
    have hitems (inner : Place) : P (do
        let count ← Write.size sized content.length
        return count ++ (← Write.items env depth inner content)) :=
      h.bind (h.size _ _) fun _ => h.bind (items content depth inner) fun _ => h.pure _
    cases layout with
    | plain => exact hitems .plain
    | typed spec type =>
      dsimp only
      split
      · exact hitems _
      · exact h.throw rfl
  | .tuple content, depth, place => by
    rw [Write.datum]
    refine h.behind place fun layout => ?_
    cases layout with
    | plain => exact items content depth .plain
    | typed spec type => exact h.throw rfl
  | .map sized content, depth, place => by
    rw [Write.datum]
    refine h.behind place fun layout => ?_
    have hentries (key value : Place) : P (do
        let count ← Write.size sized content.length
        return count ++ (← Write.entries env depth key value content)) :=
      h.bind (h.size _ _) fun _ => h.bind (entries content depth key value) fun _ => h.pure _
    cases layout with
    | plain => exact hentries .plain .plain
    | typed spec type =>
      dsimp only
      split
      · exact hentries _ _
      · exact h.throw rfl
  | .struct name content, depth, place => by
    rw [Write.datum]
    refine h.behind place fun layout => ?_
    cases layout with
    | plain => exact members content depth false
    | typed spec type =>
      dsimp only
      split
      · split
        · exact h.throw rfl
        · exact fields content (depth + 1) _
      · exact h.throw rfl
  | .unitVariant enum index name, _, place => by
    rw [Write.datum]
    refine h.behind place fun layout => ?_
    cases layout with
    | plain => exact h.pure _
    | typed spec type =>
      dsimp only
      split
      · exact h.pure _
      · exact h.throw rfl
  | .newtypeVariant enum index name content, depth, place => by
    rw [Write.datum]
    exact h.variant place enum index name (datum content depth .plain)
  | .tupleVariant enum index name content, depth, place => by
    rw [Write.datum]
    exact h.variant place enum index name (items content depth .plain)
  | .structVariant enum index name content, depth, place => by
    rw [Write.datum]
    exact h.variant place enum index name (members content depth true)
  | .firstEntry _ _, _, _ | .choice _, _, _ | .absent, _, _ | .refused _, _, _ => by
    rw [Write.datum]
    exact h.throw rfl

/-- It holds where values are written one after the other. -/
theorem items : (content : List Datum) → (depth : Nat) → (place : Place) →
    P (items env depth place content)
  | [], _, _ => by
    rw [Write.items]
    exact h.pure _
  | first :: rest, depth, place => by
    rw [Write.items]
    exact h.bind (datum first depth place) fun _ =>
      h.bind (items rest depth place) fun _ => h.pure _

/-- It holds where entries are written one after the other. -/
theorem entries : (content : List (Datum × Datum)) → (depth : Nat) →
    (keyPlace valuePlace : Place) → P (entries env depth keyPlace valuePlace content)
  | [], _, _, _ => by
    rw [Write.entries]
    exact h.pure _
  | (key, value) :: rest, depth, keyPlace, valuePlace => by
    rw [Write.entries]
    exact h.bind (datum key depth keyPlace) fun _ => h.bind (datum value depth valuePlace) fun _ =>
      h.bind (entries rest depth keyPlace valuePlace) fun _ => h.pure _

/-- It holds where the parts of a plain struct are written. -/
theorem members : (content : List (String × Datum)) → (depth : Nat) → (gaps : Bool) →
    P (members env depth gaps content)
  | [], _, _ => by
    rw [Write.members]
    exact h.pure _
  | (name, value) :: rest, depth, gaps => by
    unfold Write.members
    split
    next => exact h.pure _
    next heq =>
      cases heq
      split
      · exact members rest depth gaps
      · exact h.throw rfl
    next heq =>
      cases heq
      exact h.bind (datum value depth .plain) fun _ =>
        h.bind (members rest depth gaps) fun _ => h.pure _

/-- It holds where the fields of a struct are written. -/
theorem fields : (content : List (String × Datum)) → (depth : Nat) →
    (declared : List FieldDescriptor) → P (fields env depth declared content)
  | [], _, declared => by
    cases declared with
    | nil => rw [Write.fields]; exact h.pure _
    | cons => rw [Write.fields]; exact h.throw rfl
  | (name, value) :: rest, depth, declared => by
    unfold Write.fields
    split
    next heq => cases heq
    next heq => cases heq
    next => exact h.throw rfl
    next => exact h.throw rfl
    next heq =>
      cases heq
      split
      · exact h.throw rfl
      · exact h.bind (datum value depth _) fun _ =>
          h.bind (fields rest depth _) fun _ => h.pure _

end

end Closed

end Write

/-- It holds where the body of a message is written. -/
theorem Engine.closed_encodeBody (engine : Engine) {P : {α : Type} → Write α → Prop}
    (h : Write.Closed ⟨engine.config, engine.registry⟩ P) (declared : FieldType) (value : Datum) :
    P (engine.encodeBody declared value) :=
  h.resolve_bind declared fun _ hspec => h.bind (h.typeInfo hspec) fun _ =>
    h.bind (h.datum value 0 _) fun _ => h.pure _

end SchemaWire
