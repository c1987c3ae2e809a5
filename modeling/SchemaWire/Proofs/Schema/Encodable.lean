import SchemaWire.Proofs.Schema.Blob

/-!
# Which schemas can be written

A schema can be written exactly if its fields have names, if every type in it has a kind and as
many nested types as the kind asks for, and if the ids of the nested types leave room for two
flags. Such a schema is read back from its blob, whatever stands behind it.
-/

namespace SchemaWire

section Sequences

variable {ε α β γ : Type}

/-- A sequence of computations without state succeeds if its first part does and the second part
succeeds on the result. -/
theorem exists_bind_ok_iff {x : Except ε α} {f : α → Except ε β} :
    (∃ b, (x >>= f) = .ok b) ↔ ∃ a, x = .ok a ∧ ∃ b, f a = .ok b := by
  constructor
  · rintro ⟨b, hb⟩
    obtain ⟨a, ha, hf⟩ := exists_of_except_bind_ok hb
    exact ⟨a, ha, b, hf⟩
  · rintro ⟨a, ha, b, hf⟩
    exact ⟨b, by rw [ha]; exact hf⟩

/-- Two computations that do not depend on each other succeed together if each of them does. -/
theorem exists_both_ok_iff {x : Except ε α} {y : Except ε β} (f : α → β → γ) :
    (∃ c, (do
      let a ← x
      let b ← y
      return f a b) = .ok c) ↔ (∃ a, x = .ok a) ∧ ∃ b, y = .ok b := by
  rw [exists_bind_ok_iff, exists_and_right.symm]
  refine exists_congr fun a => and_congr_right fun _ => ?_
  rw [exists_bind_ok_iff]
  exact exists_congr fun b => and_iff_left ⟨f a b, rfl⟩

/-- A check in front of a computation without state has to pass. -/
theorem exists_check_ok_iff {wrong : Prop} [Decidable wrong] {e : ε} {x : Except ε β} :
    (∃ b, (do
      if wrong then throw e
      x) = .ok b) ↔ ¬wrong ∧ ∃ b, x = .ok b := by
  by_cases h : wrong
  · simp only [h, if_true, not_true, false_and, iff_false]
    exact fun ⟨b, hb⟩ => nomatch hb
  · simp only [h, if_false, not_false_eq_true, true_and]

end Sequences

namespace Name.Scheme

/-- Only the empty name is written without any bytes. -/
theorem isEmpty_of_encode {scheme : Scheme} {name : String} {encoding : Encoding}
    {bytes : List UInt8} (h : scheme.encode name = .ok (encoding, bytes)) :
    bytes.isEmpty = true ↔ name = "" := by
  rw [List.isEmpty_iff, ← List.length_eq_zero_iff]
  constructor
  · intro hlength
    rw [size_of_encode h] at hlength
    by_contra hname
    exact (Encoder.size_pos hname (scheme.encoderOf encoding)).ne' hlength
  · rintro rfl
    exact Nat.le_zero.mp (length_of_encode h)

end Name.Scheme

namespace WireType

/-- The id of the type has a kind, and the type has as many nested types as the kind asks for. -/
def IsComplete (t : WireType) : Prop :=
  (Kind.ofTypeId? t.id).map Kind.arity = some t.args.length

instance (t : WireType) : Decidable t.IsComplete :=
  inferInstanceAs (Decidable (_ = _))

/-- A complete type has a kind, which tells the number of its nested types. -/
theorem isComplete_iff {t : WireType} :
    t.IsComplete ↔ ∃ kind, kindOf t.id = .ok kind ∧ t.args.length = kind.arity := by
  rw [IsComplete, kindOf]
  cases Kind.ofTypeId? t.id with
  | none => simp
  | some kind => simp [eq_comm]

/-- The id of a nested type leaves room for two flags. -/
theorem nestedWord_lt_iff {t : WireType} : t.nestedWord < 2 ^ 32 ↔ t.id.toNat < 2 ^ 30 := by
  have hnullable := Bool.toNat_le t.nullable
  have htracked := Bool.toNat_le t.tracked
  unfold nestedWord
  omega

/-- The types in a type are the type and those in its nested types. -/
theorem within_eq (t : WireType) : t.within = t :: withinArgs t.args := by
  cases t
  rfl

mutual

/-- The nested types of a type can be written if it is complete and so are they, with ids that
leave room for the flags. -/
theorem exists_encodeArgs_iff : (t : WireType) →
    ((∃ bytes, t.encodeArgs = .ok bytes) ↔
      t.IsComplete ∧ ∀ node ∈ withinArgs t.args, node.IsComplete ∧ node.id.toNat < 2 ^ 30)
  | ⟨id, nullable, tracked, args⟩ => by
    have hnested := exists_encodeNested_iff args
    rw [isComplete_iff, encodeArgs, exists_bind_ok_iff]
    simp only [exists_check_ok_iff, not_ne_iff, hnested]
    grind

/-- Nested types can be written if all types in them are complete, with ids that leave room for
the flags. -/
theorem exists_encodeNested_iff : (types : List WireType) →
    ((∃ bytes, encodeNested types = .ok bytes) ↔
      ∀ node ∈ withinArgs types, node.IsComplete ∧ node.id.toNat < 2 ^ 30)
  | [] => by simp [encodeNested, withinArgs, pure, Except.pure]
  | t :: rest => by
    have hfirst := exists_encodeArgs_iff t
    have hothers := exists_encodeNested_iff rest
    rw [encodeNested, exists_check_ok_iff, not_le, nestedWord_lt_iff, exists_both_ok_iff, hfirst,
      hothers, withinArgs, within_eq]
    simp only [List.cons_append, List.forall_mem_cons, List.forall_mem_append]
    tauto

end

end WireType

/-- What a schema must be like to be written. -/
structure Schema.Encodable (schema : Schema) : Prop where
  /-- The fields have names. -/
  names : ∀ field ∈ schema.fields, field.name ≠ ""
  /-- The types in the fields have kinds, and as many nested types as these ask for. -/
  types : ∀ field ∈ schema.fields, ∀ node ∈ field.type.within, node.IsComplete
  /-- The ids of nested types leave room for two flags. -/
  nested : ∀ field ∈ schema.fields, ∀ node ∈ WireType.withinArgs field.type.args,
    node.id.toNat < 2 ^ 30

namespace Schema

instance (schema : Schema) : Decidable schema.Encodable :=
  decidable_of_iff
    ((∀ field ∈ schema.fields, field.name ≠ "") ∧
      (∀ field ∈ schema.fields, ∀ node ∈ field.type.within, node.IsComplete) ∧
      ∀ field ∈ schema.fields, ∀ node ∈ WireType.withinArgs field.type.args,
        node.id.toNat < 2 ^ 30)
    ⟨fun h => ⟨h.1, h.2.1, h.2.2⟩, fun h => ⟨h.names, h.types, h.nested⟩⟩

/-- A namespace or type name can always be written. -/
theorem exists_encodeName (scheme : Name.Scheme) (name : String) :
    ∃ bytes, encodeName scheme name = .ok bytes := by
  obtain ⟨bytes, hbytes⟩ := scheme.exists_encode name
  exact exists_bind_ok_iff.mpr ⟨_, hbytes, _, rfl⟩

/-- How a type is registered can always be written. -/
theorem exists_encodeIdentity (schema : Schema) : ∃ bytes, schema.encodeIdentity = .ok bytes := by
  unfold encodeIdentity
  split
  · exact (exists_both_ok_iff _).mpr
      ⟨exists_encodeName .space schema.space, exists_encodeName .type schema.name⟩
  · exact ⟨_, rfl⟩

/-- A field can be written if it has a name and its type can be written. -/
theorem exists_encodeField_iff {field : SchemaField} :
    (∃ bytes, encodeField field = .ok bytes) ↔
      field.name ≠ "" ∧ ∃ bytes, field.type.encodeArgs = .ok bytes := by
  obtain ⟨content, hcontent⟩ := Name.Scheme.field.exists_encode field.name
  have hempty := Name.Scheme.isEmpty_of_encode hcontent
  have hname {f : Name.Encoding × List UInt8 → Except Error (List UInt8)} :
      Name.Scheme.field.encode field.name >>= f = f (Name.Scheme.field.select field.name, content) := by
    rw [hcontent]
    rfl
  rw [encodeField, hname]
  simp only [exists_check_ok_iff, hempty, ne_eq]
  refine and_congr_right fun _ => ?_
  rw [exists_bind_ok_iff]
  exact exists_congr fun args => and_iff_left ⟨_, rfl⟩

/-- Fields can be written if each of them can. -/
theorem exists_encodeFields_iff {fields : List SchemaField} :
    (∃ bytes, encodeFields fields = .ok bytes) ↔
      ∀ field ∈ fields, ∃ bytes, encodeField field = .ok bytes := by
  induction fields with
  | nil => simp [encodeFields, pure, Except.pure]
  | cons field rest ih => rw [encodeFields, exists_both_ok_iff, ih, List.forall_mem_cons]

/-- A schema can be written if its fields can. -/
theorem exists_encode_iff {schema : Schema} :
    (∃ blob, schema.encode = .ok blob) ↔ ∃ bytes, encodeFields schema.fields = .ok bytes := by
  have hbody : (∃ body, schema.encodeBody = .ok body) ↔
      ∃ bytes, encodeFields schema.fields = .ok bytes :=
    (exists_both_ok_iff _).trans (and_iff_right schema.exists_encodeIdentity)
  rw [← hbody, encode, exists_bind_ok_iff]
  exact exists_congr fun body => and_iff_left ⟨_, rfl⟩

/-- A schema can be written exactly if it is encodable. -/
theorem exists_encode_iff_encodable {schema : Schema} :
    (∃ blob, schema.encode = .ok blob) ↔ schema.Encodable := by
  rw [exists_encode_iff, exists_encodeFields_iff]
  simp only [exists_encodeField_iff, WireType.exists_encodeArgs_iff]
  constructor
  · intro h
    refine ⟨fun field hfield => (h field hfield).1, fun field hfield => ?_, fun field hfield => ?_⟩
    · rw [WireType.within_eq, List.forall_mem_cons]
      exact ⟨(h field hfield).2.1, fun node hnode => ((h field hfield).2.2 node hnode).1⟩
    · exact fun node hnode => ((h field hfield).2.2 node hnode).2
  · intro h field hfield
    have htypes := h.types field hfield
    rw [WireType.within_eq, List.forall_mem_cons] at htypes
    exact ⟨h.names field hfield, htypes.1, fun node hnode =>
      ⟨htypes.2 node hnode, h.nested field hfield node hnode⟩⟩

end Schema

/-- A schema can be written exactly if its fields have names, if every type in it has a kind and as
many nested types as the kind asks for, and if the ids of nested types leave room for two flags. If
the length of its body has 32 bits, the blob is read back as the schema, without the id of a type
that is registered by name, without the name of a type that is registered by id, and with the flags
of each field in the place of those of its type. Nothing behind the blob is touched. -/
theorem blob_round_trip (schema : Schema) :
    ((∃ blob, schema.encode = .ok blob) ↔ schema.Encodable) ∧
      ∀ body blob, schema.encodeBody = .ok body → body.length < 2 ^ 32 →
        schema.encode = .ok blob → ∀ rest, Schema.take (blob ++ rest) = .ok schema.normalized rest := by
  refine ⟨Schema.exists_encode_iff_encodable, fun body blob hbody hsize hblob rest => ?_⟩
  obtain ⟨own, hown, rfl⟩ := Schema.exists_body_of_encode hblob
  cases hbody.symm.trans hown
  exact Schema.reads_take_of_encodeBody hbody hsize rest

namespace Sample

/-- A schema with a name in capitals, a long field name, an optional map of tracked lists and a
flag of a type that differs from the flag of its field. -/
def ledger : Schema where
  byName := true
  typeId := 7
  space := "Books.of_2024"
  name := "LEDGER$"
  fields :=
    [⟨"entries_by_account_number", true, false,
      ⟨23, false, true, [⟨12, true, false, []⟩, ⟨21, false, true, [⟨784, true, false, []⟩]⟩]⟩⟩,
    ⟨"é", false, true, ⟨6, true, false, []⟩⟩]

/-- The same schema as its blob holds it. -/
def balanced : Schema where
  byName := true
  typeId := 0
  space := "Books.of_2024"
  name := "LEDGER$"
  fields :=
    [⟨"entries_by_account_number", true, false,
      ⟨23, true, false, [⟨12, true, false, []⟩, ⟨21, false, true, [⟨784, true, false, []⟩]⟩]⟩⟩,
    ⟨"é", false, true, ⟨6, false, true, []⟩⟩]

end Sample

/-- A schema of which much is dropped is written, and read back as what is left of it. -/
theorem blob_round_trip_ledger :
    Sample.ledger.Encodable ∧
      ∃ body blob, Sample.ledger.encodeBody = .ok body ∧ body.length < 2 ^ 32 ∧
        Sample.ledger.encode = .ok blob ∧ Schema.take (blob ++ [1, 2]) = .ok Sample.balanced [1, 2] := by
  have hencodable : Sample.ledger.Encodable := by decide +kernel
  obtain ⟨blob, hblob⟩ := (blob_round_trip Sample.ledger).1.mpr hencodable
  obtain ⟨body, hbody, -⟩ := Schema.exists_body_of_encode hblob
  have hsize : ∀ body ∈ Sample.ledger.encodeBody.toOption, body.length < 2 ^ 32 := by
    decide +kernel
  have hlength := hsize body (by rw [hbody]; rfl)
  have hread := (blob_round_trip Sample.ledger).2 body blob hbody hlength hblob [1, 2]
  exact ⟨hencodable, body, blob, hbody, hlength, hblob, hread⟩

end SchemaWire
