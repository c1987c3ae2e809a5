import SchemaWire.Proofs.Name.Scheme
import SchemaWire.Proofs.Varint
import SchemaWire.Schema.Blob

/-!
# Schema blobs are read back

A blob is read back as the schema that it was written from, up to what a blob does not
hold: a type registered by name has no id in it, a type registered by id no name, and the
type of a field has the flags of the field. The bytes after a blob are left alone, in memory
and in a stream.
-/

namespace SchemaWire

open Take (Reads)

namespace WireType

/-- The number of nested types follows from the kind. -/
theorem takeArity_of_kindOf {id : UInt32} {kind : Kind} (h : kindOf id = .ok kind) :
    takeArity id = pure kind.arity := by
  rw [takeArity, h]
  rfl

/-- A type is made of its parts. -/
theorem mk_parts (t : WireType) : (⟨t.id, t.nullable, t.tracked, t.args⟩ : WireType) = t := by
  cases t
  rfl

mutual

/-- The nested types of a type are read back, given at least as many bytes as they take. -/
theorem reads_of_encodeArgs : (t : WireType) → (bytes : List UInt8) →
    t.encodeArgs = .ok bytes →
    ∃ kind, kindOf t.id = .ok kind ∧ t.args.length = kind.arity ∧
      ∀ budget, bytes.length ≤ budget →
        Reads (takeNested budget t.args.length) bytes t.args
  | ⟨id, nullable, tracked, args⟩, bytes, h => by
    rw [encodeArgs] at h
    obtain ⟨kind, hkind, h⟩ := exists_of_except_bind_ok h
    split at h
    next => cases h
    next harity =>
      exact ⟨kind, hkind, not_ne_iff.mp harity, fun budget hbudget =>
        reads_of_encodeNested args bytes h budget hbudget⟩

/-- Nested types are read back one after the other. -/
theorem reads_of_encodeNested : (types : List WireType) → (bytes : List UInt8) →
    encodeNested types = .ok bytes → ∀ budget, bytes.length ≤ budget →
      Reads (takeNested budget types.length) bytes types
  | [], bytes, h, budget, _ => by
    cases h
    cases budget <;> exact .pure []
  | t :: rest, bytes, h, budget, hbudget => by
    rw [encodeNested] at h
    split at h
    next => cases h
    next hword =>
      obtain ⟨args, hargs, h⟩ := exists_of_except_bind_ok h
      obtain ⟨others, hothers, h⟩ := exists_of_except_bind_ok h
      cases h
      have hpos := Varint.length_encode32_pos t.nestedWord
      rw [List.length_append, List.length_append] at hbudget
      obtain ⟨room, rfl⟩ : ∃ room, budget = room + 1 := ⟨budget - 1, by omega⟩
      obtain ⟨kind, hkind, harity, hread⟩ := reads_of_encodeArgs t args hargs
      have hid : UInt32.ofNat (t.nestedWord / 4) = t.id := by
        have hdiv : t.nestedWord / 4 = t.id.toNat := by
          have hn := Bool.toNat_le t.nullable
          have ht := Bool.toNat_le t.tracked
          unfold nestedWord
          omega
        rw [hdiv, UInt32.ofNat_toNat]
      have hnullable : (t.nestedWord / 2 % 2 == 1) = t.nullable := by
        have ht := Bool.toNat_le t.tracked
        unfold nestedWord
        cases hn : t.nullable <;> simp only [Bool.toNat_true, Bool.toNat_false, beq_iff_eq,
          beq_eq_false_iff_ne] <;> omega
      have htracked : (t.nestedWord % 2 == 1) = t.tracked := by
        unfold nestedWord
        cases ht : t.tracked <;> simp only [Bool.toNat_true, Bool.toNat_false, beq_iff_eq,
          beq_eq_false_iff_ne] <;> omega
      rw [List.length_cons, takeNested, List.append_assoc]
      refine (Varint.reads_take32 (by omega)).bind ?_
      simp only [hid, hnullable, htracked]
      rw [takeArity_of_kindOf hkind, pure_bind, ← harity]
      refine (hread room (by omega)).bind ?_
      simp only [mk_parts]
      exact (reads_of_encodeNested rest others hothers room (by omega)).map (t :: ·)

end

end WireType

/-- A field as a blob holds it: its type has the flags of the field. -/
def SchemaField.normalized (field : SchemaField) : SchemaField :=
  { field with type := ⟨field.type.id, field.nullable, field.tracked, field.type.args⟩ }

/-- A schema as a blob holds it: with the id or with the name under which the type is
registered, and not with both. -/
def Schema.normalized (schema : Schema) : Schema where
  byName := schema.byName
  typeId := if schema.byName then 0 else schema.typeId
  space := if schema.byName then schema.space else ""
  name := if schema.byName then schema.name else ""
  fields := schema.fields.map SchemaField.normalized

namespace Schema

/-- A length is read back from its first bits and its excess. -/
theorem reads_takeLengthWith {number : Take Nat}
    (hnumber : ∀ n, n < 2 ^ 32 → Reads number (Varint.encode32 n) n) (limit : Nat) {n : Nat}
    (h : n < 2 ^ 32) : Reads (takeLengthWith number limit (min n limit)) (excess limit n) n := by
  unfold takeLengthWith excess
  by_cases hlimit : limit ≤ n
  · have hread := (hnumber (n - limit) (by omega)).map (limit + ·)
    rw [Nat.add_sub_cancel' hlimit] at hread
    rw [Nat.min_eq_right hlimit, if_pos rfl, if_pos hlimit]
    exact hread
  · rw [Nat.min_eq_left (Nat.le_of_not_le hlimit), if_neg (by omega), if_neg hlimit]
    exact .pure n

/-- A length in memory is read back from its first bits and its excess. -/
theorem reads_takeLength (limit : Nat) {n : Nat} (h : n < 2 ^ 32) :
    Reads (takeLength limit (min n limit)) (excess limit n) n :=
  reads_takeLengthWith (fun _ => Varint.reads_take32) limit h

/-- The flag of an encoding has two bits. -/
theorem flag_lt (encoding : Name.Encoding) : encoding.flag < 4 := by
  cases encoding <;> decide

/-- A namespace or type name is read back. -/
theorem reads_takeName {scheme : Name.Scheme} {name : String} {bytes : List UInt8}
    (h : encodeName scheme name = .ok bytes) (hsize : bytes.length < 2 ^ 32) :
    Reads (takeName scheme) bytes name := by
  obtain ⟨⟨encoding, content⟩, hencode, heq⟩ := exists_of_except_bind_ok h
  cases heq
  have hflag := flag_lt encoding
  have hmark := Varint.toNat_ofNat_of_lt
    (by unfold nameLimit; omega : 4 * min content.length nameLimit + encoding.flag < 256)
  rw [List.length_append, List.length_cons] at hsize
  rw [List.cons_append]
  refine .byte_bind ?_
  simp only [hmark]
  rw [Nat.mul_add_mod, Nat.mod_eq_of_lt hflag, Nat.mul_add_div (by decide),
    Nat.div_eq_of_lt hflag, Nat.add_zero]
  refine .ofExcept_bind (Name.Encoding.ofFlag_flag encoding) ?_
  refine (reads_takeLength nameLimit (by omega)).bind ?_
  exact (Take.reads_bytes content).bind_nil (.ofExcept (Name.Scheme.decode_of_encode hencode))

/-- The four parts of the first byte of a field do not overlap. -/
theorem fieldMark_spec (encoding : Name.Encoding) (size : Nat) (nullable tracked : Bool)
    {mark : UInt8} (h : mark = UInt8.ofNat (64 * encoding.flag + 4 * min size fieldNameLimit
      + 2 * nullable.toNat + tracked.toNat)) :
    mark.toNat / 64 = encoding.flag ∧ mark.toNat / 4 % 16 = min size fieldNameLimit ∧
      (mark.toNat / 2 % 2 == 1) = nullable ∧ (mark.toNat % 2 == 1) = tracked := by
  have hflag := flag_lt encoding
  have hlimit : min size fieldNameLimit < 16 := by
    unfold fieldNameLimit
    omega
  have hn := Bool.toNat_le nullable
  have ht := Bool.toNat_le tracked
  have hmark := Varint.toNat_ofNat_of_lt (by omega :
    64 * encoding.flag + 4 * min size fieldNameLimit + 2 * nullable.toNat + tracked.toNat < 256)
  rw [h, hmark]
  refine ⟨by omega, by omega, ?_, ?_⟩
  · cases nullable <;> simp only [Bool.toNat_true, Bool.toNat_false, beq_iff_eq,
      beq_eq_false_iff_ne] <;> omega
  · cases tracked <;> simp only [Bool.toNat_true, Bool.toNat_false, beq_iff_eq,
      beq_eq_false_iff_ne] <;> omega

/-- A field is read back. -/
theorem reads_takeField {field : SchemaField} {bytes : List UInt8}
    (h : encodeField field = .ok bytes) (hsize : bytes.length < 2 ^ 32) :
    Reads takeField bytes field.normalized := by
  obtain ⟨⟨encoding, content⟩, hencode, h⟩ := exists_of_except_bind_ok h
  simp only at h
  split at h
  next => cases h
  next hcontent =>
    obtain ⟨args, hargs, heq⟩ := exists_of_except_bind_ok h
    cases heq
    obtain ⟨kind, hkind, harity, hread⟩ := WireType.reads_of_encodeArgs field.type args hargs
    have hpos : 0 < content.length := by
      rw [List.isEmpty_iff] at hcontent
      exact List.length_pos_iff.mpr hcontent
    simp only [List.length_append, List.length_cons] at hsize
    obtain ⟨hencoding, hlength, hnullable, htracked⟩ :=
      fieldMark_spec encoding (content.length - 1) field.nullable field.tracked rfl
    simp only [List.cons_append, List.append_assoc]
    refine .byte_bind ?_
    simp only [hencoding, hlength, hnullable, htracked]
    refine .ofExcept_bind (Name.Encoding.ofFlag_flag encoding) ?_
    refine (reads_takeLength fieldNameLimit (by omega)).bind ?_
    refine (Varint.reads_take32 field.type.id.toNat_lt).bind ?_
    rw [UInt32.ofNat_toNat]
    refine Reads.bind (a := field.type.args) ?_ ?_
    · intro back
      rw [WireType.takeArgs, WireType.takeArity_of_kindOf hkind, pure_bind, ← harity]
      exact hread _ (by rw [List.length_append]; omega) back
    · rw [Nat.sub_add_cancel hpos]
      exact (Take.reads_bytes content).bind_nil
        ((Reads.ofExcept (Name.Scheme.decode_of_encode hencode)).map _)

/-- Fields are read back one after the other, and each takes at least one byte. -/
theorem reads_times_takeField {fields : List SchemaField} {bytes : List UInt8}
    (h : encodeFields fields = .ok bytes) (hsize : bytes.length < 2 ^ 32) :
    Reads (Take.times takeField fields.length) bytes (fields.map SchemaField.normalized) ∧
      fields.length ≤ bytes.length := by
  induction fields generalizing bytes with
  | nil =>
    cases h
    exact ⟨.pure [], Nat.le_refl 0⟩
  | cons field rest ih =>
    obtain ⟨first, hfirst, h⟩ := exists_of_except_bind_ok h
    obtain ⟨others, hothers, heq⟩ := exists_of_except_bind_ok h
    cases heq
    rw [List.length_append] at hsize
    obtain ⟨hread, hlength⟩ := ih hothers (by omega)
    have hfield := reads_takeField hfirst (by omega)
    have hpos : 0 < first.length := by
      rcases Nat.eq_zero_or_pos first.length with hzero | hpos
      · -- an empty field could be read from nothing, which its first byte forbids
        have hnil := hfield []
        rw [List.length_eq_zero_iff.mp hzero] at hnil
        cases hnil
      · exact hpos
    refine ⟨hfield.bind (hread.map (field.normalized :: ·)), ?_⟩
    rw [List.length_append, List.length_cons]
    omega

/-- The body of a blob is read back. -/
theorem reads_takeBody {schema : Schema} {body : List UInt8}
    (h : schema.encodeBody = .ok body) (hsize : body.length < 2 ^ 32) :
    Reads takeBody body schema.normalized := by
  obtain ⟨identity, hidentity, h⟩ := exists_of_except_bind_ok h
  obtain ⟨fields, hfields, heq⟩ := exists_of_except_bind_ok h
  cases heq
  simp only [List.length_append, List.length_cons] at hsize
  obtain ⟨hread, hcount⟩ := reads_times_takeField hfields (by omega)
  have hbyName := Bool.toNat_le schema.byName
  have hmark := Varint.toNat_ofNat_of_lt (by unfold countLimit; omega :
    min schema.fields.length countLimit + 32 * schema.byName.toNat < 256)
  have hlength : (min schema.fields.length countLimit + 32 * schema.byName.toNat) % 32
      = min schema.fields.length countLimit := by
    unfold countLimit
    omega
  have hflag : (min schema.fields.length countLimit + 32 * schema.byName.toNat) / 32 % 2
      = schema.byName.toNat := by
    unfold countLimit
    omega
  simp only [List.cons_append, List.append_assoc]
  refine .byte_bind ?_
  simp only [hmark, hlength, hflag]
  refine (reads_takeLength countLimit (by omega)).bind ?_
  unfold normalized
  cases hname : schema.byName with
  | true =>
    rw [encodeIdentity, hname, if_pos rfl] at hidentity
    obtain ⟨space, hspace, hidentity⟩ := exists_of_except_bind_ok hidentity
    obtain ⟨name, htype, heq⟩ := exists_of_except_bind_ok hidentity
    cases heq
    rw [List.length_append] at hsize
    rw [if_pos (by rfl), List.append_assoc]
    exact (reads_takeName hspace (by omega)).bind
      ((reads_takeName htype (by omega)).bind (hread.map _))
  | false =>
    rw [encodeIdentity, hname, if_neg (by decide)] at hidentity
    cases hidentity
    rw [if_neg (by decide)]
    refine (Varint.reads_take32 schema.typeId.toNat_lt).bind ?_
    rw [UInt32.ofNat_toNat]
    exact hread.map _

/-- The low fourteen bits of a fingerprint are empty. -/
theorem fingerprint_mod (body : List UInt8) : (fingerprint body).toNat % 2 ^ 14 = 0 := by
  have hshift (x : UInt64) : (x <<< 14).toNat % 2 ^ 14 = 0 := by
    have heq : (x <<< 14).toNat = x.toNat * 2 ^ 14 % 2 ^ 64 := by
      rw [UInt64.toNat_shiftLeft, Nat.shiftLeft_eq]
      rfl
    omega
  have hword := hshift (digest body metaSeed).h1
  unfold fingerprint signedAbs
  split
  · exact hword
  · rw [UInt64.toNat_sub, UInt64.toNat_zero]
    omega

/-- The three parts of the word before a body do not overlap. -/
theorem headerWord_spec (hasFields : Bool) (body : List UInt8) :
    headerWord hasFields body < 256 ^ 8 ∧
      headerWord hasFields body % 4096 = min body.length sizeLimit ∧
      headerWord hasFields body / 2 ^ 14 = (fingerprint body).toNat / 2 ^ 14 := by
  have hlow := fingerprint_mod body
  have hword := (fingerprint body).toNat_lt
  have hflag := Bool.toNat_le hasFields
  unfold headerWord sizeLimit
  refine ⟨?_, ?_, ?_⟩ <;> omega

/-- What a blob is made of. -/
theorem exists_body_of_encode {schema : Schema} {blob : List UInt8}
    (h : schema.encode = .ok blob) :
    ∃ body, schema.encodeBody = .ok body ∧
      blob = LittleEndian.encode 8 (headerWord (!schema.fields.isEmpty) body)
        ++ (excess sizeLimit body.length ++ body) := by
  obtain ⟨body, hbody, heq⟩ := exists_of_except_bind_ok h
  cases heq
  exact ⟨body, hbody, List.append_assoc ..⟩

/-- A blob in memory is read back if the length of its body has 32 bits. -/
theorem reads_take_of_encodeBody {schema : Schema} {body : List UInt8}
    (hbody : schema.encodeBody = .ok body) (hsize : body.length < 2 ^ 32) :
    Reads take (LittleEndian.encode 8 (headerWord (!schema.fields.isEmpty) body)
      ++ (excess sizeLimit body.length ++ body)) schema.normalized := by
  obtain ⟨hword, hlow, hhigh⟩ := headerWord_spec (!schema.fields.isEmpty) body
  have hschema : ofBody body = .ok schema.normalized := by
    have hread := reads_takeBody hbody hsize []
    rw [List.append_nil] at hread
    rw [ofBody, hread]
    rfl
  refine (Take.reads_natural hword).bind ?_
  rw [hlow]
  refine (reads_takeLength sizeLimit hsize).bind ?_
  refine (Take.reads_bytes body).bind_nil ?_
  simp only [hhigh, ne_eq, not_true_eq_false, if_false]
  exact .ofExcept hschema

/-- A blob in memory is read back. -/
theorem reads_take {schema : Schema} {blob : List UInt8} (h : schema.encode = .ok blob)
    (hsize : blob.length < 2 ^ 32) : Reads take blob schema.normalized := by
  obtain ⟨body, hbody, rfl⟩ := exists_body_of_encode h
  simp only [List.length_append] at hsize
  exact reads_take_of_encodeBody hbody (by omega)

/-- A blob in a stream is read back, and nothing behind it is touched. -/
theorem reads_takeStreamed {schema : Schema} {blob : List UInt8} (h : schema.encode = .ok blob)
    (hsize : blob.length < 2 ^ 32) : Reads takeStreamed blob schema.normalized := by
  have hmemory := reads_take h hsize []
  obtain ⟨body, hbody, rfl⟩ := exists_body_of_encode h
  obtain ⟨hword, hlow, -⟩ := headerWord_spec (!schema.fields.isEmpty) body
  simp only [List.length_append] at hsize
  have hcontinued : (if min body.length sizeLimit = sizeLimit
      then Varint.encode32 (body.length - min body.length sizeLimit) else [])
        = excess sizeLimit body.length := by
    unfold excess
    by_cases hlimit : sizeLimit ≤ body.length
    · rw [Nat.min_eq_right hlimit, if_pos rfl, if_pos hlimit]
    · rw [if_neg (by omega), if_neg hlimit]
  have hexact := Take.reads_exactly
    (LittleEndian.encode 8 (headerWord (!schema.fields.isEmpty) body))
  rw [LittleEndian.length_encode] at hexact
  refine hexact.bind ?_
  simp only [LittleEndian.decode_encode, Nat.mod_eq_of_lt hword, hlow]
  refine (reads_takeLengthWith (fun _ => Varint.reads_takeStreamed32) sizeLimit
    (by omega)).bind ?_
  refine (Take.reads_exactly body).bind_nil ?_
  rw [List.append_nil] at hmemory
  simp only [hcontinued, List.append_assoc, hmemory]
  exact .pure _

end Schema

end SchemaWire
