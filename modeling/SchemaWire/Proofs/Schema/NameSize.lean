import SchemaWire.Proofs.Schema.Encodable

/-!
# The room that names take

A name never takes more bytes than it has in UTF-8. Written plainly it takes just these, and packed
it takes as many as its bits fill, the flag included. A name that is not empty takes at least one
byte, so that the length of a field's name can be written less one. No field is refused for its
name unless the name is empty.
-/

namespace SchemaWire

namespace Schema

/-- The length of the name, less one, is read from the first byte of a field and the bytes behind
it, if it has 32 bits. -/
theorem takeLength_of_encodeField {field : SchemaField} {encoding : Name.Encoding}
    {content written : List UInt8}
    (hname : Name.Scheme.field.encode field.name = .ok (encoding, content))
    (hsize : content.length ≤ 2 ^ 32) (h : encodeField field = .ok written) :
    ∃ mark behind rest, written = mark :: behind ∧
      takeLength fieldNameLimit (mark.toNat / 4 % 16) behind = .ok (content.length - 1) rest := by
  obtain ⟨-, hlength, -⟩ :=
    fieldMark_spec encoding (content.length - 1) field.nullable field.tracked rfl
  have hread := reads_takeLength fieldNameLimit (by omega : content.length - 1 < 2 ^ 32)
  obtain ⟨found, hfound, h⟩ := exists_of_except_bind_ok h
  cases hname.symm.trans hfound
  simp only at h
  split at h
  next => cases h
  next =>
    obtain ⟨args, -, heq⟩ := exists_of_except_bind_ok h
    cases heq
    simp only [List.cons_append, List.append_assoc]
    refine ⟨_, _, Varint.encode32 field.type.id.toNat ++ (args ++ content), rfl, ?_⟩
    rw [hlength]
    exact hread _

end Schema

/-- Packing never expands a name. In plain UTF-8 it takes the bytes that it has, and packed it takes
the bytes that the bits of its codes and the flag fill. A name that is not empty takes at least one
byte. So a field with a name can be written whenever its type can, and the length of the name, if it
has 32 bits, is read back as the length less one that stands in the field. -/
theorem packing_never_expands :
    (∀ (scheme : Name.Scheme) (name : String), ∃ encoding bytes,
      scheme.encode name = .ok (encoding, bytes) ∧
        bytes.length = (scheme.encoderOf encoding).size name ∧
        bytes.length ≤ name.utf8ByteSize ∧ (name ≠ "" → 0 < bytes.length)) ∧
    ∀ field : SchemaField, field.name ≠ "" → ∃ encoding content,
      Name.Scheme.field.encode field.name = .ok (encoding, content) ∧ 0 < content.length ∧
        ((∃ written, Schema.encodeField field = .ok written) ↔
          ∃ args, field.type.encodeArgs = .ok args) ∧
        ∀ written, Schema.encodeField field = .ok written → content.length ≤ 2 ^ 32 →
          ∃ mark behind rest, written = mark :: behind ∧
            Schema.takeLength Schema.fieldNameLimit (mark.toNat / 4 % 16) behind =
              .ok (content.length - 1) rest := by
  refine ⟨fun scheme name => ?_, fun field hname => ?_⟩
  · obtain ⟨bytes, hencode⟩ := scheme.exists_encode name
    have hsize := Name.Scheme.size_of_encode hencode
    exact ⟨scheme.select name, bytes, hencode, hsize, Name.Scheme.length_of_encode hencode,
      fun hname => hsize ▸ Name.Encoder.size_pos hname _⟩
  · obtain ⟨content, hencode⟩ := Name.Scheme.field.exists_encode field.name
    have hsize := Name.Scheme.size_of_encode hencode
    refine ⟨Name.Scheme.field.select field.name, content, hencode,
      hsize ▸ Name.Encoder.size_pos hname _, ?_, fun written h hlength => ?_⟩
    · rw [Schema.exists_encodeField_iff]
      exact and_iff_right hname
    · exact Schema.takeLength_of_encodeField hencode hlength h

namespace Sample

/-- A field with a name of twenty-two letters, three of them capitals, which take sixteen bytes. -/
def entries : SchemaField :=
  ⟨"entriesByAccountNumber", true, false, ⟨21, true, false, [⟨12, true, false, []⟩]⟩⟩

end Sample

/-- The length less one of a packed name of sixteen bytes is the first one that is continued behind
the first byte of its field. -/
theorem packing_never_expands_entries :
    Sample.entries.name ≠ "" ∧ ∃ content mark behind rest,
      Name.Scheme.field.encode Sample.entries.name = .ok (.allToLower, content) ∧
        content.length = 16 ∧ Schema.encodeField Sample.entries = .ok (mark :: behind) ∧
        Schema.takeLength Schema.fieldNameLimit (mark.toNat / 4 % 16) behind = .ok 15 rest := by
  have hname : Sample.entries.name ≠ "" := by decide
  have hargs : Sample.entries.type.encodeArgs = .ok [50] := by decide +kernel
  have hpacked : Name.Scheme.field.encode Sample.entries.name =
      .ok (.allToLower, [17, 179, 138, 9, 46, 135, 29, 0, 132, 234, 54, 125, 109, 24, 18, 68]) := by
    decide +kernel
  obtain ⟨encoding, content, hencode, -, hfield, hlength⟩ :=
    packing_never_expands.2 Sample.entries hname
  obtain ⟨written, hwritten⟩ := hfield.mpr ⟨[50], hargs⟩
  cases hpacked.symm.trans hencode
  obtain ⟨mark, behind, rest, rfl, hread⟩ := hlength written hwritten (by decide)
  exact ⟨hname, _, mark, behind, rest, hpacked, rfl, hwritten, hread⟩

end SchemaWire
