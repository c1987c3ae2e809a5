import SchemaWire.Message.Frame
import SchemaWire.Proofs.Schema.Blob
import SchemaWire.Schema.Queue

/-!
# Frames are cut out of streams

A header and a frame are read back from a stream, and nothing behind the schemas is touched.
The schemas of the frame are the queued ones, in the order of the queue.
-/

namespace SchemaWire

open Take (Reads)

namespace Header

/-- The flags of a header fit into a byte. -/
theorem bitmap_lt (header : Header) : header.bitmap < 256 := by
  have hnull := Bool.toNat_lt header.isNull
  have hendian := Bool.toNat_lt header.isLittleEndian
  have hxlang := Bool.toNat_lt header.isXlang
  have hband := Bool.toNat_lt header.isOutOfBand
  rw [bitmap]
  omega

/-- An engine's header passes the check of every engine with the same cross-language
setting. -/
theorem validate_ofConfig {writer reader : Config} (h : writer.xlang = reader.xlang)
    (isNull : Bool) : (ofConfig writer isNull).validate reader = .ok () := by
  simp only [validate, ofConfig, h, bne_self_eq_false, Bool.not_true, Bool.false_eq_true, if_false]

/-- The flags and the language of an engine's header are read back. -/
theorem reads_takeFlags {next : Take UInt8} (hnext : ∀ b, Reads next [b] b)
    {writer reader : Config} (h : writer.xlang = reader.xlang) (isNull : Bool) :
    Reads (takeFlags next reader)
      (UInt8.ofNat (ofConfig writer isNull).bitmap :: (ofConfig writer isNull).language.toList)
      (ofConfig writer isNull) := by
  have hvalid := validate_ofConfig h isNull
  have hbyte := Varint.toNat_ofNat_of_lt (bitmap_lt (ofConfig writer isNull))
  refine (hnext _).bind ?_
  simp only [hbyte, ofBitmap_bitmap]
  cases hx : reader.xlang with
  | true =>
    have hw : writer.xlang = true := h.trans hx
    simp only [ofConfig, hw, if_true, Bool.and_self] at hvalid ⊢
    refine (hnext localLanguage).bind_nil ?_
    refine (Reads.pure _).bind ?_
    rw [hvalid]
    exact .pure _
  | false =>
    have hw : writer.xlang = false := h.trans hx
    simp only [ofConfig, hw, Bool.false_eq_true, if_false] at hvalid ⊢
    refine (Reads.pure _).bind ?_
    rw [hvalid]
    exact .pure _

/-- The magic number is read back. -/
theorem reads_streamedMagic :
    Reads streamedMagic (LittleEndian.encode 2 magicNumber) magicNumber :=
  (Take.reads_streamedByte 0xd4).bind ((Take.reads_streamedByte 0x62).map _)

/-- An engine's header is read back by every engine with the same cross-language setting. -/
theorem reads_takeStreamed {writer reader : Config} (h : writer.xlang = reader.xlang)
    (isNull : Bool) :
    Reads (takeStreamed reader) (ofConfig writer isNull).encode (ofConfig writer isNull) := by
  have hflags := reads_takeFlags Take.reads_streamedByte h isNull
  rw [takeStreamed, takeWith, encode]
  cases hx : reader.xlang with
  | true =>
    have hw : (ofConfig writer isNull).isXlang = true := h.trans hx
    rw [if_pos rfl, if_pos hw]
    refine reads_streamedMagic.bind ?_
    rw [if_neg (not_not_intro rfl)]
    exact hflags
  | false =>
    have hw : (ofConfig writer isNull).isXlang = false := h.trans hx
    rw [if_neg Bool.false_ne_true, hw]
    exact hflags

end Header

/-- The queue holds written schemas: each blob is the blob of one of the given schemas. -/
def SchemaQueue.Holds (queue : SchemaQueue) (schemas : List Schema) : Prop :=
  List.Forall₂ (fun queued schema => schema.encode = .ok queued.blob ∧
    queued.blob.length < 2 ^ 32) queue schemas

namespace Frame

/-- A body of the announced length is cut out. -/
theorem reads_takeBody (body : List UInt8) : Reads (takeBody body.length) body body := by
  intro back
  simp [takeBody]

/-- The body and the schemas of a message are read back behind the announced length. -/
theorem reads_take {config : Config} (hcompatible : config.compatible = true)
    {body : List UInt8} (hbody : body.length < 2 ^ 32) {queue : SchemaQueue}
    {schemas : List Schema} (hqueue : queue.Holds schemas) (hcount : queue.length < 2 ^ 32) :
    Reads (take config) (LittleEndian.encode 4 body.length ++ (body ++ queue.encode))
      ⟨some body.length, body, schemas.map Schema.normalized⟩ := by
  have hlength : body.length % 256 ^ 4 = body.length := Nat.mod_eq_of_lt hbody
  have hoffset := Take.reads_exactly (LittleEndian.encode 4 body.length)
  rw [LittleEndian.length_encode] at hoffset
  have hblobs : List.Forall₂ (Reads Schema.takeStreamed) (queue.map QueuedSchema.blob)
      (schemas.map Schema.normalized) := by
    rw [List.forall₂_map_left_iff, List.forall₂_map_right_iff]
    exact hqueue.imp fun _ _ h => Schema.reads_takeStreamed h.1 h.2
  rw [take, if_pos hcompatible]
  refine hoffset.bind ?_
  simp only [LittleEndian.decode_encode, hlength]
  refine (reads_takeBody body).bind ?_
  rw [SchemaQueue.encode]
  refine (Varint.reads_takeStreamed32 hcount).bind ?_
  have hschemas := Take.reads_times hblobs
  rw [List.length_map, ← hqueue.length_eq, ← List.flatMap_def] at hschemas
  exact hschemas.map _

end Frame

end SchemaWire
