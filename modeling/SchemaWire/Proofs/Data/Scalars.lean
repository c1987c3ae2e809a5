import SchemaWire.Data.Read
import SchemaWire.Proofs.Data.Plain

/-!
# Scalars are read back and passed over

The data of a value are carried over when the one reader gives the value and the other one
passes over exactly the same bytes. Scalars of a fixed width, texts and bytes are carried over
by the readers of their kinds.
-/

namespace SchemaWire

namespace Peers

variable {peers : Peers}

/-- What is written and read plainly is written and read within a message. -/
theorem Mirrors.of_plain {α : Type} {writer : Write (List UInt8)} {reader : Take α} {a : α}
    (h : Plain.pairing.Rel writer reader a) (hkeeps : Write.Keeps peers.write.registry writer) :
    peers.Mirrors writer (Read.take reader) a := by
  refine ⟨hkeeps, fun before bytes after _ _ hok => ?_⟩
  obtain ⟨rfl, hread⟩ := h before bytes after hok
  exact .take hread

/-- One reader gives the value that the writer writes, and another one passes over it. -/
structure Carries (peers : Peers) (writer : Write (List UInt8)) (reader : Read Datum)
    (skipper : Read Unit) (v : Datum) : Prop where
  /-- The value is read. -/
  read : peers.Mirrors writer reader v
  /-- The value is passed over. -/
  skip : peers.Mirrors writer skipper ()

/-- What depends on tables from which the writer succeeds may be known to show that a value is
carried over. -/
theorem Carries.of_ok {writer : Write (List UInt8)} {reader : Read Datum} {skipper : Read Unit}
    {v : Datum} (hkeeps : Write.Keeps peers.write.registry writer)
    (h : ∀ before bytes after, before.Sound peers.write.registry →
      writer before = .ok bytes after → peers.Carries writer reader skipper v) :
    peers.Carries writer reader skipper v where
  read := ⟨hkeeps, fun before bytes after hsound hqueue hok =>
    (h before bytes after hsound hok).read.reads _ _ _ hsound hqueue hok⟩
  skip := ⟨hkeeps, fun before bytes after hsound hqueue hok =>
    (h before bytes after hsound hok).skip.reads _ _ _ hsound hqueue hok⟩

/-- Bytes of a fixed number are read by an exact reader and passed over by their number. -/
theorem carries_fixed {α : Type} {body : Take α} {bytes : List UInt8} {a : α} {n : Nat}
    {make : α → Except Error Datum} {v : Datum} (hbody : body.Reads bytes a)
    (hlength : bytes.length = n) (hmake : make a = .ok v) :
    peers.Carries (pure bytes)
      (do
        let found ← Read.take body
        MonadExcept.ofExcept (make found))
      (Read.take (Take.skip n)) v := by
  subst hlength
  constructor
  · exact .pure fun _ => (Read.Reads.take hbody).bind_nil (.ofExcept hmake)
  · exact .take (Take.reads_skip bytes)

section Kinds

variable (peers) (env : ReadEnv) (content : WireType → Shape → Read Datum) (skip : WireType → Read Unit)
  (type : WireType)

/-- A truth value is carried over. -/
theorem carries_bool (b : Bool) :
    peers.Carries (pure [UInt8.ofNat b.toNat]) (Read.known env content .boolean type .bool)
      (Read.skipKnown skip .boolean type) (.bool b) := by
  have hmake : Shape.bool.ofBool (UInt8.ofNat b.toNat != 0) = .ok (.bool b) := by
    cases b <;> rfl
  exact carries_fixed (Take.reads_byte _) rfl hmake

/-- A number of an integer type is carried over. -/
theorem carries_int {t : IntType} {v : Int} (h : t.holds v = true) :
    peers.Carries (pure (LittleEndian.encodeSigned t.bytes v))
      (Read.known env content t.kind type (.int t)) (Read.skipKnown skip t.kind type)
      (.int t v) := by
  have hbody := reads_integerBody h
  have hlength : (LittleEndian.encodeSigned t.bytes v).length = t.bytes :=
    LittleEndian.length_encode _ _
  have hmake (other : IntType) : (Shape.int t).ofInt other v = .ok (.int t v) := if_pos h
  cases t <;> exact carries_fixed hbody hlength (hmake _)

/-- A floating-point number of 32 bits is carried over. -/
theorem carries_float32 (bits : UInt32) :
    peers.Carries (pure (LittleEndian.encode 4 bits.toNat))
      (Read.known env content .float32 type .float32) (Read.skipKnown skip .float32 type)
      (.float32 bits) := by
  have hlt : bits.toNat < 256 ^ 4 := bits.toNat_lt
  have hmake : Shape.float32.ofFloat32 (UInt32.ofNat bits.toNat) = .ok (.float32 bits) := by
    rw [UInt32.ofNat_toNat]
    rfl
  exact carries_fixed (Take.reads_natural hlt) (LittleEndian.length_encode _ _) hmake

/-- A floating-point number of 64 bits is carried over. -/
theorem carries_float64 (bits : UInt64) :
    peers.Carries (pure (LittleEndian.encode 8 bits.toNat))
      (Read.known env content .float64 type .float64) (Read.skipKnown skip .float64 type)
      (.float64 bits) := by
  have hlt : bits.toNat < 256 ^ 8 := bits.toNat_lt
  have hmake : Shape.float64.ofFloat64 (UInt64.ofNat bits.toNat) = .ok (.float64 bits) := by
    rw [UInt64.ofNat_toNat]
    rfl
  exact carries_fixed (Take.reads_natural hlt) (LittleEndian.length_encode _ _) hmake

/-- Bytes behind their number are carried over. -/
theorem carries_bytes (shape : Shape) (bytes : List UInt8)
    (hmake : shape.ofBytes bytes = .ok (.bytes bytes)) :
    peers.Carries (Write.counted bytes) (Read.known env content .binary type shape)
      (Read.skipKnown skip .binary type) (.bytes bytes) := by
  have hkeeps := Write.keeps_counted peers.write.registry bytes
  constructor
  · exact (Mirrors.of_plain (Plain.counted bytes) hkeeps).bind_nil fun _ => .ofExcept hmake
  · exact peers.pairing.extend (Mirrors.length bytes.length) (.take (Take.reads_skip bytes))

/-- A text behind its header is carried over. -/
theorem carries_text (shape : Shape) (s : String) (hmake : shape.ofText s = .ok (.text s)) :
    peers.Carries
      (do
        let header ← MonadExcept.ofExcept (Varint.encode36 (4 * (Text.utf8 s).length + 2))
        return header ++ Text.utf8 s)
      (Read.known env content .string type shape) (Read.skipKnown skip .string type)
      (.text s) := by
  have hlength : (4 * (Text.utf8 s).length + 2) / 4 = (Text.utf8 s).length := by omega
  have hencoding : (4 * (Text.utf8 s).length + 2) % 4 = 2 := by omega
  have hheader (header : List UInt8)
      (hok : Varint.encode36 (4 * (Text.utf8 s).length + 2) = .ok header) :
      Take.Reads Varint.take36 header (4 * (Text.utf8 s).length + 2) := by
    unfold Varint.encode36 at hok
    split at hok
    next hlt =>
      cases hok
      exact Varint.reads_take36 hlt
    next => cases hok
  constructor
  · refine Mirrors.checked fun header hok => ?_
    have hbody : Take.Reads Read.textBody (header ++ Text.utf8 s) s := by
      refine (hheader header hok).bind ?_
      rw [hlength, hencoding]
      exact (Take.reads_bytes _).bind_nil (.ofExcept (Text.ofUtf8_utf8 s))
    exact .pure fun _ => (Read.Reads.take hbody).bind_nil (.ofExcept hmake)
  · refine Mirrors.checked fun header hok => ?_
    have hskip : Take.Reads (Take.skip ((4 * (Text.utf8 s).length + 2) / 4)) (Text.utf8 s) () := by
      rw [hlength]
      exact Take.reads_skip _
    exact .pure fun _ => (Read.Reads.take (hheader header hok)).bind (.take hskip)

end Kinds

end Peers

end SchemaWire
