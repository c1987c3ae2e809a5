import SchemaWire.Proofs.Data.Pairing
import SchemaWire.Proofs.Types.Integer
import SchemaWire.Proofs.Value.Resolve

/-!
# Plain values are read back

A value with a layout of its own is read back by the shape that holds it. Writing it leaves
the tables of the writer alone, and reading it goes no deeper than the value is high.
-/

namespace SchemaWire

open Take (Reads)

namespace Plain

/-- Plain writers leave the tables alone, and readers of bytes read what they write. -/
def pairing : Pairing (List UInt8) where
  Rel writer reader value := ∀ before bytes after, writer before = .ok bytes after →
    after = before ∧ Reads reader bytes value
  nil a before bytes after h := by
    cases h
    exact ⟨rfl, .pure a⟩
  append h hnext before bytes after hok := by
    obtain ⟨front, between, hfront, hok⟩ := exists_of_bind_ok hok
    obtain ⟨back, last, hback, hok⟩ := exists_of_bind_ok hok
    cases hok
    obtain ⟨rfl, hfirst⟩ := h _ _ _ hfront
    obtain ⟨rfl, hsecond⟩ := hnext _ _ _ hback
    exact ⟨rfl, hfirst.bind hsecond⟩
  map h f before bytes after hok := by
    obtain ⟨rfl, hread⟩ := h before bytes after hok
    exact ⟨rfl, hread.map f⟩

variable {α : Type} {reader : Take α} {value : α}

/-- Bytes that an exact reader takes. -/
theorem of_reads {bytes : List UInt8} (h : Reads reader bytes value) :
    pairing.Rel (pure bytes) reader value := by
  intro before found after hok
  cases hok
  exact ⟨rfl, h⟩

/-- Nothing has to be read of a writer that fails. -/
theorem of_throw (e : Error) : pairing.Rel (throw e) reader value := nofun

/-- A length is read back. -/
theorem length (n : Nat) : pairing.Rel (Write.length n) Varint.take32 n := by
  unfold Write.length
  split
  next h => exact of_reads (Varint.reads_take32 h)
  next => exact of_throw _

/-- Bytes behind their number are read back. -/
theorem counted (content : List UInt8) :
    pairing.Rel (Write.counted content) Take.counted content :=
  pairing.extend (length content.length) (of_reads (Take.reads_bytes content))

/-- A text behind the number of its bytes is read back. -/
theorem text (s : String) : pairing.Rel (Write.counted (Text.utf8 s)) Take.text s := by
  have hread : Reads (MonadExcept.ofExcept (Text.ofUtf8 (Text.utf8 s))) [] s :=
    .ofExcept (Text.ofUtf8_utf8 s)
  intro before bytes after hok
  obtain ⟨rfl, hcounted⟩ := counted (Text.utf8 s) before bytes after hok
  exact ⟨rfl, hcounted.bind_nil hread⟩

/-- A truth value is read back. -/
theorem reads_bool (b : Bool) :
    Reads (do return Datum.bool ((← Take.byte) != 0)) [UInt8.ofNat b.toNat] (.bool b) := by
  have hread := (Take.reads_byte (UInt8.ofNat b.toNat)).map fun byte => Datum.bool (byte != 0)
  cases b <;> exact hread

/-- An integer that its type holds is read back. -/
theorem reads_int {t : IntType} {v : Int} (h : t.holds v = true) :
    Reads (if t.isSigned then do return Datum.int t (← Take.integer t.bytes)
      else do return Datum.int t (← Take.natural t.bytes)) (LittleEndian.encodeSigned t.bytes v)
      (.int t v) := by
  have hread := (reads_integerBody h).map (Datum.int t)
  unfold Read.integerBody at hread
  cases hsigned : t.isSigned with
  | true => simpa only [hsigned, if_true] using hread
  | false => simpa only [hsigned, Bool.false_eq_true, if_false, bind_assoc, pure_bind] using hread

/-- The bits of a short floating-point number are read back. -/
theorem reads_float32 (bits : UInt32) :
    Reads (do return Datum.float32 (UInt32.ofNat (← Take.natural 4)))
      (LittleEndian.encode 4 bits.toNat) (.float32 bits) := by
  have hlt : bits.toNat < 256 ^ 4 := bits.toNat_lt
  have hread := (Take.reads_natural hlt).map fun n => Datum.float32 (UInt32.ofNat n)
  rw [UInt32.ofNat_toNat] at hread
  exact hread

/-- The bits of a long floating-point number are read back. -/
theorem reads_float64 (bits : UInt64) :
    Reads (do return Datum.float64 (UInt64.ofNat (← Take.natural 8)))
      (LittleEndian.encode 8 bits.toNat) (.float64 bits) := by
  have hlt : bits.toNat < 256 ^ 8 := bits.toNat_lt
  have hread := (Take.reads_natural hlt).map fun n => Datum.float64 (UInt64.ofNat n)
  rw [UInt64.ofNat_toNat] at hread
  exact hread

/-- A character is read back. -/
theorem reads_character (c : Char) :
    Reads Take.character (LittleEndian.encode 4 c.toNat) c := by
  have hlt : c.toNat < 256 ^ 4 := c.val.toNat_lt
  have hvalid : c.toNat.isValidChar := c.valid
  refine (Take.reads_natural hlt).bind_nil ?_
  rw [dif_pos hvalid]
  have hsame : Char.ofNatAux c.toNat hvalid = c := by
    have hmade := Char.ofNat_toNat c
    rw [Char.ofNat, dif_pos hvalid] at hmade
    exact hmade
  rw [hsame]
  exact .pure c

end Plain

namespace Write

/-- In a plain place nothing stands before the content. -/
theorem behind_plain (env : WriteEnv) (content : Layout → Write (List UInt8)) :
    behind env .plain content = content .plain := by
  simp [behind, enter]

end Write

namespace Plain

variable {env : WriteEnv} {depth : Nat} {shapes : Shapes}

/-- Elements behind their number are read where each of them is read. -/
theorem seq {read : Elements (List UInt8)} {element : Shape} {items : List Datum}
    (h : ∀ v ∈ items, ∀ index,
      pairing.Rel (Write.datum env depth .plain v) (read index element) v) :
    pairing.Rel (do
        let count ← Write.size true items.length
        return count ++ (← Write.items env depth .plain items))
      (do
        let count ← Varint.take32
        return Datum.seq true (← read.collect element count 0)) (.seq true items) :=
  pairing.append (length items.length) (pairing.map (pairing.collect h 0) (Datum.seq true))

/-- Entries behind their number are read where their keys and values are read. -/
theorem map {read : Entries (List UInt8)} {key value : Shape} {entries : List (Datum × Datum)}
    (hkey : ∀ entry ∈ entries, ∀ index,
      pairing.Rel (Write.datum env depth .plain entry.1) (read.key index key) entry.1)
    (hvalue : ∀ entry ∈ entries, ∀ index,
      pairing.Rel (Write.datum env depth .plain entry.2) (read.value index value) entry.2) :
    pairing.Rel (do
        let count ← Write.size true entries.length
        return count ++ (← Write.entries env depth .plain .plain entries))
      (do
        let count ← Varint.take32
        return Datum.map true (← read.collect key value count 0)) (.map true entries) :=
  pairing.append (length entries.length)
    (pairing.map (pairing.entries hkey hvalue 0) (Datum.map true))

/-- The index of a variant is read in front of what follows it. -/
theorem variant {α : Type} {index : Nat} (hindex : index < 2 ^ 32)
    {writer : Write (List UInt8)} {then' : Nat → Take α} {a : α}
    (h : pairing.Rel writer (then' index) a) :
    pairing.Rel (do return Varint.encode32 index ++ (← writer)) (Varint.take32 >>= then') a :=
  pairing.prepend (of_reads (Varint.reads_take32 hindex)) h

section Parts

variable {fuel : Nat} (ih : ∀ {shape : Shape} {v : Datum}, shape.Holds shapes v →
  v.height < fuel →
  pairing.Rel (Write.datum env depth .plain v) (Take.plainWithin shapes fuel shape) v)
include ih

/-- Values by position are read where each of them is read. -/
theorem positional {parts : List Shape} {items : List Datum}
    (hlength : parts.length = items.length)
    (hparts : ∀ part ∈ parts.zip items, part.1.Holds shapes part.2)
    (hheight : Datum.heightOfItems items < fuel) :
    pairing.Rel (Write.items env depth .plain items)
      (Elements.positional (fun _ shape => Take.plainWithin shapes fuel shape) parts.length
        parts 0) items := by
  refine pairing.positional hlength (by omega) fun part hmem _ => ?_
  have hle := Datum.height_le_of_mem_items (List.of_mem_zip hmem).2
  exact ih (hparts part hmem) (Nat.lt_of_le_of_lt hle hheight)

/-- Values by name are read where each of them is read. -/
theorem members {parts : List (Member Shape)} {fields : List (String × Datum)}
    (hnames : parts.map Member.name = fields.map Prod.fst)
    (hparts : ∀ part ∈ parts.zip fields, part.1.content.Holds shapes part.2.2)
    (hheight : Datum.heightOfFields fields < fuel) (gaps : Bool) :
    pairing.Rel (Write.members env depth gaps fields)
      (Elements.members (fun _ shape => Take.plainWithin shapes fuel shape) parts.length
        parts 0) fields := by
  have hpresent : ∀ field ∈ fields, field.2 ≠ .absent := by
    intro field hmem
    obtain ⟨member, -, -, hholds⟩ := Shape.exists_holds_of_mem_fields hnames hparts hmem
    exact hholds.ne_absent
  refine pairing.members hnames (by omega) hpresent fun part hmem _ => ?_
  have hle := Datum.height_le_of_mem_fields (List.of_mem_zip hmem).2
  exact ih (hparts part hmem) (Nat.lt_of_le_of_lt hle hheight)

end Parts

/-- A plain value is read back by the shape that holds it, with a bound above its height. -/
theorem rel_datum (fuel : Nat) : ∀ {shape : Shape} {v : Datum}, shape.Holds shapes v →
    v.height < fuel →
    pairing.Rel (Write.datum env depth .plain v) (Take.plainWithin shapes fuel shape) v := by
  induction fuel with
  | zero =>
    intro shape v _ hheight
    cases hheight
  | succ fuel ih =>
    intro shape v h hheight
    have hresolved := h.resolved
    have huser := shapes.resolve_ne_user shape
    unfold Take.plainWithin
    generalize shapes.resolve shape = own at hresolved huser
    dsimp only
    cases hresolved with
    | user _ => exact absurd rfl (huser _)
    | bool b =>
      rw [Write.datum, Write.scalar, Write.behind_plain]
      exact of_reads (reads_bool b)
    | @int t v ht =>
      rw [Write.datum, Write.scalar, Write.behind_plain]
      exact of_reads (reads_int ht)
    | float32 bits =>
      rw [Write.datum, Write.scalar, Write.behind_plain]
      exact of_reads (reads_float32 bits)
    | float64 bits =>
      rw [Write.datum, Write.scalar, Write.behind_plain]
      exact of_reads (reads_float64 bits)
    | char c =>
      rw [Write.datum]
      exact of_reads ((reads_character c).map Datum.char)
    | string s | str s =>
      rw [Write.datum, Write.text, Write.scalar, Write.behind_plain]
      exact pairing.map (text s) Datum.text
    | bytes content | byteSlice content =>
      rw [Write.datum, Write.scalar, Write.behind_plain]
      exact pairing.map (counted content) Datum.bytes
    | unit | unitStruct name =>
      rw [Write.datum, Write.behind_plain]
      exact pairing.nil Datum.unit
    | none content =>
      rw [Write.datum]
      exact of_reads (Take.reads_byte Take.noneTag |>.bind_nil (.pure Datum.none))
    | @some content v hcontent =>
      have hbelow : v.height < fuel := Nat.lt_of_succ_lt_succ hheight
      have hinner := pairing.map (ih hcontent hbelow) Datum.some
      rw [Write.datum]
      exact pairing.prepend (of_reads (Take.reads_byte Take.someTag)) hinner
    | @newtype name content v hcontent =>
      have hbelow : v.height < fuel := Nat.lt_of_succ_lt_succ hheight
      rw [Write.datum]
      exact pairing.map (ih hcontent hbelow) Datum.newtype
    | @list name element items hitems | @set name element items hitems =>
      have hbelow : Datum.heightOfItems items < fuel := Nat.lt_of_succ_lt_succ hheight
      have heach (v : Datum) (hmem : v ∈ items) (_ : Nat) :
          pairing.Rel (Write.datum env depth .plain v) (Take.plainWithin shapes fuel element) v :=
        ih (hitems v hmem) (Nat.lt_of_le_of_lt (Datum.height_le_of_mem_items hmem) hbelow)
      rw [Write.datum, Write.behind_plain]
      simpa only [Elements.visit, bind_assoc, pure_bind] using seq heach
    | @map name key value entries hkey hvalue =>
      have hbelow : Datum.heightOfEntries entries < fuel := Nat.lt_of_succ_lt_succ hheight
      have hkeys (entry : Datum × Datum) (hmem : entry ∈ entries) (_ : Nat) :
          pairing.Rel (Write.datum env depth .plain entry.1)
            (Take.plainWithin shapes fuel key) entry.1 :=
        ih (hkey entry hmem) (Nat.lt_of_le_of_lt (Datum.height_le_of_mem_entries hmem).1 hbelow)
      have hvalues (entry : Datum × Datum) (hmem : entry ∈ entries) (_ : Nat) :
          pairing.Rel (Write.datum env depth .plain entry.2)
            (Take.plainWithin shapes fuel value) entry.2 :=
        ih (hvalue entry hmem) (Nat.lt_of_le_of_lt (Datum.height_le_of_mem_entries hmem).2 hbelow)
      rw [Write.datum, Write.behind_plain]
      simpa only [Entries.visit, bind_assoc, pure_bind] using map hkeys hvalues
    | @tuple parts items hlength hparts | @tupleStruct name parts items hlength hparts =>
      have hbelow : Datum.heightOfItems items < fuel := Nat.lt_of_succ_lt_succ hheight
      have hread := pairing.map (positional ih hlength hparts hbelow) Datum.tuple
      rw [Write.datum, Write.behind_plain]
      simpa only [Elements.visit, bind_assoc, pure_bind] using hread
    | @struct name parts fields hnames hparts =>
      have hbelow : Datum.heightOfFields fields < fuel := Nat.lt_of_succ_lt_succ hheight
      have hread := pairing.map (members ih hnames hparts hbelow false) (Datum.struct name)
      rw [Write.datum, Write.behind_plain]
      simpa only [Elements.visit, bind_assoc, pure_bind] using hread
    | @unitVariant name variants index variant hvariant hindex =>
      rw [Write.datum, Write.behind_plain]
      refine of_reads ((Varint.reads_take32 hindex).bind_nil ?_)
      simp only [hvariant]
      exact .pure _
    | @newtypeVariant name variants index variant content v hvariant hindex hcontent =>
      have hbelow : v.height < fuel := Nat.lt_of_succ_lt_succ hheight
      have hread := pairing.map (ih hcontent hbelow) (Datum.newtypeVariant name index variant)
      rw [Write.datum, Write.variant, Write.behind_plain]
      refine Plain.variant hindex ?_
      simp only [hvariant]
      exact hread
    | @tupleVariant name variants index variant parts items hvariant hindex hlength hparts =>
      have hbelow : Datum.heightOfItems items < fuel := Nat.lt_of_succ_lt_succ hheight
      have hread := pairing.map (positional ih hlength hparts hbelow)
        (Datum.tupleVariant name index variant)
      rw [Write.datum, Write.variant, Write.behind_plain]
      refine Plain.variant hindex ?_
      simp only [hvariant]
      exact hread
    | @structVariant name variants index variant parts fields hvariant hindex hnames hparts =>
      have hbelow : Datum.heightOfFields fields < fuel := Nat.lt_of_succ_lt_succ hheight
      have hread := pairing.map (members ih hnames hparts hbelow true)
        (Datum.structVariant name index variant)
      rw [Write.datum, Write.variant, Write.behind_plain]
      refine Plain.variant hindex ?_
      simp only [hvariant]
      exact hread

end Plain

end SchemaWire
