import SchemaWire.Proofs.Name.Scheme

/-!
# Names in arbitrary bytes

What the readers of names make of bytes that no writer has to have produced. A packed name has at
most as many characters as codes of its width fit into its bytes, each of one byte in UTF-8, so it
never grows to more than eight fifths of its bytes. Out of bytes that are there, a name without any
characters is only read where a single byte holds the strip flag of a packed encoding.
-/

namespace SchemaWire

/-- A string has as many bytes as it was read from. -/
theorem Text.utf8ByteSize_of_ofUtf8 {bytes : List UInt8} {s : String}
    (h : ofUtf8 bytes = .ok s) : s.utf8ByteSize = bytes.length := by
  rw [← utf8_of_ofUtf8 h]
  rfl

namespace Name

/-- The first bit of the bytes is the strip flag, and the others are cut into codes. -/
theorem length_unpack (width : Nat) (first : UInt8) (rest : List UInt8) :
    (unpack width (first :: rest)).length =
      codeCount width (rest.length + 1) (first.toNat.testBit 7) := by
  rw [unpack, List.flatMap_cons, codeBits, List.cons_append]
  simp only
  rw [length_chunks, List.length_cons]

/-- Packed bytes hold at most as many codes as fit in behind the strip flag. -/
theorem length_unpack_le (width : Nat) (bytes : List UInt8) :
    (unpack width bytes).length ≤ (bytes.length * 8 - 1) / width := by
  cases bytes with
  | nil => exact Nat.zero_le _
  | cons first rest =>
    rw [length_unpack, codeCount, List.length_cons]
    exact Nat.sub_le _ _

/-- Packed bytes hold no code if a single byte has the strip flag. -/
theorem unpack_eq_nil_iff {width : Nat} (h : width = 5 ∨ width = 6) {bytes : List UInt8}
    (hbytes : bytes ≠ []) :
    unpack width bytes = [] ↔ ∃ byte : UInt8, bytes = [byte] ∧ 128 ≤ byte.toNat := by
  cases bytes with
  | nil => exact absurd rfl hbytes
  | cons first rest =>
    have hlt := first.toNat_lt
    have hflag : (first.toNat.testBit 7).toNat = first.toNat / 128 := by
      rw [Nat.toNat_testBit]
      omega
    rw [← List.length_eq_zero_iff, length_unpack, codeCount, hflag]
    constructor
    · intro hcount
      have hrest : rest.length = 0 := by rcases h with rfl | rfl <;> omega
      have hlarge : 128 ≤ first.toNat := by rcases h with rfl | rfl <;> omega
      exact ⟨first, by rw [List.length_eq_zero_iff.mp hrest], hlarge⟩
    · rintro ⟨byte, hbyte, hlarge⟩
      cases hbyte
      rcases h with rfl | rfl <;> simp only [List.length_nil] <;> omega

section Characters

/-- The first 128 characters have one byte. -/
theorem utf8Size_ofNat : ∀ n < 128, (Char.ofNat n).utf8Size = 1 := by
  decide

/-- A string of characters of one byte has as many bytes as characters. -/
theorem utf8ByteSize_ofList {chars : List Char} (h : ∀ c ∈ chars, c.utf8Size = 1) :
    (String.ofList chars).utf8ByteSize = chars.length := by
  rw [String.utf8ByteSize_ofList]
  induction chars with
  | nil => rfl
  | cons c rest ih =>
    rw [String.utf8Len_cons, h c List.mem_cons_self, List.length_cons,
      ih fun d hd => h d (List.mem_cons_of_mem c hd)]

/-- The characters of five-bit codes have one byte. -/
theorem utf8Size_fiveBitChar {code : Nat} {c : Char} (h : fiveBitChar code = .ok c) :
    c.utf8Size = 1 := by
  have hchars : ∀ code < 30, (fiveBitChar code).toOption.all (·.utf8Size == 1) := by
    decide
  by_cases hcode : code < 30
  · have hall := hchars code hcode
    rw [h] at hall
    exact eq_of_beq hall
  · rw [fiveBitChar, if_neg (by omega), if_neg (by omega), if_neg (by omega), if_neg (by omega),
      if_neg (by omega)] at h
    cases h

/-- The characters of six-bit codes have one byte if the specials have. -/
theorem utf8Size_sixBitChar {specials : Specials} (hfirst : specials.first.utf8Size = 1)
    (hsecond : specials.second.utf8Size = 1) (code : Nat) :
    (sixBitChar specials code).utf8Size = 1 := by
  unfold sixBitChar
  by_cases hlower : code < 26
  · rw [if_pos hlower]
    exact utf8Size_ofNat _ (by omega)
  by_cases hupper : code < 52
  · rw [if_neg hlower, if_pos hupper]
    exact utf8Size_ofNat _ (by omega)
  by_cases hdigit : code < 62
  · rw [if_neg hlower, if_neg hupper, if_pos hdigit]
    exact utf8Size_ofNat _ (by omega)
  rw [if_neg hlower, if_neg hupper, if_neg hdigit]
  by_cases hspecial : code = 62
  · rw [if_pos hspecial, hfirst]
  · rw [if_neg hspecial, hsecond]

/-- A raised character of one byte has one byte. -/
theorem utf8Size_upper {c : Char} (h : c.utf8Size = 1) : (upper c).utf8Size = 1 := by
  rw [upper]
  by_cases hletter : 'a' ≤ c ∧ c ≤ 'z'
  · have hmax : c.toNat ≤ 122 := hletter.2
    rw [if_pos hletter]
    exact utf8Size_ofNat _ (by omega)
  · rw [if_neg hletter, h]

end Characters

namespace Encoder

/-- There is one character of one byte for each five-bit code. -/
theorem of_fiveBitChars_ok {codes : List Nat} {chars : List Char}
    (h : fiveBitChars codes = .ok chars) :
    chars.length = codes.length ∧ ∀ c ∈ chars, c.utf8Size = 1 := by
  induction codes generalizing chars with
  | nil =>
    cases h
    exact ⟨rfl, nofun⟩
  | cons code codes ih =>
    obtain ⟨c, hc, h⟩ := exists_of_except_bind_ok h
    obtain ⟨others, hothers, heq⟩ := exists_of_except_bind_ok h
    cases heq
    obtain ⟨hlength, hsize⟩ := ih hothers
    exact ⟨by rw [List.length_cons, List.length_cons, hlength],
      List.forall_mem_cons.mpr ⟨utf8Size_fiveBitChar hc, hsize⟩⟩

/-- Raising the first character changes no other one. -/
theorem raiseFirst_spec {chars : List Char} (h : ∀ c ∈ chars, c.utf8Size = 1) :
    (raiseFirst chars).length = chars.length ∧ ∀ c ∈ raiseFirst chars, c.utf8Size = 1 := by
  cases chars with
  | nil => exact ⟨rfl, nofun⟩
  | cons first rest =>
    obtain ⟨hfirst, hrest⟩ := List.forall_mem_cons.mp h
    exact ⟨rfl, List.forall_mem_cons.mpr ⟨utf8Size_upper hfirst, hrest⟩⟩

/-- Raising what stands behind markers drops the markers, and never all characters. -/
theorem of_raiseAll_ok {chars raised : List Char} (h : raiseAll chars = .ok raised)
    (hsize : ∀ c ∈ chars, c.utf8Size = 1) :
    raised.length ≤ chars.length ∧ (raised = [] ↔ chars = []) ∧ ∀ c ∈ raised, c.utf8Size = 1 := by
  -- a marker takes the character behind it along, so the recursion goes by one or two characters
  fun_induction raiseAll chars generalizing raised with
  | case1 =>
    cases h
    exact ⟨Nat.le_refl 0, Iff.rfl, nofun⟩
  | case2 => cases h
  | case3 c hc =>
    cases h
    exact ⟨Nat.le_refl 1, by simp, hsize⟩
  | case4 next rest ih =>
    obtain ⟨others, hothers, heq⟩ := exists_of_except_bind_ok h
    cases heq
    obtain ⟨-, hnext, hrest⟩ := by simpa only [List.forall_mem_cons] using hsize
    obtain ⟨hlength, -, hall⟩ := ih hothers hrest
    refine ⟨?_, by simp, List.forall_mem_cons.mpr ⟨utf8Size_upper hnext, hall⟩⟩
    simp only [List.length_cons]
    omega
  | case5 c next rest hc ih =>
    obtain ⟨others, hothers, heq⟩ := exists_of_except_bind_ok h
    cases heq
    obtain ⟨hfirst, hrest⟩ := List.forall_mem_cons.mp hsize
    obtain ⟨hlength, -, hall⟩ := ih hothers hrest
    refine ⟨?_, by simp, List.forall_mem_cons.mpr ⟨hfirst, hall⟩⟩
    simp only [List.length_cons] at hlength ⊢
    omega

/-- The number of bits in which a packed encoder writes a character. -/
def width : Encoder → Nat
  | sixBit _ => 6
  | _ => 5

/-- A name that was unpacked has at most a character of one byte for each code, and it has one if
there is a code. -/
theorem of_decode_ok {encoder : Encoder} (hpacked : encoder ≠ .utf8)
    (hspecials : ∀ own, encoder = .sixBit own →
      own.first.utf8Size = 1 ∧ own.second.utf8Size = 1)
    {bytes : List UInt8} {name : String} (h : encoder.decode bytes = .ok name) :
    name.utf8ByteSize ≤ (unpack encoder.width bytes).length ∧
      (name = "" ↔ unpack encoder.width bytes = []) := by
  have hname {codes : List Nat} {chars : List Char} (hlength : chars.length ≤ codes.length)
      (hnil : chars = [] ↔ codes = []) (hsize : ∀ c ∈ chars, c.utf8Size = 1) :
      (String.ofList chars).utf8ByteSize ≤ codes.length ∧
        (String.ofList chars = "" ↔ codes = []) :=
    ⟨(utf8ByteSize_ofList hsize).trans_le hlength, String.ofList_eq_empty_iff.trans hnil⟩
  have hnil {α β : Type} {xs : List α} {ys : List β} (hlength : xs.length = ys.length) :
      xs = [] ↔ ys = [] := by
    rw [← List.length_eq_zero_iff, hlength, List.length_eq_zero_iff]
  cases encoder with
  | utf8 => exact absurd rfl hpacked
  | fiveBit =>
    obtain ⟨chars, hchars, heq⟩ := exists_of_except_bind_ok h
    cases heq
    obtain ⟨hlength, hsize⟩ := of_fiveBitChars_ok hchars
    exact hname hlength.le (hnil hlength) hsize
  | sixBit own =>
    cases h
    obtain ⟨hfirst, hsecond⟩ := hspecials own rfl
    refine hname (List.length_map _).le List.map_eq_nil_iff fun c hc => ?_
    obtain ⟨code, -, rfl⟩ := List.mem_map.mp hc
    exact utf8Size_sixBitChar hfirst hsecond code
  | firstToLower =>
    obtain ⟨chars, hchars, heq⟩ := exists_of_except_bind_ok h
    cases heq
    obtain ⟨hlength, hsize⟩ := of_fiveBitChars_ok hchars
    obtain ⟨hraised, hall⟩ := raiseFirst_spec hsize
    exact hname (hraised.trans hlength).le (hnil (hraised.trans hlength)) hall
  | allToLower =>
    obtain ⟨chars, hchars, h⟩ := exists_of_except_bind_ok h
    obtain ⟨raised, hraise, heq⟩ := exists_of_except_bind_ok h
    cases heq
    obtain ⟨hlength, hsize⟩ := of_fiveBitChars_ok hchars
    obtain ⟨hraised, hempty, hall⟩ := of_raiseAll_ok hraise hsize
    exact hname (hraised.trans_eq hlength) (hempty.trans (hnil hlength)) hall

end Encoder

namespace Scheme

/-- The special characters of the scheme have one byte. -/
def IsNarrow (scheme : Scheme) : Prop :=
  scheme.specials.first.utf8Size = 1 ∧ scheme.specials.second.utf8Size = 1

instance (scheme : Scheme) : Decidable scheme.IsNarrow :=
  inferInstanceAs (Decidable (_ ∧ _))

variable {scheme : Scheme} {encoding : Encoding} {bytes : List UInt8} {name : String}

/-- A name is read by the encoder of its encoding, which the scheme has to know. -/
theorem of_decode_ok (h : scheme.decode encoding bytes = .ok name) :
    (encoding = .utf8 ∨ encoding ∈ scheme.preference) ∧
      (scheme.encoderOf encoding).decode bytes = .ok name := by
  obtain ⟨encoder, hencoder, hname⟩ := exists_of_except_bind_ok h
  unfold encoderFor at hencoder
  by_cases hknown : encoding = .utf8 ∨ encoding ∈ scheme.preference
  · rw [if_pos hknown] at hencoder
    cases hencoder
    exact ⟨hknown, hname⟩
  · rw [if_neg hknown] at hencoder
    cases hencoder

/-- The encoder of a packed encoding is packed. -/
theorem encoderOf_ne_utf8 (h : encoding ≠ .utf8) : scheme.encoderOf encoding ≠ .utf8 := by
  cases encoding <;> simp [encoderOf] at h ⊢

/-- The encoder of a packed encoding has a width of five or six bits. -/
theorem width_encoderOf (scheme : Scheme) (encoding : Encoding) :
    (scheme.encoderOf encoding).width = 5 ∨ (scheme.encoderOf encoding).width = 6 := by
  cases encoding <;> simp [encoderOf, Encoder.width]

/-- A name that was unpacked has at most a character of one byte for each code, and it has one if
there is a code. -/
theorem of_decode_packed (hnarrow : scheme.IsNarrow) (hpacked : encoding ≠ .utf8)
    (h : (scheme.encoderOf encoding).decode bytes = .ok name) :
    name.utf8ByteSize ≤ (unpack (scheme.encoderOf encoding).width bytes).length ∧
      (name = "" ↔ unpack (scheme.encoderOf encoding).width bytes = []) :=
  Encoder.of_decode_ok (encoderOf_ne_utf8 hpacked)
    (fun own hown => scheme.encoderOf_specials encoding own hown ▸ hnarrow) h

/-- A name has at most eight fifths of the bytes that it was read from, since no code has less than
five bits. -/
theorem utf8ByteSize_of_decode (hnarrow : scheme.IsNarrow)
    (h : scheme.decode encoding bytes = .ok name) :
    5 * name.utf8ByteSize ≤ 8 * bytes.length := by
  obtain ⟨-, hname⟩ := of_decode_ok h
  by_cases hplain : encoding = .utf8
  · subst hplain
    rw [Text.utf8ByteSize_of_ofUtf8 hname]
    omega
  · have hsize := (of_decode_packed hnarrow hplain hname).1
    have hcount := length_unpack_le (scheme.encoderOf encoding).width bytes
    rcases scheme.width_encoderOf encoding with hwidth | hwidth <;> rw [hwidth] at hsize hcount <;>
      omega

/-- Out of bytes that are there a name without characters is read exactly where the encoding is
packed and there is a single byte, with the strip flag. -/
theorem decode_eq_empty_iff (hnarrow : scheme.IsNarrow) (hbytes : bytes ≠ []) :
    scheme.decode encoding bytes = .ok "" ↔ encoding ≠ .utf8 ∧ encoding ∈ scheme.preference ∧
      ∃ byte : UInt8, bytes = [byte] ∧ 128 ≤ byte.toNat := by
  constructor
  · intro h
    obtain ⟨hknown, hname⟩ := of_decode_ok h
    have hpacked : encoding ≠ .utf8 := by
      rintro rfl
      have hsize := Text.utf8ByteSize_of_ofUtf8 hname
      exact hbytes (List.length_eq_zero_iff.mp hsize.symm)
    have hempty := (of_decode_packed hnarrow hpacked hname).2.mp rfl
    exact ⟨hpacked, hknown.resolve_left hpacked,
      (unpack_eq_nil_iff (scheme.width_encoderOf encoding) hbytes).mp hempty⟩
  · rintro ⟨hpacked, hmem, hstrip⟩
    have hempty := (unpack_eq_nil_iff (scheme.width_encoderOf encoding) hbytes).mpr hstrip
    have hreader : scheme.encoderFor encoding = .ok (scheme.encoderOf encoding) :=
      if_pos (.inr hmem)
    rw [decode, hreader]
    change (scheme.encoderOf encoding).decode bytes = .ok ""
    cases encoding with
    | utf8 => exact absurd rfl hpacked
    | sixBit =>
      change unpack 6 bytes = [] at hempty
      rw [encoderOf, Encoder.decode, hempty]
      rfl
    | allToLower | firstToLower =>
      change unpack 5 bytes = [] at hempty
      rw [encoderOf, Encoder.decode, hempty]
      rfl

end Scheme

end Name

end SchemaWire
