import Mathlib.Data.String.Basic
import SchemaWire.Name.Scheme
import SchemaWire.Proofs.Name.Packing
import SchemaWire.Proofs.Reading

/-!
# Names are read back as they were written

An encoder that is eligible for a name writes it, and reads it back from the bytes. How many
bytes there are is known from the characters of the name, and they are never more than the bytes
of the name in UTF-8. A scheme always finds an eligible encoder, so its names are never lost.
-/

namespace SchemaWire.Name

/-- A character is found again from its distance to a smaller number. -/
theorem ofNat_add_sub {c : Char} {base : Nat} (h : base ≤ c.toNat) :
    Char.ofNat (base + (c.toNat - base)) = c := by
  rw [Nat.add_sub_cancel' h, Char.ofNat_toNat]

/-- A character with a five-bit code is the character of that code. -/
theorem fiveBitChar_of_code {c : Char} {code : Nat} (h : fiveBitCode? c = some code) :
    fiveBitChar code = .ok c ∧ code < 2 ^ 5 := by
  unfold fiveBitCode? at h
  split at h
  next hletter =>
    obtain ⟨hlow, hhigh⟩ := hletter
    have hmax : c.toNat ≤ 122 := hhigh
    have hmin : 97 ≤ c.toNat := hlow
    have hcode : c.toNat - 97 = code := Option.some.inj h
    subst hcode
    refine ⟨?_, by omega⟩
    rw [fiveBitChar, if_pos (by omega), ofNat_add_sub hmin]
  next =>
    split at h
    next hc => cases h; exact ⟨by rw [hc]; rfl, by decide⟩
    next =>
      split at h
      next hc => cases h; exact ⟨by rw [hc]; rfl, by decide⟩
      next =>
        split at h
        next hc => cases h; exact ⟨by rw [hc]; rfl, by decide⟩
        next =>
          split at h
          next hc => cases h; exact ⟨by rw [hc]; rfl, by decide⟩
          next => cases h

/-- A letter, a digit or a special has a six-bit code. -/
theorem sixBitCode?_isSome {specials : Specials} {c : Char}
    (h : (isAlphanumeric c || c == specials.first || c == specials.second) = true) :
    (sixBitCode? specials c).isSome := by
  simp only [isAlphanumeric, isDigit, isUpper, Bool.or_eq_true, Bool.and_eq_true,
    decide_eq_true_eq, beq_iff_eq] at h
  unfold sixBitCode?
  grind

/-- A character with a six-bit code is the character of that code, whatever the specials. -/
theorem sixBitChar_of_code {specials : Specials} {c : Char} {code : Nat}
    (h : sixBitCode? specials c = some code) :
    sixBitChar specials code = c ∧ code < 2 ^ 6 := by
  unfold sixBitCode? at h
  split at h
  next hletter =>
    obtain ⟨hlow, hhigh⟩ := hletter
    have hmax : c.toNat ≤ 122 := hhigh
    have hmin : 97 ≤ c.toNat := hlow
    have hcode : c.toNat - 97 = code := Option.some.inj h
    subst hcode
    refine ⟨?_, by omega⟩
    rw [sixBitChar, if_pos (by omega), ofNat_add_sub hmin]
  next =>
    split at h
    next hletter =>
      obtain ⟨hlow, hhigh⟩ := hletter
      have hmax : c.toNat ≤ 90 := hhigh
      have hmin : 65 ≤ c.toNat := hlow
      have hcode : c.toNat - 65 + 26 = code := Option.some.inj h
      subst hcode
      refine ⟨?_, by omega⟩
      rw [sixBitChar, if_neg (by omega), if_pos (by omega), Nat.add_sub_cancel,
        ofNat_add_sub hmin]
    next =>
      split at h
      next hdigit =>
        obtain ⟨hlow, hhigh⟩ := hdigit
        have hmax : c.toNat ≤ 57 := hhigh
        have hmin : 48 ≤ c.toNat := hlow
        have hcode : c.toNat - 48 + 52 = code := Option.some.inj h
        subst hcode
        refine ⟨?_, by omega⟩
        rw [sixBitChar, if_neg (by omega), if_neg (by omega), if_pos (by omega),
          Nat.add_sub_cancel, ofNat_add_sub hmin]
      next =>
        split at h
        next hc => cases h; exact ⟨hc.symm, by decide⟩
        next =>
          split at h
          next hc => cases h; exact ⟨hc.symm, by decide⟩
          next => cases h

namespace Encoder

/-- Characters that all have codes have a list of codes. -/
theorem exists_codes (encoder : Encoder) {code? : Char → Option Nat} {chars : List Char}
    (h : ∀ c ∈ chars, (code? c).isSome) :
    ∃ found, encoder.codes code? chars = .ok found
      ∧ List.Forall₂ (fun c code => code? c = some code) chars found := by
  induction chars with
  | nil => exact ⟨[], rfl, .nil⟩
  | cons c rest ih =>
    obtain ⟨code, hcode⟩ := Option.isSome_iff_exists.mp (h c List.mem_cons_self)
    obtain ⟨others, hothers, hall⟩ := ih fun d hd => h d (List.mem_cons_of_mem c hd)
    refine ⟨code :: others, ?_, .cons hcode hall⟩
    simp only [codes, hcode, hothers]
    rfl

/-- The characters of five-bit codes are the ones that the codes were taken from. -/
theorem fiveBitChars_of_codes {chars : List Char} {found : List Nat}
    (h : List.Forall₂ (fun c code => fiveBitCode? c = some code) chars found) :
    fiveBitChars found = .ok chars ∧ ∀ code ∈ found, code < 2 ^ 5 := by
  induction h with
  | nil => exact ⟨rfl, by simp⟩
  | cons hcode _ ih =>
    obtain ⟨hchar, hlt⟩ := fiveBitChar_of_code hcode
    refine ⟨?_, by simpa using ⟨hlt, ih.2⟩⟩
    simp only [fiveBitChars, hchar, ih.1]
    rfl

/-- The characters of six-bit codes are the ones that the codes were taken from. -/
theorem sixBitChars_of_codes {specials : Specials} {chars : List Char} {found : List Nat}
    (h : List.Forall₂ (fun c code => sixBitCode? specials c = some code) chars found) :
    found.map (sixBitChar specials) = chars ∧ ∀ code ∈ found, code < 2 ^ 6 := by
  induction h with
  | nil => exact ⟨rfl, by simp⟩
  | cons hcode _ ih =>
    obtain ⟨hchar, hlt⟩ := sixBitChar_of_code hcode
    exact ⟨by rw [List.map_cons, hchar, ih.1], by simpa using ⟨hlt, ih.2⟩⟩

/-- Letters with five-bit codes are packed, and unpacked to the same letters. -/
theorem fiveBit_pack (encoder : Encoder) {chars : List Char}
    (h : ∀ c ∈ chars, (fiveBitCode? c).isSome) :
    ∃ found, encoder.codes fiveBitCode? chars = .ok found
      ∧ fiveBitChars (unpack 5 (pack 5 found)) = .ok chars := by
  obtain ⟨found, hfound, hall⟩ := encoder.exists_codes h
  obtain ⟨hchars, hlt⟩ := fiveBitChars_of_codes hall
  refine ⟨found, hfound, ?_⟩
  rw [unpack_pack (by decide) (by decide) hlt, hchars]

/-- The lower case of a capital has a five-bit code and is raised to the capital again. -/
theorem lower_of_isUpper {c : Char} (h : isUpper c = true) :
    upper (lower c) = c ∧ (fiveBitCode? (lower c)).isSome := by
  simp only [isUpper, Bool.and_eq_true, decide_eq_true_eq] at h
  have hmin : 65 ≤ c.toNat := h.1
  have hmax : c.toNat ≤ 90 := h.2
  have hlower : lower c = Char.ofNat (c.toNat + 32) := by
    rw [lower, if_pos (by simp [isUpper, h.1, h.2])]
  have hvalid : (c.toNat + 32).isValidChar := Or.inl (by omega)
  have hnat : (Char.ofNat (c.toNat + 32)).toNat = c.toNat + 32 := by
    rw [Char.ofNat, dif_pos hvalid]
    rfl
  have hletter : 'a' ≤ Char.ofNat (c.toNat + 32) ∧ Char.ofNat (c.toNat + 32) ≤ 'z' := by
    constructor
    · change 97 ≤ (Char.ofNat (c.toNat + 32)).toNat
      omega
    · change (Char.ofNat (c.toNat + 32)).toNat ≤ 122
      omega
  rw [hlower]
  refine ⟨?_, ?_⟩
  · rw [upper, if_pos hletter, hnat, Nat.add_sub_cancel, Char.ofNat_toNat]
  · rw [fiveBitCode?, if_pos hletter]
    rfl

/-- Raising what was lowered behind markers gives the characters back, as long as none of
them is a marker itself. -/
theorem raiseAll_lowerAll {chars : List Char} (h : ∀ c ∈ chars, c ≠ upperMarker) :
    raiseAll (lowerAll chars) = .ok chars := by
  induction chars with
  | nil => rfl
  | cons c rest ih =>
    have hrest := ih fun d hd => h d (List.mem_cons_of_mem c hd)
    have hc := h c List.mem_cons_self
    by_cases hupper : isUpper c = true
    · have hlowered : lowerAll (c :: rest) = upperMarker :: lower c :: lowerAll rest := by
        simp [lowerAll, hupper]
      rw [hlowered, raiseAll, if_pos rfl, hrest, (lower_of_isUpper hupper).1]
      rfl
    · have hlowered : lowerAll (c :: rest) = c :: lowerAll rest := by
        simp [lowerAll, hupper]
      rw [hlowered]
      cases htail : lowerAll rest with
      | nil =>
        rw [htail] at hrest
        cases hrest
        rw [raiseAll, if_neg hc]
      | cons next others =>
        rw [htail] at hrest
        rw [raiseAll, if_neg hc, hrest]
        rfl

/-- Every character of a lowered name has a five-bit code. -/
theorem fiveBitCode?_lowerAll {chars : List Char}
    (h : ∀ c ∈ chars, isUpper c = true ∨ (fiveBitCode? c).isSome) :
    ∀ c ∈ lowerAll chars, (fiveBitCode? c).isSome := by
  intro c hc
  obtain ⟨d, hd, hmem⟩ := List.mem_flatMap.mp hc
  by_cases hupper : isUpper d = true
  · rw [if_pos hupper] at hmem
    rcases List.mem_pair.mp hmem with hmarker | hlower
    · rw [hmarker]
      rfl
    · rw [hlower]
      exact (lower_of_isUpper hupper).2
  · rw [if_neg hupper] at hmem
    rw [List.mem_singleton.mp hmem]
    exact (h d hd).resolve_left hupper

/-- A lowered name is longer by its capitals. -/
theorem length_lowerAll (chars : List Char) :
    (lowerAll chars).length = chars.length + chars.countP isUpper := by
  induction chars with
  | nil => rfl
  | cons c rest ih =>
    have hcons : lowerAll (c :: rest)
        = (if isUpper c then [upperMarker, lower c] else [c]) ++ lowerAll rest := rfl
    rw [hcons, List.length_append, ih, List.length_cons, List.countP_cons]
    split <;> simp <;> omega

/-- An encoder that is eligible for a name writes it, and reads it back. -/
theorem decode_encode_of_eligible {encoder : Encoder} {specials : Specials} {name : String}
    (hspecials : ∀ own, encoder = .sixBit own → own = specials)
    (h : encoder.eligible (Stats.of specials name) name = true) :
    ∃ bytes, encoder.encode name = .ok bytes ∧ encoder.decode bytes = .ok name := by
  cases encoder with
  | utf8 => exact ⟨Text.utf8 name, rfl, Text.ofUtf8_utf8 name⟩
  | fiveBit =>
    simp only [eligible, Stats.of, Bool.and_eq_true, List.all_eq_true] at h
    obtain ⟨found, hfound, hback⟩ := fiveBit_pack .fiveBit h.1
    refine ⟨pack 5 found, ?_, ?_⟩
    · simp only [encode, hfound]
      rfl
    · simp only [decode, hback]
      exact congrArg Except.ok String.ofList_toList
  | sixBit own =>
    obtain rfl := hspecials own rfl
    simp only [eligible, Stats.of, Bool.and_eq_true, List.all_eq_true] at h
    obtain ⟨found, hfound, hall⟩ :=
      exists_codes (.sixBit own) fun c hc => sixBitCode?_isSome (h.1 c hc)
    obtain ⟨hchars, hlt⟩ := sixBitChars_of_codes hall
    refine ⟨pack 6 found, ?_, ?_⟩
    · simp only [encode, hfound]
      rfl
    · simp only [decode, unpack_pack (by decide : 4 ≤ 6) (by decide) hlt, hchars]
      exact congrArg Except.ok String.ofList_toList
  | firstToLower =>
    simp only [eligible, Stats.of, Bool.and_eq_true] at h
    cases hname : name.toList with
    | nil => simp [hname] at h
    | cons first rest =>
      simp only [hname, Bool.and_eq_true, List.all_eq_true] at h
      obtain ⟨-, hupper, hrest⟩ := h
      obtain ⟨hraise, hsome⟩ := lower_of_isUpper hupper
      have hcode (c : Char) (hc : c ∈ lowerFirst (first :: rest)) : (fiveBitCode? c).isSome := by
        rcases List.mem_cons.mp hc with heq | hmem
        · rw [heq]
          exact hsome
        · exact hrest c hmem
      obtain ⟨found, hfound, hback⟩ := fiveBit_pack .firstToLower hcode
      refine ⟨pack 5 found, ?_, ?_⟩
      · simp only [encode, hname, hfound]
        rfl
      · simp only [decode, hback]
        change Except.ok (String.ofList (upper (lower first) :: rest)) = _
        rw [hraise, ← hname, String.ofList_toList]
  | allToLower =>
    simp only [eligible, Bool.and_eq_true, List.all_eq_true, Bool.or_eq_true, bne_iff_ne] at h
    have hcode := fiveBitCode?_lowerAll fun c hc => (h.1 c hc).imp_right And.right
    have hmarker (c : Char) (hc : c ∈ name.toList) : c ≠ upperMarker := by
      rcases h.1 c hc with hupper | hplain
      · rintro rfl
        exact absurd hupper (by decide)
      · exact hplain.1
    obtain ⟨found, hfound, hback⟩ := fiveBit_pack .allToLower hcode
    refine ⟨pack 5 found, ?_, ?_⟩
    · simp only [encode, hfound]
      rfl
    · simp only [decode, hback]
      change (do return String.ofList (← raiseAll (lowerAll name.toList))) = _
      rw [raiseAll_lowerAll hmarker]
      exact congrArg Except.ok String.ofList_toList

/-- A name has at most as many characters as bytes. -/
theorem length_toList_le (name : String) : name.toList.length ≤ name.utf8ByteSize := by
  rw [← String.ofList_toList (s := name), String.utf8ByteSize_ofList, String.toList_ofList]
  induction name.toList with
  | nil => exact Nat.le_refl 0
  | cons c rest ih =>
    have hsize : 0 < c.utf8Size := Char.utf8Size_pos c
    rw [String.utf8Len_cons, List.length_cons]
    omega

/-- There is one code for each character. -/
theorem length_of_codes_ok {encoder : Encoder} {code? : Char → Option Nat} {chars : List Char}
    {found : List Nat} (h : encoder.codes code? chars = .ok found) :
    found.length = chars.length := by
  induction chars generalizing found with
  | nil =>
    cases h
    rfl
  | cons c rest ih =>
    simp only [codes] at h
    split at h
    next => cases h
    next code hcode =>
      obtain ⟨others, hothers, heq⟩ := exists_of_except_bind_ok h
      cases heq
      rw [List.length_cons, List.length_cons, ih hothers]

/-- The number of bytes that hold the given number of bits, the last one filled up. -/
def bytesFor (bits : Nat) : Nat :=
  (bits + 7) / 8

/-- Bits fit into a number of bytes if eight times this number is not less than theirs. -/
theorem bytesFor_le_iff {bits count : Nat} : bytesFor bits ≤ count ↔ bits ≤ 8 * count := by
  rw [bytesFor]
  omega

/-- The number of bytes in which an encoder writes a name. Packed codes take one bit for the flag
and five or six bits each; there is one of them for a character, and one more for a marker. -/
def size (name : String) : Encoder → Nat
  | utf8 => name.utf8ByteSize
  | fiveBit => bytesFor (5 * name.length + 1)
  | sixBit _ => bytesFor (6 * name.length + 1)
  | firstToLower => bytesFor (5 * name.length + 1)
  | allToLower => bytesFor (5 * (name.length + name.toList.countP isUpper) + 1)

/-- Whatever an encoder writes for a name has the size of the name. -/
theorem length_of_encode_ok {encoder : Encoder} {name : String} {bytes : List UInt8}
    (h : encoder.encode name = .ok bytes) : bytes.length = encoder.size name := by
  have hpack {width count : Nat} {found : List Nat} (hfound : found.length = count) :
      (pack width found).length = bytesFor (width * count + 1) := by
    rw [length_pack, hfound, Nat.mul_comm, packedSize, bytesFor]
  cases encoder with
  | utf8 =>
    cases h
    exact Array.length_toList
  | fiveBit | sixBit own =>
    obtain ⟨found, hfound, heq⟩ := exists_of_except_bind_ok h
    cases heq
    exact hpack ((length_of_codes_ok hfound).trans String.length_toList)
  | firstToLower =>
    obtain ⟨found, hfound, heq⟩ := exists_of_except_bind_ok h
    cases heq
    have hlength : (lowerFirst name.toList).length = name.toList.length := by
      cases name.toList with
      | nil => rfl
      | cons first rest => rfl
    exact hpack ((length_of_codes_ok hfound).trans (hlength.trans String.length_toList))
  | allToLower =>
    obtain ⟨found, hfound, heq⟩ := exists_of_except_bind_ok h
    cases heq
    refine hpack ((length_of_codes_ok hfound).trans ?_)
    rw [length_lowerAll, String.length_toList]

/-- A name that has characters takes room. -/
theorem size_pos {name : String} (h : name ≠ "") (encoder : Encoder) : 0 < encoder.size name := by
  have hpacked (bits : Nat) : 0 < bytesFor (bits + 1) := by
    rw [bytesFor]
    omega
  cases encoder with
  | utf8 => exact Nat.pos_of_ne_zero fun hzero => h (String.utf8ByteSize_eq_zero_iff.mp hzero)
  | fiveBit | sixBit | firstToLower | allToLower => exact hpacked _

/-- An eligible encoder never takes more bytes than the name has in UTF-8. -/
theorem length_encode_le {encoder : Encoder} {specials : Specials} {name : String}
    {bytes : List UInt8} (heligible : encoder.eligible (Stats.of specials name) name = true)
    (h : encoder.encode name = .ok bytes) : bytes.length ≤ name.utf8ByteSize := by
  have hsize := length_toList_le name
  have hlength := String.length_toList (s := name)
  rw [length_of_encode_ok h]
  cases encoder with
  | utf8 => exact Nat.le_refl name.utf8ByteSize
  | fiveBit =>
    simp only [eligible, pays, Bool.and_eq_true, decide_eq_true_eq] at heligible
    exact bytesFor_le_iff.mpr (by omega)
  | sixBit own =>
    have hsome : 0 < name.toList.length := by
      simp only [eligible, Stats.of, Bool.and_eq_true] at heligible
      exact Nat.lt_of_lt_of_le (of_decide_eq_true heligible.2) List.countP_le_length
    exact bytesFor_le_iff.mpr (by omega)
  | firstToLower =>
    have hsome : 0 < name.toList.length := by
      cases hname : name.toList with
      | nil => simp [eligible, hname] at heligible
      | cons first rest => exact Nat.succ_pos rest.length
    exact bytesFor_le_iff.mpr (by omega)
  | allToLower =>
    simp only [eligible, pays, Stats.of, Bool.and_eq_true] at heligible
    have hpays : (name.utf8ByteSize + name.toList.countP isUpper) * 5 < name.utf8ByteSize * 6 :=
      of_decide_eq_true heligible.2
    exact bytesFor_le_iff.mpr (by omega)

end Encoder

namespace Scheme

/-- The encoding that a scheme selects is one that it reads, and its encoder is eligible. -/
theorem select_spec (scheme : Scheme) (name : String) :
    scheme.encoderFor (scheme.select name) = .ok (scheme.encoderOf (scheme.select name)) ∧
      (scheme.encoderOf (scheme.select name)).eligible (Stats.of scheme.specials name) name
        = true := by
  unfold select
  simp only
  cases hfound : scheme.preference.find? fun encoding =>
      (scheme.encoderOf encoding).eligible (Stats.of scheme.specials name) name with
  | none => exact ⟨by simp [encoderFor], rfl⟩
  | some encoding =>
    have hmem := List.mem_of_find?_eq_some hfound
    have heligible := List.find?_some hfound
    refine ⟨?_, heligible⟩
    simp only [Option.getD_some, encoderFor, hmem, or_true, if_true]

/-- The six-bit encoder of a scheme uses the specials of the scheme. -/
theorem encoderOf_specials (scheme : Scheme) (encoding : Encoding) (own : Specials)
    (h : scheme.encoderOf encoding = .sixBit own) : own = scheme.specials := by
  cases encoding <;> cases h
  rfl

/-- Every name can be written. -/
theorem exists_encode (scheme : Scheme) (name : String) :
    ∃ bytes, scheme.encode name = .ok (scheme.select name, bytes) := by
  obtain ⟨-, heligible⟩ := scheme.select_spec name
  obtain ⟨bytes, hbytes, -⟩ :=
    Encoder.decode_encode_of_eligible (scheme.encoderOf_specials _) heligible
  refine ⟨bytes, ?_⟩
  simp only [encode, hbytes]
  rfl

/-- A written name is read back by the scheme that wrote it. -/
theorem decode_of_encode {scheme : Scheme} {name : String} {encoding : Encoding}
    {bytes : List UInt8} (h : scheme.encode name = .ok (encoding, bytes)) :
    scheme.decode encoding bytes = .ok name := by
  obtain ⟨hreader, heligible⟩ := scheme.select_spec name
  obtain ⟨own, hown, hback⟩ :=
    Encoder.decode_encode_of_eligible (scheme.encoderOf_specials _) heligible
  obtain ⟨found, hfound, heq⟩ := exists_of_except_bind_ok h
  cases heq
  cases hown.symm.trans hfound
  simp only [decode, hreader]
  exact hback

/-- A written name has the size that it has for the encoder of its encoding. -/
theorem size_of_encode {scheme : Scheme} {name : String} {encoding : Encoding}
    {bytes : List UInt8} (h : scheme.encode name = .ok (encoding, bytes)) :
    bytes.length = (scheme.encoderOf encoding).size name := by
  obtain ⟨found, hfound, heq⟩ := exists_of_except_bind_ok h
  cases heq
  exact Encoder.length_of_encode_ok hfound

/-- A written name never takes more bytes than it has in UTF-8. -/
theorem length_of_encode {scheme : Scheme} {name : String} {encoding : Encoding}
    {bytes : List UInt8} (h : scheme.encode name = .ok (encoding, bytes)) :
    bytes.length ≤ name.utf8ByteSize := by
  obtain ⟨found, hfound, heq⟩ := exists_of_except_bind_ok h
  cases heq
  exact Encoder.length_encode_le (scheme.select_spec name).2 hfound

end Scheme

/-- The five encoders, the one of six bits with the given specials. -/
def Encoder.all (specials : Specials) : List Encoder :=
  [.utf8, .fiveBit, .sixBit specials, .firstToLower, .allToLower]

/-- The encoder of six bits among the five has the given specials. -/
theorem Encoder.specials_of_mem_all {specials own : Specials} (h : sixBit own ∈ all specials) :
    own = specials := by
  simpa [all] using h

/-- Eligible encoders lose nothing. Any two characters may be the specials, as long as the name is
judged by the ones that it is written with. A scheme therefore writes every name, and reads it back
from the bytes and the flag of the encoding that it chose. -/
theorem eligible_lossless (name : String) :
    (∀ (specials : Specials) (encoder : Encoder), encoder ∈ Encoder.all specials →
      encoder.eligible (Stats.of specials name) name = true →
        ∃ bytes, encoder.encode name = .ok bytes ∧ encoder.decode bytes = .ok name) ∧
    ∀ scheme : Scheme, ∃ encoding bytes, scheme.encode name = .ok (encoding, bytes) ∧
      (do scheme.decode (← Encoding.ofFlag encoding.flag) bytes) = .ok name := by
  refine ⟨fun specials encoder hmem heligible => ?_, fun scheme => ?_⟩
  · refine Encoder.decode_encode_of_eligible (fun own heq => ?_) heligible
    rw [heq] at hmem
    exact Encoder.specials_of_mem_all hmem
  · obtain ⟨bytes, hencode⟩ := scheme.exists_encode name
    refine ⟨scheme.select name, bytes, hencode, ?_⟩
    rw [Encoding.ofFlag_flag]
    exact Scheme.decode_of_encode hencode

/-- A name with a special outside ASCII and one that is a digit. -/
theorem eligible_lossless_specials :
    Encoder.sixBit ⟨'ë', '9'⟩ ∈ Encoder.all ⟨'ë', '9'⟩ ∧
      (Encoder.sixBit ⟨'ë', '9'⟩).eligible (Stats.of ⟨'ë', '9'⟩ "Zoë9") "Zoë9" = true ∧
      ∃ bytes, (Encoder.sixBit ⟨'ë', '9'⟩).encode "Zoë9" = .ok bytes ∧
        (Encoder.sixBit ⟨'ë', '9'⟩).decode bytes = .ok "Zoë9" := by
  have hmem : Encoder.sixBit ⟨'ë', '9'⟩ ∈ Encoder.all ⟨'ë', '9'⟩ := by
    decide
  have heligible :
      (Encoder.sixBit ⟨'ë', '9'⟩).eligible (Stats.of ⟨'ë', '9'⟩ "Zoë9") "Zoë9" = true := by
    decide +kernel
  exact ⟨hmem, heligible, (eligible_lossless "Zoë9").1 _ _ hmem heligible⟩

/-- The bar that marks capitals is why not every encoder is eligible for every name. -/
example : (do Encoder.allToLower.decode (← Encoder.allToLower.encode "a|b")) = .ok "aB" := by
  decide +kernel

end SchemaWire.Name
