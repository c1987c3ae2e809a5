import SchemaWire.Name.Table
import SchemaWire.Proofs.Name.Scheme
import SchemaWire.Proofs.Varint

/-!
# Names are found again

Writer and reader of names start with the same table. Whatever the writer does with a name,
spell it out or refer to an earlier use of it, the reader finds the name and is left with
the writer's table. Both change the table with their last step, so neither of them does if it fails.
-/

namespace SchemaWire.Name

open Take (Reads)

namespace Entry

/-- The low byte of a hash is the flag of the encoding. -/
theorem hashOf_mod (bytes : List UInt8) (encoding : Encoding) :
    (hashOf bytes encoding).toNat % 256 = encoding.flag := by
  have hflag : encoding.flag < 256 := by
    cases encoding <;> decide
  have hword : (UInt64.ofNat encoding.flag).toNat = encoding.flag := by
    rw [UInt64.toNat_ofNat']
    exact Nat.mod_eq_of_lt (by omega)
  have hlow (a b : Nat) (hb : b < 2 ^ 8) : ((a &&& 0xffffffffffffff00) ||| b) % 2 ^ 8 = b := by
    rw [Nat.or_mod_two_pow, Nat.and_mod_two_pow, Nat.mod_eq_of_lt hb]
    simp
  rw [hashOf, UInt64.toNat_or, UInt64.toNat_and, hword]
  exact hlow _ _ hflag

/-- Entries with the same bytes and hashes have the same encoding. -/
theorem encoding_eq_of_same {bytes other : List UInt8} {encoding own : Encoding}
    (h : (of bytes encoding).same (of other own) = true) : bytes = other ∧ encoding = own := by
  simp only [same, of, Bool.and_eq_true, beq_iff_eq] at h
  have hflag : encoding.flag = own.flag := by
    rw [← hashOf_mod bytes encoding, h.1, hashOf_mod]
  have hencoding : Encoding.ofFlag encoding.flag = Encoding.ofFlag own.flag := by rw [hflag]
  rw [Encoding.ofFlag_flag, Encoding.ofFlag_flag] at hencoding
  exact ⟨h.2, Except.ok.inj hencoding⟩

end Entry

namespace Table

/-- A name that is spelled out is read back with its hash. -/
theorem reads_takeEntry (bytes : List UInt8) (encoding : Encoding) :
    Reads (takeEntry bytes.length)
      ((if smallName < bytes.length then LittleEndian.encode 8 (Entry.hashOf bytes encoding).toNat
        else [UInt8.ofNat encoding.flag]) ++ bytes) (.of bytes encoding) := by
  have hflag : encoding.flag < 256 := by
    cases encoding <;> decide
  have hbytes := Take.reads_bytes bytes
  rw [takeEntry]
  by_cases hsmall : smallName < bytes.length
  · rw [if_pos hsmall, if_pos hsmall]
    have hhash : (Entry.hashOf bytes encoding).toNat < 256 ^ 8 := UInt64.toNat_lt _
    refine (Take.reads_natural hhash).bind ?_
    rw [Entry.hashOf_mod]
    refine Reads.ofExcept_bind (Encoding.ofFlag_flag encoding) ?_
    rw [UInt64.ofNat_toNat]
    exact hbytes.map _
  · rw [if_neg hsmall, if_neg hsmall]
    refine (Take.reads_byte _).bind ?_
    rw [Varint.toNat_ofNat_of_lt hflag]
    refine Reads.ofExcept_bind (Encoding.ofFlag_flag encoding) ?_
    exact hbytes.map _

/-- The bytes of a name that is spelled out. -/
def spelledOut (bytes : List UInt8) (encoding : Encoding) : List UInt8 :=
  Varint.encode32 (2 * bytes.length) ++
    (if smallName < bytes.length then LittleEndian.encode 8 (Entry.hashOf bytes encoding).toNat
      else [UInt8.ofNat encoding.flag]) ++ bytes

/-- Writing a name changes the table at the very end, if at all. -/
theorem write_eq (table : Table) (scheme : Scheme) (name : String) :
    write scheme name table =
      match scheme.encode name with
      | .error e => .error e table
      | .ok (encoding, bytes) =>
        match table.findIdx? (Entry.of bytes encoding).same with
        | some index => .ok (Varint.encode32 (2 * (index + 1) + 1)) table
        | none => .ok (spelledOut bytes encoding) (table ++ [.of bytes encoding]) := by
  cases hencode : scheme.encode name with
  | error e =>
    rw [write, hencode]
    rfl
  | ok found =>
    obtain ⟨encoding, bytes⟩ := found
    rw [write, hencode]
    rw [ofExcept_bind_of_ok rfl]
    dsimp only
    rw [bind_of_ok (x := get) rfl]
    cases table.findIdx? (Entry.of bytes encoding).same with
    | some index => rfl
    | none => rfl

/-- A name can always be written. -/
theorem exists_write (table : Table) (scheme : Scheme) (name : String) :
    ∃ written after, write scheme name table = .ok written after := by
  obtain ⟨bytes, hencode⟩ := scheme.exists_encode name
  rw [write_eq, hencode]
  dsimp only
  split
  · exact ⟨_, _, rfl⟩
  · exact ⟨_, _, rfl⟩

/-- A name is referred to if the table has an entry like its own. Otherwise it is spelled out and
adds its entry. -/
theorem of_write_ok {table after : Table} {scheme : Scheme} {name : String} {written : List UInt8}
    (h : write scheme name table = .ok written after) :
    ∃ bytes encoding, scheme.encode name = .ok (encoding, bytes) ∧
      ((∃ index entry, table[index]? = some entry ∧ (Entry.of bytes encoding).same entry = true ∧
        written = Varint.encode32 (2 * (index + 1) + 1) ∧ after = table) ∨
      (.of bytes encoding ∉ table ∧ written = spelledOut bytes encoding ∧
        after = table ++ [.of bytes encoding])) := by
  rw [write_eq] at h
  split at h
  next => cases h
  next encoding bytes hencode =>
    refine ⟨bytes, encoding, hencode, ?_⟩
    split at h
    next index hfound =>
      cases h
      obtain ⟨hindex, hsame, -⟩ := List.findIdx?_eq_some_iff_getElem.mp hfound
      exact .inl ⟨index, table[index], List.getElem?_eq_getElem hindex, hsame, rfl, rfl⟩
    next hfound =>
      cases h
      have hfresh : Entry.of bytes encoding ∉ table := by
        intro hmem
        have hne := List.findIdx?_eq_none_iff.mp hfound _ hmem
        simp only [Entry.same, beq_self_eq_true, Bool.and_self] at hne
        exact absurd hne (by decide)
      exact .inr ⟨hfresh, rfl, rfl⟩

/-- Read a name by a table. With the name comes the table behind it. -/
def takeBy (table : Table) (scheme : Scheme) : Take (String × Table) := do
  let header ← Varint.take32
  if header % 2 = 1 then
    if header / 2 = 0 then throw .nameBeforeFirst
    match table[header / 2 - 1]? with
    | none => throw (.nameOutOfRange (header / 2 - 1))
    | some entry =>
      return (← MonadExcept.ofExcept (scheme.decode entry.encoding entry.bytes), table)
  else
    let entry ← takeEntry (header / 2)
    return (← MonadExcept.ofExcept (scheme.decode entry.encoding entry.bytes), table ++ [entry])

/-- A reader of bytes that succeeds leaves the names. -/
theorem ofTake_of_ok {α : Type} {reader : Take α} {input rest : List UInt8} {value : α}
    (h : reader input = .ok value rest) (table : Table) :
    ofTake reader ⟨input, table⟩ = .ok value ⟨rest, table⟩ := by
  rw [ofTake, h]

/-- A reader of bytes that fails leaves the names. -/
theorem ofTake_of_error {α : Type} {reader : Take α} {input rest : List UInt8} {e : Error}
    (h : reader input = .error e rest) (table : Table) :
    ofTake reader ⟨input, table⟩ = .error e ⟨rest, table⟩ := by
  rw [ofTake, h]

/-- Reading a name changes the table at the very end, if at all. -/
theorem take_eq (scheme : Scheme) (reading : TableReading) :
    take scheme reading =
      match takeBy reading.table scheme reading.input with
      | .ok (name, table) rest => .ok name ⟨rest, table⟩
      | .error e rest => .error e ⟨rest, reading.table⟩ := by
  obtain ⟨input, table⟩ := reading
  rw [take, takeBy]
  cases hheader : Varint.take32 input with
  | error e rest => rw [bind_of_error hheader, bind_of_error (ofTake_of_error hheader table)]
  | ok header rest =>
    rw [bind_of_ok hheader, bind_of_ok (ofTake_of_ok hheader table)]
    by_cases hodd : header % 2 = 1
    · rw [if_pos hodd, if_pos hodd]
      by_cases hzero : header / 2 = 0
      · rw [if_pos hzero, if_pos hzero]
        rfl
      · rw [if_neg hzero, if_neg hzero]
        dsimp only
        rw [bind_of_ok (x := get) rfl]
        cases table[header / 2 - 1]? with
        | none => rfl
        | some entry =>
          dsimp only
          cases scheme.decode entry.encoding entry.bytes with
          | error e => rfl
          | ok name => rfl
    · rw [if_neg hodd, if_neg hodd]
      cases hentry : takeEntry (header / 2) rest with
      | error e rest => rw [bind_of_error hentry, bind_of_error (ofTake_of_error hentry table)]
      | ok entry rest =>
        rw [bind_of_ok hentry, bind_of_ok (ofTake_of_ok hentry table)]
        cases scheme.decode entry.encoding entry.bytes with
        | error e => rfl
        | ok name => rfl

/-- Reading finds the written name and leaves the writer's table. -/
theorem reads_takeBy_of_write {table after : Table} {scheme : Scheme} {name : String}
    {written : List UInt8} (h : write scheme name table = .ok written after)
    (htable : ∀ entry ∈ table, ∃ bytes encoding, entry = .of bytes encoding)
    (hcount : table.length < 2 ^ 31 - 1)
    (hsize : ∀ encoding bytes, scheme.encode name = .ok (encoding, bytes) →
      bytes.length < 2 ^ 31) :
    Reads (takeBy table scheme) written (name, after) := by
  obtain ⟨bytes, encoding, hencode, hwritten⟩ := of_write_ok h
  have hdecode := Scheme.decode_of_encode hencode
  have hlength := hsize encoding bytes hencode
  obtain ⟨index, entry, hentry, hsame, rfl, rfl⟩ | ⟨-, rfl, rfl⟩ := hwritten
  · obtain ⟨hindex, -⟩ := List.getElem?_eq_some_iff.mp hentry
    obtain ⟨other, own, rfl⟩ := htable entry (List.mem_of_getElem? hentry)
    obtain ⟨rfl, rfl⟩ := Entry.encoding_eq_of_same hsame
    have hheader : 2 * (index + 1) + 1 < 2 ^ 32 := by omega
    have hodd : (2 * (index + 1) + 1) % 2 = 1 := by omega
    have hplace : (2 * (index + 1) + 1) / 2 = index + 1 := by omega
    refine (Varint.reads_take32 hheader).bind_nil ?_
    simp only [hodd, hplace, if_true, Nat.add_eq_zero_iff, one_ne_zero, and_false, if_false,
      Nat.add_sub_cancel, hentry]
    exact (Reads.ofExcept hdecode).map (·, after)
  · have hheader : 2 * bytes.length < 2 ^ 32 := by omega
    have heven : ¬ (2 * bytes.length) % 2 = 1 := by omega
    have hhalf : 2 * bytes.length / 2 = bytes.length := by omega
    rw [spelledOut, List.append_assoc]
    refine (Varint.reads_take32 hheader).bind ?_
    rw [if_neg heven, hhalf]
    refine (reads_takeEntry bytes encoding).bind_nil ?_
    exact (Reads.ofExcept hdecode).map (·, table ++ [.of bytes encoding])

/-- Reading a name adds what it adds to every table that starts with the table after it. -/
theorem exists_of_takeBy_ok {table after : Table} {scheme : Scheme} {input rest : List UInt8}
    {name : String} (h : takeBy table scheme input = .ok (name, after) rest) :
    ∃ added, after = table ++ added ∧
      ∀ other, after <+: other → takeBy other scheme input = .ok (name, other ++ added) rest := by
  obtain ⟨header, between, hheader, h⟩ := exists_of_bind_ok h
  by_cases hodd : header % 2 = 1
  · rw [if_pos hodd] at h
    by_cases hzero : header / 2 = 0
    · rw [if_pos hzero] at h
      cases h
    · rw [if_neg hzero] at h
      cases hentry : table[header / 2 - 1]? with
      | none =>
        simp only [hentry] at h
        cases h
      | some entry =>
        simp only [hentry] at h
        obtain ⟨decoded, last, hdecoded, h⟩ := exists_of_bind_ok h
        cases h
        refine ⟨[], (List.append_nil _).symm, fun other hother => ?_⟩
        refine (bind_of_ok hheader).trans ?_
        rw [if_pos hodd, if_neg hzero, List.append_nil]
        simp only [getElem?_of_starts hother hentry]
        exact bind_of_ok hdecoded
  · rw [if_neg hodd] at h
    obtain ⟨entry, middle, hentry, h⟩ := exists_of_bind_ok h
    obtain ⟨decoded, last, hdecoded, h⟩ := exists_of_bind_ok h
    cases h
    refine ⟨[entry], rfl, fun other _ => ?_⟩
    refine (bind_of_ok hheader).trans ?_
    rw [if_neg hodd]
    exact (bind_of_ok hentry).trans (bind_of_ok hdecoded)

end Table

end SchemaWire.Name
