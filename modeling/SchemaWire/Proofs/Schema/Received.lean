import SchemaWire.Proofs.Name.Received
import SchemaWire.Proofs.Schema.Encodable
import SchemaWire.Proofs.Schema.Streamed

/-!
# Schemas out of any bytes

What a schema is like that was read from a blob, whoever wrote the blob. It has been normalized, its
types have kinds and as many nested types as these ask for, and the ids of nested types leave room
for two flags, so it can be written again unless a field has no name. Reading is more tolerant than
writing: it takes long spellings of numbers and any encoding of a name. Written again, the schema
takes at most twice the bytes that it was read from, and is read back as the same schema.
-/

namespace SchemaWire

open Take (Yields)

namespace WireType

/-- What nested types are like that were read. -/
structure Received (count : Nat) (types : List WireType) (used : Nat) : Prop where
  /-- As many types were read as were asked for. -/
  length : types.length = count
  /-- All types in them are complete, with ids that leave room for the flags. -/
  nodes : ∀ node ∈ withinArgs types, node.IsComplete ∧ node.id.toNat < 2 ^ 30
  /-- Written again they take at most the bytes that they were read from. -/
  size : ∀ bytes, encodeNested types = .ok bytes → bytes.length ≤ used

/-- The number of nested types is the one that the kind of the id asks for. -/
theorem yields_takeArity (id : UInt32) :
    Yields (takeArity id) fun count used => used = 0 ∧ ∀ args : List WireType,
      args.length = count → ∀ nullable tracked, IsComplete ⟨id, nullable, tracked, args⟩ := by
  refine Yields.bind (P := fun kind used => kindOf id = .ok kind ∧ used = 0)
    (.ofExcept fun kind hkind => ⟨hkind, rfl⟩) ?_
  rintro kind _ ⟨hkind, rfl⟩
  exact .pure ⟨rfl, fun args hargs _ _ => isComplete_iff.mpr ⟨kind, hkind, hargs⟩⟩

/-- A nested type is made of its id and its flags. -/
theorem nestedWord_of_word {word : Nat} (h : word < 2 ^ 32) (args : List WireType) :
    nestedWord ⟨UInt32.ofNat (word / 4), word / 2 % 2 == 1, word % 2 == 1, args⟩ = word ∧
      (UInt32.ofNat (word / 4)).toNat < 2 ^ 30 := by
  have hid : (UInt32.ofNat (word / 4)).toNat = word / 4 := by
    rw [UInt32.toNat_ofNat']
    exact Nat.mod_eq_of_lt (by omega)
  have hbit (n : Nat) : (n % 2 == 1).toNat = n % 2 := by
    rcases Nat.mod_two_eq_zero_or_one n with hn | hn <;> rw [hn] <;> rfl
  rw [nestedWord, hid, hbit, hbit]
  omega

/-- What is written for the arguments of a type are its nested types. -/
theorem encodeNested_of_encodeArgs {t : WireType} {bytes : List UInt8}
    (h : t.encodeArgs = .ok bytes) : encodeNested t.args = .ok bytes := by
  cases t
  obtain ⟨kind, -, h⟩ := exists_of_except_bind_ok h
  split at h
  next => cases h
  next => exact h

/-- What is written for nested types is the word of the first one, its nested types and the other
types. -/
theorem of_encodeNested_cons {t : WireType} {rest : List WireType} {bytes : List UInt8}
    (h : encodeNested (t :: rest) = .ok bytes) :
    ∃ args others, encodeNested t.args = .ok args ∧ encodeNested rest = .ok others ∧
      bytes = Varint.encode32 t.nestedWord ++ args ++ others := by
  rw [encodeNested] at h
  split at h
  next => cases h
  next =>
    obtain ⟨args, hargs, h⟩ := exists_of_except_bind_ok h
    obtain ⟨others, hothers, heq⟩ := exists_of_except_bind_ok h
    cases heq
    exact ⟨args, others, encodeNested_of_encodeArgs hargs, hothers, rfl⟩

/-- Nested types that were read can be written again. -/
theorem yields_takeNested (budget count : Nat) :
    Yields (takeNested budget count) (Received count) := by
  have hnone : Received 0 [] 0 := ⟨rfl, nofun, by rintro _ ⟨⟩; exact Nat.le_refl 0⟩
  induction budget generalizing count with
  | zero =>
    cases count with
    | zero => exact .pure hnone
    | succ count => exact .throw _
  | succ budget ih =>
    cases count with
    | zero => exact .pure hnone
    | succ count =>
      rw [takeNested]
      refine Varint.yields_take32.bind ?_
      rintro word first ⟨hword, hfirst⟩
      refine (yields_takeArity _).bind ?_
      rintro arity _ ⟨rfl, hcomplete⟩
      refine (ih arity).bind fun args between hargs => ?_
      refine (ih count).bind fun others last hothers => .pure ?_
      obtain ⟨hsame, hid⟩ := nestedWord_of_word hword args
      refine ⟨by rw [List.length_cons, hothers.length], ?_, fun bytes hbytes => ?_⟩
      · rw [withinArgs, within_eq]
        simp only [List.cons_append, List.forall_mem_cons, List.forall_mem_append]
        exact ⟨⟨hcomplete args hargs.length _ _, hid⟩, hargs.nodes, hothers.nodes⟩
      · obtain ⟨own, rest, hown, hrest, rfl⟩ := of_encodeNested_cons hbytes
        have hownSize := hargs.size own hown
        have hrestSize := hothers.size rest hrest
        rw [hsame]
        simp only [List.length_append]
        omega

/-- The nested types of a type that were read can be written again, and the type is complete. -/
theorem yields_takeArgs (id : UInt32) :
    Yields (takeArgs id) fun args used => Received args.length args used ∧
      ∀ nullable tracked, IsComplete ⟨id, nullable, tracked, args⟩ := by
  refine (yields_takeArity id).bind ?_
  rintro count _ ⟨rfl, hcomplete⟩ input args rest h
  obtain ⟨used, hused, hargs⟩ := yields_takeNested input.length count input args rest h
  refine ⟨used, hused, ?_, hcomplete args hargs.length⟩
  rw [Nat.zero_add, hargs.length]
  exact hargs

end WireType

namespace Schema

/-- The excess of a length that was read is not longer than the one that it was read from. -/
theorem yields_takeLength {limit n : Nat} (h : n ≤ limit) :
    Yields (takeLength limit n) fun length used => (excess limit length).length ≤ used := by
  unfold takeLength takeLengthWith
  by_cases hlimit : n = limit
  · rw [if_pos hlimit]
    refine Varint.yields_take32.bind ?_
    rintro more used ⟨-, hused⟩
    refine .pure ?_
    rw [hlimit, excess, if_pos (Nat.le_add_right limit more), Nat.add_sub_cancel_left]
    exact hused
  · rw [if_neg hlimit]
    refine .pure ?_
    rw [excess, if_neg (by omega)]
    exact Nat.le_refl 0

/-- An excess has at most five bytes, and none below the limit. -/
theorem length_excess_le (limit n : Nat) :
    (excess limit n).length ≤ 5 ∧ (n < limit → (excess limit n).length = 0) := by
  unfold excess
  by_cases h : limit ≤ n
  · rw [if_pos h]
    exact ⟨Varint.length_groups_le 4 _, fun hlt => absurd h (Nat.not_le.mpr hlt)⟩
  · rw [if_neg h]
    exact ⟨Nat.zero_le 5, fun _ => rfl⟩

/-- The name of a namespace or a type takes at most twice the bytes it was read from when it is
written again. -/
theorem yields_takeName {scheme : Name.Scheme} (h : scheme.IsNarrow) :
    Yields (takeName scheme) fun name used => ∀ bytes, encodeName scheme name = .ok bytes →
      bytes.length ≤ 2 * used := by
  refine Take.yields_byte.bind ?_
  rintro mark _ rfl
  have hmark := mark.toNat_lt
  refine Yields.bind (P := fun _ used => used = 0) (.ofExcept fun _ _ => rfl) ?_
  rintro encoding _ rfl
  refine (yields_takeLength (by unfold nameLimit; omega)).bind fun size between hbetween => ?_
  refine (Take.yields_bytes size).bind ?_
  rintro content _ ⟨hcontent, rfl⟩
  refine .ofExcept fun name hname bytes hbytes => ?_
  obtain ⟨⟨own, written⟩, hwritten, heq⟩ := exists_of_except_bind_ok hbytes
  cases heq
  have hgrown := Name.Scheme.utf8ByteSize_of_decode h hname
  have hshort := Name.Scheme.length_of_encode hwritten
  obtain ⟨hexcess, hnone⟩ := length_excess_le nameLimit written.length
  simp only [List.length_append, List.length_cons]
  by_cases hlimit : written.length < nameLimit
  · rw [hnone hlimit]
    omega
  · unfold nameLimit at *
    omega

end Schema

/-- What a field is like that was read: its type has its flags, the types in it are complete, and
the ids of nested types leave room for two flags. -/
structure SchemaField.Received (field : SchemaField) : Prop where
  /-- The flags of the type are those of the field. -/
  normalized : field.normalized = field
  /-- The types in the field have kinds, and as many nested types as these ask for. -/
  types : ∀ node ∈ field.type.within, node.IsComplete
  /-- The ids of nested types leave room for two flags. -/
  nested : ∀ node ∈ WireType.withinArgs field.type.args, node.id.toNat < 2 ^ 30

namespace Schema

/-- What is written for a field. -/
theorem of_encodeField_ok {field : SchemaField} {bytes : List UInt8}
    (h : encodeField field = .ok bytes) :
    ∃ encoding content args mark, Name.Scheme.field.encode field.name = .ok (encoding, content) ∧
      WireType.encodeNested field.type.args = .ok args ∧
      bytes = mark :: excess fieldNameLimit (content.length - 1)
        ++ Varint.encode32 field.type.id.toNat ++ args ++ content := by
  obtain ⟨⟨encoding, content⟩, hencode, h⟩ := exists_of_except_bind_ok h
  simp only at h
  split at h
  next => cases h
  next =>
    obtain ⟨args, hargs, heq⟩ := exists_of_except_bind_ok h
    cases heq
    exact ⟨encoding, content, args, _, hencode, WireType.encodeNested_of_encodeArgs hargs, rfl⟩

/-- A field that was read can be written again if it has a name, in at most twice its bytes. -/
theorem yields_takeField : Yields takeField fun field used => field.Received ∧
    ∀ bytes, encodeField field = .ok bytes → bytes.length ≤ 2 * used := by
  refine Take.yields_byte.bind ?_
  rintro mark _ rfl
  refine Yields.bind (P := fun _ used => used = 0) (.ofExcept fun _ _ => rfl) ?_
  rintro encoding _ rfl
  refine (yields_takeLength (by unfold fieldNameLimit; omega)).bind fun size between hbetween => ?_
  refine Varint.yields_take32.bind ?_
  rintro id first ⟨hid, hfirst⟩
  refine (WireType.yields_takeArgs _).bind ?_
  rintro args second ⟨hargs, hcomplete⟩
  refine (Take.yields_bytes (size + 1)).bind ?_
  rintro content _ ⟨hcontent, rfl⟩
  refine Yields.bind
    (P := fun name used => used = 0 ∧ Name.Scheme.field.decode encoding content = .ok name)
    (.ofExcept fun name hname => ⟨rfl, hname⟩) ?_
  rintro name _ ⟨rfl, hname⟩
  refine .pure ⟨⟨rfl, ?_, fun node hnode => (hargs.nodes node hnode).2⟩, fun bytes hbytes => ?_⟩
  · rw [WireType.within_eq, List.forall_mem_cons]
    exact ⟨hcomplete _ _, fun node hnode => (hargs.nodes node hnode).1⟩
  · obtain ⟨own, written, nested, mark, hwritten, hnested, rfl⟩ := of_encodeField_ok hbytes
    have hgrown := Name.Scheme.utf8ByteSize_of_decode (by decide) hname
    have hshort : written.length ≤ name.utf8ByteSize := Name.Scheme.length_of_encode hwritten
    have hnestedSize := hargs.size nested hnested
    have hidSame : (UInt32.ofNat id).toNat = id := by
      rw [UInt32.toNat_ofNat']
      exact Nat.mod_eq_of_lt hid
    obtain ⟨hexcess, hnone⟩ := length_excess_le fieldNameLimit (written.length - 1)
    simp only [List.length_append, List.length_cons, hidSame]
    by_cases hlimit : written.length - 1 < fieldNameLimit
    · rw [hnone hlimit]
      omega
    · unfold fieldNameLimit at *
      omega

/-- Fields that were read can be written again if they have names, in at most twice their bytes. -/
theorem yields_takeFields (count : Nat) : Yields (Take.times takeField count) fun fields used =>
    fields.length = count ∧ (∀ field ∈ fields, field.Received) ∧
      ∀ bytes, encodeFields fields = .ok bytes → bytes.length ≤ 2 * used := by
  induction count with
  | zero => exact .pure ⟨rfl, nofun, by rintro _ ⟨⟩; exact Nat.le_refl 0⟩
  | succ count ih =>
    refine yields_takeField.bind ?_
    rintro field first ⟨hfield, hfirst⟩
    refine ih.bind ?_
    rintro rest last ⟨hlength, hrest, hlast⟩
    refine .pure ⟨congrArg (· + 1) hlength, List.forall_mem_cons.mpr ⟨hfield, hrest⟩,
      fun bytes hbytes => ?_⟩
    obtain ⟨own, hown, h⟩ := exists_of_except_bind_ok hbytes
    obtain ⟨others, hothers, heq⟩ := exists_of_except_bind_ok h
    cases heq
    have hownSize := hfirst own hown
    have hothersSize := hlast others hothers
    rw [List.length_append]
    omega

/-- What a schema is like that was read: it has been normalized, and so has been everything in its
fields. -/
structure Received (schema : Schema) : Prop where
  /-- A blob holds nothing of the schema but what was read. -/
  normalized : schema.normalized = schema
  /-- The fields were read. -/
  fields : ∀ field ∈ schema.fields, field.Received

/-- A schema that was read can be written again exactly if its fields have names. -/
theorem Received.encodable_iff {schema : Schema} (h : schema.Received) :
    schema.Encodable ↔ ∀ field ∈ schema.fields, field.name ≠ "" :=
  ⟨fun hencodable => hencodable.names, fun hnames =>
    ⟨hnames, fun field hfield => (h.fields field hfield).types,
      fun field hfield => (h.fields field hfield).nested⟩⟩

/-- What is written for the body of a blob. -/
theorem of_encodeBody_ok {schema : Schema} {bytes : List UInt8}
    (h : schema.encodeBody = .ok bytes) :
    ∃ identity fields mark, schema.encodeIdentity = .ok identity ∧
      encodeFields schema.fields = .ok fields ∧
      bytes = mark :: excess countLimit schema.fields.length ++ identity ++ fields := by
  obtain ⟨identity, hidentity, h⟩ := exists_of_except_bind_ok h
  obtain ⟨fields, hfields, heq⟩ := exists_of_except_bind_ok h
  cases heq
  exact ⟨identity, fields, _, hidentity, hfields, rfl⟩

/-- Fields that were read have been normalized. -/
theorem map_normalized {fields : List SchemaField} (h : ∀ field ∈ fields, field.Received) :
    fields.map SchemaField.normalized = fields :=
  (List.map_congr_left fun field hfield => (h field hfield).normalized).trans (List.map_id _)

/-- The body of a blob that was read takes at most twice its bytes when it is written again. -/
theorem yields_takeBody : Yields takeBody fun schema used => schema.Received ∧
    ∀ bytes, schema.encodeBody = .ok bytes → bytes.length ≤ 2 * used := by
  refine Take.yields_byte.bind ?_
  rintro mark _ rfl
  refine (yields_takeLength (by unfold countLimit; omega)).bind fun count between hbetween => ?_
  -- the fields and their number are written again in the same way for both kinds of registration
  have hrewritten {schema : Schema} {last : Nat} (used : Nat)
      (hlength : schema.fields.length = count)
      (hidentity : ∀ bytes, schema.encodeIdentity = .ok bytes → bytes.length ≤ 2 * used)
      (hfields : ∀ bytes, encodeFields schema.fields = .ok bytes → bytes.length ≤ 2 * last)
      (bytes : List UInt8) (hbytes : schema.encodeBody = .ok bytes) :
      bytes.length ≤ 2 * (1 + (between + (used + last))) := by
    obtain ⟨identity, fields, mark, hown, hrest, rfl⟩ := of_encodeBody_ok hbytes
    have hownSize := hidentity identity hown
    have hrestSize := hfields fields hrest
    simp only [List.length_append, List.length_cons, hlength]
    omega
  by_cases hbyName : mark.toNat / 32 % 2 = 1
  · rw [if_pos hbyName]
    refine (yields_takeName (by decide)).bind fun space first hspace => ?_
    refine (yields_takeName (by decide)).bind fun name second hname => ?_
    refine (yields_takeFields count).bind ?_
    rintro fields last ⟨hlength, hall, hfields⟩
    refine .pure ⟨⟨?_, hall⟩, fun bytes hbytes => ?_⟩
    · exact congrArg (Schema.mk true 0 space name) (map_normalized hall)
    · have hsize := hrewritten (first + second) hlength (fun bytes h => ?_) hfields _ hbytes
      · omega
      · obtain ⟨ownSpace, hownSpace, h⟩ := exists_of_except_bind_ok h
        obtain ⟨ownName, hownName, heq⟩ := exists_of_except_bind_ok h
        cases heq
        have hfirst := hspace ownSpace hownSpace
        have hsecond := hname ownName hownName
        rw [List.length_append]
        omega
  · rw [if_neg hbyName]
    refine Varint.yields_take32.bind ?_
    rintro id first ⟨hid, hfirst⟩
    refine (yields_takeFields count).bind ?_
    rintro fields last ⟨hlength, hall, hfields⟩
    refine .pure ⟨⟨?_, hall⟩, fun bytes hbytes => ?_⟩
    · exact congrArg (Schema.mk false (UInt32.ofNat id) "" "") (map_normalized hall)
    · have hsize := hrewritten first hlength (fun bytes h => ?_) hfields _ hbytes
      · omega
      · cases h
        rw [UInt32.toNat_ofNat', Nat.mod_eq_of_lt hid]
        omega

/-- A body that was read is all there is. -/
theorem takeBody_of_ofBody_ok {body : List UInt8} {schema : Schema}
    (h : ofBody body = .ok schema) : takeBody body = .ok schema [] := by
  unfold ofBody at h
  split at h
  next => cases h
  next found rest hbody =>
    split at h
    next hempty =>
      cases h
      rw [hbody, List.isEmpty_iff.mp hempty]
    next => cases h

/-- A schema out of any bytes can be written again if its fields have names. Its body then takes at
most twice the bytes that were taken. -/
theorem yields_take : Yields take fun schema used => schema.Received ∧
    ∀ bytes, schema.encodeBody = .ok bytes → bytes.length ≤ 2 * used := by
  rw [take_eq]
  refine (Take.yields_bytes 8).bind ?_
  rintro word _ ⟨-, rfl⟩
  refine (yields_takeLength (by unfold sizeLimit; omega)).bind fun size between _ => ?_
  refine (Take.yields_bytes size).bind ?_
  rintro body _ ⟨hbody, rfl⟩
  refine .ofExcept fun schema h => ?_
  unfold verified at h
  split at h
  next => cases h
  next =>
    obtain ⟨used, hused, hreceived, hsize⟩ :=
      yields_takeBody body schema [] (takeBody_of_ofBody_ok h)
    refine ⟨hreceived, fun bytes hbytes => ?_⟩
    have hwritten := hsize bytes hbytes
    rw [List.length_nil] at hused
    omega

end Schema

/-- A schema out of any bytes, whoever wrote them, can be written again exactly if its fields have
names. Then the blob is read back as the same schema, if fewer than two to the 31 bytes were read,
and nothing behind it is touched. A field has no name exactly where the name was packed into a
single byte that has the strip flag. -/
theorem received_encodable {input rest : List UInt8} {schema : Schema}
    (h : Schema.take input = .ok schema rest) :
    ((∃ blob, schema.encode = .ok blob) ↔ ∀ field ∈ schema.fields, field.name ≠ "") ∧
    (input.length < rest.length + 2 ^ 31 → ∀ blob, schema.encode = .ok blob →
      ∀ back, Schema.take (blob ++ back) = .ok schema back) ∧
    ∀ (encoding : Name.Encoding) (first : UInt8) (others : List UInt8),
      Name.Scheme.field.decode encoding (first :: others) = .ok "" ↔
        encoding ∈ [.sixBit, .allToLower] ∧ others = [] ∧ 128 ≤ first.toNat := by
  obtain ⟨used, hused, hreceived, hsize⟩ := Schema.yields_take input schema rest h
  refine ⟨?_, fun hlength blob hblob back => ?_, fun encoding first others => ?_⟩
  · rw [Schema.exists_encode_iff_encodable, hreceived.encodable_iff]
  · obtain ⟨body, hbody, rfl⟩ := Schema.exists_body_of_encode hblob
    have hwritten := hsize body hbody
    have hread := Schema.reads_take_of_encodeBody hbody (by omega) back
    rwa [hreceived.normalized] at hread
  · rw [Name.Scheme.decode_eq_empty_iff (by decide) (List.cons_ne_nil _ _)]
    constructor
    · rintro ⟨-, hmem, byte, hbyte, hstrip⟩
      obtain ⟨rfl, rfl⟩ := List.cons.inj hbyte
      exact ⟨hmem, rfl, hstrip⟩
    · rintro ⟨hmem, rfl, hstrip⟩
      exact ⟨ne_of_mem_of_not_mem hmem (by decide), hmem, first, rfl, hstrip⟩

namespace Sample

/-- What a reader comes to on fixed bytes is compared by evaluation. -/
instance decidableEqResult : DecidableEq (EStateM.Result Error (List UInt8) Schema)
  | .ok a rest, .ok b back =>
    decidable_of_iff (a = b ∧ rest = back) (EStateM.Result.ok.injEq a rest b back ▸ Iff.rfl)
  | .error d rest, .error e back =>
    decidable_of_iff (d = e ∧ rest = back) (EStateM.Result.error.injEq d rest e back ▸ Iff.rfl)
  | .ok _ _, .error _ _ => isFalse nofun
  | .error _ _, .ok _ _ => isFalse nofun

/-- A schema with an optional list. -/
def logbook : Schema where
  byName := true
  typeId := 0
  space := "Ab"
  name := "Log"
  fields := [⟨"ab", true, false, ⟨21, true, false, [⟨3, true, false, []⟩]⟩⟩]

/-- A schema with a field that has no name. -/
def nameless : Schema where
  byName := false
  typeId := 272
  space := ""
  name := ""
  fields := [⟨"", false, false, ⟨3, false, false, []⟩⟩]

/-- A blob that no writer produces: it lacks the flag for the presence of fields, its numbers have
bytes to spare, and its names are packed in encodings that are not chosen for them. -/
def looseBlob : List UInt8 :=
  [17, 128, 65, 121, 94, 160, 198, 10, 33, 10, 52, 8, 13, 117, 110, 48, 134, 149, 128, 0, 142, 128,
    0, 0, 8]

/-- A blob in which the name of the field is packed into one byte, with the strip flag. -/
def namelessBlob : List UInt8 := [6, 208, 89, 122, 7, 194, 91, 53, 1, 144, 2, 128, 3, 128]

end Sample

/-- A blob that no writer produces is read, and its schema is written and read back. -/
theorem received_encodable_loose :
    Schema.take (Sample.looseBlob ++ [7]) = .ok Sample.logbook [7] ∧
      ∃ blob, Sample.logbook.encode = .ok blob ∧ blob ≠ Sample.looseBlob ∧
        Schema.take (blob ++ [1, 2]) = .ok Sample.logbook [1, 2] := by
  have hread : Schema.take (Sample.looseBlob ++ [7]) = .ok Sample.logbook [7] := by
    decide +kernel
  have hspec := received_encodable hread
  obtain ⟨blob, hblob⟩ := hspec.1.mpr (by decide)
  have hother : ∀ blob ∈ Sample.logbook.encode.toOption, blob ≠ Sample.looseBlob := by
    decide +kernel
  exact ⟨hread, blob, hblob, hother blob (by rw [hblob]; rfl),
    hspec.2.1 (by decide) blob hblob [1, 2]⟩

/-- A blob is read whose schema cannot be written: the name of its field is empty. -/
theorem received_nameless :
    Schema.take Sample.namelessBlob = .ok Sample.nameless [] ∧
      Sample.nameless.encode = .error .emptyFieldName := by
  decide +kernel

end SchemaWire
