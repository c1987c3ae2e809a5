import SchemaWire.Proofs.Data.RoundTrip
import SchemaWire.Proofs.Message.Encode

/-!
# Parts that are left out

A program may leave out fields of a struct that it writes. What stands behind such a field would be
read in its place, so a struct that lacks a field is never written, wherever it stands. Nothing
keeps a variant from lacking parts, though: what is written is the variant without them.
-/

namespace SchemaWire

namespace Datum

mutual

/-- Whether a struct in the value lacks a field. -/
def lacksField : Datum → Bool
  | .some content | .newtype content | .newtypeVariant _ _ _ content => content.lacksField
  | .seq _ content | .tuple content | .tupleVariant _ _ _ content => lacksFieldInItems content
  | .map _ content => lacksFieldInEntries content
  | .struct _ content => lacksFieldInFields content
  | .structVariant _ _ _ content => lacksFieldInMembers content
  | _ => false

/-- Whether a struct in one of the values lacks a field. -/
def lacksFieldInItems : List Datum → Bool
  | [] => false
  | first :: rest => first.lacksField || lacksFieldInItems rest

/-- Whether a struct in one of the entries lacks a field. -/
def lacksFieldInEntries : List (Datum × Datum) → Bool
  | [] => false
  | (key, value) :: rest => key.lacksField || value.lacksField || lacksFieldInEntries rest

/-- Whether a field is left out, or a struct in one of the fields lacks a field. -/
def lacksFieldInFields : List (String × Datum) → Bool
  | [] => false
  | (_, .absent) :: _ => true
  | (_, value) :: rest => value.lacksField || lacksFieldInFields rest

/-- Whether a struct in one of the parts of a variant lacks a field. -/
def lacksFieldInMembers : List (String × Datum) → Bool
  | [] => false
  | (_, value) :: rest => value.lacksField || lacksFieldInMembers rest

end

mutual

/-- The value without the parts that its variants leave out. -/
def withoutGaps : Datum → Datum
  | .some content => .some content.withoutGaps
  | .newtype content => .newtype content.withoutGaps
  | .seq sized content => .seq sized (itemsWithoutGaps content)
  | .tuple content => .tuple (itemsWithoutGaps content)
  | .map sized content => .map sized (entriesWithoutGaps content)
  | .struct name content => .struct name (fieldsWithoutGaps content)
  | .newtypeVariant enum index variant content =>
    .newtypeVariant enum index variant content.withoutGaps
  | .tupleVariant enum index variant content =>
    .tupleVariant enum index variant (itemsWithoutGaps content)
  | .structVariant enum index variant content =>
    .structVariant enum index variant (membersWithoutGaps content)
  | value => value

/-- Values without the parts that their variants leave out. -/
def itemsWithoutGaps : List Datum → List Datum
  | [] => []
  | first :: rest => first.withoutGaps :: itemsWithoutGaps rest

/-- Entries without the parts that their variants leave out. -/
def entriesWithoutGaps : List (Datum × Datum) → List (Datum × Datum)
  | [] => []
  | (key, value) :: rest => (key.withoutGaps, value.withoutGaps) :: entriesWithoutGaps rest

/-- Fields without the parts that their variants leave out. -/
def fieldsWithoutGaps : List (String × Datum) → List (String × Datum)
  | [] => []
  | (name, value) :: rest => (name, value.withoutGaps) :: fieldsWithoutGaps rest

/-- The parts of a variant that are not left out, without the parts that their variants leave
out. -/
def membersWithoutGaps : List (String × Datum) → List (String × Datum)
  | [] => []
  | (_, .absent) :: rest => membersWithoutGaps rest
  | (name, value) :: rest => (name, value.withoutGaps) :: membersWithoutGaps rest

end

/-- There are as many values without the gaps as with them. -/
theorem length_itemsWithoutGaps (content : List Datum) :
    (itemsWithoutGaps content).length = content.length := by
  induction content with
  | nil => rfl
  | cons first rest ih => rw [itemsWithoutGaps, List.length_cons, List.length_cons, ih]

/-- There are as many entries without the gaps as with them. -/
theorem length_entriesWithoutGaps (content : List (Datum × Datum)) :
    (entriesWithoutGaps content).length = content.length := by
  induction content with
  | nil => rfl
  | cons first rest ih =>
    obtain ⟨key, value⟩ := first
    rw [entriesWithoutGaps, List.length_cons, List.length_cons, ih]

/-- A value that is not left out is not left out without its gaps either. -/
theorem withoutGaps_ne_absent {value : Datum} (h : value ≠ .absent) :
    value.withoutGaps ≠ .absent := by
  cases value <;> first | exact absurd rfl h | exact nofun

end Datum

namespace Write

variable {env : WriteEnv}

mutual

/-- A value is written like the value without its gaps. -/
theorem datum_withoutGaps : (v : Datum) → (depth : Nat) → (place : Place) →
    datum env depth place v.withoutGaps = datum env depth place v
  | .some content, depth, place => by
    rw [Datum.withoutGaps]
    cases place with
    | plain => rw [datum, datum, datum_withoutGaps content]
    | declared =>
      rw [datum, datum, datum_withoutGaps content]
      · exact nofun
      · exact nofun
  | .newtype content, depth, place => by
    rw [Datum.withoutGaps, datum, datum, datum_withoutGaps content]
  | .seq sized content, depth, place => by
    rw [Datum.withoutGaps, datum, datum]
    simp only [items_withoutGaps content, Datum.length_itemsWithoutGaps]
  | .tuple content, depth, place => by
    rw [Datum.withoutGaps, datum, datum]
    simp only [items_withoutGaps content]
  | .map sized content, depth, place => by
    rw [Datum.withoutGaps, datum, datum]
    simp only [entries_withoutGaps content, Datum.length_entriesWithoutGaps]
  | .struct name content, depth, place => by
    rw [Datum.withoutGaps, datum, datum]
    simp only [fields_withoutGaps content, members_fieldsWithoutGaps content]
  | .newtypeVariant enum index name content, depth, place => by
    rw [Datum.withoutGaps, datum, datum, datum_withoutGaps content]
  | .tupleVariant enum index name content, depth, place => by
    rw [Datum.withoutGaps, datum, datum, items_withoutGaps content]
  | .structVariant enum index name content, depth, place => by
    rw [Datum.withoutGaps, datum, datum, members_withoutGaps content]
  | .bool _, _, _ | .int _ _, _, _ | .float32 _, _, _ | .float64 _, _, _ | .char _, _, _
  | .text _, _, _ | .bytes _, _, _ | .unit, _, _ | .none, _, _ | .firstEntry _ _, _, _
  | .unitVariant _ _ _, _, _ | .choice _, _, _ | .absent, _, _ | .refused _, _, _ => by
    simp only [Datum.withoutGaps]

/-- Values are written like the values without their gaps. -/
theorem items_withoutGaps : (content : List Datum) → (depth : Nat) → (place : Place) →
    items env depth place (Datum.itemsWithoutGaps content) = items env depth place content
  | [], _, _ => by rw [Datum.itemsWithoutGaps]
  | first :: rest, depth, place => by
    rw [Datum.itemsWithoutGaps, items, items, datum_withoutGaps first, items_withoutGaps rest]

/-- Entries are written like the entries without their gaps. -/
theorem entries_withoutGaps : (content : List (Datum × Datum)) → (depth : Nat) →
    (keyPlace valuePlace : Place) →
    entries env depth keyPlace valuePlace (Datum.entriesWithoutGaps content) =
      entries env depth keyPlace valuePlace content
  | [], _, _, _ => by rw [Datum.entriesWithoutGaps]
  | (key, value) :: rest, depth, keyPlace, valuePlace => by
    rw [Datum.entriesWithoutGaps, entries, entries, datum_withoutGaps key, datum_withoutGaps value,
      entries_withoutGaps rest]

/-- The fields of a declared struct are written like the fields without their gaps. -/
theorem fields_withoutGaps : (content : List (String × Datum)) → (depth : Nat) →
    (declared : List FieldDescriptor) →
    fields env depth declared (Datum.fieldsWithoutGaps content) = fields env depth declared content
  | [], _, _ => by rw [Datum.fieldsWithoutGaps]
  | (name, value) :: rest, depth, declared => by
    rw [Datum.fieldsWithoutGaps]
    -- The writer looks for a field that is left out before anything else.
    by_cases habsent : value = .absent
    · subst habsent
      rw [Datum.withoutGaps]
      · cases declared <;> rw [fields, fields]
      all_goals exact nofun
    · have hkept := Datum.withoutGaps_ne_absent habsent
      cases declared with
      | nil => rw [fields_nil_cons habsent, fields_nil_cons hkept]
      | cons field others =>
        rw [fields_cons habsent, fields_cons hkept,
          datum_withoutGaps value, fields_withoutGaps rest]

/-- The fields of a plain struct are written like the fields without their gaps. -/
theorem members_fieldsWithoutGaps : (content : List (String × Datum)) → (depth : Nat) →
    members env depth false (Datum.fieldsWithoutGaps content) = members env depth false content
  | [], _ => by rw [Datum.fieldsWithoutGaps]
  | (name, value) :: rest, depth => by
    rw [Datum.fieldsWithoutGaps]
    by_cases habsent : value = .absent
    · subst habsent
      rw [Datum.withoutGaps]
      · rw [members, members]
        rfl
      all_goals exact nofun
    · have hkept := Datum.withoutGaps_ne_absent habsent
      rw [members_cons habsent, members_cons hkept,
        datum_withoutGaps value, members_fieldsWithoutGaps rest]

/-- The parts of a variant are written like those that are not left out. -/
theorem members_withoutGaps : (content : List (String × Datum)) → (depth : Nat) →
    members env depth true (Datum.membersWithoutGaps content) = members env depth true content
  | [], _ => by rw [Datum.membersWithoutGaps]
  | (name, value) :: rest, depth => by
    by_cases habsent : value = .absent
    · subst habsent
      rw [Datum.membersWithoutGaps, members, members_withoutGaps rest]
      rfl
    · have hkept := Datum.withoutGaps_ne_absent habsent
      rw [Datum.membersWithoutGaps, members_cons habsent,
        members_cons hkept, datum_withoutGaps value, members_withoutGaps rest]
      exact habsent

end

/-- Behind annotations the content is written in some layout. -/
theorem exists_of_behind_ok {place : Place} {content : Layout → Write (List UInt8)}
    {before after : WriteTables} {bytes : List UInt8}
    (h : behind env place content before = .ok bytes after) :
    ∃ layout between inner last, content layout between = .ok inner last := by
  obtain ⟨⟨head, layout⟩, between, -, h⟩ := exists_of_bind_ok h
  obtain ⟨inner, last, hcontent, -⟩ := exists_of_bind_ok h
  exact ⟨layout, between, inner, last, hcontent⟩

/-- Where elements are written behind their number, they are written. -/
theorem exists_of_sized_ok {sized : Bool} {count : Nat} {writer : Write (List UInt8)}
    {before after : WriteTables} {bytes : List UInt8}
    (h : (do
      let front ← size sized count
      let back ← writer
      return front ++ back : Write (List UInt8)) before = .ok bytes after) :
    ∃ between inner last, writer between = .ok inner last := by
  obtain ⟨front, between, -, h⟩ := exists_of_bind_ok h
  obtain ⟨inner, last, hwriter, -⟩ := exists_of_bind_ok h
  exact ⟨between, inner, last, hwriter⟩

/-- Where a variant is written, its payload is. -/
theorem exists_of_variant_ok {place : Place} {enum : String} {index : Nat} {name : String}
    {payload : Write (List UInt8)} {before after : WriteTables} {bytes : List UInt8}
    (h : variant env place enum index name payload before = .ok bytes after) :
    ∃ between inner last, payload between = .ok inner last := by
  obtain ⟨layout, between, inner, last, h⟩ := exists_of_behind_ok h
  cases layout with
  | plain =>
    obtain ⟨inner, last, hpayload, -⟩ := exists_of_bind_ok h
    exact ⟨between, inner, last, hpayload⟩
  | typed spec type => cases h

/-- A field of a plain struct that is written is not left out. -/
theorem exists_of_members_cons_ok {depth : Nat} {name : String} {value : Datum}
    {rest : List (String × Datum)} {before after : WriteTables} {bytes : List UInt8}
    (h : members env depth false ((name, value) :: rest) before = .ok bytes after) :
    value ≠ .absent ∧ ∃ front between back,
      datum env depth .plain value before = .ok front between ∧
        members env depth false rest between = .ok back after := by
  by_cases habsent : value = .absent
  · rw [habsent, members] at h
    cases h
  · rw [members_cons habsent] at h
    obtain ⟨front, between, hvalue, h⟩ := exists_of_bind_ok h
    obtain ⟨back, last, hrest, h⟩ := exists_of_bind_ok h
    cases h
    exact ⟨habsent, front, between, back, hvalue, hrest⟩

mutual

/-- In a value that is written no struct lacks a field. -/
theorem lacksField_of_datum_ok : (v : Datum) → {depth : Nat} → {place : Place} →
    {before after : WriteTables} → {bytes : List UInt8} →
    datum env depth place v before = .ok bytes after → v.lacksField = false
  | .some content, _, place, _, _, _, h => by
    rw [Datum.lacksField]
    cases place with
    | plain =>
      rw [datum] at h
      obtain ⟨inner, last, hcontent, -⟩ := exists_of_bind_ok h
      exact lacksField_of_datum_ok content hcontent
    | declared =>
      rw [datum] at h
      · exact lacksField_of_datum_ok content h
      · exact nofun
  | .newtype content, _, _, _, _, _, h => by
    rw [datum] at h
    rw [Datum.lacksField]
    exact lacksField_of_datum_ok content h
  | .seq sized content, _, _, _, _, _, h => by
    rw [datum] at h
    rw [Datum.lacksField]
    obtain ⟨layout, between, inner, last, h⟩ := exists_of_behind_ok h
    cases layout with
    | plain =>
      obtain ⟨_, _, _, hitems⟩ := exists_of_sized_ok h
      exact lacksField_of_items_ok content hitems
    | typed spec type =>
      dsimp only at h
      cases helement : spec.element? type with
      | some element =>
        rw [helement] at h
        obtain ⟨_, _, _, hitems⟩ := exists_of_sized_ok h
        exact lacksField_of_items_ok content hitems
      | none =>
        rw [helement] at h
        cases h
  | .tuple content, _, _, _, _, _, h => by
    rw [datum] at h
    rw [Datum.lacksField]
    obtain ⟨layout, between, inner, last, h⟩ := exists_of_behind_ok h
    cases layout with
    | plain => exact lacksField_of_items_ok content h
    | typed => cases h
  | .map sized content, _, _, _, _, _, h => by
    rw [datum] at h
    rw [Datum.lacksField]
    obtain ⟨layout, between, inner, last, h⟩ := exists_of_behind_ok h
    cases layout with
    | plain =>
      obtain ⟨_, _, _, hentries⟩ := exists_of_sized_ok h
      exact lacksField_of_entries_ok content hentries
    | typed spec type =>
      dsimp only at h
      cases hentry : spec.arguments? type with
      | some entry =>
        rw [hentry] at h
        obtain ⟨_, _, _, hentries⟩ := exists_of_sized_ok h
        exact lacksField_of_entries_ok content hentries
      | none =>
        rw [hentry] at h
        cases h
  | .struct name content, _, _, _, _, _, h => by
    rw [datum] at h
    rw [Datum.lacksField]
    obtain ⟨layout, between, inner, last, h⟩ := exists_of_behind_ok h
    cases layout with
    | plain => exact lacksField_of_fields_ok content (.inl h)
    | typed spec type =>
      dsimp only at h
      generalize spec.role = role at h
      cases role with
      | struct registration declared =>
        dsimp only at h
        split at h
        · cases h
        · exact lacksField_of_fields_ok content (.inr ⟨declared, h⟩)
      | _ => cases h
  | .newtypeVariant enum index name content, _, _, _, _, _, h => by
    rw [datum] at h
    rw [Datum.lacksField]
    obtain ⟨_, _, _, hpayload⟩ := exists_of_variant_ok h
    exact lacksField_of_datum_ok content hpayload
  | .tupleVariant enum index name content, _, _, _, _, _, h => by
    rw [datum] at h
    rw [Datum.lacksField]
    obtain ⟨_, _, _, hpayload⟩ := exists_of_variant_ok h
    exact lacksField_of_items_ok content hpayload
  | .structVariant enum index name content, _, _, _, _, _, h => by
    rw [datum] at h
    rw [Datum.lacksField]
    obtain ⟨_, _, _, hpayload⟩ := exists_of_variant_ok h
    exact lacksField_of_members_ok content hpayload
  | .bool _, _, _, _, _, _, _ | .int _ _, _, _, _, _, _, _ | .float32 _, _, _, _, _, _, _
  | .float64 _, _, _, _, _, _, _ | .char _, _, _, _, _, _, _ | .text _, _, _, _, _, _, _
  | .bytes _, _, _, _, _, _, _ | .unit, _, _, _, _, _, _ | .none, _, _, _, _, _, _
  | .firstEntry _ _, _, _, _, _, _, _ | .unitVariant _ _ _, _, _, _, _, _, _
  | .choice _, _, _, _, _, _, _ | .absent, _, _, _, _, _, _ | .refused _, _, _, _, _, _, _ => by
    simp only [Datum.lacksField]

/-- In values that are written no struct lacks a field. -/
theorem lacksField_of_items_ok : (content : List Datum) → {depth : Nat} → {place : Place} →
    {before after : WriteTables} → {bytes : List UInt8} →
    items env depth place content before = .ok bytes after → Datum.lacksFieldInItems content = false
  | [], _, _, _, _, _, _ => by rw [Datum.lacksFieldInItems]
  | first :: rest, _, _, _, _, _, h => by
    rw [items] at h
    obtain ⟨front, between, hfirst, h⟩ := exists_of_bind_ok h
    obtain ⟨back, last, hrest, -⟩ := exists_of_bind_ok h
    rw [Datum.lacksFieldInItems, lacksField_of_datum_ok first hfirst,
      lacksField_of_items_ok rest hrest, Bool.or_false]

/-- In entries that are written no struct lacks a field. -/
theorem lacksField_of_entries_ok : (content : List (Datum × Datum)) → {depth : Nat} →
    {keyPlace valuePlace : Place} → {before after : WriteTables} → {bytes : List UInt8} →
    entries env depth keyPlace valuePlace content before = .ok bytes after →
      Datum.lacksFieldInEntries content = false
  | [], _, _, _, _, _, _, _ => by rw [Datum.lacksFieldInEntries]
  | (key, value) :: rest, _, _, _, _, _, _, h => by
    rw [entries] at h
    obtain ⟨front, between, hkey, h⟩ := exists_of_bind_ok h
    obtain ⟨middle, behind, hvalue, h⟩ := exists_of_bind_ok h
    obtain ⟨back, last, hrest, -⟩ := exists_of_bind_ok h
    rw [Datum.lacksFieldInEntries, lacksField_of_datum_ok key hkey,
      lacksField_of_datum_ok value hvalue, lacksField_of_entries_ok rest hrest, Bool.or_false,
      Bool.or_false]

/-- In fields that are written none is left out, and no struct lacks a field. -/
theorem lacksField_of_fields_ok : (content : List (String × Datum)) → {depth : Nat} →
    {before after : WriteTables} → {bytes : List UInt8} →
    members env depth false content before = .ok bytes after ∨
      (∃ declared, fields env depth declared content before = .ok bytes after) →
      Datum.lacksFieldInFields content = false
  | [], _, _, _, _, _ => by rw [Datum.lacksFieldInFields]
  | (name, value) :: rest, _, _, _, _, h => by
    obtain h | ⟨declared, h⟩ := h
    · obtain ⟨habsent, front, between, back, hvalue, hrest⟩ := exists_of_members_cons_ok h
      rw [Datum.lacksFieldInFields.eq_3 _ _ _ habsent, lacksField_of_datum_ok value hvalue,
        lacksField_of_fields_ok rest (.inl hrest), Bool.or_false]
    · obtain ⟨habsent, field, others, front, between, back, -, -, -, hvalue, hrest⟩ :=
        exists_of_fields_cons_ok h
      rw [Datum.lacksFieldInFields.eq_3 _ _ _ habsent, lacksField_of_datum_ok value hvalue,
        lacksField_of_fields_ok rest (.inr ⟨others, hrest⟩), Bool.or_false]

/-- In parts that are written no struct lacks a field. -/
theorem lacksField_of_members_ok : (content : List (String × Datum)) → {depth : Nat} →
    {before after : WriteTables} → {bytes : List UInt8} →
    members env depth true content before = .ok bytes after →
      Datum.lacksFieldInMembers content = false
  | [], _, _, _, _, _ => by rw [Datum.lacksFieldInMembers]
  | (name, value) :: rest, _, _, _, _, h => by
    by_cases habsent : value = .absent
    · subst habsent
      rw [members] at h
      rw [Datum.lacksFieldInMembers, lacksField_of_members_ok rest h]
      rfl
    · rw [members_cons habsent] at h
      obtain ⟨front, between, hvalue, h⟩ := exists_of_bind_ok h
      obtain ⟨back, last, hrest, -⟩ := exists_of_bind_ok h
      rw [Datum.lacksFieldInMembers, lacksField_of_datum_ok value hvalue,
        lacksField_of_members_ok rest hrest, Bool.or_false]

end

end Write

namespace Datum

/-- In a value that counts as missing no struct lacks a field. -/
theorem lacksField_of_isNull : (v : Datum) → v.isNull = true → v.lacksField = false
  | .none, _ | .unit, _ | .refused _, _ => by
    simp only [lacksField]
  | .newtype content, h => by
    rw [isNull] at h
    rw [lacksField]
    exact lacksField_of_isNull content h

/-- A value counts as missing if it does without its gaps. -/
theorem isNull_withoutGaps : (v : Datum) → v.withoutGaps.isNull = v.isNull
  | .newtype content => by
    rw [withoutGaps, isNull, isNull, isNull_withoutGaps content]
  | .some _ | .seq _ _ | .tuple _ | .map _ _ | .struct _ _ | .newtypeVariant _ _ _ _
  | .tupleVariant _ _ _ _ | .structVariant _ _ _ _ => by
    simp only [withoutGaps, isNull]
  | .bool _ | .int _ _ | .float32 _ | .float64 _ | .char _ | .text _ | .bytes _ | .unit | .none
  | .firstEntry _ _ | .unitVariant _ _ _ | .choice _ | .absent | .refused _ => by
    simp only [withoutGaps]

end Datum

namespace Engine

variable {engine : Engine} {declared : FieldType} {value : Datum}

/-- In a value that is written as a message no struct lacks a field. -/
theorem lacksField_of_encode_ok {before after : WriteTables} {message : Message}
    (h : engine.encode declared value before = .ok message after) : value.lacksField = false := by
  obtain ⟨hnull, -⟩ | ⟨-, body, hbody, -⟩ := toList_of_encode h
  · exact Datum.lacksField_of_isNull value (Bool.and_eq_true_iff.mp hnull).2
  · obtain ⟨spec, s, -, hbody⟩ := exists_of_bind_ok hbody
    obtain ⟨info, between, -, hbody⟩ := exists_of_bind_ok hbody
    obtain ⟨data, last, hdata, -⟩ := exists_of_bind_ok hbody
    exact Write.lacksField_of_datum_ok value hdata

/-- A value is written as a message like the value without its gaps. -/
theorem encode_withoutGaps (engine : Engine) (declared : FieldType) (value : Datum) :
    engine.encode declared value.withoutGaps = engine.encode declared value := by
  simp only [encode, encodeBody, Datum.isNull_withoutGaps, Write.datum_withoutGaps]

end Engine

/-- A struct that lacks a field is never written, wherever it stands. A variant that lacks parts is
written as if it had never had them. -/
theorem left_out (engine : Engine) (declared : FieldType) (value : Datum) :
    (∀ before message after, engine.encode declared value before = .ok message after →
      value.lacksField = false) ∧
    engine.encode declared value.withoutGaps = engine.encode declared value :=
  ⟨fun _ _ _ => Engine.lacksField_of_encode_ok, engine.encode_withoutGaps declared value⟩

end SchemaWire
