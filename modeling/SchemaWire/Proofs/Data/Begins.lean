import SchemaWire.Proofs.Data.Serialize

/-!
# Where a value begins

While a value is written event by event, each value inside of it begins in some state of the
serializer: what stands in front of it was written, and it was given its place. Such a state waits
for a value. Only the payload of a variant may be all that is left of a value with a layout of its
own; every other value stands in a place of its own.
-/

namespace SchemaWire

/-- How a value stands in the one that is written. -/
inductive Standing
  /-- It is the whole, it fills a declared place, or it is a part of an open compound. -/
  | own
  /-- It is the payload of a variant, which ends with it. -/
  | payload
  deriving DecidableEq, Repr

/-- In a run that starts to write the given value in the given state, the other value starts to be
written in the other state: what comes before it was written. -/
inductive Begins (env : WriteEnv) (s : Serializer) (v : Datum) :
    Serializer → Datum → Standing → Prop
  /-- The run starts with the whole. -/
  | whole : Begins env s v s v .own
  /-- A value that is not missing starts behind the sign of that, where there is one. -/
  | some {t u : Serializer} {w : Datum} {standing : Standing}
    (h : Begins env s v t (.some w) standing)
    (hstep : (do
      if (← get).plain.isSome then Serialize.emit (pure [255]) : Serialize Unit) t = .ok () u) :
    Begins env s v u w standing
  /-- A wrapped value starts with its wrapper. -/
  | newtype {t : Serializer} {w : Datum} {standing : Standing}
    (h : Begins env s v t (.newtype w) standing) : Begins env s v t w standing
  /-- An element starts behind the elements in front of it. -/
  | element {t u : Serializer} {sized : Bool} {front back : List Datum} {w : Datum}
    {standing : Standing} (h : Begins env s v t (.seq sized (front ++ w :: back)) standing)
    (hstep : (do
      Serialize.startSequence env sized (front ++ w :: back).length
      Serialize.elements env front
      Serialize.nextElement) t = .ok () u) : Begins env s v u w .own
  /-- A value by position starts behind those in front of it. -/
  | item {t u : Serializer} {front back : List Datum} {w : Datum} {standing : Standing}
    (h : Begins env s v t (.tuple (front ++ w :: back)) standing)
    (hstep : (do
      Serialize.startTuple env
      Serialize.items env front) t = .ok () u) : Begins env s v u w .own
  /-- A key starts behind the entries in front of it. -/
  | key {t u : Serializer} {sized : Bool} {front back : List (Datum × Datum)} {key value : Datum}
    {standing : Standing} (h : Begins env s v t (.map sized (front ++ (key, value) :: back)) standing)
    (hstep : (do
      Serialize.startMap env sized (front ++ (key, value) :: back).length
      Serialize.entries env front
      Serialize.nextKey) t = .ok () u) : Begins env s v u key .own
  /-- The value of an entry starts behind its key. -/
  | value {t u : Serializer} {sized : Bool} {front back : List (Datum × Datum)} {key value : Datum}
    {standing : Standing} (h : Begins env s v t (.map sized (front ++ (key, value) :: back)) standing)
    (hstep : (do
      Serialize.startMap env sized (front ++ (key, value) :: back).length
      Serialize.entries env front
      Serialize.nextKey
      Serialize.datum env key
      Serialize.ensureWritten
      Serialize.nextValue) t = .ok () u) : Begins env s v u value .own
  /-- A field starts behind the fields in front of it. -/
  | field {t u : Serializer} {struct name : String} {front back : List (String × Datum)} {w : Datum}
    {standing : Standing} (h : Begins env s v t (.struct struct (front ++ (name, w) :: back)) standing)
    (hkept : w ≠ .absent)
    (hstep : (do
      Serialize.startStruct env struct
      Serialize.fields env front
      Serialize.nextField name) t = .ok () u) : Begins env s v u w .own
  /-- The payload of a variant starts behind the number of the variant. -/
  | payload {t u : Serializer} {enum : String} {index : Nat} {variant : String} {w : Datum}
    {standing : Standing} (h : Begins env s v t (.newtypeVariant enum index variant w) standing)
    (hstep : Serialize.variant env enum index variant t = .ok () u) : Begins env s v u w .payload
  /-- A value by position in a variant starts behind those in front of it. -/
  | variantItem {t u : Serializer} {enum : String} {index : Nat} {variant : String}
    {front back : List Datum} {w : Datum} {standing : Standing}
    (h : Begins env s v t (.tupleVariant enum index variant (front ++ w :: back)) standing)
    (hstep : (do
      Serialize.variant env enum index variant
      Serialize.openCompound
      Serialize.items env front) t = .ok () u) : Begins env s v u w .own
  /-- A part by name in a variant starts behind those in front of it. -/
  | variantMember {t u : Serializer} {enum : String} {index : Nat} {variant name : String}
    {front back : List (String × Datum)} {w : Datum} {standing : Standing}
    (h : Begins env s v t (.structVariant enum index variant (front ++ (name, w) :: back)) standing)
    (hkept : w ≠ .absent)
    (hstep : (do
      Serialize.variant env enum index variant
      Serialize.openCompound
      Serialize.members env front) t = .ok () u) : Begins env s v u w .own

namespace Serializer

variable {env : WriteEnv} {s t u : Serializer} {place : Place}

/-- Behind the annotations of a value, the serializer is inside of a value with a layout of its own,
or outside of all of them. -/
theorem Ready.of_enter_ok (h : s.Ready place) {layout : Layout}
    (hstep : Serialize.enter env s = .ok layout t) :
    ∃ tables buffer, (layout = .plain ∧ t = s.inside.holding tables buffer) ∨
      ∃ spec type, layout = .typed spec type ∧ s.plain = none ∧
        t = s.outside.holding tables buffer := by
  cases h with
  | @plain n hwhole hpending =>
    cases hstep.symm.trans (enter_of_plain hwhole)
    exact ⟨s.tables, s.buffer, .inl ⟨rfl, (inside_of_plain hwhole hpending).symm⟩⟩
  | @declared type tracked annotated hopen hpending =>
    rw [enter_of_pending env hopen hpending] at hstep
    obtain ⟨spec, s', hspec, hstep⟩ := exists_of_bind_ok hstep
    obtain ⟨-, rfl⟩ := exists_of_ofExcept_ok hspec
    -- The layout alone decides, with annotations in front of it or without.
    have hlay {tables : WriteTables} {buffer : List UInt8}
        (hlay : Serialize.lay (.of spec type) (s.outside.holding tables buffer) = .ok layout t) :
        ∃ tables buffer, (layout = .plain ∧ t = s.inside.holding tables buffer) ∨
          ∃ spec type, layout = .typed spec type ∧ s.plain = none ∧
            t = s.outside.holding tables buffer := by
      have hinside : { s.outside.holding tables buffer with plain := some 0 } =
          s.inside.holding tables buffer := by
        rw [inside, hopen]
        rfl
      refine ⟨tables, buffer, ?_⟩
      generalize Layout.of spec type = found at hlay
      cases found with
      | plain =>
        cases hlay
        exact .inl ⟨rfl, hinside⟩
      | typed spec type =>
        cases hlay
        exact .inr ⟨spec, type, rfl, hopen, rfl⟩
    cases annotated with
    | false =>
      have hsame : s.outside.holding s.tables s.buffer = s.outside := rfl
      exact hlay (hsame ▸ hstep)
    | true =>
      obtain ⟨_, s'', hemit, hstep⟩ := exists_of_bind_ok hstep
      obtain ⟨bytes, tables, -, rfl⟩ := (Does.emit s.outside _).exists_of_ok hemit
      exact hlay hstep

/-- A value waits to be written in a place of its own: it is not all that is left of a value with a
layout of its own. -/
def Awaits (s : Serializer) : Prop :=
  ∃ place, s.Ready place ∧ s.plain ≠ some 0

/-- A place that was checked to be filled is, and nothing else has happened. -/
theorem eq_of_ensureWritten_ok (h : Serialize.ensureWritten s = .ok () t) : t = s := by
  unfold Serialize.ensureWritten at h
  rw [get_bind] at h
  cases hpending : s.pending with
  | none =>
    rw [hpending] at h
    cases h
    rfl
  | some slot =>
    rw [hpending] at h
    cases h

/-- A value that a declared place waits for is in a place of its own. -/
theorem Ready.awaits {type : FieldType} {tracked annotated : Bool}
    (h : s.Ready (.declared type tracked annotated)) : s.Awaits := by
  refine ⟨_, h, ?_⟩
  cases h with
  | declared hopen hpending =>
    rw [hopen]
    exact nofun

/-- Inside of a compound of a plain value, the next part waits. -/
theorem awaits_opened (s : Serializer) (tables : WriteTables) (buffer : List UInt8) :
    (s.opened.holding tables buffer).Awaits :=
  ⟨.plain, .plain rfl rfl, nofun⟩

/-- Behind the start of a sequence its elements follow, in a compound of a plain value or of a
declared type. -/
theorem Ready.of_startSequence_ok (h : s.Ready place) {sized : Bool} {count : Nat}
    (hstep : Serialize.startSequence env sized count s = .ok () t) :
    ∃ tables buffer, t = s.opened.holding tables buffer ∨
      ∃ element, t = (s.framed (.sequence element)).holding tables buffer := by
  obtain ⟨layout, s', henter, hstep⟩ := exists_of_bind_ok hstep
  obtain ⟨tables, buffer, ⟨rfl, rfl⟩ | ⟨spec, type, rfl, hopen, rfl⟩⟩ := h.of_enter_ok henter
  · obtain ⟨_, s', hemit, hstep⟩ := exists_of_bind_ok hstep
    obtain ⟨bytes, tables, -, rfl⟩ := (Does.emit _ _).exists_of_ok hemit
    cases hstep
    exact ⟨_, _, .inl rfl⟩
  · dsimp only at hstep
    cases helement : spec.element? type with
    | some element =>
      rw [helement] at hstep
      obtain ⟨_, s', hemit, hstep⟩ := exists_of_bind_ok hstep
      obtain ⟨bytes, tables, -, rfl⟩ := (Does.emit _ _).exists_of_ok hemit
      cases hstep
      exact ⟨_, _, .inr ⟨element, rfl⟩⟩
    | none =>
      rw [helement] at hstep
      cases hstep

/-- Behind the start of a map its entries follow. -/
theorem Ready.of_startMap_ok (h : s.Ready place) {sized : Bool} {count : Nat}
    (hstep : Serialize.startMap env sized count s = .ok () t) :
    ∃ tables buffer, t = s.opened.holding tables buffer ∨
      ∃ key value, t = (s.framed (.map key value)).holding tables buffer := by
  obtain ⟨layout, s', henter, hstep⟩ := exists_of_bind_ok hstep
  obtain ⟨tables, buffer, ⟨rfl, rfl⟩ | ⟨spec, type, rfl, hopen, rfl⟩⟩ := h.of_enter_ok henter
  · obtain ⟨_, s', hemit, hstep⟩ := exists_of_bind_ok hstep
    obtain ⟨bytes, tables, -, rfl⟩ := (Does.emit _ _).exists_of_ok hemit
    cases hstep
    exact ⟨_, _, .inl rfl⟩
  · dsimp only at hstep
    cases hentry : spec.arguments? type with
    | some types =>
      rw [hentry] at hstep
      obtain ⟨_, s', hemit, hstep⟩ := exists_of_bind_ok hstep
      obtain ⟨bytes, tables, -, rfl⟩ := (Does.emit _ _).exists_of_ok hemit
      cases hstep
      exact ⟨_, _, .inr ⟨types.1, types.2, rfl⟩⟩
    | none =>
      rw [hentry] at hstep
      cases hstep

/-- Behind the start of values by position the values follow, in a compound of a plain value. -/
theorem Ready.of_startTuple_ok (h : s.Ready place) (hstep : Serialize.startTuple env s = .ok () t) :
    ∃ tables buffer, t = s.opened.holding tables buffer := by
  obtain ⟨layout, s', henter, hstep⟩ := exists_of_bind_ok hstep
  obtain ⟨tables, buffer, ⟨rfl, rfl⟩ | ⟨spec, type, rfl, hopen, rfl⟩⟩ := h.of_enter_ok henter
  · cases hstep
    exact ⟨_, _, rfl⟩
  · cases hstep

/-- Behind the start of a struct its fields follow. -/
theorem Ready.of_startStruct_ok (h : s.Ready place) {name : String}
    (hstep : Serialize.startStruct env name s = .ok () t) :
    ∃ tables buffer, t = s.opened.holding tables buffer ∨ ∃ declared,
      t = ({ s with depth := s.depth + 1 }.framed (.struct declared 0)).holding tables buffer := by
  obtain ⟨layout, s', henter, hstep⟩ := exists_of_bind_ok hstep
  obtain ⟨tables, buffer, ⟨rfl, rfl⟩ | ⟨spec, type, rfl, hopen, rfl⟩⟩ := h.of_enter_ok henter
  · cases hstep
    exact ⟨_, _, .inl rfl⟩
  · dsimp only at hstep
    generalize spec.role = role at hstep
    cases role with
    | struct registration declared =>
      replace hstep := (openStruct_outside env s declared tables buffer).symm.trans hstep
      split at hstep
      · cases hstep
      · cases hstep
        exact ⟨_, _, .inr ⟨declared, rfl⟩⟩
    | _ => cases hstep

/-- Behind the number of a variant its payload follows, inside of a plain value. -/
theorem Ready.of_variant_ok (h : s.Ready place) {enum : String} {index : Nat} {variant : String}
    (hstep : Serialize.variant env enum index variant s = .ok () t) :
    ∃ tables buffer, t = s.inside.holding tables buffer := by
  obtain ⟨layout, s', henter, hstep⟩ := exists_of_bind_ok hstep
  obtain ⟨tables, buffer, ⟨rfl, rfl⟩ | ⟨spec, type, rfl, hopen, rfl⟩⟩ := h.of_enter_ok henter
  · obtain ⟨bytes, tables, -, rfl⟩ := (Does.emit _ _).exists_of_ok hstep
    exact ⟨_, _, rfl⟩
  · cases hstep

/-- A part that gets its place and is written into it is followed by the rest. -/
theorem Gives.of_part_ok {c : Serializer} {next rest : Serialize Unit} (h : s.Gives next place c)
    {v : Datum} {tables : WriteTables} {buffer : List UInt8}
    (hstep : (do
      next
      Serialize.datum env v
      Serialize.ensureWritten
      rest) (s.holding tables buffer) = .ok () t) :
    ∃ tables buffer, rest (c.holding tables buffer) = .ok () t := by
  obtain ⟨w, hready, rfl, hgives⟩ := h
  obtain ⟨_, s', hnext, hstep⟩ := exists_of_bind_ok hstep
  cases hnext.symm.trans (hgives tables buffer)
  obtain ⟨_, s', hvalue, hstep⟩ := exists_of_bind_ok hstep
  obtain ⟨bytes, between, -, rfl⟩ :=
    (does_datum v (hready.holding tables buffer)).exists_of_ok hvalue
  obtain ⟨_, s', hensure, hstep⟩ := exists_of_bind_ok hstep
  cases eq_of_ensureWritten_ok hensure
  exact ⟨between, _, hstep⟩

/-- The fields in front of another one are the ones declared first. -/
theorem of_fields_ok {front : List (String × Datum)} (s : Serializer)
    {declared : List FieldDescriptor} {count : Nat} {tables : WriteTables} {buffer : List UInt8}
    (hstep : Serialize.fields env front ((s.framed (.struct declared count)).holding tables buffer) =
      .ok () t) :
    ∃ tables buffer, t = (s.framed (.struct declared (count + front.length))).holding tables buffer := by
  induction front generalizing count tables buffer with
  | nil =>
    cases hstep
    exact ⟨tables, buffer, rfl⟩
  | cons first rest ih =>
    obtain ⟨name, value⟩ := first
    by_cases habsent : value = .absent
    · rw [habsent, Serialize.fields] at hstep
      cases hstep
    rw [fields_cons habsent] at hstep
    cases hfield : declared[count]? with
    | none => cases hstep.symm.trans (bind_of_error (nextField_of_none s hfield name tables buffer))
    | some field =>
      by_cases hname : field.name = name
      · subst hname
        obtain ⟨tables, buffer, hrest⟩ := (gives_field s hfield).of_part_ok hstep
        rw [List.length_cons, Nat.add_comm rest.length, ← Nat.add_assoc]
        exact ih hrest
      · cases hstep.symm.trans (bind_of_error (nextField_of_ne s hfield hname tables buffer))

/-- A part of a compound that gets a declared place waits. -/
theorem Gives.awaits {c : Serializer} {next : Serialize Unit} {type : FieldType}
    {tracked annotated : Bool} (h : s.Gives next (.declared type tracked annotated) c)
    {tables : WriteTables} {buffer : List UInt8}
    (hstep : next (s.holding tables buffer) = .ok () t) : t.Awaits := by
  obtain ⟨w, hready, -, hgives⟩ := h
  cases hstep.symm.trans (hgives tables buffer)
  exact (hready.holding tables buffer).awaits

section Parts

variable (h : s.Ready place)
include h

/-- An element waits behind those in front of it. -/
theorem Ready.awaits_element {sized : Bool} {count : Nat} {front : List Datum}
    (hstep : (do
      Serialize.startSequence env sized count
      Serialize.elements env front
      Serialize.nextElement) s = .ok () t) : t.Awaits := by
  obtain ⟨_, s', hstart, hstep⟩ := exists_of_bind_ok hstep
  obtain ⟨_, s'', hfront, hnext⟩ := exists_of_bind_ok hstep
  obtain ⟨tables, buffer, rfl | ⟨element, rfl⟩⟩ := h.of_startSequence_ok hstart
  · obtain ⟨bytes, between, -, rfl⟩ :=
      (does_elements front (gives_opened _) tables buffer).exists_of_ok hfront
    cases hnext
    exact awaits_opened s _ _
  · obtain ⟨bytes, between, -, rfl⟩ :=
      (does_elements front (gives_element s element) tables buffer).exists_of_ok hfront
    exact (gives_element s element).awaits hnext

/-- Values by position wait behind those in front of them. -/
theorem Ready.awaits_item {front : List Datum}
    (hstep : (do
      Serialize.startTuple env
      Serialize.items env front) s = .ok () t) : t.Awaits := by
  obtain ⟨_, s', hstart, hfront⟩ := exists_of_bind_ok hstep
  obtain ⟨tables, buffer, rfl⟩ := h.of_startTuple_ok hstart
  obtain ⟨bytes, between, -, rfl⟩ := (does_items front s tables buffer).exists_of_ok hfront
  exact awaits_opened s _ _

/-- A key waits behind the entries in front of it. -/
theorem Ready.awaits_key {sized : Bool} {count : Nat} {front : List (Datum × Datum)}
    (hstep : (do
      Serialize.startMap env sized count
      Serialize.entries env front
      Serialize.nextKey) s = .ok () t) : t.Awaits := by
  obtain ⟨_, s', hstart, hstep⟩ := exists_of_bind_ok hstep
  obtain ⟨_, s'', hfront, hnext⟩ := exists_of_bind_ok hstep
  obtain ⟨tables, buffer, rfl | ⟨key, value, rfl⟩⟩ := h.of_startMap_ok hstart
  · obtain ⟨bytes, between, -, rfl⟩ :=
      (does_entries front (gives_opened _) (gives_opened _) tables buffer).exists_of_ok hfront
    cases hnext
    exact awaits_opened s _ _
  · obtain ⟨bytes, between, -, rfl⟩ :=
      (does_entries front (gives_key s key value) (gives_value s key value) tables
        buffer).exists_of_ok hfront
    exact (gives_key s key value).awaits hnext

/-- The value of an entry waits behind its key. -/
theorem Ready.awaits_value {sized : Bool} {count : Nat} {front : List (Datum × Datum)} {v : Datum}
    (hstep : (do
      Serialize.startMap env sized count
      Serialize.entries env front
      Serialize.nextKey
      Serialize.datum env v
      Serialize.ensureWritten
      Serialize.nextValue) s = .ok () t) : t.Awaits := by
  obtain ⟨_, s', hstart, hstep⟩ := exists_of_bind_ok hstep
  obtain ⟨_, s'', hfront, hnext⟩ := exists_of_bind_ok hstep
  obtain ⟨tables, buffer, rfl | ⟨key, value, rfl⟩⟩ := h.of_startMap_ok hstart
  · obtain ⟨bytes, between, -, rfl⟩ :=
      (does_entries front (gives_opened _) (gives_opened _) tables buffer).exists_of_ok hfront
    obtain ⟨tables, buffer, hnext⟩ := Gives.of_part_ok (gives_opened _) hnext
    cases hnext
    exact awaits_opened s _ _
  · obtain ⟨bytes, between, -, rfl⟩ :=
      (does_entries front (gives_key s key value) (gives_value s key value) tables
        buffer).exists_of_ok hfront
    obtain ⟨tables, buffer, hnext⟩ := (gives_key s key value).of_part_ok hnext
    exact (gives_value s key value).awaits hnext

/-- A field waits behind the fields in front of it. -/
theorem Ready.awaits_field {struct name : String} {front : List (String × Datum)}
    (hstep : (do
      Serialize.startStruct env struct
      Serialize.fields env front
      Serialize.nextField name) s = .ok () t) : t.Awaits := by
  obtain ⟨_, s', hstart, hstep⟩ := exists_of_bind_ok hstep
  obtain ⟨_, s'', hfront, hnext⟩ := exists_of_bind_ok hstep
  obtain ⟨tables, buffer, rfl | ⟨declared, rfl⟩⟩ := h.of_startStruct_ok hstart
  · obtain ⟨bytes, between, -, rfl⟩ :=
      (does_fields_opened front s tables buffer).exists_of_ok hfront
    cases hnext
    exact awaits_opened s _ _
  · obtain ⟨tables, buffer, rfl⟩ := of_fields_ok _ hfront
    cases hfield : declared[0 + front.length]? with
    | none => cases hnext.symm.trans (nextField_of_none _ hfield name tables buffer)
    | some field =>
      by_cases hname : field.name = name
      · subst hname
        exact (gives_field _ hfield).awaits hnext
      · cases hnext.symm.trans (nextField_of_ne _ hfield hname tables buffer)

/-- The payload of a variant is written inside of a plain value. -/
theorem Ready.ready_payload {enum : String} {index : Nat} {variant : String}
    (hstep : Serialize.variant env enum index variant s = .ok () t) : t.Ready .plain := by
  obtain ⟨tables, buffer, rfl⟩ := h.of_variant_ok hstep
  exact (ready_inside s).holding tables buffer

/-- Values by position in a variant wait behind those in front of them. -/
theorem Ready.awaits_variantItem {enum : String} {index : Nat} {variant : String}
    {front : List Datum}
    (hstep : (do
      Serialize.variant env enum index variant
      Serialize.openCompound
      Serialize.items env front) s = .ok () t) : t.Awaits := by
  obtain ⟨_, s', hstart, hstep⟩ := exists_of_bind_ok hstep
  obtain ⟨_, s'', hopen, hfront⟩ := exists_of_bind_ok hstep
  obtain ⟨tables, buffer, rfl⟩ := h.of_variant_ok hstart
  cases hopen.symm.trans (openCompound_inside s tables buffer)
  obtain ⟨bytes, between, -, rfl⟩ := (does_items front s tables buffer).exists_of_ok hfront
  exact awaits_opened s _ _

/-- Parts by name in a variant wait behind those in front of them. -/
theorem Ready.awaits_variantMember {enum : String} {index : Nat} {variant : String}
    {front : List (String × Datum)}
    (hstep : (do
      Serialize.variant env enum index variant
      Serialize.openCompound
      Serialize.members env front) s = .ok () t) : t.Awaits := by
  obtain ⟨_, s', hstart, hstep⟩ := exists_of_bind_ok hstep
  obtain ⟨_, s'', hopen, hfront⟩ := exists_of_bind_ok hstep
  obtain ⟨tables, buffer, rfl⟩ := h.of_variant_ok hstart
  cases hopen.symm.trans (openCompound_inside s tables buffer)
  obtain ⟨bytes, between, -, rfl⟩ := (does_members front s tables buffer).exists_of_ok hfront
  exact awaits_opened s _ _

end Parts

/-- The sign of a value that is not missing only adds to what was written. -/
theorem of_tag_ok (hstep : (do
      if (← get).plain.isSome then Serialize.emit (pure [255]) : Serialize Unit) s = .ok () t) :
    ∃ tables buffer, t = s.holding tables buffer := by
  rw [get_bind] at hstep
  split at hstep
  · obtain ⟨bytes, tables, -, rfl⟩ := (Does.emit s _).exists_of_ok hstep
    exact ⟨_, _, rfl⟩
  · cases hstep
    exact ⟨s.tables, s.buffer, rfl⟩

end Serializer

/-- Every value that begins in a run waits somewhere, and in a place of its own unless it is the
payload of a variant. -/
theorem Begins.ready {env : WriteEnv} {s t : Serializer} {v w : Datum} {standing : Standing}
    (hs : s.Awaits) (h : Begins env s v t w standing) :
    (∃ place, t.Ready place) ∧ (standing = .own → t.Awaits) := by
  have hawaits {u : Serializer} (hu : u.Awaits) :
      (∃ place, u.Ready place) ∧ (Standing.own = .own → u.Awaits) :=
    ⟨⟨hu.choose, hu.choose_spec.1⟩, fun _ => hu⟩
  -- From the outside to the inside: a part waits where the whole around it was ready.
  induction h with
  | whole => exact hawaits hs
  | some h hstep ih =>
    obtain ⟨⟨place, hready⟩, hown⟩ := ih
    obtain ⟨tables, buffer, rfl⟩ := Serializer.of_tag_ok hstep
    exact ⟨⟨place, hready.holding tables buffer⟩, fun heq =>
      (hown heq).imp fun _ hplace => ⟨hplace.1.holding tables buffer, hplace.2⟩⟩
  | newtype h ih => exact ih
  | element h hstep ih =>
    obtain ⟨place, hready⟩ := ih.1
    exact hawaits (hready.awaits_element hstep)
  | item h hstep ih =>
    obtain ⟨place, hready⟩ := ih.1
    exact hawaits (hready.awaits_item hstep)
  | key h hstep ih =>
    obtain ⟨place, hready⟩ := ih.1
    exact hawaits (hready.awaits_key hstep)
  | value h hstep ih =>
    obtain ⟨place, hready⟩ := ih.1
    exact hawaits (hready.awaits_value hstep)
  | field h hkept hstep ih =>
    obtain ⟨place, hready⟩ := ih.1
    exact hawaits (hready.awaits_field hstep)
  | payload h hstep ih =>
    obtain ⟨place, hready⟩ := ih.1
    exact ⟨⟨.plain, hready.ready_payload hstep⟩, nofun⟩
  | variantItem h hstep ih =>
    obtain ⟨place, hready⟩ := ih.1
    exact hawaits (hready.awaits_variantItem hstep)
  | variantMember h hkept hstep ih =>
    obtain ⟨place, hready⟩ := ih.1
    exact hawaits (hready.awaits_variantMember hstep)

end SchemaWire
