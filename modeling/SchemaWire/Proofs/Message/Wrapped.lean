import SchemaWire.Proofs.Data.Wrapped
import SchemaWire.Proofs.Message.Entrance

/-!
# Fields within wrappers

A message does not tell whether a field of a struct was written from within wrappers. Whoever
reads the struct with wrappers around the field gets what is read without them, and gets nothing
where nothing is read without them. There is one exception: where a missing value stands for
the field, nothing is found for a wrapper, although what it holds would have been.
-/

namespace SchemaWire

namespace Engine

variable {writer reader : Engine} {hosts : HostType → Prop} {sent : String}

/-- Wrappers around a field of a struct are not seen by who writes the message. -/
theorem alike_encode_wrapAt (engine : Engine) (declared : FieldType) (v : Datum) (place n : Nat) :
    Write.Alike (engine.encode declared (v.wrapAt place n)) (engine.encode declared v) := by
  have hnull : (v.wrapAt place n).isNull = v.isNull := by
    cases v <;> rfl
  have hbody : Write.Alike (engine.encodeBody declared (v.wrapAt place n))
      (engine.encodeBody declared v) := by
    refine (Write.Alike.refl _).bind fun spec => (Write.Alike.refl _).bind fun info => ?_
    exact (Write.alike_datum_wrapAt 0 _ place n v).map _
  unfold encode
  rw [hnull]
  refine (Write.Alike.refl _).bind fun _ => ?_
  cases declared.nullable && v.isNull with
  | true => exact .refl _
  | false => exact hbody.bind fun body => .refl _

/-- The engines match, and the writer has a struct with the given fields registered that is among the
types that both know. -/
structure Serves (writer reader : Engine) (hosts : HostType → Prop) (sent : String)
    (declared : List FieldDescriptor) : Prop extends writer.Matches reader hosts where
  /-- Both know the struct. -/
  shared : hosts (.user sent)
  /-- The struct is registered with its fields. -/
  registered : ∃ spec registration,
    writer.registry.resolve (.scalar (.user sent) false) = .ok spec ∧
      spec.role = .struct registration declared

/-- What the reader of a message comes to behind the annotations of its struct. -/
structure Arrival (writer reader : Engine) (hosts : HostType → Prop) (sent : String)
    (declared : List FieldDescriptor) (content : List (String × Datum)) (bytes : List UInt8) where
  /-- The schemas that the message brings along. -/
  schemas : List Schema
  /-- The tables of the writer in front of the fields. -/
  before : WriteTables
  /-- The tables of the writer at the end. -/
  after : WriteTables
  /-- The type of the struct. -/
  type : WireType
  /-- The schema of the struct. -/
  schema : Schema
  /-- The reader in front of the fields. -/
  start : ReadState
  /-- The reader is told what the writer tells. -/
  concur : (writer.peers reader schemas after.queue).Concur hosts
  /-- The writer's tables are sound. -/
  sound : before.Sound writer.registry
  /-- The reader's names are the writer's. -/
  sameNames : start.names = before.names
  /-- What is left are the fields. -/
  fields : Write.fields ⟨writer.config, writer.registry⟩ 1 declared content before =
    .ok start.input after
  /-- The schema is derived from the declared fields. -/
  derived : Schema.ofFields writer.registry writer.config.compatible declared = .ok schema.fields
  /-- The type is known. -/
  known : ∃ kind, WireType.kindOf type.id = .ok kind
  /-- One struct is not too deep. -/
  deeper : (⟨0, true⟩ : Scope).deeper reader.config.maxDepth = .ok ⟨1, true⟩
  /-- The reader goes on with the struct, and the message has to end with it. -/
  goesOn : ∀ fuel label shape context,
    reader.decodeWithin fuel ⟨label, .scalar (.user sent) false, shape⟩ ⟨bytes, context⟩ =
      match toEnd (Read.datumWithin ⟨reader.config, reader.registry, reader.shapes, schemas⟩ fuel
        ⟨0, true⟩ (.entered type (.struct schema)) shape) start with
      | .ok v t => .ok v ⟨[], ⟨schemas, t.names, t.refs⟩⟩
      | .error e t => .error e ⟨[], ⟨schemas, t.names, t.refs⟩⟩

namespace Serves

variable {declared : List FieldDescriptor} (h : writer.Serves reader hosts sent declared)
include h

/-- The fields of the struct have different names. -/
theorem nodup_declared : (declared.map FieldDescriptor.name).Nodup := by
  obtain ⟨spec, registration, hspec, hrole⟩ := h.registered
  exact h.written.wellFormed.nodup_names (Registry.mem_of_resolve hspec) hrole

/-- The types of the fields are over the types that both know. -/
theorem over_declared : ∀ field ∈ declared, field.type.Among hosts := by
  obtain ⟨spec, registration, hspec, hrole⟩ := h.registered
  obtain ⟨own, other, hown, -, -, hfits, -⟩ | ⟨hcollection, -⟩ := h.types _ h.shared
  · cases (Registry.resolve_eq_ok_iff.mp hspec).symm.trans hown
    have hover := TypeSpec.among_of_fits hfits
    rwa [TypeSpec.fields, hrole] at hover
  · cases hcollection

end Serves

/-- The reader of a message with a struct comes to the fields. -/
theorem Serves.exists_arrival {declared : List FieldDescriptor}
    (h : writer.Serves reader hosts sent declared) {name : String}
    {content : List (String × Datum)} {before after : WriteTables} {message : Message}
    (hencode : writer.encode (.scalar (.user sent) false) (.struct name content) before =
      .ok message after) :
    Nonempty (writer.Arrival reader hosts sent declared content message.toList) := by
  obtain ⟨spec, registration, hresolve, hrole⟩ := h.registered
  have hover : (FieldType.scalar (.user sent) false).Among hosts := h.shared
  obtain ⟨e⟩ := h.exists_entrance hover hencode rfl
  cases hresolve.symm.trans e.registered
  obtain ⟨schema, hschema, hfields⟩ := e.told.exists_schema hrole
  have hdata : Write.datum ⟨writer.config, writer.registry⟩ 0
      (.declared (.scalar (.user sent) false) false false) (.struct name content) e.before =
        .ok e.start.input e.after := e.data
  rw [Write.datum_of_struct hresolve hrole] at hdata
  split at hdata
  · cases hdata
  next hdeep =>
  refine ⟨⟨e.schemas, e.before, e.after, e.type, schema, e.start, e.concur, e.sound, e.sameNames,
    hdata, hfields, e.exists_kind, Scope.deeper_of_le h.depth hdeep true,
    fun fuel label shape context => ?_⟩⟩
  rw [e.goesOn, hschema]
  cases toEnd (Read.datumWithin ⟨reader.config, reader.registry, reader.shapes, e.schemas⟩ fuel
    ⟨0, true⟩ (.entered e.type (.struct schema)) shape) e.start <;> rfl

namespace Arrival

variable {declared : List FieldDescriptor} {content : List (String × Datum)} {bytes : List UInt8}
  (a : writer.Arrival reader hosts sent declared content bytes)

/-- What the reader relies on. -/
def env : ReadEnv := ⟨reader.config, reader.registry, reader.shapes, a.schemas⟩

/-- The reader goes on with the struct up to the end of the message. -/
theorem decodeWithin_eq (n : Nat) (label : String) (shape : Shape) (context : ReadContext) :
    reader.decodeWithin n ⟨label, .scalar (.user sent) false, shape⟩ ⟨bytes, context⟩ =
      closing a.schemas (toEnd (Read.datumWithin a.env n ⟨0, true⟩
        (.entered a.type (.struct a.schema)) shape) a.start) := by
  rw [a.goesOn, env]
  cases toEnd (Read.datumWithin ⟨reader.config, reader.registry, reader.shapes, a.schemas⟩ n
    ⟨0, true⟩ (.entered a.type (.struct a.schema)) shape) a.start <;> rfl

/-- The message is read as a shape if the struct is, and nothing is left behind it. -/
theorem decode_eq_ok_iff (label : String) (shape : Shape) (context : ReadContext) {v : Datum}
    {left : Reading} :
    reader.decode ⟨label, .scalar (.user sent) false, shape⟩ ⟨bytes, context⟩ = .ok v left ↔
      ∃ t, Read.Gives a.env ⟨0, true⟩ (.entered a.type (.struct a.schema)) shape a.start v t ∧
        t.input = [] ∧ left = ⟨[], ⟨a.schemas, t.names, t.refs⟩⟩ :=
  decode_eq_ok_iff_of_goesOn fun n => a.decodeWithin_eq n label shape context

/-- The message is not read as a shape if the struct is not. -/
theorem exists_decode_error (label : String) {shape : Shape} (context : ReadContext) {n : Nat}
    {e : Error} {t : ReadState}
    (hread : Read.datumWithin a.env n ⟨0, true⟩ (.entered a.type (.struct a.schema)) shape a.start =
      .error e t) (he : e ≠ .unfinished) :
    ∃ kept, reader.decode ⟨label, .scalar (.user sent) false, shape⟩ ⟨bytes, context⟩ =
      .error e ⟨[], kept⟩ :=
  exists_decode_error_of_goesOn (fun n => a.decodeWithin_eq n label shape context) hread he

end Arrival

end Engine

/-- The parts in front are of the declared types, and they hold the first values. -/
structure Member.HoldFront (shapes : Shapes) (hosts : HostType → Prop)
    (declared : List FieldDescriptor) (parts : List (Member Shape))
    (content : List (String × Datum)) : Prop where
  /-- The parts have the declared names and types. -/
  declared : declared.map (fun field => (field.name, field.type)) =
    parts.map fun part => (part.name, part.content.declared)
  /-- The shapes of the parts can be declared. -/
  declarable : ∀ part ∈ parts, part.content.Declarable hosts
  /-- The parts hold the values. -/
  holds : ∀ part ∈ parts.zip content, part.1.content.Holds shapes part.2.2

namespace Member.HoldFront

variable {shapes : Shapes} {hosts : HostType → Prop} {declared : List FieldDescriptor}
  {parts : List (Member Shape)} {content : List (String × Datum)}

/-- There is a part for every declared field. -/
theorem length_eq (h : HoldFront shapes hosts declared parts content) :
    declared.length = parts.length := by
  have hsame := congrArg List.length h.declared
  rwa [List.length_map, List.length_map] at hsame

/-- The fields in front are read back in turn. -/
theorem mirrors {peers : Peers} {first rest : List (String × Datum)}
    (h : HoldFront peers.read.shapes hosts declared parts (first ++ rest)) {fuel : Nat}
    (hfollows : peers.Follows hosts fuel) (hheight : Datum.heightOfFields first + 1 < fuel)
    (hnames : declared.map FieldDescriptor.name = first.map Prod.fst) {fields : List SchemaField}
    (hschema : Schema.ofFields peers.write.registry peers.write.config.compatible declared =
      .ok fields) (depth : Nat) (recording : Bool) :
    peers.Mirrors (Write.fields peers.write depth declared first)
      (Read.inTurn
        (fun type => Read.datumWithin peers.read fuel ⟨depth, recording⟩ (.declared type)) fields
        parts) (first.map Prod.snd) := by
  have hparts := Member.names_of_declared h.declared
  refine hfollows.mirrors_inTurn (Peers.inStep_of_ofFields_ok h.declared h.declarable
    (hparts.symm.trans hnames) (fun part hpart => h.holds part ?_) hschema) hheight depth recording
  have hlength : parts.length = first.length := by
    have hsame := congrArg List.length (hparts.symm.trans hnames)
    rwa [List.length_map, List.length_map] at hsame
  rw [← List.append_nil parts, List.zip_append hlength]
  exact List.mem_append_left _ hpart

end Member.HoldFront

namespace Engine

variable {writer reader : Engine} {hosts : HostType → Prop} {sent : String}

/-- What is read of the bytes by the second shape is what is read of them by the first one, with
wrappers around the part at the place. If nothing is read by one shape, nothing is by the other. -/
def ReadsWrapped (reader : Engine) (declared : FieldType) (bytes : List UInt8)
    (bare wrapped : Shape) (place n : Nat) : Prop :=
  ∀ label context value left,
    reader.decode ⟨label, declared, wrapped⟩ ⟨bytes, context⟩ = .ok value left ↔
      ∃ v, reader.decode ⟨label, declared, bare⟩ ⟨bytes, context⟩ = .ok v left ∧
        value = v.wrapAt place n

namespace Arrival

variable {before behind : List FieldDescriptor} {field : FieldDescriptor}
  {content : List (String × Datum)} {bytes : List UInt8}
  (a : writer.Arrival reader hosts sent (before ++ field :: behind) content bytes)

/-- The schema has a field for every declared one. -/
theorem exists_fields : ∃ fields made others, a.schema.fields = fields ++ made :: others ∧
    fields.length = before.length ∧
      Schema.ofFields writer.registry writer.config.compatible before = .ok fields ∧
        WireType.ofFieldType writer.registry writer.config.compatible field.type field.tracked =
          .ok made.type := by
  obtain ⟨fields, rest, hfields, hfirst, hrest⟩ := Schema.exists_of_ofFields_append_ok a.derived
  have hlength := (Schema.forall₂_of_ofFields_ok hfirst).length_eq
  have hothers := Schema.forall₂_of_ofFields_ok hrest
  cases hothers with
  | @cons _ made _ others hmade _ =>
    exact ⟨fields, made, others, hfields, hlength.symm, hfirst, hmade.2.2⟩

section Reading

variable (h : writer.Serves reader hosts sent (before ++ field :: behind))
  {front back : List (Member Shape)} {part : Member Shape}
  (hnames : (before ++ field :: behind).map FieldDescriptor.name =
    (front ++ part :: back).map Member.name)
  {fields others : List SchemaField} {made : SchemaField}
  (hschema : a.schema.fields = fields ++ made :: others) (hlength : fields.length = front.length)
include h hnames hschema hlength

/-- A message is read with wrappers around a part as it is without them. -/
theorem readsWrapped (wrappers : List String) (title : String)
    (hunmistaken : ∀ values u, Read.InTurn a.env ⟨1, true⟩ fields front a.start values u →
      Read.Unmistaken a.env ⟨1, true⟩ (.declared made.type) part.content u) :
    reader.ReadsWrapped (.scalar (.user sent) false) bytes (.struct title (front ++ part :: back))
      (.struct title (front ++ part.wrapped wrappers :: back)) front.length wrappers.length := by
  intro label context value left
  obtain ⟨kind, hkind⟩ := a.known
  have hdistinct : ((front ++ part :: back).map Member.name).Nodup := hnames ▸ h.nodup_declared
  have hsame := (Schema.names_of_ofFields_ok a.derived).trans hnames
  simp only [a.decode_eq_ok_iff]
  simp only [Read.gives_struct_wrapped_iff hlength hkind a.deeper hschema hdistinct hsame title
    hunmistaken wrappers]
  constructor
  · rintro ⟨t, ⟨bare, hbare, rfl⟩, hinput, rfl⟩
    exact ⟨bare, ⟨t, hbare, hinput, rfl⟩, rfl⟩
  · rintro ⟨bare, ⟨t, hbare, hinput, rfl⟩, rfl⟩
    exact ⟨t, ⟨bare, hbare, rfl⟩, hinput, rfl⟩

/-- Where a missing value stands for a part within wrappers, the message is not read. -/
theorem decode_of_missing (wrapper : String) (wrappers : List String) (title : String) {n : Nat}
    {values : List Datum} {u w : ReadState}
    (hfront : Read.inTurn (fun type => Read.datumWithin a.env (n + 1) ⟨1, true⟩ (.declared type))
      fields front a.start = .ok values u)
    (henter : Read.enter a.env true (.declared made.type) u = .ok .null w) (label : String)
    (context : ReadContext) :
    ∃ kept, reader.decode ⟨label, .scalar (.user sent) false,
      .struct title (front ++ part.wrapped (wrapper :: wrappers) :: back)⟩ ⟨bytes, context⟩ =
        .error (Read.wrapperMissing wrapper) ⟨[], kept⟩ := by
  obtain ⟨kind, hkind⟩ := a.known
  have hdistinct : ((front ++ part :: back).map Member.name).Nodup := hnames ▸ h.nodup_declared
  have hsame := (Schema.names_of_ofFields_ok a.derived).trans hnames
  exact a.exists_decode_error label context (Read.datumWithin_struct_of_missing hlength hkind
    a.deeper hschema hdistinct hsame title hfront henter wrapper wrappers) nofun

end Reading

/-- Behind fields whose values the parts in front hold, the reader comes to the field that was
written next: to a missing value, or to one that it has been told of. -/
theorem exists_enter (h : writer.Serves reader hosts sent (before ++ field :: behind))
    {front : List (Member Shape)}
    (hfront : Member.HoldFront reader.shapes hosts before front content)
    {fields : List SchemaField} {made : SchemaField}
    (hfields : Schema.ofFields writer.registry writer.config.compatible before = .ok fields)
    (hmade : WireType.ofFieldType writer.registry writer.config.compatible field.type
      field.tracked = .ok made.type) {name : String} {v : Datum}
    (hvalue : content[front.length]? = some (name, v)) :
    ∃ n values u entry w,
      Read.inTurn (fun type => Read.datumWithin a.env (n + 1) ⟨1, true⟩ (.declared type)) fields
          front a.start = .ok values u ∧
        Read.enter a.env true (.declared made.type) u = .ok entry w ∧
          (v.isPresent = false → entry = .null) ∧
            (v.isPresent = true → ∃ spec resolved, writer.registry.resolve field.type = .ok spec ∧
              (writer.peers reader a.schemas a.after.queue).Describes spec resolved ∧
                entry = .value made.type resolved) := by
  obtain ⟨first, rest, bytesFront, between, bytesBack, rfl, hlength, hinput, hfirst, hrest⟩ :=
    Write.exists_of_fields_append_ok a.fields
  obtain ⟨tail, rfl⟩ : ∃ tail, rest = (name, v) :: tail := by
    rw [← hfront.length_eq, ← hlength, List.getElem?_append_right (Nat.le_refl _), Nat.sub_self]
      at hvalue
    cases rest with
    | nil => cases hvalue
    | cons part tail =>
      cases hvalue
      exact ⟨tail, rfl⟩
  have hkeeps : Write.Keeps writer.registry
      (Write.fields ⟨writer.config, writer.registry⟩ 1 (field :: behind) ((name, v) :: tail)) :=
    (Write.closed_keeps _).fields _ _ _
  have hmirrors := hfront.mirrors (a.concur.follows (Datum.heightOfFields first + 2))
    (Nat.lt_succ_self _) (Write.names_of_fields_ok hfirst) hfields 1 true
  obtain ⟨refs, hread⟩ :=
    hmirrors.reads _ _ _ a.sound (hkeeps _ _ _ hrest).queue hfirst bytesBack a.start.refs
  have hstart : a.start = ⟨bytesFront ++ bytesBack, a.before.names, a.start.refs⟩ := by
    rw [← hinput, ← a.sameNames]
  obtain ⟨-, own, others, bytesValue, middle, bytesTail, heq, -, rfl, hdatum, htail⟩ :=
    Write.exists_of_fields_cons_ok hrest
  obtain ⟨rfl, rfl⟩ := List.cons.inj heq
  have hsound := (hmirrors.keeps _ _ _ hfirst).sound a.sound
  have hover := h.over_declared field (List.mem_append_right _ List.mem_cons_self)
  -- The schemas that the field announces are among those that the message ends with.
  have hqueue : middle.queue <+: a.after.queue := by
    have htailKeeps : Write.Keeps writer.registry
        (Write.fields ⟨writer.config, writer.registry⟩ 1 behind tail) :=
      (Write.closed_keeps _).fields _ _ _
    exact (htailKeeps _ _ _ htail).queue
  obtain ⟨entry, w, henter, hentry⟩ :=
    a.concur.exists_enter_of_datum_ok hover hmade hsound hqueue hdatum true bytesTail refs
  refine ⟨Datum.heightOfFields first + 1, first.map Prod.snd,
    ⟨bytesValue ++ bytesTail, between.names, refs⟩, entry, w, ?_, henter, hentry⟩
  rw [hstart]
  exact hread

include a in
/-- A message is read with wrappers around a part as it is without them, if a present value stands
for the part and is not of a type with a layout of its own. -/
theorem readsWrapped_of_present (h : writer.Serves reader hosts sent (before ++ field :: behind))
    {front back : List (Member Shape)} {part : Member Shape}
    (hnames : (before ++ field :: behind).map FieldDescriptor.name =
      (front ++ part :: back).map Member.name)
    (hfront : Member.HoldFront reader.shapes hosts before front content) {name : String} {v : Datum}
    (hvalue : content[front.length]? = some (name, v)) (hpresent : v.isPresent = true)
    (hown : ∀ spec registration, writer.registry.resolve field.type = .ok spec →
      spec.role ≠ .ext registration) (wrappers : List String) (title : String) :
    reader.ReadsWrapped (.scalar (.user sent) false) bytes (.struct title (front ++ part :: back))
      (.struct title (front ++ part.wrapped wrappers :: back)) front.length wrappers.length := by
  obtain ⟨fields, made, others, hschema, hcount, hfields, hmade⟩ := a.exists_fields
  obtain ⟨n, values, u, entry, w, hread, henter, -, hentry⟩ :=
    a.exists_enter h hfront hfields hmade hvalue
  obtain ⟨spec, resolved, hspec, hdescribes, rfl⟩ := hentry hpresent
  refine a.readsWrapped h hnames hschema (hcount.trans hfront.length_eq) wrappers title
    fun others u' hother => .inr ⟨made.type, resolved, w, ?_, ?_⟩
  · -- Whatever bound the parts in front are read with, the reader comes to the same place.
    obtain ⟨-, rfl⟩ := (Read.InTurn.rising _ _ _ _).eventually_unique hother ⟨n + 1, hread⟩
    exact henter
  · rintro host rfl
    cases hdescribes with
    | ext hrole => exact hown spec _ hspec hrole

end Arrival

end Engine

/-- Wrappers around a field of a struct are not seen by who writes a message. They are not seen by
who reads it either, if the field has nothing for a missing value, or if it holds a present value
that is not of a type with a layout of its own. Where a missing value stands for the field, though,
nothing is read with wrappers around it. -/
theorem wrappers_transparent {writer reader : Engine} {hosts : HostType → Prop} {sent : String}
    {before behind : List FieldDescriptor} {field : FieldDescriptor}
    (h : writer.Serves reader hosts sent (before ++ field :: behind))
    {front back : List (Member Shape)} {part : Member Shape}
    (hlength : before.length = front.length)
    (hnames : (before ++ field :: behind).map FieldDescriptor.name =
      (front ++ part :: back).map Member.name)
    (title name : String) (content : List (String × Datum)) (wrappers : List String) :
    (∀ first message last,
      writer.encode (.scalar (.user sent) false)
          ((Datum.struct name content).wrapAt front.length wrappers.length) first =
            .ok message last ↔
        writer.encode (.scalar (.user sent) false) (.struct name content) first =
          .ok message last) ∧
    ∀ first message last,
      writer.encode (.scalar (.user sent) false) (.struct name content) first = .ok message last →
      ((reader.shapes.resolve part.content).acceptsMissing = false →
        reader.ReadsWrapped (.scalar (.user sent) false) message.toList
          (.struct title (front ++ part :: back))
          (.struct title (front ++ part.wrapped wrappers :: back)) front.length
          wrappers.length) ∧
      (Member.HoldFront reader.shapes hosts before front content →
        ∀ own v, content[front.length]? = some (own, v) →
          (v.isPresent = true →
            (∀ spec registration, writer.registry.resolve field.type = .ok spec →
              spec.role ≠ .ext registration) →
            reader.ReadsWrapped (.scalar (.user sent) false) message.toList
              (.struct title (front ++ part :: back))
              (.struct title (front ++ part.wrapped wrappers :: back)) front.length
              wrappers.length) ∧
          (v.isPresent = false → ∀ wrapper others, wrappers = wrapper :: others →
            ∀ label context, ∃ kept,
              reader.decode ⟨label, .scalar (.user sent) false,
                .struct title (front ++ part.wrapped wrappers :: back)⟩
                  ⟨message.toList, context⟩ =
                .error (Read.wrapperMissing wrapper) ⟨[], kept⟩)) := by
  refine ⟨fun first message last => writer.alike_encode_wrapAt _ _ _ _ first message last,
    fun first message last hencode => ?_⟩
  obtain ⟨a⟩ := h.exists_arrival hencode
  obtain ⟨fields, made, others, hschema, hcount, hfields, hmade⟩ := a.exists_fields
  refine ⟨fun haccepts => ?_, fun hfront own v hvalue => ⟨fun hpresent hown => ?_, ?_⟩⟩
  · exact a.readsWrapped h hnames hschema (hcount.trans hlength) wrappers title
      fun _ _ _ => .inl haccepts
  · exact a.readsWrapped_of_present h hnames hfront hvalue hpresent hown wrappers title
  · rintro hmissing wrapper others rfl label context
    obtain ⟨n, values, u, entry, w, hread, henter, hnull, -⟩ :=
      a.exists_enter h hfront hfields hmade hvalue
    cases hnull hmissing
    exact a.decode_of_missing h hnames hschema (hcount.trans hlength) wrapper others title hread
      henter label context

namespace Sample

/-- The lines of a note are a number. -/
def lines : FieldDescriptor :=
  ⟨"lines", .scalar (.int .uint8) false, false⟩

/-- The stars of a note may be missing. -/
def stars : FieldDescriptor :=
  ⟨"stars", .scalar (.int .uint8) true, false⟩

/-- The part of a note that is for its lines. -/
def linesPart : Member Shape :=
  ⟨"lines", false, .int .uint8⟩

/-- The part of a note that is for its stars. -/
def starsPart : Member Shape :=
  ⟨"stars", true, .option (.int .uint8)⟩

/-- A registry with notes, registered by a number. -/
def notes : Registry where
  specs := Registry.standard.specs ++
    [⟨some (.user "Note"), "Note", false, .struct (.id 1) [lines, stars]⟩]

/-- An engine for notes. -/
def critic : Engine where
  config := ⟨false, false, .none, 5⟩
  registry := notes
  shapes := [("Note", .struct "Note" [linesPart, starsPart])]

/-- The content of a note of three lines, with the given stars. -/
def note (value : Datum) : List (String × Datum) :=
  [("lines", .int .uint8 3), ("stars", value)]

/-- The registry of notes is built by one registration. -/
theorem built_notes : notes.Built := by
  have hadded : Registry.standard.registerStruct (.user "Note") (.id 1) [lines, stars] =
      .ok notes := rfl
  exact .struct .standard hadded

/-- The engine for notes serves itself. -/
theorem serves_critic :
    critic.Serves critic (· = HostType.user "Note") "Note" ([lines] ++ stars :: []) where
  xlang := rfl
  compatible := rfl
  refMode := rfl
  depth := Nat.le_refl _
  written := built_notes
  own := built_notes
  addressable := by decide +kernel
  types := by
    rintro host rfl
    refine .inl ⟨_, _, rfl, rfl, rfl, .struct rfl fun member hmember => ?_, nofun⟩
    rcases List.mem_pair.mp hmember with rfl | rfl
    · exact .int .uint8
    · exact .option rfl (.int .uint8)
  shared := rfl
  registered := ⟨_, _, rfl, rfl⟩

/-- The part for the lines holds those of a note. -/
theorem holdFront_note (value : Datum) :
    Member.HoldFront critic.shapes (· = HostType.user "Note") [lines] [linesPart] (note value) where
  declared := rfl
  declarable part hpart := by
    cases List.mem_singleton.mp hpart
    exact .int .uint8
  holds part hpart := by
    cases List.mem_singleton.mp hpart
    exact .int rfl

/-- The message of a note with the given stars. -/
def noteMessage? (value : Datum) : Option (List UInt8) :=
  match critic.encode (.scalar (.user "Note") false) (.struct "Note" (note value)) .empty with
  | .ok message _ => some message.toList
  | .error .. => none

/-- Whether the stars of a note are found to be missing by who reads them as the given shape, or why
the note is not read. -/
def starsMissing? (shape : Shape) (bytes : List UInt8) : Except Error Bool :=
  match critic.decode ⟨"Note", .scalar (.user "Note") false,
      .struct "Note" [linesPart, ⟨"stars", true, shape⟩]⟩ ⟨bytes, .empty⟩ with
  | .ok (.struct _ [_, (_, value)]) _ => .ok value.isNull
  | .ok _ _ => .ok false
  | .error e _ => .error e

end Sample

/-- A note with five stars is written and read with two wrappers around its stars as it is without
them. -/
theorem wrappers_transparent_note : ∃ message last,
    Sample.critic.encode (.scalar (.user "Note") false)
        (.struct "Note" (Sample.note (.newtype (.newtype (.some (.int .uint8 5)))))) .empty =
      .ok message last ∧
    Sample.critic.ReadsWrapped (.scalar (.user "Note") false) message.toList
      (.struct "Note" [Sample.linesPart, Sample.starsPart])
      (.struct "Note" [Sample.linesPart, Sample.starsPart.wrapped ["Rating", "Stars"]]) 1 2 := by
  have hencode : ∃ message last, Sample.critic.encode (.scalar (.user "Note") false)
      (.struct "Note" (Sample.note (.some (.int .uint8 5)))) .empty = .ok message last :=
    ⟨_, _, rfl⟩
  have hbuiltin : ∀ spec registration,
      Sample.critic.registry.resolve Sample.stars.type = .ok spec →
        spec.role ≠ .ext registration := by
    intro spec registration hspec
    cases hspec
    exact nofun
  obtain ⟨message, last, hencode⟩ := hencode
  have hlength : [Sample.lines].length = [Sample.linesPart].length := rfl
  have hnames : ([Sample.lines] ++ Sample.stars :: []).map FieldDescriptor.name =
      ([Sample.linesPart] ++ Sample.starsPart :: []).map Member.name := rfl
  obtain ⟨hwritten, hread⟩ := wrappers_transparent Sample.serves_critic hlength hnames "Note" "Note"
    (Sample.note (.some (.int .uint8 5))) ["Rating", "Stars"]
  obtain ⟨-, hheld⟩ := hread .empty message last hencode
  obtain ⟨hpresent, -⟩ := hheld (Sample.holdFront_note _) "stars" (.some (.int .uint8 5)) rfl
  exact ⟨message, last, (hwritten .empty message last).mpr hencode, hpresent rfl hbuiltin⟩

/-- A note without stars that was written with a wrapper around them is read without the wrapper,
but with the wrapper it is not. -/
theorem wrapper_hides_missing :
    Sample.noteMessage? (.newtype .none) = some [2, 143, 2, 3, 253] ∧
      Sample.starsMissing? (.option (.int .uint8)) [2, 143, 2, 3, 253] = .ok true ∧
        Sample.starsMissing? (.newtype "Stars" (.option (.int .uint8))) [2, 143, 2, 3, 253] =
          .error (Read.wrapperMissing "Stars") := by
  decide +kernel

end SchemaWire
