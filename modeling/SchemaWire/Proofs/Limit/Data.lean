import SchemaWire.Proofs.Data.Fields
import SchemaWire.Proofs.Limit.World

/-!
# Reading data in a circle

Reading a value and passing over one are traced: call by call they go on to values whose
places occur, and with more told they go on in the same way.
-/

namespace SchemaWire

namespace Read

variable {entry : RefEntry} {read : Spot → Read Datum} {s : ReadState}

/-- A value that is read again is read from where it first stood, and the reader comes back. -/
theorem again_of_ok {value : Datum} {t : ReadState}
    (h : read (.entered entry.type entry.resolved) { s with input := entry.start } = .ok value t) :
    again entry read s = .ok value { t with input := s.input } := by
  refine (bind_of_ok (rfl : (get : Read ReadState) s = .ok s s)).trans ?_
  exact (bind_of_ok rfl).trans (bind_of_ok h)

/-- A value that cannot be read again is not read. -/
theorem again_of_error {e : Error} {t : ReadState}
    (h : read (.entered entry.type entry.resolved) { s with input := entry.start } = .error e t) :
    again entry read s = .error e t := by
  refine (bind_of_ok (rfl : (get : Read ReadState) s = .ok s s)).trans ?_
  exact (bind_of_ok rfl).trans (bind_of_error h)

/-- A value that was read again was read from where it first stood. -/
theorem exists_of_again_ok {value : Datum} {t : ReadState} (h : again entry read s = .ok value t) :
    ∃ u, read (.entered entry.type entry.resolved) { s with input := entry.start } = .ok value u ∧
      t = { u with input := s.input } := by
  cases hread : read (.entered entry.type entry.resolved) { s with input := entry.start } with
  | ok other u =>
    rw [again_of_ok hread] at h
    cases h
    exact ⟨u, rfl, rfl⟩
  | error e u =>
    rw [again_of_error hread] at h
    cases h

/-- Reading a value again ends where reading it from where it first stood ends. -/
theorem unfinished_again_iff : Unfinished (again entry read s) ↔
    Unfinished (read (.entered entry.type entry.resolved) { s with input := entry.start }) := by
  cases hread : read (.entered entry.type entry.resolved) { s with input := entry.start } with
  | ok value u =>
    rw [again_of_ok hread]
    exact ⟨nofun, nofun⟩
  | error e u => rw [again_of_error hread]

end Read

namespace World

variable {env : ReadEnv} {world : World env} {bounds : Nat → Prop} {post : Datum → Prop}

/-- Reading a value again is traced where reading it is. -/
theorem traced_again {entry : RefEntry} (hentry : world.HasRef entry)
    {R : Nat → Spot → Read Datum}
    (h : world.realm.Traced bounds (fun n => R n (.entered entry.type entry.resolved)) post) :
    world.realm.Traced bounds (fun n => Read.again entry (R n)) post where
  steady := by
    intro n m s hn hm hle hs hend
    have hback : world.realm.Inside { s with input := entry.start } := ⟨hentry.start, hs.2⟩
    have hfirst : ¬Unfinished
        (R n (.entered entry.type entry.resolved) { s with input := entry.start }) :=
      fun hstuck => hend (Read.unfinished_again_iff.mpr hstuck)
    have hsame := h.steady hn hm hle hback hfirst
    cases hread : R n (.entered entry.type entry.resolved) { s with input := entry.start } with
    | ok value t => rw [Read.again_of_ok hread, Read.again_of_ok (hsame.trans hread)]
    | error e t => rw [Read.again_of_error hread, Read.again_of_error (hsame.trans hread)]
  settles := by
    intro n s value t hn hs hok
    obtain ⟨u, hread, rfl⟩ := Read.exists_of_again_ok hok
    have hback : world.realm.Inside { s with input := entry.start } := ⟨hentry.start, hs.2⟩
    obtain ⟨hvalue, hu, hwithin⟩ := h.settles hn hback hread
    exact ⟨hvalue, ⟨hs.1, hu.2⟩, hwithin⟩
  repeats := by
    intro n s value t u hn hs hok hu hinput hwithin
    obtain ⟨v, hread, rfl⟩ := Read.exists_of_again_ok hok
    have hback : world.realm.Inside { s with input := entry.start } := ⟨hentry.start, hs.2⟩
    have hother : world.realm.Inside { u with input := entry.start } := ⟨hentry.start, hu.2⟩
    obtain ⟨w, hsecond, -⟩ := h.repeats hn hback hread hother rfl hwithin
    exact ⟨_, Read.again_of_ok hsecond, hinput⟩
  waits := by
    intro n s hn hs hstuck
    have hback : world.realm.Inside { s with input := entry.start } := ⟨hentry.start, hs.2⟩
    rcases h.waits hn hback (Read.unfinished_again_iff.mp hstuck) with
      hnever | ⟨job, t, hjob, hcomes⟩
    · exact .inl fun k hk => Read.unfinished_again_iff.mpr (hnever k hk)
    · refine .inr ⟨job, t, hjob, hcomes.has, hcomes.inside, hcomes.within, ?_, ?_⟩
      · exact fun k hk hwaits => Read.unfinished_again_iff.mpr (hcomes.awaits k hk hwaits)
      · intro u hu hinput hwithin
        obtain ⟨v, hv, hsame, hmore, hawaits⟩ :=
          hcomes.again { u with input := entry.start } ⟨hentry.start, hu.2⟩ rfl hwithin
        exact ⟨v, hv, hsame, hmore, fun k hk hwaits =>
          Read.unfinished_again_iff.mpr (hawaits k hk hwaits)⟩

/-- The type of what a collection holds occurs. -/
theorem mem_of_argument {type arg : WireType} (htype : type ∈ world.types) {index : Nat}
    (h : Read.argument type index = .ok arg) : arg ∈ world.types := by
  unfold Read.argument at h
  cases hat : type.args[index]? with
  | none =>
    rw [hat] at h
    cases h
  | some found =>
    rw [hat] at h
    cases h
    exact world.args type htype arg (List.mem_of_getElem? hat)

/-- Going into one struct more stays within the limit. -/
theorem depth_of_deeper {scope inner : Scope} (h : scope.deeper env.config.maxDepth = .ok inner) :
    inner.depth ≤ env.config.maxDepth := by
  unfold Scope.deeper at h
  split at h
  next => cases h
  next hdepth =>
    cases h
    exact Nat.le_of_not_lt hdepth

section Calls

/-- Reading values and passing over them is traced. -/
structure TracedCalls (world : World env) (bounds : Nat → Prop) : Prop where
  /-- Reading values is. -/
  read : ∀ {scope spot shape}, scope.depth ≤ env.config.maxDepth → world.HasSpot spot →
    shape ∈ world.shapes →
    world.realm.Traced bounds (fun n => Read.datumWithin env n scope spot shape) fun _ => True
  /-- Passing over values is. -/
  pass : ∀ {scope spot}, scope.depth ≤ env.config.maxDepth → world.HasSpot spot →
    world.realm.Traced bounds (fun n => Read.skipWithin env n scope spot) fun _ => True

variable (ih : world.TracedCalls bounds) {scope : Scope}
  (hscope : scope.depth ≤ env.config.maxDepth)

/-- Plain reading is traced. -/
theorem traced_plain {shape : Shape} (hshape : shape ∈ world.shapes) :
    world.realm.Traced bounds (fun n => Read.take (Take.plainWithin env.shapes n shape))
      fun _ => True :=
  traced_take ((Plain.traced_plainWithin world.stable hshape).restrict fun _ _ => trivial)

/-- Reading a number is traced. -/
theorem traced_number (t : IntType) {body : Take Int}
    (hbody : world.plainRealm.Traced bounds (fun _ => body) fun _ => True) (shape : Shape) :
    world.realm.Traced bounds (fun _ => Read.number t body shape) fun _ => True :=
  (traced_take hbody).bind fun _ _ => .ofExcept fun _ _ => trivial

include ih hscope

/-- Elements of a wire type that occurs are traced. -/
theorem traced_elements {type : WireType} (htype : type ∈ world.types) {shapes : List Shape}
    (hshapes : ∀ shape ∈ shapes, shape ∈ world.shapes) :
    world.realm.TracedElements bounds
      (fun n _ shape => Read.datumWithin env n scope (.declared type) shape) shapes :=
  fun shape hshape _ => ih.read hscope htype (hshapes shape hshape)

/-- Reading a builtin value is traced. -/
theorem traced_known (kind : Kind) {type : WireType} (htype : type ∈ world.types) {shape : Shape}
    (hshape : shape ∈ world.shapes) :
    world.realm.Traced bounds (fun n => Read.known env
      (fun type shape => Read.datumWithin env n scope (.declared type) shape) kind type shape)
      fun _ => True := by
  have hparts := world.stable.parts shape hshape
  have helements {type : WireType} (htype : type ∈ world.types) :=
    traced_elements ih hscope htype hparts
  have hcount : world.realm.Traced bounds (fun _ => Read.take Varint.take32) fun _ => True :=
    traced_take (Plain.traced_varint Varint.word32)
  have hargument (index : Nat) : world.realm.Traced bounds
      (fun _ => MonadExcept.ofExcept (Read.argument type index)) (· ∈ world.types) :=
    .ofExcept fun _ h => mem_of_argument htype h
  cases kind with
  | boolean => exact (traced_take Plain.traced_byte).bind fun _ _ => .ofExcept fun _ _ => trivial
  | int8 | int16 | int32 | int64 | uint8 | uint16 | uint32 | uint64 | timestamp | localDate =>
    exact traced_number _ (Plain.traced_integerBody _) shape
  | varInt32 => exact traced_number _ (Plain.traced_signed Varint.word32) shape
  | varInt64 => exact traced_number _ (Plain.traced_signed Varint.word64) shape
  | sliInt64 => exact traced_number _ Plain.traced_shortOrLong shape
  | float16 | float32 | float64 =>
    exact (traced_take (Plain.traced_natural _)).bind fun _ _ => .ofExcept fun _ _ => trivial
  | string => exact (traced_take Plain.traced_textBody).bind fun _ _ => .ofExcept fun _ _ => trivial
  | binary => exact (traced_take Plain.traced_counted).bind fun _ _ => .ofExcept fun _ _ => trivial
  | duration =>
    refine (traced_take (Plain.traced_signed Varint.word64)).bind fun seconds _ => ?_
    refine (traced_take (Plain.traced_integer 4)).bind fun nanos _ => ?_
    have hpart : world.realm.TracedElements bounds (fun _ index shape =>
        MonadExcept.ofExcept
          ((env.shapes.resolve shape).ofInt .int64 (if index = 0 then seconds else nanos)))
        shape.parts :=
      fun _ _ _ => .ofExcept fun _ _ => trivial
    exact (hpart.visit 2).map Prod.fst
  | list | set =>
    refine (hargument 0).bind fun element helement => hcount.bind fun count _ => ?_
    refine ((helements helement).visit count).bind fun found _ => ?_
    by_cases hleft : found.2 < count
    · simp only [if_pos hleft]
      exact (Realm.Traced.throw _ fun _ => True).bind fun _ _ => .pure trivial
    · simp only [if_neg hleft]
      exact .pure trivial
  | map =>
    refine (hargument 0).bind fun key hkey => (hargument 1).bind fun value hvalue => ?_
    refine hcount.bind fun count _ => ?_
    refine (Realm.traced_visit (helements hkey) (helements hvalue) count).bind fun found _ => ?_
    by_cases hleft : found.2 < count
    · simp only [if_pos hleft]
      exact (Realm.Traced.throw _ fun _ => True).bind fun _ _ => .pure trivial
    · simp only [if_neg hleft]
      exact .pure trivial
  | _ => exact .throw _ _

/-- Reading the fields of a struct is traced. -/
theorem traced_fields {fields : List SchemaField}
    (hfields : ∀ field ∈ fields, field.type ∈ world.types) {parts : List (Member Shape)}
    (hparts : ∀ part ∈ parts, part.content ∈ world.shapes) (found : List (Nat × Datum)) :
    world.realm.Traced bounds (fun n => Read.fields
      (fun type shape => Read.datumWithin env n scope (.declared type) shape)
      (fun type => Read.skipWithin env n scope (.declared type)) parts fields found)
      fun _ => True := by
  induction fields generalizing found with
  | nil => exact .pure trivial
  | cons field rest ihrest =>
    have hspot : world.HasSpot (.declared field.type) := hfields field List.mem_cons_self
    have hrest := ihrest fun field h => hfields field (List.mem_cons_of_mem _ h)
    unfold Read.fields
    cases hpart : (do
        let place ← Name.match? (parts.map Member.name) field.name
        let part ← parts[place]?
        return (place, part)) with
    | none =>
      dsimp only
      exact (ih.pass hscope hspot).bind fun _ _ => hrest found
    | some matched =>
      obtain ⟨place, part⟩ := matched
      obtain ⟨other, -, hother⟩ := Option.bind_eq_some_iff.mp hpart
      obtain ⟨own, hown, hsame⟩ := Option.bind_eq_some_iff.mp hother
      cases hsame
      have hcontent := ih.read hscope hspot (hparts part (List.mem_of_getElem? hown))
      dsimp only
      by_cases htwice : (found.lookup place).isSome
      · simp only [if_pos htwice]
        exact (Realm.Traced.throw _ fun _ => True).bind fun _ _ => hcontent.bind fun _ _ => hrest _
      · simp only [if_neg htwice]
        exact hcontent.bind fun _ _ => hrest _

/-- Filling a shape with the fields of a struct is traced. -/
theorem traced_entries {schema : Schema} (hschema : .struct schema ∈ world.resolutions)
    {shape : Shape} (hshape : shape ∈ world.shapes) :
    world.realm.Traced bounds (fun n => do
      let key : Elements ReadState := fun index shape =>
        match schema.fields[index]? with
        | some field => MonadExcept.ofExcept ((env.shapes.resolve shape).ofName field.name)
        | none => throw .rejected
      let value : Elements ReadState := fun index shape =>
        match schema.fields[index]? with
        | some field => Read.datumWithin env n scope (.declared field.type) shape
        | none => throw .rejected
      return (← Entries.visit ⟨key, value⟩ schema.fields.length shape).1) fun _ => True := by
  refine (Realm.traced_visit ?_ ?_ _).map Prod.fst
  · intro part _ index
    dsimp only
    cases schema.fields[index]? with
    | none => exact .throw _ _
    | some field => exact .ofExcept fun _ _ => trivial
  · intro part hpart index
    have hparts := world.stable.parts shape hshape part hpart
    dsimp only
    cases hfield : schema.fields[index]? with
    | none => exact .throw _ _
    | some field =>
      have hspot : world.HasSpot (.declared field.type) :=
        world.fields schema hschema field (List.mem_of_getElem? hfield)
      exact ih.read hscope hspot hparts

/-- Reading a struct is traced. -/
theorem traced_struct {schema : Schema} (hschema : .struct schema ∈ world.resolutions)
    {shape : Shape} (hshape : shape ∈ world.shapes) :
    world.realm.Traced bounds (fun n => Read.struct env
      (fun type shape => Read.datumWithin env n scope (.declared type) shape)
      (fun type => Read.skipWithin env n scope (.declared type)) schema shape) fun _ => True := by
  have hfields := world.fields schema hschema
  have hparts := world.stable.parts shape hshape
  have hentries := traced_entries ih hscope hschema hshape
  cases shape with
  | struct name parts =>
    have hcontents (part : Member Shape) (hpart : part ∈ parts) : part.content ∈ world.shapes :=
      hparts _ (List.mem_cons_of_mem _ (List.mem_cons_of_mem _ (List.mem_map_of_mem hpart)))
    refine (traced_fields ih hscope hfields hcontents []).bind fun found _ => ?_
    exact (Realm.Traced.ofExcept fun _ _ => trivial).map (Datum.struct name)
  | _ => exact hentries

omit ih hscope in
/-- Reading an enum is traced. -/
theorem traced_enum (shape : Shape) :
    world.realm.Traced bounds (fun _ => Read.enum shape) fun _ => True := by
  refine (traced_take (Plain.traced_varint Varint.word32)).bind fun index _ => ?_
  cases shape <;> exact .ofExcept fun _ _ => trivial

omit ih hscope in
/-- Reading a value with a layout of its own is traced. -/
theorem traced_ext {shape : Shape} (hshape : shape ∈ world.shapes) :
    world.realm.Traced bounds (fun n => Read.ext env n shape) fun _ => True := by
  have hplain : world.realm.Traced bounds
      (fun n => Read.take (Take.plainWithin env.shapes n shape)) fun _ => True :=
    traced_plain hshape
  cases shape with
  | any | identifier | choice names => exact .throw _ _
  | _ => exact hplain

omit ih hscope in
/-- What is done inside one struct more is traced. -/
theorem traced_deeper {α : Type} (scope : Scope) {R : Scope → Nat → Read α}
    (h : ∀ inner : Scope, inner.depth ≤ env.config.maxDepth →
      world.realm.Traced bounds (R inner) fun _ => True) :
    world.realm.Traced bounds (fun n => do
      let inner ← MonadExcept.ofExcept (scope.deeper env.config.maxDepth)
      R inner n) fun _ => True :=
  (Realm.Traced.ofExcept fun _ => depth_of_deeper).bind h

/-- Reading what stands behind the annotations of a value is traced. -/
theorem traced_content {type : WireType} (htype : type ∈ world.types) {resolved : Resolved}
    (hresolved : resolved ∈ world.resolutions) {shape : Shape} (hshape : shape ∈ world.shapes) :
    world.realm.Traced bounds (fun n => Read.content env n (Read.datumWithin env n)
      (Read.skipWithin env n) scope type resolved shape) fun _ => True := by
  have hparts := world.stable.parts shape hshape
  have hspot : world.HasSpot (.entered type resolved) := ⟨htype, hresolved⟩
  have henum : world.realm.Traced bounds (fun _ => Read.enum shape) fun _ => True :=
    traced_enum shape
  have hstruct {schema : Schema} (h : .struct schema ∈ world.resolutions) :=
    traced_deeper scope fun inner hinner => traced_struct ih hinner h hshape
  cases shape with
  | option content =>
    exact (ih.read hscope hspot (hparts content List.mem_cons_self)).map Datum.some
  | ignored => exact (ih.pass hscope hspot).bind fun _ _ => .pure trivial
  | newtype name content =>
    have hcontent := (ih.read hscope hspot (hparts content List.mem_cons_self)).map Datum.newtype
    cases resolved with
    | ext host => exact traced_ext hshape
    | _ => exact hcontent
  | _ =>
    cases resolved with
    | ext host => exact traced_ext hshape
    | struct schema => exact hstruct hresolved
    | enum => exact henum
    | known kind => exact traced_known ih hscope kind htype hshape

/-- Passing over a builtin value is traced. -/
theorem traced_skipKnown (kind : Kind) {type : WireType} (htype : type ∈ world.types) :
    world.realm.Traced bounds (fun n => Read.skipKnown
      (fun type => Read.skipWithin env n scope (.declared type)) kind type) fun _ => True := by
  have hcount : world.realm.Traced bounds (fun _ => Read.take Varint.take32) fun _ => True :=
    traced_take (Plain.traced_varint Varint.word32)
  have hargument (index : Nat) : world.realm.Traced bounds
      (fun _ => MonadExcept.ofExcept (Read.argument type index)) (· ∈ world.types) :=
    .ofExcept fun _ h => mem_of_argument htype h
  cases kind with
  | boolean | int8 | uint8 | int16 | uint16 | float16 | int32 | uint32 | float32 | localDate | int64
  | uint64 | float64 | timestamp => exact traced_take (Plain.traced_skip _)
  | varInt32 =>
    exact (traced_take (Plain.traced_signed Varint.word32)).bind fun _ _ => .pure trivial
  | varInt64 =>
    exact (traced_take (Plain.traced_signed Varint.word64)).bind fun _ _ => .pure trivial
  | sliInt64 => exact (traced_take Plain.traced_shortOrLong).bind fun _ _ => .pure trivial
  | string =>
    exact (traced_take (Plain.traced_varint Varint.word36)).bind fun header _ =>
      traced_take (Plain.traced_skip (header / 4))
  | binary => exact hcount.bind fun length _ => traced_take (Plain.traced_skip length)
  | duration =>
    exact (traced_take (Plain.traced_signed Varint.word64)).bind fun _ _ =>
      traced_take (Plain.traced_skip 4)
  | list | set =>
    refine (hargument 0).bind fun element helement => hcount.bind fun count _ => ?_
    have hspot : world.HasSpot (.declared element) := helement
    exact (Realm.traced_times (ih.pass hscope hspot) count).bind fun _ _ => .pure trivial
  | map =>
    refine (hargument 0).bind fun key hkey => (hargument 1).bind fun value hvalue => ?_
    have hfirst : world.HasSpot (.declared key) := hkey
    have hsecond : world.HasSpot (.declared value) := hvalue
    have hentry := (ih.pass hscope hfirst).bind fun _ _ => ih.pass hscope hsecond
    exact hcount.bind fun count _ =>
      (Realm.traced_times hentry count).bind fun _ _ => .pure trivial
  | _ => exact .throw _ _

/-- Passing over the fields of a struct is traced. -/
theorem traced_skipFields {fields : List SchemaField}
    (hfields : ∀ field ∈ fields, field.type ∈ world.types) :
    world.realm.Traced bounds (fun n => Read.skipFields
      (fun type => Read.skipWithin env n scope (.declared type)) fields) fun _ => True := by
  induction fields with
  | nil => exact .pure trivial
  | cons field rest ihrest =>
    have hspot : world.HasSpot (.declared field.type) := hfields field List.mem_cons_self
    exact (ih.pass hscope hspot).bind fun _ _ =>
      ihrest fun field h => hfields field (List.mem_cons_of_mem _ h)

/-- Passing over what stands behind the annotations of a value is traced. -/
theorem traced_skipContent {type : WireType} (htype : type ∈ world.types) {resolved : Resolved}
    (hresolved : resolved ∈ world.resolutions) :
    world.realm.Traced bounds (fun n => Read.skipContent env n (Read.skipWithin env n) scope
      type resolved) fun _ => True := by
  cases resolved with
  | ext host =>
    cases host with
    | none => exact .throw _ _
    | some host =>
      exact (traced_plain (world.hosts host hresolved)).bind fun _ _ => .pure trivial
  | enum =>
    exact (traced_take (Plain.traced_varint Varint.word32)).bind fun _ _ => .pure trivial
  | struct schema =>
    exact traced_deeper scope fun inner hinner =>
      traced_skipFields ih hinner (world.fields schema hresolved)
  | known kind => exact traced_skipKnown ih hscope kind htype

/-- The first call of whoever passes over a value is traced where the calls below it are. -/
theorem traced_pass_step {spot : Spot} (hspot : world.HasSpot spot) :
    world.realm.Traced bounds (fun n => Read.skipWithin env (n + 1) scope spot)
      fun _ => True := by
  refine (traced_enter scope.recording hspot).bind fun entry hentry => ?_
  cases entry with
  | null | ref entry => exact .pure trivial
  | value type resolved => exact traced_skipContent ih hscope hentry.1 hentry.2

/-- Reading what the annotations of a value announce is traced where the calls below it are. -/
theorem traced_entered {spot : Spot} (hspot : world.HasSpot spot) {shape : Shape}
    (hshape : shape ∈ world.shapes) :
    world.realm.Traced bounds (fun n => do
      match ← Read.enter env scope.recording spot with
      | .null => MonadExcept.ofExcept (Read.missing shape)
      | .ref entry =>
        Read.again entry fun spot =>
          Read.datumWithin env n { scope with recording := false } spot shape
      | .value type resolved =>
        Read.content env n (Read.datumWithin env n) (Read.skipWithin env n) scope type resolved
          shape)
      fun _ => True := by
  refine (traced_enter scope.recording hspot).bind fun entry hentry => ?_
  cases entry with
  | null => exact .ofExcept fun _ _ => trivial
  | ref entry =>
    have hback : world.HasSpot (.entered entry.type entry.resolved) :=
      ⟨hentry.type, hentry.resolved⟩
    exact traced_again hentry (ih.read hscope hback hshape)
  | value type resolved => exact traced_content ih hscope hentry.1 hentry.2 hshape

/-- The first call of a reader of a value is traced where the calls below it are. -/
theorem traced_read_step {spot : Spot} (hspot : world.HasSpot spot) {shape : Shape}
    (hshape : shape ∈ world.shapes) :
    world.realm.Traced bounds (fun n => Read.datumWithin env (n + 1) scope spot shape)
      fun _ => True := by
  have hown := world.stable.resolve shape hshape
  unfold Read.datumWithin
  generalize env.shapes.resolve shape = own at hown
  have hentered := traced_entered ih hscope hspot hown
  cases own with
  | refused => exact (Realm.Traced.throw _ fun _ => True).bind fun _ _ => hentered
  | _ => exact hentered

end Calls

/-- Whoever passes over a value does that job. -/
theorem runs_pass {scope : Scope} (hscope : scope.depth ≤ env.config.maxDepth) {spot : Spot}
    (hspot : world.HasSpot spot) :
    world.realm.Runs (.pass scope spot) fun n => Read.skipWithin env n scope spot where
  has := ⟨hscope, hspot⟩
  stuck _ _ := Iff.rfl
  zero s := ⟨s, rfl⟩

/-- A reader of a value does that job. -/
theorem runs_read {scope : Scope} (hscope : scope.depth ≤ env.config.maxDepth) {spot : Spot}
    (hspot : world.HasSpot spot) {shape : Shape} (hshape : shape ∈ world.shapes) :
    world.realm.Runs (.read scope spot shape) fun n => Read.datumWithin env n scope spot shape where
  has := ⟨hscope, hspot, hshape⟩
  stuck _ _ := Iff.rfl
  zero s := ⟨s, rfl⟩

/-- A plain reader does the job of its shape. -/
theorem runs_plain {shape : Shape} (hshape : shape ∈ world.shapes) :
    world.realm.Runs (.plain shape) fun n => Read.take (Take.plainWithin env.shapes n shape) where
  has := hshape
  stuck _ _ := Read.unfinished_take_iff.symm
  zero _ := ⟨_, rfl⟩

/-- Reading values and passing over them is traced with bounds below every number. -/
theorem tracedCalls_below (limit : Nat) : world.TracedCalls (· < limit) := by
  induction limit with
  | zero =>
    constructor
    · intro scope spot shape _ _ _
      exact Realm.traced_lt_zero _ _
    · intro scope spot _ _
      exact Realm.traced_lt_zero _ _
  | succ limit ih =>
    constructor
    · intro scope spot shape hscope hspot hshape
      exact (runs_read hscope hspot hshape).traced_succ (traced_read_step ih hscope hspot hshape)
    · intro scope spot hscope hspot
      exact (runs_pass hscope hspot).traced_succ (traced_pass_step ih hscope hspot)

/-- Reading values and passing over them is traced. -/
theorem tracedCalls : world.TracedCalls fun _ => True where
  read hscope hspot hshape :=
    (runs_read hscope hspot hshape).traced fun limit =>
      (tracedCalls_below limit).read hscope hspot hshape
  pass hscope hspot :=
    (runs_pass hscope hspot).traced fun limit => (tracedCalls_below limit).pass hscope hspot

/-- Every job is done call by call. -/
theorem stepwise : world.realm.Stepwise := by
  refine Realm.stepwise_of_done fun job hjob => ⟨?_⟩
  cases job with
  | read scope spot shape =>
    obtain ⟨hscope, hspot, hshape⟩ := hjob
    exact ⟨_, _, _, runs_read hscope hspot hshape, tracedCalls.read hscope hspot hshape,
      traced_read_step tracedCalls hscope hspot hshape⟩
  | pass scope spot =>
    obtain ⟨hscope, hspot⟩ := hjob
    exact ⟨_, _, _, runs_pass hscope hspot, tracedCalls.pass hscope hspot,
      traced_pass_step tracedCalls hscope hspot⟩
  | plain shape =>
    have hstep : world.plainRealm.Traced (fun _ => True)
        (fun n => Take.plainWithin env.shapes (n + 1) shape) fun _ => True :=
      Plain.traced_step (fun _ h => Plain.traced_plainWithin world.stable h) world.stable hjob
    exact ⟨_, _, _, runs_plain hjob, traced_plain hjob, traced_take hstep⟩

end World

end SchemaWire
