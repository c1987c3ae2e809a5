import SchemaWire.Proofs.Data.Replay

/-!
# The order in which values are recorded

Values that can be referred to are recorded in the order in which they stand in the message,
whether they are read or passed over. What is recorded once stays where it is, so the number of a
value is how many others stood before it.
-/

namespace SchemaWire

/-- The second bytes are those of a message from a later place on. -/
structure Precedes (front back : List UInt8) : Prop where
  /-- The second bytes are an end of the first ones. -/
  suffix : back <:+ front
  /-- They start later. -/
  shorter : back.length < front.length

namespace Precedes

variable {front back : List UInt8}

/-- Later places come later, seen from an earlier place. -/
theorem of_suffix (h : Precedes front back) {whole : List UInt8} (hfront : front <:+ whole) :
    Precedes whole back :=
  ⟨h.suffix.trans hfront, Nat.lt_of_lt_of_le h.shorter hfront.length_le⟩

/-- Whatever comes behind a later place is later. -/
theorem suffix_of (h : Precedes front back) {rest : List UInt8} (hrest : rest <:+ back) :
    Precedes front rest :=
  ⟨hrest.trans h.suffix, Nat.lt_of_le_of_lt hrest.length_le h.shorter⟩

end Precedes

/-- Between two states of a reader the given values were recorded, one after the other as they stand
in the message. -/
structure ReadState.Records (s : ReadState) (added : List RefEntry) (t : ReadState) : Prop where
  /-- The message is read on. -/
  forward : t.input <:+ s.input
  /-- The values are recorded behind those that were recorded before. -/
  refs : t.refs = s.refs ++ added
  /-- They stand between the two places. -/
  between : ∀ entry ∈ added, Precedes s.input entry.start ∧ t.input <:+ entry.start
  /-- Those that are recorded later stand at later places. -/
  ordered : added.Pairwise fun earlier later => Precedes earlier.start later.start

namespace ReadState.Records

variable {s t u : ReadState} {added more : List RefEntry}

/-- Reading on can go without any record. -/
theorem of_suffix (hinput : t.input <:+ s.input) (hrefs : t.refs = s.refs) : s.Records [] t where
  forward := hinput
  refs := by rw [hrefs, List.append_nil]
  between := nofun
  ordered := .nil

/-- What is recorded later stands later. -/
theorem trans (h : s.Records added u) (h' : u.Records more t) : s.Records (added ++ more) t where
  forward := h'.forward.trans h.forward
  refs := by rw [h'.refs, h.refs, List.append_assoc]
  between entry hentry := by
    rcases List.mem_append.mp hentry with hfirst | hsecond
    · obtain ⟨hbehind, hleft⟩ := h.between entry hfirst
      exact ⟨hbehind, h'.forward.trans hleft⟩
    · obtain ⟨hbehind, hleft⟩ := h'.between entry hsecond
      exact ⟨hbehind.of_suffix h.forward, hleft⟩
  ordered := by
    refine List.pairwise_append.mpr ⟨h.ordered, h'.ordered, fun earlier hearlier later hlater => ?_⟩
    exact (h'.between later hlater).1.of_suffix (h.between earlier hearlier).2

end ReadState.Records

namespace Read

variable {α : Type} {s t u : ReadState}

/-- The reader reads on, and records values in the order in which they stand in the message. -/
def Orders (x : Read α) : Prop :=
  ∀ s a t, x s = .ok a t → ∃ added, s.Records added t

namespace Orders

/-- Readers in sequence record values in the order in which they stand in the message. -/
def steps : Steps ReadState where
  Holds x := Orders x
  pure a s b t h := by
    cases h
    exact ⟨[], .of_suffix (List.suffix_refl _) rfl⟩
  throw e := nofun
  bind h hnext s b t hok := by
    obtain ⟨a, u, hfirst, hsecond⟩ := exists_of_bind_ok hok
    obtain ⟨added, hadded⟩ := h s a u hfirst
    obtain ⟨more, hmore⟩ := hnext a u b t hsecond
    exact ⟨added ++ more, hadded.trans hmore⟩

/-- Reading bytes records nothing. -/
theorem take {r : Take α} (h : r.Forward) : Orders (Read.take r) := by
  intro s a t hok
  obtain ⟨rest, hrest, rfl⟩ := exists_of_take_ok hok
  exact ⟨[], .of_suffix (h _ _ _ hrest) rfl⟩

/-- The order of values as a relation that asks nothing of a second reader. -/
def twins (recording : Bool) : DataTwins :=
  .ofSteps steps (fun _ hforward => take hforward) recording

end Orders

section Annotations

variable {env : ReadEnv} (htravels : env.config.compatible = true)
include htravels

/-- Where schemas travel no names are read. -/
theorem Orders.names (hapart : env.config.compatible = false) (scheme : Name.Scheme) :
    Orders (Read.name scheme) := by
  rw [htravels] at hapart
  cases hapart

/-- What stands between a flag and the data records nothing. -/
theorem records_of_info_ok {kind : Kind} {resolved : Resolved} (h : info env kind s = .ok resolved t) :
    t.input <:+ s.input ∧ t.refs = s.refs := by
  obtain ⟨added, hadded⟩ := (Orders.twins false).info (Orders.names htravels) kind _ _ _ h
  have hrefs : t.refs = s.refs :=
    (Discipline.unrecorded.twins false).info (fun _ => Discipline.unrecorded_name) kind _ _ _ h
  exact ⟨hadded.forward, hrefs⟩

/-- Behind the flag that says so, the value is recorded where its data start. -/
theorem records_of_refValue {type : WireType} {kind : Kind} {entry : Entry}
    (h : behindFlag env true type kind .refValue s = .ok entry t) :
    ∃ resolved, entry = .value type resolved ∧ t.input <:+ s.input ∧
      t.refs = s.refs ++ [⟨t.input, type, resolved⟩] := by
  obtain ⟨resolved, u, hinfo, hrecord⟩ := exists_of_bind_ok h
  obtain ⟨hforward, hrefs⟩ := records_of_info_ok htravels hinfo
  cases hrecord
  exact ⟨resolved, rfl, hforward, by rw [← hrefs]⟩

omit htravels in
/-- The flag in front of a value that can be referred to takes one byte. -/
theorem precedes_of_flag_ok {flagged : Bool} (h : flag flagged s = .ok .refValue t) :
    Precedes s.input t.input ∧ t.refs = s.refs := by
  cases flagged with
  | false => cases h
  | true =>
    obtain ⟨byte, u, hbyte, h⟩ := exists_of_bind_ok h
    obtain ⟨rest, hrest, rfl⟩ := exists_of_take_ok hbyte
    obtain ⟨-, rfl⟩ := exists_of_ofExcept_ok h
    cases hinput : s.input with
    | nil =>
      rw [hinput] at hrest
      cases hrest
    | cons first others =>
      rw [hinput] at hrest
      cases hrest
      exact ⟨⟨List.suffix_cons byte rest, Nat.lt_succ_self _⟩, rfl⟩

/-- Annotations are read in the order of the message, and the value behind them is recorded if it is
there and can be referred to. -/
theorem orders_enter (recording : Bool) (spot : Spot) : Orders (enter env recording spot) := by
  let d := Orders.twins recording
  cases spot with
  | entered type resolved => exact d.map (d.ofExcept _) fun _ => Entry.value type resolved
  | declared type =>
    refine Orders.steps.bind (d.ofExcept _) fun kind => ?_
    intro s entry t h
    obtain ⟨flag, u, hflag, hbehind⟩ := exists_of_bind_ok h
    have hinfo : Orders (info env kind) := d.info (Orders.names htravels) kind
    obtain ⟨added, hadded⟩ := d.flag _ s flag u hflag
    have hothers (hrest : Orders (behindFlag env recording type kind flag)) :
        ∃ added, s.Records added t := by
      obtain ⟨more, hmore⟩ := hrest u entry t hbehind
      exact ⟨added ++ more, hadded.trans hmore⟩
    cases flag with
    | null => exact hothers (d.pure _)
    | ref =>
      refine hothers (Orders.steps.bind (.take (.varint _)) fun id => Orders.steps.map ?_ Entry.ref)
      intro s entry t h
      cases eq_of_reference_ok h
      exact ⟨[], .of_suffix (List.suffix_refl _) rfl⟩
    | notNull => exact hothers (Orders.steps.map hinfo (Entry.value type))
    | refValue =>
      cases recording with
      | false => exact hothers (Orders.steps.bind hinfo fun resolved => Orders.steps.pure _)
      | true =>
        obtain ⟨hprecedes, hsame⟩ := precedes_of_flag_ok hflag
        obtain ⟨resolved, rfl, hforward, hrefs⟩ := records_of_refValue htravels hbehind
        refine ⟨[⟨t.input, type, resolved⟩], hforward.trans hprecedes.suffix, hsame ▸ hrefs, ?_, ?_⟩
        · intro other hother
          cases List.mem_singleton.mp hother
          exact ⟨hprecedes.suffix_of hforward, List.suffix_refl _⟩
        · exact List.pairwise_singleton _ _

end Annotations

section Values

variable {env : ReadEnv} (htravels : env.config.compatible = true)
include htravels

/-- Values that are passed over are recorded in the order of the message. -/
theorem orders_skipWithin (fuel : Nat) (scope : Scope) (spot : Spot) :
    Orders (skipWithin env fuel scope spot) := by
  let d := Orders.twins scope.recording
  induction fuel generalizing scope spot with
  | zero => exact d.throw _
  | succ fuel ih =>
    have hbelow : ∀ inner inner', d.Near inner inner' → ∀ spot,
        d.Rel (skipWithin env fuel inner spot) (skipWithin env fuel inner' spot) :=
      fun inner _ _ spot => ih inner spot
    have hplain (shape : Shape) : d.Rel (Read.take (Take.plainWithin env.shapes fuel shape))
        (Read.take (Take.plainWithin env.shapes fuel shape)) :=
      Orders.take (.plainWithin env.shapes fuel shape)
    have henter : d.Rel (enter env scope.recording spot) (enter env scope.recording spot) :=
      orders_enter htravels scope.recording spot
    have hscope : d.Near scope scope := rfl
    exact d.skipWithin_succ hplain hscope henter hbelow

omit htravels in
/-- Reading a value again goes back to where it was asked for, and records nothing. -/
theorem orders_again (fuel : Nat) (depth : Nat) (entry : RefEntry) (shape : Shape) :
    Orders (again entry fun spot => datumWithin env fuel ⟨depth, false⟩ spot shape) := by
  intro s v t h
  obtain ⟨u, hread, rfl⟩ := exists_of_again_ok h
  have hunrecorded := Discipline.unrecorded.datumWithin env
    (Discipline.unrecorded.typeInfo fun _ => Discipline.unrecorded_name) fuel ⟨depth, false⟩
    (.entered entry.type entry.resolved) shape nofun
  have hrefs : u.refs = s.refs := hunrecorded { s with input := entry.start } _ _ hread
  exact ⟨[], .of_suffix (List.suffix_refl _) hrefs⟩

/-- Values that are read are recorded in the order of the message. -/
theorem orders_datumWithin (fuel : Nat) (scope : Scope) (spot : Spot) (shape : Shape) :
    Orders (datumWithin env fuel scope spot shape) := by
  let d := Orders.twins scope.recording
  induction fuel generalizing scope spot shape with
  | zero => exact d.throw _
  | succ fuel ih =>
    have hpass : ∀ inner inner', d.Near inner inner' → ∀ spot,
        d.Rel (skipWithin env fuel inner spot) (skipWithin env fuel inner' spot) :=
      fun inner _ _ spot => orders_skipWithin htravels fuel inner spot
    have hread : ∀ inner inner', d.Near inner inner' → ∀ spot shape,
        d.Rel (datumWithin env fuel inner spot shape) (datumWithin env fuel inner' spot shape) :=
      fun inner _ _ spot shape => ih inner spot shape
    have hplain (shape : Shape) : d.Rel (Read.take (Take.plainWithin env.shapes fuel shape))
        (Read.take (Take.plainWithin env.shapes fuel shape)) :=
      Orders.take (.plainWithin env.shapes fuel shape)
    have henter : d.Rel (enter env scope.recording spot) (enter env scope.recording spot) :=
      orders_enter htravels scope.recording spot
    have hscope : d.Near scope scope := rfl
    exact d.datumWithin_succ hplain hscope henter hpass
      (fun entry shape => orders_again fuel scope.depth entry shape) hread shape

end Values

end Read

/-- Values of the type have a flag in front. -/
def WireType.Flagged (type : WireType) : Prop :=
  ∃ kind, WireType.kindOf type.id = .ok kind ∧ (type.nullable || type.tracked || kind.isUser) = true

/-- In front of the reader stands a value of the type that can be referred to. -/
structure ReadState.Marks (s : ReadState) (type : WireType) : Prop where
  /-- There is a flag. -/
  flagged : type.Flagged
  /-- The flag says that a value follows that can be referred to. -/
  marked : ∃ data, s.input = RefFlag.refValue.toByte :: data

/-- In front of the reader stands the earlier value with the number, and behind it the rest. -/
structure ReadState.RefersTo (s : ReadState) (type : WireType) (id : Nat) (rest : List UInt8) :
    Prop where
  /-- There is a flag. -/
  flagged : type.Flagged
  /-- The flag says that an earlier value stands here again, and its number follows. -/
  number : ∃ bytes, s.input = RefFlag.ref.toByte :: bytes ∧ Varint.take32 bytes = .ok id rest

/-- The first of the recorded values is the one in front of the reader, from its data on. -/
def ReadState.Heads (env : ReadEnv) (s : ReadState) (type : WireType) (added : List RefEntry) :
    Prop :=
  ∃ resolved between inside, Read.enter env true (.declared type) s = .ok (.value type resolved) between ∧
    added = ⟨between.input, type, resolved⟩ :: inside

namespace Read

variable {env : ReadEnv} {s t u : ReadState} {type : WireType}

/-- The flag in front of a value is read from its byte. -/
theorem flag_of_input {mark : RefFlag} {rest : List UInt8} (h : s.input = mark.toByte :: rest) :
    flag true s = .ok mark { s with input := rest } := by
  have hbyte : take Take.byte s = .ok mark.toByte { s with input := rest } := by
    rw [take, h]
    rfl
  refine (bind_of_ok hbyte).trans ?_
  rw [RefFlag.ofByte_toByte]
  rfl

/-- Annotations of values with a flag go on behind the flag. -/
theorem enter_of_flagged {kind : Kind} (hkind : WireType.kindOf type.id = .ok kind)
    (hflagged : (type.nullable || type.tracked || kind.isUser) = true) {mark : RefFlag}
    {rest : List UInt8} (hinput : s.input = mark.toByte :: rest) (recording : Bool) :
    enter env recording (.declared type) s =
      behindFlag env recording type kind mark { s with input := rest } := by
  refine (ofExcept_bind_of_ok hkind _ s).trans ?_
  rw [hflagged]
  exact bind_of_ok (flag_of_input hinput)

/-- The annotations of an earlier value that stands again are its flag and its number. -/
theorem enter_of_refersTo {id : Nat} {rest : List UInt8} (h : s.RefersTo type id rest)
    {entry : RefEntry} (hentry : s.refs[id]? = some entry) (recording : Bool) :
    enter env recording (.declared type) s = .ok (.ref entry) { s with input := rest } := by
  obtain ⟨kind, hkind, hflagged⟩ := h.flagged
  obtain ⟨bytes, hinput, hnumber⟩ := h.number
  rw [enter_of_flagged hkind hflagged hinput]
  have hid : take Varint.take32 { s with input := bytes } = .ok id { s with input := rest } := by
    rw [take, hnumber]
  have hfound : reference id { s with input := rest } = .ok entry { s with input := rest } := by
    rw [reference, hentry]
  exact (bind_of_ok hid).trans (bind_of_ok hfound)

section Entered

variable {scope : Scope} {resolved : Resolved}
  (henter : enter env scope.recording (.declared type) s = .ok (.value type resolved) u) {kind : Kind}
  (hkind : WireType.kindOf type.id = .ok kind)
include henter hkind

/-- A value that is read is read behind its annotations. -/
theorem datumWithin_entered {fuel : Nat} {shape : Shape} {v : Datum}
    (h : datumWithin env fuel scope (.declared type) shape s = .ok v t) :
    datumWithin env fuel scope (.entered type resolved) shape u = .ok v t := by
  cases fuel with
  | zero => cases h
  | succ fuel =>
    have hshape := ne_refused_of_datumWithin_ok h
    have hsame : enter env scope.recording (.entered type resolved) u =
        .ok (.value type resolved) u :=
      ofExcept_bind_of_ok hkind _ u
    rw [datumWithin_of_ne_refused hshape, bind_of_ok henter] at h
    rwa [datumWithin_of_ne_refused hshape, bind_of_ok hsame]

/-- A value that is passed over is passed over behind its annotations. -/
theorem skipWithin_entered {fuel : Nat}
    (h : skipWithin env fuel scope (.declared type) s = .ok () t) :
    skipWithin env fuel scope (.entered type resolved) u = .ok () t := by
  cases fuel with
  | zero => cases h
  | succ fuel =>
    have hsame : enter env scope.recording (.entered type resolved) u =
        .ok (.value type resolved) u :=
      ofExcept_bind_of_ok hkind _ u
    rw [skipWithin, bind_of_ok henter] at h
    rwa [skipWithin, bind_of_ok hsame]

end Entered

/-- Read a value by the shape, or pass over it if there is none. -/
def consumeWithin (env : ReadEnv) (fuel : Nat) (scope : Scope) (spot : Spot) : Option Shape → Read Unit
  | some shape => do
    let _ ← datumWithin env fuel scope spot shape
  | none => skipWithin env fuel scope spot

section Consumed

variable (htravels : env.config.compatible = true)
include htravels

/-- A value that can be referred to is recorded behind its annotations, whoever goes on there. -/
theorem enter_of_marks (h : s.Marks type) {entry : Entry}
    (henter : enter env true (.declared type) s = .ok entry u) :
    ∃ resolved, entry = .value type resolved ∧ s.Records [⟨u.input, type, resolved⟩] u := by
  obtain ⟨kind, hkind, hflagged⟩ := h.flagged
  obtain ⟨data, hinput⟩ := h.marked
  rw [enter_of_flagged hkind hflagged hinput] at henter
  obtain ⟨resolved, rfl, hforward, hrefs⟩ := records_of_refValue htravels henter
  have hprecedes : Precedes s.input u.input := by
    rw [hinput]
    have hdata : Precedes (RefFlag.refValue.toByte :: data) data :=
      ⟨List.suffix_cons _ _, Nat.lt_succ_self _⟩
    exact hdata.suffix_of hforward
  refine ⟨resolved, rfl, hprecedes.suffix, hrefs, ?_, List.pairwise_singleton _ _⟩
  intro other hother
  cases List.mem_singleton.mp hother
  exact ⟨hprecedes, List.suffix_refl _⟩

/-- What is read or passed over is recorded in the order of the message. -/
theorem orders_consumeWithin (fuel : Nat) (scope : Scope) (spot : Spot) (asked : Option Shape) :
    Orders (consumeWithin env fuel scope spot asked) := by
  cases asked with
  | none => exact orders_skipWithin htravels fuel scope spot
  | some shape =>
    exact Orders.steps.map (orders_datumWithin htravels fuel scope spot shape) fun _ => ()

/-- A value that can be referred to is the first to be recorded while it is read or passed over. -/
theorem exists_records_of_consumeWithin_ok {fuel depth : Nat} {spot : Spot} {asked : Option Shape}
    (h : consumeWithin env fuel ⟨depth, true⟩ spot asked s = .ok () t) :
    ∃ added, s.Records added t ∧
      ∀ type, spot = .declared type → s.Marks type → s.Heads env type added := by
  by_cases hmarked : ∃ type, spot = .declared type ∧ s.Marks type
  · obtain ⟨type, rfl, hmarks⟩ := hmarked
    obtain ⟨kind, hkind, -⟩ := hmarks.flagged
    have hentered : ∃ entry u, enter env true (.declared type) s = .ok entry u := by
      cases asked with
      | none =>
        cases fuel with
        | zero => cases h
        | succ fuel =>
          obtain ⟨entry, u, henter, -⟩ := exists_of_bind_ok h
          exact ⟨entry, u, henter⟩
      | some shape =>
        obtain ⟨v, w, hread, -⟩ := exists_of_bind_ok h
        cases fuel with
        | zero => cases hread
        | succ fuel =>
          rw [datumWithin_of_ne_refused (ne_refused_of_datumWithin_ok hread)] at hread
          obtain ⟨entry, u, henter, -⟩ := exists_of_bind_ok hread
          exact ⟨entry, u, henter⟩
    obtain ⟨entry, u, henter⟩ := hentered
    obtain ⟨resolved, rfl, hfirst⟩ := enter_of_marks htravels hmarks henter
    have hbehind : consumeWithin env fuel ⟨depth, true⟩ (.entered type resolved) asked u = .ok () t := by
      cases asked with
      | none => exact skipWithin_entered henter hkind h
      | some shape =>
        obtain ⟨v, w, hread, hlast⟩ := exists_of_bind_ok h
        exact (bind_of_ok (datumWithin_entered henter hkind hread)).trans hlast
    obtain ⟨inside, hinside⟩ := orders_consumeWithin htravels fuel ⟨depth, true⟩ _ asked u () t hbehind
    refine ⟨_, hfirst.trans hinside, fun other hother _ => ?_⟩
    cases hother
    exact ⟨resolved, u, inside, henter, rfl⟩
  · obtain ⟨added, hadded⟩ := orders_consumeWithin htravels fuel ⟨depth, true⟩ spot asked s () t h
    exact ⟨added, hadded, fun type hspot hmarks => absurd ⟨type, hspot, hmarks⟩ hmarked⟩

end Consumed

end Read

end SchemaWire
