import SchemaWire.Proofs.Data.Appearance
import SchemaWire.Proofs.Data.Asking
import SchemaWire.Proofs.Data.Bound
import SchemaWire.Proofs.Data.Pass

/-!
# Values that stand again

Where schemas travel, a value that was read once can be read again from where it first stood,
whenever later this is asked for: what was recorded stays where it is, so the references inside of
the value lead to the same values as before. Values are recorded in the order in which they stand
in the message, whether they are read or passed over.
-/

namespace SchemaWire

/-- The second scope is one for reading again what was read in the first: it is not deeper, and
nothing is recorded. -/
structure Scope.Replays (scope other : Scope) : Prop where
  /-- There are as many structs around the value, or fewer. -/
  depth : other.depth ≤ scope.depth
  /-- Values are not recorded a second time. -/
  recording : other.recording = false

namespace Read

variable {α β : Type}

/-- With the same bytes in front of it and at least what the first reader leaves recorded, the second
one gives the same value, takes the same bytes and records nothing. -/
structure Repeats (x y : Read α) : Prop where
  /-- The first reader only adds to the recorded values. -/
  adds {s t : ReadState} {a : α} (h : x s = .ok a t) : s.refs <+: t.refs
  /-- The second reader does again what the first one did. -/
  again {s t later : ReadState} {a : α} (h : x s = .ok a t) (hinput : later.input = s.input)
    (hrefs : t.refs <+: later.refs) : y later = .ok a { later with input := t.input }

namespace Repeats

/-- Doing nothing can be done again. -/
theorem pure (a : α) : Repeats (Pure.pure a) (Pure.pure a) where
  adds h := by
    cases h
    exact List.prefix_refl _
  again h hinput _ := by
    cases h
    rw [← hinput]
    rfl

/-- There is nothing to do again after a failure. -/
theorem throw (e : Error) (y : Read α) : Repeats (MonadExcept.throw e) y where
  adds := nofun
  again := nofun

/-- A sequence is done again part by part. -/
theorem bind {x y : Read α} {k l : α → Read β} (h : Repeats x y)
    (hnext : ∀ a, Repeats (k a) (l a)) : Repeats (x >>= k) (y >>= l) where
  adds hok := by
    obtain ⟨a, u, hfirst, hsecond⟩ := exists_of_bind_ok hok
    exact (h.adds hfirst).trans ((hnext a).adds hsecond)
  again hok hinput hrefs := by
    obtain ⟨a, u, hfirst, hsecond⟩ := exists_of_bind_ok hok
    have hbetween := h.again hfirst hinput (((hnext a).adds hsecond).trans hrefs)
    exact (bind_of_ok hbetween).trans ((hnext a).again hsecond rfl hrefs)

/-- Bytes can be read again. -/
theorem take (r : Take α) : Repeats (Read.take r) (Read.take r) where
  adds h := by
    obtain ⟨rest, -, rfl⟩ := exists_of_take_ok h
    exact List.prefix_refl _
  again h hinput _ := by
    obtain ⟨rest, hrest, rfl⟩ := exists_of_take_ok h
    rw [Read.take, hinput, hrest]

/-- The recorded value with a number stays the same. -/
theorem reference (id : Nat) : Repeats (Read.reference id) (Read.reference id) where
  adds h := by
    cases eq_of_reference_ok h
    exact List.prefix_refl _
  again {s t later entry} h hinput hrefs := by
    cases eq_of_reference_ok h
    unfold Read.reference at h ⊢
    cases hentry : s.refs[id]? with
    | none =>
      rw [hentry] at h
      cases h
    | some found =>
      rw [hentry] at h
      cases h
      rw [getElem?_of_starts hrefs hentry, ← hinput]

/-- A value that is read from where it first stood can be read from there again. -/
theorem replay (entry : RefEntry) {read other : Spot → Read Datum}
    (h : ∀ spot, Repeats (read spot) (other spot)) :
    Repeats (Read.again entry read) (Read.again entry other) where
  adds hok := by
    obtain ⟨u, hread, rfl⟩ := exists_of_again_ok hok
    have hadds := (h _).adds hread
    exact hadds
  again {s t later v} hok hinput hrefs := by
    obtain ⟨u, hread, rfl⟩ := exists_of_again_ok hok
    have hsame : other (.entered entry.type entry.resolved) { later with input := entry.start } =
        .ok v { later with input := u.input } :=
      (h _).again hread rfl hrefs
    rw [again_of_ok hsame, hinput]

/-- Readers that do again what others did, in scopes for reading again. -/
def twins : DataTwins where
  Rel x y := Repeats x y
  pure := pure
  throw e := throw e _
  bind := bind
  Near := Scope.Replays
  take _ _ := take _
  deeper maxDepth scope other h R S hnext := by
    unfold Scope.deeper
    by_cases hdeep : maxDepth < scope.depth + 1
    · rw [if_pos hdeep]
      exact ⟨nofun, nofun⟩
    · have hshallow : ¬maxDepth < other.depth + 1 := by
        have hdepth := h.depth
        omega
      rw [if_neg hdeep, if_neg hshallow]
      exact hnext _ _ ⟨Nat.succ_le_succ h.depth, h.recording⟩

end Repeats

section Values

variable {env : ReadEnv} (htravels : env.config.compatible = true)
include htravels

/-- Where schemas travel no names are read. -/
theorem Repeats.names (hapart : env.config.compatible = false) (scheme : Name.Scheme) :
    Repeats (Read.name scheme) (Read.name scheme) := by
  rw [htravels] at hapart
  cases hapart

/-- Annotations can be read again, and what is recorded there is not recorded again. -/
theorem repeats_enter (recording : Bool) (spot : Spot) :
    Repeats (enter env recording spot) (enter env false spot) := by
  let d := Repeats.twins
  have hinfo (kind : Kind) : Repeats (info env kind) (info env kind) :=
    d.info (Repeats.names htravels) kind
  cases spot with
  | entered type resolved => exact d.map (d.ofExcept _) fun _ => Entry.value type resolved
  | declared type =>
    refine d.bind (d.ofExcept _) fun kind => d.bind (d.flag _) fun flag => ?_
    cases flag with
    | null => exact d.pure _
    | ref =>
      exact d.bind (Repeats.take _) fun id => d.map (Repeats.reference id) Entry.ref
    | notNull => exact d.map (hinfo kind) (Entry.value type)
    | refValue =>
      refine d.bind (hinfo kind) fun resolved => ?_
      cases recording with
      | false => exact d.pure _
      | true =>
        refine ⟨fun h => ?_, fun {s t later entry} h hinput _ => ?_⟩
        · cases h
          exact List.prefix_append _ _
        · have hsame : later = { later with input := s.input } := by rw [← hinput]
          cases h
          exact congrArg (EStateM.Result.ok (Entry.value type resolved)) hsame

variable {scope other : Scope} (hscopes : scope.Replays other)
include hscopes

/-- A value that was passed over can be passed over again. -/
theorem repeats_skipWithin (fuel : Nat) (spot : Spot) :
    Repeats (skipWithin env fuel scope spot) (skipWithin env fuel other spot) := by
  induction fuel generalizing scope other spot with
  | zero => exact .throw _ _
  | succ fuel ih =>
    have henter := repeats_enter htravels scope.recording spot
    rw [← hscopes.recording] at henter
    exact Repeats.twins.skipWithin_succ (fun _ => .take _) hscopes henter
      fun _ _ hinner spot => ih hinner spot

/-- A value that was read can be read again. -/
theorem repeats_datumWithin (fuel : Nat) (spot : Spot) (shape : Shape) :
    Repeats (datumWithin env fuel scope spot shape) (datumWithin env fuel other spot shape) := by
  induction fuel generalizing scope other spot shape with
  | zero => exact .throw _ _
  | succ fuel ih =>
    have henter := repeats_enter htravels scope.recording spot
    rw [← hscopes.recording] at henter
    refine Repeats.twins.datumWithin_succ (fun _ => .take _) hscopes henter ?_ ?_ ?_ shape
    · exact fun _ _ hinner spot => repeats_skipWithin htravels hinner fuel spot
    · intro entry shape
      have hagain : Scope.Replays { scope with recording := false } { other with recording := false } :=
        ⟨hscopes.depth, rfl⟩
      exact .replay entry fun spot => ih hagain spot shape
    · exact fun _ _ hinner spot shape => ih hinner spot shape

end Values

section References

variable {env : ReadEnv} {s t later : ReadState} {type other : WireType} {entry : RefEntry}
  {shape : Shape} {v : Datum} {fuel : Nat} {scope : Scope}

/-- An earlier value that stands again is what is read from where it first stood, and its reader
comes back behind its number. -/
theorem datumWithin_of_refersTo {id : Nat} {rest : List UInt8} (href : later.RefersTo other id rest)
    (hentry : later.refs[id]? = some entry) (hshape : env.shapes.resolve shape ≠ .refused)
    (hread : datumWithin env fuel { scope with recording := false }
      (.entered entry.type entry.resolved) shape { later with input := entry.start } =
        .ok v { later with input := t.input }) :
    datumWithin env (fuel + 1) scope (.declared other) shape later =
      .ok v { later with input := rest } := by
  have henter : enter env scope.recording (.declared other) later =
      .ok (.ref entry) { later with input := rest } :=
    enter_of_refersTo href hentry scope.recording
  rw [datumWithin_of_ne_refused hshape, bind_of_ok henter]
  rw [← datumWithin_resolve] at hread
  exact again_of_ok (t := { later with input := t.input }) hread

variable (htravels : env.config.compatible = true) {depth : Nat}
  (hread : datumWithin env fuel ⟨depth, true⟩ (.entered entry.type entry.resolved) shape s = .ok v t)
include htravels hread

/-- A value that was read and recorded is found again with every bound that is higher, wherever a
reference to it stands in scopes that are not deeper. -/
theorem datumWithin_again (hstart : entry.start = s.input) (hlater : t.refs <+: later.refs) {id : Nat}
    (hentry : t.refs[id]? = some entry) {rest : List UInt8} (href : later.RefersTo other id rest)
    (hdepth : scope.depth ≤ depth) {n : Nat} (hn : fuel < n) :
    datumWithin env n scope (.declared other) shape later = .ok v { later with input := rest } := by
  obtain ⟨m, rfl⟩ := Nat.exists_eq_add_of_lt hn
  have hshape : env.shapes.resolve shape ≠ .refused := by
    cases fuel with
    | zero => cases hread
    | succ fuel => exact ne_refused_of_datumWithin_ok hread
  have hscopes : Scope.Replays ⟨depth, true⟩ { scope with recording := false } := ⟨hdepth, rfl⟩
  have hsame : datumWithin env fuel { scope with recording := false }
      (.entered entry.type entry.resolved) shape { later with input := entry.start } =
        .ok v { later with input := t.input } :=
    (repeats_datumWithin htravels hscopes fuel _ shape).again hread hstart hlater
  have hhigher := steady_datumWithin env (Nat.le_add_right fuel m) { scope with recording := false }
    (.entered entry.type entry.resolved) shape _ (not_unfinished_of_ok hsame)
  exact datumWithin_of_refersTo href (getElem?_of_starts hlater hentry) hshape (hhigher.trans hsame)

end References

end Read

/-- Where schemas travel, a value that was read and can be referred to is found again wherever its
number stands later, in a scope that is not deeper: reading it there gives the same value, takes
the flag and the number, and changes nothing else, whatever stands inside of the value. Its number
is how many values were recorded before it. Values are recorded in the order in which they stand
in the message, whether they are read or passed over. -/
theorem back_reference_value {env : ReadEnv} (htravels : env.config.compatible = true)
    (fuel depth : Nat) (s : ReadState) :
    (∀ spot asked t, Read.consumeWithin env fuel ⟨depth, true⟩ spot asked s = .ok () t →
      ∃ added, s.Records added t ∧
        ∀ type, spot = .declared type → s.Marks type → s.Heads env type added) ∧
      ∀ type, s.Marks type → ∀ shape v t,
        Read.datumWithin env fuel ⟨depth, true⟩ (.declared type) shape s = .ok v t →
        ∀ later : ReadState, t.refs <+: later.refs →
        ∀ other rest, later.RefersTo other s.refs.length rest →
        ∀ scope : Scope, scope.depth ≤ depth →
        ∀ n, fuel < n ∨
            ¬Unfinished (Read.datumWithin env n scope (.declared other) shape later) →
          Read.datumWithin env n scope (.declared other) shape later =
            .ok v { later with input := rest } := by
  refine ⟨fun spot asked t h => Read.exists_records_of_consumeWithin_ok htravels h, ?_⟩
  intro type hmarks shape v t hread later hlater other rest href scope hdepth n hn
  obtain ⟨kind, hkind, -⟩ := hmarks.flagged
  have hconsumed : Read.consumeWithin env fuel ⟨depth, true⟩ (.declared type) (some shape) s =
      .ok () t :=
    bind_of_ok hread
  obtain ⟨added, hrecords, hheads⟩ := Read.exists_records_of_consumeWithin_ok htravels hconsumed
  obtain ⟨resolved, between, inside, henter, rfl⟩ := hheads type rfl hmarks
  let entry : RefEntry := ⟨between.input, type, resolved⟩
  have hentry : t.refs[s.refs.length]? = some entry := by
    rw [hrecords.refs, List.getElem?_append_right (Nat.le_refl _), Nat.sub_self]
    rfl
  have hentered : Read.datumWithin env fuel ⟨depth, true⟩ (.entered entry.type entry.resolved) shape
      between = .ok v t :=
    Read.datumWithin_entered henter hkind hread
  have hhigher {m : Nat} (hm : fuel < m) :=
    Read.datumWithin_again htravels hentered rfl hlater hentry href hdepth hm
  rcases hn with hlt | hends
  · exact hhigher hlt
  · have hsteady := Read.steady_datumWithin env (Nat.le_max_left n (fuel + 1)) scope
      (.declared other) shape later hends
    exact hsteady.symm.trans (hhigher (Nat.le_max_right n (fuel + 1)))

namespace Sample

/-- A register as its reader asks for it. -/
def registerShape : Shape :=
  .struct "Register" [⟨"day", false, .int .int32⟩, ⟨"guests", false, .list "guests" (.option .string)⟩]

/-- A register with a day and three guests. -/
def readRegister : Datum :=
  .struct "Register" [("day", .int .int32 1),
    ("guests", .seq true [.some (.text "a"), .some (.text "a"), .none])]

/-- Behind the register and another text that was recorded, the register stands again. -/
def revisited : ReadState where
  input := [254, 0, 9]
  names := []
  refs := leafed.refs ++ [⟨[4, 98, 254, 0, 9], ⟨12, true, true, []⟩, .known .string⟩]

end Sample

/-- A register in which one guest is the same as another one is found again. -/
theorem back_reference_value_register :
    Read.datumWithin Sample.porter 9 ⟨0, true⟩ (.declared ⟨784, true, false, []⟩)
        Sample.registerShape Sample.register = .ok Sample.readRegister Sample.leafed ∧
      (∃ added, Sample.register.Records added Sample.leafed ∧
        Sample.register.Heads Sample.porter ⟨784, true, false, []⟩ added) ∧
      ∀ n, 9 < n → Read.datumWithin Sample.porter n ⟨0, true⟩ (.declared ⟨784, false, true, []⟩)
        Sample.registerShape Sample.revisited =
          .ok Sample.readRegister { Sample.revisited with input := [9] } := by
  have hread : Read.datumWithin Sample.porter 9 ⟨0, true⟩ (.declared ⟨784, true, false, []⟩)
      Sample.registerShape Sample.register = .ok Sample.readRegister Sample.leafed := rfl
  have hconsumed : Read.consumeWithin Sample.porter 9 ⟨0, true⟩ (.declared ⟨784, true, false, []⟩)
      (some Sample.registerShape) Sample.register = .ok () Sample.leafed := rfl
  have hmarks : Sample.register.Marks ⟨784, true, false, []⟩ := ⟨⟨_, rfl, rfl⟩, _, rfl⟩
  have hrefers : Sample.revisited.RefersTo ⟨784, false, true, []⟩ 0 [9] :=
    ⟨⟨_, rfl, rfl⟩, _, rfl, rfl⟩
  obtain ⟨hrecords, hagain⟩ :=
    @back_reference_value Sample.porter rfl 9 0 Sample.register
  obtain ⟨added, hadded, hheads⟩ := hrecords _ _ _ hconsumed
  refine ⟨hread, ⟨added, hadded, hheads _ rfl hmarks⟩, fun n hn => ?_⟩
  exact hagain _ hmarks _ _ _ hread _ (List.prefix_append _ _) _ _ hrefers ⟨0, true⟩ (Nat.le_refl 0)
    n (.inl hn)

end SchemaWire
