import SchemaWire.Engine
import SchemaWire.Proofs.Data.Asking
import SchemaWire.Proofs.Data.Discipline
import SchemaWire.Proofs.Limit.Data

/-!
# What reading a value again leaves behind

A value that stands again is read from where it first stood, and no value in it is recorded a
second time. Where schemas travel, no names are read either, so all stays as it was. Otherwise the
names that are spelled out in the value are entered into the table once more, behind those that
were read before: references to the earlier names still find them, but every name that is spelled
out later comes to stand behind where its writer has it.
-/

namespace SchemaWire

/-- What was told so far: the names, and the values that can be referred to. -/
def ReadState.told (s : ReadState) : Name.Table × List RefEntry := (s.names, s.refs)

namespace Read

variable {s t : ReadState}

/-- Looking up a recorded value changes nothing. -/
theorem eq_of_reference_ok {id : Nat} {entry : RefEntry} (h : reference id s = .ok entry t) :
    t = s := by
  unfold reference at h
  split at h
  · cases h
    rfl
  · cases h

namespace Discipline

/-- The discipline of moving along a preorder on what was told, if at all. -/
def along (Step : Name.Table × List RefEntry → Name.Table × List RefEntry → Prop)
    (refl : ∀ x, Step x x) (trans : ∀ {x y z}, Step x y → Step y z → Step x z) : Discipline where
  Holds r := ∀ s a t, r s = .ok a t → Step s.told t.told
  pure a s b t h := by
    cases h
    exact refl _
  throw e := nofun
  bind h hnext s b t hok := by
    obtain ⟨a, between, hfirst, hsecond⟩ := exists_of_bind_ok hok
    exact trans (h s a between hfirst) (hnext a between b t hsecond)
  take _ s a t h := by
    obtain ⟨rest, -, rfl⟩ := exists_of_take_ok h
    exact refl _
  recorded id a s b t h := by
    obtain ⟨entry, u, hentry, h⟩ := exists_of_bind_ok h
    cases eq_of_reference_ok hentry
    cases h
    exact refl _
  again id read h s a t hok := by
    obtain ⟨entry, u, hentry, hagain⟩ := exists_of_bind_ok hok
    cases eq_of_reference_ok hentry
    obtain ⟨v, hread, rfl⟩ := exists_of_again_ok hagain
    exact h _ { s with input := entry.start } a v hread

/-- Readers only add to what was told. -/
def adding : Discipline :=
  along (fun x y => x.1 <+: y.1 ∧ x.2 <+: y.2) (fun _ => ⟨List.prefix_refl _, List.prefix_refl _⟩)
    fun h h' => ⟨h.1.trans h'.1, h.2.trans h'.2⟩

/-- Readers do not record values. -/
def unrecorded : Discipline :=
  along (fun x y => y.2 = x.2) (fun _ => rfl) fun h h' => h'.trans h

/-- Reading a name adds to the names, if anything. -/
theorem adding_name (scheme : Name.Scheme) : adding.Holds (Read.name scheme) := by
  intro s a t h
  rw [Read.name_eq] at h
  split at h
  next found after rest htake =>
    cases h
    obtain ⟨added, rfl, -⟩ := Name.Table.exists_of_takeBy_ok htake
    exact ⟨List.prefix_append _ _, List.prefix_refl _⟩
  next => cases h

/-- Recording a value adds to the recorded values. -/
theorem adding_record (type : WireType) (resolved : Resolved) :
    adding.Holds (Read.record type resolved) := by
  intro s a t h
  cases h
  exact ⟨List.prefix_refl _, List.prefix_append _ _⟩

/-- Reading a name records nothing. -/
theorem unrecorded_name (scheme : Name.Scheme) : unrecorded.Holds (Read.name scheme) := by
  intro s a t h
  rw [Read.name_eq] at h
  split at h
  · cases h
    rfl
  · cases h

/-- Readers leave alone what was told. -/
def frozen : Discipline :=
  along (fun x y => y = x) (fun _ => rfl) fun h h' => h'.trans h

/-- Reading type information leaves alone what was told where schemas travel, and where no type is
registered by name. -/
theorem frozen_typeInfo {env : ReadEnv}
    (h : env.config.compatible = true ∨ ∀ spec ∈ env.registry.specs, spec.isByName = false) :
    frozen.Holds (Read.typeInfo env) := by
  rcases h with hcompatible | hnone
  · exact frozen.typeInfo (by rw [hcompatible]; exact nofun)
  refine (frozen.twins false).typeInfo fun id kind => ?_
  change frozen.Holds (Read.userInfo env id kind)
  unfold Read.userInfo
  split
  · exact frozen.bind (frozen.take (.varint _)) fun _ => frozen.bind (frozen.ofExcept _) fun _ =>
      frozen.pure _
  split
  · -- A name that is read belongs to no registered type.
    intro s resolved t hok
    obtain ⟨space, u, -, hok⟩ := exists_of_bind_ok hok
    obtain ⟨name, w, -, hok⟩ := exists_of_bind_ok hok
    obtain ⟨spec, x, hspec, -⟩ := exists_of_bind_ok hok
    obtain ⟨hfound, -⟩ := exists_of_ofExcept_ok hspec
    have hname := Registry.isByName_of_ofName_ok hfound
    rw [hnone spec (Registry.mem_of_ofName hfound)] at hname
    cases hname
  · exact frozen.bind (frozen.ofExcept _) fun _ => frozen.ofExcept _

end Discipline

variable {env : ReadEnv} {scope : Scope} {type : WireType} {entry : RefEntry} {u : ReadState}

/-- What is known of a value that follows its annotations was known before, or they tell it. -/
theorem announced_of_enter_ok {recording : Bool} {spot : Spot} {resolved : Resolved}
    (h : enter env recording spot s = .ok (.value type resolved) u) :
    ∃ kind, WireType.kindOf type.id = .ok kind ∧
      (spot = .entered type resolved ∨
        spot = .declared type ∧ ∃ start after, info env kind start = .ok resolved after) := by
  cases spot with
  | entered known told =>
    obtain ⟨kind, start, hkind, hok⟩ := exists_of_bind_ok h
    cases hok
    exact ⟨kind, (exists_of_ofExcept_ok hkind).1, .inl rfl⟩
  | declared known =>
    obtain ⟨kind, start, hkind, hafter⟩ := exists_of_bind_ok h
    obtain ⟨flag, between, -, hbehind⟩ := exists_of_bind_ok hafter
    have hknown := (exists_of_ofExcept_ok hkind).1
    cases flag with
    | null => cases hbehind
    | ref =>
      obtain ⟨id, last, -, hok⟩ := exists_of_bind_ok hbehind
      obtain ⟨entry, after, -, hok⟩ := exists_of_bind_ok hok
      cases hok
    | notNull =>
      obtain ⟨found, last, hinfo, hok⟩ := exists_of_bind_ok hbehind
      cases hok
      exact ⟨kind, hknown, .inr ⟨rfl, between, u, hinfo⟩⟩
    | refValue =>
      obtain ⟨found, last, hinfo, hok⟩ := exists_of_bind_ok hbehind
      cases recording with
      | false =>
        cases hok
        exact ⟨kind, hknown, .inr ⟨rfl, between, u, hinfo⟩⟩
      | true =>
        obtain ⟨-, after, -, hok⟩ := exists_of_bind_ok hok
        cases hok
        exact ⟨kind, hknown, .inr ⟨rfl, between, last, hinfo⟩⟩

/-- Finding that an earlier value stands again leaves alone what was told. -/
theorem told_of_enter_ref {recording : Bool}
    (h : enter env recording (.declared type) s = .ok (.ref entry) u) : u.told = s.told := by
  obtain ⟨kind, start, hkind, hafter⟩ := exists_of_bind_ok h
  obtain ⟨-, rfl⟩ := exists_of_ofExcept_ok hkind
  clear h
  obtain ⟨flag, between, hflag, h⟩ := exists_of_bind_ok hafter
  have hbetween := Discipline.frozen.flag _ _ _ _ hflag
  cases flag with
  | null => cases h
  | ref =>
    obtain ⟨id, behind, hid, h⟩ := exists_of_bind_ok h
    obtain ⟨found, last, hfound, h⟩ := exists_of_bind_ok h
    cases eq_of_reference_ok hfound
    cases h
    obtain ⟨rest, -, rfl⟩ := exists_of_take_ok hid
    exact hbetween
  | notNull =>
    obtain ⟨resolved, after, -, h⟩ := exists_of_bind_ok h
    cases h
  | refValue =>
    obtain ⟨resolved, after, -, h⟩ := exists_of_bind_ok h
    cases recording with
    | true =>
      obtain ⟨-, last, -, h⟩ := exists_of_bind_ok h
      cases h
    | false => cases h

/-- Where an earlier value stands again, reading it takes the flag and the number and records
nothing. Names are only added, and none are where schemas travel or where no type is registered by
name. -/
theorem told_of_back_reference {fuel : Nat} {shape : Shape} {v : Datum}
    (hentry : enter env scope.recording (.declared type) s = .ok (.ref entry) u)
    (h : datumWithin env fuel scope (.declared type) shape s = .ok v t) :
    t.input = u.input ∧ t.refs = s.refs ∧ s.names <+: t.names ∧
      ((env.config.compatible = true ∨ ∀ spec ∈ env.registry.specs, spec.isByName = false) →
        t.names = s.names) := by
  cases fuel with
  | zero => cases h
  | succ fuel =>
    rw [datumWithin_of_ne_refused (ne_refused_of_datumWithin_ok h), bind_of_ok hentry] at h
    obtain ⟨w, hread, rfl⟩ := exists_of_again_ok h
    have htold := told_of_enter_ref hentry
    have hnames : u.names = s.names := congrArg Prod.fst htold
    have hrefs : u.refs = s.refs := congrArg Prod.snd htold
    have hadding := Discipline.adding.datumWithin env
      (Discipline.adding.typeInfo fun _ => Discipline.adding_name) fuel
      { scope with recording := false } (.entered entry.type entry.resolved)
      (env.shapes.resolve shape) nofun _ _ _ hread
    have hunrecorded := Discipline.unrecorded.datumWithin env
      (Discipline.unrecorded.typeInfo fun _ => Discipline.unrecorded_name) fuel
      { scope with recording := false }
      (.entered entry.type entry.resolved) (env.shapes.resolve shape) nofun _ _ _ hread
    refine ⟨rfl, Eq.trans hunrecorded hrefs, hnames ▸ hadding.1, fun hnone => ?_⟩
    have hfrozen := Discipline.frozen.datumWithin env (Discipline.frozen_typeInfo hnone) fuel
      { scope with recording := false }
      (.entered entry.type entry.resolved) (env.shapes.resolve shape) nofun _ _ _ hread
    exact Eq.trans (congrArg Prod.fst hfrozen) hnames

end Read

namespace Sample

/-- An engine whose schemas do not travel, with guests who have moods, and with hosts. Moods and
hosts are registered by names. -/
def inn : Engine where
  config := ⟨false, false, .tracking, 5⟩
  registry := ⟨Registry.standard.specs ++
    [⟨some (.user "Visit"), "Visit", false, .struct (.id 1)
        [⟨"first", .scalar (.user "Guest") false, false⟩,
          ⟨"again", .scalar (.user "Guest") true, false⟩,
          ⟨"host", .scalar (.user "Host") false, false⟩,
          ⟨"other", .scalar (.user "Host") false, false⟩]⟩,
      ⟨some (.user "Guest"), "Guest", false, .struct (.id 2)
        [⟨"mood", .scalar (.user "Mood") false, false⟩]⟩,
      ⟨some (.user "Mood"), "Mood", false, .enum (.name "a" "b")⟩,
      ⟨some (.user "Host"), "Host", false, .struct (.name "c" "d")
        [⟨"n", .scalar (.int .uint8) false, false⟩]⟩]⟩
  shapes :=
    [("Visit", .struct "Visit" [⟨"first", false, .user "Guest"⟩,
        ⟨"again", false, .option (.user "Guest")⟩, ⟨"host", false, .user "Host"⟩,
        ⟨"other", false, .user "Host"⟩]),
      ("Guest", .struct "Guest" [⟨"mood", false, .user "Mood"⟩]),
      ("Mood", .enum "Mood" [⟨"Glad", .unit⟩, ⟨"Sad", .unit⟩]),
      ("Host", .struct "Host" [⟨"n", false, .int .uint8⟩])]

/-- A visit of a guest, who is then said to be missing or to be there again. The host behind is
spelled out by name, and the other host refers to this name. -/
def visit (again : List UInt8) : List UInt8 :=
  [2, 255, 143, 2, 0, 143, 4, 255, 14, 2, 1, 0, 2, 1, 4, 1] ++ again ++
    [255, 17, 2, 1, 8, 2, 1, 12, 7, 255, 17, 7, 9, 8]

/-- What the inn relies on when it reads. -/
def innkeeper : ReadEnv := ⟨inn.config, inn.registry, inn.shapes, []⟩

/-- The type of guests. -/
def guestType : WireType := ⟨527, false, false, []⟩

/-- A guest in a mood whose type is spelled out by name. -/
def guest : RefEntry where
  start := [255, 14, 2, 1, 0, 2, 1, 4, 1]
  type := guestType
  resolved := .struct ⟨false, 527, "", "", [⟨"mood", false, false, ⟨14, false, false, []⟩⟩]⟩

/-- A guest was recorded and is there again. -/
def lobby : ReadState := ⟨[RefFlag.ref.toByte, 0], [], [guest]⟩

/-- How reading a visit fails, if it does. -/
def visitFailure? (again : List UInt8) : Option Error :=
  match inn.decode ⟨"Visit", .scalar (.user "Visit") false, .user "Visit"⟩ ⟨visit again, .empty⟩ with
  | .ok .. => none
  | .error e _ => some e

end Sample

/-- Reading the guest again records nothing, and adds the two names of the type of moods. -/
theorem told_of_back_reference_guest :
    ∃ entry u v t,
      Read.enter Sample.innkeeper true (.declared Sample.guestType) Sample.lobby =
        .ok (.ref entry) u ∧
      Read.datumWithin Sample.innkeeper 4 ⟨0, true⟩ (.declared Sample.guestType) (.user "Guest")
        Sample.lobby = .ok v t ∧
      t.input = u.input ∧ t.refs = Sample.lobby.refs ∧ Sample.lobby.names <+: t.names ∧
      t.names.length = 2 := by
  have hentry : ∃ entry u, Read.enter Sample.innkeeper true (.declared Sample.guestType)
      Sample.lobby = .ok (.ref entry) u :=
    ⟨_, _, rfl⟩
  have hread : ∃ v t, Read.datumWithin Sample.innkeeper 4 ⟨0, true⟩ (.declared Sample.guestType)
      (.user "Guest") Sample.lobby = .ok v t ∧ t.names.length = 2 :=
    ⟨_, _, rfl, rfl⟩
  obtain ⟨entry, u, hentry⟩ := hentry
  obtain ⟨v, t, hread, hcount⟩ := hread
  obtain ⟨hinput, hrefs, hnames, -⟩ :=
    Read.told_of_back_reference hentry hread
  exact ⟨entry, u, v, t, hentry, hread, hinput, hrefs, hnames, hcount⟩

/-- With the guest missing the visit is read, but with the guest there again the other host is
taken for a mood: reading the guest again has moved all later names. -/
theorem back_reference_moves_names :
    Sample.visitFailure? [RefFlag.null.toByte] = none ∧
      Sample.visitFailure? [RefFlag.ref.toByte, 0] = some (.carriedKind "Mood" .namedStruct) := by
  decide +kernel

end SchemaWire
