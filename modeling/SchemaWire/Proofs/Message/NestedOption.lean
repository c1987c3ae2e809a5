import SchemaWire.Proofs.Data.Wrapped
import SchemaWire.Proofs.Message.Entrance
import SchemaWire.Proofs.Value.Options

/-!
# Options at the top level

A message whose value may be missing at several levels tells with one bit whether it is missing.
A value that is missing at the first level is read as a missing one, and a value that is present at
all levels is read back. A value that is present at the first level and missing at another one is
announced as present, and nothing is written of it: no reader finds it missing.
-/

namespace SchemaWire

namespace Read

variable {env : ReadEnv} {scope : Scope} {type : WireType} {resolved : Resolved} {shape : Shape}
  {s t : ReadState} {v : Datum} {kind : Kind}

/-- Behind the annotations a value is present at all levels. -/
theorem gives_options_iff (hkind : WireType.kindOf type.id = .ok kind) (n : Nat) :
    Gives env scope (.entered type resolved) (shape.options n) s v t ↔
      ∃ w, Gives env scope (.entered type resolved) shape s w t ∧ v = w.somes n := by
  induction n generalizing v with
  | zero => simp only [Shape.options, Datum.somes, exists_eq_right']
  | succ n ih =>
    rw [Shape.options, gives_option_iff hkind]
    simp only [ih]
    constructor
    · rintro ⟨_, ⟨w, hw, rfl⟩, rfl⟩
      exact ⟨w, hw, rfl⟩
    · rintro ⟨w, hw, rfl⟩
      exact ⟨_, ⟨w, hw, rfl⟩, rfl⟩

end Read

namespace Write

variable {env : WriteEnv}

/-- A value that is present at some levels is written as what it holds. -/
theorem datum_somes (depth : Nat) (type : FieldType) (tracked annotated : Bool) (v : Datum)
    (n : Nat) :
    datum env depth (.declared type tracked annotated) (v.somes n) =
      datum env depth (.declared type tracked annotated) v := by
  induction n with
  | zero => rfl
  | succ n ih =>
    rw [Datum.somes, datum]
    · exact ih
    all_goals
      intros
      contradiction

end Write

/-- A value that is not missing is not missing at any level. -/
theorem Datum.isMissing_of_isPresent : (v : Datum) → v.isPresent = true → v.isMissing = false
  | .some content, h => isMissing_of_isPresent content h
  | .bool _, _ | .int _ _, _ | .float32 _, _ | .float64 _, _ | .char _, _ | .text _, _
  | .bytes _, _ | .unit, _ | .newtype _, _ | .seq _ _, _ | .tuple _, _ | .map _ _, _
  | .struct _ _, _ | .unitVariant _ _ _, _ | .newtypeVariant _ _ _ _, _
  | .tupleVariant _ _ _ _, _ | .structVariant _ _ _ _, _ => rfl

namespace Datum

/-- What is not missing at any level does not collapse. -/
theorem collapsed_of_isPresent {v : Datum} (h : v.isPresent = true) (n : Nat) :
    (v.somes n).collapsed = v.somes n := by
  rw [collapsed, isMissing_somes, isMissing_of_isPresent v h]
  rfl

/-- What is missing at some level collapses to a missing value. -/
theorem collapsed_somes_none (n : Nat) : (somes .none n).collapsed = .none := by
  rw [collapsed, isMissing_somes]
  rfl

end Datum

namespace Engine

variable {writer reader : Engine} {hosts : HostType → Prop} {base : Shape} {free n : Nat} {v w : Datum}
  {bytes : List UInt8}

/-- What is read of a message that is not null is present at all levels. -/
theorem Entrance.eq_somes_of_decode_ok
    (e : Entrance writer reader hosts free (base.options n).declared v bytes) {label : String}
    {context : ReadContext} {left : Reading}
    (hread : reader.decode ⟨label, (base.options n).declared, base.options n⟩ ⟨bytes, context⟩ =
      .ok w left) : ∃ u : Datum, w = u.somes n := by
  obtain ⟨kind, hkind⟩ := e.exists_kind
  obtain ⟨t, hgives, -⟩ := (e.decode_eq_ok_iff label _ context).mp hread
  obtain ⟨u, -, hu⟩ := (Read.gives_options_iff hkind n).mp hgives
  exact ⟨u, hu⟩

/-- A value that is present at all levels is read back, and it is not missing in itself. -/
theorem Entrance.decode_somes (e : Entrance writer reader hosts writer.config.maxDepth
      (base.options (n + 1)).declared (w.somes (n + 1)) bytes)
    (hbase : base.Declarable hosts) (hflat : base.isOption = false)
    (hholds : base.Holds reader.shapes w) (label : String) (context : ReadContext) :
    w.isPresent = true ∧ ∃ kept,
      reader.decode ⟨label, (base.options (n + 1)).declared, base.options (n + 1)⟩
        ⟨bytes, context⟩ = .ok (w.somes (n + 1)) ⟨[], kept⟩ := by
  obtain ⟨kind, hkind⟩ := e.exists_kind
  have hopened : (writer.peers reader e.schemas e.after.queue).Opened base
      (base.options (n + 1)).declared e.spec e.type e.resolved :=
    ⟨.inr (base.declared_options n), e.registered, ⟨false, e.derived⟩, e.told⟩
  have hpresent := e.concur.isPresent hbase hflat hholds hopened.declared e.registered
  have hcarries := (e.concur.follows (w.height + 2)).entered hbase hflat hholds
    (Nat.lt_succ_self _) hopened 0 false true
  have hdata := e.data
  rw [Write.datum_somes] at hdata
  obtain ⟨refs, hread⟩ := hcarries.read.reads _ _ _ e.sound (List.prefix_refl _) hdata []
    e.start.refs
  rw [List.append_nil, ← e.sameNames] at hread
  have hgives : Read.Gives e.env ⟨0, true⟩ (.entered e.type e.resolved) base e.start w
      ⟨[], e.after.names, refs⟩ :=
    ⟨_, hread⟩
  have hall := (Read.gives_options_iff hkind (n + 1)).mpr ⟨w, hgives, rfl⟩
  exact ⟨hpresent, _, (e.decode_eq_ok_iff label _ context).mpr ⟨_, hall, rfl, rfl⟩⟩

end Engine

/-- A value that may be missing at several levels is read back from its message if it is missing at
the first level or at none of them. Otherwise what is read of its message, if anything is, is present
at all levels, and so it is not the missing value that was written. -/
theorem nested_options {writer reader : Engine} {hosts : HostType → Prop}
    (h : writer.Matches reader hosts) {base : Shape} (hbase : base.Declarable hosts)
    (hflat : base.isOption = false) {n : Nat} (hn : 0 < n) {v : Datum}
    (hholds : (base.options n).Holds reader.shapes v) {before after : WriteTables}
    {message : Message}
    (hencode : writer.encode (base.options n).declared v before = .ok message after)
    (label : String) (context : ReadContext) :
    (v.collapsed = v → ∃ kept,
      reader.decode ⟨label, (base.options n).declared, base.options n⟩ ⟨message.toList, context⟩ =
        .ok v ⟨[], kept⟩) ∧
    (v.collapsed ≠ v → ∀ w left,
      reader.decode ⟨label, (base.options n).declared, base.options n⟩ ⟨message.toList, context⟩ =
        .ok w left → w ≠ v.collapsed ∧ ∃ u : Datum, w = u.somes n) := by
  obtain ⟨n, rfl⟩ := Nat.exists_eq_succ_of_ne_zero (Nat.ne_of_gt hn)
  have hnullable : (base.options (n + 1)).declared.nullable = true := by
    rw [base.declared_options n]
    exact base.declared.nullable_orNull
  have hover : (base.options (n + 1)).declared.Among hosts := by
    rw [base.declared_options n]
    exact hbase.among.orNull
  have hentrance (hvalue : v.isNull = false) : Nonempty (Engine.Entrance writer reader hosts
      writer.config.maxDepth (base.options (n + 1)).declared v message.toList) :=
    h.exists_entrance hover hencode (by rw [hvalue, Bool.and_false])
  rcases hholds.of_options with ⟨k, -, rfl⟩ | ⟨w, hw, rfl⟩
  · rw [Datum.collapsed_somes_none]
    cases k with
    | zero =>
      refine ⟨fun _ => ?_, fun hne => absurd rfl hne⟩
      have hdefault : reader.nullValue ⟨label, (base.options (n + 1)).declared,
          base.options (n + 1)⟩ = .ok .none := by
        rw [Engine.nullValue, if_pos hnullable]
        rfl
      have hnull : ((base.options (n + 1)).declared.nullable && Datum.none.isNull) = true := by
        rw [hnullable]
        rfl
      exact ⟨_, (Engine.decode_eq_ok_iff).mpr
        ⟨0, h.decodeWith_of_null hencode hnull hdefault _ context⟩⟩
    | succ k =>
      obtain ⟨e⟩ := hentrance rfl
      refine ⟨fun hsame => absurd hsame Datum.noConfusion, fun _ w left hread => ?_⟩
      obtain ⟨u, rfl⟩ := e.eq_somes_of_decode_ok hread
      exact ⟨Datum.noConfusion, u, rfl⟩
  · obtain ⟨e⟩ := hentrance rfl
    obtain ⟨hpresent, hread⟩ := e.decode_somes hbase hflat hw label context
    exact ⟨fun _ => hread, fun hne => absurd (Datum.collapsed_of_isPresent hpresent _) hne⟩

namespace Sample

/-- A registry with pauses, which are structs without fields. -/
def pauses : Registry where
  specs := Registry.standard.specs ++
    [⟨some (.user "Pause"), "Pause", false, .struct (.id 1) []⟩]

/-- An engine for pauses. -/
def drummer : Engine where
  config := ⟨false, false, .none, 5⟩
  registry := pauses
  shapes := [("Pause", .struct "Pause" [])]

/-- A pause. -/
def pause : Datum := .struct "Pause" []

/-- The registry of pauses is built by one registration. -/
theorem built_pauses : pauses.Built := by
  have hadded : Registry.standard.registerStruct (.user "Pause") (.id 1) [] = .ok pauses := rfl
  exact .struct .standard hadded

/-- The engine for pauses matches itself. -/
theorem matches_drummer : drummer.Matches drummer (· = HostType.user "Pause") where
  xlang := rfl
  compatible := rfl
  refMode := rfl
  depth := Nat.le_refl _
  written := built_pauses
  own := built_pauses
  addressable := by decide +kernel
  types := by
    rintro host rfl
    exact .inl ⟨_, _, rfl, rfl, rfl, .struct rfl nofun, nofun⟩

/-- A pause is held where pauses are. -/
theorem holds_pause : (Shape.user "Pause").Holds drummer.shapes pause :=
  .user (.struct rfl nofun)

end Sample

/-- A pause within two options is read back. Of a missing one within an option no missing value is
read. -/
theorem nested_options_pause :
    (∃ message after kept,
      Sample.drummer.encode (.scalar (.user "Pause") true) (.some (.some Sample.pause)) .empty =
        .ok message after ∧
      Sample.drummer.decode ⟨"Pause", .scalar (.user "Pause") true,
        .option (.option (.user "Pause"))⟩ ⟨message.toList, .empty⟩ =
          .ok (.some (.some Sample.pause)) ⟨[], kept⟩) ∧
    ∃ message after,
      Sample.drummer.encode (.scalar (.user "Pause") true) (.some .none) .empty =
        .ok message after ∧
      ∀ w left, Sample.drummer.decode ⟨"Pause", .scalar (.user "Pause") true,
        .option (.option (.user "Pause"))⟩ ⟨message.toList, .empty⟩ = .ok w left → w ≠ .none := by
  have hbase : (Shape.user "Pause").Declarable (· = HostType.user "Pause") := .user rfl
  have hpresent : ((Shape.user "Pause").options 2).Holds Sample.drummer.shapes
      (.some (.some Sample.pause)) :=
    .some (.some Sample.holds_pause)
  have hmissing : ((Shape.user "Pause").options 2).Holds Sample.drummer.shapes (.some .none) :=
    .some (.none _)
  have hencode : ∃ message after, Sample.drummer.encode (.scalar (.user "Pause") true)
      (.some (.some Sample.pause)) .empty = .ok message after :=
    ⟨_, _, rfl⟩
  have hother : ∃ message after, Sample.drummer.encode (.scalar (.user "Pause") true)
      (.some .none) .empty = .ok message after :=
    ⟨_, _, rfl⟩
  obtain ⟨message, after, hencode⟩ := hencode
  obtain ⟨other, last, hother⟩ := hother
  obtain ⟨kept, hread⟩ := (nested_options Sample.matches_drummer hbase rfl Nat.two_pos hpresent
    hencode "Pause" .empty).1 rfl
  have hnone := (nested_options Sample.matches_drummer hbase rfl Nat.two_pos hmissing hother "Pause"
    .empty).2 nofun
  exact ⟨⟨message, after, kept, hencode, hread⟩, other, last, hother,
    fun w left hw => (hnone w left hw).1⟩

/-- A missing number within an option is written as a message that cannot be read, and a missing
pause as the message of a pause that is there. -/
theorem nested_option_lost :
    (∃ message after left,
      Sample.drummer.encode (.scalar (.int .uint8) true) (.some .none) .empty =
        .ok message after ∧
      Sample.drummer.decode ⟨"u8", .scalar (.int .uint8) true, .option (.option (.int .uint8))⟩
        ⟨message.toList, .empty⟩ = .error (.unexpectedEnd 1) left) ∧
    ∃ message after left,
      Sample.drummer.encode (.scalar (.user "Pause") true) (.some .none) .empty =
        .ok message after ∧
      Sample.drummer.decode ⟨"Pause", .scalar (.user "Pause") true,
        .option (.option (.user "Pause"))⟩ ⟨message.toList, .empty⟩ =
          .ok (.some (.some Sample.pause)) left := by
  have hunread : ∃ left, Sample.drummer.decodeWithin 4
      ⟨"u8", .scalar (.int .uint8) true, .option (.option (.int .uint8))⟩ ⟨[2, 64], .empty⟩ =
        .error (.unexpectedEnd 1) left :=
    ⟨_, rfl⟩
  have hmistaken : ∃ left, Sample.drummer.decodeWithin 4
      ⟨"Pause", .scalar (.user "Pause") true, .option (.option (.user "Pause"))⟩
      ⟨[2, 143, 2], .empty⟩ = .ok (.some (.some Sample.pause)) left :=
    ⟨_, rfl⟩
  obtain ⟨left, hunread⟩ := hunread
  obtain ⟨last, hmistaken⟩ := hmistaken
  exact ⟨⟨⟨[[2, 64]]⟩, _, left, rfl, Engine.decode_eq_error hunread nofun⟩,
    ⟨⟨[[2, 143, 2]]⟩, _, last, rfl, Engine.decode_eq_ok_iff.mpr ⟨4, hmistaken⟩⟩⟩

end SchemaWire
