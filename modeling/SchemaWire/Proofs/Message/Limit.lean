import SchemaWire.Engine
import SchemaWire.Proofs.Limit.Places

/-!
# How deep reading goes

Reading a message with its budget gives the same as reading it with any other bound that reading
ends with. So the budget does not show: where it is too low, every bound is, because reading runs
in a circle.
-/

namespace SchemaWire

section Limits

variable {σ α β : Type}

/-- With the limit as its bound the reader does what it does with every bound that it ends with. -/
def Limited (limit : Nat) (R : Nat → EStateM Error σ α) (s : σ) : Prop :=
  ∀ n, ¬Unfinished (R n s) → R limit s = R n s

/-- A reader that needs no bound is limited. -/
theorem Limited.const (limit : Nat) (r : EStateM Error σ α) (s : σ) :
    Limited limit (fun _ => r) s :=
  fun _ _ => rfl

/-- Behind a reader that needs no bound, a limited reader is limited. -/
theorem Limited.const_bind {limit : Nat} {r : EStateM Error σ α} {K : α → Nat → EStateM Error σ β}
    {s : σ} (h : ∀ a t, r s = .ok a t → Limited limit (K a) t) :
    Limited limit (fun n => r >>= fun a => K a n) s := by
  intro n hend
  dsimp only at hend ⊢
  cases hr : r s with
  | ok a t =>
    rw [bind_of_ok hr] at hend
    rw [bind_of_ok hr, bind_of_ok hr]
    exact h a t hr n hend
  | error e t => rw [bind_of_error hr, bind_of_error hr]

/-- In front of a reader that needs no bound, a limited reader is limited. -/
theorem Limited.bind_const {limit : Nat} {R : Nat → EStateM Error σ α} {s : σ}
    (h : Limited limit R s) (next : α → EStateM Error σ β) :
    Limited limit (fun n => R n >>= next) s := by
  intro n hend
  have hsame := h n fun hstuck => hend hstuck.bind
  dsimp only
  cases hR : R n s with
  | ok a t => rw [bind_of_ok (hsame.trans hR), bind_of_ok hR]
  | error e t => rw [bind_of_error (hsame.trans hR), bind_of_error hR]

/-- Two sequences with one first part agree where the second one ends, if their second parts agree
where the second one ends. -/
theorem bind_eq_of_ends {x : EStateM Error σ α} {f g : α → EStateM Error σ β} {s : σ}
    (h : ∀ a t, x s = .ok a t → ¬Unfinished (g a t) → f a t = g a t)
    (hend : ¬Unfinished ((x >>= g) s)) : (x >>= f) s = (x >>= g) s := by
  cases hx : x s with
  | ok a t =>
    rw [bind_of_ok hx] at hend
    rw [bind_of_ok hx, bind_of_ok hx]
    exact h a t hx hend
  | error e t => rw [bind_of_error hx, bind_of_error hx]

end Limits

namespace Read

/-- Looking at what stands next changes nothing. -/
theorem eq_of_peek_ok {α : Type} {reader : Take α} {s t : ReadState} {a : α}
    (h : peek reader s = .ok a t) : t = s := by
  obtain ⟨start, between, hget, htake⟩ := exists_of_bind_ok h
  obtain ⟨value, middle, -, hset⟩ := exists_of_bind_ok htake
  cases hget
  cases hset
  rfl

/-- Reading a flag takes bytes from the front, and records nothing. -/
theorem suffix_of_flag_ok {flagged : Bool} {s t : ReadState} {flag : RefFlag}
    (h : Read.flag flagged s = .ok flag t) : t.input <:+ s.input ∧ t.refs = s.refs := by
  cases flagged with
  | false =>
    cases h
    exact ⟨List.suffix_refl _, rfl⟩
  | true =>
    obtain ⟨byte, between, hbyte, h⟩ := exists_of_bind_ok h
    obtain ⟨rest, hrest, rfl⟩ := exists_of_take_ok hbyte
    obtain ⟨-, rfl⟩ := exists_of_ofExcept_ok h
    cases hinput : s.input with
    | nil =>
      rw [hinput] at hrest
      cases hrest
    | cons first others =>
      rw [hinput] at hrest
      cases hrest
      exact ⟨List.suffix_cons byte rest, rfl⟩

end Read

/-- The id of the top-level type does not matter to how many places there are. -/
theorem ReadEnv.placeCount_of_id (env : ReadEnv) (type : WireType) (id : UInt32) (shape : Shape)
    (length : Nat) :
    env.placeCount { type with id := id } shape length = env.placeCount type shape length := by
  simp only [placeCount, types, List.length_append, type.length_within_of_id id]

namespace World

variable {env : ReadEnv} {top : WireType} {shape : Shape} {body : List UInt8}

/-- A reader that is traced in the world of a message is limited by the number of places. -/
theorem limited {α : Type} {R : Nat → Read α} {post : α → Prop}
    (hR : (ofMessage env top shape body).realm.Traced (fun _ => True) R post) {s : ReadState}
    (hs : (ofMessage env top shape body).realm.Inside s) :
    Limited (env.placeCount top shape body.length) R s := by
  intro n hend
  have hlimit : ¬Unfinished (R (env.placeCount top shape body.length) s) := fun hstuck =>
    hend (unfinished_of_placeCount_le hR hs (Nat.le_refl _) hstuck n)
  rcases Nat.le_total (env.placeCount top shape body.length) n with hle | hle
  · exact (hR.steady trivial trivial hle hs hlimit).symm
  · exact hR.steady trivial trivial hle hs hend

end World

namespace Engine

variable {engine : Engine} {target : Target}

/-- Behind its type id, reading the top-level value is traced. -/
theorem traced_decodeTyped {schemas : List Schema} {declared : WireType}
    (hdeclared : WireType.ofFieldType engine.registry engine.config.compatible target.declared
      false = .ok declared) (recorded : Bool) (typeId : Nat) (body : List UInt8) :
    (World.ofMessage ⟨engine.config, engine.registry, engine.shapes, schemas⟩
      { declared with id := UInt32.ofNat typeId } target.shape body).realm.Traced (fun _ => True)
      (fun n => engine.decodeTyped n target schemas recorded typeId) fun _ => True := by
  let env : ReadEnv := ⟨engine.config, engine.registry, engine.shapes, schemas⟩
  let type : WireType := { declared with id := UInt32.ofNat typeId }
  let world := World.ofMessage env type target.shape body
  have htype : type ∈ world.types := List.mem_append_left _ type.mem_within
  have hshape : target.shape ∈ world.shapes :=
    List.mem_append_left _ (List.mem_append_left _ (List.mem_append_right _ target.shape.mem_within))
  refine World.traced_typeInfo.bind fun resolved hresolved => ?_
  have hsame (found : WireType) (h : WireType.ofFieldType engine.registry
      engine.config.compatible target.declared false = .ok found) : found = declared :=
    Except.ok.inj (h.symm.trans hdeclared)
  refine (Realm.Traced.ofExcept hsame).bind fun found hfound => ?_
  cases hfound
  have hspot : world.HasSpot (.entered type resolved) := ⟨htype, hresolved⟩
  have hread : world.realm.Traced (fun _ => True)
      (fun n => Read.datumWithin env n ⟨0, true⟩ (.entered type resolved) target.shape)
      fun _ => True :=
    World.tracedCalls.read (Nat.zero_le _) hspot hshape
  cases recorded with
  | true => exact (World.traced_record htype hresolved).bind fun _ _ => hread
  | false => exact hread

/-- Reading the top-level value is limited by the budget. -/
theorem limited_decodeValue {frame : Frame} {s : ReadState} (hinput : s.input <:+ frame.body)
    (hrefs : s.refs = []) (recorded : Bool) :
    Limited (engine.budget target frame)
      (fun n => engine.decodeValue n target frame.schemas recorded) s := by
  refine Limited.const_bind fun typeId t hpeek => ?_
  cases Read.eq_of_peek_ok hpeek
  cases hdeclared : WireType.ofFieldType engine.registry engine.config.compatible target.declared
    false with
  | ok declared =>
    have hs : (World.ofMessage ⟨engine.config, engine.registry, engine.shapes, frame.schemas⟩
        { declared with id := UInt32.ofNat typeId } target.shape frame.body).realm.Inside s := by
      refine ⟨hinput, ?_⟩
      rw [hrefs]
      exact nofun
    have hlimited := World.limited (traced_decodeTyped hdeclared recorded typeId frame.body) hs
    rw [ReadEnv.placeCount_of_id] at hlimited
    rwa [budget, hdeclared]
  | error e =>
    refine Limited.const_bind fun resolved u _ => ?_
    refine Limited.const_bind fun found v hfound => ?_
    rw [hdeclared] at hfound
    cases hfound

/-- Reading the body of a message is limited by the budget. -/
theorem limited_decodeBody (frame : Frame) :
    Limited (engine.budget target frame)
      (fun n => engine.decodeBody n target frame.schemas) ⟨frame.body, [], []⟩ := by
  refine Limited.const_bind fun flag s hflag => ?_
  obtain ⟨hinput, hrefs⟩ := Read.suffix_of_flag_ok hflag
  cases flag with
  | null | ref => exact .const _ _ _
  | notNull => exact (limited_decodeValue hinput hrefs false).bind_const _
  | refValue => exact (limited_decodeValue hinput hrefs true).bind_const _

/-- Reading a frame with its budget gives what reading it with any bound gives that it ends with. -/
theorem decodeFrame_eq_of_ends {n : Nat} {frame : Frame} {reading : Reading}
    (h : ¬Unfinished (engine.decodeFrame n target frame reading)) :
    engine.decodeFrame (engine.budget target frame) target frame reading =
      engine.decodeFrame n target frame reading := by
  have hbody : ¬Unfinished (engine.decodeBody n target frame.schemas ⟨frame.body, [], []⟩) := by
    rintro ⟨s, hs⟩
    refine h ⟨{ reading with context := ⟨frame.schemas, s.names, s.refs⟩ }, ?_⟩
    rw [decodeFrame, hs]
  have hsame := limited_decodeBody frame n hbody
  dsimp only at hsame
  rw [decodeFrame, decodeFrame, hsame]

/-- Reading a message with its budget gives what reading it with any bound gives that it ends
with. -/
theorem decode_eq_of_ends {n : Nat} {reading : Reading}
    (h : ¬Unfinished (engine.decodeWithin n target reading)) :
    engine.decode target reading = engine.decodeWithin n target reading := by
  refine bind_eq_of_ends (fun _ s _ hend => ?_) h
  refine bind_eq_of_ends (fun header t _ hend => ?_) hend
  cases hnull : header.isNull with
  | true => rfl
  | false =>
    rw [hnull] at hend
    refine bind_eq_of_ends (fun frame u _ hend => ?_) hend
    exact decodeFrame_eq_of_ends hend

/-- Reading a message starts with a fresh context. -/
theorem decodeWith_eq (engine : Engine) (fuel : Frame → Nat) (target : Target)
    (reading : Reading) :
    engine.decodeWith fuel target reading =
      (do
        let header ← fromSource (Header.takeStreamed engine.config)
        if header.isNull then MonadExcept.ofExcept (engine.nullValue target)
        else
          let frame ← fromSource (Frame.take engine.config)
          engine.decodeFrame (fuel frame) target frame) { reading with context := .empty } :=
  rfl

/-- Reading a message with its budget is reading it with some bound. -/
theorem exists_decodeWithin_eq (engine : Engine) (target : Target) (reading : Reading) :
    ∃ n, engine.decodeWithin n target reading = engine.decode target reading := by
  simp only [decodeWithin, decode, decodeWith_eq]
  cases hheader : fromSource (Header.takeStreamed engine.config)
      { reading with context := .empty } with
  | error e t => exact ⟨0, by rw [bind_of_error hheader, bind_of_error hheader]⟩
  | ok header t =>
    cases hnull : header.isNull with
    | true => exact ⟨0, by rw [bind_of_ok hheader, bind_of_ok hheader, hnull]; rfl⟩
    | false =>
      cases hframe : fromSource (Frame.take engine.config) t with
      | error e u =>
        refine ⟨0, ?_⟩
        rw [bind_of_ok hheader, bind_of_ok hheader, hnull]
        exact (bind_of_error hframe).trans (bind_of_error hframe).symm
      | ok frame u =>
        refine ⟨engine.budget target frame, ?_⟩
        rw [bind_of_ok hheader, bind_of_ok hheader, hnull]
        refine (bind_of_ok hframe).trans (Eq.symm ?_)
        exact bind_of_ok hframe

end Engine

/-- Reading a message ends with some bound exactly if it ends with the budget, and every bound
that it ends with gives the same. -/
theorem ends_iff_ends_with_budget (engine : Engine) (target : Target) (reading : Reading) :
    ((∃ n, ¬Unfinished (engine.decodeWithin n target reading)) ↔
        ¬Unfinished (engine.decode target reading)) ∧
      ∀ n, ¬Unfinished (engine.decodeWithin n target reading) →
        engine.decodeWithin n target reading = engine.decode target reading := by
  have hsame (n : Nat) (hend : ¬Unfinished (engine.decodeWithin n target reading)) :=
    (Engine.decode_eq_of_ends hend).symm
  refine ⟨⟨?_, ?_⟩, hsame⟩
  · rintro ⟨n, hend⟩
    rwa [← hsame n hend]
  · intro hend
    obtain ⟨n, hn⟩ := engine.exists_decodeWithin_eq target reading
    exact ⟨n, by rwa [hn]⟩

namespace Sample

/-- An engine without user types that follows references. -/
def tracker (maxDepth : Nat) : Engine := ⟨⟨false, false, .tracking, maxDepth⟩, .standard, []⟩

/-- A reader of whatever is in a list of texts. -/
def whatever : Target := ⟨"whatever", .list "texts" (.scalar .string true) false, .any⟩

/-- A message with a list whose only element refers to the list. -/
def circular : List UInt8 := [2, 0, 21, 1, 254, 0]

/-- The type of the elements of the list. -/
def element : WireType := ⟨12, true, false, []⟩

/-- The list of the message, as its reader records it. -/
def recorded : RefEntry := ⟨[1, 254, 0], ⟨21, false, false, [element]⟩, .known .list⟩

/-- What the reader of the message relies on. -/
def env (maxDepth : Nat) : ReadEnv :=
  ⟨(tracker maxDepth).config, (tracker maxDepth).registry, (tracker maxDepth).shapes, []⟩

/-- Reading the list does not end: its element is the list again, two calls below. -/
theorem unfinished_recorded (maxDepth n : Nat) : ∀ recording,
    Unfinished (Read.datumWithin (env maxDepth) n ⟨0, recording⟩
      (.entered recorded.type recorded.resolved) .any ⟨recorded.start, [], [recorded]⟩) := by
  induction n using Nat.strongRecOn with
  | _ n ih =>
    intro recording
    match n with
    | 0 => exact ⟨_, rfl⟩
    | 1 => exact ⟨_, rfl⟩
    | n + 2 =>
      obtain ⟨t, ht⟩ := ih n (by omega) false
      let read : Elements ReadState := fun _ shape =>
        Read.datumWithin (env maxDepth) (n + 1) ⟨0, recording⟩ (.declared element) shape
      have hagain : Read.again recorded
          (fun spot => Read.datumWithin (env maxDepth) n ⟨0, false⟩ spot .any)
            ⟨[], [], [recorded]⟩ = .error .unfinished t :=
        Read.again_of_error ht
      have helement : read 0 .any ⟨[254, 0], [], [recorded]⟩ = .error .unfinished t := hagain
      have hcollect : read.collect .any 1 0 ⟨[254, 0], [], [recorded]⟩ = .error .unfinished t :=
        bind_of_error helement
      have hvisit : read.visit 1 .any ⟨[254, 0], [], [recorded]⟩ = .error .unfinished t :=
        bind_of_error hcollect
      have hcount : Read.take Varint.take32 ⟨[1, 254, 0], [], [recorded]⟩ =
          .ok 1 ⟨[254, 0], [], [recorded]⟩ :=
        rfl
      have hargument : Read.argument recorded.type 0 = .ok element := rfl
      have hlist : Read.known (env maxDepth)
          (fun type => Read.datumWithin (env maxDepth) (n + 1) ⟨0, recording⟩ (.declared type))
          .list recorded.type .any ⟨recorded.start, [], [recorded]⟩ = .error .unfinished t :=
        (ofExcept_bind_of_ok hargument _ _).trans
          ((bind_of_ok hcount).trans (bind_of_error hvisit))
      exact ⟨t, hlist⟩

end Sample

/-- Reading the message does not end, with any bound. -/
theorem Sample.unfinished_circular (maxDepth n : Nat) (context : ReadContext) :
    Unfinished ((Sample.tracker maxDepth).decodeWithin n Sample.whatever
      ⟨Sample.circular, context⟩) := by
  let engine := Sample.tracker maxDepth
  let target := Sample.whatever
  obtain ⟨t, ht⟩ := Sample.unfinished_recorded maxDepth n true
  have hpeek : Read.peek Varint.take32 ⟨[21, 1, 254, 0], [], []⟩ =
      .ok 21 ⟨[21, 1, 254, 0], [], []⟩ :=
    rfl
  have hinfo : Read.typeInfo (Sample.env maxDepth) ⟨[21, 1, 254, 0], [], []⟩ =
      .ok (.known .list) ⟨[1, 254, 0], [], []⟩ :=
    rfl
  have htyped : engine.decodeTyped n target [] true 21 ⟨[21, 1, 254, 0], [], []⟩ =
      .error .unfinished t :=
    (bind_of_ok hinfo).trans ht
  have hvalue : engine.decodeValue n target [] true ⟨[21, 1, 254, 0], [], []⟩ =
      .error .unfinished t :=
    (bind_of_ok hpeek).trans htyped
  have hflag : Engine.takeTopFlag engine.config ⟨[0, 21, 1, 254, 0], [], []⟩ =
      .ok .refValue ⟨[21, 1, 254, 0], [], []⟩ :=
    rfl
  have hbody : engine.decodeBody n target [] ⟨[0, 21, 1, 254, 0], [], []⟩ =
      .error .unfinished t :=
    (bind_of_ok hflag).trans (bind_of_error hvalue)
  have hframe : engine.decodeFrame n target ⟨none, [0, 21, 1, 254, 0], []⟩ ⟨[], .empty⟩ =
      .error .unfinished ⟨[], ⟨[], t.names, t.refs⟩⟩ := by
    rw [Engine.decodeFrame, hbody]
  have hheader : Engine.fromSource (Header.takeStreamed engine.config)
      ⟨Sample.circular, .empty⟩ =
        .ok (Header.ofConfig engine.config false) ⟨[0, 21, 1, 254, 0], .empty⟩ :=
    rfl
  have hbytes : Engine.fromSource (Frame.take engine.config) ⟨[0, 21, 1, 254, 0], .empty⟩ =
      .ok ⟨none, [0, 21, 1, 254, 0], []⟩ ⟨[], .empty⟩ :=
    rfl
  refine ⟨⟨[], ⟨[], t.names, t.refs⟩⟩, ?_⟩
  rw [Engine.decodeWithin, Engine.decodeWith_eq]
  exact (bind_of_ok hheader).trans ((bind_of_ok hbytes).trans hframe)

/-- Reading a list that holds itself ends with no bound, however few structs may be nested. -/
theorem never_ends_circular :
    ¬∃ maxDepth n context, ¬Unfinished ((Sample.tracker maxDepth).decodeWithin n Sample.whatever
      ⟨Sample.circular, context⟩) := by
  rintro ⟨maxDepth, n, context, hend⟩
  exact hend (Sample.unfinished_circular maxDepth n context)

end SchemaWire
