import SchemaWire.Data.Serialize
import SchemaWire.Proofs.Data.Enter

/-!
# Event by event, the same is written

A serializer that is told of a value event by event writes what the writer of the whole value
writes. It ends where it started: with the compounds open that were open before, with no place
waiting, and inside of the same value with a layout of its own, or outside of it if the written
value was the whole of it.
-/

namespace SchemaWire

namespace Serializer

/-- The same state of mind with other tables and bytes. -/
def holding (s : Serializer) (tables : WriteTables) (buffer : List UInt8) : Serializer :=
  { s with tables := tables, buffer := buffer }

/-- How many compounds of a plain value are open behind a part of it. Behind the whole of it, it is
no longer being written. -/
def closed : Option Nat → Option Nat
  | some (n + 1) => some (n + 1)
  | _ => none

/-- The state behind the value that the pending place waits for. -/
def filled (s : Serializer) : Serializer :=
  { s with pending := none, plain := closed s.plain }

/-- The next value is written to the place. -/
inductive Ready (s : Serializer) : Place → Prop
  /-- Inside of a plain value no place waits. -/
  | plain {n : Nat} (hplain : s.plain = some n) (hpending : s.pending = none) : s.Ready .plain
  /-- The declared place waits. -/
  | declared {type : FieldType} {tracked annotated : Bool} (hplain : s.plain = none)
    (hpending : s.pending = some ⟨type, tracked, annotated⟩) :
    s.Ready (.declared type tracked annotated)

/-- From the first state, the step does what the writer does, and comes to the second state with
what was written before and by the writer. It fails as the writer fails. -/
def Does (s : Serializer) (step : Serialize Unit) (writer : Write (List UInt8))
    (t : Serializer) : Prop :=
  match writer s.tables with
  | .ok bytes tables => step s = .ok () (t.holding tables (s.buffer ++ bytes))
  | .error e tables => ∃ u, step s = .error e u ∧ u.tables = tables

variable {s t u : Serializer} {step next : Serialize Unit} {writer rest : Write (List UInt8)}

namespace Does

/-- Where the writer fails, the step fails in the same way. -/
theorem of_error {e : Error} {tables : WriteTables} (hwriter : writer s.tables = .error e tables)
    (h : s.Does step writer t) : ∃ u, step s = .error e u ∧ u.tables = tables := by
  rwa [Does, hwriter] at h

/-- Where the writer succeeds, the step comes to the second state. -/
theorem of_ok {bytes : List UInt8} {tables : WriteTables}
    (hwriter : writer s.tables = .ok bytes tables) (h : s.Does step writer t) :
    step s = .ok () (t.holding tables (s.buffer ++ bytes)) := by
  rwa [Does, hwriter] at h

/-- Where the step succeeds, so does the writer. -/
theorem exists_of_ok (h : s.Does step writer t) (hstep : step s = .ok () u) :
    ∃ bytes tables, writer s.tables = .ok bytes tables ∧
      u = t.holding tables (s.buffer ++ bytes) := by
  cases hwriter : writer s.tables with
  | ok bytes tables =>
    have hsame := hstep.symm.trans (h.of_ok hwriter)
    cases hsame
    exact ⟨bytes, tables, rfl, rfl⟩
  | error e tables =>
    obtain ⟨w, hw, -⟩ := h.of_error hwriter
    exact nomatch hstep.symm.trans hw

/-- Failing is what a writer does that fails. -/
theorem throw (e : Error) : s.Does (MonadExcept.throw e) (MonadExcept.throw e) t :=
  ⟨s, rfl, rfl⟩

/-- Doing nothing is what a writer of nothing does. -/
theorem nothing (s : Serializer) : s.Does (pure ()) (pure []) s := by
  rw [Does]
  exact congrArg (EStateM.Result.ok ()) (by rw [List.append_nil]; rfl)

/-- Appending the bytes of a writer is what the writer does. -/
theorem emit (s : Serializer) (writer : Write (List UInt8)) :
    s.Does (Serialize.emit writer) writer s := by
  unfold Does
  cases hwriter : writer s.tables with
  | ok bytes tables => exact by simp only [Serialize.emit, hwriter, holding]
  | error e tables => exact ⟨{ s with tables := tables }, by simp only [Serialize.emit, hwriter], rfl⟩

/-- Steps in sequence do what writers in sequence do. -/
theorem append (h : s.Does step writer t)
    (hnext : ∀ tables buffer, (t.holding tables buffer).Does next rest u) :
    s.Does (step >>= fun _ => next) (do
      let front ← writer
      let back ← rest
      return front ++ back) u := by
  unfold Does
  cases hwriter : writer s.tables with
  | error e tables =>
    obtain ⟨v, hv, hsame⟩ := h.of_error hwriter
    rw [bind_of_error hwriter]
    exact ⟨v, bind_of_error hv, hsame⟩
  | ok front between =>
    have hstep := h.of_ok hwriter
    rw [bind_of_ok hwriter]
    specialize hnext between (s.buffer ++ front)
    cases hrest : rest between with
    | error e tables =>
      obtain ⟨v, hv, hsame⟩ := hnext.of_error hrest
      rw [bind_of_error hrest]
      exact ⟨v, (bind_of_ok hstep).trans hv, hsame⟩
    | ok back tables =>
      rw [bind_of_ok hrest]
      have hlast := hnext.of_ok hrest
      simp only [holding, List.append_assoc] at hlast
      exact (bind_of_ok hstep).trans hlast

/-- What is done only depends on how the step goes on. -/
theorem congr {v : Serializer} {other : Serialize Unit} (hstep : step s = other v)
    (htables : v.tables = s.tables) (hbuffer : v.buffer = s.buffer) (h : v.Does other writer t) :
    s.Does step writer t := by
  unfold Does at h ⊢
  rw [htables, hbuffer] at h
  rwa [hstep]

/-- A step before that writes nothing changes nothing of what is done. -/
theorem after {v : Serializer} (hstep : step s = .ok () v) (htables : v.tables = s.tables)
    (hbuffer : v.buffer = s.buffer) (h : v.Does next writer t) :
    s.Does (step >>= fun _ => next) writer t :=
  .congr (bind_of_ok hstep) htables hbuffer h

/-- A step afterwards that writes nothing changes nothing of what is done. -/
theorem before (h : s.Does step writer t)
    (hnext : ∀ tables buffer, next (t.holding tables buffer) = .ok () (u.holding tables buffer)) :
    s.Does (step >>= fun _ => next) writer u := by
  unfold Does
  cases hwriter : writer s.tables with
  | error e tables =>
    obtain ⟨v, hv, hsame⟩ := h.of_error hwriter
    exact ⟨v, bind_of_error hv, hsame⟩
  | ok bytes tables => exact (bind_of_ok (h.of_ok hwriter)).trans (hnext _ _)

end Does

section Entering

variable {env : WriteEnv} {place : Place} {m : Layout → Serialize Unit}
  {content : Layout → Write (List UInt8)} {α : Type}

/-- What is done with the state of mind is done with this one. -/
theorem get_bind (f : Serializer → Serialize α) : (get >>= f) s = f s s := rfl

/-- A sequence goes on in the same way behind steps with the same outcome. -/
theorem bind_congr_run {β : Type} {x y : Serialize α} (h : x s = y t) (f : α → Serialize β) :
    (x >>= f) s = (y >>= f) t := by
  simp only [bind, EStateM.bind, h]

/-- The state in which the content of a plain value is written. -/
def inside (s : Serializer) : Serializer :=
  { s with pending := none, plain := some (s.plain.getD 0) }

/-- The state in which the content of a value of a declared type is written. -/
def outside (s : Serializer) : Serializer :=
  { s with pending := none, plain := none }

/-- Inside of a plain value, the writer is inside. -/
theorem inside_of_plain {n : Nat} (hplain : s.plain = some n) (hpending : s.pending = none) :
    s.inside = s := by
  unfold inside
  rw [hplain, ← hpending, Option.getD_some, ← hplain]

/-- Inside of a plain value, nothing stands before the next one. -/
theorem enter_of_plain {n : Nat} (hplain : s.plain = some n) :
    Serialize.enter env s = .ok .plain s := by
  unfold Serialize.enter
  rw [get_bind, hplain]
  rfl

/-- The serializer goes on in the layout of the value, which may be the start of a plain value. -/
theorem does_lay (layout : Layout) (hopen : s.plain = none)
    (hplain : ∀ tables buffer, (s.inside.holding tables buffer).Does (m .plain) (content .plain) t)
    (htyped : ∀ spec type tables buffer, s.plain = none →
      (s.outside.holding tables buffer).Does (m (.typed spec type)) (content (.typed spec type)) t)
    (tables : WriteTables) (buffer : List UInt8) :
    (s.outside.holding tables buffer).Does (Serialize.lay layout >>= m) (content layout) t := by
  cases layout with
  | plain =>
    have hinside : s.inside.holding tables buffer =
        { s.outside.holding tables buffer with plain := some 0 } := by
      rw [inside, hopen]
      rfl
    have hlay : Serialize.lay .plain (s.outside.holding tables buffer) =
        .ok .plain (s.inside.holding tables buffer) := by
      rw [hinside]
      rfl
    exact .congr (bind_of_ok hlay) rfl rfl (hplain tables buffer)
  | typed spec type => exact htyped spec type tables buffer hopen

/-- Where a place waits, its value is entered by its annotations. -/
theorem enter_of_pending (env : WriteEnv) {type : FieldType} {tracked annotated : Bool}
    (hopen : s.plain = none) (hpending : s.pending = some ⟨type, tracked, annotated⟩) :
    Serialize.enter env s = (do
      let spec ← MonadExcept.ofExcept (env.registry.resolve type)
      if annotated then Serialize.emit (Write.annotations env type tracked spec)
      Serialize.lay (.of spec type)) s.outside := by
  have htake : Serialize.takeSlot s = .ok ⟨type, tracked, annotated⟩ s.outside := by
    rw [Serialize.takeSlot, hpending, outside, ← hopen]
  unfold Serialize.enter
  rw [get_bind, hopen]
  exact bind_of_ok htake

/-- Behind the annotations of a place, the serializer goes on in the layout of the value. -/
theorem Ready.does_behind (hready : s.Ready place)
    (hplain : ∀ tables buffer, (s.inside.holding tables buffer).Does (m .plain) (content .plain) t)
    (htyped : ∀ spec type tables buffer, s.plain = none →
      (s.outside.holding tables buffer).Does (m (.typed spec type)) (content (.typed spec type)) t) :
    s.Does (Serialize.enter env >>= m) (Write.behind env place content) t := by
  cases hready with
  | @plain n hwhole hpending =>
    have hsame : s.inside.holding s.tables s.buffer = s := inside_of_plain hwhole hpending
    rw [Write.behind_plain]
    exact .congr (bind_of_ok (enter_of_plain hwhole)) rfl rfl (hsame ▸ hplain s.tables s.buffer)
  | @declared type tracked annotated hopen hpending =>
    have henter := enter_of_pending env hopen hpending
    refine .congr (bind_congr_run henter m) rfl rfl ?_
    cases hresolve : env.registry.resolve type with
    | error e =>
      have hwriter : Write.behind env (.declared type tracked annotated) content = throw e := by
        have hcheck {β : Type} (next : TypeSpec → Write β) :
            MonadExcept.ofExcept (env.registry.resolve type) >>= next = throw e := by
          rw [hresolve]
          rfl
        rw [Write.behind, Write.enter, hcheck]
        rfl
      rw [hwriter]
      exact Does.throw e
    | ok spec =>
      have hlay := does_lay (.of spec type) hopen hplain htyped
      cases annotated with
      | false =>
        rw [Write.behind_declared hresolve]
        exact hlay s.tables s.buffer
      | true =>
        rw [Write.behind_annotated hresolve, Write.behind_declared hresolve]
        have hhead := Does.emit s.outside (Write.annotations env type tracked spec)
        have hassoc := bind_assoc (Serialize.emit (Write.annotations env type tracked spec))
          (fun _ => Serialize.lay (.of spec type)) m
        exact .congr (congrFun hassoc s.outside) rfl rfl (hhead.append hlay)

end Entering

section Closing

variable (s) (tables : WriteTables) (buffer : List UInt8)

/-- The state inside of a compound of a plain value. -/
def opened (s : Serializer) : Serializer :=
  { s with pending := none, plain := some (s.plain.getD 0 + 1) }

/-- The state inside of a compound of a declared type. -/
def framed (s : Serializer) (compound : Compound) : Serializer :=
  { s with frames := compound :: s.frames, pending := none, plain := none }

/-- Outside of plain values, a value is filled in where its content was written. -/
theorem outside_eq_filled (h : s.plain = none) : s.outside = s.filled := by
  rw [outside, filled, h]
  rfl

/-- A scalar fills its place. -/
theorem endScalar_inside :
    Serialize.endScalar (s.inside.holding tables buffer) = .ok () (s.filled.holding tables buffer) := by
  unfold inside filled
  rcases s.plain with _ | _ | n <;> rfl

/-- A compound of a plain value is opened. -/
theorem openCompound_inside :
    Serialize.openCompound (s.inside.holding tables buffer) =
      .ok () (s.opened.holding tables buffer) :=
  rfl

/-- A compound of a plain value fills its place when it is closed. -/
theorem close_opened :
    Serialize.close (s.opened.holding tables buffer) = .ok () (s.filled.holding tables buffer) := by
  unfold opened filled
  rcases s.plain with _ | _ | n <;> rfl

/-- A sequence or a map fills its place when it is closed. -/
theorem close_framed {compound : Compound} (hplain : s.plain = none)
    (hframe : ∀ declared next, compound ≠ .struct declared next) :
    Serialize.close ((s.framed compound).holding tables buffer) =
      .ok () (s.filled.holding tables buffer) := by
  rw [← s.outside_eq_filled hplain]
  cases compound with
  | struct declared next => exact absurd rfl (hframe declared next)
  | _ => rfl

end Closing

section Parts

variable {place : Place} {k : Serialize Unit}

/-- The next part of a compound gets the place. When it is filled, the second state is reached. -/
def Gives (s : Serializer) (next : Serialize Unit) (place : Place) (u : Serializer) : Prop :=
  ∃ v : Serializer, v.Ready place ∧ v.filled = u ∧
    ∀ tables buffer, next (s.holding tables buffer) = .ok () (v.holding tables buffer)

/-- What was written before does not matter for where a value is written. -/
theorem Ready.holding (h : s.Ready place) (tables : WriteTables) (buffer : List UInt8) :
    (s.holding tables buffer).Ready place := by
  cases h with
  | plain hplain hpending => exact .plain hplain hpending
  | declared hplain hpending => exact .declared hplain hpending

/-- What was written before does not matter for which place a part gets. -/
theorem Gives.holding (h : s.Gives next place u) (tables : WriteTables) (buffer : List UInt8) :
    (s.holding tables buffer).Gives next place (u.holding tables buffer) := by
  obtain ⟨v, hready, rfl, hnext⟩ := h
  exact ⟨v.holding tables buffer, hready.holding tables buffer, rfl, hnext⟩

/-- A part that gets its place and is written into it is written in front of the rest. -/
theorem Gives.does (h : s.Gives next place u) (write : Nat → Write (List UInt8))
    (hpart : ∀ v : Serializer, v.Ready place → v.Does step (write v.depth) v.filled)
    (hrest : ∀ tables buffer, (u.holding tables buffer).Does k rest t) :
    s.Does (do
      next
      step
      Serialize.ensureWritten
      k) (do
      let front ← write u.depth
      let back ← rest
      return front ++ back) t := by
  obtain ⟨v, hready, rfl, hnext⟩ := h
  refine .after (hnext s.tables s.buffer) rfl rfl ?_
  refine (hpart _ (hready.holding s.tables s.buffer)).append fun tables buffer => ?_
  exact .after rfl rfl rfl (hrest tables buffer)

/-- Inside of a compound of a plain value, parts are plain and get no places. -/
theorem gives_opened (give : Serializer → Serialize Unit) :
    s.opened.Gives (do
      let s ← get
      if s.plain.isNone then give s) .plain s.opened :=
  ⟨s.opened, .plain rfl rfl, rfl, fun _ _ => rfl⟩

/-- Elements get the place that their sequence declares for them. -/
theorem gives_element (s : Serializer) (element : FieldType) :
    (s.framed (.sequence element)).Gives Serialize.nextElement (.declared element false true)
      (s.framed (.sequence element)) :=
  ⟨{ s.framed (.sequence element) with pending := some ⟨element, false, true⟩ },
    .declared rfl rfl, rfl, fun _ _ => rfl⟩

/-- Keys get the place that their map declares for them. -/
theorem gives_key (s : Serializer) (key value : FieldType) :
    (s.framed (.map key value)).Gives Serialize.nextKey (.declared key false true)
      (s.framed (.map key value)) :=
  ⟨{ s.framed (.map key value) with pending := some ⟨key, false, true⟩ },
    .declared rfl rfl, rfl, fun _ _ => rfl⟩

/-- Values get the place that their map declares for them. -/
theorem gives_value (s : Serializer) (key value : FieldType) :
    (s.framed (.map key value)).Gives Serialize.nextValue (.declared value false true)
      (s.framed (.map key value)) :=
  ⟨{ s.framed (.map key value) with pending := some ⟨value, false, true⟩ },
    .declared rfl rfl, rfl, fun _ _ => rfl⟩

/-- The field that is declared next gets its place. -/
theorem gives_field (s : Serializer) {declared : List FieldDescriptor} {count : Nat}
    {field : FieldDescriptor} (h : declared[count]? = some field) :
    (s.framed (.struct declared count)).Gives (Serialize.nextField field.name)
      (.declared field.type field.tracked true) (s.framed (.struct declared (count + 1))) := by
  refine ⟨{ s.framed (.struct declared (count + 1)) with
    pending := some ⟨field.type, field.tracked, true⟩ }, .declared rfl rfl, rfl, ?_⟩
  intro tables buffer
  simp only [Serialize.nextField, get_bind, framed, Serializer.holding, Option.isNone_none, if_true, h,
    ne_eq, not_true_eq_false, if_false]
  rfl

/-- Behind the last declared field there is no place for another one. -/
theorem nextField_of_none (s : Serializer) {declared : List FieldDescriptor} {count : Nat}
    (h : declared[count]? = none) (name : String) (tables : WriteTables) (buffer : List UInt8) :
    Serialize.nextField name ((s.framed (.struct declared count)).holding tables buffer) =
      .error (.fieldMismatch "<end of struct>" name)
        ((s.framed (.struct declared count)).holding tables buffer) := by
  simp only [Serialize.nextField, get_bind, framed, Serializer.holding, Option.isNone_none, if_true, h]
  rfl

/-- There is no place for a field that is not the one declared next. -/
theorem nextField_of_ne (s : Serializer) {declared : List FieldDescriptor} {count : Nat}
    {field : FieldDescriptor} (h : declared[count]? = some field) {name : String}
    (hname : field.name ≠ name) (tables : WriteTables) (buffer : List UInt8) :
    Serialize.nextField name ((s.framed (.struct declared count)).holding tables buffer) =
      .error (.fieldMismatch field.name name)
        ((s.framed (.struct declared count)).holding tables buffer) := by
  simp only [Serialize.nextField, get_bind, framed, Serializer.holding, Option.isNone_none, if_true, h,
    if_pos hname]
  rfl

end Parts

section Values

variable {env : WriteEnv} {place : Place} {m : Serialize Unit} {tables : WriteTables}
  {buffer : List UInt8}

/-- Inside of a plain value, the first way is taken. -/
theorem Does.if_plain {n : Nat} (hplain : s.plain = some n) (h : s.Does step writer t) :
    s.Does (do if (← get).plain.isSome then step else next) writer t :=
  .congr (by rw [get_bind, hplain]; rfl) rfl rfl h

/-- Outside of plain values, the second way is taken. -/
theorem Does.if_open (hopen : s.plain = none) (h : s.Does next writer t) :
    s.Does (do if (← get).plain.isSome then step else next) writer t :=
  .congr (by rw [get_bind, hopen]; rfl) rfl rfl h

/-- The next value is written inside of a plain value. -/
theorem ready_inside (s : Serializer) : s.inside.Ready .plain := .plain rfl rfl

/-- A value is filled in as its content is. -/
theorem filled_inside (s : Serializer) : s.inside.filled = s.filled := by
  unfold inside filled
  rcases s.plain with _ | _ | n <;> rfl

/-- Inside of a plain value, a scalar fills its place. -/
theorem does_endScalar {n : Nat} (hplain : s.plain = some n) (hpending : s.pending = none)
    (writer : Write (List UInt8)) :
    s.Does (do
      Serialize.emit writer
      Serialize.endScalar) writer s.filled := by
  have h := (Does.emit s.inside writer).before fun _ _ => endScalar_inside s _ _
  rwa [inside_of_plain hplain hpending] at h

/-- Where a place waits, a missing value is written if it may be. -/
theorem does_null {type : FieldType} {tracked annotated : Bool} (hopen : s.plain = none)
    (hpending : s.pending = some ⟨type, tracked, annotated⟩) :
    s.Does (do
      let slot ← Serialize.takeSlot
      if !slot.type.nullable then throw (.nullValue slot.type.label)
      if slot.annotated then Serialize.emit (pure [RefFlag.null.toByte]))
      (if !type.nullable then throw (.nullValue type.label)
      else return if annotated then [RefFlag.null.toByte] else []) s.filled := by
  have htake : Serialize.takeSlot s = .ok ⟨type, tracked, annotated⟩ s.filled := by
    rw [Serialize.takeSlot, hpending, ← s.outside_eq_filled hopen, outside, ← hopen]
  refine .congr (bind_of_ok htake) rfl rfl ?_
  dsimp only
  cases type.nullable with
  | false => exact .throw _
  | true =>
    cases annotated with
    | false => exact .nothing _
    | true => exact Does.emit s.filled (pure [RefFlag.null.toByte])

/-- A scalar is written in one step. -/
theorem Ready.does_scalar (hready : s.Ready place) (kind : Kind) (plain typed : Write (List UInt8)) :
    s.Does (Serialize.scalar env kind plain typed) (Write.scalar env place kind plain typed)
      s.filled := by
  refine hready.does_behind (fun tables buffer => ?_) fun spec type tables buffer hopen => ?_
  · exact (Does.emit _ plain).before fun _ _ => endScalar_inside s _ _
  · dsimp only
    split
    · rw [s.outside_eq_filled hopen]
      exact Does.emit _ typed
    · exact .throw _

/-- A text is written in one step. -/
theorem Ready.does_text (hready : s.Ready place) (content : String) :
    s.Does (Serialize.text env content) (Write.text env place content) s.filled :=
  hready.does_scalar _ _ _

/-- A variant with a payload is announced, and then its payload is written. -/
theorem Ready.does_variant (hready : s.Ready place) (enum : String) (index : Nat) (name : String)
    (hpayload : ∀ tables buffer, (s.inside.holding tables buffer).Does m writer s.filled) :
    s.Does (do
      Serialize.variant env enum index name
      m) (Write.variant env place enum index name writer) s.filled := by
  rw [Serialize.variant, bind_assoc]
  refine hready.does_behind (fun tables buffer => ?_) fun spec type tables buffer hopen => ?_
  · exact (Does.emit _ (pure (Varint.encode32 index))).append hpayload
  · exact .throw _

/-- A compound of a plain value is opened, written and closed. -/
theorem does_opened (h : ∀ tables buffer, (s.opened.holding tables buffer).Does m writer s.opened) :
    (s.inside.holding tables buffer).Does (do
      Serialize.openCompound
      m
      Serialize.close) writer s.filled :=
  .after (openCompound_inside s tables buffer) rfl rfl
    ((h tables buffer).before fun _ _ => close_opened s _ _)

/-- A compound of a plain value is opened behind the number of its parts, written and closed. -/
theorem does_counted (sized : Bool) (count : Nat)
    (h : ∀ tables buffer, (s.opened.holding tables buffer).Does m writer s.opened) :
    (s.inside.holding tables buffer).Does (do
      Serialize.emit (Write.size sized count)
      Serialize.openCompound
      m
      Serialize.close) (do
      let front ← Write.size sized count
      let back ← writer
      return front ++ back) s.filled :=
  (Does.emit _ (Write.size sized count)).append fun _ _ => does_opened h

/-- A sequence or a map is opened behind the number of its parts, written and closed. -/
theorem does_framed (compound : Compound) (sized : Bool) (count : Nat) (hopen : s.plain = none)
    (hframe : ∀ declared next, compound ≠ .struct declared next)
    (h : ∀ tables buffer, ((s.framed compound).holding tables buffer).Does m writer
      (s.framed compound)) :
    (s.outside.holding tables buffer).Does (do
      Serialize.emit (Write.size sized count)
      modify fun s => { s with frames := compound :: s.frames }
      m
      Serialize.close) (do
      let front ← Write.size sized count
      let back ← writer
      return front ++ back) s.filled :=
  (Does.emit _ (Write.size sized count)).append fun tables buffer =>
    .after (v := (s.framed compound).holding tables buffer) rfl rfl rfl
      ((h tables buffer).before fun _ _ => close_framed s _ _ hopen hframe)

/-- A struct of a declared type is opened, unless too many are. -/
theorem openStruct_outside (env : WriteEnv) (s : Serializer) (declared : List FieldDescriptor)
    (tables : WriteTables) (buffer : List UInt8) :
    Serialize.openStruct env declared (s.outside.holding tables buffer) =
      if env.config.maxDepth < s.depth + 1 then
        .error (.depthExceeded env.config.maxDepth)
          { s.outside.holding tables buffer with depth := s.depth + 1 }
      else
        .ok () (({ s with depth := s.depth + 1 }.framed (.struct declared 0)).holding tables buffer) := by
  show (if env.config.maxDepth < s.depth + 1 then _ else _ : Serialize Unit) _ = _
  split <;> rfl

/-- A struct of a declared type is opened, unless too many are, and its fields are written. -/
theorem does_openStruct (declared : List FieldDescriptor) (hopen : s.plain = none)
    (h : ∀ tables buffer, (({ s with depth := s.depth + 1 }.framed (.struct declared 0)).holding
      tables buffer).Does m writer s.outside) :
    (s.outside.holding tables buffer).Does (do
      Serialize.openStruct env declared
      m)
      (if env.config.maxDepth < s.depth + 1 then throw (.depthExceeded env.config.maxDepth)
      else writer) s.filled := by
  have hstep := openStruct_outside env s declared tables buffer
  rw [← s.outside_eq_filled hopen]
  by_cases hdeep : env.config.maxDepth < s.depth + 1
  · rw [if_pos hdeep] at hstep ⊢
    exact ⟨_, bind_of_error hstep, rfl⟩
  · rw [if_neg hdeep] at hstep ⊢
    exact .after hstep rfl rfl (h tables buffer)

end Values

section Events

variable {env : WriteEnv}

/-- A field that is not left out gets its place, is written, and is followed by the others. -/
theorem fields_cons {value : Datum} (h : value ≠ .absent) (name : String)
    (rest : List (String × Datum)) :
    Serialize.fields env ((name, value) :: rest) = (do
      Serialize.nextField name
      Serialize.datum env value
      Serialize.ensureWritten
      Serialize.fields env rest) := by
  rw [Serialize.fields]
  exact h

mutual

/-- Told of a value event by event, the serializer writes it into the place that waits for it. -/
theorem does_datum : (v : Datum) → {s : Serializer} → {place : Place} → s.Ready place →
    s.Does (Serialize.datum env v) (Write.datum env s.depth place v) s.filled
  | .bool _, _, _, h | .int _ _, _, _, h | .float32 _, _, _, h | .float64 _, _, _, h
  | .bytes _, _, _, h => by
    rw [Serialize.datum, Write.datum]
    exact h.does_scalar _ _ _
  | .text content, _, _, h => by
    rw [Serialize.datum, Write.datum]
    exact h.does_text content
  | .char c, s, _, h => by
    rw [Serialize.datum]
    cases h with
    | plain hplain hpending =>
      rw [Write.datum]
      exact .if_plain hplain (does_endScalar hplain hpending _)
    | declared hopen hpending =>
      rw [Write.datum]
      · exact .if_open hopen ((Ready.declared hopen hpending).does_text _)
      · exact nofun
  | .unit, s, _, h => by
    rw [Serialize.datum, Write.datum]
    refine h.does_behind (fun tables buffer => ?_) fun spec type tables buffer hopen => ?_
    · exact (Does.nothing _).before fun _ _ => endScalar_inside s _ _
    · exact .throw _
  | .none, s, _, h => by
    rw [Serialize.datum]
    cases h with
    | plain hplain hpending =>
      rw [Write.datum]
      exact .if_plain hplain (does_endScalar hplain hpending _)
    | declared hopen hpending =>
      rw [Write.datum]
      exact .if_open hopen (does_null hopen hpending)
  | .some content, s, _, h => by
    rw [Serialize.datum]
    cases h with
    | plain hplain hpending =>
      have hready : s.Ready .plain := .plain hplain hpending
      have hwriter : Write.datum env s.depth .plain (.some content) = (do
          let front ← pure [255]
          let back ← Write.datum env s.depth .plain content
          return front ++ back) := by
        rw [Write.datum]
        rfl
      have hcontent (tables : WriteTables) (buffer : List UInt8) :=
        does_datum content (hready.holding tables buffer)
      rw [hwriter]
      exact .if_plain hplain ((Does.emit s (pure [255])).append hcontent)
    | declared hopen hpending =>
      rw [Write.datum]
      · exact .if_open hopen (does_datum content (.declared hopen hpending))
      · exact nofun
  | .newtype content, _, _, h => by
    rw [Serialize.datum, Write.datum]
    exact does_datum content h
  | .seq sized content, s, _, h => by
    rw [Serialize.datum, Write.datum, Serialize.startSequence, bind_assoc]
    refine h.does_behind (fun tables buffer => ?_) fun spec type tables buffer hopen => ?_
    · dsimp only
      rw [bind_assoc]
      exact does_counted sized content.length
        (does_elements content (gives_opened _))
    · dsimp only
      cases spec.element? type with
      | some element =>
        dsimp only
        rw [bind_assoc]
        exact does_framed (.sequence element) sized content.length hopen nofun
          (does_elements content (gives_element s element))
      | none => exact .throw _
  | .tuple content, s, _, h => by
    rw [Serialize.datum, Write.datum, Serialize.startTuple, bind_assoc]
    refine h.does_behind (fun tables buffer => ?_) fun spec type tables buffer hopen => ?_
    · exact does_opened (does_items content s)
    · exact .throw _
  | .map sized content, s, _, h => by
    rw [Serialize.datum, Write.datum, Serialize.startMap, bind_assoc]
    refine h.does_behind (fun tables buffer => ?_) fun spec type tables buffer hopen => ?_
    · dsimp only
      rw [bind_assoc]
      exact does_counted sized content.length
        (does_entries content (gives_opened _) (gives_opened _))
    · dsimp only
      cases spec.arguments? type with
      | some types =>
        obtain ⟨key, value⟩ := types
        dsimp only
        rw [bind_assoc]
        exact does_framed (.map key value) sized content.length hopen nofun
          (does_entries content (gives_key s key value) (gives_value s key value))
      | none => exact .throw _
  | .struct name content, s, _, h => by
    rw [Serialize.datum, Write.datum, Serialize.startStruct, bind_assoc]
    refine h.does_behind (fun tables buffer => ?_) fun spec type tables buffer hopen => ?_
    · exact does_opened (does_fields_opened content s)
    · dsimp only
      cases spec.role with
      | struct registration declared =>
        exact does_openStruct declared hopen
          (does_fields content { s with depth := s.depth + 1 } declared 0)
      | _ => exact .throw _
  | .unitVariant enum index name, s, _, h => by
    rw [Serialize.datum, Write.datum]
    refine h.does_behind (fun tables buffer => ?_) fun spec type tables buffer hopen => ?_
    · exact (Does.emit _ _).before fun _ _ => endScalar_inside s _ _
    · rw [s.outside_eq_filled hopen]
      dsimp only
      cases spec.role with
      | enum registration => exact Does.emit _ (pure (Varint.encode32 index))
      | _ => exact .throw _
  | .newtypeVariant enum index name content, s, _, h => by
    rw [Serialize.datum, Write.datum]
    refine h.does_variant enum index name fun tables buffer => ?_
    have hcontent := does_datum content ((ready_inside s).holding tables buffer)
    rw [← s.filled_inside]
    exact hcontent
  | .tupleVariant enum index name content, s, _, h => by
    rw [Serialize.datum, Write.datum]
    exact h.does_variant enum index name fun _ _ => does_opened (does_items content s)
  | .structVariant enum index name content, s, _, h => by
    rw [Serialize.datum, Write.datum]
    exact h.does_variant enum index name fun _ _ => does_opened (does_members content s)
  | .firstEntry _ _, _, _, _ | .choice _, _, _, _ | .absent, _, _, _ | .refused _, _, _, _ => by
    rw [Serialize.datum, Write.datum]
    exact .throw _

/-- Elements are written one after the other. -/
theorem does_elements : (content : List Datum) → {s : Serializer} → {place : Place} →
    s.Gives Serialize.nextElement place s → ∀ tables buffer, (s.holding tables buffer).Does
      (Serialize.elements env content) (Write.items env s.depth place content) s
  | [], s, _, _ => by
    intro tables buffer
    rw [Serialize.elements, Write.items]
    exact .nothing _
  | first :: rest, s, place, h => by
    intro tables buffer
    rw [Serialize.elements, Write.items]
    exact (h.holding tables buffer).does (Write.datum env · place first)
      (fun _ hready => does_datum first hready) (does_elements rest h)

/-- Values by position are written one after the other. -/
theorem does_items : (content : List Datum) → (s : Serializer) → ∀ tables buffer,
    (s.opened.holding tables buffer).Does (Serialize.items env content)
      (Write.items env s.depth .plain content) s.opened
  | [], s => by
    intro tables buffer
    rw [Serialize.items, Write.items]
    exact .nothing _
  | first :: rest, s => by
    intro tables buffer
    rw [Serialize.items, Write.items]
    have hready : (s.opened.holding tables buffer).Ready .plain := .plain rfl rfl
    exact (does_datum first hready).append (does_items rest s)

/-- Entries are written one after the other. -/
theorem does_entries : (content : List (Datum × Datum)) → {s : Serializer} →
    {keyPlace valuePlace : Place} → s.Gives Serialize.nextKey keyPlace s →
    s.Gives Serialize.nextValue valuePlace s → ∀ tables buffer, (s.holding tables buffer).Does
      (Serialize.entries env content) (Write.entries env s.depth keyPlace valuePlace content) s
  | [], s, _, _, _, _ => by
    intro tables buffer
    rw [Serialize.entries, Write.entries]
    exact .nothing _
  | (key, value) :: rest, s, keyPlace, valuePlace, hkey, hvalue => by
    intro tables buffer
    have hwriter : Write.entries env s.depth keyPlace valuePlace ((key, value) :: rest) = (do
        let front ← Write.datum env s.depth keyPlace key
        let back ← (do
          let front ← Write.datum env s.depth valuePlace value
          let back ← Write.entries env s.depth keyPlace valuePlace rest
          return front ++ back)
        return front ++ back) := by
      rw [Write.entries]
      simp only [bind_assoc, pure_bind, List.append_assoc]
    rw [Serialize.entries, hwriter]
    refine (hkey.holding tables buffer).does (Write.datum env · keyPlace key)
      (fun _ hready => does_datum key hready) fun tables buffer => ?_
    exact (hvalue.holding tables buffer).does (Write.datum env · valuePlace value)
      (fun _ hready => does_datum value hready) (does_entries rest hkey hvalue)

/-- The fields of a plain struct are written one after the other. -/
theorem does_fields_opened : (content : List (String × Datum)) → (s : Serializer) →
    ∀ tables buffer, (s.opened.holding tables buffer).Does (Serialize.fields env content)
      (Write.members env s.depth false content) s.opened
  | [], s => by
    intro tables buffer
    rw [Serialize.fields, Write.members]
    exact .nothing _
  | (name, value) :: rest, s => by
    intro tables buffer
    by_cases habsent : value = .absent
    · rw [habsent, Serialize.fields, Write.members]
      exact .throw _
    · have hplain : s.opened.Gives (Serialize.nextField name) .plain s.opened := gives_opened _
      have hgives := hplain.holding tables buffer
      rw [Serialize.fields, Write.members]
      · exact hgives.does (Write.datum env · .plain value) (fun _ hready => does_datum value hready)
          (does_fields_opened rest s)
      · exact habsent
      · exact habsent

/-- The fields of a struct of a declared type are written one after the other, and then the struct
is closed. -/
theorem does_fields : (content : List (String × Datum)) → (s : Serializer) →
    (declared : List FieldDescriptor) → (count : Nat) → ∀ tables buffer,
    ((s.framed (.struct declared count)).holding tables buffer).Does (do
      Serialize.fields env content
      Serialize.close) (Write.fields env s.depth (declared.drop count) content)
      { s.outside with depth := s.depth - 1 }
  | [], s, declared, count => by
    intro tables buffer
    have hclose : Serialize.close ((s.framed (.struct declared count)).holding tables buffer) =
        (match declared[count]? with
        | none => return ()
        | some field => throw (.fieldMismatch field.name "<end of struct>") : Serialize Unit)
          ({ s.outside with depth := s.depth - 1 }.holding tables buffer) :=
      rfl
    rw [Serialize.fields, pure_bind]
    refine .congr hclose rfl rfl ?_
    cases hfield : declared[count]? with
    | none =>
      rw [List.drop_of_length_le (List.getElem?_eq_none_iff.mp hfield), Write.fields]
      exact .nothing _
    | some field =>
      obtain ⟨hlt, rfl⟩ := List.getElem?_eq_some_iff.mp hfield
      rw [List.drop_eq_getElem_cons hlt, Write.fields]
      exact .throw _
  | (name, value) :: rest, s, declared, count => by
    intro tables buffer
    by_cases habsent : value = .absent
    · rw [habsent, Serialize.fields, Write.fields]
      exact .throw _
    rw [fields_cons habsent]
    simp only [bind_assoc]
    cases hfield : declared[count]? with
    | none =>
      have hnext := nextField_of_none s hfield name tables buffer
      rw [List.drop_of_length_le (List.getElem?_eq_none_iff.mp hfield),
        Write.fields_nil_cons habsent]
      exact ⟨_, bind_of_error hnext, rfl⟩
    | some field =>
      obtain ⟨hlt, hget⟩ := List.getElem?_eq_some_iff.mp hfield
      rw [List.drop_eq_getElem_cons hlt, hget, Write.fields_cons habsent]
      by_cases hname : field.name = name
      · subst hname
        have hgives := (gives_field s hfield).holding tables buffer
        rw [if_neg (not_not_intro rfl)]
        exact hgives.does (Write.datum env · (.declared field.type field.tracked true) value)
          (fun _ hready => does_datum value hready) (does_fields rest s declared (count + 1))
      · have hnext := nextField_of_ne s hfield hname tables buffer
        rw [if_pos hname]
        exact ⟨_, bind_of_error hnext, rfl⟩

/-- The parts of a variant are written one after the other. -/
theorem does_members : (content : List (String × Datum)) → (s : Serializer) →
    ∀ tables buffer, (s.opened.holding tables buffer).Does (Serialize.members env content)
      (Write.members env s.depth true content) s.opened
  | [], s => by
    intro tables buffer
    rw [Serialize.members, Write.members]
    exact .nothing _
  | (name, value) :: rest, s => by
    intro tables buffer
    by_cases habsent : value = .absent
    · rw [habsent, Serialize.members, Write.members]
      exact does_members rest s tables buffer
    · have hready : (s.opened.holding tables buffer).Ready .plain := .plain rfl rfl
      rw [Serialize.members, Write.members]
      · exact (does_datum value hready).append (does_members rest s)
      · exact habsent
      · exact habsent

end

/-- A serializer that is started for a type, told of a value and finished has written the value of
the type, and nothing is left open. It fails as the writer of the value fails. -/
theorem does_whole (v : Datum) (type : FieldType) (tables : WriteTables) (buffer : List UInt8) :
    (start tables buffer type).Does (do
      Serialize.datum env v
      Serialize.finish) (Write.datum env 0 (.declared type false false) v)
      (start tables buffer type).filled :=
  (does_datum v (.declared rfl rfl)).before fun _ _ => rfl

end Events

end Serializer

end SchemaWire
