import SchemaWire.Proofs.Message.Encode

/-!
# Streams of messages

Messages of engines whose schemas travel can be written one after the other. Whatever their
readers look for, and whether they find it or fail, each of them stops at the first byte of
the next message, and finds what it would have found in its message alone.
-/

namespace SchemaWire

open Take (Reads)

/-- A reader that is exact on some bytes of a stream leaves the context as it is. -/
theorem Engine.fromSource_of_reads {α : Type} {reader : Take α} {front : List UInt8} {value : α}
    (h : Reads reader front value) (later : List UInt8) (context : ReadContext) :
    fromSource reader ⟨front ++ later, context⟩ = .ok value ⟨later, context⟩ := by
  rw [fromSource, h later]

/-- A reader of messages: the engine, and what it expects. -/
structure Call where
  /-- The engine. -/
  engine : Engine
  /-- What is expected. -/
  target : Target

/-- What became of a reading, and where it left the stream. -/
structure Outcome where
  /-- The value or the error. -/
  result : Except Error Datum
  /-- The stream and the context behind it. -/
  reading : Reading

namespace Call

/-- Read one message. -/
def run (call : Call) (reading : Reading) : Outcome :=
  match call.engine.decode call.target reading with
  | .ok value after => ⟨.ok value, after⟩
  | .error e after => ⟨.error e, after⟩

/-- Read messages of one stream, each from where the reading before it stopped. -/
def runAll : List Call → Reading → List Outcome
  | [], _ => []
  | call :: rest, reading =>
    let outcome := call.run reading
    outcome :: runAll rest outcome.reading

/-- The reader takes the message and nothing behind it, and what becomes of it depends on
the message alone. -/
def Confined (call : Call) (message : Message) : Prop :=
  ∃ result kept, ∀ later context,
    call.run ⟨message.toList ++ later, context⟩ = ⟨result, ⟨later, kept⟩⟩

/-- A confined reader finds what it would have found in the message alone. -/
theorem Confined.run_eq {call : Call} {message : Message} (h : call.Confined message)
    (later : List UInt8) (context : ReadContext) :
    let alone := call.run ⟨message.toList, .empty⟩
    call.run ⟨message.toList ++ later, context⟩
      = ⟨alone.result, ⟨later, alone.reading.context⟩⟩ := by
  obtain ⟨result, kept, h⟩ := h
  have halone := h [] .empty
  rw [List.append_nil] at halone
  simp only [h, halone]

end Call

/-- A message that some engine wrote, with schemas that travel and with the given
cross-language setting. -/
def Message.IsFramed (xlang : Bool) (message : Message) : Prop :=
  ∃ (engine : Engine) (declared : FieldType) (value : Datum) (before after : WriteTables),
    engine.config.compatible = true ∧ engine.config.xlang = xlang ∧
      engine.registry.Addressable ∧ engine.encode declared value before = .ok message after

namespace Call

/-- A null message is read by its header. -/
theorem confined_of_null {call : Call} {header : Header} {message : Message}
    (h : Reads (Header.takeStreamed call.engine.config) message.toList header)
    (hnull : header.isNull = true) : call.Confined message := by
  have hdecode (later : List UInt8) (context : ReadContext) :
      call.engine.decode call.target ⟨message.toList ++ later, context⟩ =
        (MonadExcept.ofExcept (call.engine.nullValue call.target) :
          EStateM Error Reading Datum) ⟨later, .empty⟩ := by
    have hheader := Engine.fromSource_of_reads h later .empty
    refine (bind_of_ok hheader).trans ?_
    rw [if_pos hnull]
  cases hvalue : call.engine.nullValue call.target with
  | ok value =>
    refine ⟨.ok value, .empty, fun later context => ?_⟩
    rw [run, hdecode, hvalue]
    rfl
  | error e =>
    refine ⟨.error e, .empty, fun later context => ?_⟩
    rw [run, hdecode, hvalue]
    rfl

/-- A message with a frame is read by its header and its frame. -/
theorem confined_of_frame {call : Call} {header : Header} {frame : Frame} {message : Message}
    {bytes framed : List UInt8}
    (h : Reads (Header.takeStreamed call.engine.config) bytes header)
    (hnull : header.isNull = false) (hframe : Reads (Frame.take call.engine.config) framed frame)
    (hmessage : message.toList = bytes ++ framed) : call.Confined message := by
  have hdecode (later : List UInt8) (context : ReadContext) :
      call.engine.decode call.target ⟨message.toList ++ later, context⟩ =
        call.engine.decodeFrame (call.engine.budget call.target frame) call.target frame
          ⟨later, .empty⟩ := by
    have hheader := Engine.fromSource_of_reads h (framed ++ later) .empty
    have htake := Engine.fromSource_of_reads hframe later .empty
    rw [hmessage, List.append_assoc]
    refine (bind_of_ok hheader).trans ?_
    rw [hnull, if_neg Bool.false_ne_true]
    exact bind_of_ok htake
  cases hbody : call.engine.decodeBody (call.engine.budget call.target frame) call.target
      frame.schemas ⟨frame.body, [], []⟩ with
  | ok value state =>
    refine ⟨.ok value, ⟨frame.schemas, state.names, state.refs⟩, fun later context => ?_⟩
    rw [run, hdecode, Engine.decodeFrame, hbody]
  | error e state =>
    refine ⟨.error e, ⟨frame.schemas, state.names, state.refs⟩, fun later context => ?_⟩
    rw [run, hdecode, Engine.decodeFrame, hbody]

/-- Every reader with the writer's cross-language setting is confined to a framed message. -/
theorem confined_of_isFramed {call : Call} {message : Message}
    (hcompatible : call.engine.config.compatible = true)
    (h : message.IsFramed call.engine.config.xlang) : call.Confined message := by
  obtain ⟨writer, declared, value, before, after, hframes, hxlang, haddressable, hencode⟩ := h
  have hheader := Header.reads_takeStreamed hxlang
  rcases Engine.toList_of_encode hencode with ⟨hnull, hmessage⟩ | ⟨hnull, body, hbody, hmessage⟩
  · exact confined_of_null (hmessage ▸ hheader _) hnull
  · rw [if_pos hframes] at hmessage
    obtain ⟨hlength, hmessage⟩ := hmessage
    have hsound := Engine.sound_of_encodeBody hbody
    obtain ⟨schemas, hannounces⟩ := hsound.exists_announces
    have hholds := hannounces.holds haddressable
    have hcount : after.queue.length < 2 ^ 32 := by
      have hqueue := hsound.length_queue_le
      have htypes := haddressable.count
      omega
    have hframe := Frame.reads_take hcompatible hlength hholds hcount
    exact confined_of_frame (hheader _) hnull hframe hmessage

/-- Readers of one stream of framed messages do not meet: each of them is left with the
messages behind its own, and finds what it would have found in its message alone. -/
theorem runAll_eq {xlang : Bool} (tail : List UInt8) (calls : List Call) :
    ∀ (messages : List Message) (context : ReadContext),
    (∀ message ∈ messages, message.IsFramed xlang) →
    (∀ call ∈ calls, call.engine.config.compatible = true ∧ call.engine.config.xlang = xlang) →
    ∀ (i : Nat) (call : Call) (message : Message), calls[i]? = some call →
      messages[i]? = some message →
      let alone := call.run ⟨message.toList, .empty⟩
      (runAll calls ⟨messages.flatMap Message.toList ++ tail, context⟩)[i]? =
        some ⟨alone.result,
          ⟨(messages.drop (i + 1)).flatMap Message.toList ++ tail, alone.reading.context⟩⟩ := by
  induction calls with
  | nil =>
    intro messages context _ _ i call message hcall
    cases hcall
  | cons first rest ih =>
    intro messages context hmessages hcalls i call message hcall hmessage
    cases messages with
    | nil => cases hmessage
    | cons head others =>
      obtain ⟨hcompatible, hxlang⟩ := hcalls first List.mem_cons_self
      have hhead := hmessages head List.mem_cons_self
      have hconfined := confined_of_isFramed hcompatible (hxlang ▸ hhead)
      have hrun := hconfined.run_eq (others.flatMap Message.toList ++ tail) context
      rw [List.flatMap_cons, List.append_assoc]
      cases i with
      | zero =>
        cases hcall
        cases hmessage
        simp only [runAll, List.getElem?_cons_zero, hrun, List.drop_succ_cons, List.drop_zero]
      | succ i =>
        have hothers := fun m hm => hmessages m (List.mem_cons_of_mem _ hm)
        have hrest := fun c hc => hcalls c (List.mem_cons_of_mem _ hc)
        simp only [runAll, List.getElem?_cons_succ, hrun, List.drop_succ_cons]
        exact ih others _ hothers hrest i call message hcall hmessage

end Call

/-- Where schemas travel, a message that is not null is a header, four bytes that hold the
length of the body, the body and the schemas. Readers of a stream of such messages and of
null ones, whatever they expect, each take exactly one message, whether they succeed or
fail, and find what a reader with a fresh context finds in that message alone. -/
theorem framing {xlang : Bool} {messages : List Message} {calls : List Call}
    (hmessages : ∀ message ∈ messages, message.IsFramed xlang)
    (hcalls : ∀ call ∈ calls,
      call.engine.config.compatible = true ∧ call.engine.config.xlang = xlang)
    (tail : List UInt8) (context : ReadContext) :
    (∀ (engine : Engine) (declared : FieldType) (value : Datum) (before after : WriteTables)
      (message : Message), engine.config.compatible = true →
      engine.encode declared value before = .ok message after →
      (declared.nullable && value.isNull) = false →
      ∃ offset body : List UInt8,
        message.toList = (Header.ofConfig engine.config false).encode
          ++ (offset ++ (body ++ SchemaQueue.encode after.queue)) ∧
        offset.length = 4 ∧ LittleEndian.decode offset = body.length ∧
        engine.encodeBody declared value .empty = .ok body after) ∧
    ∀ (i : Nat) (call : Call) (message : Message), calls[i]? = some call →
      messages[i]? = some message →
      let alone := call.run ⟨message.toList, .empty⟩
      (Call.runAll calls ⟨messages.flatMap Message.toList ++ tail, context⟩)[i]? =
        some ⟨alone.result,
          ⟨(messages.drop (i + 1)).flatMap Message.toList ++ tail, alone.reading.context⟩⟩ := by
  constructor
  · intro engine declared value before after message hcompatible hencode hvalue
    rcases Engine.toList_of_encode hencode with ⟨hnull, -⟩ | ⟨hnull, body, hbody, hmessage⟩
    · rw [hvalue] at hnull
      cases hnull
    · rw [if_pos hcompatible, hvalue] at hmessage
      obtain ⟨hlength, hmessage⟩ := hmessage
      have hoffset : body.length % 256 ^ 4 = body.length := Nat.mod_eq_of_lt hlength
      refine ⟨LittleEndian.encode 4 body.length, body, hmessage, ?_, ?_, hbody⟩
      · exact LittleEndian.length_encode 4 body.length
      · rw [LittleEndian.decode_encode, hoffset]
  · exact Call.runAll_eq tail calls messages context hmessages hcalls

namespace Sample

/-- A registry with one struct, registered by a number. -/
def registry : Registry where
  specs := Registry.standard.specs ++ [⟨some (.user "Point"), "Point", false,
    .struct (.id 7) [⟨"x", .scalar (.int .int32) false, false⟩]⟩]

/-- An engine whose schemas travel. -/
def engine : Engine where
  config := ⟨false, true, .nullOnly, 5⟩
  registry := registry
  shapes := [("Point", .struct "Point" [⟨"x", false, .int .int32⟩])]

/-- A message with a point. -/
def point : Message where
  segments := [[2], [8, 0, 0, 0], [255, 144, 14, 3, 5, 0, 0, 0, 1, 6, 80, 129, 111, 123, 73, 144,
    34, 1, 144, 14, 64, 4, 92]]

/-- A null message. -/
def missing : Message := .single [3]

/-- Readers that look for a text, for a point that may be missing, and for a point. -/
def calls : List Call :=
  [⟨engine, ⟨"text", .scalar .string false, .string⟩⟩,
    ⟨engine, ⟨"point", .scalar (.user "Point") true, .option (.user "Point")⟩⟩,
    ⟨engine, ⟨"point", .scalar (.user "Point") false, .user "Point"⟩⟩]

end Sample

/-- A reader that fails and a null message in front of a point leave the point alone. -/
theorem framing_point :
    (∀ message ∈ [Sample.point, Sample.missing, Sample.point], message.IsFramed false) ∧
      (∀ call ∈ Sample.calls,
        call.engine.config.compatible = true ∧ call.engine.config.xlang = false) ∧
      ((Call.runAll Sample.calls
        ⟨Sample.point.toList ++ (Sample.missing.toList ++ Sample.point.toList) ++ [1, 2],
          .empty⟩)[2]?.map fun outcome => outcome.reading.source) = some [1, 2] := by
  have hpoint : Sample.point.IsFramed false :=
    ⟨Sample.engine, .scalar (.user "Point") false, .struct "Point" [("x", .int .int32 5)], .empty,
      _, rfl, rfl, by decide +kernel, rfl⟩
  have hmissing : Sample.missing.IsFramed false :=
    ⟨Sample.engine, .scalar (.user "Point") true, .none, .empty, _, rfl, rfl, by decide +kernel,
      rfl⟩
  have hmessages : ∀ message ∈ [Sample.point, Sample.missing, Sample.point],
      message.IsFramed false := by
    simp [hpoint, hmissing]
  have hcalls : ∀ call ∈ Sample.calls,
      call.engine.config.compatible = true ∧ call.engine.config.xlang = false := by
    simp [Sample.calls, Sample.engine]
  have hthird := (framing hmessages hcalls [1, 2] .empty).2 2 _ _ rfl rfl
  refine ⟨hmessages, hcalls, ?_⟩
  simpa using congrArg (Option.map fun outcome => outcome.reading.source) hthird

end SchemaWire
