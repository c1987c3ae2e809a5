import SchemaWire.Engine
import SchemaWire.Proofs.Data.Write
import SchemaWire.Proofs.Message.Frame
import SchemaWire.Proofs.Schema.Derive

/-!
# What a written message consists of

A null message is its header. Any other message of an engine whose schemas travel is its
header, the length of its body, the body and the queued schemas, and the body of any other
message follows its header at once.
-/

namespace SchemaWire

/-- Every queued schema of sound tables is the schema of a type. -/
theorem WriteTables.Sound.exists_announces {registry : Registry} {tables : WriteTables}
    (h : tables.Sound registry) : ∃ schemas, registry.Announces schemas tables.queue := by
  have hqueue := h.queue
  generalize tables.queue = queue at hqueue
  induction queue with
  | nil => exact ⟨[], .nil⟩
  | cons queued rest ih =>
    obtain ⟨spec, hspec, hhost, schema, hschema, hencode⟩ := hqueue queued List.mem_cons_self
    obtain ⟨schemas, hschemas⟩ := ih fun other hmem => hqueue other (List.mem_cons_of_mem _ hmem)
    exact ⟨schema :: schemas, .cons ⟨spec, hspec, hhost, hschema, hencode⟩ hschemas⟩

/-- Announced schemas can be read back from the queue. -/
theorem Registry.Announces.holds {registry : Registry} (haddressable : registry.Addressable)
    {schemas : List Schema} {queue : SchemaQueue} (h : registry.Announces schemas queue) :
    queue.Holds schemas := by
  refine List.Forall₂.imp ?_ h
  intro queued schema hannounced
  obtain ⟨spec, hspec, -, hschema, hencode⟩ := hannounced
  have hblob : registry.blob spec = .ok queued.blob := by
    rw [Registry.blob, hschema]
    exact hencode
  have hsize : queued.blob ∈ (registry.blob spec).toOption := by
    rw [hblob]
    rfl
  exact ⟨hencode, haddressable.blobs spec hspec queued.blob hsize⟩

/-- Announced schemas come out of their blobs as they are. -/
theorem Registry.Announces.normalized {registry : Registry} {schemas : List Schema}
    {queue : SchemaQueue} (h : registry.Announces schemas queue) :
    schemas.map Schema.normalized = schemas := by
  induction h with
  | nil => rfl
  | cons hannounced _ ih =>
    obtain ⟨spec, -, -, hschema, -⟩ := hannounced
    rw [List.map_cons, Schema.normalized_of_ofSpec_ok hschema, ih]

/-- The placeholder behind a header is replaced by the offset, and the rest stays. -/
theorem Message.toList_patched (header rest : List UInt8) (offset : Nat) :
    (patched (header ++ [0, 0, 0, 0] ++ rest) header.length offset).toList
      = header ++ (LittleEndian.encode 4 offset ++ rest) := by
  have htake : (header ++ [0, 0, 0, 0] ++ rest).take header.length = header := by
    rw [List.append_assoc, List.take_left]
  have hdrop : (header ++ [0, 0, 0, 0] ++ rest).drop (header.length + 4) = rest := by
    have hlength : header.length + 4 = (header ++ [0, 0, 0, 0]).length := by
      rw [List.length_append]
      rfl
    rw [hlength, List.drop_left]
  rw [toList, patched, htake, hdrop]
  simp only [List.flatten_cons, List.flatten_nil, List.append_nil]

namespace Engine

/-- Writing a body keeps the tables. -/
theorem keeps_encodeBody (engine : Engine) (declared : FieldType) (value : Datum) :
    Write.Keeps engine.registry (engine.encodeBody declared value) :=
  engine.closed_encodeBody (Write.closed_keeps _) declared value

/-- The tables behind a body are sound. -/
theorem sound_of_encodeBody {engine : Engine} {declared : FieldType} {value : Datum}
    {body : List UInt8} {after : WriteTables}
    (h : engine.encodeBody declared value .empty = .ok body after) :
    after.Sound engine.registry :=
  (keeps_encodeBody engine declared value _ _ _ h).sound WriteTables.sound_empty

/-- A message is null, or it is a header, a body and, where schemas travel, the length of the
body between the two and the schemas behind them. -/
theorem toList_of_encode {engine : Engine} {declared : FieldType} {value : Datum}
    {before after : WriteTables} {message : Message}
    (h : engine.encode declared value before = .ok message after) :
    let isNull := declared.nullable && value.isNull
    let header := (Header.ofConfig engine.config isNull).encode
    (isNull = true ∧ message.toList = header) ∨
      (isNull = false ∧ ∃ body, engine.encodeBody declared value .empty = .ok body after ∧
        if engine.config.compatible then
          body.length < 2 ^ 32 ∧
            message.toList = header ++ (LittleEndian.encode 4 body.length
              ++ (body ++ SchemaQueue.encode after.queue))
        else message.toList = header ++ body) := by
  intro isNull header
  obtain ⟨_, start, hset, h⟩ := exists_of_bind_ok h
  cases hset
  cases hnull : isNull with
  | true =>
    simp only [isNull] at hnull
    simp only [hnull, if_true] at h
    cases h
    left
    simp [Message.toList, Message.single, header, isNull, hnull]
  | false =>
    simp only [isNull] at hnull
    simp only [hnull, Bool.false_eq_true, if_false] at h
    obtain ⟨body, tables, hbody, h⟩ := exists_of_bind_ok h
    right
    refine ⟨rfl, body, ?_⟩
    cases hcompatible : engine.config.compatible with
    | true =>
      simp only [hcompatible, if_true] at h
      split at h
      · cases h
      next hlength =>
        cases h
        refine ⟨hbody, not_le.mp hlength, ?_⟩
        rw [List.append_assoc _ body, Message.toList_patched]
        simp only [header, isNull, hnull]
    | false =>
      simp only [hcompatible, Bool.false_eq_true, if_false] at h
      cases h
      refine ⟨hbody, ?_⟩
      simp [Message.toList, Message.single, header, isNull, hnull]

end Engine

end SchemaWire
