import SchemaWire.Proofs.Data.Appearance
import SchemaWire.Proofs.Message.Limit

/-!
# What a message leaves recorded

Reading a message records the top-level value first, if it can be referred to, and then the values
inside of it, one after the other as they stand in the message.
-/

namespace SchemaWire

/-- All recorded values stand in the message one after the other, and before what is left of it. -/
structure ReadState.Ordered (s : ReadState) : Prop where
  /-- Those that were recorded later stand at later places. -/
  ordered : s.refs.Pairwise fun earlier later => Precedes earlier.start later.start
  /-- What is left stands behind their starts. -/
  passed : ∀ entry ∈ s.refs, s.input <:+ entry.start

/-- Recorded values stay in order while others are recorded. -/
theorem ReadState.Ordered.after {s t : ReadState} (h : s.Ordered) {added : List RefEntry}
    (hadded : s.Records added t) : t.Ordered where
  ordered := by
    rw [hadded.refs]
    refine List.pairwise_append.mpr ⟨h.ordered, hadded.ordered, fun earlier hearlier later hlater => ?_⟩
    exact (hadded.between later hlater).1.of_suffix (h.passed earlier hearlier)
  passed entry hentry := by
    rw [hadded.refs] at hentry
    rcases List.mem_append.mp hentry with hold | hnew
    · exact hadded.forward.trans (h.passed entry hold)
    · exact (hadded.between entry hnew).2

/-- Where nothing is recorded nothing is out of order. -/
theorem ReadState.Ordered.of_nil {s : ReadState} (h : s.refs = []) : s.Ordered := by
  constructor
  · rw [h]
    exact .nil
  · rw [h]
    exact nofun

namespace Engine

variable {engine : Engine} (htravels : engine.config.compatible = true) {target : Target}
  {fuel : Nat} {schemas : List Schema} {recorded : Bool} {s t : ReadState} {v : Datum}
include htravels

/-- Behind its type id, the top-level value is recorded first if it can be referred to. -/
theorem ordered_of_decodeTyped_ok (hs : s.refs = []) {typeId : Nat}
    (h : engine.decodeTyped fuel target schemas recorded typeId s = .ok v t) : t.Ordered := by
  let env : ReadEnv := ⟨engine.config, engine.registry, engine.shapes, schemas⟩
  obtain ⟨resolved, u, hinfo, hbehind⟩ := exists_of_bind_ok h
  have htold : Read.Discipline.unrecorded.Holds (Read.typeInfo env) :=
    Read.Discipline.unrecorded.typeInfo fun _ => Read.Discipline.unrecorded_name
  have hunrecorded : u.refs = s.refs := htold _ _ _ hinfo
  obtain ⟨declared, w, hdeclared, hvalue⟩ := exists_of_bind_ok hbehind
  obtain ⟨-, rfl⟩ := exists_of_ofExcept_ok hdeclared
  have hread {start : ReadState} (hstart : start.Ordered) (hok : Read.datumWithin env fuel ⟨0, true⟩
      (.entered { declared with id := UInt32.ofNat typeId } resolved) target.shape start =
        .ok v t) : t.Ordered := by
    obtain ⟨added, hadded⟩ := Read.orders_datumWithin htravels fuel _ _ _ start v t hok
    exact hstart.after hadded
  cases recorded with
  | false => exact hread (.of_nil (hunrecorded.trans hs)) hvalue
  | true =>
    have hdata : Read.datumWithin env fuel ⟨0, true⟩
        (.entered { declared with id := UInt32.ofNat typeId } resolved) target.shape
        { w with refs := w.refs ++
          [⟨w.input, { declared with id := UInt32.ofNat typeId }, resolved⟩] } = .ok v t :=
      hvalue
    refine hread ⟨?_, ?_⟩ hdata
    · rw [hunrecorded, hs]
      exact List.pairwise_singleton _ _
    · rw [hunrecorded, hs]
      intro entry hentry
      cases List.mem_singleton.mp hentry
      exact List.suffix_refl _

/-- The values in the body of a message are recorded in the order of the message. -/
theorem ordered_of_decodeBody_ok (hs : s.refs = [])
    (h : engine.decodeBody fuel target schemas s = .ok v t) : t.Ordered := by
  obtain ⟨flag, u, hflag, hbehind⟩ := exists_of_bind_ok h
  have hrefs : u.refs = [] := (Read.suffix_of_flag_ok hflag).2.trans hs
  have hvalue {recorded : Bool}
      (h : toEnd (engine.decodeValue fuel target schemas recorded) u = .ok v t) : t.Ordered := by
    obtain ⟨w, last, hvalue, hend⟩ := exists_of_bind_ok h
    obtain ⟨state, same, hget, hempty⟩ := exists_of_bind_ok hend
    cases hget
    have hsame : t = last := by
      dsimp only at hempty
      split at hempty
      · cases hempty
        rfl
      · cases hempty
    obtain ⟨typeId, start, hpeek, htyped⟩ := exists_of_bind_ok hvalue
    cases Read.eq_of_peek_ok hpeek
    exact hsame ▸ ordered_of_decodeTyped_ok htravels hrefs htyped
  cases flag with
  | null =>
    obtain ⟨-, rfl⟩ := exists_of_ofExcept_ok hbehind
    exact .of_nil hrefs
  | ref => cases hbehind
  | notNull => exact hvalue hbehind
  | refValue => exact hvalue hbehind

/-- What reading a message leaves recorded is in the order of the message. -/
theorem pairwise_refs_of_decode_ok {reading after : Reading}
    (h : engine.decode target reading = .ok v after) :
    after.context.refs.Pairwise fun earlier later => Precedes earlier.start later.start := by
  rw [decode, decodeWith_eq] at h
  obtain ⟨header, between, hheader, hbehind⟩ := exists_of_bind_ok h
  cases hnull : header.isNull with
  | true =>
    rw [hnull] at hbehind
    obtain ⟨-, rfl⟩ := exists_of_ofExcept_ok hbehind
    have hfresh : after.context = .empty := by
      unfold fromSource at hheader
      split at hheader
      · cases hheader
        rfl
      · cases hheader
    rw [hfresh]
    exact .nil
  | false =>
    rw [hnull] at hbehind
    obtain ⟨frame, last, -, hframe⟩ := exists_of_bind_ok hbehind
    rw [decodeFrame] at hframe
    split at hframe
    next value state hbody =>
      cases hframe
      exact (ordered_of_decodeBody_ok htravels rfl hbody).ordered
    next => cases hframe

end Engine

end SchemaWire
