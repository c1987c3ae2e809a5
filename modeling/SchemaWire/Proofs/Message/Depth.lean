import SchemaWire.Proofs.Data.TooDeep
import SchemaWire.Proofs.Message.Entrance

/-!
# The depth limit

How deep structs may nest decides which values are written and read, and nothing else. Under a limit
that a value does not exceed its message is the same as under any other one, and it is read back.
Under a limit that it exceeds it is not written, and its message is not read, for that limit.
-/

namespace SchemaWire

/-- In a value that counts as missing no struct is nested. -/
theorem Datum.nesting_of_isNull {registry : Registry} {type : FieldType} :
    (v : Datum) → v.isNull = true → v.nesting registry type = 0
  | .newtype content, h => by
    rw [nesting]
    exact nesting_of_isNull content h
  | .none, _ | .unit, _ | .refused _, _ => rfl

namespace Engine

/-- Under another limit a value is written as the same message, as long as its structs do not
exceed it. -/
theorem bounded_encode (engine : Engine) (limit : Nat) (declared : FieldType) (v : Datum) :
    Write.Bounded limit (v.nesting engine.registry declared ≤ limit) (engine.encode declared v)
      ((engine.limited limit).encode declared v) := by
  unfold encode
  refine .bind fun _ _ _ _ => ?_
  cases hnull : declared.nullable && v.isNull with
  | true =>
    have hmissing := (Bool.and_eq_true_iff.mp hnull).2
    rw [v.nesting_of_isNull hmissing]
    exact .refl (Nat.zero_le _)
  | false =>
    have hdata := @Write.bounded_datum ⟨engine.config, engine.registry⟩ limit v declared false
      false 0 (Nat.zero_le limit)
    rw [Nat.zero_add] at hdata
    have hbody : Write.Bounded limit (v.nesting engine.registry declared ≤ limit)
        (engine.encodeBody declared v) ((engine.limited limit).encodeBody declared v) :=
      .bind fun spec _ _ _ => .bind fun info _ _ _ => hdata.prepend _
    exact hbody.bind_const _

end Engine

/-- What is written under one limit is written as the same message under every limit that its
structs do not exceed, and read back there. Under a limit that they exceed, writing the value and
reading the message fail for that limit. -/
theorem depth_limit {writer reader : Engine} {hosts : HostType → Prop}
    (h : writer.Matches reader hosts) {shape : Shape} (hshape : shape.Declarable hosts) {v : Datum}
    (hholds : shape.Holds reader.shapes v) {before after : WriteTables} {message : Message}
    (hencode : writer.encode shape.declared v before = .ok message after) (limit : Nat) :
    (v.nesting writer.registry shape.declared ≤ limit →
      (writer.limited limit).encode shape.declared v before = .ok message after ∧
      ∀ label context, ∃ kept, (reader.limited limit).decode ⟨label, shape.declared, shape⟩
        ⟨message.toList, context⟩ = .ok v ⟨[], kept⟩) ∧
    (limit < v.nesting writer.registry shape.declared →
      (∃ left, (writer.limited limit).encode shape.declared v before =
        .error (.depthExceeded limit) left) ∧
      ∀ label context, ∃ kept, (reader.limited limit).decode ⟨label, shape.declared, shape⟩
        ⟨message.toList, context⟩ = .error (.depthExceeded limit) ⟨[], kept⟩) := by
  have hbounded := writer.bounded_encode limit shape.declared v
  have hmatches : (writer.limited limit).Matches (reader.limited limit) hosts :=
    { h with depth := Nat.le_refl _ }
  constructor
  · intro hfits
    have hsame := hbounded.within hfits _ _ _ hencode
    exact ⟨hsame, fun label context => round_trip hmatches hshape hholds hsame label context⟩
  · intro hdeep
    refine ⟨hbounded.beyond (Nat.not_le_of_lt hdeep) _ _ _ hencode, fun label context => ?_⟩
    have hvalue : (shape.declared.nullable && v.isNull) = false := by
      cases hnull : shape.declared.nullable && v.isNull with
      | false => rfl
      | true =>
        rw [v.nesting_of_isNull (Bool.and_eq_true_iff.mp hnull).2] at hdeep
        exact absurd hdeep (Nat.not_lt_zero _)
    obtain ⟨e⟩ : Nonempty (Engine.Entrance (writer.limited limit) (reader.limited limit) hosts
        writer.config.maxDepth shape.declared v message.toList) :=
      hmatches.exists_entrance hshape.among hencode hvalue
    have hopened : ((writer.limited limit).peers (reader.limited limit) e.schemas
        e.after.queue).Opened shape shape.declared e.spec e.type e.resolved :=
      ⟨.inl rfl, e.registered, ⟨false, e.derived⟩, e.told⟩
    have hexceeds := e.concur.exceeds_entered rfl writer.config.maxDepth hshape hholds
      (Nat.lt_succ_self v.height) hopened (Nat.zero_le _) false true
      (by rw [Nat.zero_add]; exact Nat.not_le_of_lt hdeep)
    obtain ⟨left, hfails⟩ := hexceeds _ _ _ e.sound (List.prefix_refl _) e.data [] e.start.refs
    rw [List.append_nil, ← e.sameNames] at hfails
    exact e.exists_decode_error label context hfails nofun

namespace Sample

/-- A tree with two twigs: three structs, two of which stand around one another. -/
def forked : Datum := tree 1 [tree 2 [], tree 3 []]

/-- The tree with two twigs is held where trees are. -/
theorem holds_forked : (Shape.user "Tree").Holds forester.shapes forked := by
  refine holds_tree rfl fun twig htwig => ?_
  rcases List.mem_pair.mp htwig with rfl | rfl
  · exact holds_tree rfl nofun
  · exact holds_tree rfl nofun

end Sample

/-- A tree with two twigs is written and read under a limit of two, but not under a limit of one. -/
theorem depth_limit_forked :
    ∃ message after,
      Sample.forester.encode (.scalar (.user "Tree") false) Sample.forked .empty =
        .ok message after ∧
      (Sample.forester.limited 2).encode (.scalar (.user "Tree") false) Sample.forked .empty =
        .ok message after ∧
      (∃ kept, (Sample.forester.limited 2).decode
        ⟨"Tree", .scalar (.user "Tree") false, .user "Tree"⟩ ⟨message.toList, .empty⟩ =
          .ok Sample.forked ⟨[], kept⟩) ∧
      (∃ left, (Sample.forester.limited 1).encode (.scalar (.user "Tree") false) Sample.forked
        .empty = .error (.depthExceeded 1) left) ∧
      ∃ kept, (Sample.forester.limited 1).decode
        ⟨"Tree", .scalar (.user "Tree") false, .user "Tree"⟩ ⟨message.toList, .empty⟩ =
          .error (.depthExceeded 1) ⟨[], kept⟩ := by
  have hencode : ∃ message after, Sample.forester.encode (.scalar (.user "Tree") false)
      Sample.forked .empty = .ok message after :=
    ⟨_, _, rfl⟩
  obtain ⟨message, after, hencode⟩ := hencode
  have hshape : (Shape.user "Tree").Declarable
      (· ∈ [HostType.user "Tree", .collection "twigs"]) :=
    .user (by decide)
  have hnesting : Sample.forked.nesting Sample.trees (.scalar (.user "Tree") false) = 2 := by
    decide
  have hfits := (depth_limit Sample.matches_forester hshape Sample.holds_forked hencode 2).1
    (Nat.le_of_eq hnesting)
  have hdeep := (depth_limit Sample.matches_forester hshape Sample.holds_forked hencode 1).2
    (Nat.lt_of_lt_of_eq (Nat.lt_succ_self 1) hnesting.symm)
  exact ⟨message, after, hencode, hfits.1, hfits.2 "Tree" .empty, hdeep.1, hdeep.2 "Tree" .empty⟩

end SchemaWire
