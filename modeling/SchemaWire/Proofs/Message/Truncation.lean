import SchemaWire.Proofs.Message.RoundTrip
import SchemaWire.Proofs.Data.Truncated

/-!
# Messages that end too early or too late

A message that has lost its end is refused wherever it was cut: reading comes to the end of what is
left, and says so. Where no schemas travel, nothing may stand behind a message either.
-/

namespace SchemaWire

namespace Take

variable {α : Type}

namespace Local

/-- Checking a header needs no bytes. -/
theorem validated (config : Config) (header : Header) :
    Local (match header.validate config with
      | .ok _ => return header
      | .error e => throw e) := by
  split
  · exact steps.pure _
  · exact steps.throw _

/-- Reading a header from a stream looks at its bytes. -/
theorem header (config : Config) : (Header.takeStreamed config).Local := by
  have hmagic : Header.streamedMagic.Local :=
    steps.bind streamedByte fun low => streamedByte.map fun high => LittleEndian.decode [low, high]
  have hflags : (Header.takeFlags Take.streamedByte config).Local := by
    refine steps.bind streamedByte fun flags => ?_
    dsimp only
    split
    · exact steps.bind streamedByte fun language => validated config _
    · exact validated config _
  unfold Header.takeStreamed Header.takeWith
  split
  · refine steps.bind hmagic fun found => ?_
    dsimp only
    split
    · exact steps.bind (steps.throw _) fun _ => hflags
    · exact hflags
  · exact hflags

/-- Reading a schema from a stream looks at its blob. -/
theorem schema : Schema.takeStreamed.Local := by
  refine steps.bind (exactly 8) fun word => steps.bind ?_ fun length => ?_
  · unfold Schema.takeLengthWith
    split
    · exact (streamedVarint _).map _
    · exact steps.pure _
  · refine steps.bind (exactly length) fun body => ?_
    dsimp only
    split
    · exact steps.pure _
    · exact steps.throw _

/-- Reading a body of a known length looks at its bytes. -/
theorem body (length : Nat) : (Frame.takeBody length).Local := by
  refine of_takes length (fun input h => ?_) fun input h => ?_
  · rw [Frame.takeBody, if_pos (List.length_take_of_le h)]
  · have hshort := Nat.ne_of_lt (Nat.lt_of_le_of_lt (List.length_take_le' length input) h)
    exact ⟨length - (input.take length).length, [], if_neg hshort⟩

/-- Where schemas travel, reading a frame looks at its bytes. -/
theorem frame {config : Config} (hcompatible : config.compatible = true) :
    (Frame.take config).Local := by
  rw [Frame.take, if_pos hcompatible]
  exact steps.bind (exactly 4) fun offset => steps.bind (body _) fun content =>
    steps.bind (streamedVarint _) fun count => map (steps.times schema count) _

/-- A reader that uses up its input and looks at nothing else runs out on all that starts this
input and is shorter. -/
theorem runsOut {reader : Take α} (h : reader.Local) {part back : List UInt8} {a : α}
    (hok : reader (part ++ back) = .ok a []) (hback : back ≠ []) : RunsOut (reader part) := by
  obtain ⟨rest, -, hempty⟩ | hends := h back _ part a [] rfl hok
  · exact absurd (List.append_eq_nil_iff.mp hempty.symm).2 hback
  · exact hends

end Local

end Take

namespace Read.Discipline

/-- Looking at what stands next needs only the bytes that it looks at. -/
theorem localized_peek {α : Type} {r : Take α} (h : r.Local) : localized.Holds (Read.peek r) := by
  intro back s s' a t hs hok
  cases eq_of_peek_ok hok
  obtain ⟨start, between, hget, htake⟩ := exists_of_bind_ok hok
  obtain ⟨value, middle, hvalue, hset⟩ := exists_of_bind_ok htake
  cases hget
  cases hset
  obtain ⟨t', hvalue', -⟩ | hends := follows_take h _ _ _ _ hs hvalue
  · exact .inl ⟨s', bind_of_ok hvalue', hs⟩
  · exact .inr (hends.bind _)

/-- What has to end with its value needs only the bytes of the value, and all of them. -/
theorem localized_toEnd {r : Read Datum} (h : localized.Holds r) :
    localized.Holds (Engine.toEnd r) := by
  refine localized.bind h fun value back s s' v t hs hok => ?_
  obtain ⟨own, between, hget, hok⟩ := exists_of_bind_ok hok
  cases hget
  dsimp only at hok
  split at hok
  next hempty =>
    -- Nothing is left of the longer input, so it was not longer.
    cases hok
    have hnone : s'.input ++ back = [] := hs.input.symm.trans (List.isEmpty_iff.mp hempty)
    have hempty' : s'.input.isEmpty = true :=
      List.isEmpty_iff.mpr (List.append_eq_nil_iff.mp hnone).1
    refine .inl ⟨s', (bind_of_ok rfl).trans ?_, hs⟩
    rw [if_pos hempty']
    rfl
  next => cases hok

end Read.Discipline

namespace Engine

open Read.Discipline (localized localized_name localized_peek localized_record localized_toEnd)

/-- Reading the top-level value needs only the bytes that it takes. -/
theorem localized_decodeValue (engine : Engine) (fuel : Nat) (target : Target)
    (schemas : List Schema) (recorded : Bool) :
    localized.Holds (engine.decodeValue fuel target schemas recorded) := by
  refine localized.bind (localized_peek (.varint _)) fun typeId => ?_
  refine localized.bind (localized.typeInfo fun _ => localized_name) fun resolved => ?_
  refine localized.bind (localized.ofExcept _) fun declared => ?_
  have hread (type : WireType) : localized.Holds (Read.datumWithin
      ⟨engine.config, engine.registry, engine.shapes, schemas⟩ fuel ⟨0, true⟩
      (.entered type resolved) target.shape) :=
    localized.datumWithin _ (localized.typeInfo fun _ => localized_name) fuel _ _ _
      fun _ => localized_record
  dsimp only
  split
  · exact localized.bind (localized_record _ _) fun _ => hread _
  · exact hread _

/-- Reading the body of a message needs only the bytes that it takes. -/
theorem localized_decodeBody (engine : Engine) (fuel : Nat) (target : Target)
    (schemas : List Schema) : localized.Holds (engine.decodeBody fuel target schemas) := by
  have hvalue := engine.localized_decodeValue fuel target schemas
  refine localized.bind (localized.flag _) fun flag => ?_
  cases flag with
  | null => exact localized.ofExcept _
  | ref => exact localized.throw _
  | notNull => exact localized_toEnd (hvalue false)
  | refValue => exact localized_toEnd (hvalue true)

section Messages

variable {writer reader : Engine} {hosts : HostType → Prop} {target : Target} {shape : Shape}
  {v : Datum}

/-- A reader of the stream runs out where the stream does. -/
theorem fromSource_runsOut {α : Type} {taken : Take α} {source : List UInt8}
    (h : RunsOut (taken source)) (context : ReadContext) :
    RunsOut (fromSource taken ⟨source, context⟩) := by
  obtain ⟨n, rest, hends⟩ := h
  exact ⟨n, ⟨rest, context⟩, by rw [fromSource, hends]⟩

/-- Reading a body that is used up by it runs out on every shorter start of the body. -/
theorem decodeBody_runsOut {fuel : Nat} {schemas : List Schema} {part back : List UInt8}
    {table : Name.Table} {refs : List RefEntry}
    (hok : reader.decodeBody fuel target schemas ⟨part ++ back, [], []⟩ = .ok v ⟨[], table, refs⟩)
    (hback : back ≠ []) : RunsOut (reader.decodeBody fuel target schemas ⟨part, [], []⟩) := by
  have hs : ReadState.Extends back ⟨part ++ back, [], []⟩ ⟨part, [], []⟩ := ⟨rfl, rfl, .nil⟩
  obtain ⟨t', -, ht⟩ | hends := reader.localized_decodeBody fuel target schemas back _ _ _ _ hs hok
  · exact absurd (List.append_eq_nil_iff.mp ht.input.symm).2 hback
  · exact hends

/-- Where no schemas travel, all that is left of the stream is the body. -/
theorem take_frame_apart {config : Config} (h : config.compatible = false) (input : List UInt8) :
    Frame.take config input = .ok ⟨none, input, []⟩ [] := by
  rw [Frame.take, h]
  rfl

/-- Reading a message runs out in its header if the message is cut there. -/
theorem decodeWith_runsOut_of_header {config : Config} (hxlang : config.xlang = reader.config.xlang)
    {isNull : Bool} {part rest : List UInt8}
    (hcut : part ++ rest = (Header.ofConfig config isNull).encode) (hrest : rest ≠ [])
    (fuel : Frame → Nat) (context : ReadContext) :
    RunsOut (reader.decodeWith fuel target ⟨part, context⟩) := by
  have hheader := Header.reads_takeStreamed hxlang isNull []
  rw [List.append_nil, ← hcut] at hheader
  rw [decodeWith_eq]
  exact (fromSource_runsOut ((Take.Local.header _).runsOut hheader hrest) .empty).bind _

/-- Reading a message runs out in its frame if the frame does. -/
theorem decodeWith_runsOut_of_frame {config : Config} (hxlang : config.xlang = reader.config.xlang)
    {part : List UInt8} (hends : RunsOut (Frame.take reader.config part)) (fuel : Frame → Nat)
    (context : ReadContext) :
    RunsOut (reader.decodeWith fuel target
      ⟨(Header.ofConfig config false).encode ++ part, context⟩) := by
  have hheader := fromSource_of_reads (Header.reads_takeStreamed hxlang false) part .empty
  rw [decodeWith_eq, bind_of_ok hheader]
  exact (fromSource_runsOut hends .empty).bind _

/-- What is cut out of a message ends in its header, or behind the header. -/
theorem cut_cases {front later part back : List UInt8} (h : part ++ back = front ++ later) :
    (∃ rest, rest ≠ [] ∧ part ++ rest = front) ∨
      ∃ rest, part = front ++ rest ∧ rest ++ back = later := by
  obtain ⟨rest, rfl, rfl⟩ | ⟨rest, rfl, rfl⟩ := List.append_eq_append_iff.mp h
  · cases rest with
    | nil => exact .inr ⟨[], by simp only [List.append_nil], rfl⟩
    | cons b rest => exact .inl ⟨b :: rest, List.cons_ne_nil b rest, rfl⟩
  · exact .inr ⟨rest, rfl, rfl⟩

/-- Reading a message that has lost its end runs out, wherever it was cut. -/
theorem Matches.decodeWithin_runsOut (h : writer.Matches reader hosts)
    (hshape : shape.Declarable hosts) (hholds : shape.Holds reader.shapes v)
    {before after : WriteTables} {message : Message}
    (hencode : writer.encode shape.declared v before = .ok message after) {part back : List UInt8}
    (hcut : message.toList = part ++ back) (hback : back ≠ []) (label : String)
    (context : ReadContext) :
    RunsOut (reader.decodeWithin (v.height + 2) ⟨label, shape.declared, shape⟩
      ⟨part, context⟩) := by
  cases hvalue : shape.declared.nullable && v.isNull with
  | true =>
    rcases toList_of_encode hencode with ⟨-, hmessage⟩ | ⟨hother, -⟩
    · exact decodeWith_runsOut_of_header h.xlang (hcut.symm.trans hmessage) hback _ context
    · rw [hvalue] at hother
      cases hother
  | false =>
    obtain ⟨frame, framed, hmessage, htake, hbody, hannounced⟩ :=
      h.exists_frame_of_encode hencode hvalue
    obtain ⟨rest, hrest, hheader⟩ | ⟨part, rfl, rfl⟩ := cut_cases (hcut.symm.trans hmessage)
    · exact decodeWith_runsOut_of_header h.xlang hheader hrest _ context
    cases hcompatible : reader.config.compatible with
    | true =>
      have hends := (Take.Local.frame hcompatible).runsOut htake hback
      exact decodeWith_runsOut_of_frame h.xlang hends _ context
    | false =>
      -- Without a length of its own the body is cut like the message.
      rw [take_frame_apart hcompatible] at htake
      cases htake
      obtain ⟨table, refs, hread⟩ := decodeBody_of_encodeBody (h.agree hannounced) h.refMode hshape
        hholds (hshape.ne_none hvalue) (Nat.lt_succ_self _) hbody (List.prefix_refl _) label
      obtain ⟨n, state, hends⟩ := decodeBody_runsOut hread hback
      have hframe := take_frame_apart hcompatible (part ++ [])
      refine ⟨n, ⟨[], ⟨[], state.names, state.refs⟩⟩, ?_⟩
      rw [decodeWithin, ← List.append_nil part, decodeWith_of_frame h.xlang hframe, decodeFrame,
        List.append_nil, hends]

/-- Where no schemas travel, reading a message that is not null refuses what stands behind it. -/
theorem Matches.decodeWithin_continued (h : writer.Matches reader hosts)
    (hshape : shape.Declarable hosts) (hholds : shape.Holds reader.shapes v)
    {before after : WriteTables} {message : Message}
    (hencode : writer.encode shape.declared v before = .ok message after)
    (hcompatible : writer.config.compatible = false)
    (hvalue : (shape.declared.nullable && v.isNull) = false) {extra : List UInt8}
    (hextra : extra ≠ []) (label : String) (context : ReadContext) :
    ∃ kept, reader.decodeWithin (v.height + 2) ⟨label, shape.declared, shape⟩
      ⟨message.toList ++ extra, context⟩ = .error (.trailingValue extra.length) kept := by
  obtain ⟨frame, framed, hmessage, htake, hbody, hannounced⟩ :=
    h.exists_frame_of_encode hencode hvalue
  have hown : reader.config.compatible = false := h.compatible.trans hcompatible
  rw [take_frame_apart hown] at htake
  cases htake
  obtain ⟨table, refs, hread⟩ := exists_decodeBody_append (h.agree hannounced) h.refMode hshape
    hholds (hshape.ne_none hvalue) (Nat.lt_succ_self _) hbody (List.prefix_refl _) label extra
  have hframe := take_frame_apart hown (framed ++ extra ++ [])
  have hleft : ¬extra.isEmpty = true := fun hempty => hextra (List.isEmpty_iff.mp hempty)
  have hrefused : toEnd (pure v) ⟨extra, table, refs⟩ =
      .error (.trailingValue extra.length) ⟨extra, table, refs⟩ := by
    refine (bind_of_ok rfl).trans ((bind_of_ok rfl).trans ?_)
    dsimp only
    rw [if_neg hleft]
    rfl
  refine ⟨⟨[], ⟨[], table, refs⟩⟩, ?_⟩
  rw [hmessage, List.append_assoc, ← List.append_nil (framed ++ extra), decodeWithin,
    decodeWith_of_frame h.xlang hframe, decodeFrame, List.append_nil, hread, hrefused]

end Messages

end Engine

/-- A message that has lost its end is refused because it ends too early, wherever it was cut, and
never read or refused for another reason. Where no schemas travel, a message that is not null is
refused as well if anything stands behind it. -/
theorem cut_or_continued_refused {writer reader : Engine} {hosts : HostType → Prop}
    (h : writer.Matches reader hosts) {shape : Shape} (hshape : shape.Declarable hosts) {v : Datum}
    (hholds : shape.Holds reader.shapes v) {before after : WriteTables} {message : Message}
    (hencode : writer.encode shape.declared v before = .ok message after) (label : String)
    (context : ReadContext) :
    (∀ part back, message.toList = part ++ back → back ≠ [] →
      ∃ e kept, reader.decode ⟨label, shape.declared, shape⟩ ⟨part, context⟩ = .error e kept ∧
        e.category = .unexpectedEof) ∧
    (writer.config.compatible = false → (shape.declared.nullable && v.isNull) = false →
      ∀ extra, extra ≠ [] →
        ∃ e kept, reader.decode ⟨label, shape.declared, shape⟩
          ⟨message.toList ++ extra, context⟩ = .error e kept ∧ e.category = .protocol) := by
  refine ⟨fun part back hcut hback => ?_, fun hcompatible hvalue extra hextra => ?_⟩
  · obtain ⟨n, kept, hends⟩ :=
      h.decodeWithin_runsOut hshape hholds hencode hcut hback label context
    refine ⟨.unexpectedEnd n, kept, ?_, rfl⟩
    rw [Engine.decode_eq_of_ends (by rw [hends]; exact nofun), hends]
  · obtain ⟨kept, hrefused⟩ :=
      h.decodeWithin_continued hshape hholds hencode hcompatible hvalue hextra label context
    refine ⟨.trailingValue extra.length, kept, ?_, rfl⟩
    rw [Engine.decode_eq_of_ends (by rw [hrefused]; exact nofun), hrefused]

namespace Sample

/-- An engine for trees, whose schemas do not travel. -/
def woodcutter : Engine :=
  { forester with config := ⟨true, false, .tracking, 5⟩ }

/-- A message with a tree that has one twig, without its schema. -/
def felled : Message where
  segments := [[212, 98, 6, 6, 255, 143, 6, 1, 0, 0, 0, 1, 255, 143, 6, 2, 0, 0, 0, 0]]

/-- The engine without schemas matches itself. -/
theorem matches_woodcutter :
    woodcutter.Matches woodcutter (· ∈ [HostType.user "Tree", .collection "twigs"]) where
  xlang := rfl
  compatible := rfl
  refMode := rfl
  depth := Nat.le_refl _
  written := built_trees
  own := built_trees
  addressable := matches_forester.addressable
  types := matches_forester.types

end Sample

/-- The message of a tree with a twig is refused if it is cut or continued. -/
theorem cut_or_continued_refused_tree :
    (∃ after, Sample.woodcutter.encode (.scalar (.user "Tree") false)
        (Sample.tree 1 [Sample.tree 2 []]) .empty = .ok Sample.felled after) ∧
      (∀ part back, Sample.felled.toList = part ++ back → back ≠ [] →
        ∃ e kept, Sample.woodcutter.decode ⟨"Tree", .scalar (.user "Tree") false, .user "Tree"⟩
          ⟨part, .empty⟩ = .error e kept ∧ e.category = .unexpectedEof) ∧
      ∀ extra, extra ≠ [] →
        ∃ e kept, Sample.woodcutter.decode ⟨"Tree", .scalar (.user "Tree") false, .user "Tree"⟩
          ⟨Sample.felled.toList ++ extra, .empty⟩ = .error e kept ∧ e.category = .protocol := by
  have hholds : (Shape.user "Tree").Holds Sample.forester.shapes
      (Sample.tree 1 [Sample.tree 2 []]) :=
    Sample.holds_tree rfl (List.forall_mem_singleton.mpr
      (Sample.holds_tree rfl (List.forall_mem_nil _)))
  have hencode : ∃ after, Sample.woodcutter.encode (.scalar (.user "Tree") false)
      (Sample.tree 1 [Sample.tree 2 []]) .empty = .ok Sample.felled after :=
    ⟨_, rfl⟩
  obtain ⟨after, hencode⟩ := hencode
  obtain ⟨hcut, hcontinued⟩ :=
    cut_or_continued_refused Sample.matches_woodcutter (.user (by decide)) hholds hencode "Tree"
      .empty
  exact ⟨⟨after, hencode⟩, hcut, hcontinued rfl rfl⟩

end SchemaWire
