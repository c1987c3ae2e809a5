import SchemaWire.Proofs.Data.Uses
import SchemaWire.Proofs.Message.Encode

/-!
# Messages that are looked at

Whoever looks at a message without reading its data finds what its writer put there: the
header, the length of the body, the flag and the type id of the value, and the schemas of the
types in the value, in the order of their first use.
-/

namespace SchemaWire

namespace Engine

/-- The types that are told of in a message with the given value, in the order in which they are
written: the type of the value, and then the user types inside it. -/
def uses (engine : Engine) (declared : FieldType) (value : Datum) : List TypeSpec :=
  (engine.registry.resolve declared).toOption.toList ++
    Write.uses engine.registry (.declared declared false false) value

/-- A flag stands in front of the top-level value unless flags are not written. -/
theorem topFlag_eq_none_iff (config : Config) (spec : TypeSpec) :
    topFlag config spec = none ↔ config.refMode = .none := by
  rw [topFlag]
  cases config.refMode <;> simp

/-- The flag in front of the top-level value says that there is one. -/
theorem topFlag_ne_null (config : Config) (spec : TypeSpec) : topFlag config spec ≠ some .null := by
  rw [topFlag]
  cases config.refMode <;> cases spec.tracked <;> simp

/-- A message is looked at as far as the type id of its value. -/
theorem inspect_of_frame {engine : Engine} {header : Header} {frame : Frame}
    {source between back : List UInt8}
    (hheader : Header.takeStreamed engine.config source = .ok header between)
    (hpresent : header.isNull = false)
    (hframe : Frame.take engine.config between = .ok frame back) {flag : Option RefFlag}
    {id : UInt32} {data : List UInt8}
    (hbody : frame.body = flag.toList.map RefFlag.toByte ++ (Varint.encode32 id.toNat ++ data))
    (hmode : engine.config.refMode = .none ↔ flag = none) (hflag : flag ≠ some .null) :
    engine.inspect source =
      .ok ⟨header, frame.offset, flag, some id, frame.body.length, frame.schemas⟩ back := by
  have hid : Varint.take32 (Varint.encode32 id.toNat ++ data) = .ok id.toNat data :=
    Varint.reads_take32 id.toNat_lt data
  rw [inspect, bind_of_ok hheader, hpresent, if_neg Bool.false_ne_true, bind_of_ok hframe]
  cases flag with
  | none =>
    rw [Option.toList_none, List.map_nil, List.nil_append] at hbody
    simp only [hmode.mpr rfl, hbody, if_true, pure_bind, reduceCtorEq, if_false,
      bind_of_ok hid, UInt32.ofNat_toNat]
    rfl
  | some flag =>
    have hne : engine.config.refMode ≠ .none := fun h => nomatch hmode.mp h
    have hbyte := Take.reads_byte flag.toByte (Varint.encode32 id.toNat ++ data)
    rw [Option.toList_some, List.map_singleton] at hbody
    simp only [if_neg hne, hbody, bind_of_ok hbyte, RefFlag.ofByte_toByte, MonadExcept.ofExcept,
      pure_bind, if_neg hflag, bind_of_ok hid, UInt32.ofNat_toNat]
    rfl

/-- The body of a message starts with the flag and the type id of its value, and tells of the types
that are used in it. -/
theorem exists_of_encodeBody {engine : Engine} {declared : FieldType} {value : Datum}
    {body : List UInt8} {after : WriteTables}
    (h : engine.encodeBody declared value .empty = .ok body after) :
    ∃ spec data infos, engine.registry.resolve declared = .ok spec ∧
      body = (topFlag engine.config spec).toList.map RefFlag.toByte ++
        (Varint.encode32 (spec.typeId engine.config.compatible).toNat ++ data) ∧
      (∀ used ∈ engine.uses declared value, used ∈ engine.registry.specs) ∧
      Write.announce engine.registry engine.config.compatible (engine.uses declared value) .empty =
        .ok infos after ∧ infos.Sublist body := by
  obtain ⟨spec, start, hspec, h⟩ := exists_of_bind_ok h
  obtain ⟨hresolve, rfl⟩ := exists_of_ofExcept_ok hspec
  let env : WriteEnv := ⟨engine.config, engine.registry⟩
  have huses : engine.uses declared value =
      [spec] ++ Write.uses env.registry (.declared declared false false) value := by
    rw [uses, hresolve]
    rfl
  have htop : Write.Uses env.registry env.config.compatible
      (Write.typeInfo env.registry env.config.compatible spec) [spec] :=
    .typeInfo (Registry.mem_of_resolve hresolve)
  have hdata : Write.Uses env.registry env.config.compatible
      (Write.datum env 0 (.declared declared false false) value)
      (Write.uses env.registry (.declared declared false false) value) :=
    Write.uses_datum value 0 _
  obtain ⟨info, between, hinfo, h⟩ := exists_of_bind_ok h
  obtain ⟨data, last, hwritten, h⟩ := exists_of_bind_ok h
  cases h
  have hboth : (do return (← Write.typeInfo env.registry env.config.compatible spec) ++
      (← Write.datum env 0 (.declared declared false false) value) : Write (List UInt8)) .empty =
        .ok (info ++ data) after := by
    rw [bind_of_ok hinfo, bind_of_ok hwritten]
    rfl
  obtain ⟨hregistered, infos, hannounce, hsublist⟩ := htop.append hdata _ _ _ hboth
  obtain ⟨rest, rfl⟩ := Write.exists_of_typeInfo_ok hinfo
  rw [← huses] at hregistered hannounce
  refine ⟨spec, rest ++ data, infos, hresolve, ?_, hregistered, hannounce, ?_⟩
  · simp only [List.append_assoc]
  · rw [List.append_assoc]
    exact hsublist.trans (List.sublist_append_right _ _)

end Engine

/-- A message that is written by one engine is looked at by every other one with the same choice of
languages and of whether schemas travel and flags are written, whatever types it knows. Of a null
message it finds the header. Of any other message it finds the header, the length of the body, the
flag and the type id of the value, and the schemas of the types that are told of by schemas, in the
order of their first use. Nothing is left of the message. -/
theorem inspection {writer reader : Engine} (hxlang : reader.config.xlang = writer.config.xlang)
    (hcompatible : reader.config.compatible = writer.config.compatible)
    (hmode : reader.config.refMode = .none ↔ writer.config.refMode = .none)
    (hbuilt : writer.registry.Built) (haddressable : writer.registry.Addressable)
    {declared : FieldType} {value : Datum} {before after : WriteTables} {message : Message}
    (hok : writer.encode declared value before = .ok message after) :
    if declared.nullable && value.isNull then
      reader.inspect message.toList =
        .ok ⟨.ofConfig writer.config true, none, none, none, 0, []⟩ []
    else
      ∃ spec body infos schemas, writer.registry.resolve declared = .ok spec ∧
        writer.encodeBody declared value .empty = .ok body after ∧
        Write.announce writer.registry writer.config.compatible (writer.uses declared value) .empty =
          .ok infos after ∧ infos.Sublist body ∧
        List.Forall₂ (fun used schema => Schema.ofSpec writer.registry used true = .ok schema)
          (TypeSpec.firstUses writer.config.compatible (writer.uses declared value)) schemas ∧
        reader.inspect message.toList =
          .ok ⟨.ofConfig writer.config false,
            if writer.config.compatible then some body.length else none,
            Engine.topFlag writer.config spec, some (spec.typeId writer.config.compatible),
            body.length, schemas⟩ [] := by
  have hheader (isNull : Bool) (back : List UInt8) :
      Header.takeStreamed reader.config ((Header.ofConfig writer.config isNull).encode ++ back) =
        .ok (.ofConfig writer.config isNull) back :=
    Header.reads_takeStreamed hxlang.symm isNull back
  rcases Engine.toList_of_encode hok with ⟨hnull, hmessage⟩ | ⟨hpresent, body, hbody, hmessage⟩
  · rw [if_pos hnull, hmessage, hnull]
    have hread := hheader true []
    rw [List.append_nil] at hread
    rw [Engine.inspect, bind_of_ok hread]
    rfl
  · rw [hpresent] at hmessage ⊢
    rw [if_neg Bool.false_ne_true]
    obtain ⟨spec, data, infos, hresolve, hstart, hregistered, hannounce, hsublist⟩ :=
      Engine.exists_of_encodeBody hbody
    have hempty : writer.registry.Queues WriteTables.empty.queue
        (TypeSpec.firstUses writer.config.compatible []) := .nil
    have hqueues := hempty.announce hbuilt.wellFormed (List.forall_mem_nil _) hregistered hannounce
    rw [List.nil_append] at hqueues
    obtain ⟨schemas, hannounces, hderived⟩ := hqueues.exists_schemas fun used hused =>
      hregistered used (TypeSpec.mem_of_mem_firstUses hused)
    refine ⟨spec, body, infos, schemas, hresolve, hbody, hannounce, hsublist, hderived, ?_⟩
    have hflag : reader.config.refMode = .none ↔ Engine.topFlag writer.config spec = none :=
      hmode.trans (Engine.topFlag_eq_none_iff _ _).symm
    have hnever := Engine.topFlag_ne_null writer.config spec
    cases htravel : writer.config.compatible with
    | true =>
      rw [htravel, if_pos rfl] at hmessage
      have hsound := Engine.sound_of_encodeBody hbody
      have hcount : after.queue.length < 2 ^ 32 :=
        Nat.lt_of_le_of_lt hsound.length_queue_le
          (Nat.lt_trans haddressable.count (Nat.pow_lt_pow_right (by decide) (by decide)))
      have hframe := Frame.reads_take (hcompatible.trans htravel) hmessage.1
        (hannounces.holds haddressable) hcount []
      rw [List.append_nil, hannounces.normalized] at hframe
      rw [hmessage.2]
      exact Engine.inspect_of_frame (hheader false _) rfl hframe (htravel ▸ hstart) hflag hnever
    | false =>
      rw [htravel, if_neg Bool.false_ne_true] at hmessage
      rw [htravel, hbuilt.firstUses_eq_nil hregistered] at hderived
      cases hderived
      have hframe : Frame.take reader.config body = .ok ⟨none, body, []⟩ [] := by
        rw [Frame.take, hcompatible, htravel]
        rfl
      rw [hmessage]
      exact Engine.inspect_of_frame (hheader false _) rfl hframe (htravel ▸ hstart) hflag hnever

namespace Sample

/-- An engine for loaves, whose schemas travel. -/
def baker : Engine := ⟨⟨true, true, .tracking, 5⟩, bakery, []⟩

/-- An engine that knows nothing but builtins. -/
def stranger : Engine := ⟨⟨true, true, .nullOnly, 1⟩, .standard, []⟩

/-- A loaf with two seeds. -/
def loaf : Datum :=
  .struct "Loaf" [("crust", .unitVariant "Crust" 1 "Dark"), ("seeds", .seq true [.none,
    .some (.struct "Seed" [("grams", .int .int32 2)]),
    .some (.struct "Seed" [("grams", .int .int32 3)])])]

end Sample

/-- A stranger finds the schemas of loaves, crusts and seeds in a message with a loaf. -/
theorem inspection_loaf :
    ∃ message after spec length schemas,
      Sample.baker.encode (.scalar (.user "Loaf") false) Sample.loaf .empty = .ok message after ∧
      Sample.bakery.resolve (.scalar (.user "Loaf") false) = .ok spec ∧
      (TypeSpec.firstUses true (Sample.baker.uses (.scalar (.user "Loaf") false)
        Sample.loaf)).map TypeSpec.host =
          [some (.user "Loaf"), some (.user "Crust"), some (.user "Seed")] ∧
      List.Forall₂ (fun used schema => Schema.ofSpec Sample.bakery used true = .ok schema)
        (TypeSpec.firstUses true (Sample.baker.uses (.scalar (.user "Loaf") false) Sample.loaf))
        schemas ∧
      Sample.stranger.inspect message.toList =
        .ok ⟨.ofConfig Sample.baker.config false, some length,
          Engine.topFlag Sample.baker.config spec, some (spec.typeId true), length, schemas⟩ [] := by
  have haddressable : Sample.bakery.Addressable := by decide +kernel
  have hhosts : (TypeSpec.firstUses true (Sample.baker.uses (.scalar (.user "Loaf") false)
      Sample.loaf)).map TypeSpec.host =
        [some (.user "Loaf"), some (.user "Crust"), some (.user "Seed")] := by
    decide +kernel
  have hok : (Sample.baker.encode (.scalar (.user "Loaf") false) Sample.loaf .empty
      matches .ok ..) = true := by
    decide +kernel
  cases hencode : Sample.baker.encode (.scalar (.user "Loaf") false) Sample.loaf .empty with
  | error e after =>
    rw [hencode] at hok
    cases hok
  | ok message after =>
    have hlook := @inspection Sample.baker Sample.stranger rfl rfl (by decide)
      (Registry.Built.history .standard) haddressable _ _ _ _ _ hencode
    rw [if_neg (by decide)] at hlook
    obtain ⟨spec, body, infos, schemas, hresolve, -, -, -, hderived, hread⟩ := hlook
    exact ⟨message, after, spec, body.length, schemas, rfl, hresolve, hhosts, hderived, hread⟩

end SchemaWire
