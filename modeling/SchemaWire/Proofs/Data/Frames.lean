import SchemaWire.Proofs.Data.Begins
import SchemaWire.Proofs.Data.Orderly
import SchemaWire.Proofs.Data.RoundTrip
import SchemaWire.Proofs.Types.History

/-!
# What is open stays open

While a value is written event by event, the serializer keeps in mind what is open around it. Each
value inside of it that stands in a place of its own leaves that as it was: it only fills its place
and adds to the bytes. A value that fails makes the whole fail, and no value fails because its parts
were told of out of order.
-/

namespace SchemaWire

namespace Serialize

variable {env : WriteEnv}

/-- An element is written behind those in front of it. -/
theorem elements_append (front : List Datum) (w : Datum) (back : List Datum) :
    elements env (front ++ w :: back) = (do
      elements env front
      nextElement
      datum env w
      ensureWritten
      elements env back) := by
  induction front with
  | nil => rw [List.nil_append, elements, elements, pure_bind]
  | cons first rest ih =>
    rw [List.cons_append, elements, elements, ih]
    simp only [bind_assoc]

/-- A value by position is written behind those in front of it. -/
theorem items_append (front : List Datum) (w : Datum) (back : List Datum) :
    items env (front ++ w :: back) = (do
      items env front
      datum env w
      items env back) := by
  induction front with
  | nil => rw [List.nil_append, items, items, pure_bind]
  | cons first rest ih =>
    rw [List.cons_append, items, items, ih]
    simp only [bind_assoc]

/-- An entry is written behind those in front of it. -/
theorem entries_append (front : List (Datum × Datum)) (key value : Datum)
    (back : List (Datum × Datum)) :
    entries env (front ++ (key, value) :: back) = (do
      entries env front
      nextKey
      datum env key
      ensureWritten
      nextValue
      datum env value
      ensureWritten
      entries env back) := by
  induction front with
  | nil => rw [List.nil_append, entries, entries, pure_bind]
  | cons first rest ih =>
    obtain ⟨key, value⟩ := first
    rw [List.cons_append, entries, entries, ih]
    simp only [bind_assoc]

/-- A field is written behind those in front of it. -/
theorem fields_append {w : Datum} (h : w ≠ .absent) (front : List (String × Datum)) (name : String)
    (back : List (String × Datum)) :
    fields env (front ++ (name, w) :: back) = (do
      fields env front
      nextField name
      datum env w
      ensureWritten
      fields env back) := by
  induction front with
  | nil => rw [List.nil_append, Serializer.fields_cons h, fields, pure_bind]
  | cons first rest ih =>
    obtain ⟨other, value⟩ := first
    by_cases habsent : value = .absent
    · rw [habsent, List.cons_append, fields, fields]
      rfl
    · rw [List.cons_append, Serializer.fields_cons habsent, Serializer.fields_cons habsent, ih]
      simp only [bind_assoc]

/-- A part by name that is not left out is written in front of the others. -/
theorem members_cons {value : Datum} (h : value ≠ .absent) (name : String)
    (rest : List (String × Datum)) :
    members env ((name, value) :: rest) = (do
      datum env value
      members env rest) := by
  rw [members]
  exact h

/-- A part by name is written behind those in front of it. -/
theorem members_append {w : Datum} (h : w ≠ .absent) (front : List (String × Datum)) (name : String)
    (back : List (String × Datum)) :
    members env (front ++ (name, w) :: back) = (do
      members env front
      datum env w
      members env back) := by
  induction front with
  | nil => rw [List.nil_append, members_cons h, members, pure_bind]
  | cons first rest ih =>
    obtain ⟨other, value⟩ := first
    by_cases habsent : value = .absent
    · rw [habsent, List.cons_append, members, members, ih]
    · rw [List.cons_append, members_cons habsent, members_cons habsent, ih]
      simp only [bind_assoc]

end Serialize

/-- A run that starts with other steps and a part fails as the part does. -/
theorem Serializer.fails_behind {s t u : Serializer} {whole first part : Serialize Unit} {e : Error}
    (rest : Serialize Unit)
    (hwhole : whole = (do
      first
      part
      rest))
    (hfirst : first s = .ok () t) (hpart : part t = .error e u) : whole s = .error e u := by
  rw [hwhole]
  exact (bind_of_ok hfirst).trans (bind_of_error hpart)

/-- A value that fails where it begins makes the run fail in the same way. -/
theorem Begins.fails {env : WriteEnv} {s t u : Serializer} {v w : Datum} {standing : Standing}
    {e : Error} (h : Begins env s v t w standing) (hpart : Serialize.datum env w t = .error e u) :
    Serialize.datum env v s = .error e u := by
  -- From the inside to the outside: what is around a part comes up to it and fails with it.
  induction h with
  | whole => exact hpart
  | @some t t' w standing h hstep ih =>
    refine ih ?_
    rw [Serialize.datum, Serializer.get_bind]
    rw [Serializer.get_bind] at hstep
    split at hstep
    next hplain =>
      rw [if_pos hplain]
      exact (bind_of_ok hstep).trans hpart
    next hplain =>
      cases hstep
      rw [if_neg hplain]
      exact hpart
  | newtype h ih =>
    refine ih ?_
    rw [Serialize.datum]
    exact hpart
  | @element t t' sized front back w standing h hstep ih =>
    refine ih ?_
    rw [Serialize.datum, Serialize.elements_append]
    refine Serializer.fails_behind (do
      Serialize.ensureWritten
      Serialize.elements env back
      Serialize.close) ?_ hstep hpart
    simp only [bind_assoc]
  | @item t t' front back w standing h hstep ih =>
    refine ih ?_
    rw [Serialize.datum, Serialize.items_append]
    refine Serializer.fails_behind (do
      Serialize.items env back
      Serialize.close) ?_ hstep hpart
    simp only [bind_assoc]
  | @key t t' sized front back key value standing h hstep ih =>
    refine ih ?_
    rw [Serialize.datum, Serialize.entries_append]
    refine Serializer.fails_behind (do
      Serialize.ensureWritten
      Serialize.nextValue
      Serialize.datum env value
      Serialize.ensureWritten
      Serialize.entries env back
      Serialize.close) ?_ hstep hpart
    simp only [bind_assoc]
  | @value t t' sized front back key value standing h hstep ih =>
    refine ih ?_
    rw [Serialize.datum, Serialize.entries_append]
    refine Serializer.fails_behind (do
      Serialize.ensureWritten
      Serialize.entries env back
      Serialize.close) ?_ hstep hpart
    simp only [bind_assoc]
  | @field t t' struct name front back w standing h hkept hstep ih =>
    refine ih ?_
    rw [Serialize.datum, Serialize.fields_append hkept]
    refine Serializer.fails_behind (do
      Serialize.ensureWritten
      Serialize.fields env back
      Serialize.close) ?_ hstep hpart
    simp only [bind_assoc]
  | payload h hstep ih =>
    refine ih ?_
    rw [Serialize.datum]
    exact (bind_of_ok hstep).trans hpart
  | @variantItem t t' enum index variant front back w standing h hstep ih =>
    refine ih ?_
    rw [Serialize.datum, Serialize.items_append]
    refine Serializer.fails_behind (do
      Serialize.items env back
      Serialize.close) ?_ hstep hpart
    simp only [bind_assoc]
  | @variantMember t t' enum index variant name front back w standing h hkept hstep ih =>
    refine ih ?_
    rw [Serialize.datum, Serialize.members_append hkept]
    refine Serializer.fails_behind (do
      Serialize.members env back
      Serialize.close) ?_ hstep hpart
    simp only [bind_assoc]

namespace Serializer

variable {env : WriteEnv} {s t : Serializer} {place : Place}

/-- The first state is left, and the second one is like it, but for the place that was filled and
for what was written behind the bytes of before. -/
structure Restored (s t : Serializer) : Prop where
  /-- The same compounds are open. -/
  frames : t.frames = s.frames
  /-- The same number of structs is open. -/
  depth : t.depth = s.depth
  /-- The same number of compounds of a value with a layout of its own is open. -/
  plain : t.plain = s.plain
  /-- No place waits. -/
  pending : t.pending = none
  /-- The bytes of before are still there. -/
  buffer : s.buffer <+: t.buffer

/-- A value in a place of its own leaves everything else as it was. -/
theorem Awaits.restored (h : s.Awaits) {v : Datum}
    (hstep : Serialize.datum env v s = .ok () t) : s.Restored t := by
  obtain ⟨place, hready, hplain⟩ := h
  obtain ⟨bytes, tables, -, rfl⟩ := (does_datum v hready).exists_of_ok hstep
  -- Only a value with no compound left open ends with its part, and such a part is a payload.
  have hclosed : closed s.plain = s.plain := by
    revert hplain
    rcases s.plain with _ | _ | n
    · exact fun _ => rfl
    · exact fun h => absurd rfl h
    · exact fun _ => rfl
  exact ⟨rfl, rfl, hclosed, rfl, List.prefix_append _ _⟩

/-- Wherever a value is written, it does not fail for disorder. -/
theorem Ready.orderly (h : s.Ready place) {v : Datum} {e : Error}
    (hstep : Serialize.datum env v s = .error e t) : e.isDisorder = false := by
  have hdoes : s.Does (Serialize.datum env v) (Write.datum env s.depth place v) s.filled :=
    does_datum v h
  cases hwriter : Write.datum env s.depth place v s.tables with
  | ok bytes tables => cases hstep.symm.trans (hdoes.of_ok hwriter)
  | error other tables =>
    obtain ⟨u, hu, -⟩ := hdoes.of_error hwriter
    cases hstep.symm.trans hu
    exact (Write.closed_orderly env).datum v s.depth place _ _ _ hwriter

/-- A struct of a declared type is written with its declared fields, in their order. -/
theorem Ready.names_of_struct (h : s.Ready place) {name : String}
    {content : List (String × Datum)} {slot : Slot} (hslot : s.pending = some slot)
    {spec : TypeSpec} (hspec : env.registry.resolve slot.type = .ok spec)
    {registration : Registration} {declared : List FieldDescriptor}
    (hrole : spec.role = .struct registration declared)
    (hstep : Serialize.datum env (.struct name content) s = .ok () t) :
    declared.map FieldDescriptor.name = content.map Prod.fst := by
  cases h with
  | plain hplain hpending => cases hpending.symm.trans hslot
  | @declared type tracked annotated hopen hpending =>
    cases hpending.symm.trans hslot
    obtain ⟨bytes, tables, hwriter, -⟩ :=
      (does_datum _ (.declared hopen hpending)).exists_of_ok hstep
    have hdata {before after : WriteTables} {bytes : List UInt8}
        (hdata : Write.datum env s.depth (.declared type tracked false) (.struct name content)
          before = .ok bytes after) :
        declared.map FieldDescriptor.name = content.map Prod.fst := by
      rw [Write.datum_of_struct hspec hrole] at hdata
      split at hdata
      · cases hdata
      · exact Write.names_of_fields_ok hdata
    cases annotated with
    | false => exact hdata hwriter
    | true =>
      rw [Write.datum_annotated hspec _ _ _ rfl] at hwriter
      obtain ⟨head, between, -, hwriter⟩ := exists_of_bind_ok hwriter
      obtain ⟨rest, after, hwriter, -⟩ := exists_of_bind_ok hwriter
      exact hdata hwriter

end Serializer

/-- Let a value of any form be written for a type, event by event. Each value inside of it that
stands in a place of its own fails or leaves the open compounds, the number of open structs and the
number of open compounds of a plain value as they were when it began, with its place filled and the
bytes of before followed by its own. A struct of a declared type that is written brings exactly the
declared fields, in their order. Where a value inside fails, the whole does. Nothing fails because
parts of a value were told of out of order, neither inside of the value nor when it is finished nor
in a message. -/
theorem frames_restored (env : WriteEnv) (type : FieldType) (v : Datum) (tables : WriteTables)
    (buffer : List UInt8) :
    (∀ t w, Begins env (.start tables buffer type) v t w .own →
      ∀ u, Serialize.datum env w t = .ok () u → t.Restored u) ∧
    (∀ t name content standing,
      Begins env (.start tables buffer type) v t (.struct name content) standing →
      ∀ slot spec registration declared, t.pending = some slot →
        env.registry.resolve slot.type = .ok spec → spec.role = .struct registration declared →
        ∀ u, Serialize.datum env (.struct name content) t = .ok () u →
          declared.map FieldDescriptor.name = content.map Prod.fst) ∧
    (∀ t w standing, Begins env (.start tables buffer type) v t w standing →
      ∀ e u, Serialize.datum env w t = .error e u → e.isDisorder = false ∧
        Serialize.datum env v (.start tables buffer type) = .error e u) ∧
    (∀ e u, (do
      Serialize.datum env v
      Serialize.finish) (.start tables buffer type) = .error e u → e.isDisorder = false) ∧
    ∀ shapes before e after,
      Engine.encode ⟨env.config, env.registry, shapes⟩ type v before = .error e after →
        e.isDisorder = false := by
  have hstart : (Serializer.start tables buffer type).Awaits :=
    Serializer.Ready.awaits (.declared rfl rfl)
  refine ⟨fun t w hbegins u hstep => ?_, fun t name content standing hbegins slot spec registration
    declared hslot hspec hrole u hstep => ?_, fun t w standing hbegins e u hstep => ?_,
    fun e u hstep => ?_, fun shapes => Engine.orderly_encode _ type v⟩
  · exact ((hbegins.ready hstart).2 rfl).restored hstep
  · obtain ⟨place, hready⟩ := (hbegins.ready hstart).1
    exact hready.names_of_struct hslot hspec hrole hstep
  · obtain ⟨place, hready⟩ := (hbegins.ready hstart).1
    exact ⟨hready.orderly hstep, hbegins.fails hstep⟩
  · have hdoes : (Serializer.start tables buffer type).Does (do
        Serialize.datum env v
        Serialize.finish) (Write.datum env 0 (.declared type false false) v)
        (Serializer.start tables buffer type).filled :=
      Serializer.does_whole v type tables buffer
    cases hwriter : Write.datum env 0 (.declared type false false) v tables with
    | ok bytes after => cases hstep.symm.trans (hdoes.of_ok hwriter)
    | error other after =>
      obtain ⟨w, hw, -⟩ := hdoes.of_error hwriter
      cases hstep.symm.trans hw
      exact (Write.closed_orderly env).datum v 0 _ _ _ _ hwriter

namespace Sample

/-- The declared fields of a mark: its value and its place. -/
def markFields : List FieldDescriptor :=
  [⟨"value", .scalar (.int .uint8) false, false⟩, ⟨"place", .scalar (.user "Spot") false, false⟩]

/-- A writer of marks, whose places have a layout of their own. -/
def marker : WriteEnv where
  config := ⟨false, false, .none, 5⟩
  registry := Registry.standard.history
    [.ext (.user "Spot") (.id 1), .struct (.user "Mark") (.id 2) markFields]

/-- A mark whose place is a pair of numbers. -/
def mark : Datum :=
  .struct "Mark" [("value", .int .uint8 7), ("place", .tuple [.int .uint8 1, .int .uint8 2])]

/-- The serializer at the start of a mark. -/
def beforeMark : Serializer := .start .empty [] (.scalar (.user "Mark") false)

/-- The state in which the place of a mark begins. -/
def atSpot : Serializer where
  tables := .empty
  buffer := [7]
  frames := [.struct markFields 2]
  pending := some ⟨.scalar (.user "Spot") false, false, true⟩
  plain := none
  depth := 1

/-- The place of a mark begins there. -/
theorem begins_atSpot :
    Begins marker beforeMark mark atSpot (.tuple [.int .uint8 1, .int .uint8 2]) .own := by
  refine @Begins.field marker beforeMark mark beforeMark atSpot "Mark" "place"
    [("value", .int .uint8 7)] [] _ .own .whole nofun ?_
  rfl

end Sample

/-- The place of a mark leaves the mark open. -/
theorem frames_restored_mark : ∃ u,
    Serialize.datum Sample.marker (.tuple [.int .uint8 1, .int .uint8 2]) Sample.atSpot = .ok () u ∧
      Sample.atSpot.Restored u := by
  obtain ⟨hrestored, -⟩ :=
    frames_restored Sample.marker (.scalar (.user "Mark") false) Sample.mark .empty []
  exact ⟨_, rfl, hrestored _ _ Sample.begins_atSpot _ rfl⟩

end SchemaWire
