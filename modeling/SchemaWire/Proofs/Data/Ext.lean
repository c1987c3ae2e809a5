import SchemaWire.Proofs.Data.RoundTrip
import SchemaWire.Proofs.Data.Serialize

/-!
# Values with a layout of their own

Such a value is written plainly behind its annotations, wherever it stands. The serializer knows
where it ends, so what follows is annotated again, and the reader takes what was written of it and
nothing else. This holds as long as the value is not written as one that may be missing or as a
character: those are written before the serializer looks at the layout of their place.
-/

namespace SchemaWire

/-- Write what stands in front of a value in a place, for a value of the given type. -/
def Slot.head (slot : Slot) (env : WriteEnv) (spec : TypeSpec) : Write (List UInt8) :=
  if slot.annotated then Write.annotations env slot.type slot.tracked spec else pure []

/-- The place that a value is written into. -/
def Slot.place (slot : Slot) : Place := .declared slot.type slot.tracked slot.annotated

/-- What is written of a value with a layout of its own is what stands in front of it in its place,
and then its payload. -/
def Slot.Puts (slot : Slot) (env : WriteEnv) (spec : TypeSpec) (before after : WriteTables)
    (bytes payload : List UInt8) : Prop :=
  ∃ head, slot.head env spec before = .ok head after ∧ bytes = head ++ payload

variable {env : WriteEnv} {slot : Slot} {spec : TypeSpec} {registration : Registration}
  {shapes : Shapes} {shape : Shape} {v : Datum}

/-- A value with a layout of its own is written plainly behind what stands in front of it. -/
theorem Write.datum_of_ext_slot (hresolve : env.registry.resolve slot.type = .ok spec)
    (hrole : spec.role = .ext registration) (hholds : shape.Holds shapes v)
    (hroot : ∀ root, shape.Opens shapes root → root.isOption = false ∧ root ≠ .char)
    (depth : Nat) :
    datum env depth slot.place v = (do
      let head ← slot.head env spec
      let payload ← datum env depth .plain v
      return head ++ payload) := by
  obtain ⟨hpresent, hplain⟩ :=
    datum_of_ext hresolve hrole depth slot.tracked hholds hroot
  unfold Slot.place Slot.head
  cases slot.annotated with
  | false => simpa using hplain
  | true =>
    rw [datum_annotated hresolve depth slot.tracked v hpresent, hplain]
    rfl

/-- The payload of a value with a layout of its own is what is written of it plainly. -/
theorem Slot.exists_puts {depth : Nat} {before after : WriteTables} {bytes : List UInt8}
    (hresolve : env.registry.resolve slot.type = .ok spec)
    (hrole : spec.role = .ext registration) (hholds : shape.Holds shapes v)
    (hroot : ∀ root, shape.Opens shapes root → root.isOption = false ∧ root ≠ .char)
    (h : Write.datum env depth slot.place v before = .ok bytes after) :
    ∃ payload, slot.Puts env spec before after bytes payload ∧
      Write.datum env depth .plain v after = .ok payload after := by
  rw [Write.datum_of_ext_slot hresolve hrole hholds hroot] at h
  obtain ⟨head, between, hhead, hrest⟩ := exists_of_bind_ok h
  obtain ⟨payload, last, hpayload, hlast⟩ := exists_of_bind_ok hrest
  cases hlast
  obtain ⟨rfl, -⟩ := Plain.rel_datum (v.height + 1) hholds (Nat.lt_succ_self _) _ _ _ hpayload
  exact ⟨payload, ⟨head, hhead, rfl⟩, hpayload⟩

/-- A serializer that succeeds with a value with a layout of its own comes out of the value at its
end, and whoever reads by the shape of the value gets it back from behind its annotations, whatever
follows it. -/
theorem ext_round_trip {s t : Serializer} (hresolve : env.registry.resolve slot.type = .ok spec)
    (hrole : spec.role = .ext registration) (hholds : shape.Holds shapes v)
    (hroot : ∀ root, shape.Opens shapes root → root.isOption = false ∧ root ≠ .char)
    (hopen : s.plain = none) (hpending : s.pending = some slot)
    (h : Serialize.datum env v s = .ok () t) :
    ∃ head payload,
      slot.head env spec s.tables = .ok head t.tables ∧
      t = { s with tables := t.tables, buffer := s.buffer ++ (head ++ payload), pending := none } ∧
      (∀ next : Slot, Serializer.Ready { t with pending := some next } next.place) ∧
      ∀ reader : ReadEnv, reader.shapes = shapes → ∀ fuel, v.height < fuel →
        ∀ read skip scope type host rest names refs,
          Read.content reader fuel read skip scope type (.ext host) (shapes.resolve shape)
            ⟨payload ++ rest, names, refs⟩ = .ok v ⟨rest, names, refs⟩ := by
  have hready : s.Ready slot.place := .declared hopen hpending
  have hdoes : s.Does (Serialize.datum env v) _ s.filled := Serializer.does_datum v hready
  obtain ⟨bytes, after, hwrite, rfl⟩ := hdoes.exists_of_ok h
  obtain ⟨payload, ⟨head, hhead, rfl⟩, hpayload⟩ :=
    Slot.exists_puts hresolve hrole hholds hroot hwrite
  rw [← s.outside_eq_filled hopen]
  refine ⟨head, payload, hhead, ?_, fun next => .declared rfl rfl, ?_⟩
  · rw [Serializer.outside, ← hopen]
    rfl
  · rintro reader rfl fuel hheight read skip scope type host rest names refs
    have hflat : (reader.shapes.resolve shape).isOption = false := (hroot _ (.here shape)).1
    have hreads := (Plain.rel_datum fuel hholds.resolved hheight _ _ _ hpayload).2
    rw [Read.content_ext hholds.resolved hflat, Read.take, hreads]

namespace Sample

/-- What a writer of drawings relies on, which have a layout of their own. -/
def painter : WriteEnv where
  config := ⟨false, false, .tracking, 5⟩
  registry := ⟨Registry.standard.specs ++
    [⟨some (.user "Drawing"), "Drawing", false, .ext (.id 1)⟩]⟩

/-- The figures in a drawing: dots, circles with a radius, and rectangles. -/
def figure : Shape :=
  .enum "Figure" [⟨"Dot", .unit⟩, ⟨"Circle", .newtype .float64⟩,
    ⟨"Rect", .struct [⟨"w", false, .int .uint16⟩, ⟨"h", false, .int .uint16⟩]⟩]

/-- Drawings have a name, may have a letter as a label, and hold figures. -/
def drawing : Shape :=
  .struct "Drawing" [⟨"name", false, .string⟩, ⟨"label", false, .option .char⟩,
    ⟨"figures", false, .list "figures" figure⟩]

/-- A drawing with a dot and a rectangle. -/
def art : Datum :=
  .struct "Drawing" [("name", .text "art"), ("label", .some (.char 'x')),
    ("figures", .seq true [.unitVariant "Figure" 0 "Dot",
      .structVariant "Figure" 2 "Rect" [("w", .int .uint16 3), ("h", .int .uint16 4)]])]

/-- The place of a drawing in a list. -/
def frame : Slot := ⟨.scalar (.user "Drawing") false, false, true⟩

/-- A serializer of a list of drawings that waits for the next one. -/
def easel : Serializer where
  tables := .empty
  buffer := [1]
  frames := [.sequence frame.type]
  pending := some frame
  plain := none
  depth := 0

/-- The figures of the drawing are held where figures are. -/
theorem holds_art : drawing.Holds [] art := by
  have hdot : figure.Holds [] (.unitVariant "Figure" 0 "Dot") := .unitVariant rfl (by decide)
  have hrect : figure.Holds []
      (.structVariant "Figure" 2 "Rect" [("w", .int .uint16 3), ("h", .int .uint16 4)]) := by
    refine .structVariant rfl (by decide) rfl fun part hpart => ?_
    rcases List.mem_pair.mp hpart with rfl | rfl <;> exact .int rfl
  refine .struct rfl fun part hpart => ?_
  simp only [List.zip_cons_cons, List.zip_nil_right, List.mem_cons, List.not_mem_nil, or_false]
    at hpart
  rcases hpart with rfl | rfl | rfl
  · exact .string "art"
  · exact .some (.char 'x')
  · refine .list (fun v hv => ?_) (.inl rfl)
    rcases List.mem_pair.mp hv with rfl | rfl
    · exact hdot
    · exact hrect

end Sample

/-- A drawing in a list is read back from behind its annotations. -/
theorem ext_round_trip_drawing :
    ∃ t, Serialize.datum Sample.painter Sample.art Sample.easel = .ok () t ∧
      ∃ head payload, t.buffer = [1] ++ (head ++ payload) ∧
        Serializer.Ready { t with pending := some Sample.frame } Sample.frame.place ∧
        ∀ rest, Read.content ⟨Sample.painter.config, Sample.painter.registry, [], []⟩ 9
          (Read.datumWithin ⟨Sample.painter.config, Sample.painter.registry, [], []⟩ 9)
          (Read.skipWithin ⟨Sample.painter.config, Sample.painter.registry, [], []⟩ 9) ⟨0, true⟩
          ⟨280, true, false, []⟩ (.ext (some (.user "Drawing"))) Sample.drawing
          ⟨payload ++ rest, [], []⟩ = .ok Sample.art ⟨rest, [], []⟩ := by
  have hwrite : ∃ t, Serialize.datum Sample.painter Sample.art Sample.easel = .ok () t := by
    have hok : (match Serialize.datum Sample.painter Sample.art Sample.easel with
      | .ok .. => true
      | .error .. => false) = true := by
      decide +kernel
    cases hresult : Serialize.datum Sample.painter Sample.art Sample.easel with
    | ok _ t => exact ⟨t, rfl⟩
    | error e t =>
      rw [hresult] at hok
      cases hok
  have hroot : ∀ root, Sample.drawing.Opens [] root → root.isOption = false ∧ root ≠ .char := by
    intro root hopens
    cases hopens with
    | here => exact ⟨rfl, nofun⟩
    | inside hshape => cases hshape
  have hresolve : Sample.painter.registry.resolve Sample.frame.type =
      .ok ⟨some (.user "Drawing"), "Drawing", false, .ext (.id 1)⟩ := rfl
  obtain ⟨t, ht⟩ := hwrite
  obtain ⟨head, payload, -, hstate, hnext, hread⟩ :=
    ext_round_trip hresolve rfl Sample.holds_art hroot rfl rfl ht
  refine ⟨t, ht, head, payload, ?_, hnext Sample.frame, fun rest => ?_⟩
  · rw [hstate]
    rfl
  · exact hread _ rfl 9 (by decide) _ _ _ _ _ rest [] []

end SchemaWire
