import SchemaWire.Proofs.Message.Entrance
import SchemaWire.Proofs.Message.Session

/-!
# What is written need not be registered

A writer looks a type up where it writes a value of it. A reader looks up everything within the
expected type before it reads the value, and where schemas do not travel, everything within the
fields of a struct before it reads the struct. So an engine refuses messages of its own: those of
empty lists, for one, whose elements are of a type that is not registered. Nothing else stands
between a message and its value.
-/

namespace SchemaWire

/-- Where schemas travel, only structs over registered types are told of. -/
theorem Write.covers_of_typeInfo_ok {registry : Registry} (h : registry.WellFormed)
    {spec : TypeSpec} (hspec : spec ∈ registry.specs) {before after : WriteTables}
    {bytes : List UInt8} (hsound : before.Sound registry)
    (hok : typeInfo registry true spec before = .ok bytes after) :
    ∀ field ∈ spec.fields, registry.Covers field.type := by
  cases hrole : spec.role with
  | builtin kind | enum registration | ext registration =>
    rw [TypeSpec.fields, hrole]
    exact nofun
  | struct registration declared =>
    have hrefers : (spec.kind true).refersToSchema true = true := by
      rw [TypeSpec.kind, hrole]
      cases registration <;> rfl
    rw [typeInfo, if_pos hrefers] at hok
    obtain ⟨index, between, hqueued, hok⟩ := exists_of_bind_ok hok
    have hbetween := (keeps_queueSchema hspec _ _ _ hqueued).sound hsound
    -- The type may have been queued before, and its schema was derived then.
    obtain ⟨queued, hindex, hhost, -⟩ := exists_queued_of_queueSchema_ok hqueued
    obtain ⟨own, hown, hsame, schema, hschema, -⟩ :=
      hbetween.queue queued (List.mem_of_getElem? hindex)
    cases h.eq_of_host_eq hspec hown hhost hsame
    exact Schema.covers_of_ofFields_ok (Schema.fields_of_ofSpec_ok hschema)

namespace Engine

variable {engine : Engine} {hosts : HostType → Prop} {shape : Shape} {v : Datum}

/-- The types of an engine were registered one after the other, and those of the given ones that are
registered suit their shapes. -/
structure Fitted (engine : Engine) (hosts : HostType → Prop) : Prop where
  /-- The types were registered one after the other. -/
  built : engine.registry.Built
  /-- The registry is not too large. -/
  addressable : engine.registry.Addressable
  /-- The role of a registered type suits it. -/
  suits : ∀ host spec, hosts host → engine.registry.ofHost? host = some spec →
    spec.role.Suits engine.shapes hosts host

/-- The fields of the registered structs among the given types are of registered types. -/
def CoversFields (engine : Engine) (hosts : HostType → Prop) : Prop :=
  ∀ host spec, hosts host → engine.registry.ofHost? host = some spec →
    ∀ field ∈ spec.fields, engine.registry.Covers field.type

/-- An engine matches itself, as far as no types are asked for. -/
theorem Fitted.matches_self (h : engine.Fitted hosts) : engine.Matches engine fun _ => False where
  xlang := rfl
  compatible := rfl
  refMode := rfl
  depth := Nat.le_refl _
  written := h.built
  own := h.built
  addressable := h.addressable
  types := nofun

/-- An engine has the schemas of its own messages. -/
theorem Fitted.linked (h : engine.Fitted hosts) {schemas : List Schema} {queue : SchemaQueue}
    (hannounced : engine.config.compatible = true → engine.registry.Announces schemas queue) :
    (engine.peers engine schemas queue).Linked where
  compatible := rfl
  written := h.built.wellFormed
  own := h.built.wellFormed
  addressable := h.addressable
  announced := hannounced

/-- An engine concurs with itself on every message, if schemas travel or if the fields of structs
are of registered types. -/
theorem Fitted.concur (h : engine.Fitted hosts)
    (hfields : engine.config.compatible = true ∨ engine.CoversFields hosts)
    {schemas : List Schema} {queue : SchemaQueue}
    (hannounced : engine.config.compatible = true → engine.registry.Announces schemas queue) :
    (engine.peers engine schemas queue).Concur hosts := by
  refine { h.linked hannounced with depth := Nat.le_refl _, suits := h.suits, told := ?_ }
  intro host spec hhost hspec before bytes after hsound hok
  have hmem := Registry.mem_of_ofHost? hspec
  refine (h.linked hannounced).exists_mirrors_typeInfo_of_own rfl h.built hmem ?_
  rcases hfields with htravels | hcovers
  · have hok : Write.typeInfo engine.registry engine.config.compatible spec before =
        .ok bytes after := hok
    rw [htravels] at hok
    exact Write.covers_of_typeInfo_ok h.built.wellFormed hmem hsound hok
  · exact hcovers host spec hhost hspec

/-- A value that is written although not all types within its own are registered is one of a
collection, which is not registered as a struct. -/
theorem Fitted.fields_of_not_covers (h : engine.Fitted hosts) (hshape : shape.Declarable hosts)
    (hholds : shape.Holds engine.shapes v) (hv : shape.isOption = true → v ≠ .none)
    {spec : TypeSpec} (hresolve : engine.registry.resolve shape.declared = .ok spec)
    (hnot : ¬engine.registry.Covers shape.declared) : spec.fields = [] := by
  rcases Registry.of_resolve_ok hresolve with hspec | ⟨-, kind, -, hbuiltin⟩
  · rcases hshape.among.cases with ⟨host, nullable, hdeclared, -⟩ | ⟨name, kind, hhost, -, hname⟩
    · rw [hdeclared] at hspec hnot
      exact absurd (Option.isSome_iff_exists.mpr ⟨spec, hspec⟩) hnot
    rw [hhost] at hspec
    obtain ⟨own, hagrees, hown⟩ := hshape.exists_agrees hholds hv hhost
    have hne (other : String) : own ≠ .user other := by
      rintro rfl
      cases hown
    have hsuits := h.suits _ spec hname hspec
    have hfits : spec.role.Fits engine.shapes hosts (engine.shapes.resolve (.user name)) :=
      hsuits.fits
    rw [hagrees.resolve_eq (hsuits.known rfl) hne] at hfits
    rw [TypeSpec.fields]
    revert hfits
    generalize spec.role = role
    intro hfits
    cases hfits with
    | struct => cases hown
    | enum | ext => rfl
  · rw [TypeSpec.fields, Registry.role_of_builtin? hbuiltin]

/-- The reader that comes to the data of a value reads the value. -/
theorem Entrance.exists_decode_ok {bytes : List UInt8}
    (e : Entrance engine engine hosts engine.config.maxDepth shape.declared v bytes)
    (hshape : shape.Declarable hosts) (hholds : shape.Holds engine.shapes v)
    (hv : shape.isOption = true → v ≠ .none) (label : String) (context : ReadContext) :
    ∃ kept, engine.decode ⟨label, shape.declared, shape⟩ ⟨bytes, context⟩ = .ok v ⟨[], kept⟩ := by
  have hopened : (engine.peers engine e.schemas e.after.queue).Opened shape shape.declared e.spec
      e.type e.resolved :=
    ⟨.inl rfl, e.registered, ⟨false, e.derived⟩, e.told⟩
  have hmirrors := e.concur.mirrors_data hshape hholds hv (Nat.lt_succ_self (v.height + 1)) hopened
  obtain ⟨refs, hread⟩ := hmirrors.reads _ _ _ e.sound (List.prefix_refl _) e.data [] e.start.refs
  rw [List.append_nil, ← e.sameNames] at hread
  exact ⟨_, (e.decode_eq_ok_iff label shape context).mpr ⟨_, ⟨_, hread⟩, rfl, rfl⟩⟩

/-- The reader of a message that is not null fails for the expected type, if one within it is not
registered. -/
theorem Fitted.exists_decode_unregistered (h : engine.Fitted hosts) (hshape : shape.Declarable hosts)
    (hholds : shape.Holds engine.shapes v) {before after : WriteTables} {message : Message}
    (hencode : engine.encode shape.declared v before = .ok message after)
    (hvalue : (shape.declared.nullable && v.isNull) = false)
    (hnot : ¬engine.registry.Covers shape.declared) (label : String) (context : ReadContext) :
    ∃ host kept, engine.registry.ofHost? host = none ∧
      engine.decode ⟨label, shape.declared, shape⟩ ⟨message.toList, context⟩ =
        .error (.unregistered host.label) ⟨[], kept⟩ := by
  have hsame : (engine.limited engine.config.maxDepth).encode shape.declared v before =
      .ok message after := hencode
  obtain ⟨schemas, spec, info, between, data, recorded, refs, hannounced, hresolve, hinfo, hdata,
    hread⟩ := h.matches_self.exists_decodeWithin_eq hsame hvalue
  have hfields : spec.fields = [] :=
    h.fields_of_not_covers hshape hholds (hshape.ne_none hvalue) hresolve hnot
  -- The type information of the value is understood: it is the value's type that is refused.
  obtain ⟨resolved, -, hmirrors⟩ := (h.linked hannounced).exists_mirrors_typeInfo_of_own rfl h.built
    (Registry.mem_of_resolve hresolve) (hfields ▸ List.forall_mem_nil _)
  obtain ⟨host, hnone, herror⟩ :=
    WireType.exists_unregistered h.built.wellFormed hnot engine.config.compatible false
  have hkeeps : Write.Keeps engine.registry (Write.datum
      (WriteEnv.limited ⟨engine.config, engine.registry⟩ engine.config.maxDepth) 0
      (.declared shape.declared false false) v) :=
    Write.keeps_datum _ _ _
  obtain ⟨told, hdecode⟩ := exists_decodeValue_eq hmirrors hinfo (hkeeps _ _ _ hdata).queue data
    recorded refs
  have hfails : engine.decodeValue 0 ⟨label, shape.declared, shape⟩ schemas recorded
      ⟨info ++ data, [], refs⟩ =
        .error (.unregistered host.label) ⟨data, between.names, told⟩ := by
    rw [hdecode, herror]
    rfl
  obtain ⟨kept, hleft⟩ := exists_decode_error_of_goesOn (fun n => hread n _ context) hfails nofun
  exact ⟨host, kept, hnone, hleft⟩

end Engine

/-- An engine reads back what it wrote, if the value is missing, or if all types within the declared
type are registered and either schemas travel or the fields of structs are of registered types as
well. It refuses every other value that is not missing for a type within the declared type that is
not registered. -/
theorem resolved_before_read {engine : Engine} {hosts : HostType → Prop} (h : engine.Fitted hosts)
    {shape : Shape} (hshape : shape.Declarable hosts) {v : Datum}
    (hholds : shape.Holds engine.shapes v) {before after : WriteTables} {message : Message}
    (hencode : engine.encode shape.declared v before = .ok message after) (label : String)
    (context : ReadContext) :
    ((shape.declared.nullable && v.isNull) = true ∨
        engine.registry.Covers shape.declared ∧
          (engine.config.compatible = true ∨ engine.CoversFields hosts) →
      ∃ kept, engine.decode ⟨label, shape.declared, shape⟩ ⟨message.toList, context⟩ =
        .ok v ⟨[], kept⟩) ∧
    ((shape.declared.nullable && v.isNull) = false → ¬engine.registry.Covers shape.declared →
      ∃ host kept, engine.registry.ofHost? host = none ∧
        engine.decode ⟨label, shape.declared, shape⟩ ⟨message.toList, context⟩ =
          .error (.unregistered host.label) ⟨[], kept⟩) := by
  refine ⟨fun hread => ?_, fun hvalue hnot =>
    h.exists_decode_unregistered hshape hholds hencode hvalue hnot label context⟩
  cases hvalue : shape.declared.nullable && v.isNull with
  | true =>
    exact ⟨_, h.matches_self.decodeWith_of_missing hshape hholds hencode hvalue _ label context⟩
  | false =>
    rw [hvalue] at hread
    obtain ⟨hcovers, hfields⟩ := hread.resolve_left Bool.false_ne_true
    have hformed := h.built.wellFormed
    obtain ⟨wire, hwire⟩ := WireType.exists_ofFieldType engine.registry.sameRoles_self hformed
      hformed hcovers engine.config.compatible false
    obtain ⟨e⟩ : Nonempty (Engine.Entrance engine engine hosts engine.config.maxDepth shape.declared
        v message.toList) :=
      h.matches_self.exists_entrance_of_concur (fun _ _ => h.concur hfields) hshape.among hwire
        hwire hencode hvalue
    exact e.exists_decode_ok hshape hholds (hshape.ne_none hvalue) label context

namespace Sample

/-- A registry with shelves, which are structs with a list of books. Books are not registered. -/
def shelves : Registry where
  specs := Registry.standard.specs ++
    [⟨some (.user "Shelf"), "Shelf", false,
      .struct (.id 1) [⟨"books", .list "books" (.scalar (.user "Book") false) false, false⟩]⟩]

/-- An engine for shelves, whose schemas may travel. -/
def librarian (compatible : Bool) : Engine where
  config := ⟨false, compatible, .none, 5⟩
  registry := shelves
  shapes := [("Shelf", .struct "Shelf" [⟨"books", false, .list "books" (.user "Book")⟩])]

/-- The registry of shelves is built by one registration. -/
theorem built_shelves : shelves.Built := by
  have hadded : Registry.standard.registerStruct (.user "Shelf") (.id 1)
      [⟨"books", .list "books" (.scalar (.user "Book") false) false, false⟩] = .ok shelves := rfl
  exact .struct .standard hadded

/-- The registry of shelves is not too large. -/
theorem addressable_shelves : shelves.Addressable := by
  decide +kernel

/-- Shelves and books, and lists of them. -/
def stock : List HostType :=
  [.user "Shelf", .user "Book", .collection "books", .collection "shelves"]

/-- Shelves suit their shape, and nothing has to be said of books and of lists. -/
theorem fitted_librarian (compatible : Bool) : (librarian compatible).Fitted (· ∈ stock) where
  built := built_shelves
  addressable := addressable_shelves
  suits := by
    intro host spec hhost hspec
    simp only [stock, List.mem_cons, List.not_mem_nil, or_false] at hhost
    rcases hhost with rfl | rfl | rfl | rfl
    · cases hspec
      refine ⟨.struct rfl fun member hmember => ?_, nofun⟩
      rw [List.mem_singleton.mp hmember]
      exact .list (by decide) (.user (by decide))
    all_goals cases hspec

end Sample

/-- Where schemas travel, an empty list of shelves is read back, although the books on a shelf are
not registered. An empty list of books is refused. -/
theorem resolved_before_read_librarian :
    (∃ message after kept,
      (Sample.librarian true).encode (.list "shelves" (.scalar (.user "Shelf") false) false) (.seq true [])
        .empty = .ok message after ∧
      (Sample.librarian true).decode ⟨"list", .list "shelves" (.scalar (.user "Shelf") false) false,
        .list "shelves" (.user "Shelf")⟩ ⟨message.toList, .empty⟩ = .ok (.seq true []) ⟨[], kept⟩) ∧
    ∃ message after host kept,
      (Sample.librarian true).encode (.list "books" (.scalar (.user "Book") false) false) (.seq true [])
        .empty = .ok message after ∧
      (Sample.librarian true).decode ⟨"list", .list "books" (.scalar (.user "Book") false) false,
        .list "books" (.user "Book")⟩ ⟨message.toList, .empty⟩ =
          .error (.unregistered host) ⟨[], kept⟩ := by
  have hshelves : (Shape.list "shelves" (.user "Shelf")).Declarable (· ∈ Sample.stock) :=
    .list (by decide) (.user (by decide))
  have hbooks : (Shape.list "books" (.user "Book")).Declarable (· ∈ Sample.stock) :=
    .list (by decide) (.user (by decide))
  have hheld : (Shape.list "shelves" (.user "Shelf")).Holds (Sample.librarian true).shapes
      (.seq true []) :=
    .list nofun (.inl rfl)
  have hnone : (Shape.list "books" (.user "Book")).Holds (Sample.librarian true).shapes
      (.seq true []) :=
    .list nofun (.inl rfl)
  obtain ⟨message, after, hencode, other, last, hother⟩ : ∃ message after,
      (Sample.librarian true).encode (.list "shelves" (.scalar (.user "Shelf") false) false) (.seq true [])
        .empty = .ok message after ∧ ∃ other last,
      (Sample.librarian true).encode (.list "books" (.scalar (.user "Book") false) false) (.seq true [])
        .empty = .ok other last :=
    ⟨_, _, rfl, _, _, rfl⟩
  obtain ⟨kept, hread⟩ := (resolved_before_read (Sample.fitted_librarian true) hshelves hheld hencode
    "list" .empty).1 (.inr ⟨by decide, .inl rfl⟩)
  obtain ⟨host, left, -, hrefused⟩ := (resolved_before_read (Sample.fitted_librarian true) hbooks
    hnone hother "list" .empty).2 rfl (by decide)
  exact ⟨⟨message, after, kept, hencode, hread⟩, other, last, host.label, left, hother, hrefused⟩

/-- An empty list of books is written, and so is a shelf without books where schemas do not travel.
Neither is read back, because books are not registered. -/
theorem written_never_resolved :
    (∃ message after left,
      (Sample.librarian false).encode (.list "books" (.scalar (.user "Book") false) false) (.seq true [])
        .empty = .ok message after ∧
      (Sample.librarian false).decode ⟨"list", .list "books" (.scalar (.user "Book") false) false,
        .list "books" (.user "Book")⟩ ⟨message.toList, .empty⟩ = .error (.unregistered "Book") left) ∧
    ∃ message after left,
      (Sample.librarian false).encode (.scalar (.user "Shelf") false)
        (.struct "Shelf" [("books", .seq true [])]) .empty = .ok message after ∧
      (Sample.librarian false).decode ⟨"Shelf", .scalar (.user "Shelf") false, .user "Shelf"⟩
        ⟨message.toList, .empty⟩ = .error (.unregistered "Book") left := by
  have hbooks : ∃ left, (Sample.librarian false).decodeWithin 0 ⟨"list",
      .list "books" (.scalar (.user "Book") false) false, .list "books" (.user "Book")⟩ ⟨[2, 21, 0], .empty⟩ =
        .error (.unregistered "Book") left :=
    ⟨_, rfl⟩
  have hshelf : ∃ left, (Sample.librarian false).decodeWithin 0 ⟨"Shelf",
      .scalar (.user "Shelf") false, .user "Shelf"⟩ ⟨[2, 143, 2, 0], .empty⟩ =
        .error (.unregistered "Book") left :=
    ⟨_, rfl⟩
  obtain ⟨left, hbooks⟩ := hbooks
  obtain ⟨last, hshelf⟩ := hshelf
  exact ⟨⟨⟨[[2, 21, 0]]⟩, _, left, rfl, Engine.decode_eq_error hbooks nofun⟩,
    ⟨[[2, 143, 2, 0]]⟩, _, last, rfl, Engine.decode_eq_error hshelf nofun⟩

end SchemaWire
