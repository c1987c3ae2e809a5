import SchemaWire.Proofs.Data.Enter
import SchemaWire.Proofs.Data.Fields
import SchemaWire.Proofs.Data.Scalars

/-!
# Values of types that their reader does not know

Where schemas travel, a reader passes over values of structs and of enums with names whether it
knows their types or not: the schemas say of what fields a struct is made, and of an enum only
the number of a variant is written.
-/

namespace SchemaWire

/-- A program with the given shapes holds the value in one of its types. -/
def Datum.Held (shapes : Shapes) (v : Datum) : Prop :=
  ∃ shape : Shape, shape.Holds shapes v

namespace Datum.Held

variable {shapes : Shapes} {v : Datum}

/-- A value that may be missing, but is not, is held. -/
theorem some (h : Held shapes (.some v)) : Held shapes v := by
  obtain ⟨shape, h⟩ := h
  generalize heq : Datum.some v = whole at h
  induction h with
  | user _ ih => exact ih heq
  | some h => cases heq; exact ⟨_, h⟩
  | _ => cases heq

/-- A wrapped value is held. -/
theorem newtype (h : Held shapes (.newtype v)) : Held shapes v := by
  obtain ⟨shape, h⟩ := h
  generalize heq : Datum.newtype v = whole at h
  induction h with
  | user _ ih => exact ih heq
  | newtype h => cases heq; exact ⟨_, h⟩
  | _ => cases heq

/-- Elements are held. -/
theorem items {sized : Bool} {content : List Datum} (h : Held shapes (.seq sized content)) :
    ∀ v ∈ content, Held shapes v := by
  obtain ⟨shape, h⟩ := h
  generalize heq : Datum.seq sized content = whole at h
  induction h with
  | user _ ih => exact ih heq
  | list h | set h => cases heq; exact fun v hmem => ⟨_, h v hmem⟩
  | _ => cases heq

/-- Keys and values are held. -/
theorem entries {sized : Bool} {content : List (Datum × Datum)}
    (h : Held shapes (.map sized content)) :
    ∀ entry ∈ content, Held shapes entry.1 ∧ Held shapes entry.2 := by
  obtain ⟨shape, h⟩ := h
  generalize heq : Datum.map sized content = whole at h
  induction h with
  | user _ ih => exact ih heq
  | map hkey hvalue =>
    cases heq
    exact fun entry hmem => ⟨⟨_, hkey entry hmem⟩, ⟨_, hvalue entry hmem⟩⟩
  | _ => cases heq

/-- Fields are held. -/
theorem fields {name : String} {content : List (String × Datum)}
    (h : Held shapes (.struct name content)) : ∀ field ∈ content, Held shapes field.2 := by
  obtain ⟨shape, h⟩ := h
  generalize heq : Datum.struct name content = whole at h
  induction h with
  | user _ ih => exact ih heq
  | struct hnames h =>
    cases heq
    intro field hfield
    obtain ⟨member, -, -, hheld⟩ := Shape.exists_holds_of_mem_fields hnames h hfield
    exact ⟨_, hheld⟩
  | _ => cases heq

/-- A number is one of its type. -/
theorem holds_int {t : IntType} {n : Int} (h : Held shapes (.int t n)) : t.holds n = true := by
  obtain ⟨shape, h⟩ := h
  generalize heq : Datum.int t n = whole at h
  induction h with
  | user _ ih => exact ih heq
  | int ht => cases heq; exact ht
  | _ => cases heq

/-- The number of a variant has 32 bits. -/
theorem index_lt {enum variant : String} {index : Nat}
    (h : Held shapes (.unitVariant enum index variant)) : index < 2 ^ 32 := by
  obtain ⟨shape, h⟩ := h
  generalize heq : Datum.unitVariant enum index variant = whole at h
  induction h with
  | user _ ih => exact ih heq
  | unitVariant _ hindex => cases heq; exact hindex
  | _ => cases heq

end Datum.Held

/-- Values of the type can be passed over by whoever has the schemas of the message: it is a builtin, a
struct with fields of such types, or an enum with a name. -/
inductive TypeSpec.Passable (hosts : HostType → Prop) (spec : TypeSpec) : Prop
  /-- A builtin is known by its kind. -/
  | builtin {kind : Kind} (h : spec.role = .builtin kind) (hkind : kind.isUser = false) :
    Passable hosts spec
  /-- A struct is known by its schema. -/
  | struct {registration : Registration} {fields : List FieldDescriptor}
    (h : spec.role = .struct registration fields)
    (hfields : ∀ field ∈ fields, field.type.Among hosts) : Passable hosts spec
  /-- An enum with a name is known by its schema. -/
  | enum {space name : String} (h : spec.role = .enum (.name space name)) : Passable hosts spec

/-- Values that can be passed over are laid out by their types. -/
theorem TypeSpec.Passable.layout {hosts : HostType → Prop} {spec : TypeSpec} (h : spec.Passable hosts)
    (type : FieldType) : Layout.of spec type = .typed spec type := by
  cases h with
  | builtin hrole | struct hrole | enum hrole => rw [Layout.of, hrole]

/-- The kind of such a type says whether it is a user type. -/
theorem TypeSpec.Passable.isUser_kind {hosts : HostType → Prop} {spec : TypeSpec}
    (h : spec.Passable hosts) (compatible : Bool) :
    (spec.kind compatible).isUser = spec.isUser := by
  cases h with
  | builtin hrole hkind =>
    rw [kind, isUser, registration?, hrole]
    exact hkind
  | @struct registration _ hrole =>
    rw [kind, isUser, registration?, hrole]
    cases compatible <;> cases registration <;> rfl
  | enum hrole =>
    rw [kind, isUser, registration?, hrole]
    rfl

namespace Peers

variable {peers : Peers} {hosts : HostType → Prop}

/-- Schemas travel, and those of the given types that are registered with the writer are types whose
values can be passed over. User types are registered, collections need not be. The reader need not
know them. -/
structure PassesOver (peers : Peers) (hosts : HostType → Prop) : Prop extends peers.Linked where
  /-- The reader goes at least as deep as the writer. -/
  depth : peers.write.config.maxDepth ≤ peers.read.config.maxDepth
  /-- Schemas travel. -/
  travels : peers.write.config.compatible = true
  /-- The types are registered, or collections. -/
  types : ∀ host, hosts host →
    (∃ spec, peers.write.registry.ofHost? host = some spec ∧ spec.Passable hosts) ∨
      host.isCollection = true ∧ peers.write.registry.ofHost? host = none

namespace PassesOver

variable (h : peers.PassesOver hosts)
include h

/-- Every declared type over the given types is registered with the writer. -/
theorem exists_passable {type : FieldType} (htype : type.Among hosts) :
    ∃ spec, peers.write.registry.resolve type = .ok spec ∧ spec.Passable hosts := by
  have hall : ∀ kind ∈ Registry.scalarBuiltins.map Prod.snd ++ Registry.otherBuiltins,
      kind.isUser = false := by
    decide
  rcases htype.cases with ⟨host, nullable, rfl, hhost⟩ | ⟨name, kind, hname, hsort, hgiven⟩
  · simp only [Registry.resolve_eq_ok_iff]
    rcases hhost.builtin_or_user with ⟨kind, hmem⟩ | ⟨name, rfl, hgiven⟩
    · obtain ⟨spec, hspec, hrole⟩ := h.written.exists_ofHost? hmem
      have hkind := List.mem_map_of_mem (f := Prod.snd) hmem
      exact ⟨spec, hspec, .builtin hrole (hall kind (List.mem_append_left _ hkind))⟩
    · rcases h.types _ hgiven with hspec | ⟨hcollection, -⟩
      · exact hspec
      · cases hcollection
  · rcases h.types _ hgiven with ⟨spec, hspec, hpass⟩ | ⟨-, hnone⟩
    · exact ⟨spec, Registry.resolve_of_ofHost? (hname ▸ hspec), hpass⟩
    · have hkind := FieldType.mem_of_sort? hsort
      obtain ⟨spec, hspec, hrole⟩ := h.written.exists_builtin? hkind
      exact ⟨spec, Registry.resolve_of_builtin? (hname ▸ hnone) hsort hspec,
        .builtin hrole (hall kind (List.mem_append_right _ hkind))⟩

/-- The given types are registered with the writer. -/
theorem sameRoles :
    peers.write.registry.SameRoles peers.write.registry (HostType.Among hosts)
      fun name => hosts (.collection name) where
  scalars host hhost := by
    have hscalar : (FieldType.scalar host false).Among hosts := hhost
    obtain ⟨spec, hspec, -⟩ := h.exists_passable hscalar
    have hfound := Registry.resolve_eq_ok_iff.mp hspec
    exact ⟨spec, spec, hfound, hfound, rfl⟩
  collections name hname :=
    (h.types _ hname).imp (fun ⟨spec, hspec, _⟩ => ⟨spec, spec, hspec, hspec, rfl⟩)
      fun ⟨_, hnone⟩ => ⟨hnone, hnone⟩

/-- What stands behind the flag of a value tells its type. -/
theorem exists_mirrors_info {spec : TypeSpec} (hmem : spec ∈ peers.write.registry.specs)
    (hspec : spec.Passable hosts) :
    ∃ resolved, peers.Describes spec resolved ∧
      peers.Mirrors (Write.info peers.write spec)
        (Read.info peers.read (spec.kind peers.write.config.compatible)) resolved := by
  have hkind := hspec.isUser_kind peers.write.config.compatible
  cases hspec with
  | builtin hrole huser => exact ⟨_, .builtin hrole, mirrors_info_of_builtin hrole huser⟩
  | struct hrole hfields =>
    have huser : spec.isUser = true := by
      rw [TypeSpec.isUser, TypeSpec.registration?, hrole]
      rfl
    obtain ⟨fields, hderived⟩ := Schema.exists_ofFields h.sameRoles h.written h.written hfields true
    rw [Write.info, Read.info, hkind, huser, if_pos rfl, if_pos rfl]
    exact h.exists_mirrors_struct hmem h.travels hrole hderived
  | enum hrole =>
    have huser : spec.isUser = true := by
      rw [TypeSpec.isUser, TypeSpec.registration?, hrole]
      rfl
    rw [Write.info, Read.info, hkind, huser, if_pos rfl, if_pos rfl]
    exact ⟨_, .enum hrole, h.mirrors_namedEnum hmem h.travels hrole⟩

end PassesOver

/-- What describes a builtin is its kind. -/
theorem Describes.eq_known {spec : TypeSpec} {resolved : Resolved} (h : peers.Describes spec resolved)
    {kind : Kind} (hrole : spec.role = .builtin kind) : resolved = .known kind := by
  cases h with
  | builtin hother => cases hother.symm.trans hrole; rfl
  | struct hother => cases hother.symm.trans hrole
  | enum hother => cases hother.symm.trans hrole
  | ext hother => cases hother.symm.trans hrole

/-- What describes an enum says that it is one. -/
theorem Describes.eq_enum {spec : TypeSpec} {resolved : Resolved} (h : peers.Describes spec resolved)
    {registration : Registration} (hrole : spec.role = .enum registration) : resolved = .enum := by
  cases h with
  | builtin hother => cases hother.symm.trans hrole
  | struct hother => cases hother.symm.trans hrole
  | enum hother => rfl
  | ext hother => cases hother.symm.trans hrole

/-- The fields of a struct are passed over, if each of them is. -/
theorem mirrors_skipFields {depth : Nat} {skip : WireType → Read Unit}
    {declared : List FieldDescriptor} {fields : List SchemaField} {content : List (String × Datum)}
    (hschema : Schema.ofFields peers.write.registry peers.write.config.compatible declared =
      .ok fields)
    (hskip : ∀ field ∈ declared, ∀ value, (field.name, value) ∈ content → ∀ wire,
      WireType.ofFieldType peers.write.registry peers.write.config.compatible field.type
        field.tracked = .ok wire →
      peers.Mirrors (Write.datum peers.write depth (.declared field.type field.tracked true) value)
        (skip wire) ()) :
    peers.Mirrors (Write.fields peers.write depth declared content) (Read.skipFields skip fields)
      () := by
  have hderived := Schema.forall₂_of_ofFields_ok hschema
  let none : List (Member Shape) := []
  let read : WireType → Shape → Read Datum := fun _ _ => throw .rejected
  have hkeys : (([] ++ Member.given (none.map Member.name) content).map Prod.fst).Nodup := by
    rw [List.map_nil, Member.given_nil]
    exact List.nodup_nil
  have hgives : List.Forall₂ (fun field made => ∀ value, (field.name, value) ∈ content →
      peers.Gives depth read skip none field made value) declared fields := by
    refine List.forall₂_iff_zip.mpr ⟨hderived.length_eq, fun {field made} hzip value hvalue => ?_⟩
    obtain ⟨hname, -, hwire⟩ := (List.forall₂_iff_zip.mp hderived).2 hzip
    exact ⟨hname, nofun, fun _ => hskip field (List.of_mem_zip hzip).1 value hvalue _ hwire⟩
  rw [Read.skipFields_eq read skip fields []]
  exact (mirrors_fields [] hgives hkeys).map fun _ => ()

/-- Passing over behind a number goes by the number. -/
theorem mirrors_size (peers : Peers) (sized : Bool) (n : Nat) :
    peers.Mirrors (Write.size sized n) (Read.take Varint.take32) n := by
  cases sized with
  | true => exact .size n
  | false => exact .throw _

namespace PassesOver

/-- With the given bound, values of the given types that are low enough are passed over. -/
def Below (peers : Peers) (hosts : HostType → Prop) (shapes : Shapes) (fuel : Nat) : Prop :=
  ∀ {v : Datum} {type : FieldType}, type.Among hosts → v.Held shapes →
    v.height + 1 < fuel → ∀ {tracked : Bool} {wire : WireType},
    WireType.ofFieldType peers.write.registry peers.write.config.compatible type tracked =
      .ok wire → ∀ (depth : Nat) (recording : Bool),
    peers.Mirrors (Write.datum peers.write depth (.declared type tracked true) v)
      (Read.skipWithin peers.read fuel ⟨depth, recording⟩ (.declared wire)) ()

variable {shapes : Shapes} {fuel depth : Nat} {tracked recording : Bool} {type : FieldType}
  {spec : TypeSpec} {wire : WireType} {resolved : Resolved}

/-- A value that is missing is passed over. -/
theorem mirrors_absent (hwire : WireType.ofFieldType peers.write.registry
    peers.write.config.compatible type tracked = .ok wire) :
    (v : Datum) → v.isPresent = false →
    peers.Mirrors (Write.datum peers.write depth (.declared type tracked true) v)
      (Read.skipWithin peers.read (fuel + 1) ⟨depth, recording⟩ (.declared wire)) ()
  | .none, _ => by
    rw [Write.datum]
    cases hnullable : type.nullable with
    | false => exact .throw _
    | true =>
      rw [Read.skipWithin]
      exact (mirrors_enter_null hnullable hwire recording).bind_nil fun _ => .pure ()
  | .some content, habsent => by
    rw [Write.datum]
    · exact mirrors_absent hwire content habsent
    · nofun
  | .newtype content, habsent => by
    rw [Write.datum]
    exact mirrors_absent hwire content habsent
  | .firstEntry .., _ | .choice _, _ | .absent, _ | .refused _, _ => by
    rw [Write.datum]
    exact .throw _

section Content

variable (hresolve : peers.write.registry.resolve type = .ok spec) (hpass : spec.Passable hosts)
  (htold : peers.Describes spec resolved)
include hresolve hpass htold

/-- A scalar is passed over by its kind. -/
theorem mirrors_scalar (kind : Kind) {plain typed : Write (List UInt8)}
    {skip : Scope → Spot → Read Unit} {scope : Scope}
    (htyped : peers.Mirrors typed
      (Read.skipKnown (fun type => skip scope (.declared type)) kind wire) ()) :
    peers.Mirrors (Write.scalar peers.write (.declared type tracked false) kind plain typed)
      (Read.skipContent peers.read fuel skip scope wire resolved) () := by
  rw [Write.scalar, Write.behind_declared hresolve, hpass.layout]
  dsimp only
  by_cases hrole : spec.role = .builtin kind
  · rw [if_pos hrole, htold.eq_known hrole]
    exact htyped
  · rw [if_neg hrole]
    exact .throw _

/-- A text is passed over by its length. -/
theorem mirrors_text (s : String) {skip : Scope → Spot → Read Unit} {scope : Scope} :
    peers.Mirrors (Write.text peers.write (.declared type tracked false) s)
      (Read.skipContent peers.read fuel skip scope wire resolved) () := by
  rw [Write.text]
  exact mirrors_scalar hresolve hpass htold .string
    (peers.carries_text peers.read (fun _ _ => throw .rejected) _ wire .string s rfl).skip

/-- The number of a variant is passed over. -/
theorem mirrors_unitVariant {enum variant : String} {index : Nat} (hindex : index < 2 ^ 32)
    {skip : Scope → Spot → Read Unit} {scope : Scope} :
    peers.Mirrors
      (Write.datum peers.write depth (.declared type tracked false) (.unitVariant enum index variant))
      (Read.skipContent peers.read fuel skip scope wire resolved) () := by
  rw [Write.datum, Write.behind_declared hresolve, hpass.layout]
  dsimp only
  cases hpass with
  | builtin hrole | struct hrole =>
    rw [hrole]
    exact .throw _
  | enum hrole =>
    rw [hrole, htold.eq_enum hrole]
    exact .pure fun _ => (Read.Reads.take (Varint.reads_take32 hindex)).bind_nil (.pure ())

variable (ih : Below peers hosts shapes fuel) (htype : type.Among hosts)
  (hwire : WireType.ofFieldType peers.write.registry peers.write.config.compatible type tracked =
    .ok wire)
include ih htype hwire

/-- Elements behind their number are passed over. -/
theorem mirrors_seq {sized : Bool} {items : List Datum} (hheld : ∀ v ∈ items, v.Held shapes)
    (hheight : Datum.heightOfItems items + 1 < fuel) :
    peers.Mirrors
      (Write.datum peers.write depth (.declared type tracked false) (.seq sized items))
      (Read.skipContent peers.read fuel (Read.skipWithin peers.read fuel) ⟨depth, recording⟩ wire
        resolved) () := by
  rw [Write.datum, Write.behind_declared hresolve, hpass.layout]
  dsimp only
  cases helement : spec.element? type with
  | none => exact .throw _
  | some element =>
    obtain ⟨hrole, name, nullable, htypes⟩ := TypeSpec.of_element?_eq_some helement
    have hamong : element.Among hosts := by
      rcases htypes with rfl | rfl <;> exact htype.2
    obtain ⟨inner, hargs, hinner⟩ : ∃ inner, wire.args = [inner] ∧
        WireType.ofFieldType peers.write.registry peers.write.config.compatible element false =
          .ok inner := by
      rcases htypes with rfl | rfl
      · exact WireType.argument_of_list hwire
      · exact WireType.argument_of_set hwire
    have hargument : Read.argument wire 0 = .ok inner := by
      rw [Read.argument, hargs]
      rfl
    have hskip := peers.pairing.times fun v hmem => ih hamong (hheld v hmem)
      (Nat.lt_of_le_of_lt (Nat.succ_le_succ (Datum.height_le_of_mem_items hmem)) hheight) hinner
      depth recording
    rcases hrole with hrole | hrole
    all_goals
      rw [htold.eq_known hrole]
      exact Mirrors.check hargument
        ((mirrors_size peers sized items.length).append (hskip.map fun _ => ()))

/-- Entries behind their number are passed over. -/
theorem mirrors_map {sized : Bool} {entries : List (Datum × Datum)}
    (hheld : ∀ entry ∈ entries, entry.1.Held shapes ∧ entry.2.Held shapes)
    (hheight : Datum.heightOfEntries entries + 1 < fuel) :
    peers.Mirrors
      (Write.datum peers.write depth (.declared type tracked false) (.map sized entries))
      (Read.skipContent peers.read fuel (Read.skipWithin peers.read fuel) ⟨depth, recording⟩ wire
        resolved) () := by
  rw [Write.datum, Write.behind_declared hresolve, hpass.layout]
  dsimp only
  cases hentry : spec.arguments? type with
  | none => exact .throw _
  | some types =>
    obtain ⟨key, value⟩ := types
    obtain ⟨hrole, name, nullable, rfl⟩ := TypeSpec.of_arguments?_eq_some hentry
    obtain ⟨keyType, valueType, hargs, hkeyType, hvalueType⟩ := WireType.arguments_of_map hwire
    have hargument : Read.argument wire 0 = .ok keyType ∧ Read.argument wire 1 = .ok valueType := by
      rw [Read.argument, Read.argument, hargs]
      exact ⟨rfl, rfl⟩
    have hlow (entry : Datum × Datum) (hmem : entry ∈ entries) :
        entry.1.height + 1 < fuel ∧ entry.2.height + 1 < fuel := by
      have hle := Datum.height_le_of_mem_entries hmem
      omega
    have hskip := peers.pairing.timesEntries
      (fun entry hmem => ih htype.2.1 (hheld entry hmem).1 (hlow entry hmem).1 hkeyType depth recording)
      fun entry hmem =>
        ih htype.2.2 (hheld entry hmem).2 (hlow entry hmem).2 hvalueType depth recording
    rw [htold.eq_known hrole]
    exact Mirrors.check hargument.1 (Mirrors.check hargument.2
      ((mirrors_size peers sized entries.length).append (hskip.map fun _ => ())))

omit htype hwire in
/-- The fields of a struct are passed over. -/
theorem mirrors_struct (h : peers.PassesOver hosts) {name : String}
    {content : List (String × Datum)} (hheld : ∀ field ∈ content, field.2.Held shapes)
    (hheight : Datum.heightOfFields content + 1 < fuel) :
    peers.Mirrors
      (Write.datum peers.write depth (.declared type tracked false) (.struct name content))
      (Read.skipContent peers.read fuel (Read.skipWithin peers.read fuel) ⟨depth, recording⟩ wire
        resolved) () := by
  rw [Write.datum, Write.behind_declared hresolve, hpass.layout]
  dsimp only
  cases hpass with
  | builtin hrole | enum hrole =>
    rw [hrole]
    exact .throw _
  | @struct registration declared hrole hdeclared =>
    obtain ⟨schema, rfl, hschema⟩ := htold.exists_schema hrole
    rw [hrole]
    dsimp only
    by_cases hdeep : peers.write.config.maxDepth < depth + 1
    · rw [if_pos hdeep]
      exact .throw _
    · have hdeeper := Scope.deeper_of_le h.depth hdeep recording
      have hfields := mirrors_skipFields hschema fun field hfield value hvalue wire hwire =>
        ih (hdeclared field hfield) (hheld _ hvalue)
          (Nat.lt_of_le_of_lt (Nat.succ_le_succ (Datum.height_le_of_mem_fields hvalue)) hheight) hwire
          (depth + 1) recording
      rw [if_neg hdeep]
      exact Mirrors.check hdeeper hfields

/-- What stands behind the annotations of a value is passed over. -/
theorem mirrors_content (h : peers.PassesOver hosts) :
    (v : Datum) → v.isPresent = true → v.Held shapes → v.height < fuel →
    peers.Mirrors (Write.datum peers.write depth (.declared type tracked false) v)
      (Read.skipContent peers.read fuel (Read.skipWithin peers.read fuel) ⟨depth, recording⟩ wire
        resolved) ()
  | .bool b, _, _, _ => by
    rw [Write.datum]
    exact mirrors_scalar hresolve hpass htold _
      (peers.carries_bool peers.read (fun _ _ => throw .rejected) _ wire b).skip
  | .int t n, _, hheld, _ => by
    rw [Write.datum]
    exact mirrors_scalar hresolve hpass htold _
      (peers.carries_int peers.read (fun _ _ => throw .rejected) _ wire hheld.holds_int).skip
  | .float32 bits, _, _, _ => by
    rw [Write.datum]
    exact mirrors_scalar hresolve hpass htold _
      (peers.carries_float32 peers.read (fun _ _ => throw .rejected) _ wire bits).skip
  | .float64 bits, _, _, _ => by
    rw [Write.datum]
    exact mirrors_scalar hresolve hpass htold _
      (peers.carries_float64 peers.read (fun _ _ => throw .rejected) _ wire bits).skip
  | .bytes content, _, _, _ => by
    rw [Write.datum]
    exact mirrors_scalar hresolve hpass htold _
      (peers.carries_bytes peers.read (fun _ _ => throw .rejected) _ wire .bytes content rfl).skip
  | .char c, _, _, _ => by
    rw [Write.datum]
    · exact mirrors_text hresolve hpass htold c.toString
    · nofun
  | .text s, _, _, _ => by
    rw [Write.datum]
    exact mirrors_text hresolve hpass htold s
  | .unit, _, _, _ | .tuple _, _, _, _ => by
    rw [Write.datum, Write.behind_declared hresolve, hpass.layout]
    exact .throw _
  | .newtypeVariant .., _, _, _ | .tupleVariant .., _, _, _ | .structVariant .., _, _, _ => by
    rw [Write.datum, Write.variant, Write.behind_declared hresolve, hpass.layout]
    exact .throw _
  | .some content, hpresent, hheld, hheight => by
    rw [Write.datum]
    · exact mirrors_content h content hpresent hheld.some (Nat.lt_of_succ_lt hheight)
    · nofun
  | .newtype content, hpresent, hheld, hheight => by
    rw [Write.datum]
    exact mirrors_content h content hpresent hheld.newtype (Nat.lt_of_succ_lt hheight)
  | .seq sized items, _, hheld, hheight =>
    mirrors_seq hresolve hpass htold ih htype hwire hheld.items hheight
  | .map sized entries, _, hheld, hheight =>
    mirrors_map hresolve hpass htold ih htype hwire hheld.entries hheight
  | .struct name content, _, hheld, hheight =>
    mirrors_struct hresolve hpass htold ih h hheld.fields hheight
  | .unitVariant enum index variant, _, hheld, _ =>
    mirrors_unitVariant hresolve hpass htold hheld.index_lt

end Content

/-- Values of the given types are passed over as far as the bound allows. -/
theorem below (h : peers.PassesOver hosts) (shapes : Shapes) (fuel : Nat) :
    Below peers hosts shapes fuel := by
  induction fuel with
  | zero =>
    intro v type htype hheld hheight
    cases hheight
  | succ fuel ih =>
    intro v type htype hheld hheight tracked wire hwire depth recording
    cases hpresent : v.isPresent with
    | false => exact mirrors_absent hwire v hpresent
    | true =>
      obtain ⟨spec, hresolve, hpass⟩ := h.exists_passable htype
      obtain ⟨resolved, htold, hinfo⟩ :=
        h.exists_mirrors_info (Registry.mem_of_resolve hresolve) hpass
      have henter := mirrors_enter hresolve (hpass.isUser_kind _) hwire hinfo recording
      rw [Write.datum_annotated hresolve depth tracked v hpresent, Read.skipWithin]
      exact henter.append (mirrors_content hresolve hpass htold ih htype hwire h v hpresent hheld
        (Nat.lt_of_succ_lt_succ hheight))

end PassesOver

end Peers

end SchemaWire
