import SchemaWire.Proofs.Data.Asking
import SchemaWire.Proofs.Data.Enter
import SchemaWire.Proofs.Data.Fields
import SchemaWire.Proofs.Data.Scalars

/-!
# What is written is read

A value that a program holds in a shape is read back by that shape, and passed over by whoever
does not ask for it. The argument goes by the bound on how deep the reading goes: what a value
holds is lower than the value, so the reader has enough left for it.
-/

namespace SchemaWire

/-- A type that is registered for a declared type is found, whether its values may be missing or
not. -/
theorem Registry.resolve_of_declared {registry : Registry} {shape : Shape} {type : FieldType}
    {spec : TypeSpec} (hdeclared : type = shape.declared ∨ type = shape.declared.orNull)
    (hspec : registry.ofHost? shape.declared.host = some spec) : registry.resolve type = .ok spec := by
  rcases hdeclared with rfl | rfl
  · exact resolve_of_ofHost? hspec
  · rw [← FieldType.host_orNull] at hspec
    exact resolve_of_ofHost? hspec

/-- A user type is registered by its name, whether its values may be missing or not. -/
theorem Registry.ofHost?_eq_of_declared {registry : Registry} {name : String} {type : FieldType}
    {spec : TypeSpec}
    (hdeclared : type = (Shape.user name).declared ∨ type = (Shape.user name).declared.orNull)
    (hregistered : registry.resolve type = .ok spec) :
    registry.ofHost? (.user name) = some spec := by
  have hspec := resolve_eq_ok_iff.mp hregistered
  rcases hdeclared with rfl | rfl <;> exact hspec

namespace Peers

variable {peers : Peers} {hosts : HostType → Prop}

/-- The annotations of a value of the shape were read: what the value is declared as, which may
allow it to be missing, what it is registered as, and what the reader was told of it. -/
structure Opened (peers : Peers) (shape : Shape) (type : FieldType) (spec : TypeSpec)
    (wire : WireType) (resolved : Resolved) : Prop where
  /-- The type is declared. -/
  declared : type = shape.declared ∨ type = shape.declared.orNull
  /-- The type is registered. -/
  registered : peers.write.registry.resolve type = .ok spec
  /-- The wire type is derived. -/
  derived : ∃ tracked,
    WireType.ofFieldType peers.write.registry peers.write.config.compatible type tracked = .ok wire
  /-- The reader was told. -/
  told : peers.Describes spec resolved

/-- With the given bound, values that are low enough are carried over: from in front of their
annotations, and from behind them if they are not missing. -/
structure Follows (peers : Peers) (hosts : HostType → Prop) (fuel : Nat) : Prop where
  /-- From in front of the annotations. -/
  declared : ∀ {shape : Shape} {v : Datum}, shape.Declarable hosts →
    shape.Holds peers.read.shapes v → v.height + 1 < fuel →
    ∀ {tracked : Bool} {wire : WireType},
    WireType.ofFieldType peers.write.registry peers.write.config.compatible shape.declared tracked =
      .ok wire → ∀ (depth : Nat) (recording : Bool),
    peers.Carries
      (Write.datum peers.write depth (.declared shape.declared tracked true) v)
      (Read.datumWithin peers.read fuel ⟨depth, recording⟩ (.declared wire) shape)
      (Read.skipWithin peers.read fuel ⟨depth, recording⟩ (.declared wire)) v
  /-- From behind the annotations. -/
  entered : ∀ {shape : Shape} {v : Datum}, shape.Declarable hosts → shape.isOption = false →
    shape.Holds peers.read.shapes v → v.height + 1 < fuel →
    ∀ {type : FieldType} {spec : TypeSpec} {wire : WireType} {resolved : Resolved},
    peers.Opened shape type spec wire resolved → ∀ (depth : Nat) (tracked recording : Bool),
    peers.Carries
      (Write.datum peers.write depth (.declared type tracked false) v)
      (Read.datumWithin peers.read fuel ⟨depth, recording⟩ (.entered wire resolved) shape)
      (Read.skipWithin peers.read fuel ⟨depth, recording⟩ (.entered wire resolved)) v

/-- Entering a value behind its annotations takes nothing. -/
theorem Opened.reads_enter {shape : Shape} {type : FieldType} {spec : TypeSpec} {wire : WireType}
    {resolved : Resolved} (h : peers.Opened shape type spec wire resolved) (recording : Bool)
    (table : Name.Table) :
    (Read.enter peers.read recording (.entered wire resolved)).Reads table []
      (.value wire resolved) table := by
  obtain ⟨flagged, hwire⟩ := h.derived
  obtain ⟨own, hown, hid, -⟩ := WireType.of_ofFieldType_ok hwire
  have hkind := own.kindOf_typeId peers.write.config.compatible
  rw [← hid] at hkind
  exact .ofExcept_bind hkind (.pure _)

/-- A type that is resolved to a builtin is described by its kind. -/
theorem Opened.of_builtin {shape : Shape} {type : FieldType} {spec own : TypeSpec}
    {wire : WireType} {resolved : Resolved} (h : peers.Opened shape type spec wire resolved)
    (hown : peers.write.registry.ofType? type = some own) {kind : Kind}
    (hrole : own.role = .builtin kind) : spec.role = .builtin kind ∧ resolved = .known kind := by
  have hspec := Registry.resolve_eq_ok_iff.mp h.registered
  cases hspec.symm.trans hown
  refine ⟨hrole, ?_⟩
  cases h.told with
  | builtin hother =>
    cases hother.symm.trans hrole
    rfl
  | struct hother => cases hother.symm.trans hrole
  | enum hother => cases hother.symm.trans hrole
  | ext hother => cases hother.symm.trans hrole

end Peers

namespace Write

variable {env : WriteEnv} {type : FieldType} {spec : TypeSpec}

/-- Values of builtin types are laid out by their types. -/
theorem layout_of_builtin {kind : Kind} (hrole : spec.role = .builtin kind) :
    Layout.of spec type = .typed spec type := by
  rw [Layout.of, hrole]

/-- A struct of a declared type is written field by field, unless it is too deep. -/
theorem datum_of_struct (hspec : env.registry.resolve type = .ok spec)
    {registration : Registration} {declared : List FieldDescriptor}
    (hrole : spec.role = .struct registration declared) (depth : Nat) (tracked : Bool)
    (name : String) (content : List (String × Datum)) :
    datum env depth (.declared type tracked false) (.struct name content) =
      if env.config.maxDepth < depth + 1 then throw (.depthExceeded env.config.maxDepth)
      else fields env (depth + 1) declared content := by
  have hlayout : Layout.of spec type = .typed spec type := by
    rw [Layout.of, hrole]
  rw [datum, behind_declared hspec, hlayout]
  simp only [hrole]

/-- A field of a struct that is written is not left out, and it is the one declared next. -/
theorem exists_of_fields_cons_ok {depth : Nat} {declared : List FieldDescriptor} {name : String}
    {value : Datum} {rest : List (String × Datum)} {before after : WriteTables} {bytes : List UInt8}
    (h : fields env depth declared ((name, value) :: rest) before = .ok bytes after) :
    value ≠ .absent ∧ ∃ field others front between back,
      declared = field :: others ∧ field.name = name ∧ bytes = front ++ back ∧
        datum env depth (.declared field.type field.tracked true) value before = .ok front between ∧
          fields env depth others rest between = .ok back after := by
  by_cases habsent : value = .absent
  · subst habsent
    cases declared <;> cases h
  refine ⟨habsent, ?_⟩
  cases declared with
  | nil =>
    rw [fields_nil_cons habsent] at h
    cases h
  | cons field others =>
    rw [fields_cons habsent] at h
    by_cases hname : field.name = name
    · rw [if_neg (not_not_intro hname)] at h
      obtain ⟨front, between, hvalue, h⟩ := exists_of_bind_ok h
      obtain ⟨back, last, hrest, h⟩ := exists_of_bind_ok h
      cases h
      exact ⟨field, others, front, between, back, rfl, hname, rfl, hvalue, hrest⟩
    · rw [if_pos hname] at h
      cases h

/-- The fields of a struct that is written are the declared ones. -/
theorem names_of_fields_ok {depth : Nat} {declared : List FieldDescriptor}
    {content : List (String × Datum)} {before after : WriteTables} {bytes : List UInt8}
    (h : fields env depth declared content before = .ok bytes after) :
    declared.map FieldDescriptor.name = content.map Prod.fst := by
  induction content generalizing declared before after bytes with
  | nil =>
    cases declared with
    | nil => rfl
    | cons => rw [fields] at h; cases h
  | cons first rest ih =>
    obtain ⟨-, field, others, front, between, back, rfl, hname, -, -, hrest⟩ :=
      exists_of_fields_cons_ok h
    rw [List.map_cons, List.map_cons, ih hrest, hname]

/-- The first of the declared fields are written for the first fields, and the others behind them. -/
theorem exists_of_fields_append_ok {depth : Nat} {declared others : List FieldDescriptor}
    {content : List (String × Datum)} {before after : WriteTables} {bytes : List UInt8}
    (h : fields env depth (declared ++ others) content before = .ok bytes after) :
    ∃ first rest front between back, content = first ++ rest ∧ first.length = declared.length ∧
      bytes = front ++ back ∧ fields env depth declared first before = .ok front between ∧
        fields env depth others rest between = .ok back after := by
  induction declared generalizing content before bytes with
  | nil => exact ⟨[], content, [], before, bytes, rfl, rfl, rfl, by rw [fields]; rfl, h⟩
  | cons field declared ih =>
    cases content with
    | nil =>
      rw [List.cons_append, fields] at h
      cases h
    | cons part content =>
      obtain ⟨name, value⟩ := part
      obtain ⟨habsent, own, next, bytes, middle, tail, heq, hname, rfl, hvalue, htail⟩ :=
        exists_of_fields_cons_ok h
      obtain ⟨rfl, rfl⟩ := List.cons.inj heq
      obtain ⟨first, rest, front, between, back, rfl, hlength, rfl, hfront, hback⟩ := ih htail
      refine ⟨(name, value) :: first, rest, bytes ++ front, between, back, rfl,
        congrArg Nat.succ hlength, (List.append_assoc _ _ _).symm, ?_, hback⟩
      rw [fields_cons habsent, if_neg (not_not_intro hname)]
      exact (bind_of_ok hvalue).trans (bind_of_ok hfront)

/-- A scalar of a builtin type is written as what it is. -/
theorem scalar_declared (hspec : env.registry.resolve type = .ok spec) {kind : Kind}
    (hrole : spec.role = .builtin kind) (tracked : Bool) (plain typed : Write (List UInt8)) :
    scalar env (.declared type tracked false) kind plain typed = typed := by
  rw [scalar, behind_declared hspec, layout_of_builtin hrole]
  exact if_pos hrole

end Write

/-- A value with a layout of its own is read plainly by the shape that holds it. -/
theorem Read.content_ext {env : ReadEnv} {shape : Shape} {v : Datum}
    (hholds : shape.Holds env.shapes v) (hflat : shape.isOption = false) {fuel : Nat}
    {read : Scope → Spot → Shape → Read Datum} {skip : Scope → Spot → Read Unit} {scope : Scope}
    {type : WireType} {host : Option HostType} :
    content env fuel read skip scope type (.ext host) shape =
      take (Take.plainWithin env.shapes fuel shape) := by
  cases hholds with
  | none content | some hcontent => cases hflat
  | _ => rfl

/-- A shape that holds a value is not refused, so reading it starts with the annotations. -/
theorem Read.datumWithin_succ {env : ReadEnv} {shape : Shape} {v : Datum}
    (hholds : shape.Holds env.shapes v) (fuel : Nat) (scope : Scope) (spot : Spot) :
    datumWithin env (fuel + 1) scope spot shape = (do
      match ← enter env scope.recording spot with
      | .null => MonadExcept.ofExcept (missing (env.shapes.resolve shape))
      | .ref entry =>
        again entry fun spot => datumWithin env fuel { scope with recording := false } spot
          (env.shapes.resolve shape)
      | .value type resolved =>
        content env fuel (datumWithin env fuel) (skipWithin env fuel) scope type resolved
          (env.shapes.resolve shape)) := by
  have hresolved := hholds.resolved
  rw [datumWithin]
  generalize env.shapes.resolve shape = own at hresolved
  cases hresolved <;> rfl

namespace Peers

variable {peers : Peers} {hosts : HostType → Prop}

namespace Follows

variable {fuel : Nat} (ih : peers.Follows hosts fuel)
include ih

/-- What a value holds is carried over: the value is higher. -/
theorem carries_below {element : Shape} (hdeclarable : element.Declarable hosts) {inner : WireType}
    (hinner : WireType.ofFieldType peers.write.registry peers.write.config.compatible
      element.declared false = .ok inner) {v : Datum} (hholds : element.Holds peers.read.shapes v)
    {height : Nat} (hle : v.height ≤ height) (hheight : height + 1 < fuel) (depth : Nat)
    (recording : Bool) :
    peers.Carries (Write.datum peers.write depth (.declared element.declared false true) v)
      (Read.datumWithin peers.read fuel ⟨depth, recording⟩ (.declared inner) element)
      (Read.skipWithin peers.read fuel ⟨depth, recording⟩ (.declared inner)) v :=
  ih.declared hdeclarable hholds (Nat.lt_of_le_of_lt (Nat.succ_le_succ hle) hheight) hinner depth
    recording

/-- Elements behind their number are carried over. -/
theorem carries_seq {shape element : Shape} {wire inner : WireType} {items : List Datum}
    (hdeclarable : element.Declarable hosts)
    (hitems : ∀ v ∈ items, element.Holds peers.read.shapes v)
    (hheight : Datum.heightOfItems items + 1 < fuel) (hargs : wire.args = [inner])
    (hinner : WireType.ofFieldType peers.write.registry peers.write.config.compatible
      element.declared false = .ok inner)
    (hvisit : ∀ (read : Elements ReadState) count, read.visit count shape = (do
      return (.seq true (← read.collect element count 0), count)))
    (depth : Nat) (recording : Bool) :
    peers.Carries
      (do
        let count ← Write.size true items.length
        return count ++
          (← Write.items peers.write depth (.declared element.declared false true) items))
      (Read.known peers.read
        (fun type => Read.datumWithin peers.read fuel ⟨depth, recording⟩ (.declared type))
        .list wire shape)
      (Read.skipKnown
        (fun type => Read.skipWithin peers.read fuel ⟨depth, recording⟩ (.declared type))
        .list wire) (.seq true items) := by
  have heach (v : Datum) (hmem : v ∈ items) :=
    ih.carries_below hdeclarable hinner (hitems v hmem) (Datum.height_le_of_mem_items hmem) hheight
      depth recording
  have hargument : Read.argument wire 0 = .ok inner := by
    rw [Read.argument, hargs]
    rfl
  let read : Elements ReadState := fun _ =>
    Read.datumWithin peers.read fuel ⟨depth, recording⟩ (.declared inner)
  have hread : peers.pairing.Rel
      (Write.items peers.write depth (.declared element.declared false true) items)
      (read.collect element items.length 0) items :=
    peers.pairing.collect (fun v hmem _ => (heach v hmem).read) 0
  have hskip := peers.pairing.times fun v hmem => (heach v hmem).skip
  constructor
  · refine Mirrors.check hargument ((Mirrors.size items.length).append ?_)
    simp only [hvisit, bind_assoc, pure_bind, Nat.lt_irrefl, if_false]
    exact peers.pairing.map hread (Datum.seq true)
  · exact Mirrors.check hargument ((Mirrors.size items.length).append (hskip.map fun _ => ()))

/-- Entries behind their number are carried over. -/
theorem carries_map (name : String) {key value : Shape} {wire keyType valueType : WireType}
    {entries : List (Datum × Datum)} (hkey : key.Declarable hosts)
    (hvalue : value.Declarable hosts)
    (hkeys : ∀ entry ∈ entries, key.Holds peers.read.shapes entry.1)
    (hvalues : ∀ entry ∈ entries, value.Holds peers.read.shapes entry.2)
    (hheight : Datum.heightOfEntries entries + 1 < fuel) (hargs : wire.args = [keyType, valueType])
    (hkeyType : WireType.ofFieldType peers.write.registry peers.write.config.compatible
      key.declared false = .ok keyType)
    (hvalueType : WireType.ofFieldType peers.write.registry peers.write.config.compatible
      value.declared false = .ok valueType)
    (depth : Nat) (recording : Bool) :
    peers.Carries
      (do
        let count ← Write.size true entries.length
        return count ++ (← Write.entries peers.write depth (.declared key.declared false true)
          (.declared value.declared false true) entries))
      (Read.known peers.read
        (fun type => Read.datumWithin peers.read fuel ⟨depth, recording⟩ (.declared type))
        .map wire (.map name key value))
      (Read.skipKnown
        (fun type => Read.skipWithin peers.read fuel ⟨depth, recording⟩ (.declared type))
        .map wire) (.map true entries) := by
  have hfirst (entry : Datum × Datum) (hmem : entry ∈ entries) :=
    ih.carries_below hkey hkeyType (hkeys entry hmem) (Datum.height_le_of_mem_entries hmem).1
      hheight depth recording
  have hsecond (entry : Datum × Datum) (hmem : entry ∈ entries) :=
    ih.carries_below hvalue hvalueType (hvalues entry hmem) (Datum.height_le_of_mem_entries hmem).2
      hheight depth recording
  have hargument : Read.argument wire 0 = .ok keyType ∧ Read.argument wire 1 = .ok valueType := by
    rw [Read.argument, Read.argument, hargs]
    exact ⟨rfl, rfl⟩
  let read : Entries ReadState :=
    ⟨fun _ => Read.datumWithin peers.read fuel ⟨depth, recording⟩ (.declared keyType),
      fun _ => Read.datumWithin peers.read fuel ⟨depth, recording⟩ (.declared valueType)⟩
  have hread : peers.pairing.Rel
      (Write.entries peers.write depth (.declared key.declared false true)
        (.declared value.declared false true) entries)
      (read.collect key value entries.length 0) entries := by
    refine peers.pairing.entries ?_ ?_ 0
    · exact fun entry hmem _ => (hfirst entry hmem).read
    · exact fun entry hmem _ => (hsecond entry hmem).read
  have hskip := peers.pairing.timesEntries (fun entry hmem => (hfirst entry hmem).skip)
    fun entry hmem => (hsecond entry hmem).skip
  constructor
  · refine Mirrors.check hargument.1 (Mirrors.check hargument.2 ?_)
    refine (Mirrors.size entries.length).append ?_
    simp only [Entries.visit, bind_assoc, pure_bind, Nat.lt_irrefl, if_false]
    exact peers.pairing.map hread (Datum.map true)
  · refine Mirrors.check hargument.1 (Mirrors.check hargument.2 ?_)
    exact (Mirrors.size entries.length).append (hskip.map fun _ => ())

/-- The fields of a struct are given to the parts that they match, as long as the parts are of
their shapes, whatever collections are called there. -/
theorem mirrors_given {declared : List FieldDescriptor} {members : List (Member Shape)}
    (hdeclared : declared.map (fun field => (field.name, field.type)) =
      members.map fun member => (member.name, member.content.declared))
    (hmembers : ∀ member ∈ members, member.content.Declarable hosts)
    (hnodup : (members.map Member.name).Nodup) {content : List (String × Datum)}
    (hnames : members.map Member.name = content.map Prod.fst)
    (hholds : ∀ part ∈ members.zip content, part.1.content.Holds peers.read.shapes part.2.2)
    (hheight : Datum.heightOfFields content + 1 < fuel) {fields : List SchemaField}
    (hschema : Schema.ofFields peers.write.registry peers.write.config.compatible declared =
      .ok fields) {parts : List (Member Shape)}
    (hparts : ∀ member ∈ members, ∀ place part,
      Name.match? (parts.map Member.name) member.name = some place → parts[place]? = some part →
        part.content.Resembles member.content)
    (hkeys : ((Member.given (parts.map Member.name) content).map Prod.fst).Nodup)
    (depth : Nat) (recording : Bool) :
    peers.Mirrors (Write.fields peers.write depth declared content)
      (Read.fields
        (fun type => Read.datumWithin peers.read fuel ⟨depth, recording⟩ (.declared type))
        (fun type => Read.skipWithin peers.read fuel ⟨depth, recording⟩ (.declared type))
        parts fields []) (Member.given (parts.map Member.name) content) := by
  have hderived := Schema.forall₂_of_ofFields_ok hschema
  refine mirrors_fields [] ?_ hkeys
  refine List.forall₂_iff_zip.mpr ⟨hderived.length_eq, fun {field made} hzip value hvalue => ?_⟩
  obtain ⟨hname, -, hwire⟩ := (List.forall₂_iff_zip.mp hderived).2 hzip
  obtain ⟨member, hmember, hsame, htype, hheld⟩ := Shape.exists_member hdeclared hnodup hnames
    hholds (List.of_mem_zip hzip).1 hvalue
  have hle := Datum.height_le_of_mem_fields hvalue
  rw [← htype] at hwire
  have hcarries := ih.declared (hmembers member hmember) hheld
    (Nat.lt_of_le_of_lt (Nat.succ_le_succ hle) hheight) hwire depth recording
  rw [htype] at hcarries
  refine ⟨hname, fun place part hmatch hpart => ?_, fun _ => hcarries.skip⟩
  rw [← hsame] at hmatch
  rw [Read.datumWithin_eq_of_resembles (hparts member hmember place part hmatch hpart)]
  exact hcarries.read

/-- The fields of a struct are carried over. -/
theorem carries_fields {declared : List FieldDescriptor} {members : List (Member Shape)}
    (hdeclared : declared.map (fun field => (field.name, field.type)) =
      members.map fun member => (member.name, member.content.declared))
    (hmembers : ∀ member ∈ members, member.content.Declarable hosts)
    (hnodup : (members.map Member.name).Nodup) {content : List (String × Datum)}
    (hnames : members.map Member.name = content.map Prod.fst)
    (hholds : ∀ part ∈ members.zip content, part.1.content.Holds peers.read.shapes part.2.2)
    (hheight : Datum.heightOfFields content + 1 < fuel) {schema : Schema}
    (hschema : Schema.ofFields peers.write.registry peers.write.config.compatible declared =
      .ok schema.fields) (name : String) (depth : Nat) (recording : Bool) :
    peers.Carries (Write.fields peers.write depth declared content)
      (Read.struct peers.read
        (fun type => Read.datumWithin peers.read fuel ⟨depth, recording⟩ (.declared type))
        (fun type => Read.skipWithin peers.read fuel ⟨depth, recording⟩ (.declared type))
        schema (.struct name members))
      (Read.skipFields
        (fun type => Read.skipWithin peers.read fuel ⟨depth, recording⟩ (.declared type))
        schema.fields) (.struct name content) := by
  constructor
  · have hown (member : Member Shape) (hmember : member ∈ members) (place : Nat)
        (part : Member Shape)
        (hmatch : Name.match? (members.map Member.name) member.name = some place)
        (hpart : members[place]? = some part) : part.content.Resembles member.content := by
      rw [Member.eq_of_match? hnodup hmember hmatch hpart]
      exact .refl _
    have hfound := ih.mirrors_given hdeclared hmembers hnodup hnames hholds hheight hschema hown
      (Member.nodup_given_self hnames hnodup) depth recording
    exact hfound.bind_nil fun _ => .ofExcept_bind (Member.assemble_given hnames hnodup)
      (.pure (Datum.struct name content))
  · let none : List (Member Shape) := []
    have hkeys : ((Member.given (none.map Member.name) content).map Prod.fst).Nodup := by
      rw [List.map_nil, Member.given_nil]
      exact List.nodup_nil
    have hparts (member : Member Shape) (_ : member ∈ members) (place : Nat) (part : Member Shape)
        (_ : Name.match? (none.map Member.name) member.name = some place)
        (hpart : none[place]? = some part) : part.content.Resembles member.content := by
      cases hpart
    have hfound := ih.mirrors_given hdeclared hmembers hnodup hnames hholds hheight hschema hparts
      hkeys depth recording
    rw [Read.skipFields_eq _ _ schema.fields []]
    exact hfound.map fun _ => ()

end Follows

section Registered

variable {fuel : Nat} {v : Datum} {type : FieldType} {spec : TypeSpec} {wire : WireType}
  {resolved : Resolved}

/-- An enum without payloads is carried over. -/
theorem carries_enum {registration : Registration} {name : String} {variants : List (Variant Shape)}
    (hrole : spec.role = .enum registration)
    (hresolve : peers.write.registry.resolve type = .ok spec)
    (htold : peers.Describes spec resolved) {index : Nat} {variant : String}
    (hvariant : variants[index]? = some ⟨variant, .unit⟩) (hindex : index < 2 ^ 32) (depth : Nat)
    (tracked : Bool) (scope : Scope) :
    peers.Carries
      (Write.datum peers.write depth (.declared type tracked false)
        (.unitVariant name index variant))
      (Read.content peers.read fuel (Read.datumWithin peers.read fuel)
        (Read.skipWithin peers.read fuel) scope wire resolved (.enum name variants))
      (Read.skipContent peers.read fuel (Read.skipWithin peers.read fuel) scope wire resolved)
      (.unitVariant name index variant) := by
  have hlayout : Layout.of spec type = .typed spec type := by
    rw [Layout.of, hrole]
  cases htold with
  | builtin hother => cases hrole.symm.trans hother
  | struct hother => cases hrole.symm.trans hother
  | ext hother => cases hrole.symm.trans hother
  | enum hother =>
    have hfound : (Shape.enum name variants).ofVariantIndex index =
        .ok (.unitVariant name index variant) := by
      rw [Shape.ofVariantIndex, hvariant]
    have hread := Varint.reads_take32 hindex
    rw [Write.datum, Write.behind_declared hresolve, hlayout]
    simp only [hrole]
    constructor
    · exact .pure fun _ => (Read.Reads.take hread).bind_nil (.ofExcept hfound)
    · exact .pure fun _ => (Read.Reads.take hread).bind_nil (.pure ())

/-- A value with a layout of its own is carried over. -/
theorem carries_ext {registration : Registration} {host : HostType} {name : String}
    (hhost : spec.host = some host) (hname : Shape.ofHost host = .user name)
    (hrole : spec.role = .ext registration)
    (hroot : ∀ root, Shape.Opens peers.read.shapes (peers.read.shapes.resolve (.user name)) root →
      root.isOption = false ∧ root ≠ .char)
    (hresolve : peers.write.registry.resolve type = .ok spec)
    (htold : peers.Describes spec resolved) (hholds : (Shape.user name).Holds peers.read.shapes v)
    (hheight : v.height < fuel) (depth : Nat) (tracked : Bool) (scope : Scope) :
    peers.Carries (Write.datum peers.write depth (.declared type tracked false) v)
      (Read.content peers.read fuel (Read.datumWithin peers.read fuel)
        (Read.skipWithin peers.read fuel) scope wire resolved
        (peers.read.shapes.resolve (.user name)))
      (Read.skipContent peers.read fuel (Read.skipWithin peers.read fuel) scope wire resolved)
      v := by
  have hflat := (hroot _ (.here _)).1
  rw [Shapes.resolve_resolve] at hflat
  rw [(Write.datum_of_ext hresolve hrole depth tracked hholds.resolved hroot).2]
  cases htold with
  | builtin hother => cases hrole.symm.trans hother
  | struct hother => cases hrole.symm.trans hother
  | enum hother => cases hrole.symm.trans hother
  | ext hother =>
    have hkeeps : Write.Keeps peers.write.registry (Write.datum peers.write depth .plain v) :=
      Write.keeps_datum v depth .plain
    constructor
    · rw [Read.content_ext hholds.resolved hflat]
      exact .of_plain (Plain.rel_datum fuel hholds.resolved hheight) hkeeps
    · have hskip : peers.Mirrors (Write.datum peers.write depth .plain v)
          (Read.take (Take.plainWithin peers.read.shapes fuel (.ofHost host))) v := by
        rw [hname]
        exact .of_plain (Plain.rel_datum fuel hholds hheight) hkeeps
      rw [hhost]
      exact hskip.map fun _ => ()

end Registered

namespace Concur

variable (h : peers.Concur hosts) {fuel : Nat} {shape : Shape} {v : Datum} {type : FieldType}
  {spec : TypeSpec} {wire : WireType} {resolved : Resolved}
include h

/-- A scalar type is described by its kind. -/
theorem role_of_scalar {host : HostType} {kind : Kind}
    (hmem : (host, kind) ∈ Registry.scalarBuiltins) (hdeclared : shape.declared = .scalar host false)
    (hopened : peers.Opened shape type spec wire resolved) :
    spec.role = .builtin kind ∧ resolved = .known kind := by
  obtain ⟨own, hown, hrole⟩ := h.written.exists_ofHost? hmem
  have hfound : peers.write.registry.ofType? type = some own := by
    rcases hopened.declared with rfl | rfl <;> rw [hdeclared] <;> exact hown
  exact hopened.of_builtin hfound hrole

/-- A scalar is carried over if its data are. -/
theorem carries_scalar {host : HostType} {kind : Kind}
    (hopened : peers.Opened shape type spec wire resolved)
    (hmem : (host, kind) ∈ Registry.scalarBuiltins) (hdeclared : shape.declared = .scalar host false)
    {depth : Nat} {tracked : Bool} {scope : Scope} {plain typed : Write (List UInt8)}
    (hwrite : Write.datum peers.write depth (.declared type tracked false) v =
      Write.scalar peers.write (.declared type tracked false) kind plain typed)
    {reader : Read Datum} {skipper : Read Unit}
    (hreader : Read.content peers.read fuel (Read.datumWithin peers.read fuel)
      (Read.skipWithin peers.read fuel) scope wire (.known kind) shape = reader)
    (hskipper : Read.skipContent peers.read fuel (Read.skipWithin peers.read fuel) scope wire
      (.known kind) = skipper)
    (hcarries : peers.Carries typed reader skipper v) :
    peers.Carries (Write.datum peers.write depth (.declared type tracked false) v)
      (Read.content peers.read fuel (Read.datumWithin peers.read fuel)
        (Read.skipWithin peers.read fuel) scope wire resolved shape)
      (Read.skipContent peers.read fuel (Read.skipWithin peers.read fuel) scope wire resolved)
      v := by
  obtain ⟨hrole, rfl⟩ := h.role_of_scalar hmem hdeclared hopened
  rw [hwrite, Write.scalar_declared hopened.registered hrole, hreader, hskipper]
  exact hcarries

/-- Behind the annotations of a list that is no type of its own its reader knows the type of the
elements. -/
theorem exists_of_opened_list {name : String} {element : Shape}
    (hnone : peers.write.registry.ofHost? (.collection name) = none)
    (hopened : peers.Opened (.list name element) type spec wire resolved) :
    ∃ nullable inner, type = .list name element.declared nullable ∧ spec.role = .builtin .list ∧
      resolved = .known .list ∧ wire.args = [inner] ∧
        WireType.ofFieldType peers.write.registry peers.write.config.compatible element.declared
          false = .ok inner := by
  have hkind : Kind.list ∈ Registry.otherBuiltins := by decide
  obtain ⟨own, hown, hbuiltin⟩ := h.written.exists_builtin? hkind
  obtain ⟨nullable, rfl⟩ : ∃ nullable, type = .list name element.declared nullable := by
    rcases hopened.declared with rfl | rfl
    · exact ⟨_, rfl⟩
    · exact ⟨_, rfl⟩
  have hfound : (peers.write.registry.ofHost? (.collection name)).or
      (peers.write.registry.builtin? .list) = some own := by
    rw [hnone]
    exact hown
  obtain ⟨hrole, hresolved⟩ := hopened.of_builtin hfound hbuiltin
  obtain ⟨flagged, hwire⟩ := hopened.derived
  obtain ⟨inner, hargs, hinner⟩ := WireType.argument_of_list hwire
  exact ⟨nullable, inner, rfl, hrole, hresolved, hargs, hinner⟩

/-- Behind the annotations of a set that is no type of its own its reader knows the type of the
elements. -/
theorem exists_of_opened_set {name : String} {element : Shape}
    (hnone : peers.write.registry.ofHost? (.collection name) = none)
    (hopened : peers.Opened (.set name element) type spec wire resolved) :
    ∃ nullable inner, type = .set name element.declared nullable ∧ spec.role = .builtin .set ∧
      resolved = .known .set ∧ wire.args = [inner] ∧
        WireType.ofFieldType peers.write.registry peers.write.config.compatible element.declared
          false = .ok inner := by
  have hkind : Kind.set ∈ Registry.otherBuiltins := by decide
  obtain ⟨own, hown, hbuiltin⟩ := h.written.exists_builtin? hkind
  obtain ⟨nullable, rfl⟩ : ∃ nullable, type = .set name element.declared nullable := by
    rcases hopened.declared with rfl | rfl
    · exact ⟨_, rfl⟩
    · exact ⟨_, rfl⟩
  have hfound : (peers.write.registry.ofHost? (.collection name)).or
      (peers.write.registry.builtin? .set) = some own := by
    rw [hnone]
    exact hown
  obtain ⟨hrole, hresolved⟩ := hopened.of_builtin hfound hbuiltin
  obtain ⟨flagged, hwire⟩ := hopened.derived
  obtain ⟨inner, hargs, hinner⟩ := WireType.argument_of_set hwire
  exact ⟨nullable, inner, rfl, hrole, hresolved, hargs, hinner⟩

/-- Behind the annotations of a map that is no type of its own its reader knows the types of the keys
and the values. -/
theorem exists_of_opened_map {name : String} {key value : Shape}
    (hnone : peers.write.registry.ofHost? (.collection name) = none)
    (hopened : peers.Opened (.map name key value) type spec wire resolved) :
    ∃ nullable keyType valueType, type = .map name key.declared value.declared nullable ∧
      spec.role = .builtin .map ∧ resolved = .known .map ∧ wire.args = [keyType, valueType] ∧
        WireType.ofFieldType peers.write.registry peers.write.config.compatible key.declared
          false = .ok keyType ∧
        WireType.ofFieldType peers.write.registry peers.write.config.compatible value.declared
          false = .ok valueType := by
  have hkind : Kind.map ∈ Registry.otherBuiltins := by decide
  obtain ⟨own, hown, hbuiltin⟩ := h.written.exists_builtin? hkind
  obtain ⟨nullable, rfl⟩ : ∃ nullable, type = .map name key.declared value.declared nullable := by
    rcases hopened.declared with rfl | rfl
    · exact ⟨_, rfl⟩
    · exact ⟨_, rfl⟩
  have hfound : (peers.write.registry.ofHost? (.collection name)).or
      (peers.write.registry.builtin? .map) = some own := by
    rw [hnone]
    exact hown
  obtain ⟨hrole, hresolved⟩ := hopened.of_builtin hfound hbuiltin
  obtain ⟨flagged, hwire⟩ := hopened.derived
  obtain ⟨keyType, valueType, hargs, hkey, hvalue⟩ := WireType.arguments_of_map hwire
  exact ⟨nullable, keyType, valueType, rfl, hrole, hresolved, hargs, hkey, hvalue⟩

/-- A value is not missing where its shape is not one of values that may be. -/
theorem isPresent (hshape : shape.Declarable hosts) (hflat : shape.isOption = false)
    (hholds : shape.Holds peers.read.shapes v)
    (hdeclared : type = shape.declared ∨ type = shape.declared.orNull)
    (hregistered : peers.write.registry.resolve type = .ok spec) : v.isPresent = true := by
  cases hshape with
  | option hinner => cases hflat
  | @user name hname =>
    have hspec := Registry.ofHost?_eq_of_declared hdeclared hregistered
    have hfits := (h.suits _ spec hname hspec).fits
    have hheld := hholds.resolved
    rw [Shape.ofHost] at hfits
    generalize hrole : spec.role = role at hfits
    generalize hshape : peers.read.shapes.resolve (.user name) = own at hfits hheld
    cases hfits with
    | struct | enum => cases hheld <;> rfl
    | ext hroot => exact (Write.datum_of_ext hregistered hrole 0 false hheld hroot).1
  | _ => cases hholds; rfl

/-- A value is not missing if it is not the missing value. -/
theorem isPresent_of_ne_none (hshape : shape.Declarable hosts)
    (hholds : shape.Holds peers.read.shapes v) (hv : v ≠ .none)
    (hregistered : peers.write.registry.resolve shape.declared = .ok spec) :
    v.isPresent = true := by
  cases hflat : shape.isOption with
  | false => exact h.isPresent hshape hflat hholds (.inl rfl) hregistered
  | true =>
    cases hshape with
    | option hinner helement =>
      cases hholds with
      | none => exact absurd rfl hv
      | some hheld =>
        have hpresent := h.isPresent helement hinner hheld (.inr rfl) hregistered
        exact hpresent
    | _ => cases hflat

/-- A struct is carried over, as long as it is not too deep for the writer. -/
theorem carries_struct (ih : peers.Follows hosts fuel) {registration : Registration}
    {declared : List FieldDescriptor} {name : String} {members : List (Member Shape)}
    (hrole : spec.role = .struct registration declared)
    (hdeclared : declared.map (fun field => (field.name, field.type)) =
      members.map fun member => (member.name, member.content.declared))
    (hmembers : ∀ member ∈ members, member.content.Declarable hosts)
    (hresolve : peers.write.registry.resolve type = .ok spec)
    (htold : peers.Describes spec resolved) {content : List (String × Datum)}
    (hnames : members.map Member.name = content.map Prod.fst)
    (hholds : ∀ part ∈ members.zip content, part.1.content.Holds peers.read.shapes part.2.2)
    (hheight : Datum.heightOfFields content + 1 < fuel) (depth : Nat) (tracked recording : Bool) :
    peers.Carries
      (Write.datum peers.write depth (.declared type tracked false) (.struct name content))
      (Read.content peers.read fuel (Read.datumWithin peers.read fuel)
        (Read.skipWithin peers.read fuel) ⟨depth, recording⟩ wire resolved (.struct name members))
      (Read.skipContent peers.read fuel (Read.skipWithin peers.read fuel) ⟨depth, recording⟩ wire
        resolved) (.struct name content) := by
  have hnodup : (members.map Member.name).Nodup :=
    Member.names_of_declared hdeclared ▸
      h.written.nodup_names (Registry.mem_of_resolve hresolve) hrole
  obtain ⟨schema, rfl, hschema⟩ := htold.exists_schema hrole
  have hcarries := ih.carries_fields hdeclared hmembers hnodup hnames hholds hheight hschema name
    (depth + 1) recording
  rw [Write.datum_of_struct hresolve hrole]
  by_cases hdeep : peers.write.config.maxDepth < depth + 1
  · rw [if_pos hdeep]
    exact ⟨.throw _, .throw _⟩
  · have hdeeper := Scope.deeper_of_le h.depth hdeep recording
    rw [if_neg hdeep]
    exact ⟨Mirrors.check hdeeper hcarries.read, Mirrors.check hdeeper hcarries.skip⟩

/-- What stands behind the annotations of a value of a registered type is carried over. -/
theorem carries_registered (ih : peers.Follows hosts fuel) {host : HostType} {name : String}
    (hhost : hosts host) (hname : Shape.ofHost host = .user name)
    (hspec : peers.write.registry.ofHost? host = some spec)
    (hresolve : peers.write.registry.resolve type = .ok spec)
    (htold : peers.Describes spec resolved) (hholds : (Shape.user name).Holds peers.read.shapes v)
    (hheight : v.height < fuel) (depth : Nat) (tracked recording : Bool) :
    peers.Carries (Write.datum peers.write depth (.declared type tracked false) v)
      (Read.content peers.read fuel (Read.datumWithin peers.read fuel)
        (Read.skipWithin peers.read fuel) ⟨depth, recording⟩ wire resolved
        (peers.read.shapes.resolve (.user name)))
      (Read.skipContent peers.read fuel (Read.skipWithin peers.read fuel) ⟨depth, recording⟩ wire
        resolved) v := by
  have hsame : spec.host = some host := by
    simpa using List.find?_some hspec
  have hfits := (h.suits _ spec hhost hspec).fits
  have hheld := hholds.resolved
  rw [hname] at hfits
  generalize hrole : spec.role = role at hfits
  generalize hshape : peers.read.shapes.resolve (.user name) = own at hfits hheld
  cases hfits with
  | struct hdeclared hmembers =>
    cases hheld with
    | struct hnames hparts =>
      exact h.carries_struct ih hrole hdeclared hmembers hresolve htold hnames hparts hheight depth
        tracked recording
  | enum hvariants =>
    cases hheld with
    | unitVariant hvariant hindex =>
      exact carries_enum hrole hresolve htold hvariant hindex depth tracked _
    | newtypeVariant hvariant => cases hvariants _ (List.mem_of_getElem? hvariant)
    | tupleVariant hvariant => cases hvariants _ (List.mem_of_getElem? hvariant)
    | structVariant hvariant => cases hvariants _ (List.mem_of_getElem? hvariant)
  | ext hroot =>
    rw [← hshape] at hroot ⊢
    exact carries_ext hsame hname hrole hroot hresolve htold hholds hheight depth tracked _

/-- A collection whose type is registered is of the shape that stands under its name. -/
theorem of_opened_collection {name : String} (hname : hosts (.collection name))
    (hhost : shape.declared.host = .collection name) (hagrees : peers.read.shapes.Agrees name shape)
    {own : TypeSpec} (hown : peers.write.registry.ofHost? (.collection name) = some own)
    (hopened : peers.Opened shape type spec wire resolved) :
    peers.write.registry.ofHost? (.collection name) = some spec ∧
      peers.read.shapes.resolve shape = peers.read.shapes.resolve (.user name) := by
  have hresolve := Registry.resolve_of_declared hopened.declared (hhost ▸ hown)
  cases hopened.registered.symm.trans hresolve
  have hne (other : String) : shape ≠ .user other := by
    rintro rfl
    cases hhost
  refine ⟨hown, ?_⟩
  rw [hagrees.resolve_eq ((h.suits _ spec hname hown).known rfl) hne]
  exact Shapes.resolve_of_ne_user hne

/-- What stands behind the annotations of a value that is not missing is carried over. -/
theorem carries_content (ih : peers.Follows hosts fuel) (hshape : shape.Declarable hosts)
    (hflat : shape.isOption = false) (hholds : shape.Holds peers.read.shapes v)
    (hheight : v.height < fuel) (hopened : peers.Opened shape type spec wire resolved)
    (depth : Nat) (tracked recording : Bool) :
    peers.Carries (Write.datum peers.write depth (.declared type tracked false) v)
      (Read.content peers.read fuel (Read.datumWithin peers.read fuel)
        (Read.skipWithin peers.read fuel) ⟨depth, recording⟩ wire resolved
        (peers.read.shapes.resolve shape))
      (Read.skipContent peers.read fuel (Read.skipWithin peers.read fuel) ⟨depth, recording⟩ wire
        resolved) v := by
  let read : WireType → Shape → Read Datum := fun type =>
    Read.datumWithin peers.read fuel ⟨depth, recording⟩ (.declared type)
  let skip : WireType → Read Unit := fun type =>
    Read.skipWithin peers.read fuel ⟨depth, recording⟩ (.declared type)
  cases hshape with
  | bool =>
    have hmem : (HostType.bool, Kind.boolean) ∈ Registry.scalarBuiltins := by decide
    cases hholds with
    | bool b =>
      have hcarries := peers.carries_bool peers.read read skip wire b
      exact h.carries_scalar hopened hmem rfl (by rw [Write.datum]) rfl rfl hcarries
  | int t =>
    have hmem : (HostType.int t, t.kind) ∈ Registry.scalarBuiltins := by cases t <;> decide
    cases hholds with
    | int ht =>
      have hcarries := peers.carries_int peers.read read skip wire ht
      exact h.carries_scalar hopened hmem rfl (by rw [Write.datum]) rfl rfl hcarries
  | float32 =>
    have hmem : (HostType.float32, Kind.float32) ∈ Registry.scalarBuiltins := by decide
    cases hholds with
    | float32 bits =>
      have hcarries := peers.carries_float32 peers.read read skip wire bits
      exact h.carries_scalar hopened hmem rfl (by rw [Write.datum]) rfl rfl hcarries
  | float64 =>
    have hmem : (HostType.float64, Kind.float64) ∈ Registry.scalarBuiltins := by decide
    cases hholds with
    | float64 bits =>
      have hcarries := peers.carries_float64 peers.read read skip wire bits
      exact h.carries_scalar hopened hmem rfl (by rw [Write.datum]) rfl rfl hcarries
  | string =>
    have hmem : (HostType.string, Kind.string) ∈ Registry.scalarBuiltins := by decide
    cases hholds with
    | string s =>
      have hcarries := peers.carries_text peers.read read skip wire .string s rfl
      exact h.carries_scalar hopened hmem rfl (by rw [Write.datum, Write.text]) rfl rfl hcarries
  | str =>
    have hmem : (HostType.str, Kind.string) ∈ Registry.scalarBuiltins := by decide
    cases hholds with
    | str s =>
      have hcarries := peers.carries_text peers.read read skip wire .str s rfl
      exact h.carries_scalar hopened hmem rfl (by rw [Write.datum, Write.text]) rfl rfl hcarries
  | bytes =>
    have hmem : (HostType.bytes, Kind.binary) ∈ Registry.scalarBuiltins := by decide
    cases hholds with
    | bytes content =>
      have hcarries := peers.carries_bytes peers.read read skip wire .bytes content rfl
      exact h.carries_scalar hopened hmem rfl (by rw [Write.datum]) rfl rfl hcarries
  | byteSlice =>
    have hmem : (HostType.bytes, Kind.binary) ∈ Registry.scalarBuiltins := by decide
    cases hholds with
    | byteSlice content =>
      have hcarries := peers.carries_bytes peers.read read skip wire .byteSlice content rfl
      exact h.carries_scalar hopened hmem rfl (by rw [Write.datum]) rfl rfl hcarries
  | option hinner => cases hflat
  | @list name element hname helement =>
    cases hholds with
    | list hitems hagrees =>
      cases hspec : peers.write.registry.ofHost? (.collection name) with
      | some own =>
        obtain ⟨hspec, hshape⟩ := h.of_opened_collection hname rfl hagrees hspec hopened
        have hheld := (Shape.Holds.list hitems hagrees).resolved
        rw [hshape] at hheld ⊢
        exact h.carries_registered ih hname rfl hspec hopened.registered hopened.told (.user hheld)
          hheight depth tracked recording
      | none =>
        obtain ⟨nullable, inner, rfl, hrole, rfl, hargs, hinner⟩ :=
          h.exists_of_opened_list hspec hopened
        rw [Write.datum, Write.behind_declared hopened.registered, Write.layout_of_builtin hrole]
        simp only [TypeSpec.element?, hrole, true_or, if_true]
        exact ih.carries_seq helement hitems hheight hargs hinner (fun _ _ => rfl) depth recording
  | @set name element hname helement =>
    cases hholds with
    | set hitems hagrees =>
      cases hspec : peers.write.registry.ofHost? (.collection name) with
      | some own =>
        obtain ⟨hspec, hshape⟩ := h.of_opened_collection hname rfl hagrees hspec hopened
        have hheld := (Shape.Holds.set hitems hagrees).resolved
        rw [hshape] at hheld ⊢
        exact h.carries_registered ih hname rfl hspec hopened.registered hopened.told (.user hheld)
          hheight depth tracked recording
      | none =>
        obtain ⟨nullable, inner, rfl, hrole, rfl, hargs, hinner⟩ :=
          h.exists_of_opened_set hspec hopened
        rw [Write.datum, Write.behind_declared hopened.registered, Write.layout_of_builtin hrole]
        simp only [TypeSpec.element?, hrole, or_true, if_true]
        exact ih.carries_seq helement hitems hheight hargs hinner (fun _ _ => rfl) depth recording
  | @map name key value hname hkey hvalue =>
    cases hholds with
    | map hkeys hvalues hagrees =>
      cases hspec : peers.write.registry.ofHost? (.collection name) with
      | some own =>
        obtain ⟨hspec, hshape⟩ := h.of_opened_collection hname rfl hagrees hspec hopened
        have hheld := (Shape.Holds.map hkeys hvalues hagrees).resolved
        rw [hshape] at hheld ⊢
        exact h.carries_registered ih hname rfl hspec hopened.registered hopened.told (.user hheld)
          hheight depth tracked recording
      | none =>
        obtain ⟨nullable, keyType, valueType, rfl, hrole, rfl, hargs, hkeyType, hvalueType⟩ :=
          h.exists_of_opened_map hspec hopened
        rw [Write.datum, Write.behind_declared hopened.registered, Write.layout_of_builtin hrole]
        simp only [TypeSpec.arguments?, hrole, if_true]
        exact ih.carries_map name hkey hvalue hkeys hvalues hheight hargs hkeyType hvalueType depth
          recording
  | @user name hname =>
    have hspec := Registry.ofHost?_eq_of_declared hopened.declared hopened.registered
    exact h.carries_registered ih hname rfl hspec hopened.registered hopened.told hholds hheight
      depth tracked recording

/-- Behind its annotations a value that is not missing is carried over. -/
theorem carries_entered (ih : peers.Follows hosts fuel) (hshape : shape.Declarable hosts)
    (hflat : shape.isOption = false) (hholds : shape.Holds peers.read.shapes v)
    (hheight : v.height < fuel) (hopened : peers.Opened shape type spec wire resolved)
    (depth : Nat) (tracked recording : Bool) :
    peers.Carries (Write.datum peers.write depth (.declared type tracked false) v)
      (Read.datumWithin peers.read (fuel + 1) ⟨depth, recording⟩ (.entered wire resolved) shape)
      (Read.skipWithin peers.read (fuel + 1) ⟨depth, recording⟩ (.entered wire resolved)) v := by
  have hcarries :=
    h.carries_content ih hshape hflat hholds hheight hopened depth tracked recording
  have henter := hopened.reads_enter recording
  constructor
  · rw [Read.datumWithin_succ hholds]
    exact Mirrors.nil_bind henter hcarries.read
  · rw [Read.skipWithin]
    exact Mirrors.nil_bind henter hcarries.skip

/-- What stands behind the annotations of a value that may be missing, but is not, is carried
over. -/
theorem carries_some (ih : peers.Follows hosts fuel) {element : Shape}
    (helement : element.Declarable hosts) (hflat : element.isOption = false)
    (hholds : element.Holds peers.read.shapes v) (hheight : v.height + 1 < fuel)
    (hopened : peers.Opened element type spec wire resolved) (depth : Nat)
    (tracked recording : Bool) :
    peers.Carries (Write.datum peers.write depth (.declared type tracked false) (.some v))
      (Read.content peers.read fuel (Read.datumWithin peers.read fuel)
        (Read.skipWithin peers.read fuel) ⟨depth, recording⟩ wire resolved (.option element))
      (Read.skipContent peers.read fuel (Read.skipWithin peers.read fuel) ⟨depth, recording⟩ wire
        resolved) (.some v) := by
  have hentered := ih.entered helement hflat hholds hheight hopened depth tracked recording
  have hcontent := h.carries_content ih helement hflat hholds (Nat.lt_of_succ_lt hheight) hopened
    depth tracked recording
  have hwrite : Write.datum peers.write depth (.declared type tracked false) (.some v) =
      Write.datum peers.write depth (.declared type tracked false) v := by
    rw [Write.datum]
    exact nofun
  rw [hwrite]
  exact ⟨hentered.read.map Datum.some, hcontent.skip⟩

/-- In front of its annotations a value that is not missing is carried over, if it is behind them. -/
theorem carries_annotated {tracked : Bool} (hshape : shape.Declarable hosts)
    (hholds : shape.Holds peers.read.shapes v) (hpresent : v.isPresent = true)
    (hregistered : peers.write.registry.resolve shape.declared = .ok spec)
    (hwire : WireType.ofFieldType peers.write.registry peers.write.config.compatible shape.declared
      tracked = .ok wire) {depth : Nat} {recording : Bool}
    (hcontent : ∀ resolved, peers.Opened shape shape.declared spec wire resolved →
      peers.Carries (Write.datum peers.write depth (.declared shape.declared tracked false) v)
        (Read.content peers.read fuel (Read.datumWithin peers.read fuel)
          (Read.skipWithin peers.read fuel) ⟨depth, recording⟩ wire resolved
          (peers.read.shapes.resolve shape))
        (Read.skipContent peers.read fuel (Read.skipWithin peers.read fuel) ⟨depth, recording⟩
          wire resolved) v) :
    peers.Carries (Write.datum peers.write depth (.declared shape.declared tracked true) v)
      (Read.datumWithin peers.read (fuel + 1) ⟨depth, recording⟩ (.declared wire) shape)
      (Read.skipWithin peers.read (fuel + 1) ⟨depth, recording⟩ (.declared wire)) v := by
  -- What the reader is told depends on the annotations, so they have to have been written.
  refine .of_ok (Write.keeps_datum v depth _) fun before bytes after hsound hok => ?_
  rw [Write.datum_annotated hregistered depth tracked v hpresent] at hok ⊢
  obtain ⟨head, between, hhead, -⟩ := exists_of_bind_ok hok
  obtain ⟨resolved, htold, henter⟩ :=
    h.exists_mirrors_enter hshape.among hregistered hwire hsound hhead recording
  have hcarries := hcontent resolved ⟨.inl rfl, hregistered, ⟨tracked, hwire⟩, htold⟩
  constructor
  · rw [Read.datumWithin_succ hholds]
    exact henter.append hcarries.read
  · rw [Read.skipWithin]
    exact henter.append hcarries.skip

omit h in
/-- A missing value is carried over. -/
theorem carries_none {element : Shape} {tracked : Bool}
    (hwire : WireType.ofFieldType peers.write.registry peers.write.config.compatible
      (Shape.option element).declared tracked = .ok wire) (depth : Nat) (recording : Bool) :
    peers.Carries
      (Write.datum peers.write depth (.declared (Shape.option element).declared tracked true) .none)
      (Read.datumWithin peers.read (fuel + 1) ⟨depth, recording⟩ (.declared wire)
        (.option element))
      (Read.skipWithin peers.read (fuel + 1) ⟨depth, recording⟩ (.declared wire)) .none := by
  have hnullable : (Shape.option element).declared.nullable = true :=
    element.declared.nullable_orNull
  have henter := peers.mirrors_enter_null hnullable hwire recording
  have hwrite : Write.datum peers.write depth
      (.declared (Shape.option element).declared tracked true) .none =
        pure [RefFlag.null.toByte] := by
    rw [Write.datum, hnullable]
    rfl
  rw [hwrite]
  constructor
  · rw [Read.datumWithin_succ (.none element)]
    exact henter.bind_nil fun _ => .ofExcept rfl
  · rw [Read.skipWithin]
    exact henter.bind_nil fun _ => .pure ()

/-- Values are carried over as far as the bound allows. -/
theorem follows (fuel : Nat) : peers.Follows hosts fuel := by
  induction fuel with
  | zero =>
    constructor
    · intro shape v _ _ hheight
      cases hheight
    · intro shape v _ _ _ hheight
      cases hheight
  | succ fuel ih =>
    constructor
    · intro shape v hshape hholds hheight tracked wire hwire depth recording
      have hbelow : v.height < fuel := Nat.lt_of_succ_lt_succ hheight
      obtain ⟨spec, hregistered, -⟩ := WireType.of_ofFieldType_ok hwire
      cases hflat : shape.isOption with
      | false =>
        have hpresent := h.isPresent hshape hflat hholds (.inl rfl) hregistered
        exact h.carries_annotated hshape hholds hpresent hregistered hwire fun resolved hopened =>
          h.carries_content ih hshape hflat hholds hbelow hopened depth tracked recording
      | true =>
        cases hshape with
        | @option element hcontent helement =>
          cases hholds with
          | none => exact carries_none hwire depth recording
          | some hheld =>
            have hpresent := h.isPresent helement hcontent hheld (.inr rfl) hregistered
            refine h.carries_annotated (.option hcontent helement) (.some hheld) hpresent
              hregistered hwire fun resolved hopened => ?_
            have hinner : peers.Opened element (Shape.option element).declared spec wire resolved :=
              ⟨.inr rfl, hopened.registered, hopened.derived, hopened.told⟩
            exact h.carries_some ih helement hcontent hheld hbelow hinner depth tracked recording
        | _ => cases hflat
    · intro shape v hshape hflat hholds hheight type spec wire resolved hopened depth tracked
        recording
      exact h.carries_entered ih hshape hflat hholds (Nat.lt_of_succ_lt_succ hheight) hopened depth
        tracked recording

end Concur

end Peers

end SchemaWire
