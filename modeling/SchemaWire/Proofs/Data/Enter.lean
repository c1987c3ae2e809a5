import SchemaWire.Proofs.Data.Plain
import SchemaWire.Proofs.Message.TypeInfo

/-!
# Values and their annotations

An annotated value is its annotations and then the value without them. The reader learns from
the annotations that a value follows, and what type it is of. Values of a type with a layout
of its own are written plainly behind their annotations.
-/

namespace SchemaWire

/-- Who may go as deep as someone else can go one struct deeper where the other one can. -/
theorem Scope.deeper_of_le {limit maxDepth depth : Nat} (hle : limit ≤ maxDepth)
    (hdeep : ¬limit < depth + 1) (recording : Bool) :
    (⟨depth, recording⟩ : Scope).deeper maxDepth = .ok ⟨depth + 1, recording⟩ := by
  have hshallow : ¬maxDepth < depth + 1 := by omega
  exact if_neg hshallow

namespace Datum

/-- The value is not missing, and nothing in its place refuses to be written. -/
def isPresent : Datum → Bool
  | .some content | .newtype content => content.isPresent
  | .none | .firstEntry .. | .choice _ | .absent | .refused _ => false
  | _ => true

end Datum

namespace Write

variable {env : WriteEnv} {type : FieldType} {spec : TypeSpec}

/-- Without annotations nothing stands before the content. -/
theorem behind_declared (h : env.registry.resolve type = .ok spec) (tracked : Bool)
    (content : Layout → Write (List UInt8)) :
    behind env (.declared type tracked false) content = content (.of spec type) := by
  have hcheck {α : Type} (next : TypeSpec → Write α) :
      MonadExcept.ofExcept (env.registry.resolve type) >>= next = next spec := by
    rw [h]
    rfl
  simp [behind, enter, hcheck]

/-- Annotations stand before the content. -/
theorem behind_annotated (h : env.registry.resolve type = .ok spec) (tracked : Bool)
    (content : Layout → Write (List UInt8)) :
    behind env (.declared type tracked true) content = (do
      let head ← annotations env type tracked spec
      return head ++ (← behind env (.declared type tracked false) content)) := by
  have hcheck {α : Type} (next : TypeSpec → Write α) :
      MonadExcept.ofExcept (env.registry.resolve type) >>= next = next spec := by
    rw [h]
    rfl
  simp [behind, enter, hcheck]

/-- An annotated value is its annotations and then the value without them. -/
theorem datum_annotated (h : env.registry.resolve type = .ok spec) (depth : Nat) (tracked : Bool) :
    (v : Datum) → v.isPresent = true →
    datum env depth (.declared type tracked true) v = (do
      let head ← annotations env type tracked spec
      return head ++ (← datum env depth (.declared type tracked false) v))
  | .bool _, _ | .int _ _, _ | .float32 _, _ | .float64 _, _ | .bytes _, _ | .unit, _
  | .seq _ _, _ | .tuple _, _ | .map _ _, _ | .struct _ _, _
  | .unitVariant _ _ _, _ | .newtypeVariant _ _ _ _, _ | .tupleVariant _ _ _ _, _
  | .structVariant _ _ _ _, _ => by
    rw [datum, datum]
    exact behind_annotated h tracked _
  | .text _, _ => by
    rw [datum, datum, text, text]
    exact behind_annotated h tracked _
  | .char _, _ => by
    rw [datum, datum, text, text]
    · exact behind_annotated h tracked _
    · rintro ⟨⟩
    · rintro ⟨⟩
  | .some content, hpresent => by
    rw [datum, datum]
    · exact datum_annotated h depth tracked content hpresent
    · rintro ⟨⟩
    · rintro ⟨⟩
  | .newtype content, hpresent => by
    rw [datum, datum]
    exact datum_annotated h depth tracked content hpresent

end Write

/-- What a shape stands for opens to what the shape opens to. -/
theorem Shape.Opens.of_resolve {shapes : Shapes} {shape root : Shape}
    (h : Opens shapes (shapes.resolve shape) root) : Opens shapes shape root := by
  cases h with
  | here =>
    rw [Shapes.resolve_resolve]
    exact .here shape
  | inside hshape hinner =>
    rw [Shapes.resolve_resolve] at hshape
    exact .inside hshape hinner

/-- A value of a type with a layout of its own is written plainly behind its annotations, and
it is not missing. -/
theorem Write.datum_of_ext {env : WriteEnv} {type : FieldType} {spec : TypeSpec}
    (hspec : env.registry.resolve type = .ok spec) {registration : Registration}
    (hrole : spec.role = .ext registration) (depth : Nat) (tracked : Bool) {shapes : Shapes}
    {shape : Shape} {v : Datum} (h : shape.Holds shapes v)
    (hroot : ∀ root, shape.Opens shapes root → root.isOption = false ∧ root ≠ .char) :
    v.isPresent = true ∧
      datum env depth (.declared type tracked false) v = datum env depth .plain v := by
  have hlayout : Layout.of spec type = .plain := by
    rw [Layout.of, hrole]
  induction h with
  | none content | some h ih => cases (hroot _ (.here _)).1
  | char c => exact absurd rfl (hroot _ (.here _)).2
  | newtype h ih =>
    have hinner := ih fun root hopens => hroot root (.inside rfl hopens)
    refine ⟨hinner.1, ?_⟩
    rw [datum, datum]
    exact hinner.2
  | user h ih => exact ih fun root hopens => hroot root hopens.of_resolve
  | string s | str s =>
    refine ⟨rfl, ?_⟩
    rw [datum, datum, text, text, scalar, scalar, behind_declared hspec, behind_plain, hlayout]
  | bool b | int h | float32 bits | float64 bits | bytes content | byteSlice content =>
    refine ⟨rfl, ?_⟩
    rw [datum, datum, scalar, scalar, behind_declared hspec, behind_plain, hlayout]
  | newtypeVariant | tupleVariant | structVariant =>
    refine ⟨rfl, ?_⟩
    rw [datum, datum, variant, variant, behind_declared hspec, behind_plain, hlayout]
  | unit | unitStruct name | list h | set h | map hkey hvalue | tuple hlength h
  | tupleStruct hlength h | struct hnames h | unitVariant hvariant hindex =>
    refine ⟨rfl, ?_⟩
    rw [datum, datum, behind_declared hspec, behind_plain, hlayout]

namespace TypeSpec

variable {spec : TypeSpec} {shapes : Shapes} {hosts : HostType → Prop} {shape : Shape}

/-- A type whose role fits a shape is a user type. -/
theorem exists_registration_of_fits (h : spec.role.Fits shapes hosts shape) :
    ∃ registration, spec.registration? = some registration := by
  unfold registration?
  generalize spec.role = role at h
  cases h with
  | struct hfields hmembers => exact ⟨_, rfl⟩
  | enum hvariants => exact ⟨_, rfl⟩
  | ext hroot => exact ⟨_, rfl⟩

/-- The fields of a type whose role fits a shape are of shared types. -/
theorem among_of_fits (h : spec.role.Fits shapes hosts shape) :
    ∀ field ∈ spec.fields, field.type.Among hosts := by
  intro field hfield
  unfold fields at hfield
  generalize spec.role = role at h hfield
  cases h with
  | struct hfields hmembers =>
    have hpair := List.mem_map_of_mem (f := fun field => (field.name, field.type)) hfield
    rw [hfields] at hpair
    obtain ⟨member, hmember, heq⟩ := List.mem_map.mp hpair
    have htype : member.content.declared = field.type := (Prod.mk.inj heq).2
    exact htype ▸ (hmembers member hmember).among
  | enum hvariants => cases hfield
  | ext hroot => cases hfield

end TypeSpec

namespace Peers

variable {peers : Peers} {hosts : HostType → Prop}

/-- The reader needs no type information of the type, or understands it. -/
inductive Understands (peers : Peers) (hosts : HostType → Prop) (spec : TypeSpec) : Prop
  /-- A builtin is known by its kind. -/
  | builtin {kind : Kind} (h : spec.role = .builtin kind) (hkind : kind.isUser = false)
    (hreadable : kind.isReadable = true) : Understands peers hosts spec
  /-- A user type is known to the reader, and so are the types of its fields. -/
  | user {registration : Registration} (h : spec.registration? = some registration)
    (hknown : peers.Knows spec)
    (hfields : ∀ field ∈ spec.fields, field.type.Among hosts) :
    Understands peers hosts spec

/-- A flag is read back. -/
theorem mirrors_flag (flag : RefFlag) :
    peers.Mirrors (pure [flag.toByte]) (Read.flag true) flag :=
  .pure fun _ => (Read.Reads.take (Take.reads_byte flag.toByte)).bind_nil
    (.ofExcept (RefFlag.ofByte_toByte flag))

/-- The flag in front of a value is read back, and without one there is a value. -/
theorem exists_mirrors_flag (peers : Peers) (config : Config) (type : FieldType) (tracked : Bool)
    (spec : TypeSpec) :
    ∃ flag : RefFlag, (flag = .notNull ∨ flag = .refValue) ∧
      peers.Mirrors (pure ((Write.flag config type tracked spec).toList.map RefFlag.toByte))
        (Read.flag (type.nullable || tracked || spec.isUser)) flag := by
  unfold Write.flag
  by_cases hneeds : (type.nullable || tracked || spec.isUser) = true
  · rw [if_pos hneeds, hneeds]
    by_cases hrecorded : (config.refMode == .tracking && (tracked || spec.tracked)) = true
    · rw [if_pos hrecorded]
      exact ⟨.refValue, .inr rfl, mirrors_flag .refValue⟩
    · rw [if_neg hrecorded]
      exact ⟨.notNull, .inl rfl, mirrors_flag .notNull⟩
  · have hfree := Bool.eq_false_iff.mpr hneeds
    rw [if_neg hneeds, hfree]
    exact ⟨.notNull, .inl rfl, .pure fun _ => .pure _⟩

/-- The annotations of a value are understood, if the type information is. -/
theorem mirrors_enter {spec : TypeSpec} {type : FieldType} {tracked : Bool}
    (hresolve : peers.write.registry.resolve type = .ok spec)
    (huser : (spec.kind peers.write.config.compatible).isUser = spec.isUser) {wire : WireType}
    (hwire : WireType.ofFieldType peers.write.registry peers.write.config.compatible type tracked =
      .ok wire) {resolved : Resolved}
    (hinfo : peers.Mirrors (Write.info peers.write spec)
      (Read.info peers.read (spec.kind peers.write.config.compatible)) resolved)
    (recording : Bool) :
    peers.Mirrors (Write.annotations peers.write type tracked spec)
      (Read.enter peers.read recording (.declared wire)) (.value wire resolved) := by
  obtain ⟨other, hother, hid, hnullable, htracked⟩ := WireType.of_ofFieldType_ok hwire
  cases hresolve.symm.trans hother
  have hkind := spec.kindOf_typeId peers.write.config.compatible
  have hneeds : (wire.nullable || wire.tracked ||
      (spec.kind peers.write.config.compatible).isUser) =
      (type.nullable || tracked || spec.isUser) := by
    rw [hnullable, htracked, huser]
  obtain ⟨flag, hflag, hread⟩ :=
    exists_mirrors_flag peers peers.write.config type tracked spec
  have hbehind : peers.Mirrors (Write.info peers.write spec)
      (Read.behindFlag peers.read recording wire (spec.kind peers.write.config.compatible) flag)
      (.value wire resolved) := by
    rcases hflag with rfl | rfl
    · exact hinfo.map (Entry.value wire)
    · refine hinfo.bind_nil fun _ => ?_
      cases recording with
      | true => exact (Read.reads_record wire resolved).bind_nil (.pure _)
      | false => exact .pure _
  rw [Read.enter, hid]
  refine Mirrors.check hkind ?_
  rw [hneeds]
  exact peers.pairing.prepend hread hbehind

/-- A missing value is announced by its flag alone. -/
theorem mirrors_enter_null {type : FieldType} (hnullable : type.nullable = true) {tracked : Bool}
    {wire : WireType}
    (hwire : WireType.ofFieldType peers.write.registry peers.write.config.compatible type tracked =
      .ok wire) (recording : Bool) :
    peers.Mirrors (pure [RefFlag.null.toByte]) (Read.enter peers.read recording (.declared wire))
      .null := by
  obtain ⟨spec, -, hid, hsame, -⟩ := WireType.of_ofFieldType_ok hwire
  have hkind := spec.kindOf_typeId peers.write.config.compatible
  rw [← hid] at hkind
  refine Mirrors.check hkind ?_
  rw [hsame, hnullable]
  exact (mirrors_flag .null).bind_nil fun _ => .pure _

/-- A builtin is told of without type information. -/
theorem mirrors_info_of_builtin {spec : TypeSpec} {kind : Kind} (hrole : spec.role = .builtin kind)
    (huser : kind.isUser = false) :
    peers.Mirrors (Write.info peers.write spec)
      (Read.info peers.read (spec.kind peers.write.config.compatible)) (.known kind) := by
  have hnone : spec.isUser = false := by
    rw [TypeSpec.isUser, TypeSpec.registration?, hrole]
    rfl
  have hsame : spec.kind peers.write.config.compatible = kind := by
    rw [TypeSpec.kind, hrole]
  rw [Write.info, Read.info, hsame, hnone, huser, if_neg Bool.false_ne_true,
    if_neg Bool.false_ne_true]
  exact .pure fun _ => .pure _

namespace Agree

variable (h : peers.Agree hosts)
include h

/-- Type information tells the type, even of a builtin. -/
theorem exists_mirrors_typeInfo_of_understands {spec : TypeSpec}
    (hmem : spec ∈ peers.write.registry.specs) (hspec : peers.Understands hosts spec) :
    ∃ resolved, peers.Describes spec resolved ∧
      peers.Mirrors (Write.typeInfo peers.write.registry peers.write.config.compatible spec)
        (Read.typeInfo peers.read) resolved := by
  cases hspec with
  | @builtin kind hrole huser hreadable =>
    exact ⟨.known kind, .builtin hrole, mirrors_typeInfo_of_builtin hrole huser hreadable⟩
  | user hregistration hknown hfields =>
    exact h.exists_mirrors_typeInfo hmem hregistration hknown hfields

omit h in
/-- A builtin that can be declared is not a user type. -/
theorem understands_of_builtin {spec : TypeSpec} {kind : Kind} (hrole : spec.role = .builtin kind)
    (hkind : kind ∈ Registry.scalarBuiltins.map Prod.snd ++ Registry.otherBuiltins) :
    peers.Understands hosts spec := by
  have hall : ∀ kind ∈ Registry.scalarBuiltins.map Prod.snd ++ Registry.otherBuiltins,
      kind.isUser = false ∧ kind.isReadable = true := by
    decide
  exact .builtin hrole (hall kind hkind).1 (hall kind hkind).2

/-- A shared type that is registered is understood. -/
theorem understands_of_ofHost? {host : HostType} (hhost : hosts host) {spec : TypeSpec}
    (hspec : peers.write.registry.ofHost? host = some spec) :
    peers.Understands hosts spec ∧ spec.role.Suits peers.read.shapes hosts host := by
  obtain ⟨own, other, hown, hother, hrole, hsuits⟩ | ⟨-, hnone, -⟩ := h.types host hhost
  · cases hspec.symm.trans hown
    have hhost : spec.host = some host := by
      simpa using List.find?_some hspec
    have hsame : other.host = some host := by
      simpa using List.find?_some hother
    have hknown : peers.Knows spec :=
      .inr ⟨other, Registry.mem_of_ofHost? hother, hsame.trans hhost.symm, hrole⟩
    obtain ⟨registration, hregistration⟩ := TypeSpec.exists_registration_of_fits hsuits.fits
    exact ⟨.user hregistration hknown (TypeSpec.among_of_fits hsuits.fits), hsuits⟩
  · cases hspec.symm.trans hnone

/-- A shared user type is understood. -/
theorem exists_understands_user {name : String} (hname : hosts (.user name)) :
    ∃ spec, peers.write.registry.ofHost? (.user name) = some spec ∧
      peers.Understands hosts spec ∧ spec.role.Suits peers.read.shapes hosts (.user name) := by
  obtain ⟨spec, -, hspec, -⟩ | ⟨hcollection, -⟩ := h.types _ hname
  · exact ⟨spec, hspec, h.understands_of_ofHost? hname hspec⟩
  · cases hcollection

/-- Every declared type over shared types is registered with the writer, and the reader
understands it. -/
theorem exists_understands {type : FieldType} (htype : type.Among hosts) :
    ∃ spec, peers.write.registry.resolve type = .ok spec ∧ peers.Understands hosts spec := by
  rcases htype.cases with ⟨host, nullable, rfl, hhost⟩ | ⟨name, kind, hname, hsort, hshared⟩
  · simp only [Registry.resolve_eq_ok_iff]
    rcases hhost.builtin_or_user with ⟨kind, hmem⟩ | ⟨name, rfl, hshared⟩
    · obtain ⟨spec, hspec, hrole⟩ := h.written.exists_ofHost? hmem
      have hkind := List.mem_map_of_mem (f := Prod.snd) hmem
      exact ⟨spec, hspec, understands_of_builtin hrole (List.mem_append_left _ hkind)⟩
    · obtain ⟨spec, hspec, hunderstands, -⟩ := h.exists_understands_user hshared
      exact ⟨spec, hspec, hunderstands⟩
  · cases hfound : peers.write.registry.ofHost? (.collection name) with
    | some spec =>
      exact ⟨spec, Registry.resolve_of_ofHost? (hname ▸ hfound),
        (h.understands_of_ofHost? hshared hfound).1⟩
    | none =>
      have hkind := FieldType.mem_of_sort? hsort
      obtain ⟨spec, hspec, hrole⟩ := h.written.exists_builtin? hkind
      exact ⟨spec, Registry.resolve_of_builtin? (hname ▸ hfound) hsort hspec,
        understands_of_builtin hrole (List.mem_append_right _ hkind)⟩

end Agree

/-- The peers are linked, those of the given types that are registered suit their roles, and the
reader is told of every one of them that the writer manages to announce. Of the others no value is
written, unless they are collections. -/
structure Concur (peers : Peers) (hosts : HostType → Prop) : Prop extends peers.Linked where
  /-- The reader goes at least as deep as the writer. -/
  depth : peers.write.config.maxDepth ≤ peers.read.config.maxDepth
  /-- The role of a registered type suits it. -/
  suits : ∀ host spec, hosts host → peers.write.registry.ofHost? host = some spec →
    spec.role.Suits peers.read.shapes hosts host
  /-- The reader is told of what is announced. -/
  told : ∀ host spec, hosts host → peers.write.registry.ofHost? host = some spec →
    ∀ before bytes after, before.Sound peers.write.registry →
      Write.typeInfo peers.write.registry peers.write.config.compatible spec before =
        .ok bytes after →
      ∃ resolved, peers.Describes spec resolved ∧
        peers.Mirrors (Write.typeInfo peers.write.registry peers.write.config.compatible spec)
          (Read.typeInfo peers.read) resolved

/-- Peers with the same types concur. -/
theorem Agree.concur (h : peers.Agree hosts) : peers.Concur hosts := by
  refine { h.linked with depth := h.depth, suits := ?_, told := ?_ }
  · exact fun host spec hhost hspec => (h.understands_of_ofHost? hhost hspec).2
  · intro host spec hhost hspec before bytes after hsound hok
    exact h.exists_mirrors_typeInfo_of_understands (Registry.mem_of_ofHost? hspec)
      (h.understands_of_ofHost? hhost hspec).1

namespace Concur

variable (h : peers.Concur hosts)
include h

/-- What a declared type resolves to is a builtin or registered for it. -/
theorem builtin_or_registered {type : FieldType} (htype : type.Among hosts)
    {spec : TypeSpec} (hresolve : peers.write.registry.resolve type = .ok spec) :
    (∃ kind, spec.role = .builtin kind ∧ kind.isUser = false ∧ kind.isReadable = true) ∨
      hosts type.host ∧ peers.write.registry.ofHost? type.host = some spec := by
  have hall : ∀ kind ∈ Registry.scalarBuiltins.map Prod.snd ++ Registry.otherBuiltins,
      kind.isUser = false ∧ kind.isReadable = true := by
    decide
  rcases Registry.of_resolve_ok hresolve with hspec | ⟨-, kind, hsort, hspec⟩
  · rcases htype.cases with ⟨host, nullable, rfl, hhost⟩ | ⟨name, kind, hname, -, hshared⟩
    · rcases hhost.builtin_or_user with ⟨kind, hmem⟩ | ⟨name, rfl, hshared⟩
      · obtain ⟨own, hown, hrole⟩ := h.written.exists_ofHost? hmem
        have hfound : peers.write.registry.ofHost? host = some spec := hspec
        cases hfound.symm.trans hown
        have hkind := List.mem_map_of_mem (f := Prod.snd) hmem
        exact .inl ⟨kind, hrole, hall kind (List.mem_append_left _ hkind)⟩
      · exact .inr ⟨hshared, hspec⟩
    · exact .inr ⟨hname ▸ hshared, hspec⟩
  · have hkind := FieldType.mem_of_sort? hsort
    exact .inl ⟨kind, Registry.role_of_builtin? hspec, hall kind (List.mem_append_right _ hkind)⟩

/-- The reader is told of a declared type whose type information was written. -/
theorem exists_mirrors_typeInfo {type : FieldType} (htype : type.Among hosts)
    {spec : TypeSpec} (hresolve : peers.write.registry.resolve type = .ok spec)
    {before after : WriteTables} {bytes : List UInt8}
    (hsound : before.Sound peers.write.registry)
    (hok : Write.typeInfo peers.write.registry peers.write.config.compatible spec before =
      .ok bytes after) :
    ∃ resolved, peers.Describes spec resolved ∧
      peers.Mirrors (Write.typeInfo peers.write.registry peers.write.config.compatible spec)
        (Read.typeInfo peers.read) resolved := by
  rcases h.builtin_or_registered htype hresolve with ⟨kind, hrole, huser, hreadable⟩ |
    ⟨hhost, hspec⟩
  · exact ⟨_, .builtin hrole, mirrors_typeInfo_of_builtin hrole huser hreadable⟩
  · exact h.told _ spec hhost hspec _ _ _ hsound hok

/-- The annotations of a value that were written are understood. -/
theorem exists_mirrors_enter {type : FieldType} (htype : type.Among hosts)
    {spec : TypeSpec} (hresolve : peers.write.registry.resolve type = .ok spec) {tracked : Bool}
    {wire : WireType}
    (hwire : WireType.ofFieldType peers.write.registry peers.write.config.compatible type tracked =
      .ok wire) {before after : WriteTables} {bytes : List UInt8}
    (hsound : before.Sound peers.write.registry)
    (hok : Write.annotations peers.write type tracked spec before = .ok bytes after)
    (recording : Bool) :
    ∃ resolved, peers.Describes spec resolved ∧
      peers.Mirrors (Write.annotations peers.write type tracked spec)
        (Read.enter peers.read recording (.declared wire)) (.value wire resolved) := by
  rcases h.builtin_or_registered htype hresolve with ⟨kind, hrole, hbuiltin, -⟩ | ⟨hhost, hspec⟩
  · have huser : (spec.kind peers.write.config.compatible).isUser = spec.isUser := by
      rw [TypeSpec.kind, TypeSpec.isUser, TypeSpec.registration?, hrole, hbuiltin]
      rfl
    exact ⟨_, .builtin hrole,
      mirrors_enter hresolve huser hwire (mirrors_info_of_builtin hrole hbuiltin) recording⟩
  · obtain ⟨registration, hregistration⟩ :=
      TypeSpec.exists_registration_of_fits (h.suits _ spec hhost hspec).fits
    have hkind :=
      (TypeSpec.kind_of_registration hregistration peers.write.config.compatible).1
    have huser : spec.isUser = true := Option.isSome_iff_exists.mpr ⟨_, hregistration⟩
    obtain ⟨info, between, hinfo, -⟩ := exists_of_bind_ok hok
    rw [Write.info, if_pos huser] at hinfo
    obtain ⟨resolved, htold, hmirrors⟩ := h.told _ spec hhost hspec _ _ _ hsound hinfo
    refine ⟨resolved, htold, mirrors_enter hresolve (hkind.trans huser.symm) hwire ?_ recording⟩
    rw [Write.info, Read.info, if_pos huser, if_pos hkind]
    exact hmirrors

end Concur

end Peers

end SchemaWire
