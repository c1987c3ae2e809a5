import SchemaWire.Proofs.Data.Depth
import SchemaWire.Proofs.Data.InTurn

/-!
# Reading under another limit

A message is written under one limit and read under another one. What fits under the reader's limit
is read. Otherwise reading goes well up to the first struct that is one too many, and fails there
for the limit.
-/

namespace SchemaWire

namespace Peers

variable {peers : Peers} {α β : Type}

/-- Reading what the writer wrote fails for the limit. -/
def Exceeds (peers : Peers) (writer : Write (List UInt8)) (reader : Read α) : Prop :=
  ∀ before bytes after, before.Sound peers.write.registry → after.queue <+: peers.queue →
    writer before = .ok bytes after → ∀ back refs, ∃ left,
      reader ⟨bytes ++ back, before.names, refs⟩ =
        .error (.depthExceeded peers.read.config.maxDepth) left

/-- The reader reads what the writer writes, if it fits, and fails for the limit otherwise. -/
structure Meets (peers : Peers) (fits : Prop) (writer : Write (List UInt8)) (reader : Read α)
    (value : α) : Prop where
  /-- The writer keeps its tables. -/
  keeps : Write.Keeps peers.write.registry writer
  /-- What fits is read. -/
  fitting : fits → peers.Mirrors writer reader value
  /-- What does not fit is not read. -/
  exceeding : ¬fits → peers.Exceeds writer reader

section Sequencing

variable {writer next : Write (List UInt8)} {reader : Read α} {then' : α → Read β} {a : α} {b : β}
  {fits others : Prop}

/-- Behind what is read, reading fails for the limit. -/
theorem Mirrors.exceeds_append (h : peers.Mirrors writer reader a)
    (hkeeps : Write.Keeps peers.write.registry next) (hnext : peers.Exceeds next (then' a)) :
    peers.Exceeds (do return (← writer) ++ (← next)) (reader >>= then') := by
  intro before bytes after hsound hqueue hok back refs
  obtain ⟨front, between, hfront, hok⟩ := exists_of_bind_ok hok
  obtain ⟨rest, last, hrest, hok⟩ := exists_of_bind_ok hok
  cases hok
  have hprefix := (hkeeps _ _ _ hrest).queue.trans hqueue
  obtain ⟨middle, hread⟩ := h.reads _ _ _ hsound hprefix hfront (rest ++ back) refs
  have hbetween := (h.keeps _ _ _ hfront).sound hsound
  obtain ⟨left, hfails⟩ := hnext _ _ _ hbetween hqueue hrest back middle
  rw [List.append_assoc]
  exact ⟨left, (bind_of_ok hread).trans hfails⟩

/-- A sequence fails for the limit where its first part does. -/
theorem Exceeds.append (h : peers.Exceeds writer reader)
    (hkeeps : Write.Keeps peers.write.registry next) (then' : α → Read β) :
    peers.Exceeds (do return (← writer) ++ (← next)) (reader >>= then') := by
  intro before bytes after hsound hqueue hok back refs
  obtain ⟨front, between, hfront, hok⟩ := exists_of_bind_ok hok
  obtain ⟨rest, last, hrest, hok⟩ := exists_of_bind_ok hok
  cases hok
  have hprefix := (hkeeps _ _ _ hrest).queue.trans hqueue
  obtain ⟨left, hfails⟩ := h _ _ _ hsound hprefix hfront (rest ++ back) refs
  rw [List.append_assoc]
  exact ⟨left, bind_of_error hfails⟩

/-- What is made of a value afterwards does not matter where there is none. -/
theorem Exceeds.bind (h : peers.Exceeds writer reader) (then' : α → Read β) :
    peers.Exceeds writer (reader >>= then') := by
  intro before bytes after hsound hqueue hok back refs
  obtain ⟨left, hfails⟩ := h _ _ _ hsound hqueue hok back refs
  exact ⟨left, bind_of_error hfails⟩

/-- A reader may take first what has not been written at all. -/
theorem Exceeds.nil_bind {first : Read α} (hfirst : ∀ names, first.Reads names [] a names)
    (h : peers.Exceeds writer (then' a)) : peers.Exceeds writer (first >>= then') := by
  intro before bytes after hsound hqueue hok back refs
  obtain ⟨told, hread⟩ := hfirst before.names (bytes ++ back) refs
  obtain ⟨left, hfails⟩ := h _ _ _ hsound hqueue hok back told
  exact ⟨left, (bind_of_ok hread).trans hfails⟩

/-- A reader may check first what is known. -/
theorem Exceeds.check {e : Except Error α} (he : e = .ok a) (h : peers.Exceeds writer (then' a)) :
    peers.Exceeds writer (MonadExcept.ofExcept e >>= then') :=
  .nil_bind (fun _ => Read.Reads.ofExcept he) h

/-- What is read without looking at the limit fits. -/
theorem Mirrors.meets (h : peers.Mirrors writer reader a) (hfits : fits) :
    peers.Meets fits writer reader a :=
  ⟨h.keeps, fun _ => h, fun hnot => absurd hfits hnot⟩

namespace Meets

/-- It matters only whether the value fits. -/
theorem congr (h : peers.Meets fits writer reader a) (hiff : fits ↔ others) :
    peers.Meets others writer reader a :=
  ⟨h.keeps, fun hfits => h.fitting (hiff.mpr hfits),
    fun hnot => h.exceeding fun hfits => hnot (hiff.mp hfits)⟩

/-- Two writers in sequence are read by two readers in sequence, as far as both fit. -/
theorem append (h : peers.Meets fits writer reader a) (hnext : peers.Meets others next (then' a) b) :
    peers.Meets (fits ∧ others) (do return (← writer) ++ (← next)) (reader >>= then') b := by
  refine ⟨h.keeps.bind fun _ => hnext.keeps.bind fun _ => .pure _, fun hboth => ?_, fun hnot => ?_⟩
  · exact (h.fitting hboth.1).append (hnext.fitting hboth.2)
  · by_cases hfits : fits
    · exact (h.fitting hfits).exceeds_append hnext.keeps
        (hnext.exceeding fun hothers => hnot ⟨hfits, hothers⟩)
    · exact (h.exceeding hfits).append hnext.keeps then'

/-- Three writers in sequence are read by three readers in sequence, as far as all of them fit. -/
theorem append₃ {γ : Type} {last : Write (List UInt8)} {final : α → β → Read γ} {c : γ}
    {behind : Prop} (h : peers.Meets fits writer reader a)
    (hnext : peers.Meets others next (then' a) b) (hlast : peers.Meets behind last (final a b) c) :
    peers.Meets (fits ∧ others ∧ behind)
      (do
        let first ← writer
        let second ← next
        return first ++ second ++ (← last))
      (do
        let a ← reader
        let b ← then' a
        final a b) c := by
  have hall : peers.Meets (fits ∧ others ∧ behind)
      (do return (← writer) ++ (← (do return (← next) ++ (← last))))
      (reader >>= fun a => then' a >>= final a) c :=
    h.append (hnext.append hlast)
  simpa only [bind_assoc, pure_bind, List.append_assoc] using hall

/-- What is made of the value afterwards has not been written. -/
theorem map (h : peers.Meets fits writer reader a) (f : α → β) :
    peers.Meets fits writer (do return f (← reader)) (f a) :=
  ⟨h.keeps, fun hfits => (h.fitting hfits).map f, fun hnot => (h.exceeding hnot).bind _⟩

end Meets

end Sequencing

section Loops

variable {env : WriteEnv} {registry : Registry} {depth limit : Nat} (hdepth : depth ≤ limit)
include hdepth

/-- Elements are read as long as the deepest of them fits. -/
theorem meets_items {place : Place} {type : FieldType} {read : Elements ReadState} {shape : Shape}
    {items : List Datum}
    (h : ∀ v ∈ items, ∀ index, peers.Meets (depth + v.nesting registry type ≤ limit)
      (Write.datum env depth place v) (read index shape) v) (index : Nat) :
    peers.Meets (depth + Datum.nestingOfItems registry type items ≤ limit)
      (Write.items env depth place items) (read.collect shape items.length index) items := by
  induction items generalizing index with
  | nil =>
    have hnil : peers.Mirrors (pure []) (pure []) ([] : List Datum) := .pure fun _ => .pure []
    rw [Write.items]
    exact hnil.meets hdepth
  | cons first rest ih =>
    have hfirst := h first List.mem_cons_self index
    have hrest := ih (fun v hv => h v (List.mem_cons_of_mem _ hv)) (index + 1)
    rw [Write.items, Datum.nestingOfItems]
    exact (hfirst.append (hrest.map (first :: ·))).congr (by omega)

/-- Entries are read as long as the deepest key or value fits. -/
theorem meets_entries {keyPlace valuePlace : Place} {keyType valueType : FieldType}
    {read : Entries ReadState} {key value : Shape} {content : List (Datum × Datum)}
    (hkey : ∀ entry ∈ content, ∀ index,
      peers.Meets (depth + entry.1.nesting registry keyType ≤ limit)
        (Write.datum env depth keyPlace entry.1) (read.key index key) entry.1)
    (hvalue : ∀ entry ∈ content, ∀ index,
      peers.Meets (depth + entry.2.nesting registry valueType ≤ limit)
        (Write.datum env depth valuePlace entry.2) (read.value index value) entry.2)
    (index : Nat) :
    peers.Meets (depth + Datum.nestingOfEntries registry keyType valueType content ≤ limit)
      (Write.entries env depth keyPlace valuePlace content)
      (read.collect key value content.length index) content := by
  induction content generalizing index with
  | nil =>
    have hnil : peers.Mirrors (pure []) (pure []) ([] : List (Datum × Datum)) :=
      .pure fun _ => .pure []
    rw [Write.entries]
    exact hnil.meets hdepth
  | cons first rest ih =>
    obtain ⟨k, v⟩ := first
    have hk := hkey (k, v) List.mem_cons_self index
    have hv := hvalue (k, v) List.mem_cons_self index
    have hrest := ih (fun entry hmem => hkey entry (List.mem_cons_of_mem _ hmem))
      (fun entry hmem => hvalue entry (List.mem_cons_of_mem _ hmem)) (index + 1)
    rw [Write.entries, Datum.nestingOfEntries]
    exact (hk.append₃ hv (hrest.map ((k, v) :: ·))).congr (by dsimp only; omega)

end Loops

/-- With the given bound, values that are low enough are read where they fit, and reading them fails
for the limit otherwise, from in front of their annotations and from behind them. The writer of the
values had a limit of its own. -/
structure Limits (peers : Peers) (free : Nat) (hosts : HostType → Prop) (fuel : Nat) : Prop where
  /-- From in front of the annotations. -/
  declared : ∀ {shape : Shape} {v : Datum}, shape.Declarable hosts →
    shape.Holds peers.read.shapes v → v.height + 1 < fuel →
    ∀ {tracked : Bool} {wire : WireType},
    WireType.ofFieldType peers.write.registry peers.write.config.compatible shape.declared tracked =
      .ok wire → ∀ (depth : Nat) (recording : Bool), depth ≤ peers.write.config.maxDepth →
    peers.Meets
      (depth + v.nesting peers.write.registry shape.declared ≤ peers.write.config.maxDepth)
      (Write.datum (peers.write.limited free) depth (.declared shape.declared tracked true) v)
      (Read.datumWithin peers.read fuel ⟨depth, recording⟩ (.declared wire) shape) v
  /-- From behind the annotations. -/
  entered : ∀ {shape : Shape} {v : Datum}, shape.Declarable hosts → shape.isOption = false →
    shape.Holds peers.read.shapes v → v.height + 1 < fuel →
    ∀ {type : FieldType} {spec : TypeSpec} {wire : WireType} {resolved : Resolved},
    peers.Opened shape type spec wire resolved → ∀ (depth : Nat) (tracked recording : Bool),
    depth ≤ peers.write.config.maxDepth →
    peers.Meets
      (depth + v.nesting peers.write.registry type ≤ peers.write.config.maxDepth)
      (Write.datum (peers.write.limited free) depth (.declared type tracked false) v)
      (Read.datumWithin peers.read fuel ⟨depth, recording⟩ (.entered wire resolved) shape) v

/-- What a writer writes under another limit is read where it fits, if what the writer writes under
its own limit is read. -/
theorem Meets.of_mirrors {free : Nat} {v : Datum} {type : FieldType} {tracked annotated : Bool}
    {depth : Nat} {reader : Read Datum}
    (h : peers.Mirrors (Write.datum peers.write depth (.declared type tracked annotated) v) reader v)
    (hdepth : depth ≤ peers.write.config.maxDepth)
    (hexceeding : ¬depth + v.nesting peers.write.registry type ≤ peers.write.config.maxDepth →
      peers.Exceeds
        (Write.datum (peers.write.limited free) depth (.declared type tracked annotated) v) reader) :
    peers.Meets (depth + v.nesting peers.write.registry type ≤ peers.write.config.maxDepth)
      (Write.datum (peers.write.limited free) depth (.declared type tracked annotated) v)
      reader v := by
  have hkeeps : Write.Keeps peers.write.registry
      (Write.datum (peers.write.limited free) depth (.declared type tracked annotated) v) :=
    Write.keeps_datum v depth _
  have hbounded := @Write.bounded_datum (peers.write.limited free) peers.write.config.maxDepth v type
    tracked annotated depth hdepth
  refine ⟨hkeeps, fun hfits => ⟨hkeeps, fun before bytes after hsound hqueue hok => ?_⟩, hexceeding⟩
  exact h.reads _ _ _ hsound hqueue (hbounded.within hfits _ _ _ hok)

namespace Limits

variable {hosts : HostType → Prop} {free fuel : Nat} (ih : peers.Limits free hosts fuel)
include ih

/-- What a value holds is read where it fits: the value is higher. -/
theorem meets_below {element : Shape} (hdeclarable : element.Declarable hosts) {inner : WireType}
    (hinner : WireType.ofFieldType peers.write.registry peers.write.config.compatible
      element.declared false = .ok inner) {v : Datum} (hholds : element.Holds peers.read.shapes v)
    {height : Nat} (hle : v.height ≤ height) (hheight : height + 1 < fuel) {depth : Nat}
    (hdepth : depth ≤ peers.write.config.maxDepth) (recording : Bool) :
    peers.Meets
      (depth + v.nesting peers.write.registry element.declared ≤ peers.write.config.maxDepth)
      (Write.datum (peers.write.limited free) depth (.declared element.declared false true) v)
      (Read.datumWithin peers.read fuel ⟨depth, recording⟩ (.declared inner) element) v :=
  ih.declared hdeclarable hholds (Nat.lt_of_le_of_lt (Nat.succ_le_succ hle) hheight) hinner depth
    recording hdepth

/-- Elements behind their number are not read where the deepest of them does not fit. -/
theorem exceeds_seq {shape element : Shape} {wire inner : WireType} {items : List Datum}
    (hdeclarable : element.Declarable hosts)
    (hitems : ∀ v ∈ items, element.Holds peers.read.shapes v)
    (hheight : Datum.heightOfItems items + 1 < fuel) (hargs : wire.args = [inner])
    (hinner : WireType.ofFieldType peers.write.registry peers.write.config.compatible
      element.declared false = .ok inner)
    (hvisit : ∀ (read : Elements ReadState) count, read.visit count shape = (do
      return (.seq true (← read.collect element count 0), count)))
    {depth : Nat} (hdepth : depth ≤ peers.write.config.maxDepth) (recording : Bool)
    (hdeep : ¬depth + Datum.nestingOfItems peers.write.registry element.declared items ≤
      peers.write.config.maxDepth) :
    peers.Exceeds
      (do
        let count ← Write.size true items.length
        return count ++ (← Write.items (peers.write.limited free) depth
          (.declared element.declared false true) items))
      (Read.known peers.read
        (fun type => Read.datumWithin peers.read fuel ⟨depth, recording⟩ (.declared type))
        .list wire shape) := by
  have heach (v : Datum) (hmem : v ∈ items) :=
    ih.meets_below hdeclarable hinner (hitems v hmem) (Datum.height_le_of_mem_items hmem) hheight
      hdepth recording
  have hargument : Read.argument wire 0 = .ok inner := by
    rw [Read.argument, hargs]
    rfl
  let read : Elements ReadState := fun _ =>
    Read.datumWithin peers.read fuel ⟨depth, recording⟩ (.declared inner)
  have hread : peers.Meets
      (depth + Datum.nestingOfItems peers.write.registry element.declared items ≤
        peers.write.config.maxDepth)
      (Write.items (peers.write.limited free) depth (.declared element.declared false true) items)
      (read.collect element items.length 0) items :=
    meets_items hdepth (fun v hmem _ => heach v hmem) 0
  refine .check hargument ((Mirrors.size items.length).exceeds_append hread.keeps ?_)
  simp only [hvisit, bind_assoc, pure_bind]
  exact (hread.exceeding hdeep).bind _

/-- Entries behind their number are not read where the deepest key or value does not fit. -/
theorem exceeds_map (name : String) {key value : Shape} {wire keyType valueType : WireType}
    {entries : List (Datum × Datum)} (hkey : key.Declarable hosts)
    (hvalue : value.Declarable hosts)
    (hkeys : ∀ entry ∈ entries, key.Holds peers.read.shapes entry.1)
    (hvalues : ∀ entry ∈ entries, value.Holds peers.read.shapes entry.2)
    (hheight : Datum.heightOfEntries entries + 1 < fuel) (hargs : wire.args = [keyType, valueType])
    (hkeyType : WireType.ofFieldType peers.write.registry peers.write.config.compatible
      key.declared false = .ok keyType)
    (hvalueType : WireType.ofFieldType peers.write.registry peers.write.config.compatible
      value.declared false = .ok valueType)
    {depth : Nat} (hdepth : depth ≤ peers.write.config.maxDepth) (recording : Bool)
    (hdeep : ¬depth + Datum.nestingOfEntries peers.write.registry key.declared value.declared
      entries ≤ peers.write.config.maxDepth) :
    peers.Exceeds
      (do
        let count ← Write.size true entries.length
        return count ++ (← Write.entries (peers.write.limited free) depth
          (.declared key.declared false true) (.declared value.declared false true) entries))
      (Read.known peers.read
        (fun type => Read.datumWithin peers.read fuel ⟨depth, recording⟩ (.declared type))
        .map wire (.map name key value)) := by
  have hfirst (entry : Datum × Datum) (hmem : entry ∈ entries) :=
    ih.meets_below hkey hkeyType (hkeys entry hmem) (Datum.height_le_of_mem_entries hmem).1
      hheight hdepth recording
  have hsecond (entry : Datum × Datum) (hmem : entry ∈ entries) :=
    ih.meets_below hvalue hvalueType (hvalues entry hmem) (Datum.height_le_of_mem_entries hmem).2
      hheight hdepth recording
  have hargument : Read.argument wire 0 = .ok keyType ∧ Read.argument wire 1 = .ok valueType := by
    rw [Read.argument, Read.argument, hargs]
    exact ⟨rfl, rfl⟩
  let read : Entries ReadState :=
    ⟨fun _ => Read.datumWithin peers.read fuel ⟨depth, recording⟩ (.declared keyType),
      fun _ => Read.datumWithin peers.read fuel ⟨depth, recording⟩ (.declared valueType)⟩
  have hread : peers.Meets
      (depth + Datum.nestingOfEntries peers.write.registry key.declared value.declared entries ≤
        peers.write.config.maxDepth)
      (Write.entries (peers.write.limited free) depth (.declared key.declared false true)
        (.declared value.declared false true) entries)
      (read.collect key value entries.length 0) entries :=
    meets_entries hdepth (fun entry hmem _ => hfirst entry hmem)
      (fun entry hmem _ => hsecond entry hmem) 0
  refine .check hargument.1 (.check hargument.2 ?_)
  refine (Mirrors.size entries.length).exceeds_append hread.keeps ?_
  simp only [Entries.visit, bind_assoc, pure_bind]
  exact (hread.exceeding hdeep).bind _

/-- Fields that stand in step are read in turn, as far as the deepest of their values fits. -/
theorem meets_inTurn {declared : List FieldDescriptor} {fields : List SchemaField}
    {parts : List (Member Shape)} {content : List (String × Datum)}
    (h : peers.InStep hosts declared fields parts content)
    (hheight : Datum.heightOfFields content + 1 < fuel) {depth : Nat}
    (hdepth : depth ≤ peers.write.config.maxDepth) (recording : Bool) :
    peers.Meets
      (depth + Datum.nestingOfFields peers.write.registry declared content ≤
        peers.write.config.maxDepth)
      (Write.fields (peers.write.limited free) depth declared content)
      (Read.inTurn
        (fun type => Read.datumWithin peers.read fuel ⟨depth, recording⟩ (.declared type)) fields
        parts) (content.map Prod.snd) := by
  induction h with
  | nil =>
    have hnil : peers.Mirrors (pure []) (pure []) ([] : List Datum) := .pure fun _ => .pure []
    rw [Write.fields]
    exact hnil.meets hdepth
  | @cons field made part value declared fields parts content htype hwire hdeclarable hholds hrest
      ih' =>
    rw [Datum.heightOfFields] at hheight
    have hvalue := ih.declared hdeclarable hholds (by omega) hwire depth recording hdepth
    rw [Write.fields_cons hholds.ne_absent, if_neg (not_not_intro rfl), Datum.nestingOfFields, htype]
    exact (hvalue.append ((ih' (by omega)).map (value :: ·))).congr (by omega)

end Limits

namespace Concur

variable {hosts : HostType → Prop} (h : peers.Concur hosts)
  (hlimit : peers.read.config.maxDepth = peers.write.config.maxDepth) {free fuel : Nat}
  {shape : Shape} {v : Datum} {type : FieldType} {spec : TypeSpec} {wire : WireType}
  {resolved : Resolved}
include h hlimit

/-- A struct is not read where there is no room for it or for what nests inside of it. -/
theorem exceeds_struct (ih : peers.Limits free hosts fuel) {registration : Registration}
    {declared : List FieldDescriptor} {name : String} {members : List (Member Shape)}
    (hrole : spec.role = .struct registration declared)
    (hdeclared : declared.map (fun field => (field.name, field.type)) =
      members.map fun member => (member.name, member.content.declared))
    (hmembers : ∀ member ∈ members, member.content.Declarable hosts)
    (hresolve : peers.write.registry.resolve type = .ok spec)
    (htold : peers.Describes spec resolved) {content : List (String × Datum)}
    (hnames : members.map Member.name = content.map Prod.fst)
    (hholds : ∀ part ∈ members.zip content, part.1.content.Holds peers.read.shapes part.2.2)
    (hheight : Datum.heightOfFields content + 1 < fuel) {depth : Nat} (tracked recording : Bool)
    (hdeep : ¬depth + (Datum.struct name content).nesting peers.write.registry type ≤
      peers.write.config.maxDepth) :
    peers.Exceeds
      (Write.datum (peers.write.limited free) depth (.declared type tracked false)
        (.struct name content))
      (Read.content peers.read fuel (Read.datumWithin peers.read fuel)
        (Read.skipWithin peers.read fuel) ⟨depth, recording⟩ wire resolved
        (.struct name members)) := by
  have hsame := Member.names_of_declared hdeclared
  have hnodup : (members.map Member.name).Nodup :=
    hsame ▸ h.written.nodup_names (Registry.mem_of_resolve hresolve) hrole
  obtain ⟨schema, rfl, hschema⟩ := htold.exists_schema hrole
  rw [Datum.nesting, Registry.structFields?_of_resolve hresolve hrole] at hdeep
  have hregistered : (peers.write.limited free).registry.resolve type = .ok spec := hresolve
  rw [Write.datum_of_struct hregistered hrole]
  split
  next => exact fun _ _ _ _ _ hok => nomatch hok
  next =>
  by_cases hroom : peers.read.config.maxDepth < depth + 1
  · have hfails : (⟨depth, recording⟩ : Scope).deeper peers.read.config.maxDepth =
        .error (.depthExceeded peers.read.config.maxDepth) :=
      if_pos hroom
    intro before bytes after _ _ _ back refs
    have hdeeper : (MonadExcept.ofExcept ((⟨depth, recording⟩ : Scope).deeper
        peers.read.config.maxDepth) : Read Scope) ⟨bytes ++ back, before.names, refs⟩ =
        .error (.depthExceeded peers.read.config.maxDepth) ⟨bytes ++ back, before.names, refs⟩ := by
      rw [hfails]
      rfl
    exact ⟨_, bind_of_error hdeeper⟩
  · have hdeeper := Scope.deeper_of_le (Nat.le_refl _) hroom recording
    have hturn := ih.meets_inTurn
      (inStep_of_ofFields_ok hdeclared hmembers hnames hholds hschema) hheight
      (show depth + 1 ≤ peers.write.config.maxDepth by omega) recording
    refine .check hdeeper ?_
    rw [Read.struct_eq_inTurn peers.read hnodup
      ((Schema.names_of_ofFields_ok hschema).trans hsame)]
    exact (hturn.exceeding (by dsimp only at hdeep; omega)).bind _

/-- Behind its annotations a value of a registered type is not read where its structs nest too
deep. -/
theorem exceeds_registered (ih : peers.Limits free hosts fuel) {host : HostType} {name : String}
    (hhost : hosts host) (hname : Shape.ofHost host = .user name)
    (hspec : peers.write.registry.ofHost? host = some spec)
    (hresolve : peers.write.registry.resolve type = .ok spec)
    (htold : peers.Describes spec resolved) (hholds : (Shape.user name).Holds peers.read.shapes v)
    (hheight : v.height < fuel) {depth : Nat} (hdepth : depth ≤ peers.write.config.maxDepth)
    (tracked recording : Bool)
    (hdeep : ¬depth + v.nesting peers.write.registry type ≤ peers.write.config.maxDepth) :
    peers.Exceeds (Write.datum (peers.write.limited free) depth (.declared type tracked false) v)
      (Read.content peers.read fuel (Read.datumWithin peers.read fuel)
        (Read.skipWithin peers.read fuel) ⟨depth, recording⟩ wire resolved
        (peers.read.shapes.resolve (.user name))) := by
  have hfits := (h.suits _ spec hhost hspec).fits
  have hheld := hholds.resolved
  rw [hname] at hfits
  generalize hrole : spec.role = role at hfits
  generalize hshape : peers.read.shapes.resolve (.user name) = own at hfits hheld
  cases hfits with
  | struct hdeclared hmembers =>
    cases hheld with
    | struct hnames hparts =>
      exact h.exceeds_struct hlimit ih hrole hdeclared hmembers hresolve htold hnames hparts hheight
        tracked recording hdeep
  | enum hvariants =>
    cases hheld with
    | unitVariant => exact absurd hdepth hdeep
    | newtypeVariant hvariant => cases hvariants _ (List.mem_of_getElem? hvariant)
    | tupleVariant hvariant => cases hvariants _ (List.mem_of_getElem? hvariant)
    | structVariant hvariant => cases hvariants _ (List.mem_of_getElem? hvariant)
  | ext hroot =>
    rw [Datum.nesting_of_ext hresolve hrole v] at hdeep
    exact absurd hdepth hdeep

/-- Behind its annotations a value is not read where its structs nest too deep. -/
theorem exceeds_content (ih : peers.Limits free hosts fuel) (hshape : shape.Declarable hosts)
    (hflat : shape.isOption = false) (hholds : shape.Holds peers.read.shapes v)
    (hheight : v.height < fuel) (hopened : peers.Opened shape type spec wire resolved)
    {depth : Nat} (hdepth : depth ≤ peers.write.config.maxDepth) (tracked recording : Bool)
    (hdeep : ¬depth + v.nesting peers.write.registry type ≤ peers.write.config.maxDepth) :
    peers.Exceeds (Write.datum (peers.write.limited free) depth (.declared type tracked false) v)
      (Read.content peers.read fuel (Read.datumWithin peers.read fuel)
        (Read.skipWithin peers.read fuel) ⟨depth, recording⟩ wire resolved
        (peers.read.shapes.resolve shape)) := by
  have hregistered : (peers.write.limited free).registry.resolve type = .ok spec :=
    hopened.registered
  cases hshape with
  | option hinner => cases hflat
  | bool | int | float32 | float64 | string | str | bytes | byteSlice =>
    cases hholds
    exact absurd hdepth hdeep
  | @list name element hname helement =>
    cases hholds with
    | list hitems hagrees =>
      cases hspec : peers.write.registry.ofHost? (.collection name) with
      | some own =>
        obtain ⟨hspec, hshape⟩ := h.of_opened_collection hname rfl hagrees hspec hopened
        have hheld := (Shape.Holds.list hitems hagrees).resolved
        rw [hshape] at hheld ⊢
        exact h.exceeds_registered hlimit ih hname rfl hspec hopened.registered hopened.told
          (.user hheld) hheight hdepth tracked recording hdeep
      | none =>
        obtain ⟨nullable, inner, rfl, hrole, rfl, hargs, hinner⟩ :=
          h.exists_of_opened_list hspec hopened
        rw [Datum.nesting, Registry.element?_of_resolve hopened.registered] at hdeep
        rw [Write.datum, Write.behind_declared hregistered, Write.layout_of_builtin hrole]
        simp only [TypeSpec.element?, hrole, true_or, if_true] at hdeep ⊢
        exact ih.exceeds_seq helement hitems hheight hargs hinner (fun _ _ => rfl) hdepth recording
          hdeep
  | @set name element hname helement =>
    cases hholds with
    | set hitems hagrees =>
      cases hspec : peers.write.registry.ofHost? (.collection name) with
      | some own =>
        obtain ⟨hspec, hshape⟩ := h.of_opened_collection hname rfl hagrees hspec hopened
        have hheld := (Shape.Holds.set hitems hagrees).resolved
        rw [hshape] at hheld ⊢
        exact h.exceeds_registered hlimit ih hname rfl hspec hopened.registered hopened.told
          (.user hheld) hheight hdepth tracked recording hdeep
      | none =>
        obtain ⟨nullable, inner, rfl, hrole, rfl, hargs, hinner⟩ :=
          h.exists_of_opened_set hspec hopened
        rw [Datum.nesting, Registry.element?_of_resolve hopened.registered] at hdeep
        rw [Write.datum, Write.behind_declared hregistered, Write.layout_of_builtin hrole]
        simp only [TypeSpec.element?, hrole, or_true, if_true] at hdeep ⊢
        exact ih.exceeds_seq helement hitems hheight hargs hinner (fun _ _ => rfl) hdepth recording
          hdeep
  | @map name key value hname hkey hvalue =>
    cases hholds with
    | map hkeys hvalues hagrees =>
      cases hspec : peers.write.registry.ofHost? (.collection name) with
      | some own =>
        obtain ⟨hspec, hshape⟩ := h.of_opened_collection hname rfl hagrees hspec hopened
        have hheld := (Shape.Holds.map hkeys hvalues hagrees).resolved
        rw [hshape] at hheld ⊢
        exact h.exceeds_registered hlimit ih hname rfl hspec hopened.registered hopened.told
          (.user hheld) hheight hdepth tracked recording hdeep
      | none =>
        obtain ⟨nullable, keyType, valueType, rfl, hrole, rfl, hargs, hkeyType, hvalueType⟩ :=
          h.exists_of_opened_map hspec hopened
        rw [Datum.nesting, Registry.arguments?_of_resolve hopened.registered] at hdeep
        rw [Write.datum, Write.behind_declared hregistered, Write.layout_of_builtin hrole]
        simp only [TypeSpec.arguments?, hrole, if_true] at hdeep ⊢
        exact ih.exceeds_map name hkey hvalue hkeys hvalues hheight hargs hkeyType hvalueType hdepth
          recording hdeep
  | @user name hname =>
    have hspec := Registry.ofHost?_eq_of_declared hopened.declared hopened.registered
    exact h.exceeds_registered hlimit ih hname rfl hspec hopened.registered hopened.told hholds
      hheight hdepth tracked recording hdeep

/-- Behind its annotations a value that may have been missing is not read either where its structs
nest too deep. -/
theorem exceeds_opened (ih : peers.Limits free hosts fuel) (hshape : shape.Declarable hosts)
    (hholds : shape.Holds peers.read.shapes v) (hheight : v.height < fuel)
    (hopened : peers.Opened shape shape.declared spec wire resolved)
    {depth : Nat} (hdepth : depth ≤ peers.write.config.maxDepth) (tracked recording : Bool)
    (hdeep : ¬depth + v.nesting peers.write.registry shape.declared ≤
      peers.write.config.maxDepth) :
    peers.Exceeds
      (Write.datum (peers.write.limited free) depth (.declared shape.declared tracked false) v)
      (Read.content peers.read fuel (Read.datumWithin peers.read fuel)
        (Read.skipWithin peers.read fuel) ⟨depth, recording⟩ wire resolved
        (peers.read.shapes.resolve shape)) := by
  cases hflat : shape.isOption with
  | false =>
    exact h.exceeds_content hlimit ih hshape hflat hholds hheight hopened hdepth tracked recording
      hdeep
  | true =>
    cases hshape with
    | @option element hinner helement =>
      cases hholds with
      | none => exact absurd hdepth hdeep
      | some hheld =>
        have hopened : peers.Opened element (Shape.option element).declared spec wire resolved :=
          ⟨.inr rfl, hopened.registered, hopened.derived, hopened.told⟩
        rw [Write.datum]
        · exact ((ih.entered helement hinner hheld hheight hopened depth tracked recording
            hdepth).exceeding hdeep).bind _
        all_goals exact nofun
    | _ => cases hflat

/-- Values are read where they fit, and reading them fails for the limit otherwise. -/
theorem limits (free fuel : Nat) : peers.Limits free hosts fuel := by
  induction fuel with
  | zero =>
    constructor
    · intro shape v _ _ hheight
      cases hheight
    · intro shape v _ _ _ hheight
      cases hheight
  | succ fuel ih =>
    constructor
    · intro shape v hshape hholds hheight tracked wire hwire depth recording hdepth
      have hbelow : v.height < fuel := Nat.lt_of_succ_lt_succ hheight
      have hfits := ((h.follows (fuel + 1)).declared hshape hholds hheight hwire depth recording).read
      refine .of_mirrors hfits hdepth fun hdeep => ?_
      intro before bytes after hsound hqueue hok
      obtain ⟨spec, hresolve, -⟩ := WireType.of_ofFieldType_ok hwire
      have hpresent : v.isPresent = true := by
        refine h.isPresent_of_ne_none hshape hholds ?_ hresolve
        rintro rfl
        exact hdeep hdepth
      have hregistered : (peers.write.limited free).registry.resolve shape.declared = .ok spec :=
        hresolve
      rw [Write.datum_annotated hregistered depth tracked v hpresent] at hok
      obtain ⟨head, between, hhead, -⟩ := exists_of_bind_ok hok
      obtain ⟨resolved, htold, henter⟩ :=
        h.exists_mirrors_enter hshape.among hresolve hwire hsound hhead recording
      have hopened : peers.Opened shape shape.declared spec wire resolved :=
        ⟨.inl rfl, hresolve, ⟨tracked, hwire⟩, htold⟩
      have hexceeds := h.exceeds_opened hlimit ih hshape hholds hbelow hopened hdepth tracked
        recording hdeep
      have hkeeps : Write.Keeps peers.write.registry (Write.datum (peers.write.limited free) depth
          (.declared shape.declared tracked false) v) :=
        Write.keeps_datum v depth _
      rw [Read.datumWithin_succ hholds]
      exact henter.exceeds_append hkeeps hexceeds _ _ _ hsound hqueue hok
    · intro shape v hshape hflat hholds hheight type spec wire resolved hopened depth tracked
        recording hdepth
      have hbelow : v.height < fuel := Nat.lt_of_succ_lt_succ hheight
      have hfits := ((h.follows (fuel + 1)).entered hshape hflat hholds hheight hopened depth
        tracked recording).read
      refine .of_mirrors hfits hdepth fun hdeep => ?_
      rw [Read.datumWithin_succ hholds]
      exact (h.exceeds_content hlimit ih hshape hflat hholds hbelow hopened hdepth tracked recording
        hdeep).nil_bind (hopened.reads_enter recording)

/-- Reading goes on behind the annotations of a value, and fails there for the limit where the
structs of the value nest too deep. -/
theorem exceeds_entered (free : Nat) (hshape : shape.Declarable hosts)
    (hholds : shape.Holds peers.read.shapes v) (hheight : v.height < fuel)
    (hopened : peers.Opened shape shape.declared spec wire resolved)
    {depth : Nat} (hdepth : depth ≤ peers.write.config.maxDepth) (tracked recording : Bool)
    (hdeep : ¬depth + v.nesting peers.write.registry shape.declared ≤
      peers.write.config.maxDepth) :
    peers.Exceeds
      (Write.datum (peers.write.limited free) depth (.declared shape.declared tracked false) v)
      (Read.datumWithin peers.read (fuel + 1) ⟨depth, recording⟩ (.entered wire resolved)
        shape) := by
  have hcontent := h.exceeds_opened hlimit (h.limits hlimit free fuel) hshape hholds hheight
    hopened hdepth tracked recording hdeep
  rw [Read.datumWithin_succ hholds]
  exact hcontent.nil_bind (hopened.reads_enter recording)

end Concur

end Peers

end SchemaWire
