import SchemaWire.Proofs.Data.Careful
import SchemaWire.Proofs.Data.Meeting

/-!
# Values are taken whole

Reading a value and passing over it come to the same place, whatever shape it is read by: a reader
of a list, a set or a map that leaves something of it fails, at every level. Only who takes the first
entry of a struct leaves the other fields without a failure, and then what follows the struct is read
from the middle of it. The value that is read shows whether this has happened.
-/

namespace SchemaWire

namespace Read

/-- Pass over the field at a position. -/
def skipAt (skip : WireType → Read Unit) (fields : List SchemaField) (index : Nat) : Read Unit :=
  match fields[index]? with
  | some field => skip field.type
  | none => throw .rejected

/-- Fields are passed over position by position. -/
theorem skipFields_eq_pass (skip : WireType → Read Unit) (fields : List SchemaField)
    (count index : Nat) (hcount : index + count = fields.length) :
    skipFields skip (fields.drop index) = Entries.pass (skipAt skip fields) count index := by
  induction count generalizing index with
  | zero =>
    rw [List.drop_of_length_le (by omega)]
    rfl
  | succ count ih =>
    rw [List.drop_eq_getElem_cons (by omega), skipFields, Entries.pass, ih (index + 1) (by omega),
      skipAt, List.getElem?_eq_getElem (by omega)]

section Contents

variable {content : WireType → Shape → Read Datum} {skip : WireType → Read Unit}
  (h : ∀ type (shape : Shape), Meets shape.Whole (content type shape) (skip type))
include h

/-- A builtin value is taken whole if its contents are. -/
theorem meets_known (env : ReadEnv) (kind : Kind) (type : WireType) (shape : Shape) :
    Meets shape.Whole (known env content kind type shape) (skipKnown skip kind type) := by
  cases kind with
  | list | set =>
    refine .after fun element => .after fun count => ?_
    exact .checked .elementsLeft (.visit (fun _ => h element) count shape)
  | map =>
    refine .after fun key => .after fun value => .after fun count => ?_
    let read : Entries ReadState := ⟨fun _ => content key, fun _ => content value⟩
    have hentries : Meets (fun result => shape.Whole result.1) (read.visit count shape)
        (Entries.pass (fun _ => do skip key; skip value) count 0) :=
      .visitEntries (fun _ _ _ => .one (h key _) (h value _)) count shape
    rw [← Entries.times_eq_pass] at hentries
    exact .checked .entriesLeft (hentries.of_dropped.imp fun _ => And.left)
  | _ => exact .of_passes (passes_scalar env content skip type shape nofun nofun nofun)

/-- Fields of a struct are given to the parts that they match, and are passed over if there is
none. -/
theorem gathered_of_fields_ok {pass : WireType → Read Unit}
    (hpass : ∀ type, Meets (fun _ => True) (pass type) (skip type)) {parts : List (Member Shape)}
    {schema : List SchemaField} {found result : List (Nat × Datum)} {s t : ReadState}
    (hok : fields content pass parts schema found s = .ok result t) :
    Gathered parts (skipFields skip schema) found result s t := by
  induction schema generalizing found s with
  | nil =>
    cases hok
    exact .none fun u hskip => by cases hskip; rfl
  | cons field rest ih =>
    cases hmatch : Name.match? (parts.map Member.name) field.name with
    | none =>
      rw [fields_of_no_match hmatch] at hok
      obtain ⟨⟨⟩, w, hfirst, hok⟩ := exists_of_bind_ok hok
      exact (Gathered.none fun u => hpass field.type s () w () u hfirst trivial).append (ih hok)
    | some place =>
      obtain ⟨part, hpart⟩ := Member.exists_part hmatch
      rw [fields_of_match hmatch hpart] at hok
      split at hok
      next => cases hok
      next hnew =>
        obtain ⟨v, w, hvalue, hok⟩ := exists_of_bind_ok hok
        have hplace := (List.getElem?_eq_some_iff.mp hpart).1
        exact (Gathered.one hplace (Bool.eq_false_of_not_eq_true hnew) fun hwhole u =>
          h field.type part.content s v w () u hvalue (.of_isWhole _ hwhole)).append (ih hok)

/-- A struct is taken whole if its fields are. -/
theorem meets_struct {pass : WireType → Read Unit}
    (hpass : ∀ type, Meets (fun _ => True) (pass type) (skip type)) (env : ReadEnv)
    (schema : Schema) (shape : Shape) :
    Meets shape.Whole (struct env content pass schema shape) (skipFields skip schema.fields) := by
  unfold struct
  split
  next name parts =>
    intro s v t b u hread hwhole hskip
    obtain ⟨found, m, hfound, hrest⟩ := exists_of_bind_ok hread
    obtain ⟨made, w, hassemble, hmake⟩ := exists_of_bind_ok hrest
    obtain ⟨hmade, rfl⟩ := exists_of_ofExcept_ok hassemble
    cases hmake
    exact (gathered_of_fields_ok h hpass hfound).eq_of_assemble_ok hmade (hwhole rfl) hskip
  next =>
    have hsteps : skipFields skip schema.fields =
        Entries.pass (skipAt skip schema.fields) schema.fields.length 0 :=
      skipFields_eq_pass skip schema.fields schema.fields.length 0 (Nat.zero_add _)
    rw [hsteps]
    refine (Meets.visitEntries (fun index key value => ?_) schema.fields.length _).map_left
    unfold skipAt
    cases hfield : schema.fields[index]? with
    | none =>
      refine .of_passes ?_
      simp only [Entries.one, hfield]
      exact .of_throw_bind _ _
    | some field =>
      dsimp only
      rw [← pure_bind () fun _ => skip field.type]
      refine .one ?_ ?_
      · simp only [hfield]
        exact .of_passes (.ofExcept _ ())
      · simp only [hfield]
        exact h field.type value

end Contents

variable {env : ReadEnv}

/-- Readers that do the same with higher bounds meet, whatever their bounds are. -/
theorem meets_of_steady {α : Type} {asked : α → Prop} {x : Nat → Read α}
    (h : ∀ {n m}, n ≤ m → Steady (x n) (x m)) (n m : Nat) : Meets asked (x n) (x m) := by
  intro s a t b u hfirst _ hsecond
  rcases Nat.le_total n m with hle | hle
  · obtain ⟨c, hc⟩ := (h hle).passes s a t hfirst
    cases hc.symm.trans hsecond
    rfl
  · obtain ⟨c, hc⟩ := (h hle).passes s b u hsecond
    cases hc.symm.trans hfirst
    rfl

/-- However deep it may go, whoever passes over a value comes to the same state. -/
theorem meets_skipWithin {asked : Unit → Prop} (n m : Nat) (scope : Scope) (spot : Spot) :
    Meets asked (skipWithin env n scope spot) (skipWithin env m scope spot) :=
  meets_of_steady (fun hle => steady_skipWithin env hle scope spot) n m

/-- A value with a layout of its own is taken whole by that layout. -/
theorem meets_ext {asked : Datum → Prop} {shape : Shape} {host : HostType}
    (hhost : shape.host? = some host) (fuel n : Nat) (scope : Scope) (type : WireType) :
    Meets asked (ext env fuel (env.shapes.resolve shape))
      (skipContent env n (skipWithin env n) scope type (.ext (some host))) := by
  have hplain : Meets asked (take (Take.plainWithin env.shapes fuel (env.shapes.resolve shape)))
      (take (Take.plainWithin env.shapes n (.ofHost host))) := by
    rw [plainWithin_resolve, Shape.eq_ofHost_of_host? hhost]
    exact meets_of_steady (fun hle => steady_plain env.shapes hle _) fuel n
  generalize env.shapes.resolve shape = own at hplain
  cases own with
  | any | identifier | choice names => exact .of_throw _
  | _ => exact hplain.map_right fun _ => ()

/-- What meets whoever passes over a value behind its annotations meets whoever passes over its
data. -/
theorem meets_skipContent {α : Type} {asked : α → Prop} {x : Read α} {scope : Scope}
    {type : WireType} {resolved : Resolved} {kind : Kind} (hkind : WireType.kindOf type.id = .ok kind)
    {n : Nat} (h : Meets asked x (skipWithin env (n + 1) scope (.entered type resolved))) :
    Meets asked x (skipContent env n (skipWithin env n) scope type resolved) := by
  intro s a t b u hx ha hskip
  have henter : enter env scope.recording (.entered type resolved) s =
      .ok (.value type resolved) s :=
    ofExcept_bind_of_ok hkind _ s
  exact h s a t b u hx ha ((bind_of_ok henter).trans hskip)

section Data

variable {read : Scope → Spot → Shape → Read Datum}
  (h : ∀ n scope spot (shape : Shape),
    Meets shape.Whole (read scope spot shape) (skipWithin env n scope spot))
  (fuel n : Nat) (scope : Scope) {type : WireType} {kind : Kind}
  (hkind : WireType.kindOf type.id = .ok kind) (resolved : Resolved)
include h hkind

/-- Data are taken whole by who makes something of the value that stands behind the annotations. -/
theorem meets_inside (own inner : Shape) (make : Datum → Datum)
    (hmake : ∀ v, own.Whole (make v) → v.isWhole = true) :
    Meets own.Whole (do return make (← read scope (.entered type resolved) inner))
      (skipContent env n (skipWithin env n) scope type resolved) :=
  meets_skipContent hkind ((h (n + 1) scope (.entered type resolved) inner).imp
    fun v hwhole => .of_isWhole inner (hmake v hwhole)).map_left

/-- Data of a value that may be missing are taken whole. -/
theorem meets_option (inner : Shape) :
    Meets (Shape.option inner).Whole
      (content env fuel read (skipWithin env fuel) scope type resolved (.option inner))
      (skipContent env n (skipWithin env n) scope type resolved) :=
  meets_inside h n scope hkind resolved (.option inner) inner .some fun _ hwhole => hwhole rfl

/-- Data behind a name of their own are taken whole, unless they have a layout of their own. -/
theorem meets_newtype (name : String) (inner : Shape) (hext : ∀ host, resolved ≠ .ext host) :
    Meets (Shape.newtype name inner).Whole
      (content env fuel read (skipWithin env fuel) scope type resolved (.newtype name inner))
      (skipContent env n (skipWithin env n) scope type resolved) := by
  have hinside := meets_inside h n scope hkind resolved (.newtype name inner) inner .newtype
    fun _ hwhole => hwhole rfl
  cases resolved with
  | ext host => exact absurd rfl (hext host)
  | _ => exact hinside

omit h in
/-- Data that are ignored are passed over. -/
theorem meets_ignored :
    Meets Shape.ignored.Whole
      (content env fuel read (skipWithin env fuel) scope type resolved .ignored)
      (skipContent env n (skipWithin env n) scope type resolved) :=
  meets_skipContent hkind (meets_skipWithin fuel (n + 1) scope _).map_left

/-- The data of a value are taken whole if what stands inside of it is, and if they are asked for by
a layout of their own where they have one. -/
theorem meets_content {shape : Shape}
    (hasks : shape.asksOwn (env.shapes.resolve shape) resolved = true) :
    Meets (env.shapes.resolve shape).Whole
      (content env fuel read (skipWithin env fuel) scope type resolved (env.shapes.resolve shape))
      (skipContent env n (skipWithin env n) scope type resolved) := by
  have hoption := meets_option h fuel n scope hkind resolved
  have hnewtype := meets_newtype h fuel n scope hkind resolved
  have hignored : Meets Shape.ignored.Whole
      (content env fuel read (skipWithin env fuel) scope type resolved .ignored)
      (skipContent env n (skipWithin env n) scope type resolved) :=
    meets_ignored fuel n scope hkind resolved
  cases resolved with
  | ext host =>
    cases host with
    | none =>
      intro s v t b u _ _ hskip
      cases hskip
    | some host =>
      have hext (hhost : shape.host? = some host) : Meets (env.shapes.resolve shape).Whole
          (ext env fuel (env.shapes.resolve shape))
          (skipContent env n (skipWithin env n) scope type (.ext (some host))) :=
        meets_ext hhost fuel n scope type
      generalize env.shapes.resolve shape = own at hasks hext ⊢
      cases own with
      | option inner => exact hoption inner
      | ignored => exact hignored
      | _ => exact hext (eq_of_beq hasks)
  | enum =>
    have henum (own : Shape) : Meets own.Whole (enum own)
        (skipContent env n (skipWithin env n) scope type .enum) := by
      refine .after fun index => .of_passes ?_
      split <;> exact .ofExcept _ ()
    generalize env.shapes.resolve shape = own
    cases own with
    | option inner => exact hoption inner
    | ignored => exact hignored
    | newtype name inner => exact hnewtype name inner nofun
    | _ => exact henum _
  | struct schema =>
    have hstruct (own : Shape) : Meets own.Whole (do
        let scope ← MonadExcept.ofExcept (scope.deeper env.config.maxDepth)
        struct env (fun type shape => read scope (.declared type) shape)
          (fun type => skipWithin env fuel scope (.declared type)) schema own)
        (skipContent env n (skipWithin env n) scope type (.struct schema)) :=
      .after fun inner => meets_struct (fun type shape => h n inner (.declared type) shape)
        (fun type => meets_skipWithin fuel n inner (.declared type)) env schema own
    generalize env.shapes.resolve shape = own
    cases own with
    | option inner => exact hoption inner
    | ignored => exact hignored
    | newtype name inner => exact hnewtype name inner nofun
    | _ => exact hstruct _
  | known kind =>
    have hknown (own : Shape) :=
      meets_known (fun type shape => h n scope (.declared type) shape) env kind type own
    generalize env.shapes.resolve shape = own
    cases own with
    | option inner => exact hoption inner
    | ignored => exact hignored
    | newtype name inner => exact hnewtype name inner nofun
    | _ => exact hknown _

end Data

/-- A careful reader takes a value whole unless it leaves something inside of it. -/
theorem meets_datumCareful (fuel n : Nat) (scope : Scope) (spot : Spot) (shape : Shape) :
    Meets shape.Whole (datumCareful env fuel scope spot shape) (skipWithin env n scope spot) := by
  induction fuel generalizing n scope spot shape with
  | zero => exact .of_throw _
  | succ fuel ih =>
    cases n with
    | zero =>
      intro s v t b u _ _ hskip
      cases hskip
    | succ n =>
      intro s v t b u hread hwhole hskip
      obtain ⟨entry, m, henter, hannounced⟩ := exists_of_datumCareful_ok hread
      rw [skipWithin, bind_of_ok henter] at hskip
      cases entry with
      | null =>
        cases hskip
        exact (exists_of_ofExcept_ok hannounced).2
      | ref entry =>
        cases hskip
        exact eq_of_announcedCareful_ref_ok hannounced
      | value type resolved =>
        obtain ⟨kind, hkind, -⟩ := announced_of_enter_ok henter
        obtain ⟨hasks, hcontent⟩ := of_announcedCareful_value_ok hannounced
        exact meets_content ih fuel n scope hkind resolved hasks m v t b u hcontent
          (hwhole.resolve env.shapes) hskip

section Stopping

variable {s t : ReadState} {scope : Scope} {type : WireType} {shape : Shape} {total : Nat}
  {entries : List (Datum × Datum)}

/-- Who visits what stands behind its number and leaves nothing gets as much as is announced. -/
theorem count?_of_announced_ok {visit : Nat → Read (Datum × Nat)} {e : Nat → Error} {v : Datum}
    {count k : Nat} {rest : List UInt8}
    (hvisit : ∀ taken m, visit count m = .ok (v, taken) t → count ≤ taken → k = count)
    (hcount : Varint.take32 s.input = .ok count rest)
    (h : (do
      let count ← take Varint.take32
      let (value, taken) ← visit count
      if taken < count then throw (e (count - taken))
      return value : Read Datum) s = .ok v t) : k = count := by
  have hannounced : take Varint.take32 s = .ok count { s with input := rest } := by
    rw [take, hcount]
  rw [bind_of_ok hannounced] at h
  obtain ⟨taken, hok, hall⟩ := exists_of_checked_ok h
  exact hvisit taken _ hok hall

/-- Who reads a list, a set or a map gets as many elements or entries as are announced. -/
theorem count?_of_known_ok {content : WireType → Shape → Read Datum} {kind : Kind}
    (hkind : kind = .list ∨ kind = .set ∨ kind = .map) {v : Datum}
    (h : known env content kind type shape s = .ok v t) {count k : Nat} {rest : List UInt8}
    (hcount : Varint.take32 s.input = .ok count rest) (hk : v.count? = some k) : k = count := by
  rcases hkind with rfl | rfl | rfl
  · obtain ⟨element, m, helement, hread⟩ := exists_of_bind_ok h
    cases (exists_of_ofExcept_ok helement).2
    exact count?_of_announced_ok
      (fun _ _ hok hall => Elements.count?_of_visit_ok hok hall hk) hcount hread
  · obtain ⟨element, m, helement, hread⟩ := exists_of_bind_ok h
    cases (exists_of_ofExcept_ok helement).2
    exact count?_of_announced_ok
      (fun _ _ hok hall => Elements.count?_of_visit_ok hok hall hk) hcount hread
  · obtain ⟨key, m, hkey, hrest⟩ := exists_of_bind_ok h
    cases (exists_of_ofExcept_ok hkey).2
    obtain ⟨value, w, hvalue, hread⟩ := exists_of_bind_ok hrest
    cases (exists_of_ofExcept_ok hvalue).2
    exact count?_of_announced_ok
      (fun _ _ hok hall => Entries.count?_of_visit_ok hok hall hk) hcount hread

/-- Who takes the first entry of a struct reads the first field, and nothing else. -/
theorem exists_of_struct_first_ok {content : WireType → Shape → Read Datum}
    {pass : WireType → Read Unit} {schema : Schema} {field : SchemaField} {rest : List SchemaField}
    (hfields : schema.fields = field :: rest)
    (h : struct env content pass schema shape s = .ok (.firstEntry total entries) t) :
    ∃ k v value, content field.type value s = .ok v t ∧ entries = [(k, v)] := by
  unfold struct at h
  split at h
  next =>
    obtain ⟨found, m, -, h⟩ := exists_of_bind_ok h
    obtain ⟨made, w, -, h⟩ := exists_of_bind_ok h
    cases h
  next =>
    obtain ⟨⟨v, taken⟩, m, hvisit, h⟩ := exists_of_bind_ok h
    cases h
    obtain ⟨key, value, hcollect, -, htaken⟩ := Entries.exists_of_visit_ok hvisit
    have hone : taken = 1 := by
      rw [htaken, hfields, List.length_cons]
      omega
    rw [hone, Entries.collect_succ] at hcollect
    obtain ⟨first, w, hfirst, hcollect⟩ := exists_of_bind_ok hcollect
    cases hcollect
    obtain ⟨k, x, hkey, hfirst⟩ := exists_of_bind_ok hfirst
    obtain ⟨v, y, hvalue, hfirst⟩ := exists_of_bind_ok hfirst
    cases hfirst
    simp only [hfields, List.getElem?_cons_zero] at hkey hvalue
    obtain ⟨-, rfl⟩ := exists_of_ofExcept_ok hkey
    exact ⟨k, v, value, hvalue, rfl⟩

variable {fuel : Nat} {read : Scope → Spot → Shape → Read Datum} {skip : Scope → Spot → Read Unit}
  {v : Datum} {k : Nat}

/-- Elements and entries in the place of a builtin are read from the builtin. -/
theorem known_of_content_ok {kind : Kind}
    (h : content env fuel read skip scope type (.known kind) shape s = .ok v t)
    (hk : v.count? = some k) :
    known env (fun type shape => read scope (.declared type) shape) kind type shape s = .ok v t := by
  cases shape with
  | option inner | newtype name inner | ignored =>
    obtain ⟨w, m, -, hmake⟩ := exists_of_bind_ok h
    cases hmake
    cases hk
  | _ => exact h

/-- Elements and entries in the place of a struct are read from the struct, one level deeper. -/
theorem struct_of_content_ok {schema : Schema}
    (h : content env fuel read skip scope type (.struct schema) shape s = .ok v t)
    (hk : v.count? = some k) :
    ∃ inner, inner = { scope with depth := scope.depth + 1 } ∧
      scope.deeper env.config.maxDepth = .ok inner ∧
      struct env (fun type shape => read inner (.declared type) shape)
        (fun type => skip inner (.declared type)) schema shape s = .ok v t := by
  have hdata : (do
      let scope ← MonadExcept.ofExcept (scope.deeper env.config.maxDepth)
      struct env (fun type shape => read scope (.declared type) shape)
        (fun type => skip scope (.declared type)) schema shape) s = .ok v t := by
    cases shape with
    | option inner | newtype name inner | ignored =>
      obtain ⟨w, m, -, hmake⟩ := exists_of_bind_ok h
      cases hmake
      cases hk
    | _ => exact h
  obtain ⟨inner, m, hinner, hstruct⟩ := exists_of_bind_ok hdata
  obtain ⟨hdeeper, rfl⟩ := exists_of_ofExcept_ok hinner
  refine ⟨inner, ?_, hdeeper, hstruct⟩
  unfold Scope.deeper at hdeeper
  split at hdeeper
  · cases hdeeper
  · exact (Except.ok.inj hdeeper).symm

end Stopping

/-- Who takes the first entry of a struct comes behind the first field. -/
theorem skipWithin_of_struct_first_ok {fuel n : Nat} {scope : Scope} {spot : Spot} {shape : Shape}
    {s m t u : ReadState} {type : WireType} {schema : Schema} {field : SchemaField}
    {rest : List SchemaField} {total : Nat} {entries : List (Datum × Datum)}
    (hread : datumCareful env fuel scope spot shape s = .ok (.firstEntry total entries) t)
    (henter : enter env scope.recording spot s = .ok (.value type (.struct schema)) m)
    (hfields : schema.fields = field :: rest) (hwhole : Datum.areWholeEntries entries = true)
    (hskip : skipWithin env n scope spot s = .ok () u) :
    skipWithin env n { scope with depth := scope.depth + 1 } (.declared field.type) m = .ok () t := by
  cases fuel with
  | zero => cases hread
  | succ fuel =>
    cases n with
    | zero => cases hskip
    | succ n =>
      obtain ⟨entry, m', henter', hannounced⟩ := exists_of_datumCareful_ok hread
      cases henter.symm.trans henter'
      obtain ⟨inner, rfl, hdeeper, hstruct⟩ :=
        struct_of_content_ok (of_announcedCareful_value_ok hannounced).2 rfl
      obtain ⟨k, v, value, hvalue, rfl⟩ := exists_of_struct_first_ok hfields hstruct
      rw [skipWithin, bind_of_ok henter] at hskip
      obtain ⟨inner', w, hinner, hfields'⟩ := exists_of_bind_ok hskip
      obtain ⟨hsame, rfl⟩ := exists_of_ofExcept_ok hinner
      cases hdeeper.symm.trans hsame
      rw [hfields, skipFields] at hfields'
      obtain ⟨⟨⟩, x, hfirst, -⟩ := exists_of_bind_ok hfields'
      have hentry := Datum.areWholeEntries_iff.mp hwhole (k, v) List.mem_cons_self
      cases meets_datumCareful fuel n _ _ value _ v t () x hvalue (.of_isWhole value hentry.2) hfirst
      obtain ⟨⟨⟩, hmore⟩ := (steady_skipWithin env (Nat.le_succ n) _ _).passes _ () t hfirst
      exact hmore

end Read

/-- Let a value be read carefully that can be passed over. If nothing was left inside of it, reading
it comes to the state that passing over it comes to. In the place of a list, a set or a map, whoever
is given elements or entries is given as many as are announced. In the place of a struct, whoever
takes the first entry comes behind the first field, and so leaves all other fields. -/
theorem consumed_whole {env : ReadEnv} {fuel n : Nat} {scope : Scope} {spot : Spot} {shape : Shape}
    {s t u : ReadState} {v : Datum}
    (hread : Read.datumWithin env fuel scope spot shape s = .ok v t)
    (hcareful : Read.datumCareful env fuel scope spot shape s =
      Read.datumWithin env fuel scope spot shape s)
    (hskip : Read.skipWithin env n scope spot s = .ok () u) :
    (v.isWhole = true → t = u) ∧
    (∀ type kind m, Read.enter env scope.recording spot s = .ok (.value type (.known kind)) m →
      kind = .list ∨ kind = .set ∨ kind = .map →
      ∀ count rest k, Varint.take32 m.input = .ok count rest → v.count? = some k → k = count) ∧
    (∀ type schema m field rest total entries,
      Read.enter env scope.recording spot s = .ok (.value type (.struct schema)) m →
      schema.fields = field :: rest → v = .firstEntry total entries →
      Datum.areWholeEntries entries = true →
      Read.skipWithin env n { scope with depth := scope.depth + 1 } (.declared field.type) m =
        .ok () t) := by
  have hown := hcareful.trans hread
  refine ⟨fun hwhole => ?_, ?_, ?_⟩
  · exact Read.meets_datumCareful fuel n scope spot shape s v t () u hown (.of_isWhole shape hwhole) hskip
  · intro type kind m henter hkind count rest k hcount hk
    cases fuel with
    | zero => cases hread
    | succ fuel =>
      obtain ⟨entry, m', henter', hannounced⟩ := Read.exists_of_datumCareful_ok hown
      cases henter.symm.trans henter'
      have hknown := Read.known_of_content_ok (Read.of_announcedCareful_value_ok hannounced).2 hk
      exact Read.count?_of_known_ok hkind hknown hcount hk
  · rintro type schema m field rest total entries henter hfields rfl hwhole
    exact Read.skipWithin_of_struct_first_ok hown henter hfields hwhole hskip

namespace Sample

/-- What the reader of a message with a parcel relies on: a parcel has a stamp with a layout of its
own, a width and a height, and marks. -/
def courier : ReadEnv where
  config := ⟨false, false, .none, 5⟩
  registry := ⟨Registry.standard.specs ++
    [⟨some (.user "Size"), "Size", false, .struct (.id 1)
        [⟨"width", .scalar (.int .uint8) false, false⟩,
          ⟨"height", .scalar (.int .uint8) false, false⟩]⟩,
      ⟨some (.user "Parcel"), "Parcel", false, .struct (.id 2)
        [⟨"stamp", .scalar (.user "Stamp") false, false⟩,
          ⟨"size", .scalar (.user "Size") false, false⟩,
          ⟨"marks", .list "marks" (.scalar (.int .uint8) false) false, false⟩]⟩,
      ⟨some (.user "Stamp"), "Stamp", false, .ext (.id 3)⟩]⟩
  shapes := [("Stamp", .newtype "Stamp" (.int .uint16))]
  schemas := []

/-- A parcel that is seven wide and one high, without marks, and what follows it. -/
def parcel : ReadState :=
  ⟨[255, 143, 4, 255, 147, 6, 1, 2, 255, 143, 2, 7, 1, 0, 9], [], []⟩

/-- What a reader asks of a parcel, whose size it asks for by the given shape. -/
def parcelBy (size : Shape) : Shape :=
  .struct "Parcel" [⟨"stamp", false, .user "Stamp"⟩, ⟨"size", false, size⟩,
    ⟨"marks", false, .list "marks" (.int .uint8)⟩]

/-- The same message behind the parcel. -/
def behindParcel : ReadState := ⟨[9], [], []⟩

/-- The same message at the size of the parcel. -/
def parcelSize : ReadState :=
  ⟨[255, 143, 2, 7, 1, 0, 9], [], []⟩

/-- Where the parcel stands. -/
def parcelSpot : Spot := .declared ⟨527, false, false, []⟩

/-- Where its size stands. -/
def sizeSpot : Spot := .declared ⟨271, false, false, []⟩

end Sample

/-- A parcel is taken whole by who asks for its size as a map, and passing over it comes to the same
place. Who takes the first entry of its size comes behind the width. -/
theorem consumed_whole_parcel :
    (Read.datumWithin Sample.courier 9 ⟨0, true⟩ Sample.parcelSpot
          (Sample.parcelBy (.map "size" .string (.int .uint8))) Sample.parcel =
        .ok (.struct "Parcel" [("stamp", .newtype (.int .uint16 513)),
          ("size", .map true [(.text "width", .int .uint8 7), (.text "height", .int .uint8 1)]),
          ("marks", .seq true [])]) Sample.behindParcel ∧
      Read.skipWithin Sample.courier 9 ⟨0, true⟩ Sample.parcelSpot Sample.parcel =
        .ok () ⟨[9], [], []⟩ ∧
      Sample.behindParcel = ⟨[9], [], []⟩) ∧
    Read.datumWithin Sample.courier 9 ⟨1, true⟩ Sample.sizeSpot
        (.firstEntry "size" .string (.int .uint8)) Sample.parcelSize =
      .ok (.firstEntry 2 [(.text "width", .int .uint8 7)]) ⟨[1, 0, 9], [], []⟩ ∧
    Read.skipWithin Sample.courier 9 ⟨2, true⟩ (.declared ⟨64, false, false, []⟩)
        ⟨[7, 1, 0, 9], [], []⟩ = .ok () ⟨[1, 0, 9], [], []⟩ := by
  have hparcel : Read.datumWithin Sample.courier 9 ⟨0, true⟩ Sample.parcelSpot
      (Sample.parcelBy (.map "size" .string (.int .uint8))) Sample.parcel = .ok _ Sample.behindParcel := rfl
  have hcareful : Read.datumCareful Sample.courier 9 ⟨0, true⟩ Sample.parcelSpot
      (Sample.parcelBy (.map "size" .string (.int .uint8))) Sample.parcel = .ok _ Sample.behindParcel := rfl
  have hpast : Read.skipWithin Sample.courier 9 ⟨0, true⟩ Sample.parcelSpot Sample.parcel =
      .ok () ⟨[9], [], []⟩ := rfl
  have hsize : Read.datumWithin Sample.courier 9 ⟨1, true⟩ Sample.sizeSpot
      (.firstEntry "size" .string (.int .uint8)) Sample.parcelSize =
        .ok (.firstEntry 2 [(.text "width", .int .uint8 7)]) ⟨[1, 0, 9], [], []⟩ := rfl
  have hcarefulSize : Read.datumCareful Sample.courier 9 ⟨1, true⟩ Sample.sizeSpot
      (.firstEntry "size" .string (.int .uint8)) Sample.parcelSize =
        .ok (.firstEntry 2 [(.text "width", .int .uint8 7)]) ⟨[1, 0, 9], [], []⟩ := rfl
  have hpastSize : Read.skipWithin Sample.courier 9 ⟨1, true⟩ Sample.sizeSpot Sample.parcelSize =
      .ok () ⟨[0, 9], [], []⟩ := rfl
  refine ⟨⟨hparcel, hpast, ?_⟩, hsize, ?_⟩
  · exact (consumed_whole hparcel (hcareful.trans hparcel.symm) hpast).1 rfl
  · exact (consumed_whole hsize (hcarefulSize.trans hsize.symm) hpastSize).2.2 _ _ _ _ _ _ _ rfl rfl
      rfl rfl

/-- Who takes the first entry of the size leaves the height, which passing over the size does not.
The height is then taken for the number of marks, and the parcel is read with a mark that it does
not have. -/
theorem first_field_taken :
    Read.datumWithin Sample.courier 9 ⟨1, true⟩ Sample.sizeSpot (.firstEntry "size" .string (.int .uint8))
        Sample.parcelSize =
      .ok (.firstEntry 2 [(.text "width", .int .uint8 7)]) ⟨[1, 0, 9], [], []⟩ ∧
    Read.skipWithin Sample.courier 9 ⟨1, true⟩ Sample.sizeSpot Sample.parcelSize =
      .ok () ⟨[0, 9], [], []⟩ ∧
    Read.datumWithin Sample.courier 9 ⟨0, true⟩ Sample.parcelSpot
        (Sample.parcelBy (.firstEntry "size" .string (.int .uint8))) Sample.parcel =
      .ok (.struct "Parcel" [("stamp", .newtype (.int .uint16 513)),
        ("size", .firstEntry 2 [(.text "width", .int .uint8 7)]),
        ("marks", .seq true [.int .uint8 0])]) ⟨[9], [], []⟩ :=
  ⟨rfl, rfl, rfl⟩

end SchemaWire
