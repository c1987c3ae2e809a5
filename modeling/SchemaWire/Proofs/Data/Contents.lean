import SchemaWire.Proofs.Data.Local
import SchemaWire.Proofs.Limit.Plain

/-!
# What stands inside of a value

Behind the annotations of a value its reader takes bytes, checks them, and turns to what stands
inside of it. Readers of whole values are related if they are as far as the values inside of them
are concerned, for every relation that sequences keep to and that readers of bytes are in with
themselves.
-/

namespace SchemaWire

namespace Take

/-- The reader leaves an end of its input. -/
def Forward {α : Type} (reader : Take α) : Prop :=
  ∀ s a t, reader s = .ok a t → t <:+ s

namespace Forward

/-- What is traced in a message leaves an end of it. -/
theorem of_traced {α : Type} {reader : Take α} (h : ∀ body, (Plain.realm [] [] body).Traced
    (fun _ => True) (fun _ => reader) fun _ => True) : reader.Forward := by
  intro s a t hok
  exact ((h s).settles (n := 0) trivial (List.suffix_refl s) hok).2.1

/-- Reading one byte leaves the bytes behind it. -/
theorem byte : Take.byte.Forward :=
  of_traced fun _ => Plain.traced_byte

/-- Passing over bytes leaves the bytes behind them. -/
theorem skip (n : Nat) : (Take.skip n).Forward :=
  of_traced fun _ => Plain.traced_skip n

/-- Reading a number of a fixed width leaves the bytes behind it. -/
theorem natural (width : Nat) : (Take.natural width).Forward :=
  of_traced fun _ => Plain.traced_natural width

/-- Reading a signed number leaves the bytes behind it. -/
theorem integer (width : Nat) : (Take.integer width).Forward :=
  of_traced fun _ => Plain.traced_integer width

/-- Reading an integer of a fixed width leaves the bytes behind it. -/
theorem integerBody (t : IntType) : (Read.integerBody t).Forward :=
  of_traced fun _ => Plain.traced_integerBody t

/-- Reading a number in groups leaves the bytes behind it. -/
theorem varint (budget : Varint.Budget) : (Varint.take budget).Forward :=
  of_traced fun _ => Plain.traced_varint budget

/-- Reading a signed number in groups leaves the bytes behind it. -/
theorem signed32 : Varint.takeSigned32.Forward :=
  of_traced fun _ => Plain.traced_signed Varint.word32

/-- Reading a signed number in groups leaves the bytes behind it. -/
theorem signed64 : Varint.takeSigned64.Forward :=
  of_traced fun _ => Plain.traced_signed Varint.word64

/-- Reading a number in one of two widths leaves the bytes behind it. -/
theorem shortOrLong : Read.shortOrLong.Forward :=
  of_traced fun _ => Plain.traced_shortOrLong

/-- Reading counted bytes leaves the bytes behind them. -/
theorem counted : Take.counted.Forward :=
  of_traced fun _ => Plain.traced_counted

/-- Reading a text leaves the bytes behind it. -/
theorem textBody : Read.textBody.Forward :=
  of_traced fun _ => Plain.traced_textBody

/-- Reading a plain value leaves the bytes behind it. -/
theorem plainWithin (shapes : Shapes) (fuel : Nat) (shape : Shape) :
    (Take.plainWithin shapes fuel shape).Forward := by
  intro s v t hok
  have hstable : shapes.Stable (shapes.within shape ++ []) := Shapes.stable_within shape nofun
  have hshape : shape ∈ shapes.within shape ++ [] := by
    simp [Shapes.within, shape.mem_within]
  have htraced : (Plain.realm shapes _ s).Traced _ (Take.plainWithin shapes · shape) _ :=
    Plain.traced_plainWithin hstable hshape
  exact (htraced.settles trivial (List.suffix_refl s) hok).2.1

end Forward

end Take

namespace Read

/-- A relation between readers of data that sequences keep to, and that holds inside of scopes that
go together. -/
structure DataTwins extends Twins ReadState where
  /-- The scopes of the two readers go together. -/
  Near : Scope → Scope → Prop
  /-- Reading bytes is related to itself. -/
  take {α : Type} {r : Take α} (hlocal : r.Local) (hforward : r.Forward) :
    Rel (Read.take r) (Read.take r)
  /-- What happens inside of one struct more is related. -/
  deeper {α : Type} (maxDepth : Nat) {outer other : Scope} (h : Near outer other)
    {R S : Scope → Read α} (hnext : ∀ inner inner', Near inner inner' → Rel (R inner) (S inner')) :
    Rel (MonadExcept.ofExcept (outer.deeper maxDepth) >>= R)
      (MonadExcept.ofExcept (other.deeper maxDepth) >>= S)

namespace DataTwins

/-- A property as a relation that asks nothing of the second reader, inside of scopes where values
are recorded or where they are not. -/
def ofSteps (d : Steps ReadState)
    (htake : ∀ {α : Type} {r : Take α}, r.Local → r.Forward → d.Holds (Read.take r))
    (recording : Bool) : DataTwins where
  toTwins := d.twins
  Near scope _ := scope.recording = recording
  take hlocal hforward := htake hlocal hforward
  deeper maxDepth outer _ h R _ hnext := by
    have hholds : d.Holds (MonadExcept.ofExcept (outer.deeper maxDepth) >>= R) := by
      unfold Scope.deeper
      split
      · exact d.throw (.depthExceeded maxDepth)
      · exact hnext { outer with depth := outer.depth + 1 } outer h
    exact hholds

variable (d : DataTwins) {env : ReadEnv}

section Annotations

variable (hname : env.config.compatible = false →
  ∀ scheme, d.Rel (Read.name scheme) (Read.name scheme))

include hname in
/-- Reading what follows the type id of a user type is related to itself if reading names is, where
names are read. -/
theorem userInfo (id : UInt32) (kind : Kind) :
    d.Rel (Read.userInfo env id kind) (Read.userInfo env id kind) := by
  unfold Read.userInfo
  by_cases hrefers : kind.refersToSchema env.config.compatible
  · rw [if_pos hrefers]
    exact d.bind (d.take (.varint _) (.varint _)) fun reference =>
      d.bind (d.ofExcept _) fun schema => d.pure _
  · rw [if_neg hrefers]
    by_cases hnamed : kind.isNamed
    · rw [if_pos hnamed]
      have hapart : env.config.compatible = false := by
        cases hcompatible : env.config.compatible with
        | false => rfl
        | true =>
          refine absurd ?_ hrefers
          rw [Kind.refersToSchema, hcompatible, hnamed, Bool.true_and, Bool.or_true]
      exact d.bind (hname hapart .space) fun _ => d.bind (hname hapart .type) fun _ =>
        d.bind (d.ofExcept _) fun _ => d.ofExcept _
    · rw [if_neg hnamed]
      exact d.bind (d.ofExcept _) fun _ => d.ofExcept _

/-- Reading type information is related to itself if reading what follows the type id of a user type
is. -/
theorem typeInfo (huser : ∀ id kind, d.Rel (Read.userInfo env id kind) (Read.userInfo env id kind)) :
    d.Rel (Read.typeInfo env) (Read.typeInfo env) := by
  unfold Read.typeInfo
  refine d.bind (d.take (.varint _) (.varint _)) fun id => d.bind (d.ofExcept _) fun kind => ?_
  have hrest : d.Rel
      (if kind.isUser then Read.userInfo env (UInt32.ofNat id) kind else return .known kind)
      (if kind.isUser then Read.userInfo env (UInt32.ofNat id) kind else return .known kind) := by
    split
    · exact huser _ kind
    · exact d.pure _
  by_cases hreadable : (!kind.isReadable) = true
  · simp only [if_pos hreadable]
    exact d.bind (d.throw _) fun _ => hrest
  · simp only [if_neg hreadable]
    exact hrest

include hname in
/-- So is reading what stands between the flag of a value and its data. -/
theorem info (kind : Kind) : d.Rel (Read.info env kind) (Read.info env kind) := by
  unfold Read.info
  split
  · exact d.typeInfo (d.userInfo hname)
  · exact d.pure _

/-- Reading a flag is related to itself. -/
theorem flag (flagged : Bool) : d.Rel (Read.flag flagged) (Read.flag flagged) := by
  unfold Read.flag
  split
  · exact d.bind (d.take .byte .byte) fun byte => d.ofExcept _
  · exact d.pure _

end Annotations

/-- Readers of a number are related. -/
theorem number (t : IntType) {body : Take Int} (hlocal : body.Local) (hforward : body.Forward)
    (shape : Shape) : d.Rel (Read.number t body shape) (Read.number t body shape) :=
  d.bind (d.take hlocal hforward) fun _ => d.ofExcept _

/-- Finding that all elements or entries were asked for is related to itself. -/
theorem filled (count : Nat) (e : Nat → Error) (result : Datum × Nat) :
    d.Rel
      (match result with
        | (value, taken) => do
          if taken < count then throw (e (count - taken))
          return value)
      (match result with
        | (value, taken) => do
          if taken < count then throw (e (count - taken))
          return value) := by
  obtain ⟨value, taken⟩ := result
  dsimp only
  split
  · exact d.bind (d.throw _) fun _ => d.pure value
  · exact d.pure value

section Contents

variable {content content' : WireType → Shape → Read Datum}
  (hcontent : ∀ type shape, d.Rel (content type shape) (content' type shape))
include hcontent

/-- Readers of a builtin value are related if those of its contents are. -/
theorem known (kind : Kind) (type : WireType) (shape : Shape) :
    d.Rel (Read.known env content kind type shape) (Read.known env content' kind type shape) := by
  cases kind with
  | boolean => exact d.bind (d.take .byte .byte) fun _ => d.ofExcept _
  | float16 | float32 | float64 =>
    exact d.bind (d.take (.natural _) (.natural _)) fun _ => d.ofExcept _
  | string => exact d.bind (d.take .textBody .textBody) fun _ => d.ofExcept _
  | binary => exact d.bind (d.take .counted .counted) fun _ => d.ofExcept _
  | varInt32 => exact d.number _ .signed32 .signed32 shape
  | varInt64 => exact d.number _ .signed64 .signed64 shape
  | sliInt64 => exact d.number _ .shortOrLong .shortOrLong shape
  | int8 | int16 | int32 | int64 | uint8 | uint16 | uint32 | uint64 | timestamp | localDate =>
    exact d.number _ (.integerBody _) (.integerBody _) shape
  | duration =>
    refine d.bind (d.take .signed64 .signed64) fun seconds => ?_
    refine d.bind (d.take (.integer 4) (.integer 4)) fun nanos => ?_
    exact d.map (d.visit (fun _ _ => d.ofExcept _) 2 shape) Prod.fst
  | list | set =>
    refine d.bind (d.ofExcept _) fun element => d.bind (d.take (.varint _) (.varint _)) fun count => ?_
    exact d.bind (d.visit (fun _ => hcontent element) count shape) (d.filled count .elementsLeft)
  | map =>
    refine d.bind (d.ofExcept _) fun key => d.bind (d.ofExcept _) fun value => ?_
    refine d.bind (d.take (.varint _) (.varint _)) fun count => ?_
    exact d.bind (d.visitEntries (fun _ => hcontent key) (fun _ => hcontent value) count shape)
      (d.filled count .entriesLeft)
  | _ => exact d.throw _

section Structs

variable {skip skip' : WireType → Read Unit} (hskip : ∀ type, d.Rel (skip type) (skip' type))
include hskip

/-- Readers of the fields of a struct are related if those of each field are. -/
theorem fields (parts : List (Member Shape)) (schema : List SchemaField)
    (found : List (Nat × Datum)) :
    d.Rel (Read.fields content skip parts schema found)
      (Read.fields content' skip' parts schema found) := by
  induction schema generalizing found with
  | nil => exact d.pure found
  | cons field rest ih =>
    unfold Read.fields
    extract_lets part?
    cases part? with
    | none => exact d.bind (hskip field.type) fun _ => ih found
    | some pair =>
      obtain ⟨place, part⟩ := pair
      have hvalue := d.bind (hcontent field.type part.content) fun value =>
        ih (found ++ [(place, value)])
      by_cases htwice : (found.lookup place).isSome
      · simp only [if_pos htwice]
        exact d.bind (d.throw _) fun _ => hvalue
      · simp only [if_neg htwice]
        exact hvalue

/-- Readers of a struct are related if those of its fields are. -/
theorem struct (schema : Schema) (shape : Shape) :
    d.Rel (Read.struct env content skip schema shape)
      (Read.struct env content' skip' schema shape) := by
  unfold Read.struct
  split
  case h_1 name parts =>
    exact d.bind (d.fields hcontent hskip parts schema.fields []) fun _ => d.map (d.ofExcept _) _
  case h_2 =>
    refine d.map (d.visitEntries ?_ ?_ schema.fields.length _) Prod.fst
    · intro index shape
      dsimp only
      cases schema.fields[index]? with
      | some field => exact d.ofExcept _
      | none => exact d.throw _
    · intro index shape
      dsimp only
      cases schema.fields[index]? with
      | some field => exact hcontent _ shape
      | none => exact d.throw _

end Structs

end Contents

/-- Reading the data of an enum is related to itself. -/
theorem enum (shape : Shape) : d.Rel (Read.enum shape) (Read.enum shape) := by
  refine d.bind (d.take (.varint _) (.varint _)) fun index => ?_
  split <;> exact d.ofExcept _

/-- Readers of a value with a layout of its own are related if plain readers are. -/
theorem ext {fuel more : Nat} (hplain : ∀ shape,
    d.Rel (Read.take (Take.plainWithin env.shapes fuel shape))
      (Read.take (Take.plainWithin env.shapes more shape))) (shape : Shape) :
    d.Rel (Read.ext env fuel shape) (Read.ext env more shape) := by
  cases shape with
  | any | identifier | choice names => exact d.throw _
  | _ => exact hplain _

/-- Whoever passes over a builtin value is related if whoever passes over its contents is. -/
theorem skipKnown {skip skip' : WireType → Read Unit}
    (hskip : ∀ type, d.Rel (skip type) (skip' type)) (kind : Kind) (type : WireType) :
    d.Rel (Read.skipKnown skip kind type) (Read.skipKnown skip' kind type) := by
  cases kind with
  | string | binary =>
    exact d.bind (d.take (.varint _) (.varint _)) fun _ => d.take (.skip _) (.skip _)
  | duration => exact d.bind (d.take .signed64 .signed64) fun _ => d.take (.skip 4) (.skip 4)
  | varInt32 => exact d.map (d.take .signed32 .signed32) fun _ => ()
  | varInt64 => exact d.map (d.take .signed64 .signed64) fun _ => ()
  | sliInt64 => exact d.map (d.take .shortOrLong .shortOrLong) fun _ => ()
  | list | set =>
    refine d.bind (d.ofExcept _) fun element => d.bind (d.take (.varint _) (.varint _)) fun count => ?_
    exact d.map (d.times (hskip element) count) fun _ => ()
  | map =>
    refine d.bind (d.ofExcept _) fun key => d.bind (d.ofExcept _) fun value => ?_
    refine d.bind (d.take (.varint _) (.varint _)) fun count => ?_
    exact d.map (d.times (d.bind (hskip key) fun _ => hskip value) count) fun _ => ()
  | boolean | int8 | uint8 | int16 | uint16 | float16 | int32 | uint32 | float32 | localDate | int64
  | uint64 | float64 | timestamp => exact d.take (.skip _) (.skip _)
  | _ => exact d.throw _

/-- Whoever passes over the fields of a struct is related if whoever passes over each field is. -/
theorem skipFields {skip skip' : WireType → Read Unit}
    (hskip : ∀ type, d.Rel (skip type) (skip' type)) (fields : List SchemaField) :
    d.Rel (Read.skipFields skip fields) (Read.skipFields skip' fields) := by
  induction fields with
  | nil => exact d.pure ()
  | cons field rest ih => exact d.bind (hskip field.type) fun _ => ih

section Values

variable {fuel more : Nat} (hplain : ∀ shape,
    d.Rel (Read.take (Take.plainWithin env.shapes fuel shape))
      (Read.take (Take.plainWithin env.shapes more shape)))
  {skip skip' : Scope → Spot → Read Unit}
  (hskip : ∀ inner inner', d.Near inner inner' → ∀ spot, d.Rel (skip inner spot) (skip' inner' spot))
  {scope other : Scope} (hscope : d.Near scope other)
include hplain hskip hscope

/-- Whoever passes over the data of a value is related if whoever passes over what stands inside of
it is. -/
theorem skipContent (type : WireType) (resolved : Resolved) :
    d.Rel (Read.skipContent env fuel skip scope type resolved)
      (Read.skipContent env more skip' other type resolved) := by
  cases resolved with
  | ext host =>
    cases host with
    | none => exact d.throw _
    | some host => exact d.map (hplain (.ofHost host)) fun _ => ()
  | enum => exact d.map (d.take (.varint _) (.varint _)) fun _ => ()
  | struct schema =>
    exact d.deeper _ hscope fun inner inner' hinner =>
      d.skipFields (fun type => hskip inner inner' hinner (.declared type)) schema.fields
  | known kind =>
    exact d.skipKnown (fun type => hskip scope other hscope (.declared type)) kind type

/-- Readers of the data of a value are related if those of what stands inside of it are. -/
theorem content {read read' : Scope → Spot → Shape → Read Datum}
    (hread : ∀ inner inner', d.Near inner inner' → ∀ type shape,
      d.Rel (read inner (.declared type) shape) (read' inner' (.declared type) shape))
    (type : WireType) (resolved : Resolved)
    (hinside : ∀ shape, d.Rel (read scope (.entered type resolved) shape)
      (read' other (.entered type resolved) shape)) (shape : Shape) :
    d.Rel (Read.content env fuel read skip scope type resolved shape)
      (Read.content env more read' skip' other type resolved shape) := by
  have hdata : d.Rel
      (match resolved with
        | .ext _ => Read.ext env fuel shape
        | .struct schema => do
          let scope ← MonadExcept.ofExcept (scope.deeper env.config.maxDepth)
          Read.struct env (fun type shape => read scope (.declared type) shape)
            (fun type => skip scope (.declared type)) schema shape
        | .enum => Read.enum shape
        | .known kind =>
          Read.known env (fun type shape => read scope (.declared type) shape) kind type shape)
      (match resolved with
        | .ext _ => Read.ext env more shape
        | .struct schema => do
          let scope ← MonadExcept.ofExcept (other.deeper env.config.maxDepth)
          Read.struct env (fun type shape => read' scope (.declared type) shape)
            (fun type => skip' scope (.declared type)) schema shape
        | .enum => Read.enum shape
        | .known kind =>
          Read.known env (fun type shape => read' other (.declared type) shape) kind type shape) := by
    cases resolved with
    | ext host => exact d.ext hplain shape
    | struct schema =>
      exact d.deeper _ hscope fun inner inner' hinner => d.struct
        (fun type shape => hread inner inner' hinner type shape)
        (fun type => hskip inner inner' hinner (.declared type)) schema shape
    | enum => exact d.enum shape
    | known kind =>
      exact d.known (fun type shape => hread scope other hscope type shape) kind type shape
  cases shape with
  | option inner => exact d.map (hinside inner) Datum.some
  | ignored => exact d.map (hskip scope other hscope (.entered type resolved)) fun _ => Datum.unit
  | newtype name inner =>
    cases resolved with
    | ext host => exact hdata
    | _ => exact d.map (hinside inner) Datum.newtype
  | _ => cases resolved <;> exact hdata

variable {spot : Spot} (henter : d.Rel (Read.enter env scope.recording spot)
  (Read.enter env other.recording spot))
include henter

omit hskip in
/-- Whoever passes over a value is related with one more call if whoever passes over what stands
inside of it is. -/
theorem skipWithin_succ
    (hbelow : ∀ inner inner', d.Near inner inner' → ∀ spot,
      d.Rel (Read.skipWithin env fuel inner spot) (Read.skipWithin env more inner' spot)) :
    d.Rel (Read.skipWithin env (fuel + 1) scope spot)
      (Read.skipWithin env (more + 1) other spot) := by
  refine d.bind henter fun entry => ?_
  cases entry with
  | null | ref entry => exact d.pure ()
  | value type resolved => exact d.skipContent hplain hbelow hscope type resolved

omit hskip in
/-- Readers of a value are related with one more call if those of what stands inside of it are, and
those of values that stand again. -/
theorem datumWithin_succ
    (hpass : ∀ inner inner', d.Near inner inner' → ∀ spot,
      d.Rel (Read.skipWithin env fuel inner spot) (Read.skipWithin env more inner' spot))
    (hagain : ∀ entry shape, d.Rel
      (Read.again entry fun spot =>
        Read.datumWithin env fuel { scope with recording := false } spot shape)
      (Read.again entry fun spot =>
        Read.datumWithin env more { other with recording := false } spot shape))
    (hread : ∀ inner inner', d.Near inner inner' → ∀ spot shape,
      d.Rel (Read.datumWithin env fuel inner spot shape) (Read.datumWithin env more inner' spot shape))
    (shape : Shape) :
    d.Rel (Read.datumWithin env (fuel + 1) scope spot shape)
      (Read.datumWithin env (more + 1) other spot shape) := by
  unfold Read.datumWithin
  dsimp only
  generalize env.shapes.resolve shape = own
  cases own
  case refused => exact d.throw _
  all_goals
    refine d.bind henter fun entry => ?_
    cases entry with
    | null => exact d.ofExcept _
    | ref entry => exact hagain entry _
    | value type resolved =>
      exact d.content hplain hpass hscope
        (fun inner inner' hinner type shape => hread inner inner' hinner (.declared type) shape) type
        resolved (fun shape => hread scope other hscope (.entered type resolved) shape) _

end Values

end DataTwins

end Read

end SchemaWire
