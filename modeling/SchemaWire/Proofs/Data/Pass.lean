import SchemaWire.Proofs.Data.Bound
import SchemaWire.Proofs.Data.Replay

/-!
# Passing over what can be read

Whoever reads whatever the message describes takes all of it, and whoever passes over it takes the
same. One reader passes for another if it succeeds wherever the other one does and comes to the
same state; what it gives does not matter. Passing over a value passes for reading it by a shape
that describes nothing itself: element for element, entry for entry and field for field.
-/

namespace SchemaWire

/-- The second reader succeeds wherever the first one does, and comes to the same state. -/
def Passes {σ α β : Type} (x : EStateM Error σ α) (y : EStateM Error σ β) : Prop :=
  ∀ s a t, x s = .ok a t → ∃ b, y s = .ok b t

namespace Passes

variable {σ α β γ δ : Type} {x : EStateM Error σ α} {y : EStateM Error σ β}

/-- A reader passes for itself. -/
theorem refl (x : EStateM Error σ α) : Passes x x :=
  fun _ a _ h => ⟨a, h⟩

/-- Whatever passes for a reader that passes for another one passes for the latter. -/
theorem trans {z : EStateM Error σ γ} (h : Passes x y) (h' : Passes y z) : Passes x z := by
  intro s a t hok
  obtain ⟨b, hb⟩ := h s a t hok
  exact h' s b t hb

/-- Every reader passes for one that fails. -/
theorem of_throw (e : Error) : Passes (MonadExcept.throw e : EStateM Error σ α) y := nofun

/-- Every reader passes for one that starts with a failure. -/
theorem of_throw_bind (e : Error) (k : β → EStateM Error σ α) {z : EStateM Error σ γ} :
    Passes ((MonadExcept.throw e : EStateM Error σ β) >>= k) z := nofun

/-- Sequences pass for sequences whose parts they pass for. -/
theorem bind {k : α → EStateM Error σ γ} {l : β → EStateM Error σ δ} (h : Passes x y)
    (hnext : ∀ a b, Passes (k a) (l b)) : Passes (x >>= k) (y >>= l) := by
  intro s c u hok
  obtain ⟨a, t, hfirst, hsecond⟩ := exists_of_bind_ok hok
  obtain ⟨b, hb⟩ := h s a t hfirst
  obtain ⟨d, hd⟩ := hnext a b t c u hsecond
  exact ⟨d, (bind_of_ok hb).trans hd⟩

/-- Sequences that start in the same way pass for each other where the rest does. -/
theorem after {k : α → EStateM Error σ γ} {l : α → EStateM Error σ δ}
    (h : ∀ a, Passes (k a) (l a)) : Passes (x >>= k) (x >>= l) := by
  intro s c u hok
  obtain ⟨a, t, hfirst, hsecond⟩ := exists_of_bind_ok hok
  obtain ⟨d, hd⟩ := h a t c u hsecond
  exact ⟨d, (bind_of_ok hfirst).trans hd⟩

/-- What is made of the result of the first reader does not matter. -/
theorem map_left (h : Passes x y) (f : α → γ) : Passes (do return f (← x)) y := by
  intro s c t hok
  obtain ⟨a, u, hfirst, hsecond⟩ := exists_of_bind_ok hok
  cases hsecond
  exact h s a _ hfirst

/-- What is made of the result of the second reader does not matter. -/
theorem map_right (h : Passes x y) (f : β → γ) : Passes x (do return f (← y)) := by
  intro s a t hok
  obtain ⟨b, hb⟩ := h s a t hok
  exact ⟨f b, bind_of_ok hb⟩

/-- What the first reader checks of its result does not matter. -/
theorem check_left (h : Passes x y) (f : α → Except Error γ) :
    Passes (x >>= fun a => MonadExcept.ofExcept (f a)) y := by
  intro s c t hok
  obtain ⟨a, u, hfirst, hsecond⟩ := exists_of_bind_ok hok
  obtain ⟨-, rfl⟩ := exists_of_ofExcept_ok hsecond
  exact h s a _ hfirst

/-- Turns of a loop pass for reading elements where each turn passes for each element. -/
theorem collect {read : Elements σ} {shape : Shape} {skip : EStateM Error σ β}
    (h : ∀ index, Passes (read index shape) skip) (count index : Nat) :
    Passes (read.collect shape count index) (Take.times skip count) := by
  induction count generalizing index with
  | zero => exact fun _ _ _ hok => ⟨[], by cases hok; rfl⟩
  | succ count ih =>
    exact (h index).bind fun a b => ((ih (index + 1)).map_left (a :: ·)).map_right (b :: ·)

/-- Turns of a loop pass for reading entries where each turn passes for a key and its value. -/
theorem collectEntries {read : Entries σ} {key value : Shape} {skipKey : EStateM Error σ Unit}
    {skipValue : EStateM Error σ β} (hkey : ∀ index, Passes (read.key index key) skipKey)
    (hvalue : ∀ index, Passes (read.value index value) skipValue) (count index : Nat) :
    Passes (read.collect key value count index)
      (Take.times (do skipKey; skipValue) count) := by
  induction count generalizing index with
  | zero => exact fun _ _ _ hok => ⟨[], by cases hok; rfl⟩
  | succ count ih =>
    rw [Take.times, bind_assoc]
    exact (hkey index).bind fun k _ => (hvalue index).bind fun v b =>
      ((ih (index + 1)).map_left ((k, v) :: ·)).map_right (b :: ·)

/-- Readers of bytes pass for each other within a message. -/
theorem take {r : Take α} {r' : Take β} (h : Passes r r') : Passes (Read.take r) (Read.take r') := by
  intro s a t hok
  obtain ⟨rest, hrest, rfl⟩ := Read.exists_of_take_ok hok
  obtain ⟨b, hb⟩ := h s.input a rest hrest
  exact ⟨b, by rw [Read.take, hb]⟩

/-- Passing over bytes passes for reading them. -/
theorem bytes (n : Nat) : Passes (Take.bytes n) (Take.skip n) :=
  (refl _).map_right fun _ => ()

/-- Passing over bytes passes for reading a number of this width. -/
theorem natural (width : Nat) : Passes (Take.natural width) (Take.skip width) :=
  (bytes width).map_left LittleEndian.decode

/-- Passing over bytes passes for reading a signed number of this width. -/
theorem integer (width : Nat) : Passes (Take.integer width) (Take.skip width) :=
  (natural width).map_left (LittleEndian.signed (8 * width))

/-- Passing over bytes passes for reading an integer of this width. -/
theorem integerBody (t : IntType) : Passes (Read.integerBody t) (Take.skip t.bytes) := by
  unfold Read.integerBody
  split
  · exact integer t.bytes
  · exact (natural t.bytes).map_left fun n => (n : Int)

/-- Passing over one byte passes for reading it. -/
theorem byte : Passes Take.byte (Take.skip 1) := by
  intro s a t hok
  cases s with
  | nil => cases hok
  | cons b rest =>
    cases hok
    exact ⟨(), rfl⟩

/-- Doing nothing passes for a check. -/
theorem ofExcept (e : Except Error α) (b : β) :
    Passes (MonadExcept.ofExcept e : EStateM Error σ α) (Pure.pure b) := by
  intro s a t h
  obtain ⟨-, rfl⟩ := exists_of_ofExcept_ok h
  exact ⟨b, rfl⟩

/-- Doing nothing passes for giving a value unless something is wrong. -/
theorem ofCheck (wrong : Prop) [Decidable wrong] (e : Error) (a : α) (b : β) :
    Passes (do
      if wrong then throw e
      return a : EStateM Error σ α) (Pure.pure b) := by
  by_cases h : wrong
  · rw [if_pos h]
    exact of_throw_bind e _
  · rw [if_neg h]
    exact fun s _ t hok => ⟨b, by cases hok; rfl⟩

/-- What passes for a reader passes for one that does nothing first. -/
theorem idle_left {k : α → EStateM Error σ γ} (h : Passes x (Pure.pure ()))
    (hnext : ∀ a, Passes (k a) y) : Passes (x >>= k) y := by
  intro s c u hok
  obtain ⟨a, t, hfirst, hsecond⟩ := exists_of_bind_ok hok
  obtain ⟨_, hidle⟩ := h s a t hfirst
  cases hidle
  exact hnext a _ c u hsecond

/-- What does nothing afterwards passes for a reader if the reader before does. -/
theorem idle_right {k : α → EStateM Error σ γ} (h : Passes x y)
    (hnext : ∀ a, Passes (k a) (Pure.pure ())) : Passes (x >>= k) y := by
  intro s c u hok
  obtain ⟨a, t, hfirst, hsecond⟩ := exists_of_bind_ok hok
  obtain ⟨_, hidle⟩ := hnext a t c u hsecond
  cases hidle
  exact h s a _ hfirst

/-- Readers that do nothing but check and give values. -/
def idle : Steps σ where
  Holds r := Passes r (Pure.pure ())
  pure _ _ _ _ hok := ⟨(), by cases hok; rfl⟩
  throw e := of_throw e
  bind := idle_left

end Passes

namespace Shape

/-- Who asks for such a shape wants to be told what follows, and may allow for it to be missing. -/
def SelfDescribing : Shape → Prop
  | .any | .identifier | .ignored => True
  | .option content => content.SelfDescribing
  | _ => False

/-- A shape that asks to be told what follows is not the name of a user type. -/
theorem SelfDescribing.resolve_eq {shape : Shape} (h : shape.SelfDescribing) (shapes : Shapes) :
    shapes.resolve shape = shape := by
  cases shape <;> first | rfl | exact h.elim

end Shape

namespace Read

/-- Readers of bytes in sequence are in sequence within a message. -/
theorem take_bind {α β : Type} (r : Take α) (next : α → Take β) :
    Read.take (r >>= next) = (do Read.take (next (← Read.take r))) := by
  funext s
  cases hr : r s.input with
  | ok a rest =>
    have hfirst : Read.take r s = .ok a { s with input := rest } := by
      rw [Read.take, hr]
    rw [bind_of_ok hfirst, Read.take, bind_of_ok hr, Read.take]
  | error e rest =>
    have hfirst : Read.take r s = .error e { s with input := rest } := by
      rw [Read.take, hr]
    rw [bind_of_error hfirst, Read.take, bind_of_error hr]

/-- Passing over a text passes for reading it. -/
theorem passes_text : Passes (take textBody) (do
    let header ← take Varint.take36
    take (Take.skip (header / 4))) := by
  unfold textBody
  rw [take_bind]
  refine Passes.after fun header => Passes.take ?_
  intro s a t hok
  obtain ⟨content, u, hcontent, hrest⟩ := exists_of_bind_ok hok
  have hsame : t = u := by
    rcases hmode : header % 4 with _ | _ | _ | _ | mode <;> rw [hmode] at hrest
    · cases hrest
      rfl
    · exact (exists_of_ofExcept_ok hrest).2
    · exact (exists_of_ofExcept_ok hrest).2
    · cases hrest
    · cases hrest
  exact hsame ▸ Passes.bytes (header / 4) s content u hcontent

variable {env : ReadEnv} {fuel : Nat}

/-- A reader that does the same wherever another one ends passes for it. -/
theorem Steady.passes {α : Type} {x y : Read α} (h : Steady x y) : Passes x y :=
  fun s a _ hok => ⟨a, (h s (not_unfinished_of_ok hok)).trans hok⟩

/-- Behind its annotations, a value is passed over by its data. -/
theorem passes_entered (env : ReadEnv) (fuel : Nat) (scope : Scope) (type : WireType)
    (resolved : Resolved) :
    Passes (skipWithin env fuel scope (.entered type resolved))
      (skipContent env fuel (skipWithin env fuel) scope type resolved) := by
  cases fuel with
  | zero => exact .of_throw _
  | succ fuel =>
    have hsame : Steady (skipContent env fuel (skipWithin env fuel) scope type resolved)
        (skipContent env (fuel + 1) (skipWithin env (fuel + 1)) scope type resolved) := by
      refine Steady.twins.skipContent (steady_plain env.shapes (Nat.le_succ fuel)) ?_ rfl type resolved
      intro inner _ hinner spot
      exact hinner ▸ steady_skipWithin env (Nat.le_succ fuel) inner spot
    refine .trans (y := skipContent env fuel (skipWithin env fuel) scope type resolved) ?_ hsame.passes
    intro s a t h
    obtain ⟨entry, u, hentry, hrest⟩ := exists_of_bind_ok h
    obtain ⟨kind, w, hkind, hvalue⟩ := exists_of_bind_ok hentry
    obtain ⟨-, rfl⟩ := exists_of_ofExcept_ok hkind
    cases hvalue
    exact ⟨a, hrest⟩

/-- Passing over a builtin value without contents passes for reading it by whatever shape. -/
theorem passes_scalar (env : ReadEnv) (content : WireType → Shape → Read Datum)
    (skip : WireType → Read Unit) (type : WireType) (shape : Shape) {kind : Kind}
    (hlist : kind ≠ .list) (hset : kind ≠ .set) (hmap : kind ≠ .map) :
    Passes (known env content kind type shape) (skipKnown skip kind type) := by
  cases kind with
  | list => exact absurd rfl hlist
  | set => exact absurd rfl hset
  | map => exact absurd rfl hmap
  | boolean => exact Passes.byte.take.check_left _
  | int8 => exact (Passes.integerBody .int8).take.check_left _
  | int16 => exact (Passes.integerBody .int16).take.check_left _
  | int32 | localDate => exact (Passes.integerBody .int32).take.check_left _
  | int64 | timestamp => exact (Passes.integerBody .int64).take.check_left _
  | uint8 => exact (Passes.integerBody .uint8).take.check_left _
  | uint16 => exact (Passes.integerBody .uint16).take.check_left _
  | uint32 => exact (Passes.integerBody .uint32).take.check_left _
  | uint64 => exact (Passes.integerBody .uint64).take.check_left _
  | varInt32 | varInt64 | sliInt64 => exact ((Passes.refl _).check_left _).map_right _
  | float16 => exact (Passes.natural 2).take.check_left _
  | float32 => exact (Passes.natural 4).take.check_left _
  | float64 => exact (Passes.natural 8).take.check_left _
  | string => exact passes_text.check_left _
  | binary =>
    have hbody : Passes (take (do Take.bytes (← Varint.take32))) (do
        let length ← take Varint.take32
        take (Take.skip length)) :=
      take_bind Varint.take32 Take.bytes ▸ .after fun length => (Passes.bytes length).take
    exact hbody.check_left _
  | duration =>
    refine .after fun seconds => (Passes.integer 4).take.idle_right fun nanos => ?_
    exact (Passes.idle.visit (fun _ _ => Passes.idle.ofExcept _) 2 shape).map_left Prod.fst
  | _ => exact .of_throw _

section Described

variable {shape : Shape} (hshape : shape = .any ∨ shape = .identifier)
include hshape

/-- Turns of a loop pass for elements that describe themselves. -/
theorem passes_elements {read : Elements ReadState} {skip : Read Unit}
    (h : ∀ index, Passes (read index .any) skip) (count : Nat) :
    Passes (read.visit count shape) (Take.times skip count) := by
  rcases hshape with rfl | rfl <;> exact (Passes.collect h count 0).map_left _

/-- What passes for entries that describe themselves passes for a value made of them. -/
theorem passes_visit {α : Type} {read : Entries ReadState} {skip : Read α} {count : Nat}
    (h : Passes (read.collect .any .any count 0) skip) : Passes (read.visit count shape) skip := by
  rcases hshape with rfl | rfl <;> exact h.map_left _

variable {content : WireType → Shape → Read Datum} {skip : WireType → Read Unit}
  (h : ∀ type, Passes (content type .any) (skip type))
include h

/-- Passing over a builtin value passes for one that describes itself. -/
theorem passes_known (env : ReadEnv) (kind : Kind) (type : WireType) :
    Passes (known env content kind type shape) (skipKnown skip kind type) := by
  cases kind with
  | list | set =>
    refine .after fun element => .after fun count => ?_
    exact (passes_elements hshape (fun _ => h element) count).bind fun (value, taken) _ =>
      .ofCheck (taken < count) (.elementsLeft (count - taken)) value ()
  | map =>
    refine .after fun key => .after fun value => .after fun count => ?_
    let read : Entries ReadState := ⟨fun _ => content key, fun _ => content value⟩
    have hentries : Passes (read.collect .any .any count 0) _ :=
      Passes.collectEntries (fun _ => h key) (fun _ => h value) count 0
    refine (passes_visit hshape hentries).bind ?_
    exact fun (value, taken) _ => .ofCheck (taken < count) (.entriesLeft (count - taken)) value ()
  | _ => exact passes_scalar env content skip type shape nofun nofun nofun

omit hshape h in
/-- Passing over fields passes for reading their names and their values, from any field on. -/
theorem passes_fields {read : Entries ReadState} (fields : List SchemaField)
    (hkey : ∀ index, Passes (read.key index .any) (pure ()))
    (hvalue : ∀ index (hindex : index < fields.length),
      Passes (read.value index .any) (skip fields[index].type))
    (count index : Nat) (hcount : index + count = fields.length) :
    Passes (read.collect .any .any count index) (skipFields skip (fields.drop index)) := by
  induction count generalizing index with
  | zero =>
    rw [List.drop_of_length_le (by omega)]
    exact fun _ _ _ hok => ⟨(), by cases hok; rfl⟩
  | succ count ih =>
    rw [List.drop_eq_getElem_cons (by omega)]
    exact (hkey index).idle_left fun k => (hvalue index (by omega)).bind fun v _ =>
      (ih (index + 1) (by omega)).map_left ((k, v) :: ·)

/-- Passing over the fields of a struct passes for one that describes itself. -/
theorem passes_struct (env : ReadEnv) (skipField : WireType → Read Unit) (schema : Schema) :
    Passes (struct env content skipField schema shape) (skipFields skip schema.fields) := by
  unfold struct
  split
  · exact absurd hshape nofun
  refine (passes_visit hshape ?_).map_left Prod.fst
  refine passes_fields schema.fields ?_ ?_ schema.fields.length 0 (Nat.zero_add _)
  · intro index
    dsimp only
    split
    · exact .ofExcept _ ()
    · exact .of_throw _
  · intro index hindex
    dsimp only
    rw [List.getElem?_eq_getElem hindex]
    exact h schema.fields[index].type

end Described

/-- Passing over the data of a value passes for reading them by a shape that asks to be told what
follows. -/
theorem passes_content {read : Scope → Spot → Shape → Read Datum}
    (hread : ∀ scope spot shape, shape.SelfDescribing →
      Passes (read scope spot shape) (skipWithin env fuel scope spot))
    (scope : Scope) (type : WireType) (resolved : Resolved) {shape : Shape}
    (hshape : shape.SelfDescribing) :
    Passes (content env fuel read (skipWithin env fuel) scope type resolved shape)
      (skipContent env fuel (skipWithin env fuel) scope type resolved) := by
  have hentered := passes_entered env fuel scope type resolved
  have hdescribed (hany : shape = .any ∨ shape = .identifier) :
      Passes (content env fuel read (skipWithin env fuel) scope type resolved shape)
        (skipContent env fuel (skipWithin env fuel) scope type resolved) := by
    cases resolved with
    | ext host => rcases hany with rfl | rfl <;> exact .of_throw _
    | enum => rcases hany with rfl | rfl <;> exact ((Passes.refl _).check_left _).map_right _
    | struct schema =>
      have hstruct (inner : Scope) := passes_struct hany
        (fun type => hread inner (.declared type) .any trivial) env
        (fun type => skipWithin env fuel inner (.declared type)) schema
      rcases hany with rfl | rfl <;> exact .after hstruct
    | known kind =>
      have hknown := passes_known hany
        (fun type => hread scope (.declared type) .any trivial) env kind type
      rcases hany with rfl | rfl <;> exact hknown
  cases shape with
  | any => exact hdescribed (.inl rfl)
  | identifier => exact hdescribed (.inr rfl)
  | ignored => exact hentered.map_left fun _ => Datum.unit
  | option inner => exact ((hread scope _ inner hshape).trans hentered).map_left Datum.some
  | _ => exact hshape.elim

/-- Reading a value again leaves everything as it was where type information tells nothing. -/
theorem again_passes (hinfo : Discipline.frozen.Holds (typeInfo env)) (ask : Spot → Shape → Shape)
    (scope : Scope) (entry : RefEntry) (shape : Shape) :
    Passes (again entry fun spot =>
      datumAsking env ask fuel { scope with recording := false } spot shape) (pure ()) := by
  intro s v t h
  obtain ⟨u, hread, rfl⟩ := exists_of_again_ok h
  have hfrozen := Discipline.frozen.datumAsking env hinfo ask fuel { scope with recording := false }
    (.entered entry.type entry.resolved) shape nofun
  have htold : u.told = s.told := hfrozen { s with input := entry.start } _ _ hread
  have hrefs : u.refs = s.refs := congrArg Prod.snd htold
  have hnames : u.names = s.names := congrArg Prod.fst htold
  exact ⟨(), by rw [hrefs, hnames]; rfl⟩

/-- Passing over a value passes for reading what its annotations announce. -/
theorem passes_announced (hcompatible : env.config.compatible = true) {ask : Spot → Shape → Shape}
    {fuel : Nat} (hread : ∀ scope spot shape, shape.SelfDescribing →
      Passes (datumAsking env ask fuel scope spot (ask spot shape)) (skipWithin env fuel scope spot))
    (scope : Scope) (spot : Spot) {shape : Shape} (hshape : shape.SelfDescribing) :
    Passes (do
      match ← enter env scope.recording spot with
      | .null => MonadExcept.ofExcept (missing shape)
      | .ref entry =>
        again entry fun spot =>
          datumAsking env ask fuel { scope with recording := false } spot shape
      | .value type resolved =>
        content env fuel
          (fun scope spot shape => datumAsking env ask fuel scope spot (ask spot shape))
          (skipWithin env fuel) scope type resolved shape)
      (skipWithin env (fuel + 1) scope spot) := by
  refine .after fun entry => ?_
  cases entry with
  | null => exact .ofExcept _ ()
  | ref entry => exact again_passes (Discipline.frozen_typeInfo (.inl hcompatible)) ask scope entry shape
  | value type resolved => exact passes_content hread scope type resolved hshape

/-- Passing over a value passes for reading it by shapes that ask to be told what follows. -/
theorem passes_datumAsking (hcompatible : env.config.compatible = true)
    {ask : Spot → Shape → Shape}
    (hask : ∀ spot shape, shape.SelfDescribing → (ask spot shape).SelfDescribing)
    (fuel : Nat) (scope : Scope) (spot : Spot) {shape : Shape} (hshape : shape.SelfDescribing) :
    Passes (datumAsking env ask fuel scope spot shape) (skipWithin env fuel scope spot) := by
  induction fuel generalizing scope spot shape with
  | zero => exact .of_throw _
  | succ fuel ih =>
    rw [datumAsking, hshape.resolve_eq]
    have hentry := passes_announced hcompatible
      (fun scope spot shape hshape => ih scope spot (hask spot shape hshape)) scope spot hshape
    cases shape with
    | any | identifier | ignored | option content => exact hentry
    | _ => exact hshape.elim

end Read

/-- Where schemas travel, whatever can be read by asking to be told what follows can be passed over.
Passing over it comes to the same place in the message and records the same values behind those
that were recorded before, whatever the shapes are that the reader turns to on the way. -/
theorem skip_agrees_with_read {env : ReadEnv} (hcompatible : env.config.compatible = true)
    {ask : Spot → Shape → Shape}
    (hask : ∀ spot shape, shape.SelfDescribing → (ask spot shape).SelfDescribing)
    {shape : Shape} (hshape : shape.SelfDescribing) {fuel : Nat} {scope : Scope} {spot : Spot}
    {s t : ReadState} {v : Datum}
    (h : Read.datumAsking env ask fuel scope spot shape s = .ok v t) :
    Read.skipWithin env fuel scope spot s = .ok () t ∧ s.refs <+: t.refs := by
  obtain ⟨_, hskip⟩ := Read.passes_datumAsking hcompatible hask fuel scope spot hshape s v t h
  have hadding := Read.Discipline.adding.datumAsking env
    (Read.Discipline.adding.typeInfo fun _ => Read.Discipline.adding_name) ask fuel scope spot shape
    fun _ => Read.Discipline.adding_record
  exact ⟨hskip, (hadding s v t h).2⟩

namespace Sample

/-- What the reader of a message with a register of guests relies on. -/
def porter : ReadEnv :=
  ⟨⟨false, true, .tracking, 5⟩, .standard, [],
    [⟨false, 784, "", "", [⟨"day", false, false, ⟨26, false, false, []⟩⟩,
      ⟨"guests", false, true, ⟨21, false, true, [⟨12, true, true, []⟩]⟩⟩]⟩]⟩

/-- A register with a day and three guests: one with a name, one with the same name, one without. -/
def register : ReadState where
  input := [0, 144, 6, 3, 1, 0, 0, 0, 0, 3, 0, 4, 97, 254, 2, 253, 7]
  names := []
  refs := []

/-- The same message behind the register, with all that was recorded in it. -/
def leafed : ReadState where
  input := [7]
  names := []
  refs := [⟨[1, 0, 0, 0, 0, 3, 0, 4, 97, 254, 2, 253, 7], ⟨784, true, false, []⟩,
      .struct ⟨false, 784, "", "", [⟨"day", false, false, ⟨26, false, false, []⟩⟩,
        ⟨"guests", false, true, ⟨21, false, true, [⟨12, true, true, []⟩]⟩⟩]⟩⟩,
    ⟨[3, 0, 4, 97, 254, 2, 253, 7], ⟨21, false, true, [⟨12, true, true, []⟩]⟩, .known .list⟩,
    ⟨[4, 97, 254, 2, 253, 7], ⟨12, true, true, []⟩, .known .string⟩]

/-- Ask for whatever stands in front of annotations, and allow for it to be missing. -/
def allowing : Spot → Shape → Shape
  | .declared _, _ => .option .any
  | .entered .., shape => shape

end Sample

/-- A register whose guests may be missing is read and passed over. -/
theorem skip_agrees_with_read_register :
    Read.datumAsking Sample.porter Sample.allowing 9 ⟨0, true⟩ (.declared ⟨784, true, false, []⟩)
        .any Sample.register = .ok (.map true [(.text "day", .some (.int .int32 1)),
          (.text "guests", .some (.seq true [.some (.text "a"), .some (.text "a"), .none]))])
            Sample.leafed ∧
      Read.skipWithin Sample.porter 9 ⟨0, true⟩ (.declared ⟨784, true, false, []⟩) Sample.register =
        .ok () Sample.leafed ∧
      Sample.register.refs <+: Sample.leafed.refs := by
  have hread : Read.datumAsking Sample.porter Sample.allowing 9 ⟨0, true⟩
      (.declared ⟨784, true, false, []⟩) .any Sample.register = .ok _ Sample.leafed := rfl
  have hask : ∀ spot shape, shape.SelfDescribing → (Sample.allowing spot shape).SelfDescribing := by
    intro spot shape hshape
    cases spot with
    | declared type => trivial
    | entered type resolved => exact hshape
  have hany : Shape.any.SelfDescribing := trivial
  exact ⟨hread, skip_agrees_with_read rfl hask hany hread⟩

end SchemaWire
