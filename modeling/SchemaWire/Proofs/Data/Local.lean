import SchemaWire.Data.Read
import SchemaWire.Proofs.Name.Table
import SchemaWire.Proofs.Data.Steps

/-!
# Readers of bytes that look at nothing else

A reader that succeeds on an input needs only the bytes that it takes. On an input that ends
earlier it does the same, if these bytes are still there, and otherwise says that the input ended.
No reader of bytes fails in another way, or succeeds, because something is missing behind it.
-/

namespace SchemaWire

section Following

variable {σ α β : Type} {R : σ → σ → Prop}

/-- Reading comes to the end of its input and misses bytes there. -/
def RunsOut (result : EStateM.Result Error σ α) : Prop :=
  ∃ n t, result = .error (.unexpectedEnd n) t

/-- A sequence runs out where its first part does. -/
theorem RunsOut.bind {x : EStateM Error σ α} {s : σ} (h : RunsOut (x s))
    (f : α → EStateM Error σ β) : RunsOut ((x >>= f) s) := by
  obtain ⟨n, t, hx⟩ := h
  exact ⟨n, t, bind_of_error hx⟩

/-- Wherever the reader succeeds, it finds the same in related states, or runs out there. -/
def Follows (R : σ → σ → Prop) (reader : EStateM Error σ α) : Prop :=
  ∀ s s' a t, R s s' → reader s = .ok a t →
    (∃ t', reader s' = .ok a t' ∧ R t t') ∨ RunsOut (reader s')

/-- Doing nothing leads from related states to related states. -/
theorem Follows.pure (a : α) : Follows R (Pure.pure a : EStateM Error σ α) := by
  intro s s' b t hs h
  cases h
  exact .inl ⟨s', rfl, hs⟩

/-- A reader that fails has nothing to follow. -/
theorem Follows.throw (e : Error) : Follows R (MonadExcept.throw e : EStateM Error σ α) :=
  nofun

/-- A sequence follows if its parts do. -/
theorem Follows.bind {reader : EStateM Error σ α} {next : α → EStateM Error σ β}
    (h : Follows R reader) (hnext : ∀ a, Follows R (next a)) : Follows R (reader >>= next) := by
  intro s s' b t hs hok
  obtain ⟨a, u, hfirst, hsecond⟩ := exists_of_bind_ok hok
  obtain ⟨u', hfirst', hu⟩ | hends := h s s' a u hs hfirst
  · rw [bind_of_ok hfirst']
    exact hnext a u u' b t hu hsecond
  · exact .inr (hends.bind next)

end Following

namespace Take

variable {α β : Type}

/-- The reader looks at the bytes that it takes and at no others. -/
def Local (reader : Take α) : Prop :=
  ∀ back, Follows (fun whole part => whole = part ++ back) reader

namespace Local

/-- Readers that look at nothing else do so in sequence. -/
def steps : Steps (List UInt8) where
  Holds := Local
  pure a _ := .pure a
  throw e _ := .throw e
  bind h hnext back := (h back).bind fun a => hnext a back

variable {reader : Take α}

/-- What is made of the result afterwards needs no bytes. -/
theorem map (h : reader.Local) (f : α → β) : Local (do return f (← reader)) :=
  steps.map h f

/-- Reading one byte looks at this byte. -/
theorem byte : Take.byte.Local := by
  rintro back whole part a rest rfl h
  cases part with
  | nil => exact .inr ⟨1, [], rfl⟩
  | cons b part =>
    cases h
    exact .inl ⟨part, rfl, rfl⟩

/-- A reader that takes the given number of bytes, and says where there are fewer that the input
ended, looks at nothing else. -/
theorem of_takes {reader : Take (List UInt8)} (n : Nat)
    (htakes : ∀ input, n ≤ input.length → reader input = .ok (input.take n) (input.drop n))
    (hends : ∀ input, input.length < n → RunsOut (reader input)) :
    reader.Local := by
  rintro back whole part content rest rfl h
  rcases Nat.lt_or_ge part.length n with hlt | hle
  · exact .inr (hends part hlt)
  · have hwhole : n ≤ (part ++ back).length := by
      rw [List.length_append]
      exact Nat.le_add_right_of_le hle
    rw [htakes _ hwhole, List.take_append_of_le_length hle,
      List.drop_append_of_le_length hle] at h
    cases h
    exact .inl ⟨part.drop n, htakes part hle, rfl⟩

/-- Reading bytes looks at these bytes. -/
theorem bytes (n : Nat) : (Take.bytes n).Local := by
  refine of_takes n (fun input h => ?_) fun input h => ⟨_, _, Take.bytes_of_length_lt h⟩
  rw [Take.bytes, if_pos (List.length_take_of_le h)]

/-- Reading bytes from a stream looks at these bytes. -/
theorem exactly (n : Nat) : (Take.exactly n).Local := by
  refine of_takes n (fun input h => ?_) fun input h => ?_
  · rw [Take.exactly, if_pos (List.length_take_of_le h)]
  · have hshort := Nat.ne_of_lt (Nat.lt_of_le_of_lt (List.length_take_le' n input) h)
    exact ⟨n, [], if_neg hshort⟩

/-- Passing over bytes looks at these bytes. -/
theorem skip (n : Nat) : (Take.skip n).Local :=
  steps.bind (bytes n) fun _ => steps.pure ()

/-- Reading a number of a fixed width looks at its bytes. -/
theorem natural (width : Nat) : (Take.natural width).Local :=
  (bytes width).map LittleEndian.decode

/-- Reading a signed number of a fixed width looks at its bytes. -/
theorem integer (width : Nat) : (Take.integer width).Local :=
  (natural width).map (LittleEndian.signed (8 * width))

/-- Reading one byte from a stream looks at this byte. -/
theorem streamedByte : Take.streamedByte.Local :=
  (exactly 1).map (·.headD 0)

/-- Reading a number in groups looks at its groups. -/
theorem takeGroups {next : Take UInt8} (hnext : next.Local) (budget : Varint.Budget)
    (left shift value : Nat) : (Varint.takeGroups next budget left shift value).Local := by
  induction left generalizing shift value with
  | zero => exact steps.throw _
  | succ left ih =>
    refine steps.bind hnext fun b => ?_
    dsimp only
    split
    · exact steps.pure _
    · split
      · split
        · exact steps.pure _
        · exact steps.throw _
      · exact ih _ _

/-- Reading a number within a budget looks at its groups. -/
theorem varint (budget : Varint.Budget) : (Varint.take budget).Local :=
  takeGroups byte budget _ _ _

/-- Reading a number within a budget from a stream looks at its groups. -/
theorem streamedVarint (budget : Varint.Budget) : (Varint.takeStreamed budget).Local :=
  takeGroups streamedByte budget _ _ _

/-- Reading a signed number looks at its groups. -/
theorem signed32 : Varint.takeSigned32.Local :=
  (varint Varint.word32).map Varint.unzigzag

/-- Reading a signed number looks at its groups. -/
theorem signed64 : Varint.takeSigned64.Local :=
  (varint Varint.word64).map Varint.unzigzag

/-- Reading a number that is short or long looks at its bytes, although it looks at the first of
them before it takes it. -/
theorem shortOrLong : Read.shortOrLong.Local := by
  rintro back whole part v rest rfl h
  cases part with
  | nil => exact .inr ⟨1, [], rfl⟩
  | cons first part =>
    have hbehind : Local (do
        if first % 2 = 0 then return (← Take.integer 4) / 2
        else
          Take.skip 1
          Take.integer 8) := by
      split
      · exact (integer 4).map (· / 2)
      · exact steps.bind (skip 1) fun _ => integer 8
    exact hbehind back _ (first :: part) v rest rfl h

/-- Reading an integer of a fixed width looks at its bytes. -/
theorem integerBody (t : IntType) : (Read.integerBody t).Local := by
  unfold Read.integerBody
  split
  · exact integer t.bytes
  · exact (natural t.bytes).map Int.ofNat

/-- Reading a text looks at its bytes. -/
theorem textBody : Read.textBody.Local := by
  refine steps.bind (varint _) fun header => steps.bind (bytes _) fun content => ?_
  split
  · exact steps.pure _
  · exact steps.ofExcept _
  · exact steps.ofExcept _
  · exact steps.throw _

/-- Reading a character looks at its bytes. -/
theorem character : Take.character.Local := by
  refine steps.bind (natural 4) fun code => ?_
  by_cases hvalid : code.isValidChar
  · rw [dif_pos hvalid]
    exact steps.pure _
  · rw [dif_neg hvalid]
    exact steps.throw _

/-- Reading counted bytes looks at these bytes. -/
theorem counted : Take.counted.Local :=
  steps.bind (varint _) fun n => bytes n

/-- Reading counted text looks at its bytes. -/
theorem text : Take.text.Local :=
  steps.bind counted fun _ => steps.ofExcept _

/-- Reading a value that may be missing looks at its bytes. -/
theorem optional {content : Take Datum} (h : content.Local) : (Take.optional content).Local := by
  refine steps.bind byte fun tag => ?_
  split
  · exact steps.pure _
  · split
    · exact h.map Datum.some
    · exact steps.throw _

/-- Reading a variant looks at its bytes. -/
theorem variant {element : Elements (List UInt8)}
    (h : ∀ index shape, Take.Local (element index shape))
    (name : String) (variants : List (Variant Shape)) :
    (Take.variant element name variants).Local := by
  refine steps.bind (varint _) fun index => ?_
  split
  · exact steps.throw _
  · exact steps.pure _
  · exact (h 0 _).map _
  · exact map (steps.positional h _ _ 0) _
  · exact map (steps.members h _ _ 0) _

/-- Reading a plain value looks at its bytes. -/
theorem plainWithin (shapes : Shapes) (fuel : Nat) (shape : Shape) :
    (Take.plainWithin shapes fuel shape).Local := by
  induction fuel generalizing shape with
  | zero => exact steps.throw _
  | succ fuel ih =>
    have hentries (count : Nat) (shape : Shape) : steps.Holds (Entries.visit
        ⟨fun _ shape => Take.plainWithin shapes fuel shape,
          fun _ shape => Take.plainWithin shapes fuel shape⟩ count shape) := by
      refine steps.visitEntries ?_ ?_ count shape
      · exact fun _ => ih
      · exact fun _ => ih
    unfold Take.plainWithin
    dsimp only
    generalize shapes.resolve shape = own
    cases own with
    | bool => exact byte.map _
    | int t =>
      dsimp only
      split
      · exact (integer t.bytes).map _
      · exact (natural t.bytes).map _
    | float32 => exact (natural 4).map _
    | float64 => exact (natural 8).map _
    | char => exact character.map _
    | string | str => exact text.map _
    | bytes | byteSlice => exact counted.map _
    | any | identifier | choice names | ignored | refused | user name => exact steps.throw _
    | unit | unitStruct name => exact steps.pure _
    | option content => exact optional (ih content)
    | list name element | set name element =>
      exact steps.bind (varint _) fun count => map (steps.visit (fun _ => ih) count _) _
    | tuple items | tupleStruct name items => exact map (steps.visit (fun _ => ih) _ _) _
    | map name key value | firstEntry name key value =>
      exact steps.bind (varint _) fun count => map (hentries count _) _
    | newtype name content => exact (ih content).map _
    | struct name members => exact map (steps.visit (fun _ => ih) _ _) _
    | enum name variants => exact variant (fun _ => ih) name variants

/-- Finding a name that was written before needs no bytes. -/
theorem nameAgain (table : Name.Table) (scheme : Name.Scheme) (place : Nat) :
    Local (match table[place]? with
      | none => throw (.nameOutOfRange place)
      | some entry => do
        return (← MonadExcept.ofExcept (scheme.decode entry.encoding entry.bytes), table)) := by
  split
  · exact steps.throw _
  · exact map (steps.ofExcept _) _

/-- Reading a name looks at its bytes. -/
theorem name (table : Name.Table) (scheme : Name.Scheme) : (Name.Table.takeBy table scheme).Local := by
  have hentry (size : Nat) : (Name.Table.takeEntry size).Local := by
    unfold Name.Table.takeEntry
    split
    · exact steps.bind (natural 8) fun hash => steps.bind (steps.ofExcept _) fun encoding =>
        (bytes size).map _
    · exact steps.bind byte fun flag => steps.bind (steps.ofExcept _) fun encoding =>
        (bytes size).map _
  refine steps.bind (varint _) fun header => ?_
  dsimp only
  by_cases hodd : header % 2 = 1
  · rw [if_pos hodd]
    split
    · exact steps.bind (steps.throw _) fun _ => nameAgain table scheme _
    · exact nameAgain table scheme _
  · rw [if_neg hodd]
    exact steps.bind (hentry _) fun entry => map (steps.ofExcept _) _

end Local

end Take

end SchemaWire
