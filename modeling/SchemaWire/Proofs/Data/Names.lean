import SchemaWire.Proofs.Data.Reading
import SchemaWire.Proofs.Data.Write

/-!
# Sessions of names

In a session names are written one after the other into one table, and read with the schemes
that they were written with. A name is spelled out the first time that its bytes and their
encoding appear, whichever scheme made them, and referred to ever after. The reader finds the
names and has the writer's table after each of them. A read that fails adds nothing.
-/

namespace SchemaWire

/-- A name with the scheme that it is used with. -/
structure Name.Use where
  /-- How the name is written. -/
  scheme : Name.Scheme
  /-- The name. -/
  name : String
  deriving DecidableEq, Repr

/-- The encoding and the bytes of a name. -/
def Name.Use.encoded (use : Name.Use) : Except Error (Name.Encoding × List UInt8) :=
  use.scheme.encode use.name

/-- The entry of a name. -/
def Name.Use.entry (use : Name.Use) : Name.Entry :=
  use.scheme.entry use.name

/-- One write of a session. -/
structure Name.Step where
  /-- The name. -/
  use : Name.Use
  /-- The bytes that are written for it. -/
  written : List UInt8
  /-- The table after it. -/
  table : Name.Table
  deriving DecidableEq, Repr

/-- Write names one after the other. -/
def Write.session : List Name.Use → Write (List Name.Step)
  | [] => return []
  | use :: rest => do
    let written ← name use.scheme use.name
    let tables ← get
    let others ← session rest
    return ⟨use, written, tables.names⟩ :: others

/-- Read names one after the other, each with the table after it. -/
def Read.session : List Name.Scheme → Read (List (String × Name.Table))
  | [] => return []
  | scheme :: rest => do
    let s ← name scheme
    let state ← get
    let others ← session rest
    return (s, state.names) :: others

namespace Name

namespace Step

/-- The bytes of a write start with an even number, the length of the name that follows. -/
def SpellsOut (step : Step) : Prop :=
  ∃ size rest, Varint.take32 step.written = .ok (2 * size) rest

/-- The length of a name and the number of entries leave room for a mark in 32 bits. -/
def Fits (step : Step) : Prop :=
  step.use.entry.bytes.length < 2 ^ 31 - 1 ∧ step.table.length < 2 ^ 31 - 1

instance (step : Step) : Decidable step.Fits :=
  inferInstanceAs (Decidable (_ ∧ _))

/-- The table after some writes that started from a table. -/
def tableAfter (start : Table) (steps : List Step) : Table :=
  (steps.map table).getLastD start

/-- The first write hands its table to the others. -/
theorem tableAfter_cons (start : Table) (step : Step) (rest : List Step) :
    tableAfter start (step :: rest) = tableAfter step.table rest := by
  rw [tableAfter, List.map_cons, List.getLastD_cons, tableAfter]

/-- What a reader finds where steps were written. -/
def found (steps : List Step) : List (String × Table) :=
  steps.map fun step => (step.use.name, step.table)

end Step

/-- The entry of a name is made of its encoding and its bytes. -/
theorem Use.exists_entry (use : Use) :
    ∃ encoding bytes, use.encoded = .ok (encoding, bytes) ∧ use.entry = .of bytes encoding := by
  obtain ⟨bytes, hencode⟩ := use.scheme.exists_encode use.name
  exact ⟨_, bytes, hencode, by rw [Use.entry, Scheme.entry, hencode]⟩

/-- Names have the same entry if they have the same encoding and the same bytes. -/
theorem Use.entry_eq_iff {use other : Use} :
    use.entry = other.entry ↔ use.encoded = other.encoded := by
  obtain ⟨encoding, bytes, hencoded, hentry⟩ := use.exists_entry
  obtain ⟨own, content, hown, hother⟩ := other.exists_entry
  rw [hentry, hother, hencoded, hown]
  constructor
  · intro h
    have hsame : (Entry.of bytes encoding).same (.of content own) = true := by
      rw [h, Entry.same, beq_self_eq_true, beq_self_eq_true, Bool.and_self]
    obtain ⟨rfl, rfl⟩ := Entry.encoding_eq_of_same hsame
    rfl
  · intro h
    cases h
    rfl

/-- The entries of a table are those of the names that were written. -/
def Table.Holds (table : Table) (steps : List Step) : Prop :=
  ∀ entry, entry ∈ table ↔ ∃ step ∈ steps, step.use.entry = entry

/-- Every entry of a table of written names has the hash of its bytes. -/
theorem Table.Holds.exists_of_mem {table : Table} {steps : List Step} (h : table.Holds steps)
    {entry : Entry} (hmem : entry ∈ table) : ∃ bytes encoding, entry = .of bytes encoding := by
  obtain ⟨step, -, rfl⟩ := (h entry).mp hmem
  obtain ⟨encoding, bytes, -, hentry⟩ := step.use.exists_entry
  exact ⟨bytes, encoding, hentry⟩

/-- A table holds a further name as well if it has just the entry of that name besides. -/
theorem Table.Holds.concat {table after : Table} {done : List Step} (h : table.Holds done)
    {step : Step} (hafter : ∀ entry, entry ∈ after ↔ entry ∈ table ∨ entry = step.use.entry) :
    after.Holds (done ++ [step]) := by
  intro entry
  rw [hafter entry, h entry]
  simp only [List.mem_append, List.mem_singleton, or_and_right, exists_or, exists_eq_left,
    eq_comm (a := entry)]

/-- One write adds the entry of its name to the table. It spells the name out if the entry is
new. -/
theorem Table.Holds.write {table : Table} {done : List Step} (h : table.Holds done) {step : Step}
    (hwrite : Table.write step.use.scheme step.use.name table = .ok step.written step.table)
    (hfits : step.Fits) (hcount : table.length < 2 ^ 31 - 1) :
    step.table.Holds (done ++ [step]) ∧
      (step.SpellsOut ↔ ∀ earlier ∈ done, earlier.use.encoded ≠ step.use.encoded) := by
  obtain ⟨bytes, encoding, hencoded, hcases⟩ := of_write_ok hwrite
  have hentry : step.use.entry = .of bytes encoding := by
    rw [Use.entry, Scheme.entry, hencoded]
  have hlength : bytes.length < 2 ^ 31 - 1 := by
    have hbytes := hfits.1
    rwa [hentry] at hbytes
  have hnew : (∀ earlier ∈ done, earlier.use.encoded ≠ step.use.encoded) ↔
      step.use.entry ∉ table := by
    rw [h step.use.entry]
    simp only [Use.entry_eq_iff, not_exists, not_and, ne_eq]
  rw [hnew, hentry]
  obtain ⟨index, entry, hfound, hsame, hwritten, htable⟩ | ⟨hfresh, hwritten, htable⟩ := hcases
  · have hmem := List.mem_of_getElem? hfound
    obtain ⟨other, own, rfl⟩ := h.exists_of_mem hmem
    obtain ⟨rfl, rfl⟩ := Entry.encoding_eq_of_same hsame
    refine ⟨h.concat fun entry => ?_, iff_of_false ?_ (not_not_intro hmem)⟩
    · rw [htable, hentry, iff_self_or]
      rintro rfl
      exact hmem
    · rintro ⟨size, rest, htake⟩
      obtain ⟨hindex, -⟩ := List.getElem?_eq_some_iff.mp hfound
      have hheader : 2 * (index + 1) + 1 < 2 ^ 32 := by omega
      have hodd := Varint.reads_take32 hheader []
      rw [List.append_nil, ← hwritten, htake] at hodd
      injection hodd with heq
      omega
  · refine ⟨h.concat fun entry => ?_, iff_of_true ?_ hfresh⟩
    · rw [htable, hentry, List.mem_append, List.mem_singleton]
    · have hheader : 2 * bytes.length < 2 ^ 32 := by omega
      have hsize := Varint.reads_take32 hheader
      rw [Step.SpellsOut, hwritten, spelledOut, List.append_assoc]
      exact ⟨bytes.length, _, hsize _⟩

/-- What one write does is undone by one read. -/
theorem Step.reads_name {table : Table} {done : List Step} (h : table.Holds done) {step : Step}
    (hwrite : Table.write step.use.scheme step.use.name table = .ok step.written step.table)
    (hfits : step.Fits) (hcount : table.length < 2 ^ 31 - 1) :
    Read.Reads (Read.name step.use.scheme) table step.written step.use.name step.table := by
  have hsize : ∀ encoding bytes, step.use.scheme.encode step.use.name = .ok (encoding, bytes) →
      bytes.length < 2 ^ 31 := by
    intro encoding bytes hencode
    have hlength := hfits.1
    rw [Use.entry, Scheme.entry, hencode] at hlength
    exact lt_trans hlength (by decide)
  have hread := Table.reads_takeBy_of_write hwrite (fun _ => h.exists_of_mem) hcount hsize
  intro back refs
  exact ⟨refs, by rw [Read.name_eq, hread back]⟩

end Name

section Runs

open Name

variable {uses : List Use} {tables last : WriteTables} {steps : List Step}

/-- A session is one write and a session after it. -/
theorem Write.exists_of_session_ok {use : Use}
    (h : session (use :: uses) tables = .ok steps last) :
    ∃ step others, steps = step :: others ∧ step.use = use ∧
      Table.write use.scheme use.name tables.names = .ok step.written step.table ∧
      session uses ⟨tables.queue, step.table⟩ = .ok others last := by
  obtain ⟨written, between, hname, h⟩ := exists_of_bind_ok h
  obtain ⟨own, same, hget, h⟩ := exists_of_bind_ok h
  cases hget
  obtain ⟨others, final, hothers, h⟩ := exists_of_bind_ok h
  cases h
  obtain ⟨names, hwrite, rfl⟩ := Write.of_name_ok hname
  exact ⟨_, others, rfl, rfl, hwrite, hothers⟩

/-- Every name of a session is written. -/
theorem Write.exists_session (uses : List Use) (tables : WriteTables) :
    ∃ steps last, session uses tables = .ok steps last ∧ steps.map Step.use = uses := by
  induction uses generalizing tables with
  | nil => exact ⟨[], tables, rfl, rfl⟩
  | cons use rest ih =>
    obtain ⟨written, names, hwrite⟩ := Table.exists_write tables.names use.scheme use.name
    have hname : Write.name use.scheme use.name tables = .ok written ⟨tables.queue, names⟩ := by
      simp only [Write.name, hwrite]
    obtain ⟨others, last, hothers, huses⟩ := ih ⟨tables.queue, names⟩
    refine ⟨⟨use, written, names⟩ :: others, last, ?_, by rw [List.map_cons, huses]⟩
    refine (bind_of_ok hname).trans ?_
    exact bind_of_ok hothers

/-- A session that starts with a table of written names spells out the names that are neither in
the table nor written before in the session. -/
theorem Write.spellsOut_iff {done : List Step} (h : session uses tables = .ok steps last)
    (hholds : tables.names.Holds done) (hcount : tables.names.length < 2 ^ 31 - 1)
    (hfits : ∀ step ∈ steps, step.Fits) {front back : List Step} {step : Step}
    (hsteps : steps = front ++ step :: back) :
    step.SpellsOut ↔ ∀ earlier ∈ done ++ front, earlier.use.encoded ≠ step.use.encoded := by
  induction uses generalizing tables steps done front with
  | nil =>
    cases h
    exact absurd hsteps.symm (List.append_ne_nil_of_right_ne_nil _ (List.cons_ne_nil _ _))
  | cons use rest ih =>
    obtain ⟨first, others, rfl, rfl, hwrite, hothers⟩ := exists_of_session_ok h
    have hfirst := hfits first List.mem_cons_self
    obtain ⟨hafter, hspells⟩ := hholds.write hwrite hfirst hcount
    cases front with
    | nil =>
      cases hsteps
      rwa [List.append_nil]
    | cons earliest front =>
      obtain ⟨rfl, rfl⟩ := List.cons.inj hsteps
      have hlater := ih hothers hafter hfirst.2
        (fun step hstep => hfits step (List.mem_cons_of_mem _ hstep)) rfl
      rwa [List.append_assoc, List.singleton_append] at hlater

/-- Names are read one after the other. -/
theorem Read.Reads.session {scheme : Scheme} {schemes : List Scheme} {names between after : Table}
    {written others : List UInt8} {s : String} {found : List (String × Table)}
    (h : Reads (name scheme) names written s between)
    (hrest : Reads (Read.session schemes) between others found after) :
    Reads (Read.session (scheme :: schemes)) names (written ++ others) ((s, between) :: found)
      after := by
  intro back refs
  obtain ⟨middle, hname⟩ := h (others ++ back) refs
  obtain ⟨final, hothers⟩ := hrest back middle
  refine ⟨final, ?_⟩
  rw [List.append_assoc]
  refine (bind_of_ok hname).trans ?_
  exact bind_of_ok hothers

/-- A reader of the first names of a session takes their bytes, and has the writer's table after
each of them. -/
theorem Write.reads_session {done : List Step} (h : session uses tables = .ok steps last)
    (hholds : tables.names.Holds done) (hcount : tables.names.length < 2 ^ 31 - 1)
    (hfits : ∀ step ∈ steps, step.Fits) {front : List Step} (hfront : front <+: steps) :
    Read.Reads (Read.session (front.map fun step => step.use.scheme)) tables.names
      (front.flatMap Step.written) (Step.found front) (Step.tableAfter tables.names front) := by
  induction uses generalizing tables steps done front with
  | nil =>
    cases h
    cases List.prefix_nil.mp hfront
    exact .pure _
  | cons use rest ih =>
    obtain ⟨first, others, rfl, rfl, hwrite, hothers⟩ := exists_of_session_ok h
    cases front with
    | nil => exact .pure _
    | cons own front =>
      obtain ⟨rfl, hrest⟩ := List.cons_prefix_cons.mp hfront
      have hown := hfits own List.mem_cons_self
      obtain ⟨hafter, -⟩ := hholds.write hwrite hown hcount
      have hlater := ih hothers hafter hown.2
        (fun step hstep => hfits step (List.mem_cons_of_mem _ hstep)) hrest
      rw [Step.tableAfter_cons]
      exact (Step.reads_name hholds hwrite hown hcount).session hlater

/-- A session of reads that fails has failed in one of its reads, and has the table from before
that read. -/
theorem Read.names_of_session_error {schemes : List Scheme} {state after : ReadState} {e : Error}
    (h : session schemes state = .error e after) :
    ∃ done scheme rest found before, schemes = done ++ scheme :: rest ∧
      session done state = .ok found before ∧ name scheme before = .error e after ∧
      after.names = before.names := by
  induction schemes generalizing state with
  | nil => cases h
  | cons scheme rest ih =>
    obtain hname | ⟨s, between, hname, h⟩ := error_or_of_bind_error h
    · refine ⟨[], scheme, rest, [], state, rfl, rfl, hname, ?_⟩
      rw [name_eq] at hname
      split at hname
      next => cases hname
      next => cases hname; rfl
    · obtain hget | ⟨_, _, hget, h⟩ := error_or_of_bind_error h
      · cases hget
      cases hget
      obtain hothers | ⟨_, _, -, hreturn⟩ := error_or_of_bind_error h
      · obtain ⟨done, failing, others, found, before, rfl, hdone, hfails, hnames⟩ := ih hothers
        refine ⟨scheme :: done, failing, others, (s, between.names) :: found, before, rfl, ?_,
          hfails, hnames⟩
        exact (bind_of_ok hname).trans (bind_of_ok hdone)
      · cases hreturn

end Runs

/-- Every session of names can be written. As long as lengths and numbers have 32 bits, a name is
spelled out if and only if no earlier one had its encoding and its bytes, and every reader of the
first names takes just their bytes, and has the writer's table after each of them. A session of
reads that fails, whatever it was given, has the table from before the read that failed. -/
theorem session_round_trip (uses : List Name.Use) :
    (∃ steps last, Write.session uses .empty = .ok steps last ∧ steps.map Name.Step.use = uses ∧
      ((∀ step ∈ steps, step.Fits) →
        (∀ front step back, steps = front ++ step :: back →
          (step.SpellsOut ↔ ∀ earlier ∈ front, earlier.use.encoded ≠ step.use.encoded)) ∧
        ∀ front, front <+: steps →
          Read.Reads (Read.session (front.map fun step => step.use.scheme)) []
            (front.flatMap Name.Step.written) (Name.Step.found front)
            (Name.Step.tableAfter [] front))) ∧
      ∀ schemes state e after, Read.session schemes state = .error e after →
        ∃ done scheme rest found before, schemes = done ++ scheme :: rest ∧
          Read.session done state = .ok found before ∧ Read.name scheme before = .error e after ∧
          after.names = before.names := by
  refine ⟨?_, fun schemes state e after h => Read.names_of_session_error h⟩
  obtain ⟨steps, last, hwrite, huses⟩ := Write.exists_session uses .empty
  have hholds : WriteTables.empty.names.Holds [] := fun entry => by simp [WriteTables.empty]
  have hcount : WriteTables.empty.names.length < 2 ^ 31 - 1 := by decide
  refine ⟨steps, last, hwrite, huses, fun hfits => ⟨fun front step back hsteps => ?_, ?_⟩⟩
  · exact Write.spellsOut_iff hwrite hholds hcount hfits hsteps
  · exact fun front hfront => Write.reads_session hwrite hholds hcount hfits hfront

namespace Sample

/-- A namespace and a type name of the same bytes, a long namespace, and the namespace again. -/
def shared : List Name.Use :=
  [⟨.space, "v1.b"⟩, ⟨.type, "v1$b"⟩, ⟨.space, "org.apache.fory.benchmark.data"⟩, ⟨.space, "v1.b"⟩]

end Sample

/-- Only the first and the third of the names are spelled out, and all four are found. -/
theorem session_round_trip_shared :
    ∃ a b c d last, Write.session Sample.shared .empty = .ok [a, b, c, d] last ∧
      a.SpellsOut ∧ ¬b.SpellsOut ∧ c.SpellsOut ∧ ¬d.SpellsOut ∧
      ∃ found, Read.Reads (Read.session [.space, .type, .space, .space]) []
          (a.written ++ b.written ++ c.written ++ d.written) found d.table ∧
        found.map Prod.fst = ["v1.b", "v1$b", "org.apache.fory.benchmark.data", "v1.b"] := by
  obtain ⟨steps, last, hwrite, huses, hsession⟩ := (session_round_trip Sample.shared).1
  have hsteps : ∀ steps ∈ (Write.session Sample.shared).run' .empty, ∀ step ∈ steps, step.Fits := by
    decide +kernel
  have hrun : (Write.session Sample.shared).run' .empty = some steps := by
    delta EStateM.run' EStateM.run
    simp only [hwrite]
  have hfits : ∀ step ∈ steps, step.Fits := hsteps steps hrun
  obtain ⟨hspells, hreads⟩ := hsession hfits
  have hsame : (⟨.space, "v1.b"⟩ : Name.Use).encoded = (⟨.type, "v1$b"⟩ : Name.Use).encoded := by
    decide +kernel
  have hlong : ∀ earlier ∈ Sample.shared.take 2,
      earlier.encoded ≠ (⟨.space, "org.apache.fory.benchmark.data"⟩ : Name.Use).encoded := by
    decide +kernel
  match steps, huses with
  | [⟨_, a, _⟩, ⟨_, b, _⟩, ⟨_, c, _⟩, ⟨_, d, _⟩], rfl =>
    have hfound := hreads _ (List.prefix_refl _)
    simp only [List.flatMap_cons, List.flatMap_nil, List.append_nil, ← List.append_assoc] at hfound
    refine ⟨_, _, _, _, last, hwrite, ?_, ?_, ?_, ?_, _, hfound, rfl⟩
    · exact (hspells [] _ _ rfl).mpr (List.forall_mem_nil _)
    · exact fun h => (hspells [_] _ _ rfl).mp h _ List.mem_cons_self hsame
    · exact (hspells [_, _] _ _ rfl).mpr (by simpa [Sample.shared] using hlong)
    · exact fun h => (hspells [_, _, _] _ _ rfl).mp h _ List.mem_cons_self rfl

end SchemaWire
