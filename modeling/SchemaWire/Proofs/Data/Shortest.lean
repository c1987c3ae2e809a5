import SchemaWire.Proofs.Data.Plain
import SchemaWire.Proofs.Varint.Received

/-!
# Plain values are written in the fewest bytes

Lengths, numbers of elements and indices of variants can be spelled out longer than needed, so a
plain value is read from other bytes as well than those that it is written in, by its own shape and
by others. Never is it read from fewer of them.
-/

namespace SchemaWire

namespace Write

/-- Where the writer succeeds, it writes at most the given number of bytes. -/
def AtMost (writer : Write (List UInt8)) (bound : Nat) : Prop :=
  ∀ before bytes after, writer before = .ok bytes after → bytes.length ≤ bound

namespace AtMost

variable {writer next : Write (List UInt8)} {m n : Nat}

/-- Bytes that are known are as many as they are. -/
theorem pure {bytes : List UInt8} (h : bytes.length ≤ n) : AtMost (Pure.pure bytes) n := by
  rintro before _ _ ⟨⟩
  exact h

/-- A writer that fails writes nothing. -/
theorem throw (e : Error) : AtMost (MonadExcept.throw e) n := nofun

/-- A sequence writes the bytes of its parts. -/
theorem append (h : AtMost writer m) (hnext : AtMost next n) :
    AtMost (do return (← writer) ++ (← next)) (m + n) := by
  intro before bytes after hok
  obtain ⟨front, between, hfront, hrest⟩ := exists_of_bind_ok hok
  obtain ⟨back, last, hback, hlast⟩ := exists_of_bind_ok hrest
  cases hlast
  rw [List.length_append]
  exact Nat.add_le_add (h _ _ _ hfront) (hnext _ _ _ hback)

/-- Bytes that are known stand in front. -/
theorem prepend {bytes : List UInt8} (h : bytes.length ≤ m) (hnext : AtMost next n) :
    AtMost (do return bytes ++ (← next)) (m + n) := by
  simpa only [pure_bind] using append (pure h) hnext

/-- Bytes that are known stand behind. -/
theorem extend {bytes : List UInt8} (h : AtMost writer m) (hbytes : bytes.length ≤ n) :
    AtMost (do return (← writer) ++ bytes) (m + n) := by
  simpa only [pure_bind] using h.append (pure hbytes)

/-- More bytes may be allowed. -/
theorem mono (h : AtMost writer m) (hle : m ≤ n) : AtMost writer n :=
  fun before bytes after hok => (h before bytes after hok).trans hle

/-- A length is written in its shortest spelling. -/
theorem length {count : Nat} (h : (Varint.encode32 count).length ≤ n) :
    AtMost (Write.length count) n := by
  unfold Write.length
  split
  · exact pure h
  · exact throw _

end AtMost

end Write

open Write (AtMost)

namespace Take

/-- Whatever the reader reads, it reads from at least as many bytes as it is written in plainly. -/
def Lengthens (env : WriteEnv) (depth : Nat) (reader : Take Datum) : Prop :=
  Yields reader fun v used => AtMost (Write.datum env depth .plain v) used

variable {env : WriteEnv} {depth : Nat}

section Loops

variable {read : Elements (List UInt8)} (h : ∀ index shape, Lengthens env depth (read index shape))
include h

/-- Elements of one shape are read from at least as many bytes as they are written in. -/
theorem yields_collect (shape : Shape) (count index : Nat) :
    Yields (read.collect shape count index) fun items used =>
      items.length = count ∧ AtMost (Write.items env depth .plain items) used := by
  induction count generalizing index with
  | zero =>
    refine .pure ⟨rfl, ?_⟩
    rw [Write.items]
    exact .pure (Nat.zero_le 0)
  | succ count ih =>
    refine (h index shape).bind fun first m hfirst => (ih (index + 1)).map ?_
    rintro others n ⟨hlength, hothers⟩
    refine ⟨congrArg (· + 1) hlength, ?_⟩
    rw [Write.items]
    exact hfirst.append hothers

/-- Elements of their own shapes are read from at least as many bytes as they are written in. -/
theorem yields_positional (count : Nat) (shapes : List Shape) (index : Nat) :
    Yields (read.positional count shapes index) fun items used =>
      AtMost (Write.items env depth .plain items) used := by
  induction shapes generalizing index with
  | nil =>
    refine .pure ?_
    rw [Write.items]
    exact .pure (Nat.zero_le 0)
  | cons shape rest ih =>
    rw [Elements.positional]
    split
    · exact .throw _
    · refine (h index shape).bind fun first m hfirst => (ih (index + 1)).map ?_
      intro others n hothers
      rw [Write.items]
      exact hfirst.append hothers

/-- Parts of a struct are read from at least as many bytes as they are written in. -/
theorem yields_members (count : Nat) (parts : List (Member Shape)) (index : Nat) (gaps : Bool) :
    Yields (read.members count parts index) fun fields used =>
      AtMost (Write.members env depth gaps fields) used := by
  induction parts generalizing index with
  | nil =>
    refine .pure ?_
    rw [Write.members]
    exact .pure (Nat.zero_le 0)
  | cons part rest ih =>
    have hrest (first : Datum) (m : Nat)
        (hfirst : first = .absent ∨ AtMost (Write.datum env depth .plain first) m) :
        Yields (do return (part.name, first) :: (← read.members count rest (index + 1)))
          fun fields used => AtMost (Write.members env depth gaps fields) (m + used) := by
      refine (ih (index + 1)).map fun others n hothers => ?_
      by_cases habsent : first = .absent
      · subst habsent
        rw [Write.members]
        split
        · exact hothers.mono (Nat.le_add_left n m)
        · exact .throw _
      · rw [Write.members_cons habsent]
        exact (hfirst.resolve_left habsent).append hothers
    rw [Elements.members]
    split
    · exact (h index part.content).bind fun first m hfirst => hrest first m (.inr hfirst)
    split
    · rw [pure_bind]
      simpa only [Nat.zero_add] using hrest .absent 0 (.inl rfl)
    · exact .throw _

end Loops

/-- Entries are read from at least as many bytes as they are written in. -/
theorem yields_entries {read : Entries (List UInt8)}
    (hkey : ∀ index shape, Lengthens env depth (read.key index shape))
    (hvalue : ∀ index shape, Lengthens env depth (read.value index shape)) (key value : Shape)
    (count index : Nat) :
    Yields (read.collect key value count index) fun entries used =>
      entries.length = count ∧ AtMost (Write.entries env depth .plain .plain entries) used := by
  induction count generalizing index with
  | zero =>
    refine .pure ⟨rfl, ?_⟩
    rw [Write.entries]
    exact .pure (Nat.zero_le 0)
  | succ count ih =>
    refine (hkey index key).bind fun k l hk => (hvalue index value).bind fun v m hv =>
      (ih (index + 1)).map ?_
    rintro others n ⟨hlength, hothers⟩
    refine ⟨congrArg (· + 1) hlength, ?_⟩
    rw [Write.entries]
    simpa only [bind_assoc, pure_bind, List.append_assoc] using hk.append (hv.append hothers)

/-- Bytes behind their number are read from at least as many bytes as they are written in. -/
theorem yields_counted :
    Yields counted fun content used => AtMost (Write.counted content) used := by
  refine Varint.yields_take32.bind fun count m hcount => ?_
  intro input content rest h
  obtain ⟨used, hused, rfl, hcontent⟩ := yields_bytes count input content rest h
  exact ⟨used, hused, (AtMost.length hcount.2).extend (Nat.le_of_eq hcontent.symm)⟩

/-- A text is read from at least as many bytes as it is written in. -/
theorem yields_text :
    Yields text fun s used => AtMost (Write.counted (Text.utf8 s)) used := by
  refine yields_counted.bind fun content m hcontent => .ofExcept fun s hs => ?_
  rw [Text.utf8_of_ofUtf8 hs]
  exact hcontent

/-- A number of a fixed width is read from as many bytes. -/
theorem yields_natural (width : Nat) : Yields (natural width) fun _ used => used = width :=
  (yields_bytes width).map fun _ _ h => h.2

/-- So is a signed number. -/
theorem yields_integer (width : Nat) : Yields (integer width) fun _ used => used = width :=
  (yields_natural width).map fun _ _ h => h

/-- A character is read from four bytes. -/
theorem yields_character : Yields character fun _ used => used = 4 := by
  refine (yields_natural 4).bind fun code m hm => ?_
  by_cases hvalid : code.isValidChar
  · rw [dif_pos hvalid]
    exact .pure hm
  · rw [dif_neg hvalid]
    exact .throw _

/-- What is read from a fixed number of bytes and written in as many is not written in more. -/
theorem Lengthens.of_width {α : Type} {reader : Take α} {make : α → Datum} {width : Nat}
    (h : Yields reader fun _ used => used = width) (content : α → List UInt8)
    (hlength : ∀ a, (content a).length = width)
    (hwrite : ∀ a, Write.datum env depth .plain (make a) = pure (content a)) :
    Lengthens env depth (do return make (← reader)) := by
  refine h.map ?_
  rintro a _ rfl
  rw [hwrite]
  exact .pure (Nat.le_of_eq (hlength a))

/-- A value that may be missing is read from its tag and its content. -/
theorem Lengthens.optional {content : Take Datum} (h : Lengthens env depth content) :
    Lengthens env depth (Take.optional content) := by
  have htag : [someTag].length ≤ 1 := Nat.le_refl 1
  refine yields_byte.bind ?_
  rintro tag _ rfl
  split
  · refine .pure ?_
    rw [Write.datum]
    exact .pure (Nat.le_refl 1)
  split
  · refine Yields.map h fun v n hv => ?_
    rw [Write.datum]
    exact .prepend htag hv
  · exact .throw _

/-- A variant of an enum is read from its index and what it carries. -/
theorem Lengthens.variant {read : Elements (List UInt8)}
    (h : ∀ index shape, Lengthens env depth (read index shape)) (name : String)
    (variants : List (Variant Shape)) : Lengthens env depth (Take.variant read name variants) := by
  refine Varint.yields_take32.bind fun index m hindex => ?_
  split
  · exact .throw _
  · refine .pure ?_
    rw [Write.datum, Write.behind_plain]
    exact .pure hindex.2
  · refine Yields.map (h 0 _) fun v n hv => ?_
    rw [Write.datum, Write.variant, Write.behind_plain]
    exact .prepend hindex.2 hv
  · refine (yields_positional h _ _ 0).map fun items n hitems => ?_
    rw [Write.datum, Write.variant, Write.behind_plain]
    exact .prepend hindex.2 hitems
  · refine (yields_members h _ _ 0 true).map fun fields n hfields => ?_
    rw [Write.datum, Write.variant, Write.behind_plain]
    exact .prepend hindex.2 hfields

/-- A plain value is read from at least as many bytes as it is written in. -/
theorem lengthens_plainWithin (shapes : Shapes) (fuel : Nat) (shape : Shape) :
    Lengthens env depth (plainWithin shapes fuel shape) := by
  induction fuel generalizing shape with
  | zero => exact .throw _
  | succ fuel ih =>
    have hinside (index : Nat) (shape : Shape) :
        Lengthens env depth (plainWithin shapes fuel shape) := ih shape
    have hscalar (kind : Kind) (content : List UInt8) (typed : Write (List UInt8)) :
        Write.scalar env .plain kind (pure content) typed = pure content := by
      rw [Write.scalar, Write.behind_plain]
    unfold plainWithin
    generalize shapes.resolve shape = own
    cases own with
    | bool =>
      refine .of_width yields_byte (fun byte => [UInt8.ofNat (byte != 0).toNat]) (fun _ => rfl) ?_
      intro byte
      rw [Write.datum, hscalar]
    | int t =>
      have hlength (v : Int) : (LittleEndian.encodeSigned t.bytes v).length = t.bytes :=
        LittleEndian.length_encode _ _
      have hwrite (v : Int) : Write.datum env depth .plain (.int t v) =
          pure (LittleEndian.encodeSigned t.bytes v) := by
        rw [Write.datum, hscalar]
      dsimp only
      split
      · exact .of_width (yields_integer t.bytes) _ hlength hwrite
      · exact .of_width (yields_natural t.bytes) (fun n => LittleEndian.encodeSigned t.bytes n)
          (fun n => hlength n) fun n => hwrite n
    | float32 =>
      refine .of_width (yields_natural 4) (fun n => LittleEndian.encode 4 (UInt32.ofNat n).toNat)
        (fun _ => LittleEndian.length_encode 4 _) fun n => ?_
      rw [Write.datum, hscalar]
    | float64 =>
      refine .of_width (yields_natural 8) (fun n => LittleEndian.encode 8 (UInt64.ofNat n).toNat)
        (fun _ => LittleEndian.length_encode 8 _) fun n => ?_
      rw [Write.datum, hscalar]
    | char =>
      refine .of_width yields_character (fun c => LittleEndian.encode 4 c.toNat)
        (fun _ => LittleEndian.length_encode 4 _) fun c => ?_
      rw [Write.datum]
    | string | str =>
      refine yields_text.map fun s n hs => ?_
      rw [Write.datum, Write.text, Write.scalar, Write.behind_plain]
      exact hs
    | bytes | byteSlice =>
      refine yields_counted.map fun content n hcontent => ?_
      rw [Write.datum, Write.scalar, Write.behind_plain]
      exact hcontent
    | any | identifier | choice | ignored | refused | user => exact .throw _
    | unit | unitStruct =>
      refine .pure ?_
      rw [Write.datum, Write.behind_plain]
      exact .pure (Nat.le_refl 0)
    | option content => exact .optional (ih content)
    | newtype name content =>
      refine Yields.map (ih content) fun v n hv => ?_
      rw [Write.datum]
      exact hv
    | list name element | set name element =>
      refine Varint.yields_take32.bind fun count m hcount => ?_
      simp only [Elements.visit, bind_assoc, pure_bind]
      refine (yields_collect hinside element count 0).map ?_
      rintro items n ⟨rfl, hitems⟩
      rw [Write.datum, Write.behind_plain]
      exact (AtMost.length hcount.2).append hitems
    | map name key value =>
      refine Varint.yields_take32.bind fun count m hcount => ?_
      simp only [Entries.visit, bind_assoc, pure_bind]
      refine (yields_entries hinside hinside key value count 0).map ?_
      rintro entries n ⟨rfl, hentries⟩
      rw [Write.datum, Write.behind_plain]
      exact (AtMost.length hcount.2).append hentries
    | firstEntry name key value =>
      -- What stopped after an entry is not written.
      refine Varint.yields_take32.bind fun count m _ => ?_
      simp only [Entries.visit, bind_assoc, pure_bind]
      refine (yields_entries hinside hinside key value _ 0).map fun entries n _ => ?_
      rw [Write.datum]
      exact .throw _
    | tuple parts | tupleStruct name parts =>
      simp only [Elements.visit, bind_assoc, pure_bind]
      refine (yields_positional hinside _ parts 0).map fun items n hitems => ?_
      rw [Write.datum, Write.behind_plain]
      exact hitems
    | struct name parts =>
      simp only [Elements.visit, bind_assoc, pure_bind]
      refine (yields_members hinside _ parts 0 false).map fun fields n hfields => ?_
      rw [Write.datum, Write.behind_plain]
      exact hfields
    | enum name variants => exact .variant hinside name variants

end Take

end SchemaWire
