import SchemaWire.Data.Read
import SchemaWire.Proofs.Name.Table
import SchemaWire.Proofs.Limit.Circle
import SchemaWire.Proofs.Limit.Loops

/-!
# Plain readers with a bound

The jobs of a plain reader are shapes, and its states are the bytes that are left. Nothing else
is told, so whoever comes by a shape twice with the same bytes in front of it reads in a circle.
-/

namespace SchemaWire

namespace Plain

/-- Plain readers of shapes among the given ones, in a message with the given body. -/
def realm (shapes : Shapes) (all : List Shape) (body : List UInt8) : Realm (List UInt8) where
  Job := Shape
  input := id
  Within _ _ := True
  refl _ := trivial
  trans _ _ := trivial
  Inside input := input <:+ body
  Has shape := shape ∈ all
  Stuck shape n input := Unfinished (Take.plainWithin shapes n shape input)

section Bytes

variable {α : Type} {shapes : Shapes} {all : List Shape} {body : List UInt8} {bounds : Nat → Prop}

/-- One reader for all bounds is traced if it leaves an end of its input. -/
theorem traced_of_suffix {r : Take α} (h : ∀ s a t, r s = .ok a t → t <:+ s) :
    (realm shapes all body).Traced bounds (fun _ => r) fun _ => True := by
  refine .const ?_ ?_
  · intro s a t hs hok
    exact ⟨trivial, (h s a t hok).trans hs, trivial⟩
  · intro s a t u _ hok _ hinput _
    have hsame : u = s := hinput
    exact ⟨t, hsame ▸ hok, rfl⟩

/-- Reading one byte is traced. -/
theorem traced_byte : (realm shapes all body).Traced bounds (fun _ => Take.byte) fun _ => True := by
  refine traced_of_suffix fun s a t hok => ?_
  cases s with
  | nil => cases hok
  | cons b rest =>
    cases hok
    exact List.suffix_cons a t

/-- Reading bytes is traced. -/
theorem traced_bytes (n : Nat) :
    (realm shapes all body).Traced bounds (fun _ => Take.bytes n) fun _ => True := by
  refine traced_of_suffix fun s a t hok => ?_
  unfold Take.bytes at hok
  dsimp only at hok
  split at hok
  · cases hok
    exact List.drop_suffix n s
  · cases hok

/-- Looking at the next byte is traced. -/
theorem traced_peek? :
    (realm shapes all body).Traced bounds (fun _ => Take.peek?) fun _ => True := by
  refine traced_of_suffix fun s a t hok => ?_
  cases hok
  exact List.suffix_refl s

/-- Passing over bytes is traced. -/
theorem traced_skip (n : Nat) :
    (realm shapes all body).Traced bounds (fun _ => Take.skip n) fun _ => True :=
  (traced_bytes n).bind fun _ _ => .pure trivial

/-- Reading a number of a fixed width is traced. -/
theorem traced_natural (width : Nat) :
    (realm shapes all body).Traced bounds (fun _ => Take.natural width) fun _ => True :=
  (traced_bytes width).map LittleEndian.decode

/-- Reading a signed number of a fixed width is traced. -/
theorem traced_integer (width : Nat) :
    (realm shapes all body).Traced bounds (fun _ => Take.integer width) fun _ => True :=
  (traced_natural width).map (LittleEndian.signed (8 * width))

/-- Reading an integer of a fixed width is traced. -/
theorem traced_integerBody (t : IntType) :
    (realm shapes all body).Traced bounds (fun _ => Read.integerBody t) fun _ => True := by
  unfold Read.integerBody
  cases t.isSigned with
  | true => exact traced_integer t.bytes
  | false => exact (traced_natural t.bytes).map fun n => (n : Int)

/-- Reading the groups of a number is traced. -/
theorem traced_takeGroups (budget : Varint.Budget) (left shift value : Nat) :
    (realm shapes all body).Traced bounds
      (fun _ => Varint.takeGroups Take.byte budget left shift value) fun _ => True := by
  induction left generalizing shift value with
  | zero => exact .throw _ _
  | succ left ih =>
    refine traced_byte.bind fun byte _ => ?_
    by_cases hlast : budget.fullLast ∧ left = 0
    · simp only [if_pos hlast]
      exact .pure trivial
    · simp only [if_neg hlast]
      by_cases hend : byte.toNat < 128
      · simp only [if_pos hend]
        by_cases hfits : value + byte.toNat % 128 * 2 ^ shift < 2 ^ budget.bits
        · simp only [if_pos hfits]
          exact .pure trivial
        · simp only [if_neg hfits]
          exact .throw _ _
      · simp only [if_neg hend]
        exact ih _ _

/-- Reading a number is traced. -/
theorem traced_varint (budget : Varint.Budget) :
    (realm shapes all body).Traced bounds (fun _ => Varint.take budget) fun _ => True :=
  traced_takeGroups budget _ 0 0

/-- Reading a signed number is traced. -/
theorem traced_signed (budget : Varint.Budget) :
    (realm shapes all body).Traced bounds
      (fun _ => do return Varint.unzigzag (← Varint.take budget)) fun _ => True :=
  (traced_varint budget).map Varint.unzigzag

/-- Reading a number in one of two widths is traced. -/
theorem traced_shortOrLong :
    (realm shapes all body).Traced bounds (fun _ => Read.shortOrLong) fun _ => True := by
  have hlong : (realm shapes all body).Traced bounds
      (fun _ => do
        Take.skip 1
        Take.integer 8) fun _ => True :=
    (traced_skip 1).bind fun _ _ => traced_integer 8
  refine traced_peek?.bind fun first _ => ?_
  cases first with
  | none => exact hlong
  | some first =>
    by_cases heven : first % 2 = 0
    · simp only [if_pos heven]
      exact (traced_integer 4).map (· / 2)
    · simp only [if_neg heven]
      exact hlong

/-- Reading one character is traced. -/
theorem traced_character :
    (realm shapes all body).Traced bounds (fun _ => Take.character) fun _ => True := by
  refine (traced_natural 4).bind fun code _ => ?_
  by_cases hvalid : code.isValidChar
  · rw [dif_pos hvalid]
    exact .pure trivial
  · rw [dif_neg hvalid]
    exact .throw _ _

/-- Reading bytes behind their number is traced. -/
theorem traced_counted :
    (realm shapes all body).Traced bounds (fun _ => Take.counted) fun _ => True :=
  (traced_varint Varint.word32).bind fun n _ => traced_bytes n

/-- Reading a text behind the number of its bytes is traced. -/
theorem traced_text :
    (realm shapes all body).Traced bounds (fun _ => Take.text) fun _ => True :=
  traced_counted.bind fun _ _ => .ofExcept fun _ _ => trivial

/-- Reading a text in the encoding that its header names is traced. -/
theorem traced_textBody :
    (realm shapes all body).Traced bounds (fun _ => Read.textBody) fun _ => True := by
  refine (traced_varint Varint.word36).bind fun header _ => ?_
  refine (traced_bytes (header / 4)).bind fun content _ => ?_
  split
  · exact .pure trivial
  · exact .ofExcept fun _ _ => trivial
  · exact .ofExcept fun _ _ => trivial
  · exact .throw _ _

/-- Reading a name that is spelled out is traced. -/
theorem traced_takeEntry (size : Nat) :
    (realm shapes all body).Traced bounds (fun _ => Name.Table.takeEntry size) fun _ => True := by
  have hcontent (make : List UInt8 → Name.Entry) : (realm shapes all body).Traced bounds
      (fun _ => do return make (← Take.bytes size)) fun _ => True :=
    (traced_bytes size).map make
  unfold Name.Table.takeEntry
  by_cases hlong : Name.Table.smallName < size
  · simp only [if_pos hlong]
    refine (traced_natural 8).bind fun hash _ => ?_
    exact (Realm.Traced.ofExcept fun _ _ => trivial).bind fun encoding _ => hcontent _
  · simp only [if_neg hlong]
    refine traced_byte.bind fun flag _ => ?_
    exact (Realm.Traced.ofExcept fun _ _ => trivial).bind fun encoding _ => hcontent _

/-- Reading a name is traced. -/
theorem traced_name (table : Name.Table) (scheme : Name.Scheme) :
    (realm shapes all body).Traced bounds (fun _ => Name.Table.takeBy table scheme) fun _ => True := by
  refine (traced_varint Varint.word32).bind fun header _ => ?_
  by_cases hodd : header % 2 = 1
  · simp only [if_pos hodd]
    by_cases hzero : header / 2 = 0
    · simp only [if_pos hzero]
      exact .throw _ _
    · simp only [if_neg hzero]
      cases table[header / 2 - 1]? with
      | none => exact .throw _ _
      | some entry =>
        exact (Realm.Traced.ofExcept fun _ _ => trivial).map fun name => (name, table)
  · simp only [if_neg hodd]
    refine (traced_takeEntry (header / 2)).bind fun entry _ => ?_
    exact (Realm.Traced.ofExcept fun _ _ => trivial).map fun name => (name, table ++ [entry])

end Bytes

section Shapes

variable {shapes : Shapes} {all : List Shape} {body : List UInt8}

section Step

variable {bounds : Nat → Prop} (ih : ∀ shape ∈ all, (realm shapes all body).Traced bounds
  (fun n => Take.plainWithin shapes n shape) fun _ => True)
include ih

/-- Reading the parts of a shape is traced. -/
theorem traced_parts {own : Shape} (hparts : ∀ part ∈ own.parts, part ∈ all) :
    (realm shapes all body).TracedElements bounds
      (fun n _ shape => Take.plainWithin shapes n shape) own.parts :=
  fun part hpart _ => ih part (hparts part hpart)

/-- Reading a variant is traced. -/
theorem traced_variant {name : String} {variants : List (Variant Shape)}
    (hparts : ∀ part ∈ (Shape.enum name variants).parts, part ∈ all) :
    (realm shapes all body).Traced bounds
      (fun n => Take.variant (fun _ shape => Take.plainWithin shapes n shape) name variants)
      fun _ => True := by
  refine (traced_varint Varint.word32).bind fun index _ => ?_
  cases hvariant : variants[index]? with
  | none => exact .throw _ _
  | some found =>
    obtain ⟨variant, payload⟩ := found
    have hmem := List.mem_of_getElem? hvariant
    have hpayload (part : Shape) (hpart : part ∈ payload.parts) : part ∈ all :=
      hparts part (List.mem_flatMap.mpr ⟨⟨variant, payload⟩, hmem, hpart⟩)
    cases payload with
    | unit => exact .pure trivial
    | newtype content =>
      exact (ih content (hpayload content List.mem_cons_self)).map
        (Datum.newtypeVariant name index variant)
    | tuple items =>
      have hitems : (realm shapes all body).TracedElements bounds
          (fun n _ shape => Take.plainWithin shapes n shape) items :=
        fun part hpart _ => ih part (hpayload part hpart)
      exact (hitems.positional items.length 0).map (Datum.tupleVariant name index variant)
    | struct members =>
      have hmembers : (realm shapes all body).TracedElements bounds
          (fun n _ shape => Take.plainWithin shapes n shape) (members.map Member.content) :=
        fun part hpart _ => ih part (hpayload part hpart)
      exact (hmembers.members members.length 0).map (Datum.structVariant name index variant)

/-- Reading a value that may be missing is traced. -/
theorem traced_option {content : Shape} (hcontent : content ∈ all) :
    (realm shapes all body).Traced bounds
      (fun n => Take.optional (Take.plainWithin shapes n content)) fun _ => True := by
  refine traced_byte.bind fun tag _ => ?_
  by_cases hnone : tag = Take.noneTag
  · simp only [if_pos hnone]
    exact .pure trivial
  · simp only [if_neg hnone]
    by_cases hsome : tag = Take.someTag
    · simp only [if_pos hsome]
      exact (ih content hcontent).map Datum.some
    · simp only [if_neg hsome]
      exact .throw _ _

/-- The first call of a plain reader is traced where the calls below it are. -/
theorem traced_step (hall : shapes.Stable all) {shape : Shape} (hshape : shape ∈ all) :
    (realm shapes all body).Traced bounds
      (fun n => Take.plainWithin shapes (n + 1) shape) fun _ => True := by
  have hown := hall.resolve shape hshape
  have hparts := hall.parts _ hown
  unfold Take.plainWithin
  generalize shapes.resolve shape = own at hown hparts
  have hread := traced_parts ih hparts
  dsimp only
  cases own with
  | bool => exact traced_byte.map fun byte => Datum.bool (byte != 0)
  | int t =>
    cases hsigned : t.isSigned with
    | true =>
      simp only [hsigned, if_true]
      exact (traced_integer t.bytes).map (Datum.int t)
    | false =>
      simp only [hsigned, Bool.false_eq_true, if_false]
      exact (traced_natural t.bytes).map fun n => Datum.int t n
  | float32 => exact (traced_natural 4).map fun n => Datum.float32 (UInt32.ofNat n)
  | float64 => exact (traced_natural 8).map fun n => Datum.float64 (UInt64.ofNat n)
  | char => exact traced_character.map Datum.char
  | string | str => exact traced_text.map Datum.text
  | bytes | byteSlice => exact traced_counted.map Datum.bytes
  | unit | unitStruct name => exact .pure trivial
  | option content => exact traced_option ih (hparts content List.mem_cons_self)
  | newtype name content =>
    exact (ih content (hparts content List.mem_cons_self)).map Datum.newtype
  | list name element | set name element =>
    exact (traced_varint Varint.word32).bind fun count _ =>
      (hread.visit count).map Prod.fst
  | tuple items | tupleStruct name items => exact (hread.visit items.length).map Prod.fst
  | map name key value | firstEntry name key value =>
    exact (traced_varint Varint.word32).bind fun count _ =>
      (Realm.traced_visit hread hread count).map Prod.fst
  | struct name members => exact (hread.visit members.length).map Prod.fst
  | enum name variants => exact traced_variant ih hparts
  | _ => exact .throw _ _

end Step

/-- A plain reader does the job of its shape. -/
theorem runs {shape : Shape} (hshape : shape ∈ all) :
    (realm shapes all body).Runs shape fun n => Take.plainWithin shapes n shape where
  has := hshape
  stuck _ _ := Iff.rfl
  zero s := ⟨s, rfl⟩

/-- Plain readers are traced. -/
theorem traced_plainWithin (hall : shapes.Stable all) {shape : Shape} (hshape : shape ∈ all) :
    (realm shapes all body).Traced (fun _ => True) (fun n => Take.plainWithin shapes n shape)
      fun _ => True := by
  refine (runs hshape).traced fun limit => ?_
  induction limit generalizing shape with
  | zero => exact Realm.traced_lt_zero _ _
  | succ limit ih => exact (runs hshape).traced_succ (traced_step (fun _ h => ih h) hall hshape)

end Shapes

end Plain

end SchemaWire
