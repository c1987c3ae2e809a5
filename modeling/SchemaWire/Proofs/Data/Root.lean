import SchemaWire.Proofs.Data.Ext
import SchemaWire.Proofs.Data.Shortest
import SchemaWire.Proofs.Data.Wrapped
import SchemaWire.Proofs.Message.Entrance

/-!
# Where a layout of its own begins

The writer turns to the layout of a value when it opens the place of the value. Wrappers, values that
may be missing and characters come before that: a missing value is written as a flag, one that is
there as its content alone, and a character as a text. The reader decides by the type that the
annotations name, after it has looked whether the shape says that the value may be missing, but before
it looks into wrappers. What passes a value over starts with the shape itself. So these three part
ways where the shape, within any number of wrappers, is one of values that may be missing or one of
characters.
-/

namespace SchemaWire

/-- The value within all wrappers around it. -/
def Datum.unwrapped : Datum → Datum
  | .newtype content => content.unwrapped
  | v => v

namespace Write

/-- Wrappers are written as what they hold. -/
theorem datum_unwrapped (env : WriteEnv) (depth : Nat) (place : Place) (v : Datum) :
    datum env depth place v.unwrapped = datum env depth place v := by
  fun_induction Datum.unwrapped v with
  | case1 content ih =>
    rw [ih, datum]
  | case2 => rfl

end Write

namespace Shape

variable {shapes : Shapes} {shape root : Shape} {v : Datum}

/-- What is held by a shape that is no wrapper has no wrappers around it. -/
theorem Holds.unwrapped_eq (h : shape.Holds shapes v)
    (hshape : ∀ name content, shapes.resolve shape ≠ .newtype name content) : v.unwrapped = v := by
  cases v with
  | newtype w =>
    have hresolved := h.resolved
    have huser := shapes.resolve_ne_user shape
    generalize shapes.resolve shape = own at hresolved huser hshape
    cases hresolved with
    | newtype hcontent => exact absurd rfl (hshape _ _)
    | user _ => exact absurd rfl (huser _)
  | _ => rfl

/-- What is held by a shape is held within its wrappers by the shape that these hold. -/
theorem Opens.holds_unwrapped (h : shape.Opens shapes root) (hholds : shape.Holds shapes v)
    (hroot : ∀ name content, root ≠ .newtype name content) : root.Holds shapes v.unwrapped := by
  induction h generalizing v with
  | here shape =>
    rw [hholds.unwrapped_eq hroot]
    exact hholds.resolved
  | inside hshape h ih =>
    have hresolved := hholds.resolved
    rw [hshape] at hresolved
    cases hresolved with
    | newtype hcontent =>
      rw [Datum.unwrapped]
      exact ih hcontent hroot

/-- What is read plainly by a shape is read within its wrappers by the shape that these hold. -/
theorem Opens.exists_plainWithin (h : shape.Opens shapes root) (hholds : shape.Holds shapes v)
    (hroot : ∀ name content, root ≠ .newtype name content) {fuel : Nat} {input rest : List UInt8}
    (hread : Take.plainWithin shapes fuel shape input = .ok v rest) :
    ∃ bound, Take.plainWithin shapes bound root input = .ok v.unwrapped rest := by
  induction h generalizing v fuel with
  | here shape =>
    refine ⟨fuel, ?_⟩
    rw [hholds.unwrapped_eq hroot, Read.plainWithin_resolve]
    exact hread
  | inside hshape h ih =>
    have hresolved := hholds.resolved
    rw [hshape] at hresolved
    rw [← Read.plainWithin_resolve, hshape] at hread
    cases hresolved with
    | newtype hcontent =>
      cases fuel with
      | zero => cases hread
      | succ fuel =>
        obtain ⟨w, between, hinner, hlast⟩ := exists_of_bind_ok hread
        cases hlast
        rw [Datum.unwrapped]
        exact ih hcontent hroot hinner

/-- A shape stands for what it opens to or for a wrapper. -/
theorem Opens.resolve_cases (h : shape.Opens shapes root) :
    shapes.resolve shape = root ∨ ∃ name content, shapes.resolve shape = .newtype name content := by
  cases h with
  | here => exact .inl rfl
  | inside hshape => exact .inr ⟨_, _, hshape⟩

end Shape

namespace Text

/-- The bytes of a character on its own. -/
theorem utf8_toString (c : Char) : utf8 c.toString = String.utf8EncodeChar c := by
  rw [utf8, String.toUTF8, Char.toString, String.toByteArray_singleton, List.utf8Encode_singleton,
    List.toList_data_toByteArray]

/-- A character is one small byte, or it has a large byte in the second place. -/
theorem utf8_char_cases (c : Char) :
    (∃ b : UInt8, utf8 c.toString = [b] ∧ b.toNat = c.toNat) ∨
      ∃ (first second : UInt8) (rest : List UInt8), utf8 c.toString = first :: second :: rest ∧
        128 ≤ second.toNat ∧ rest.length ≤ 2 := by
  have hlarge (n : Nat) : 128 ≤ (UInt8.ofNat (n % 64 + 128)).toNat := by
    rw [UInt8.toNat_ofNat']
    omega
  rw [utf8_toString, String.utf8EncodeChar]
  split
  next h =>
    have hsmall : (UInt8.ofNat c.val.toNat).toNat = c.val.toNat := by
      rw [UInt8.toNat_ofNat']
      omega
    exact .inl ⟨_, rfl, hsmall⟩
  next =>
    refine .inr ?_
    split
    · exact ⟨_, _, [], rfl, hlarge _, Nat.zero_le 2⟩
    · split
      · exact ⟨_, _, [_], rfl, hlarge _, by simp⟩
      · exact ⟨_, _, [_, _], rfl, hlarge _, by simp⟩

end Text

/-- What is read as a character has its bytes as its number. -/
theorem Take.exists_of_character_ok {input rest : List UInt8} {c : Char}
    (h : character input = .ok c rest) :
    4 ≤ input.length ∧ c.toNat = LittleEndian.decode (input.take 4) := by
  obtain ⟨code, between, hcode, hchar⟩ := exists_of_bind_ok h
  obtain ⟨bytes, last, hbytes, hdecode⟩ := exists_of_bind_ok hcode
  cases hdecode
  have hlength : (input.take 4).length = 4 := by
    by_contra hne
    rw [Take.bytes, if_neg hne] at hbytes
    cases hbytes
  rw [Take.bytes, if_pos hlength] at hbytes
  cases hbytes
  by_cases hvalid : (LittleEndian.decode (input.take 4)).isValidChar
  · rw [dif_pos hvalid] at hchar
    cases hchar
    refine ⟨by rw [List.length_take] at hlength; omega, ?_⟩
    rfl
  · rw [dif_neg hvalid] at hchar
    cases hchar

/-- A short text is written behind one byte. -/
theorem Write.counted_of_length_lt {content : List UInt8} (h : content.length < 128)
    (tables : WriteTables) :
    counted content tables = .ok (UInt8.ofNat content.length :: content) tables := by
  have hbytes : Varint.encode32 content.length = [UInt8.ofNat content.length] := if_pos h
  have hlength : length content.length tables = .ok [UInt8.ofNat content.length] tables := by
    rw [length, if_pos (by omega), hbytes]
    rfl
  exact bind_of_ok hlength

section Written

variable {env : WriteEnv} {slot : Slot} {spec : TypeSpec} {registration : Registration}
  {depth : Nat} {before after : WriteTables} {bytes : List UInt8}

/-- A character in the place of a value with a layout of its own is written as a text. Whoever
reads a character there never gets it back, whatever follows. -/
theorem Slot.exists_puts_char {c : Char} (hresolve : env.registry.resolve slot.type = .ok spec)
    (hrole : spec.role = .ext registration)
    (h : Write.datum env depth slot.place (.char c) before = .ok bytes after) :
    ∃ payload, slot.Puts env spec before after bytes payload ∧
      ∀ rest left, Take.character (payload ++ rest) ≠ .ok c left := by
  have htext : Write.datum env depth slot.place (.char c) =
      Write.datum env depth slot.place (.text c.toString) := by
    rw [Slot.place, Write.datum, Write.datum]
    exact nofun
  have hroot : ∀ root, Shape.string.Opens [] root → root.isOption = false ∧ root ≠ .char := by
    intro root hopens
    cases hopens with
    | here => exact ⟨rfl, nofun⟩
    | inside hshape => cases hshape
  rw [htext] at h
  obtain ⟨payload, hputs, hpayload⟩ := exists_puts hresolve hrole (.string c.toString) hroot h
  refine ⟨payload, hputs, fun rest left hread => ?_⟩
  obtain ⟨-, hcode⟩ := Take.exists_of_character_ok hread
  have hbound : c.toNat < 0x110000 := by
    rcases c.valid with hlow | ⟨-, hhigh⟩
    · exact Nat.lt_trans hlow (by decide)
    · exact hhigh
  rw [Write.datum, Write.text, Write.scalar, Write.behind_plain] at hpayload
  dsimp only at hpayload
  rcases Text.utf8_char_cases c with ⟨b, hcontent, hb⟩ | ⟨first, second, more, hcontent, hlarge, hmore⟩
  · rw [hcontent, Write.counted_of_length_lt (by simp)] at hpayload
    cases hpayload
    have hone : (UInt8.ofNat [b].length).toNat = 1 := rfl
    simp only [List.cons_append, List.take_succ_cons, LittleEndian.decode, hone] at hcode
    omega
  · rw [hcontent, Write.counted_of_length_lt (by simp only [List.length_cons]; omega)] at hpayload
    cases hpayload
    simp only [List.cons_append, List.take_succ_cons, LittleEndian.decode] at hcode
    omega

/-- A missing value in any place is written as its flag, where there is one, and needs a type that
says that it may be missing. -/
theorem Slot.of_none_ok (h : Write.datum env depth slot.place .none before = .ok bytes after) :
    slot.type.nullable = true ∧ after = before ∧
      bytes = if slot.annotated then [RefFlag.null.toByte] else [] := by
  rw [place, Write.datum] at h
  cases hnullable : slot.type.nullable with
  | false =>
    rw [hnullable] at h
    cases h
  | true =>
    rw [hnullable] at h
    cases h
    exact ⟨rfl, rfl, rfl⟩

/-- A value that may be missing and is there is written as its content. -/
theorem Slot.datum_some (env : WriteEnv) (depth : Nat) (slot : Slot) (v : Datum) :
    Write.datum env depth slot.place (.some v) = Write.datum env depth slot.place v := by
  rw [place, Write.datum]
  exact nofun

end Written

namespace Take

variable {shapes : Shapes} {shape content : Shape} {v w : Datum} {fuel : Nat}
  {input rest : List UInt8}

/-- What is read plainly as a character is read as a character. -/
theorem character_of_char_ok {c : Char}
    (h : plainWithin shapes fuel .char input = .ok (.char c) rest) :
    character input = .ok c rest := by
  cases fuel with
  | zero => cases h
  | succ fuel =>
    obtain ⟨found, between, hfound, hlast⟩ := exists_of_bind_ok h
    cases hlast
    exact hfound

/-- What is read plainly as a value that is there follows its tag. -/
theorem exists_of_some_ok (h : plainWithin shapes fuel (.option content) input = .ok (.some w) rest) :
    ∃ bound between, input = someTag :: between ∧
      plainWithin shapes bound content between = .ok w rest := by
  cases fuel with
  | zero => cases h
  | succ fuel =>
    obtain ⟨tag, between, htag, hbehind⟩ := exists_of_bind_ok h
    cases input with
    | nil => cases htag
    | cons first input =>
      cases htag
      by_cases hnone : tag = noneTag
      · rw [if_pos hnone] at hbehind
        cases hbehind
      rw [if_neg hnone] at hbehind
      by_cases hsome : tag = someTag
      · rw [if_pos hsome] at hbehind
        obtain ⟨v, last, hread, hlast⟩ := exists_of_bind_ok hbehind
        cases hlast
        exact ⟨fuel, between, by rw [hsome], hread⟩
      · rw [if_neg hsome] at hbehind
        cases hbehind

/-- A value that is there is not read from the bytes of its content alone. -/
theorem some_ne_of_untagged {env : WriteEnv} {depth : Nat} {before after : WriteTables}
    {payload : List UInt8} (hwrite : Write.datum env depth .plain w before = .ok payload after) :
    plainWithin shapes fuel (.option content) (payload ++ rest) ≠ .ok (.some w) rest := by
  intro h
  obtain ⟨bound, between, hinput, hread⟩ := exists_of_some_ok h
  obtain ⟨used, hused, hmost⟩ := lengthens_plainWithin shapes bound content between w rest hread
  have hlength := congrArg List.length hinput
  have hle := hmost before payload after hwrite
  rw [List.length_append, List.length_cons] at hlength
  omega

end Take

namespace Read

variable {env : ReadEnv} {scope : Scope} {type : WireType} {kind : Kind} {host : Option HostType}
  {shape : Shape} {v : Datum} {s t : ReadState}

/-- What is given of a value with a layout of its own, by a shape that has nothing for a missing
value, is read plainly. -/
theorem gives_ext_iff (hkind : WireType.kindOf type.id = .ok kind)
    (haccepts : (env.shapes.resolve shape).acceptsMissing = false) :
    Gives env scope (.entered type (.ext host)) shape s v t ↔
      ∃ fuel rest, Take.plainWithin env.shapes fuel shape s.input = .ok v rest ∧
        t = { s with input := rest } := by
  have henter : enter env scope.recording (.entered type (.ext host)) s =
      .ok (.value type (.ext host)) s :=
    ofExcept_bind_of_ok hkind _ s
  rw [Gives.iff_plain henter haccepts]
  refine exists_congr fun fuel => ⟨exists_of_take_ok, ?_⟩
  rintro ⟨rest, hread, rfl⟩
  simp only [take, hread]

/-- Behind annotations a value that may be missing, with a layout of its own, is given where its
content is read plainly. -/
theorem gives_ext_option_iff (hkind : WireType.kindOf type.id = .ok kind) {content : Shape}
    (hshape : env.shapes.resolve shape = .option content)
    (haccepts : (env.shapes.resolve content).acceptsMissing = false) {w : Datum} :
    Gives env scope (.entered type (.ext host)) shape s (.some w) t ↔
      ∃ fuel rest, Take.plainWithin env.shapes fuel content s.input = .ok w rest ∧
        t = { s with input := rest } := by
  have hresolve : Gives env scope (.entered type (.ext host)) shape s (.some w) t ↔
      Gives env scope (.entered type (.ext host)) (.option content) s (.some w) t := by
    rw [← hshape]
    simp only [Gives, datumWithin_resolve]
  rw [hresolve, gives_option_iff hkind, ← gives_ext_iff hkind haccepts]
  constructor
  · rintro ⟨u, hu, hsame⟩
    cases hsame
    exact hu
  · exact fun h => ⟨w, h, rfl⟩

end Read

namespace Shape

variable {shapes : Shapes} {shape : Shape}

/-- What opens to characters has nothing for a missing value. -/
theorem Opens.acceptsMissing_of_char (h : shape.Opens shapes .char) :
    (shapes.resolve shape).acceptsMissing = false := by
  rcases h.resolve_cases with hshape | ⟨name, content, hshape⟩ <;> rw [hshape] <;> rfl

/-- What holds a value that is there has nothing for a missing one. -/
theorem Holds.acceptsMissing_eq {v : Datum} (h : shape.Holds shapes v)
    (hflat : (shapes.resolve shape).isOption = false) :
    (shapes.resolve shape).acceptsMissing = false := by
  have hresolved := h.resolved
  generalize shapes.resolve shape = own at hresolved hflat
  cases hresolved with
  | none | some => cases hflat
  | _ => rfl

end Shape

section Boundary

variable {env : WriteEnv} {slot : Slot} {spec : TypeSpec} {registration : Registration}
  {shape content : Shape} {v w : Datum} {depth : Nat} {before after : WriteTables}
  {bytes : List UInt8} {reader : ReadEnv} {type : WireType} {kind : Kind}
  (hkind : WireType.kindOf type.id = .ok kind)
  (hresolve : env.registry.resolve slot.type = .ok spec) (hrole : spec.role = .ext registration)
  (hholds : shape.Holds reader.shapes v)
  (h : Write.datum env depth slot.place v before = .ok bytes after) (scope : Scope)
  (host : Option HostType) (names : Name.Table) (refs : List RefEntry)

include hkind hresolve hrole hholds h in
/-- A character with a layout of its own is never read again, neither by the reader nor by what
passes the value over. -/
theorem ext_char_lost (hopens : shape.Opens reader.shapes .char) :
    ∃ payload, slot.Puts env spec before after bytes payload ∧
      (∀ rest t, ¬ Read.Gives reader scope (.entered type (.ext host)) shape
        ⟨payload ++ rest, names, refs⟩ v t) ∧
      ∀ fuel rest left, Take.plainWithin reader.shapes fuel shape (payload ++ rest) ≠ .ok v left := by
  have hchar := hopens.holds_unwrapped hholds nofun
  rw [← Write.datum_unwrapped] at h
  generalize hv : v.unwrapped = u at h hchar
  cases hchar with
  | char c =>
    obtain ⟨payload, hputs, hnever⟩ := slot.exists_puts_char hresolve hrole h
    have hplain (fuel : Nat) (rest left : List UInt8) :
        Take.plainWithin reader.shapes fuel shape (payload ++ rest) ≠ .ok v left := by
      intro hread
      obtain ⟨bound, hfound⟩ := hopens.exists_plainWithin hholds nofun hread
      rw [hv] at hfound
      exact hnever rest left (Take.character_of_char_ok hfound)
    refine ⟨payload, hputs, fun rest t hgives => ?_, hplain⟩
    obtain ⟨fuel, left, hread, -⟩ :=
      (Read.gives_ext_iff hkind hopens.acceptsMissing_of_char).mp hgives
    exact hplain fuel rest left hread

include hholds h in
/-- A missing value is written as its flag, where there is one, and only a shape without wrappers
takes that for the value. -/
theorem missing_root (hopens : shape.Opens reader.shapes (.option content))
    (hnone : v.unwrapped = .none) :
    slot.type.nullable = true ∧ after = before ∧
      bytes = (if slot.annotated then [RefFlag.null.toByte] else []) ∧
      (Read.missing (reader.shapes.resolve shape) = .ok v ↔
        reader.shapes.resolve shape = .option content) := by
  rw [← Write.datum_unwrapped, hnone] at h
  obtain ⟨hnullable, hafter, hbytes⟩ := slot.of_none_ok h
  refine ⟨hnullable, hafter, hbytes, ?_⟩
  rcases hopens.resolve_cases with hshape | ⟨name, inner, hshape⟩
  · have hv := hholds.unwrapped_eq (by rw [hshape]; exact nofun)
    rw [hshape, ← hv, hnone]
    exact iff_of_true rfl rfl
  · rw [hshape]
    exact iff_of_false nofun nofun

include hkind hresolve hrole hholds h in
/-- Of a value that may be missing and is there the content is written. A shape without wrappers is
read from that and one with wrappers is not, and what passes the value over never finds it there. -/
theorem ext_some_untagged (hopens : shape.Opens reader.shapes (.option content))
    (hsome : v.unwrapped = .some w)
    (hroot : ∀ root, content.Opens reader.shapes root → root.isOption = false ∧ root ≠ .char) :
    ∃ payload, slot.Puts env spec before after bytes payload ∧
      (∀ rest, Read.Gives reader scope (.entered type (.ext host)) shape
          ⟨payload ++ rest, names, refs⟩ v ⟨rest, names, refs⟩ ↔
        reader.shapes.resolve shape = .option content) ∧
      ∀ fuel rest, Take.plainWithin reader.shapes fuel shape (payload ++ rest) ≠ .ok v rest := by
  have hw : content.Holds reader.shapes w := by
    have hpresent := hopens.holds_unwrapped hholds nofun
    rw [hsome] at hpresent
    cases hpresent with
    | some hcontent => exact hcontent
  rw [← Write.datum_unwrapped, hsome, slot.datum_some] at h
  obtain ⟨payload, hputs, hpayload⟩ := slot.exists_puts hresolve hrole hw hroot h
  have hplain (fuel : Nat) (rest : List UInt8) :
      Take.plainWithin reader.shapes fuel shape (payload ++ rest) ≠ .ok v rest := by
    intro hread
    obtain ⟨bound, hoption⟩ := hopens.exists_plainWithin hholds nofun hread
    rw [hsome] at hoption
    exact Take.some_ne_of_untagged hpayload hoption
  refine ⟨payload, hputs, fun rest => ?_, hplain⟩
  rcases hopens.resolve_cases with hshape | ⟨name, inner, hshape⟩
  · have hv := hholds.unwrapped_eq (by rw [hshape]; exact nofun)
    have haccepts := hw.acceptsMissing_eq (hroot _ (.here content)).1
    have hreads := (Plain.rel_datum (w.height + 1) hw (Nat.lt_succ_self _) _ _ _ hpayload).2
    rw [← hv, hsome, Read.gives_ext_option_iff hkind hshape haccepts]
    exact iff_of_true ⟨_, rest, hreads rest, rfl⟩ hshape
  · -- Behind a wrapper the reader reads plainly, like what passes the value over.
    have haccepts : (reader.shapes.resolve shape).acceptsMissing = false := by
      rw [hshape]
      rfl
    rw [hshape]
    refine iff_of_false (fun hgives => ?_) nofun
    obtain ⟨fuel, left, hread, hlast⟩ := (Read.gives_ext_iff hkind haccepts).mp hgives
    cases hlast
    exact hplain fuel rest hread

include hkind hresolve hrole hholds h in
/-- What becomes of a value with a layout of its own whose shape, within any number of wrappers, is
one of characters or one of values that may be missing. A character is never read again. A missing
value is a flag, which is taken for it where there are no wrappers. Of a value that is there the
content is written, which is read back where there are no wrappers, but never by what passes the
value over. -/
theorem ext_root_boundary :
    (shape.Opens reader.shapes .char →
      ∃ payload, slot.Puts env spec before after bytes payload ∧
        (∀ rest t, ¬ Read.Gives reader scope (.entered type (.ext host)) shape
          ⟨payload ++ rest, names, refs⟩ v t) ∧
        ∀ fuel rest left, Take.plainWithin reader.shapes fuel shape (payload ++ rest) ≠ .ok v left) ∧
    ∀ content, shape.Opens reader.shapes (.option content) →
      (v.unwrapped = .none →
        slot.type.nullable = true ∧ after = before ∧
          bytes = (if slot.annotated then [RefFlag.null.toByte] else []) ∧
          (Read.missing (reader.shapes.resolve shape) = .ok v ↔
            reader.shapes.resolve shape = .option content)) ∧
      ∀ w, v.unwrapped = .some w →
        (∀ root, content.Opens reader.shapes root → root.isOption = false ∧ root ≠ .char) →
        ∃ payload, slot.Puts env spec before after bytes payload ∧
          (∀ rest, Read.Gives reader scope (.entered type (.ext host)) shape
              ⟨payload ++ rest, names, refs⟩ v ⟨rest, names, refs⟩ ↔
            reader.shapes.resolve shape = .option content) ∧
          ∀ fuel rest, Take.plainWithin reader.shapes fuel shape (payload ++ rest) ≠ .ok v rest :=
  ⟨ext_char_lost hkind hresolve hrole hholds h scope host names refs,
    fun _ hopens => ⟨missing_root hholds h hopens,
      fun _ => ext_some_untagged hkind hresolve hrole hholds h scope host names refs hopens⟩⟩

end Boundary

namespace Sample

/-- An engine for letters and captions, which have layouts of their own. Letters are characters, and
captions wrap texts that may be missing. -/
def calligrapher : Engine where
  config := ⟨false, false, .none, 5⟩
  registry := ⟨Registry.standard.specs ++
    [⟨some (.user "Letter"), "Letter", false, .ext (.id 1)⟩,
      ⟨some (.user "Caption"), "Caption", false, .ext (.id 2)⟩]⟩
  shapes := [("Letter", .char), ("Caption", .newtype "Caption" (.option .string))]

/-- What the engine relies on when it writes. -/
def scribe : WriteEnv := ⟨calligrapher.config, calligrapher.registry⟩

/-- What it relies on when it reads. -/
def viewer : ReadEnv := ⟨calligrapher.config, calligrapher.registry, calligrapher.shapes, []⟩

/-- A caption. -/
def caption : Datum := .newtype (.some (.text "Fig. 1"))

/-- The place of a caption in a list. -/
def margin : Slot := ⟨.scalar (.user "Caption") false, false, true⟩

/-- The caption is held where captions are. -/
theorem holds_caption : (Shape.user "Caption").Holds viewer.shapes caption :=
  .user (.newtype (.some (.string "Fig. 1")))

end Sample

/-- A caption in a list is not read back from its payload, which is that of the text. -/
theorem ext_root_boundary_caption :
    ∃ bytes after payload,
      Write.datum Sample.scribe 0 Sample.margin.place Sample.caption .empty = .ok bytes after ∧
      Sample.margin.Puts Sample.scribe ⟨some (.user "Caption"), "Caption", false, .ext (.id 2)⟩
        .empty after bytes payload ∧
      ∀ rest, ¬ Read.Gives Sample.viewer ⟨0, true⟩
        (.entered ⟨531, false, false, []⟩ (.ext (some (.user "Caption")))) (.user "Caption")
        ⟨payload ++ rest, [], []⟩ Sample.caption ⟨rest, [], []⟩ := by
  have hwrite : ∃ bytes after,
      Write.datum Sample.scribe 0 Sample.margin.place Sample.caption .empty = .ok bytes after :=
    ⟨_, _, rfl⟩
  have hresolve : Sample.scribe.registry.resolve Sample.margin.type =
      .ok ⟨some (.user "Caption"), "Caption", false, .ext (.id 2)⟩ := rfl
  have hkind : WireType.kindOf (WireType.mk 531 false false []).id = .ok .ext := rfl
  have hopens : (Shape.user "Caption").Opens Sample.viewer.shapes (.option .string) :=
    .inside rfl (.here _)
  have hroot : ∀ root, Shape.string.Opens Sample.viewer.shapes root →
      root.isOption = false ∧ root ≠ .char := by
    intro root hroot
    cases hroot with
    | here => exact ⟨rfl, nofun⟩
    | inside hshape => cases hshape
  obtain ⟨bytes, after, hwrite⟩ := hwrite
  have hboundary := ext_root_boundary hkind hresolve rfl Sample.holds_caption hwrite ⟨0, true⟩
    (some (.user "Caption")) [] []
  obtain ⟨payload, hputs, hgives, -⟩ := (hboundary.2 _ hopens).2 _ rfl hroot
  refine ⟨bytes, after, payload, hwrite, hputs, fun rest h => ?_⟩
  cases (hgives rest).mp h

/-- The message of a letter cannot be read. -/
theorem letter_lost :
    ∃ message after left,
      Sample.calligrapher.encode (.scalar (.user "Letter") false) (.char 'a') .empty =
        .ok message after ∧
      Sample.calligrapher.decode ⟨"Letter", .scalar (.user "Letter") false, .user "Letter"⟩
        ⟨message.toList, .empty⟩ = .error (.unexpectedEnd 2) left := by
  have hunread : ∃ left, Sample.calligrapher.decodeWithin 4
      ⟨"Letter", .scalar (.user "Letter") false, .user "Letter"⟩ ⟨[2, 147, 2, 1, 97], .empty⟩ =
        .error (.unexpectedEnd 2) left :=
    ⟨_, rfl⟩
  obtain ⟨left, hunread⟩ := hunread
  exact ⟨⟨[[2, 147, 2, 1, 97]]⟩, _, left, rfl, Engine.decode_eq_error hunread nofun⟩

end SchemaWire
