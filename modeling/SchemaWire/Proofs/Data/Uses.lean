import SchemaWire.Proofs.Data.Enter
import SchemaWire.Proofs.Message.Session

/-!
# The types that are used in data

The places inside a value follow from the place of the value, and so do the types that are
told of there. What a writer of data adds to its tables is what the type information of these
types adds, from the first to the last.
-/

namespace SchemaWire

namespace Place

/-- How a value is laid out in a place. -/
def layout (registry : Registry) : Place → Layout
  | .plain => .plain
  | .declared type _ _ =>
    match registry.resolve type with
    | .ok spec => .of spec type
    | .error _ => .plain

/-- The user type that a value is announced as, where it is. -/
def announced (registry : Registry) : Place → List TypeSpec
  | .declared type _ true => (registry.resolve type).toOption.toList.filter TypeSpec.isUser
  | _ => []

end Place

namespace Layout

/-- The place of the elements of a list or a set. -/
def element : Layout → Place
  | .typed spec type => (spec.element? type).elim .plain fun element => .declared element false true
  | .plain => .plain

/-- The place of the keys of a map. -/
def key : Layout → Place
  | .typed spec type => (spec.arguments? type).elim .plain fun entry => .declared entry.1 false true
  | .plain => .plain

/-- The place of the values of a map. -/
def value : Layout → Place
  | .typed spec type => (spec.arguments? type).elim .plain fun entry => .declared entry.2 false true
  | .plain => .plain

/-- The declared fields of a struct. -/
def fields : Layout → List FieldDescriptor
  | .typed spec _ => spec.fields
  | .plain => []

end Layout

namespace Write

mutual

/-- The user types that are told of in front of a value and of the values inside it, in the order in
which they are written. -/
def uses (registry : Registry) (place : Place) : Datum → List TypeSpec
  | .some content | .newtype content => uses registry place content
  | .seq _ content =>
    place.announced registry ++ usesOfItems registry (place.layout registry).element content
  | .map _ content =>
    place.announced registry ++ usesOfEntries registry (place.layout registry).key
      (place.layout registry).value content
  | .struct _ content =>
    place.announced registry ++ usesOfFields registry (place.layout registry).fields content
  | .none | .firstEntry .. | .choice _ | .absent | .refused _ => []
  | _ => place.announced registry

/-- The user types that are told of in front of elements and inside them. -/
def usesOfItems (registry : Registry) (place : Place) : List Datum → List TypeSpec
  | [] => []
  | first :: rest => uses registry place first ++ usesOfItems registry place rest

/-- The user types that are told of in front of keys and values and inside them. -/
def usesOfEntries (registry : Registry) (keyPlace valuePlace : Place) :
    List (Datum × Datum) → List TypeSpec
  | [] => []
  | (key, value) :: rest =>
    uses registry keyPlace key ++ (uses registry valuePlace value ++
      usesOfEntries registry keyPlace valuePlace rest)

/-- The user types that are told of in front of fields and inside them. -/
def usesOfFields (registry : Registry) :
    List FieldDescriptor → List (String × Datum) → List TypeSpec
  | field :: others, (_, value) :: rest =>
    uses registry (.declared field.type field.tracked true) value ++ usesOfFields registry others rest
  | _, _ => []

end

variable {registry : Registry} {compatible : Bool}

/-- The type information of two groups of types is written one group after the other. -/
theorem announce_append (specs others : List TypeSpec) :
    announce registry compatible (specs ++ others) = do
      return (← announce registry compatible specs) ++ (← announce registry compatible others) := by
  induction specs with
  | nil => simp only [announce, List.nil_append, pure_bind, bind_pure]
  | cons spec rest ih =>
    simp only [List.cons_append, announce, ih, bind_assoc, pure_bind, List.append_assoc]

/-- Whenever the writer succeeds, the types are registered, their type information stands in what is
written, in their order, and the tables are those behind that type information. -/
def Uses (registry : Registry) (compatible : Bool) (writer : Write (List UInt8))
    (specs : List TypeSpec) : Prop :=
  ∀ before bytes after, writer before = .ok bytes after →
    (∀ spec ∈ specs, spec ∈ registry.specs) ∧
      ∃ infos, announce registry compatible specs before = .ok infos after ∧ infos.Sublist bytes

namespace Uses

variable {writer next : Write (List UInt8)} {specs others : List TypeSpec}

/-- Bytes that do not depend on the tables tell of no type. -/
theorem pure (bytes : List UInt8) : Uses registry compatible (Pure.pure bytes) [] := by
  intro before found after hok
  cases hok
  exact ⟨List.forall_mem_nil _, [], rfl, List.nil_sublist _⟩

/-- Nothing is asked of a writer that fails. -/
theorem throw (e : Error) : Uses registry compatible (MonadExcept.throw e) specs :=
  nofun

/-- Type information tells of its type. -/
theorem typeInfo {spec : TypeSpec} (hspec : spec ∈ registry.specs) :
    Uses registry compatible (Write.typeInfo registry compatible spec) [spec] := by
  intro before bytes after hok
  have hannounce : announce registry compatible [spec] before = .ok (bytes ++ []) after := by
    rw [announce, bind_of_ok hok]
    rfl
  rw [List.append_nil] at hannounce
  exact ⟨List.forall_mem_singleton.mpr hspec, bytes, hannounce, List.Sublist.refl _⟩

/-- Two writers in sequence tell of the types of the first and then of those of the second. -/
theorem append (h : Uses registry compatible writer specs)
    (hnext : Uses registry compatible next others) :
    Uses registry compatible (do return (← writer) ++ (← next)) (specs ++ others) := by
  intro before bytes after hok
  obtain ⟨front, between, hfront, hok⟩ := exists_of_bind_ok hok
  obtain ⟨back, last, hback, hok⟩ := exists_of_bind_ok hok
  cases hok
  obtain ⟨hspecs, first, hfirst, hinside⟩ := h _ _ _ hfront
  obtain ⟨hothers, second, hsecond, hbehind⟩ := hnext _ _ _ hback
  have hannounce : announce registry compatible (specs ++ others) before =
      .ok (first ++ second) after := by
    rw [announce_append, bind_of_ok hfirst, bind_of_ok hsecond]
    rfl
  exact ⟨List.forall_mem_append.mpr ⟨hspecs, hothers⟩, _, hannounce, hinside.append hbehind⟩

/-- Bytes in front of a writer tell of no further type. -/
theorem prepend (bytes : List UInt8) (h : Uses registry compatible writer specs) :
    Uses registry compatible (do return bytes ++ (← writer)) specs := by
  simpa only [pure_bind, List.nil_append] using (pure bytes).append h

/-- A check in front of a writer tells of no further type. -/
theorem checked {α : Type} {e : Except Error α} {then' : α → Write (List UInt8)}
    (h : ∀ a, e = .ok a → Uses registry compatible (then' a) specs) :
    Uses registry compatible (MonadExcept.ofExcept e >>= then') specs := by
  intro before bytes after hok
  obtain ⟨a, between, hfirst, hsecond⟩ := exists_of_bind_ok hok
  obtain ⟨ha, rfl⟩ := exists_of_ofExcept_ok hfirst
  exact h a ha _ _ _ hsecond

end Uses

section Data

variable {env : WriteEnv}

/-- The type information of a value tells of its type, if that is a user type. -/
theorem uses_info {spec : TypeSpec} (hspec : spec ∈ env.registry.specs) :
    Uses env.registry env.config.compatible (info env spec) ([spec].filter TypeSpec.isUser) := by
  rw [info, List.filter_singleton]
  cases spec.isUser with
  | true => exact .typeInfo hspec
  | false => exact .pure []

/-- A place tells of the type that a value is announced as, and then of what its content tells. -/
theorem uses_behind (place : Place) {content : Layout → Write (List UInt8)} {inner : List TypeSpec}
    (h : Uses env.registry env.config.compatible (content (place.layout env.registry)) inner) :
    Uses env.registry env.config.compatible (behind env place content)
      (place.announced env.registry ++ inner) := by
  cases place with
  | plain =>
    rw [behind_plain]
    exact h
  | declared type tracked annotated =>
    cases hresolve : env.registry.resolve type with
    | error e =>
      intro before bytes after hok
      obtain ⟨opened, between, henter, -⟩ := exists_of_bind_ok hok
      obtain ⟨spec, start, hspec, -⟩ := exists_of_bind_ok henter
      obtain ⟨hfound, -⟩ := exists_of_ofExcept_ok hspec
      cases hresolve.symm.trans hfound
    | ok spec =>
      have hlayout : Place.layout env.registry (.declared type tracked annotated) =
          .of spec type := by
        rw [Place.layout, hresolve]
      rw [hlayout] at h
      rw [← behind_declared hresolve tracked content] at h
      cases annotated with
      | false => exact h
      | true =>
        rw [behind_annotated hresolve, Place.announced, hresolve]
        exact ((uses_info (Registry.mem_of_resolve hresolve)).prepend _).append h

/-- Writing a length tells of no type. -/
theorem uses_length (registry : Registry) (compatible : Bool) (n : Nat) :
    Uses registry compatible (length n) [] := by
  unfold length
  split
  · exact .pure _
  · exact .throw _

/-- Writing bytes behind their number tells of no type. -/
theorem uses_counted (registry : Registry) (compatible : Bool) (content : List UInt8) :
    Uses registry compatible (counted content) [] := by
  have h := (uses_length registry compatible content.length).append (.pure content)
  simp only [pure_bind, List.append_nil] at h
  exact h

/-- Writing the number of elements tells of no type. -/
theorem uses_size (registry : Registry) (compatible sized : Bool) (n : Nat) :
    Uses registry compatible (size sized n) [] := by
  unfold size
  split
  · exact uses_length registry compatible n
  · exact .throw _

/-- A scalar tells of the type that it is announced as. -/
theorem uses_scalar (place : Place) (kind : Kind) {plain typed : Write (List UInt8)}
    (hplain : Uses env.registry env.config.compatible plain [])
    (htyped : Uses env.registry env.config.compatible typed []) :
    Uses env.registry env.config.compatible (scalar env place kind plain typed)
      (place.announced env.registry) := by
  rw [← List.append_nil (place.announced env.registry)]
  refine uses_behind place ?_
  cases place.layout env.registry with
  | plain => exact hplain
  | typed spec type =>
    dsimp only
    split
    · exact htyped
    · exact .throw _

/-- A text tells of the type that it is announced as. -/
theorem uses_text (place : Place) (s : String) :
    Uses env.registry env.config.compatible (text env place s) (place.announced env.registry) :=
  uses_scalar place .string (uses_counted _ _ _) (.checked fun _ _ => .pure _)

/-- A variant with a payload that tells of no type tells of the type that it is announced as. -/
theorem uses_variant (place : Place) (enum : String) (index : Nat) (name : String)
    {payload : Write (List UInt8)} (h : Uses env.registry env.config.compatible payload []) :
    Uses env.registry env.config.compatible (variant env place enum index name payload)
      (place.announced env.registry) := by
  rw [← List.append_nil (place.announced env.registry)]
  refine uses_behind place ?_
  cases place.layout env.registry with
  | plain => exact h.prepend _
  | typed spec type => exact .throw _

/-- Contents behind their number tell of what the contents tell. -/
theorem uses_sized {content : Write (List UInt8)} {specs : List TypeSpec}
    (h : Uses env.registry env.config.compatible content specs) (sized : Bool) (n : Nat) :
    Uses env.registry env.config.compatible (do
      let count ← size sized n
      return count ++ (← content)) specs :=
  (uses_size env.registry env.config.compatible sized n).append h

mutual

/-- A plain value tells of no type. -/
theorem uses_plain (registry : Registry) : (v : Datum) → uses registry .plain v = []
  | .some content | .newtype content => by
    rw [uses]
    exact uses_plain registry content
  | .seq _ content => by
    rw [uses]
    exact usesOfItems_plain registry content
  | .map _ content => by
    rw [uses]
    exact usesOfEntries_plain registry content
  | .struct _ content => by
    rw [uses]
    cases content <;> rfl
  | .none | .firstEntry .. | .choice _ | .absent | .refused _ => by
    rw [uses]
  | .bool _ | .int .. | .float32 _ | .float64 _ | .char _ | .text _ | .bytes _ | .unit | .tuple _
  | .unitVariant .. | .newtypeVariant .. | .tupleVariant .. | .structVariant .. => by
    rw [uses]
    · rfl
    all_goals nofun

/-- Plain elements tell of no type. -/
theorem usesOfItems_plain (registry : Registry) :
    (content : List Datum) → usesOfItems registry .plain content = []
  | [] => by
    rw [usesOfItems]
  | first :: rest => by
    rw [usesOfItems, uses_plain registry first, usesOfItems_plain registry rest]
    rfl

/-- Plain entries tell of no type. -/
theorem usesOfEntries_plain (registry : Registry) :
    (content : List (Datum × Datum)) → usesOfEntries registry .plain .plain content = []
  | [] => by
    rw [usesOfEntries]
  | (key, value) :: rest => by
    rw [usesOfEntries, uses_plain registry key, uses_plain registry value,
      usesOfEntries_plain registry rest]
    rfl

end

mutual

/-- Writing a value tells of the types that are used in it. -/
theorem uses_datum : (v : Datum) → (depth : Nat) → (place : Place) →
    Uses env.registry env.config.compatible (datum env depth place v) (uses env.registry place v)
  | .bool _, _, place | .int _ _, _, place | .float32 _, _, place | .float64 _, _, place => by
    rw [datum, uses]
    · exact uses_scalar place _ (.pure _) (.pure _)
    all_goals nofun
  | .char c, _, place => by
    rw [uses]
    · cases place with
      | plain => rw [datum]; exact .pure _
      | declared => rw [datum]; exacts [uses_text _ _, nofun]
    all_goals nofun
  | .text s, _, place => by
    rw [datum, uses]
    · exact uses_text place s
    all_goals nofun
  | .bytes content, _, place => by
    rw [datum, uses]
    · exact uses_scalar place _ (uses_counted _ _ _) (uses_counted _ _ _)
    all_goals nofun
  | .unit, _, place => by
    rw [datum, uses, ← List.append_nil (place.announced env.registry)]
    · refine uses_behind place ?_
      cases place.layout env.registry with
      | plain => exact .pure _
      | typed spec type => exact .throw _
    all_goals nofun
  | .none, _, place => by
    rw [uses]
    cases place with
    | plain => rw [datum]; exact .pure _
    | declared =>
      rw [datum]
      split
      · exact .throw _
      · exact .pure _
  | .some content, depth, place => by
    rw [uses]
    cases place with
    | plain => rw [datum]; exact (uses_datum content depth .plain).prepend [255]
    | declared => rw [datum]; exacts [uses_datum content depth _, nofun]
  | .newtype content, depth, place => by
    rw [datum, uses]
    exact uses_datum content depth place
  | .seq sized content, depth, place => by
    rw [datum, uses]
    refine uses_behind place ?_
    cases place.layout env.registry with
    | plain => exact uses_sized (uses_items content depth _) sized _
    | typed spec type =>
      dsimp only [Layout.element]
      cases spec.element? type with
      | some element => exact uses_sized (uses_items content depth _) sized _
      | none => exact .throw _
  | .tuple content, depth, place => by
    rw [datum, uses, ← List.append_nil (place.announced env.registry)]
    · refine uses_behind place ?_
      cases place.layout env.registry with
      | plain => exact usesOfItems_plain env.registry content ▸ uses_items content depth .plain
      | typed spec type => exact .throw _
    all_goals nofun
  | .map sized content, depth, place => by
    rw [datum, uses]
    refine uses_behind place ?_
    cases place.layout env.registry with
    | plain => exact uses_sized (uses_entries content depth _ _) sized _
    | typed spec type =>
      dsimp only [Layout.key, Layout.value]
      cases spec.arguments? type with
      | some entry => exact uses_sized (uses_entries content depth _ _) sized _
      | none => exact .throw _
  | .struct name content, depth, place => by
    rw [datum, uses]
    refine uses_behind place ?_
    cases place.layout env.registry with
    | plain =>
      have hnone : usesOfFields env.registry Layout.plain.fields content = [] := by
        cases content <;> rfl
      rw [hnone]
      exact uses_members content depth false
    | typed spec type =>
      rw [Layout.fields, TypeSpec.fields]
      dsimp only
      cases spec.role with
      | builtin | enum | ext => exact .throw _
      | struct registration declared =>
        dsimp only
        split
        · exact .throw _
        · exact uses_fields content (depth + 1) declared
  | .unitVariant enum index name, _, place => by
    rw [datum, uses, ← List.append_nil (place.announced env.registry)]
    · refine uses_behind place ?_
      cases place.layout env.registry with
      | plain => exact .pure _
      | typed spec type =>
        dsimp only
        split
        · exact .pure _
        · exact .throw _
    all_goals nofun
  | .newtypeVariant enum index name content, depth, place => by
    rw [datum, uses]
    · exact uses_variant place enum index name
        (uses_plain env.registry content ▸ uses_datum content depth .plain)
    all_goals nofun
  | .tupleVariant enum index name content, depth, place => by
    rw [datum, uses]
    · exact uses_variant place enum index name
        (usesOfItems_plain env.registry content ▸ uses_items content depth .plain)
    all_goals nofun
  | .structVariant enum index name content, depth, place => by
    rw [datum, uses]
    · exact uses_variant place enum index name (uses_members content depth true)
    all_goals nofun
  | .firstEntry _ _, _, _ | .choice _, _, _ | .absent, _, _ | .refused _, _, _ => by
    rw [datum, uses]
    exact .throw _

/-- Writing values one after the other tells of the types that are used in them. -/
theorem uses_items : (content : List Datum) → (depth : Nat) → (place : Place) →
    Uses env.registry env.config.compatible (items env depth place content)
      (usesOfItems env.registry place content)
  | [], _, _ => by
    rw [items, usesOfItems]
    exact .pure _
  | first :: rest, depth, place => by
    rw [items, usesOfItems]
    exact (uses_datum first depth place).append (uses_items rest depth place)

/-- Writing entries one after the other tells of the types that are used in them. -/
theorem uses_entries : (content : List (Datum × Datum)) → (depth : Nat) →
    (keyPlace valuePlace : Place) →
    Uses env.registry env.config.compatible (entries env depth keyPlace valuePlace content)
      (usesOfEntries env.registry keyPlace valuePlace content)
  | [], _, _, _ => by
    rw [entries, usesOfEntries]
    exact .pure _
  | (key, value) :: rest, depth, keyPlace, valuePlace => by
    have hall := (uses_datum key depth keyPlace).append ((uses_datum value depth valuePlace).append
      (uses_entries rest depth keyPlace valuePlace))
    rw [entries, usesOfEntries]
    simpa only [bind_assoc, pure_bind, List.append_assoc] using hall

/-- Writing the parts of a plain struct tells of no type. -/
theorem uses_members : (content : List (String × Datum)) → (depth : Nat) → (gaps : Bool) →
    Uses env.registry env.config.compatible (members env depth gaps content) []
  | [], _, _ => by
    rw [members]
    exact .pure _
  | (name, value) :: rest, depth, gaps => by
    unfold members
    split
    next => exact .pure _
    next heq =>
      cases heq
      split
      · exact uses_members rest depth gaps
      · exact .throw _
    next heq =>
      cases heq
      exact (uses_plain env.registry value ▸ uses_datum value depth .plain).append
        (uses_members rest depth gaps)

/-- Writing the fields of a struct tells of the types that are used in them. -/
theorem uses_fields : (content : List (String × Datum)) → (depth : Nat) →
    (declared : List FieldDescriptor) →
    Uses env.registry env.config.compatible (fields env depth declared content)
      (usesOfFields env.registry declared content)
  | [], _, declared => by
    cases declared with
    | nil => rw [fields]; exact .pure _
    | cons => rw [fields]; exact .throw _
  | (name, value) :: rest, depth, declared => by
    unfold fields
    split
    next heq => cases heq
    next heq => cases heq
    next => exact .throw _
    next => exact .throw _
    next heq =>
      cases heq
      rw [usesOfFields]
      split
      · exact .throw _
      · exact (uses_datum value depth _).append (uses_fields rest depth _)

end

end Data

end Write

end SchemaWire
