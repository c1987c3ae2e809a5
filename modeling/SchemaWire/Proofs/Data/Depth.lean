import SchemaWire.Proofs.Data.Enter
import SchemaWire.Proofs.Value.Nesting

/-!
# Writing under another limit

What a writer writes does not depend on how deep structs may nest, as long as they do not nest
deeper. Under a limit that a value exceeds, its writer fails for that limit, wherever in the value
the struct stands that is one too many.
-/

namespace SchemaWire

/-- The same writer under another limit. -/
def WriteEnv.limited (env : WriteEnv) (limit : Nat) : WriteEnv :=
  { env with config := { env.config with maxDepth := limit } }

namespace Write

/-- What the first writer writes, the second one writes as well if it fits under the limit, and
otherwise it fails for the limit. -/
structure Bounded {α : Type} (limit : Nat) (fits : Prop) (free bound : Write α) : Prop where
  /-- What fits is written. -/
  within : fits → ∀ before a after, free before = .ok a after → bound before = .ok a after
  /-- What does not fit is not written. -/
  beyond : ¬fits → ∀ before a after, free before = .ok a after →
    ∃ left, bound before = .error (.depthExceeded limit) left

namespace Bounded

variable {α β : Type} {limit : Nat} {fits others : Prop}

section Sequencing

variable {free bound : Write α}

/-- A writer that does not know the limit writes what fits. -/
theorem refl (h : fits) : Bounded limit fits free free :=
  ⟨fun _ _ _ _ hok => hok, fun hnot => absurd h hnot⟩

/-- Where the first writer fails, nothing is said. -/
theorem throw (e : Error) : Bounded limit fits (MonadExcept.throw e) bound :=
  ⟨fun _ => nofun, fun _ => nofun⟩

/-- It matters only whether the value fits. -/
theorem congr (h : Bounded limit fits free bound) (hiff : fits ↔ others) :
    Bounded limit others free bound :=
  ⟨fun hfits => h.within (hiff.mpr hfits), fun hnot => h.beyond fun hfits => hnot (hiff.mp hfits)⟩

/-- Behind a writer that does not know the limit. -/
theorem bind {first : Write α} {free bound : α → Write β}
    (h : ∀ a before after, first before = .ok a after → Bounded limit fits (free a) (bound a)) :
    Bounded limit fits (first >>= free) (first >>= bound) := by
  constructor
  · intro hfits before bytes after hok
    obtain ⟨a, between, hfirst, hok⟩ := exists_of_bind_ok hok
    exact (bind_of_ok hfirst).trans ((h a _ _ hfirst).within hfits _ _ _ hok)
  · intro hnot before bytes after hok
    obtain ⟨a, between, hfirst, hok⟩ := exists_of_bind_ok hok
    obtain ⟨left, hbound⟩ := (h a _ _ hfirst).beyond hnot _ _ _ hok
    exact ⟨left, (bind_of_ok hfirst).trans hbound⟩

/-- In front of a writer that does not know the limit. -/
theorem bind_const (h : Bounded limit fits free bound) (next : α → Write β) :
    Bounded limit fits (free >>= next) (bound >>= next) := by
  constructor
  · intro hfits before b after hok
    obtain ⟨a, between, hfirst, hok⟩ := exists_of_bind_ok hok
    exact (bind_of_ok (h.within hfits _ _ _ hfirst)).trans hok
  · intro hnot before b after hok
    obtain ⟨a, between, hfirst, hok⟩ := exists_of_bind_ok hok
    obtain ⟨left, hbound⟩ := h.beyond hnot _ _ _ hfirst
    exact ⟨left, bind_of_error hbound⟩

end Sequencing

variable {free bound next boundNext : Write (List UInt8)}

/-- Two writers in sequence write what fits under the limit, the one and the other. -/
theorem append (h : Bounded limit fits free bound) (hnext : Bounded limit others next boundNext) :
    Bounded limit (fits ∧ others) (do return (← free) ++ (← next))
      (do return (← bound) ++ (← boundNext)) := by
  constructor
  · intro hboth before bytes after hok
    obtain ⟨front, between, hfront, hok⟩ := exists_of_bind_ok hok
    obtain ⟨back, last, hback, hok⟩ := exists_of_bind_ok hok
    refine (bind_of_ok (h.within hboth.1 _ _ _ hfront)).trans ?_
    exact (bind_of_ok (hnext.within hboth.2 _ _ _ hback)).trans hok
  · intro hnot before bytes after hok
    obtain ⟨front, between, hfront, hok⟩ := exists_of_bind_ok hok
    obtain ⟨back, last, hback, hok⟩ := exists_of_bind_ok hok
    by_cases hfits : fits
    · obtain ⟨left, hbound⟩ := hnext.beyond (fun hothers => hnot ⟨hfits, hothers⟩) _ _ _ hback
      exact ⟨left, (bind_of_ok (h.within hfits _ _ _ hfront)).trans (bind_of_error hbound)⟩
    · obtain ⟨left, hbound⟩ := h.beyond hfits _ _ _ hfront
      exact ⟨left, bind_of_error hbound⟩

/-- Bytes that are known stand in front of what fits. -/
theorem prepend (bytes : List UInt8) (h : Bounded limit fits free bound) :
    Bounded limit fits (do return bytes ++ (← free)) (do return bytes ++ (← bound)) := by
  have hfront : Bounded limit True (pure bytes) (pure bytes) := refl trivial
  have hboth := (hfront.append h).congr (iff_of_eq (true_and fits))
  simpa only [pure_bind] using hboth

end Bounded

/-- A plain layout does not depend on the settings, nor on the structs around it. -/
theorem behind_plain_congr (env other : WriteEnv) {content content' : Layout → Write (List UInt8)}
    (h : content .plain = content' .plain) :
    behind env .plain content = behind other .plain content' := by
  rw [behind_plain, behind_plain, h]

section Plain

variable (env other : WriteEnv) (depth deeper : Nat)

mutual

/-- What is written plainly depends on the value alone. -/
theorem datum_plain_congr :
    (v : Datum) → datum env depth .plain v = datum other deeper .plain v
  | .bool _ | .int _ _ | .float32 _ | .float64 _ | .bytes _ | .unit | .unitVariant _ _ _ => by
    rw [datum, datum]
    exact behind_plain_congr env other rfl
  | .text _ => by
    rw [datum, datum, text, text]
    exact behind_plain_congr env other rfl
  | .char _ | .none | .firstEntry _ _ | .choice _ | .absent | .refused _ => by
    rw [datum, datum]
  | .some content => by
    rw [datum, datum, datum_plain_congr content]
  | .newtype content => by
    rw [datum, datum, datum_plain_congr content]
  | .seq _ content => by
    rw [datum, datum]
    exact behind_plain_congr env other (by rw [items_plain_congr content])
  | .tuple content => by
    rw [datum, datum]
    exact behind_plain_congr env other (items_plain_congr content)
  | .map _ content => by
    rw [datum, datum]
    exact behind_plain_congr env other (by rw [entries_plain_congr content])
  | .struct _ content => by
    rw [datum, datum]
    exact behind_plain_congr env other (members_congr false content)
  | .newtypeVariant _ _ _ content => by
    rw [datum, datum, datum_plain_congr content]
    exact behind_plain_congr env other rfl
  | .tupleVariant _ _ _ content => by
    rw [datum, datum, items_plain_congr content]
    exact behind_plain_congr env other rfl
  | .structVariant _ _ _ content => by
    rw [datum, datum, members_congr true content]
    exact behind_plain_congr env other rfl

/-- Values that are written plainly one after the other depend on nothing else. -/
theorem items_plain_congr : (content : List Datum) →
    items env depth .plain content = items other deeper .plain content
  | [] => by rw [items, items]
  | first :: rest => by rw [items, items, datum_plain_congr first, items_plain_congr rest]

/-- Entries that are written plainly one after the other depend on nothing else. -/
theorem entries_plain_congr : (content : List (Datum × Datum)) →
    entries env depth .plain .plain content = entries other deeper .plain .plain content
  | [] => by rw [entries, entries]
  | (key, value) :: rest => by
    rw [entries, entries, datum_plain_congr key, datum_plain_congr value, entries_plain_congr rest]

/-- The parts of a plain struct depend on nothing else. -/
theorem members_congr (gaps : Bool) : (content : List (String × Datum)) →
    members env depth gaps content = members other deeper gaps content
  | [] => by rw [members, members]
  | (name, value) :: rest => by
    have hrest := members_congr gaps rest
    by_cases habsent : value = .absent
    · subst habsent
      rw [members, members, hrest]
    · rw [members_cons habsent, members_cons habsent,
        datum_plain_congr value, hrest]

end

end Plain

/-- A type has a layout of its own, or its values are laid out by their type. -/
theorem layout_cases (spec : TypeSpec) (type : FieldType) :
    (∃ registration, spec.role = .ext registration ∧ Layout.of spec type = .plain) ∨
      Layout.of spec type = .typed spec type := by
  unfold Layout.of
  split
  next registration hrole => exact .inl ⟨registration, hrole, rfl⟩
  next => exact .inr rfl

section Declared

variable {env : WriteEnv} {limit : Nat} {type : FieldType} {tracked annotated : Bool}

/-- Behind the annotations of a value the limit matters where it does for the content. -/
theorem Bounded.behind {fits : Prop} {free bound : Layout → Write (List UInt8)}
    (h : ∀ spec, env.registry.resolve type = .ok spec →
      Bounded limit fits (free (.of spec type)) (bound (.of spec type))) :
    Bounded limit fits (Write.behind env (.declared type tracked annotated) free)
      (Write.behind (env.limited limit) (.declared type tracked annotated) bound) := by
  have henter : enter (env.limited limit) (.declared type tracked annotated) =
      enter env (.declared type tracked annotated) := rfl
  unfold Write.behind
  rw [henter]
  refine bind fun opened before after hok => ?_
  obtain ⟨head, layout⟩ := opened
  obtain ⟨spec, between, hspec, hok⟩ := exists_of_bind_ok hok
  have hlayout : layout = .of spec type := by
    split at hok
    · obtain ⟨front, last, -, hok⟩ := exists_of_bind_ok hok
      cases hok
      rfl
    · cases hok
      rfl
  rw [hlayout]
  exact (h spec (exists_of_ofExcept_ok hspec).1).prepend head

/-- What does not nest registered structs fits wherever it is written. -/
theorem Bounded.behind_const {fits : Prop} (h : fits) (content : Layout → Write (List UInt8)) :
    Bounded limit fits (Write.behind env (.declared type tracked annotated) content)
      (Write.behind (env.limited limit) (.declared type tracked annotated) content) :=
  behind fun _ _ => refl h

/-- A number of elements or entries does not depend on the limit. -/
theorem Bounded.behind_size {fits : Prop} {free bound : Write (List UInt8)}
    (h : Bounded limit fits free bound) (sized : Bool) (n : Nat) :
    Bounded limit fits
      (do
        let count ← Write.size sized n
        return count ++ (← free))
      (do
        let count ← Write.size sized n
        return count ++ (← bound)) :=
  bind fun count _ _ _ => h.prepend count

end Declared

/-- A struct fits if there is room for it and for what nests inside of it. -/
theorem bounded_deeper {env : WriteEnv} {limit depth nesting : Nat} {free bound : Write (List UInt8)}
    (h : depth + 1 ≤ limit → Bounded limit (depth + 1 + nesting ≤ limit) free bound) :
    Bounded limit (depth + (nesting + 1) ≤ limit)
      (if env.config.maxDepth < depth + 1 then throw (.depthExceeded env.config.maxDepth) else free)
      (if (env.limited limit).config.maxDepth < depth + 1 then
        throw (.depthExceeded (env.limited limit).config.maxDepth) else bound) := by
  by_cases hfree : env.config.maxDepth < depth + 1
  · rw [if_pos hfree]
    exact .throw _
  rw [if_neg hfree]
  by_cases hdeep : limit < depth + 1
  · have hbound : (env.limited limit).config.maxDepth < depth + 1 := hdeep
    rw [if_pos hbound]
    exact ⟨fun hfits => absurd hfits (by omega), fun _ before _ _ _ => ⟨before, rfl⟩⟩
  · have hbound : ¬(env.limited limit).config.maxDepth < depth + 1 := hdeep
    rw [if_neg hbound]
    exact (h (Nat.le_of_not_lt hdeep)).congr (by omega)

section Value

variable {env : WriteEnv} {limit : Nat}

mutual

/-- A value is written under a limit that its structs do not exceed. Otherwise writing it fails for
the limit. -/
theorem bounded_datum : (v : Datum) → (type : FieldType) → (tracked annotated : Bool) →
    (depth : Nat) → depth ≤ limit →
    Bounded limit (depth + v.nesting env.registry type ≤ limit)
      (datum env depth (.declared type tracked annotated) v)
      (datum (env.limited limit) depth (.declared type tracked annotated) v)
  | .bool _, type, _, _, depth, hdepth | .int _ _, type, _, _, depth, hdepth
  | .float32 _, type, _, _, depth, hdepth | .float64 _, type, _, _, depth, hdepth
  | .bytes _, type, _, _, depth, hdepth | .unit, type, _, _, depth, hdepth
  | .unitVariant _ _ _, type, _, _, depth, hdepth => by
    rw [datum, datum]
    exact .behind_const hdepth _
  | .text _, type, _, _, depth, hdepth => by
    rw [datum, datum, text, text]
    exact .behind_const hdepth _
  | .char _, type, _, _, depth, hdepth => by
    rw [datum, datum, text, text]
    · exact .behind_const hdepth _
    all_goals exact nofun
  | .none, type, _, _, depth, hdepth => by
    rw [datum, datum]
    exact .refl hdepth
  | .firstEntry _ _, type, _, _, depth, hdepth | .choice _, type, _, _, depth, hdepth
  | .absent, type, _, _, depth, hdepth | .refused _, type, _, _, depth, hdepth => by
    rw [datum]
    exact .throw _
  | .some content, type, tracked, annotated, depth, hdepth => by
    rw [datum, datum, Datum.nesting]
    · exact bounded_datum content type tracked annotated depth hdepth
    all_goals exact nofun
  | .newtype content, type, tracked, annotated, depth, hdepth => by
    rw [datum, datum, Datum.nesting]
    exact bounded_datum content type tracked annotated depth hdepth
  | .seq sized content, type, tracked, annotated, depth, hdepth => by
    rw [datum, datum]
    refine .behind fun spec hspec => ?_
    rcases layout_cases spec type with ⟨registration, hrole, hlayout⟩ | hlayout
    · rw [hlayout, Datum.nesting_of_ext hspec hrole]
      dsimp only
      rw [items_plain_congr env (env.limited limit) depth depth content]
      exact .refl hdepth
    · rw [hlayout, Datum.nesting, Registry.element?_of_resolve hspec]
      dsimp only
      cases spec.element? type with
      | some element => exact (bounded_items content element depth hdepth).behind_size sized _
      | none => exact .throw _
  | .tuple content, type, tracked, annotated, depth, hdepth => by
    rw [datum, datum]
    refine .behind fun spec hspec => ?_
    rcases layout_cases spec type with ⟨registration, hrole, hlayout⟩ | hlayout
    · rw [hlayout]
      dsimp only
      rw [items_plain_congr env (env.limited limit) depth depth content]
      exact .refl hdepth
    · rw [hlayout]
      exact .throw _
  | .map sized content, type, tracked, annotated, depth, hdepth => by
    rw [datum, datum]
    refine .behind fun spec hspec => ?_
    rcases layout_cases spec type with ⟨registration, hrole, hlayout⟩ | hlayout
    · rw [hlayout, Datum.nesting_of_ext hspec hrole]
      dsimp only
      rw [entries_plain_congr env (env.limited limit) depth depth content]
      exact .refl hdepth
    · rw [hlayout, Datum.nesting, Registry.arguments?_of_resolve hspec]
      dsimp only
      cases spec.arguments? type with
      | some types =>
        exact (bounded_entries content types.1 types.2 depth hdepth).behind_size sized _
      | none => exact .throw _
  | .struct name content, type, tracked, annotated, depth, hdepth => by
    rw [datum, datum]
    refine .behind fun spec hspec => ?_
    rcases layout_cases spec type with ⟨registration, hrole, hlayout⟩ | hlayout
    · rw [hlayout, Datum.nesting_of_ext hspec hrole]
      dsimp only
      rw [members_congr env (env.limited limit) depth depth false content]
      exact .refl hdepth
    · rw [hlayout, Datum.nesting]
      dsimp only
      cases hrole : spec.role with
      | struct registration declared =>
        rw [Registry.structFields?_of_resolve hspec hrole]
        exact bounded_deeper fun hdeeper => bounded_fields content declared (depth + 1) hdeeper
      | _ => exact .throw _
  | .newtypeVariant _ _ _ content, type, tracked, annotated, depth, hdepth => by
    rw [datum, datum, datum_plain_congr env (env.limited limit) depth depth content]
    exact .behind_const hdepth _
  | .tupleVariant _ _ _ content, type, tracked, annotated, depth, hdepth => by
    rw [datum, datum, items_plain_congr env (env.limited limit) depth depth content]
    exact .behind_const hdepth _
  | .structVariant _ _ _ content, type, tracked, annotated, depth, hdepth => by
    rw [datum, datum, members_congr env (env.limited limit) depth depth true content]
    exact .behind_const hdepth _

/-- Values are written one after the other as long as the deepest of them fits. -/
theorem bounded_items : (content : List Datum) → (type : FieldType) → (depth : Nat) →
    depth ≤ limit →
    Bounded limit (depth + Datum.nestingOfItems env.registry type content ≤ limit)
      (items env depth (.declared type false true) content)
      (items (env.limited limit) depth (.declared type false true) content)
  | [], type, depth, hdepth => by
    rw [items, items]
    exact .refl hdepth
  | first :: rest, type, depth, hdepth => by
    have hboth := (bounded_datum first type false true depth hdepth).append
      (bounded_items rest type depth hdepth)
    rw [items, items, Datum.nestingOfItems]
    exact hboth.congr (by omega)

/-- Entries are written one after the other as long as the deepest key or value fits. -/
theorem bounded_entries : (content : List (Datum × Datum)) → (keyType valueType : FieldType) →
    (depth : Nat) → depth ≤ limit →
    Bounded limit (depth + Datum.nestingOfEntries env.registry keyType valueType content ≤ limit)
      (entries env depth (.declared keyType false true) (.declared valueType false true) content)
      (entries (env.limited limit) depth (.declared keyType false true)
        (.declared valueType false true) content)
  | [], keyType, valueType, depth, hdepth => by
    rw [entries, entries]
    exact .refl hdepth
  | (key, value) :: rest, keyType, valueType, depth, hdepth => by
    have hentry := (bounded_datum key keyType false true depth hdepth).append
      (bounded_datum value valueType false true depth hdepth)
    have hall := hentry.append (bounded_entries rest keyType valueType depth hdepth)
    rw [entries, entries, Datum.nestingOfEntries]
    simp only [bind_assoc, pure_bind] at hall
    exact hall.congr (by omega)

/-- The fields of a struct are written as long as the deepest of them fits. -/
theorem bounded_fields : (content : List (String × Datum)) → (declared : List FieldDescriptor) →
    (depth : Nat) → depth ≤ limit →
    Bounded limit (depth + Datum.nestingOfFields env.registry declared content ≤ limit)
      (fields env depth declared content) (fields (env.limited limit) depth declared content)
  | [], declared, depth, hdepth => by
    cases declared with
    | nil =>
      rw [fields, fields]
      exact .refl hdepth
    | cons =>
      rw [fields]
      exact .throw _
  | (name, value) :: rest, declared, depth, hdepth => by
    by_cases habsent : value = .absent
    · subst habsent
      cases declared <;> rw [fields] <;> exact .throw _
    cases declared with
    | nil =>
      rw [fields_nil_cons habsent]
      exact .throw _
    | cons field others =>
      rw [fields_cons habsent, fields_cons habsent]
      by_cases hname : field.name = name
      · have hboth := (bounded_datum value field.type field.tracked true depth hdepth).append
          (bounded_fields rest others depth hdepth)
        rw [if_neg (not_not_intro hname), if_neg (not_not_intro hname), Datum.nestingOfFields]
        exact hboth.congr (by omega)
      · rw [if_pos hname]
        exact .throw _

end

end Value

end Write

end SchemaWire
