import SchemaWire.Proofs.Data.Keys
import SchemaWire.Proofs.Data.Pass
import SchemaWire.Proofs.Value.Whole

/-!
# Readers that meet

Two readers that start together meet if they come to the same state wherever both of them succeed.
A reader meets whoever passes over the same value if it leaves nothing of it, which what it gives
shows. Loops meet whose turns do: elements, the parts that values by position are given to, and
entries, whether they are taken as they come or given to the parts that their keys name.
-/

namespace SchemaWire

/-- Wherever both readers succeed they come to the same state, provided that the first one gives
what is asked of it. -/
def Meets {σ α β : Type} (asked : α → Prop) (x : EStateM Error σ α) (y : EStateM Error σ β) : Prop :=
  ∀ s a t b u, x s = .ok a t → asked a → y s = .ok b u → t = u

/-- A reader that checks that nothing is left comes through only if nothing is. -/
theorem exists_of_checked_ok {σ α : Type} {x : EStateM Error σ (α × Nat)} {count : Nat}
    {e : Nat → Error} {s t : σ} {value : α}
    (h : (do
      let (value, taken) ← x
      if taken < count then throw (e (count - taken))
      return value : EStateM Error σ α) s = .ok value t) :
    ∃ taken, x s = .ok (value, taken) t ∧ count ≤ taken := by
  obtain ⟨⟨first, taken⟩, m, hfirst, hrest⟩ := exists_of_bind_ok h
  dsimp only at hrest
  split at hrest
  next => cases hrest
  next hall =>
    cases hrest
    exact ⟨taken, hfirst, Nat.le_of_not_lt hall⟩

namespace Meets

variable {σ α β γ δ : Type} {asked : α → Prop} {x : EStateM Error σ α} {y : EStateM Error σ β}

/-- A reader meets whatever passes for it. -/
theorem of_passes (h : Passes x y) : Meets asked x y := by
  intro s a t b u hx _ hy
  obtain ⟨c, hc⟩ := h s a t hx
  cases hc.symm.trans hy
  rfl

/-- Readers that do nothing meet. -/
theorem of_pure (a : α) (b : β) : Meets asked (Pure.pure a : EStateM Error σ α) (Pure.pure b) :=
  of_passes fun _ _ _ h => ⟨b, by cases h; rfl⟩

/-- What fails meets everything. -/
theorem of_throw (e : Error) : Meets asked (MonadExcept.throw e : EStateM Error σ α) y :=
  of_passes (.of_throw e)

/-- Readers that meet do so wherever more is asked of the first one. -/
theorem imp {more : α → Prop} (h : Meets asked x y) (hmore : ∀ a, more a → asked a) :
    Meets more x y :=
  fun s a t b u hx ha hy => h s a t b u hx (hmore a ha) hy

/-- What readers meet under may be asked as well. -/
theorem given {p : Prop} (h : p → Meets asked x y) : Meets (fun a => asked a ∧ p) x y :=
  fun s a t b u hx ha hy => h ha.2 s a t b u hx ha.1 hy

/-- Sequences meet whose parts do. -/
theorem bind {wanted : γ → Prop} {k : α → EStateM Error σ γ} {l : β → EStateM Error σ δ}
    (h : Meets asked x y) (hasked : ∀ a s c t, k a s = .ok c t → wanted c → asked a)
    (hnext : ∀ a b, Meets wanted (k a) (l b)) : Meets wanted (x >>= k) (y >>= l) := by
  intro s c t d u hx hc hy
  obtain ⟨a, m, ha, hk⟩ := exists_of_bind_ok hx
  obtain ⟨b, m', hb, hl⟩ := exists_of_bind_ok hy
  cases h s a m b m' ha (hasked a m c t hk hc) hb
  exact hnext a b m c t d u hk hc hl

/-- Sequences that start in the same way meet where the rest does. -/
theorem after {wanted : γ → Prop} {k : α → EStateM Error σ γ} {l : α → EStateM Error σ δ}
    (h : ∀ a, Meets wanted (k a) (l a)) : Meets wanted (x >>= k) (x >>= l) := by
  intro s c t d u hx hc hy
  obtain ⟨a, m, ha, hk⟩ := exists_of_bind_ok hx
  rw [bind_of_ok ha] at hy
  exact h a m c t d u hk hc hy

/-- What is made of the result of the first reader has to be what is asked for. -/
theorem map_left {wanted : γ → Prop} {f : α → γ} (h : Meets (fun a => wanted (f a)) x y) :
    Meets wanted (do return f (← x)) y := by
  intro s c t b u hx hc hy
  obtain ⟨a, m, ha, hmap⟩ := exists_of_bind_ok hx
  cases hmap
  exact h s a _ b u ha hc hy

/-- What is made of the result of the second reader does not matter. -/
theorem map_right (h : Meets asked x y) (f : β → δ) : Meets asked x (do return f (← y)) := by
  intro s a t d u hx ha hy
  obtain ⟨b, m, hb, hmap⟩ := exists_of_bind_ok hy
  cases hmap
  exact h s a t b _ hx ha hb

/-- What meets a reader whose result is dropped meets the reader. -/
theorem of_dropped (h : Meets asked x (do let _ ← y)) : Meets asked x y :=
  fun s a t _ u hx ha hy => h s a t () u hx ha ((bind_of_ok hy).trans rfl)

/-- What is checked after the first reader may be taken for granted. -/
theorem checked {γ : Type} {asked : γ → Prop} {x : EStateM Error σ (γ × Nat)} {count : Nat}
    (e : Nat → Error) (h : Meets (fun result => asked result.1 ∧ count ≤ result.2) x y) :
    Meets asked (do
      let (value, taken) ← x
      if taken < count then throw (e (count - taken))
      return value) (do let _ ← y) := by
  intro s value t d u hx hvalue hy
  obtain ⟨taken, hfirst, hall⟩ := exists_of_checked_ok hx
  obtain ⟨b, m, hb, hend⟩ := exists_of_bind_ok hy
  cases hend
  exact h s _ _ b _ hfirst ⟨hvalue, hall⟩ hb

/-- A turn and the turns behind it meet whatever passes over all of them. -/
theorem cons {each : γ → Prop} {make : α → γ} (h : Meets (fun a => each (make a)) x y)
    {xs : EStateM Error σ (List γ)} {ys : β → EStateM Error σ δ}
    (hrest : ∀ b, Meets (fun others => ∀ c ∈ others, each c) xs (ys b)) :
    Meets (fun all => ∀ c ∈ all, each c) (do
      let first ← x
      let others ← xs
      return make first :: others) (y >>= ys) := by
  refine h.bind ?_ fun a b => ((hrest b).imp fun others hall c hmem => ?_).map_left
  · intro a s all t hok hall
    obtain ⟨others, m, -, hmake⟩ := exists_of_bind_ok hok
    cases hmake
    exact hall _ List.mem_cons_self
  · exact hall c (List.mem_cons_of_mem _ hmem)

end Meets

namespace Elements

variable {σ : Type} {read : Elements σ} {s t : σ}

/-- As many elements are given as were asked for. -/
theorem length_of_collect_ok {shape : Shape} {count index : Nat} {items : List Datum}
    (h : read.collect shape count index s = .ok items t) : items.length = count := by
  induction count generalizing index items s with
  | zero =>
    cases h
    rfl
  | succ count ih =>
    obtain ⟨first, m, -, h⟩ := exists_of_bind_ok h
    obtain ⟨others, w, hothers, h⟩ := exists_of_bind_ok h
    cases h
    rw [List.length_cons, ih hothers]

/-- Values by position are given for all positions, and there are as many elements. -/
theorem length_of_positional_ok {shapes : List Shape} {count index : Nat} {items : List Datum}
    (h : read.positional count shapes index s = .ok items t) :
    items.length = shapes.length ∧ (shapes.length = 0 ∨ index + shapes.length ≤ count) := by
  induction shapes generalizing index items s with
  | nil =>
    cases h
    exact ⟨rfl, .inl rfl⟩
  | cons shape rest ih =>
    unfold positional at h
    split at h
    next => cases h
    next hstart =>
      obtain ⟨first, m, -, h⟩ := exists_of_bind_ok h
      obtain ⟨others, w, hothers, h⟩ := exists_of_bind_ok h
      cases h
      obtain ⟨hlength, hend⟩ := ih hothers
      rw [List.length_cons, List.length_cons, hlength]
      omega

/-- Where no elements are left, as many are given as there are. -/
theorem count?_of_visit_ok {count taken : Nat} {shape : Shape} {v : Datum}
    (h : read.visit count shape s = .ok (v, taken) t) (hall : count ≤ taken) {k : Nat}
    (hk : v.count? = some k) : k = count := by
  cases shape with
  | list name element | set name element | any | identifier =>
    obtain ⟨items, m, hitems, h⟩ := exists_of_bind_ok h
    cases h
    cases hk
    exact length_of_collect_ok hitems
  | tuple shapes | tupleStruct name shapes =>
    obtain ⟨items, m, hitems, h⟩ := exists_of_bind_ok h
    cases h
    cases hk
    have hlength := length_of_positional_ok hitems
    omega
  | ignored | bytes =>
    obtain ⟨items, m, -, h⟩ := exists_of_bind_ok h
    cases h
    cases hk
  | struct name parts =>
    obtain ⟨fields, m, -, h⟩ := exists_of_bind_ok h
    cases h
    cases hk
  | _ => cases h

end Elements

section Sequences

variable {σ β : Type} {read : Elements σ} {skip : EStateM Error σ β}
  (h : ∀ index (shape : Shape), Meets shape.Whole (read index shape) skip)
include h

namespace Meets

/-- Elements of one shape meet as many turns of what each of them meets. -/
theorem collect (shape : Shape) (count index : Nat) :
    Meets (fun items => ∀ v ∈ items, shape.Whole v) (read.collect shape count index)
      (Take.times skip count) := by
  induction count generalizing index with
  | zero => exact .of_pure _ _
  | succ count ih => exact (h index shape).cons fun first => (ih (index + 1)).map_right (first :: ·)

/-- Values by position meet as many turns as there are elements from the given position on, if
there are no more of these than of positions. -/
theorem positional {count : Nat} (items : List Shape) (index : Nat)
    (hle : count ≤ index + items.length) :
    Meets (fun values => ∀ v ∈ values, v.isWhole = true) (read.positional count items index)
      (Take.times skip (count - index)) := by
  induction items generalizing index with
  | nil =>
    rw [List.length_nil, Nat.add_zero] at hle
    rw [Nat.sub_eq_zero_of_le hle]
    exact .of_pure _ _
  | cons shape rest ih =>
    rw [List.length_cons] at hle
    unfold Elements.positional
    by_cases hend : count ≤ index
    · simp only [if_pos hend]
      exact .of_passes (.of_throw_bind _ _)
    · have hturns : count - index = count - (index + 1) + 1 := by omega
      simp only [if_neg hend]
      rw [hturns]
      exact ((h index shape).imp fun _ => .of_isWhole shape).cons fun first =>
        (ih (index + 1) (by omega)).map_right (first :: ·)

/-- The parts of a struct meet as many turns as there are elements from the given position on, if
there are no more of these than of parts. -/
theorem members {count : Nat} (parts : List (Member Shape)) (index : Nat)
    (hle : count ≤ index + parts.length) :
    Meets (fun fields => ∀ field ∈ fields, field.2.isWhole = true)
      (read.members count parts index) (Take.times skip (count - index)) := by
  induction parts generalizing index with
  | nil =>
    rw [List.length_nil, Nat.add_zero] at hle
    rw [Nat.sub_eq_zero_of_le hle]
    exact .of_pure _ _
  | cons member rest ih =>
    rw [List.length_cons] at hle
    have hothers := ih (index + 1) (by omega)
    unfold Elements.members
    by_cases hend : index < count
    · have hturns : count - index = count - (index + 1) + 1 := by omega
      simp only [if_pos hend]
      rw [hturns]
      exact ((h index member.content).imp fun _ => .of_isWhole member.content).cons fun first =>
        hothers.map_right (first :: ·)
    · -- Behind the last element nothing is read any more.
      have hturns : count - index = count - (index + 1) := by omega
      simp only [if_neg hend]
      rw [hturns]
      cases member.optional with
      | true =>
        simp only [if_true, pure_bind]
        exact (hothers.imp fun others hall field hmem =>
          hall field (List.mem_cons_of_mem _ hmem)).map_left
      | false => exact .of_passes (.of_throw_bind _ _)

/-- A sequence meets as many turns as it has elements, unless some are left. -/
theorem visit (count : Nat) (shape : Shape) :
    Meets (fun result => shape.Whole result.1 ∧ count ≤ result.2) (read.visit count shape)
      (Take.times skip count) := by
  cases shape with
  | list name element | set name element =>
    exact ((collect h element count 0).imp fun items hall v hmem =>
      .of_isWhole element (Datum.areWhole_iff.mp (hall.1 rfl) v hmem)).map_left
  | any | identifier =>
    exact ((collect h .any count 0).imp fun items hall v hmem =>
      .of_isWhole .any (Datum.areWhole_iff.mp (hall.1 rfl) v hmem)).map_left
  | ignored =>
    exact ((collect h .ignored count 0).imp fun items _ v _ => .of_isAtomic rfl v).map_left
  | bytes =>
    exact ((collect h (.int .uint8) count 0).imp fun items _ v _ => .of_isAtomic rfl v).map_left
  | tuple items | tupleStruct name items =>
    have hvalues := given (p := count ≤ 0 + items.length) (positional h items 0)
    exact (hvalues.imp fun values hall =>
      ⟨Datum.areWhole_iff.mp (hall.1 rfl), hall.2.trans_eq (Nat.zero_add _).symm⟩).map_left
  | struct name parts =>
    have hfields := given (p := count ≤ 0 + parts.length) (members h parts 0)
    refine (hfields.imp fun fields hall => ⟨?_, ?_⟩).map_left
    · exact List.forall_mem_map.mp (Datum.areWholeFields_iff.mp (hall.1 rfl))
    · exact (hall.2.trans (Nat.min_le_right _ _)).trans_eq (Nat.zero_add _).symm
  | _ => exact .of_throw _

end Meets

end Sequences

namespace Member

/-- Values were found for different parts that there are. -/
def Placed (parts : List (Member Shape)) (found : List (Nat × Datum)) : Prop :=
  (found.map Prod.fst).Nodup ∧ ∀ entry ∈ found, entry.1 < parts.length

variable {parts : List (Member Shape)} {found : List (Nat × Datum)}

/-- One value more is found for a part that has none yet. -/
theorem Placed.append (h : Placed parts found) {place : Nat} (hplace : place < parts.length)
    (hnew : (found.lookup place).isSome = false) (v : Datum) :
    Placed parts (found ++ [(place, v)]) := by
  have hfresh : place ∉ found.map Prod.fst := by
    intro hmem
    obtain ⟨other, hother⟩ := exists_lookup_of_mem hmem
    rw [hother] at hnew
    cases hnew
  refine ⟨?_, fun entry hmem => ?_⟩
  · rw [List.map_append]
    exact h.1.append (List.nodup_singleton place) (List.disjoint_singleton.mpr hfresh)
  · rcases List.mem_append.mp hmem with hmem | hmem
    · exact h.2 entry hmem
    · cases List.mem_singleton.mp hmem
      exact hplace

/-- What was found for parts is among what they are assembled of. -/
theorem Placed.mem_of_assemble_ok (h : Placed parts found) {fields : List (String × Datum)}
    (hmade : assemble found parts 0 = .ok fields) {entry : Nat × Datum} (hmem : entry ∈ found) :
    entry.2 ∈ fields.map Prod.snd := by
  have hpart := List.getElem?_eq_getElem (h.2 entry hmem)
  obtain ⟨value, hfilled, hat⟩ := (filled_of_assemble_ok hmade).2 entry.1 _ hpart
  rw [Nat.zero_add, filled, lookup_of_mem h.1 hmem] at hfilled
  cases hfilled
  exact List.mem_of_getElem? hat

end Member

/-- From one state to another more was found for parts, each time for one without a value, and
where all of it is whole whoever passes over the same comes to the same state. -/
structure Gathered {σ : Type} (parts : List (Member Shape)) (skip : EStateM Error σ Unit)
    (found result : List (Nat × Datum)) (s t : σ) : Prop where
  /-- What was found before is kept. -/
  kept : found <+: result
  /-- Values are found for different parts. -/
  placed : Member.Placed parts found → Member.Placed parts result
  /-- Passing over it comes to the same state. -/
  meets : (∀ entry ∈ result, entry.2.isWhole = true) → ∀ u, skip s = .ok () u → t = u

namespace Gathered

variable {σ : Type} {parts : List (Member Shape)} {skip rest : EStateM Error σ Unit}
  {found between result : List (Nat × Datum)} {s m t : σ}

/-- Nothing is found in what is only passed over. -/
theorem none (h : ∀ u, skip s = .ok () u → t = u) : Gathered parts skip found found s t :=
  ⟨List.prefix_refl _, id, fun _ => h⟩

/-- One value is found for a part that has none yet. -/
theorem one {place : Nat} {v : Datum} (hplace : place < parts.length)
    (hnew : (found.lookup place).isSome = false)
    (h : v.isWhole = true → ∀ u, skip s = .ok () u → t = u) :
    Gathered parts skip found (found ++ [(place, v)]) s t where
  kept := List.prefix_append _ _
  placed hplaced := hplaced.append hplace hnew v
  meets hwhole := h (hwhole (place, v) (List.mem_append_right _ List.mem_cons_self))

/-- What is found is found by one reader after the other. -/
theorem append (h : Gathered parts skip found between s m)
    (hrest : Gathered parts rest between result m t) :
    Gathered parts (do skip; rest) found result s t where
  kept := h.kept.trans hrest.kept
  placed := hrest.placed ∘ h.placed
  meets hwhole u hskip := by
    obtain ⟨⟨⟩, w, hfirst, hsecond⟩ := exists_of_bind_ok hskip
    cases h.meets (fun entry hmem => hwhole entry (hrest.kept.subset hmem)) w hfirst
    exact hrest.meets hwhole u hsecond

/-- Where parts are assembled of what was found for them, their values show whether something was
left. -/
theorem eq_of_assemble_ok (h : Gathered parts skip [] result s t)
    {fields : List (String × Datum)} (hmade : Member.assemble result parts 0 = .ok fields)
    (hwhole : Datum.areWholeFields fields = true) {u : σ} (hskip : skip s = .ok () u) : t = u := by
  have hplaced := h.placed ⟨List.nodup_nil, nofun⟩
  refine h.meets (fun entry hmem => ?_) u hskip
  exact Datum.areWholeFields_iff.mp hwhole _ (hplaced.mem_of_assemble_ok hmade hmem)

end Gathered

namespace Entries

variable {σ : Type}

/-- Pass over so many entries from the given position on, each by the step for its position. -/
def pass (skip : Nat → EStateM Error σ Unit) : Nat → Nat → EStateM Error σ Unit
  | 0, _ => return ()
  | n + 1, index => do
    skip index
    pass skip n (index + 1)

/-- Entries that are passed over in the same way are passed over in turns. -/
theorem times_eq_pass (skip : EStateM Error σ Unit) (count index : Nat) :
    (do let _ ← Take.times skip count) = pass (fun _ => skip) count index := by
  induction count generalizing index with
  | zero => rfl
  | succ count ih =>
    rw [pass, ← ih, Take.times]
    simp only [bind_assoc, pure_bind]

/-- Read an entry, both of whose parts are asked for. -/
def one (read : Entries σ) (key value : Shape) (index : Nat) :
    EStateM Error σ (Datum × Datum) := do
  let k ← read.key index key
  let v ← read.value index value
  return (k, v)

/-- Entries are read one after the other. -/
theorem collect_succ (read : Entries σ) (key value : Shape) (count index : Nat) :
    read.collect key value (count + 1) index = (do
      let first ← read.one key value index
      let others ← read.collect key value count (index + 1)
      return first :: others) := by
  rw [collect, one]
  simp only [bind_assoc, pure_bind]

/-- As many entries are given as were asked for. -/
theorem length_of_collect_ok {read : Entries σ} {key value : Shape} {count index : Nat}
    {entries : List (Datum × Datum)} {s t : σ}
    (h : read.collect key value count index s = .ok entries t) : entries.length = count := by
  induction count generalizing index entries s with
  | zero =>
    cases h
    rfl
  | succ count ih =>
    rw [collect_succ] at h
    obtain ⟨first, m, -, h⟩ := exists_of_bind_ok h
    obtain ⟨others, w, hothers, h⟩ := exists_of_bind_ok h
    cases h
    rw [List.length_cons, ih hothers]

/-- Where no entries are left, as many are given as there are. -/
theorem count?_of_visit_ok {read : Entries σ} {count taken : Nat} {shape : Shape} {v : Datum}
    {s t : σ} (h : read.visit count shape s = .ok (v, taken) t) (hall : count ≤ taken) {k : Nat}
    (hk : v.count? = some k) : k = count := by
  cases shape with
  | map name key value | any | identifier =>
    obtain ⟨entries, m, hentries, h⟩ := exists_of_bind_ok h
    cases h
    cases hk
    exact length_of_collect_ok hentries
  | firstEntry name key value =>
    obtain ⟨entries, m, hentries, h⟩ := exists_of_bind_ok h
    cases h
    cases hk
    rw [length_of_collect_ok hentries]
    omega
  | ignored =>
    obtain ⟨entries, m, -, h⟩ := exists_of_bind_ok h
    cases h
    cases hk
  | struct name parts =>
    obtain ⟨found, m, -, h⟩ := exists_of_bind_ok h
    obtain ⟨fields, w, -, h⟩ := exists_of_bind_ok h
    cases h
    cases hk
  | _ => cases h

/-- Who takes the first entry reads one, if there is any. -/
theorem exists_of_visit_ok {read : Entries σ} {count total taken : Nat} {shape : Shape}
    {entries : List (Datum × Datum)} {s t : σ}
    (h : read.visit count shape s = .ok (.firstEntry total entries, taken) t) :
    ∃ key value, read.collect key value taken 0 s = .ok entries t ∧
      total = count ∧ taken = min count 1 := by
  cases shape with
  | firstEntry name key value =>
    obtain ⟨found, m, hfound, h⟩ := exists_of_bind_ok h
    cases h
    exact ⟨key, value, hfound, rfl, rfl⟩
  | struct name parts =>
    obtain ⟨found, m, -, h⟩ := exists_of_bind_ok h
    obtain ⟨fields, w, -, h⟩ := exists_of_bind_ok h
    cases h
  | map name key value | any | identifier | ignored =>
    obtain ⟨found, m, -, h⟩ := exists_of_bind_ok h
    cases h
  | _ => cases h

end Entries

section Entries

variable {σ : Type} {read : Entries σ} {skip : Nat → EStateM Error σ Unit}
  (h : ∀ index key value, Meets (fun entry => key.Whole entry.1 ∧ value.Whole entry.2)
    (read.one key value index) (skip index))
include h

namespace Meets

omit h in
/-- An entry meets what its key and its value meet one after the other. -/
theorem one {key value : Shape} {index : Nat} {x y : EStateM Error σ Unit}
    (hkey : Meets key.Whole (read.key index key) x)
    (hvalue : Meets value.Whole (read.value index value) y) :
    Meets (fun entry => key.Whole entry.1 ∧ value.Whole entry.2) (read.one key value index)
      (do x; y) := by
  refine hkey.bind (fun k s entry t hok hentry => ?_) fun k _ => ?_
  · obtain ⟨v, m, -, hmake⟩ := exists_of_bind_ok hok
    cases hmake
    exact hentry.1
  · exact (hvalue.imp fun v hentry => hentry.2).map_left

/-- Entries of one shape meet whatever passes over each of them. -/
theorem collectEntries (key value : Shape) (count index : Nat) :
    Meets (fun entries => ∀ entry ∈ entries, key.Whole entry.1 ∧ value.Whole entry.2)
      (read.collect key value count index) (Entries.pass skip count index) := by
  induction count generalizing index with
  | zero => exact .of_pure _ _
  | succ count ih =>
    rw [Entries.collect_succ]
    exact (h index key value).cons fun _ => ih (index + 1)

end Meets

/-- Entries are given to the parts that their keys name, and are passed over if there is none. -/
theorem Gathered.of_named_ok {parts : List (Member Shape)} {count index : Nat}
    {found result : List (Nat × Datum)} {s t : σ}
    (hok : read.named parts count index found s = .ok result t) :
    Gathered parts (Entries.pass skip count index) found result s t := by
  induction count generalizing index found s with
  | zero =>
    cases hok
    exact .none fun u hskip => by cases hskip; rfl
  | succ count ih =>
    obtain ⟨key, m, hkey, hok⟩ := exists_of_bind_ok hok
    have hone {shape : Shape} {v : Datum} {w : σ} (hvalue : read.value index shape m = .ok v w)
        (hwhole : shape.Whole v) (u : σ) (hskip : skip index s = .ok () u) : w = u :=
      h index _ shape s (key, v) w () u ((bind_of_ok hkey).trans (bind_of_ok hvalue))
        ⟨.of_isAtomic rfl key, hwhole⟩ hskip
    have hnone (hok : (do
        let _ ← read.value index .ignored
        read.named parts count (index + 1) found) m = .ok result t) :
        Gathered parts (Entries.pass skip (count + 1) index) found result s t := by
      obtain ⟨v, w, hvalue, hok⟩ := exists_of_bind_ok hok
      exact (Gathered.none fun u => hone hvalue (.of_isAtomic rfl v) u).append (ih hok)
    cases key with
    | choice place =>
      cases place with
      | none => exact hnone hok
      | some place =>
        cases hpart : parts[place]? with
        | none =>
          simp only [hpart] at hok
          cases hok
        | some part =>
          simp only [hpart] at hok
          split at hok
          next => cases hok
          next hnew =>
            obtain ⟨v, w, hvalue, hok⟩ := exists_of_bind_ok hok
            have hplace := (List.getElem?_eq_some_iff.mp hpart).1
            exact (Gathered.one hplace (Bool.eq_false_of_not_eq_true hnew) fun hwhole u =>
              hone hvalue (.of_isWhole part.content hwhole) u).append (ih hok)
    | _ => exact hnone hok

/-- Entries meet whatever passes over each of them, unless the first one is taken of several. -/
theorem Meets.visitEntries (count : Nat) (shape : Shape) :
    Meets (fun result => shape.Whole result.1) (read.visit count shape)
      (Entries.pass skip count 0) := by
  have hwhole {entries : List (Datum × Datum)} (key value : Shape)
      (hall : Datum.areWholeEntries entries = true) (entry : Datum × Datum) (hmem : entry ∈ entries) :
      key.Whole entry.1 ∧ value.Whole entry.2 := by
    have heach := Datum.areWholeEntries_iff.mp hall entry hmem
    exact ⟨.of_isWhole key heach.1, .of_isWhole value heach.2⟩
  cases shape with
  | map name key value =>
    exact ((collectEntries h key value count 0).imp fun entries hall =>
      hwhole key value (hall rfl)).map_left
  | any | identifier =>
    exact ((collectEntries h .any .any count 0).imp fun entries hall =>
      hwhole .any .any (hall rfl)).map_left
  | ignored =>
    exact ((collectEntries h .ignored .ignored count 0).imp fun entries _ entry _ =>
      ⟨.of_isAtomic rfl entry.1, .of_isAtomic rfl entry.2⟩).map_left
  | firstEntry name key value =>
    intro s result t b u hread hall hskip
    obtain ⟨entries, m, hentries, hmake⟩ := exists_of_bind_ok hread
    cases hmake
    obtain ⟨htaken, heach⟩ := Bool.and_eq_true_iff.mp (hall rfl)
    -- Nothing was left, so as many entries were taken as there are.
    have hlength := Entries.length_of_collect_ok hentries
    have hcount : min count 1 = count := by
      have hle := of_decide_eq_true htaken
      omega
    rw [hcount] at hentries
    exact collectEntries h key value count 0 s entries t b u hentries (hwhole key value heach) hskip
  | struct name parts =>
    intro s result t b u hread hall hskip
    obtain ⟨found, m, hfound, hrest⟩ := exists_of_bind_ok hread
    obtain ⟨fields, w, hfields, hmake⟩ := exists_of_bind_ok hrest
    obtain ⟨hmade, rfl⟩ := exists_of_ofExcept_ok hfields
    cases hmake
    exact (Gathered.of_named_ok h hfound).eq_of_assemble_ok hmade (hall rfl) hskip
  | _ => exact .of_throw _

end Entries

end SchemaWire
