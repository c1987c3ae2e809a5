import SchemaWire.Proofs.Reading

/-!
# Readers with a bound

A reader that is bounded in how deep it goes does not end where the bound is too low. With a
higher bound it either still does not end, or it ends for good. What it waits for is a job: the
reading of some value that it has come to. A realm says which states and jobs there are, and a
family of readers, one for every bound, is traced when all of this holds of it.
-/

namespace SchemaWire

/-- The reader did not end, since the bound on its depth was too low. -/
def Unfinished {σ α : Type} (result : EStateM.Result Error σ α) : Prop :=
  ∃ s, result = .error .unfinished s

/-- A reader that has found something has ended. -/
theorem not_unfinished_of_ok {σ α : Type} {result : EStateM.Result Error σ α} {a : α} {s : σ}
    (h : result = .ok a s) : ¬Unfinished result := by
  rintro ⟨t, ht⟩
  cases h.symm.trans ht

section Sequencing

variable {σ α β : Type} {x : EStateM Error σ α} {f : α → EStateM Error σ β} {s : σ}

/-- A sequence does not end where its first part does not. -/
theorem Unfinished.bind (h : Unfinished (x s)) : Unfinished ((x >>= f) s) := by
  obtain ⟨t, hx⟩ := h
  exact ⟨t, bind_of_error hx⟩

/-- A sequence does not end where its first part does not, or where the second part does not
behind the first. -/
theorem Unfinished.of_bind (h : Unfinished ((x >>= f) s)) :
    Unfinished (x s) ∨ ∃ a t, x s = .ok a t ∧ Unfinished (f a t) := by
  cases hx : x s with
  | ok a t =>
    rw [bind_of_ok hx] at h
    exact .inr ⟨a, t, rfl, h⟩
  | error e t =>
    obtain ⟨u, hu⟩ := h
    rw [bind_of_error hx] at hu
    cases hu
    exact .inl ⟨t, rfl⟩

end Sequencing

/-- The states and the jobs of readers. -/
structure Realm (σ : Type) where
  /-- What readers are busy with. -/
  Job : Type
  /-- The bytes that are left in a state. -/
  input : σ → List UInt8
  /-- What was told by the first state is told by the second. -/
  Within : σ → σ → Prop
  /-- A state tells what it tells. -/
  refl : ∀ s, Within s s
  /-- What was told stays told. -/
  trans : ∀ {s t u}, Within s t → Within t u → Within s u
  /-- The states that occur. -/
  Inside : σ → Prop
  /-- The jobs that occur. -/
  Has : Job → Prop
  /-- The job does not end in the state with the bound. -/
  Stuck : Job → Nat → σ → Prop

namespace Realm

variable {σ α β : Type} (realm : Realm σ) (bounds : Nat → Prop)

/-- From the first state, the readers do not end as long as the job does not in the second. -/
def Awaits (R : Nat → EStateM Error σ α) (s : σ) (job : realm.Job) (t : σ) : Prop :=
  ∀ n, bounds n → realm.Stuck job n t → Unfinished (R n s)

/-- The readers wait for a job that they come to, and they come to it again wherever as much is
told and the same bytes are left. -/
structure Comes (R : Nat → EStateM Error σ α) (s : σ) (job : realm.Job) (t : σ) : Prop where
  /-- The job occurs. -/
  has : realm.Has job
  /-- The state of the job occurs. -/
  inside : realm.Inside t
  /-- Coming to the job, the readers are told more. -/
  within : realm.Within s t
  /-- The readers wait for the job. -/
  awaits : realm.Awaits bounds R s job t
  /-- They come to it again. -/
  again : ∀ u, realm.Inside u → realm.input u = realm.input s → realm.Within t u →
    ∃ v, realm.Inside v ∧ realm.input v = realm.input t ∧ realm.Within u v ∧
      realm.Awaits bounds R u job v

/-- Readers, one for each of the bounds, whose results have the given property. -/
structure Traced (R : Nat → EStateM Error σ α) (post : α → Prop) : Prop where
  /-- A reader that ends does not change with higher bounds. -/
  steady : ∀ {n m s}, bounds n → bounds m → n ≤ m → realm.Inside s → ¬Unfinished (R n s) →
    R m s = R n s
  /-- A reader that succeeds ends in a state that occurs and is told more. -/
  settles : ∀ {n s a t}, bounds n → realm.Inside s → R n s = .ok a t →
    post a ∧ realm.Inside t ∧ realm.Within s t
  /-- A reader that succeeds succeeds again wherever as much is told. -/
  repeats : ∀ {n s a t u}, bounds n → realm.Inside s → R n s = .ok a t → realm.Inside u →
    realm.input u = realm.input s → realm.Within t u →
    ∃ v, R n u = .ok a v ∧ realm.input v = realm.input t
  /-- A reader that does not end never does, or waits for a job. -/
  waits : ∀ {n s}, bounds n → realm.Inside s → Unfinished (R n s) →
    (∀ k, bounds k → Unfinished (R k s)) ∨
      ∃ job t, realm.Stuck job n t ∧ realm.Comes bounds R s job t

namespace Traced

variable {realm bounds}

/-- Readers that are traced are traced with fewer bounds. -/
theorem restrict {fewer : Nat → Prop} {R : Nat → EStateM Error σ α} {post : α → Prop}
    (h : realm.Traced bounds R post) (hfewer : ∀ n, fewer n → bounds n) :
    realm.Traced fewer R post where
  steady hn hm := h.steady (hfewer _ hn) (hfewer _ hm)
  settles hn := h.settles (hfewer _ hn)
  repeats hn := h.repeats (hfewer _ hn)
  waits hn hs hstuck := by
    rcases h.waits (hfewer _ hn) hs hstuck with hnever | ⟨job, t, hjob, hcomes⟩
    · exact .inl fun k hk => hnever k (hfewer k hk)
    · refine .inr ⟨job, t, hjob, hcomes.has, hcomes.inside, hcomes.within, ?_, ?_⟩
      · exact fun k hk => hcomes.awaits k (hfewer k hk)
      · intro u hu hinput hwithin
        obtain ⟨v, hv, hsame, hmore, hawaits⟩ := hcomes.again u hu hinput hwithin
        exact ⟨v, hv, hsame, hmore, fun k hk => hawaits k (hfewer k hk)⟩

/-- One reader for all bounds is traced if it succeeds again wherever as much is told. -/
theorem const {r : EStateM Error σ α} {post : α → Prop}
    (hsettles : ∀ {s a t}, realm.Inside s → r s = .ok a t →
      post a ∧ realm.Inside t ∧ realm.Within s t)
    (hrepeats : ∀ {s a t u}, realm.Inside s → r s = .ok a t → realm.Inside u →
      realm.input u = realm.input s → realm.Within t u →
      ∃ v, r u = .ok a v ∧ realm.input v = realm.input t) :
    realm.Traced bounds (fun _ => r) post where
  steady _ _ _ _ _ := rfl
  settles _ hs hok := hsettles hs hok
  repeats _ hs hok hu hinput hwithin := hrepeats hs hok hu hinput hwithin
  waits _ _ hstuck := .inl fun _ _ => hstuck

/-- A value that is known is traced. -/
theorem pure {a : α} {post : α → Prop} (h : post a) :
    realm.Traced bounds (fun _ => (Pure.pure a : EStateM Error σ α)) post := by
  refine const ?_ ?_
  · intro s b t hs hok
    cases hok
    exact ⟨h, hs, realm.refl _⟩
  · intro s b t u _ hok _ hinput _
    cases hok
    exact ⟨u, rfl, hinput⟩

/-- A failure is traced. -/
theorem throw (e : Error) (post : α → Prop) :
    realm.Traced bounds (fun _ => (MonadExcept.throw e : EStateM Error σ α)) post :=
  const nofun nofun

/-- A check is traced. -/
theorem ofExcept {e : Except Error α} {post : α → Prop} (h : ∀ a, e = .ok a → post a) :
    realm.Traced bounds (fun _ => (MonadExcept.ofExcept e : EStateM Error σ α)) post := by
  cases e with
  | ok a => exact pure (h a rfl)
  | error err => exact throw err post

section Bind

variable {R : Nat → EStateM Error σ α} {K : α → Nat → EStateM Error σ β} {mid : α → Prop}

/-- Where the first readers come to a job, so do sequences that start with them. -/
theorem comes_bind {s t : σ} {job : realm.Job} (h : realm.Comes bounds R s job t) :
    realm.Comes bounds (fun n => R n >>= fun a => K a n) s job t where
  has := h.has
  inside := h.inside
  within := h.within
  awaits n hn hstuck := (h.awaits n hn hstuck).bind
  again u hu hinput hwithin := by
    obtain ⟨v, hv, hsame, hmore, hawaits⟩ := h.again u hu hinput hwithin
    exact ⟨v, hv, hsame, hmore, fun n hn hstuck => (hawaits n hn hstuck).bind⟩

/-- If the first part ends with some bound, a sequence does not end where the second part does
not: with lower bounds the first part does not end either. -/
theorem unfinished_bind {post : α → Prop} (h : realm.Traced bounds R post) {n k : Nat} {s t : σ}
    {a : α} (hn : bounds n) (hk : bounds k) (hs : realm.Inside s) (hok : R n s = .ok a t)
    (hstuck : Unfinished (K a k t)) : Unfinished ((R k >>= fun a => K a k) s) := by
  by_cases hend : Unfinished (R k s)
  · exact hend.bind
  · have hsame : R k s = .ok a t := by
      rcases Nat.le_total n k with hle | hle
      · have hnot : ¬Unfinished (R n s) := by
          rw [hok]
          exact nofun
        rw [h.steady hn hk hle hs hnot, hok]
      · rw [← h.steady hk hn hle hs hend, hok]
    rw [bind_of_ok hsame]
    exact hstuck

/-- Where the second readers come to a job behind the first ones, so do both in sequence. -/
theorem comes_of_ok {post : α → Prop} (h : realm.Traced bounds R post) {n : Nat} {s between t : σ}
    {a : α} {job : realm.Job} (hn : bounds n) (hs : realm.Inside s) (hok : R n s = .ok a between)
    (hcomes : realm.Comes bounds (K a) between job t) :
    realm.Comes bounds (fun n => R n >>= fun a => K a n) s job t := by
  obtain ⟨-, -, hmore⟩ := h.settles hn hs hok
  refine ⟨hcomes.has, hcomes.inside, realm.trans hmore hcomes.within, ?_, ?_⟩
  · intro k hk hstuck
    exact h.unfinished_bind hn hk hs hok (hcomes.awaits k hk hstuck)
  · intro u hu hinput hwithin
    obtain ⟨v, hsecond, hsame⟩ :=
      h.repeats hn hs hok hu hinput (realm.trans hcomes.within hwithin)
    obtain ⟨-, hv, hover⟩ := h.settles hn hu hsecond
    obtain ⟨w, hw, hlast, htold, hawaits⟩ := hcomes.again v hv hsame (realm.trans hwithin hover)
    refine ⟨w, hw, hlast, realm.trans hover htold, fun k hk hstuck => ?_⟩
    exact h.unfinished_bind hn hk hu hsecond (hawaits k hk hstuck)

/-- Traced readers in sequence are traced. -/
theorem bind {post : β → Prop} (h : realm.Traced bounds R mid)
    (hnext : ∀ a, mid a → realm.Traced bounds (K a) post) :
    realm.Traced bounds (fun n => R n >>= fun a => K a n) post where
  steady := by
    intro n m s hn hm hle hs hend
    have hfirst : ¬Unfinished (R n s) := fun hstuck => hend hstuck.bind
    have hsame := h.steady hn hm hle hs hfirst
    cases hok : R n s with
    | ok a t =>
      rw [hok] at hsame
      obtain ⟨ha, ht, -⟩ := h.settles hn hs hok
      have hsecond : ¬Unfinished (K a n t) := by
        rwa [bind_of_ok hok] at hend
      rw [bind_of_ok hok, bind_of_ok hsame]
      exact (hnext a ha).steady hn hm hle ht hsecond
    | error e t =>
      rw [hok] at hsame
      rw [bind_of_error hok, bind_of_error hsame]
  settles := by
    intro n s b t hn hs hok
    obtain ⟨a, between, hfirst, hsecond⟩ := exists_of_bind_ok hok
    obtain ⟨ha, hbetween, hmore⟩ := h.settles hn hs hfirst
    obtain ⟨hb, ht, hlast⟩ := (hnext a ha).settles hn hbetween hsecond
    exact ⟨hb, ht, realm.trans hmore hlast⟩
  repeats := by
    intro n s b t u hn hs hok hu hinput hwithin
    obtain ⟨a, between, hfirst, hsecond⟩ := exists_of_bind_ok hok
    obtain ⟨ha, hbetween, hmore⟩ := h.settles hn hs hfirst
    obtain ⟨-, -, hlast⟩ := (hnext a ha).settles hn hbetween hsecond
    obtain ⟨v, hagain, hsame⟩ := h.repeats hn hs hfirst hu hinput (realm.trans hlast hwithin)
    obtain ⟨-, hv, hover⟩ := h.settles hn hu hagain
    obtain ⟨w, hrest, hend⟩ :=
      (hnext a ha).repeats hn hbetween hsecond hv hsame (realm.trans hwithin hover)
    exact ⟨w, (bind_of_ok hagain).trans hrest, hend⟩
  waits := by
    intro n s hn hs hstuck
    rcases hstuck.of_bind with hfirst | ⟨a, t, hok, hsecond⟩
    · rcases h.waits hn hs hfirst with hnever | ⟨job, t, hjob, hcomes⟩
      · exact .inl fun k hk => (hnever k hk).bind
      · exact .inr ⟨job, t, hjob, comes_bind hcomes⟩
    · obtain ⟨ha, ht, -⟩ := h.settles hn hs hok
      rcases (hnext a ha).waits hn ht hsecond with hnever | ⟨job, u, hjob, hcomes⟩
      · exact .inl fun k hk => h.unfinished_bind hn hk hs hok (hnever k hk)
      · exact .inr ⟨job, u, hjob, h.comes_of_ok hn hs hok hcomes⟩

end Bind

/-- What is made of the results of traced readers is traced. -/
theorem map {R : Nat → EStateM Error σ α} {mid : α → Prop} (h : realm.Traced bounds R mid)
    (f : α → β) :
    realm.Traced bounds (fun n => do return f (← R n)) fun _ => True :=
  h.bind fun _ _ => pure trivial

end Traced

variable {realm bounds}

/-- The readers do the job: they end where it does, and not without a call. -/
structure Runs (realm : Realm σ) (job : realm.Job) (run : Nat → EStateM Error σ α) : Prop where
  /-- The job occurs. -/
  has : realm.Has job
  /-- The job does not end where the readers do not. -/
  stuck : ∀ n s, realm.Stuck job n s ↔ Unfinished (run n s)
  /-- Nothing ends without a call. -/
  zero : ∀ s, Unfinished (run 0 s)

namespace Runs

variable {job : realm.Job} {run : Nat → EStateM Error σ α} {post : α → Prop}
  (h : realm.Runs job run)
include h

/-- The readers that do a job wait for it. -/
theorem comes {s : σ} (hs : realm.Inside s) : realm.Comes bounds run s job s where
  has := h.has
  inside := hs
  within := realm.refl s
  awaits n _ hstuck := (h.stuck n s).mp hstuck
  again u hu hinput _ := ⟨u, hu, hinput, realm.refl u, fun n _ hstuck => (h.stuck n u).mp hstuck⟩

/-- Readers that do a job are traced with bounds up to a number if what they do in their first
call is traced with lower bounds. -/
theorem traced_succ {limit : Nat}
    (hbody : realm.Traced (· < limit) (fun n => run (n + 1)) post) :
    realm.Traced (· < limit + 1) run post where
  steady := by
    intro n m s hn hm hle hs hend
    cases n with
    | zero => exact absurd (h.zero s) hend
    | succ n =>
      cases m with
      | zero => omega
      | succ m =>
        exact hbody.steady (Nat.lt_of_succ_lt_succ hn) (Nat.lt_of_succ_lt_succ hm)
          (Nat.le_of_succ_le_succ hle) hs hend
  settles := by
    intro n s a t hn hs hok
    cases n with
    | zero =>
      obtain ⟨u, hu⟩ := h.zero s
      rw [hu] at hok
      cases hok
    | succ n => exact hbody.settles (Nat.lt_of_succ_lt_succ hn) hs hok
  repeats := by
    intro n s a t u hn hs hok hu hinput hwithin
    cases n with
    | zero =>
      obtain ⟨v, hv⟩ := h.zero s
      rw [hv] at hok
      cases hok
    | succ n => exact hbody.repeats (Nat.lt_of_succ_lt_succ hn) hs hok hu hinput hwithin
  waits {n s} _ hs hstuck := .inr ⟨job, s, (h.stuck n s).mpr hstuck, h.comes hs⟩

/-- Readers that do a job and are traced with bounds below every number are traced. -/
theorem traced (hall : ∀ limit, realm.Traced (· < limit) run post) :
    realm.Traced (fun _ => True) run post where
  steady {_ m _} _ _ hle hs hend :=
    (hall (m + 1)).steady (Nat.lt_succ_of_le hle) (Nat.lt_succ_self m) hle hs hend
  settles {n _ _ _} _ hs hok := (hall (n + 1)).settles (Nat.lt_succ_self n) hs hok
  repeats {n _ _ _ _} _ hs hok hu hinput hwithin :=
    (hall (n + 1)).repeats (Nat.lt_succ_self n) hs hok hu hinput hwithin
  waits {n s} _ hs hstuck := .inr ⟨job, s, (h.stuck n s).mpr hstuck, h.comes hs⟩

end Runs

/-- No bound is below zero. -/
theorem traced_lt_zero (run : Nat → EStateM Error σ α) (post : α → Prop) :
    realm.Traced (· < 0) run post where
  steady hn := absurd hn (Nat.not_lt_zero _)
  settles hn := absurd hn (Nat.not_lt_zero _)
  repeats hn := absurd hn (Nat.not_lt_zero _)
  waits hn := absurd hn (Nat.not_lt_zero _)

end Realm

end SchemaWire
