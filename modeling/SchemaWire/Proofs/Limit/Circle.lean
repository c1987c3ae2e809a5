import Mathlib.Data.List.Nodup
import Mathlib.Data.List.Perm.Subperm
import SchemaWire.Proofs.Limit.Realm

/-!
# Reading in a circle

A place is a job together with the bytes that are left. Readers that come by one place twice do
so for ever, because they are told more the second time and so do again what they did the first
time. Since there are finitely many places, readers that go deeper than there are places never
end, whatever their bound.
-/

namespace SchemaWire

namespace Realm

variable {σ : Type} (realm : Realm σ)

/-- So many calls below the first job the readers come to the second one, and they come to it
again wherever as much is told and the same bytes are left. -/
structure Leads (calls : Nat) (job : realm.Job) (s : σ) (next : realm.Job) (t : σ) : Prop where
  /-- The job occurs. -/
  has : realm.Has next
  /-- The state of the job occurs. -/
  inside : realm.Inside t
  /-- Coming to the job, the readers are told more. -/
  within : realm.Within s t
  /-- The first job does not end while the second one does not. -/
  stuck : ∀ n, realm.Stuck next n t → realm.Stuck job (n + calls) s
  /-- The readers come to the second job again. -/
  again : ∀ u, realm.Inside u → realm.input u = realm.input s → realm.Within t u →
    ∃ v, realm.Inside v ∧ realm.input v = realm.input t ∧ realm.Within u v ∧
      ∀ n, realm.Stuck next n v → realm.Stuck job (n + calls) u

/-- Jobs are done call by call: without a call none ends, with fewer calls none ends that does not
with more, and a job that does not end never does, or leads to another that does not. -/
structure Stepwise : Prop where
  /-- Nothing ends without a call. -/
  zero : ∀ {job s}, realm.Has job → realm.Stuck job 0 s
  /-- What does not end does not end with lower bounds. -/
  lower : ∀ {job s n m}, realm.Has job → realm.Inside s → n ≤ m → realm.Stuck job m s →
    realm.Stuck job n s
  /-- What does not end never does, or leads to what does not. -/
  step : ∀ {job s n}, realm.Has job → realm.Inside s → realm.Stuck job (n + 1) s →
    (∀ k, realm.Stuck job k s) ∨
      ∃ next t, realm.Stuck next n t ∧ realm.Leads 1 job s next t

/-- Readers do the job call by call. -/
structure Done (job : realm.Job) : Prop where
  /-- There are such readers, which are traced, and so is what they do in their first call. -/
  exists_runs : ∃ (α : Type) (run : Nat → EStateM Error σ α) (post : α → Prop),
    realm.Runs job run ∧ realm.Traced (fun _ => True) run post ∧
      realm.Traced (fun _ => True) (fun n => run (n + 1)) post

variable {realm}

/-- Where readers do every job, jobs are done call by call. -/
theorem stepwise_of_done (h : ∀ job, realm.Has job → realm.Done job) : realm.Stepwise where
  zero {job s} hjob := by
    obtain ⟨α, run, post, hruns, -, -⟩ := (h job hjob).exists_runs
    exact (hruns.stuck 0 s).mpr (hruns.zero s)
  lower {job s n m} hjob hs hle hstuck := by
    obtain ⟨α, run, post, hruns, htraced, -⟩ := (h job hjob).exists_runs
    refine (hruns.stuck n s).mpr (by_contra fun hend => ?_)
    have hsame := htraced.steady trivial trivial hle hs hend
    exact hend (hsame ▸ (hruns.stuck m s).mp hstuck)
  step {job s n} hjob hs hstuck := by
    obtain ⟨α, run, post, hruns, -, hbody⟩ := (h job hjob).exists_runs
    rcases hbody.waits trivial hs ((hruns.stuck (n + 1) s).mp hstuck) with
      hnever | ⟨next, t, hnext, hcomes⟩
    · refine .inl fun k => ?_
      cases k with
      | zero => exact (hruns.stuck 0 s).mpr (hruns.zero s)
      | succ k => exact (hruns.stuck (k + 1) s).mpr (hnever k trivial)
    · refine .inr ⟨next, t, hnext, hcomes.has, hcomes.inside, hcomes.within, ?_, ?_⟩
      · exact fun k hk => (hruns.stuck (k + 1) s).mpr (hcomes.awaits k trivial hk)
      · intro u hu hinput hwithin
        obtain ⟨v, hv, hsame, hmore, hawaits⟩ := hcomes.again u hu hinput hwithin
        exact ⟨v, hv, hsame, hmore, fun k hk =>
          (hruns.stuck (k + 1) u).mpr (hawaits k trivial hk)⟩

/-- What leads from a first job to a second one and from there to a third one leads from the
first to the third. -/
theorem Leads.trans {a b : Nat} {job next last : realm.Job} {s t u : σ}
    (h : realm.Leads a job s next t) (hnext : realm.Leads b next t last u) :
    realm.Leads (a + b) job s last u where
  has := hnext.has
  inside := hnext.inside
  within := realm.trans h.within hnext.within
  stuck n hstuck := by
    have hmiddle := h.stuck _ (hnext.stuck n hstuck)
    rwa [Nat.add_assoc, Nat.add_comm b a] at hmiddle
  again w hw hinput hwithin := by
    obtain ⟨v, hv, hsame, hmore, hfirst⟩ :=
      h.again w hw hinput (realm.trans hnext.within hwithin)
    obtain ⟨x, hx, hlast, hover, hsecond⟩ := hnext.again v hv hsame (realm.trans hwithin hmore)
    refine ⟨x, hx, hlast, realm.trans hmore hover, fun n hstuck => ?_⟩
    have hmiddle := hfirst _ (hsecond n hstuck)
    rwa [Nat.add_assoc, Nat.add_comm b a] at hmiddle

namespace Stepwise

variable (h : realm.Stepwise)
include h

/-- A circle is gone round as often as one likes, so no bound is high enough for it. -/
theorem stuck_of_circle {calls : Nat} {job : realm.Job} {s t : σ} (hjob : realm.Has job)
    (hcircle : realm.Leads (calls + 1) job s job t) (hinput : realm.input t = realm.input s)
    (n : Nat) : realm.Stuck job n t := by
  have hround (rounds : Nat) : ∀ u, realm.Inside u → realm.input u = realm.input s →
      realm.Within t u → realm.Stuck job (rounds * (calls + 1)) u := by
    induction rounds with
    | zero =>
      intro u _ _ _
      rw [Nat.zero_mul]
      exact h.zero hjob
    | succ rounds ih =>
      intro u hu hsame hwithin
      obtain ⟨v, hv, hback, hmore, hstuck⟩ := hcircle.again u hu hsame hwithin
      have hrest := ih v hv (hback.trans hinput) (realm.trans hwithin hmore)
      rw [Nat.succ_mul]
      exact hstuck _ hrest
  have hlong := hround n t hcircle.inside hinput (realm.refl t)
  exact h.lower hjob hcircle.inside (Nat.le_mul_of_pos_right n (Nat.succ_pos calls)) hlong

section Places

variable {places : List (realm.Job × List UInt8)}
  (hplaces : ∀ job s, realm.Has job → realm.Inside s → (job, realm.input s) ∈ places)
include hplaces

/-- A job that is stuck with so many calls that the places on the way and the calls together are
more than there are places is stuck for ever. The list holds the way to the job, and no place
stands in it twice: a second visit closes a circle. -/
theorem stuck_of_way (n : Nat) : ∀ (way : List (realm.Job × σ)) {job : realm.Job} {s : σ},
    realm.Has job → realm.Inside s →
    (∀ stop ∈ way, realm.Has stop.1 ∧ realm.Inside stop.2 ∧
      ∃ calls, realm.Leads (calls + 1) stop.1 stop.2 job s) →
    (way.map fun stop => (stop.1, realm.input stop.2)).Nodup →
    places.length ≤ n + way.length → realm.Stuck job n s → ∀ k, realm.Stuck job k s := by
  induction n with
  | zero =>
    intro way job s hjob hs hway hnodup hlength _ k
    by_cases hmem : (job, realm.input s) ∈ way.map fun stop => (stop.1, realm.input stop.2)
    · obtain ⟨⟨stop, t⟩, hstop, hsame⟩ := List.mem_map.mp hmem
      obtain ⟨rfl, hinput⟩ := Prod.mk.inj hsame
      obtain ⟨-, -, calls, hleads⟩ := hway (stop, t) hstop
      exact h.stuck_of_circle hjob hleads hinput.symm k
    · have hnodup' := List.nodup_cons.mpr ⟨hmem, hnodup⟩
      have hsubset : (job, realm.input s) :: way.map (fun stop => (stop.1, realm.input stop.2)) ⊆
          places := by
        refine List.cons_subset.mpr ⟨hplaces job s hjob hs, fun place hplace => ?_⟩
        obtain ⟨stop, hstop, rfl⟩ := List.mem_map.mp hplace
        obtain ⟨hhas, hinside, -⟩ := hway stop hstop
        exact hplaces stop.1 stop.2 hhas hinside
      have hle := (List.subperm_of_subset hnodup' hsubset).length_le
      rw [List.length_cons, List.length_map] at hle
      omega
  | succ n ih =>
    intro way job s hjob hs hway hnodup hlength hstuck k
    by_cases hmem : (job, realm.input s) ∈ way.map fun stop => (stop.1, realm.input stop.2)
    · obtain ⟨⟨stop, t⟩, hstop, hsame⟩ := List.mem_map.mp hmem
      obtain ⟨rfl, hinput⟩ := Prod.mk.inj hsame
      obtain ⟨-, -, calls, hleads⟩ := hway (stop, t) hstop
      exact h.stuck_of_circle hjob hleads hinput.symm k
    · rcases h.step hjob hs hstuck with hnever | ⟨next, t, hrest, hleads⟩
      · exact hnever k
      · have hlonger : ∀ stop ∈ (job, s) :: way, realm.Has stop.1 ∧ realm.Inside stop.2 ∧
            ∃ calls, realm.Leads (calls + 1) stop.1 stop.2 next t := by
          intro stop hstop
          rcases List.mem_cons.mp hstop with rfl | hstop
          · exact ⟨hjob, hs, 0, hleads⟩
          · obtain ⟨hhas, hinside, calls, hbefore⟩ := hway stop hstop
            exact ⟨hhas, hinside, calls + 1, hbefore.trans hleads⟩
        have hnever := ih ((job, s) :: way) hleads.has hleads.inside hlonger
          (List.nodup_cons.mpr ⟨hmem, hnodup⟩) (by rw [List.length_cons]; omega) hrest
        exact h.lower hjob hs (Nat.le_succ k) (hleads.stuck k (hnever k))

/-- A job that is stuck with as many calls as there are places is stuck for ever. -/
theorem stuck_of_length_le {job : realm.Job} {s : σ} (hjob : realm.Has job)
    (hs : realm.Inside s) {n : Nat} (hlength : places.length ≤ n) (hstuck : realm.Stuck job n s)
    (k : Nat) : realm.Stuck job k s :=
  h.stuck_of_way hplaces n [] hjob hs nofun List.nodup_nil hlength hstuck k

/-- Readers that do not end with as many calls as there are places never end. -/
theorem unfinished_of_length_le {α : Type} {R : Nat → EStateM Error σ α} {post : α → Prop}
    (hR : realm.Traced (fun _ => True) R post) {s : σ} (hs : realm.Inside s) {n : Nat}
    (hlength : places.length ≤ n) (hstuck : Unfinished (R n s)) (k : Nat) :
    Unfinished (R k s) := by
  rcases hR.waits trivial hs hstuck with hnever | ⟨job, t, hjob, hcomes⟩
  · exact hnever k trivial
  · exact hcomes.awaits k trivial
      (h.stuck_of_length_le hplaces hcomes.has hcomes.inside hlength hjob k)

end Places

end Stepwise

end Realm

end SchemaWire
