import MsmKernel.CoreCtl.Selection

/-! `try_to_pause` leaves between `need` and `max_cpus` CPUs active, unless a forced pass meets CPUs
again that an earlier pass has taken. -/
namespace MsmKernel.CoreCtl
open Halt TailMoves List
variable {n : Nat} {s : State n} {cluster : ClusterData n} {need : Nat}
variable {pauseCpus partPauseCpus : Finset (Fin n)}

def State.notPreferred (s : State n) (c : Fin n) : Bool := (s.cpuState c).notPreferred

/-- The counters of the cluster are those of its list, and no disabled CPU is active. -/
structure Counted (s : State n) (cluster : ClusterData n) : Prop where
  nodup : cluster.lru.Nodup
  numCpus : cluster.numCpus = cluster.lru.length
  activeCpus : cluster.activeCpus = cluster.lru.countP s.isActive
  nrNotPreferredCpus : cluster.nrNotPreferredCpus = cluster.lru.countP s.notPreferred
  disabled : ∀ c ∈ cluster.lru, (s.cpuState c).disabled = true → s.isActive c = false

/-- The CPUs still active once those in the two masks are paused lie within the limits, and no CPU
is in both masks. -/
def PausesWithinLimits (s : State n) (cluster : ClusterData n) (need : Nat)
    (pauseCpus partPauseCpus : Finset (Fin n)) : Prop :=
  let y := (tryToPause s cluster need pauseCpus partPauseCpus).2
  let left := cluster.lru.countP fun c => s.isActive c && decide (c ∉ y.1 ∪ y.2)
  left ≤ cluster.maxCpus ∧ need ≤ left ∧ Disjoint y.1 y.2

instance (s : State n) (cluster : ClusterData n) (need : Nat)
    (pauseCpus partPauseCpus : Finset (Fin n)) :
    Decidable (PausesWithinLimits s cluster need pauseCpus partPauseCpus) :=
  inferInstanceAs (Decidable (_ ∧ _ ∧ _))

theorem tryToPartialPause_masks (s : State n) (cluster : ClusterData n) (lru : List (Fin n))
    (hdis : Disjoint pauseCpus partPauseCpus) :
    let y := (tryToPartialPause s cluster lru pauseCpus partPauseCpus).2
    y.1 ∪ y.2 = pauseCpus ∪ partPauseCpus ∧ Disjoint y.1 y.2 := by
  unfold tryToPartialPause
  simp only
  split
  · exact ⟨rfl, hdis⟩
  · refine walk_invariant (I := fun x : Finset (Fin n) × Finset (Fin n) × Int =>
      x.1 ∪ x.2.1 = pauseCpus ∪ partPauseCpus ∧ Disjoint x.1 x.2.1) (fun x c t hx hvisit => ?_) _ _ _ _ ⟨rfl, hdis⟩
    unfold partialPauseVisit at hvisit
    split_ifs at hvisit with hnum hmem hpart
    obtain rfl := Visit.move.inj hvisit
    refine ⟨?_, ?_⟩
    · rw [← hx.1, Finset.union_insert, ← Finset.insert_union, Finset.insert_erase hmem]
    · rw [Finset.disjoint_insert_right]
      exact ⟨Finset.notMem_erase c x.1, hx.2.mono_left (Finset.erase_subset c x.1)⟩

def pausable (s : State n) (cluster : ClusterData n) (c : Fin n) : Bool :=
  !(s.cpuState c).disabled && s.isActive c && !(s.cpuState c).isBusy &&
    (cluster.nrNotPreferredCpus = 0 || s.notPreferred c)

def forcible (s : State n) (firstPass : Bool) (c : Fin n) : Bool :=
  !(s.cpuState c).disabled && s.isActive c && (!firstPass || s.notPreferred c)

theorem pauseVisit_selects (hneed : need ≤ cluster.activeCpus) :
    Selects (pauseVisit s cluster need) (pausable s cluster) (cluster.activeCpus - need) where
  take mask k c hk hq := by
    have hne : cluster.activeCpus - k ≠ need := by omega
    simp only [pausable, State.notPreferred, Bool.and_eq_true, Bool.not_eq_true', Bool.or_eq_true,
      decide_eq_true_eq] at hq
    obtain ⟨⟨⟨hdis, hact⟩, hbusy⟩, hpref⟩ := hq
    rcases hpref with hnr | hpref
    · simp [pauseVisit, hdis, hact, hne, hbusy, hnr]
    · simp [pauseVisit, hdis, hact, hne, hbusy, hpref]
  pass mask k c hk hq := by
    have hne : cluster.activeCpus - k ≠ need := by omega
    simp only [pauseVisit, hne, if_false]
    all_goals first | rfl | simp_all [pausable, State.notPreferred]
  full mask c := by
    have heq : cluster.activeCpus - (cluster.activeCpus - need) = need := by omega
    simp only [pauseVisit, heq, if_true]
    split_ifs <;> simp

theorem forceVisit_selects (firstPass : Bool) :
    Selects (forceVisit s cluster firstPass) (forcible s firstPass)
      (cluster.activeCpus - cluster.maxCpus) where
  take mask k c hk hq := by
    have hmore : ¬ cluster.activeCpus - k ≤ cluster.maxCpus := by omega
    simp only [forcible, State.notPreferred, Bool.and_eq_true, Bool.not_eq_true', Bool.or_eq_true]
      at hq
    obtain ⟨⟨hdis, hact⟩, hpref⟩ := hq
    rcases hpref with hfirst | hpref
    · simp [forceVisit, hdis, hact, hmore, hfirst]
    · simp [forceVisit, hdis, hact, hmore, hpref]
  pass mask k c hk hq := by
    have hmore : ¬ cluster.activeCpus - k ≤ cluster.maxCpus := by omega
    simp only [forceVisit, hmore, if_false]
    all_goals first | rfl | simp_all [forcible, State.notPreferred]
  full mask c := by
    have hless : cluster.activeCpus - (cluster.activeCpus - cluster.maxCpus) ≤ cluster.maxCpus := by
      omega
    simp only [forceVisit, hless, if_true]
    split_ifs <;> simp

theorem force_pass (firstPass : Bool) (mask : Finset (Fin n)) {l : List (Fin n)} {k : Nat}
    (hlen : cluster.numCpus = l.length) (hl : l.Nodup)
    (hmore : ¬ cluster.activeCpus - k ≤ cluster.maxCpus) :
    let S := chosen (forcible s firstPass) (cluster.activeCpus - cluster.maxCpus) k l
    forcePause s cluster firstPass (l, mask, k) =
      (movedBehind S l, mask ∪ S.toFinset, k + S.length) := by
  simp only [forcePause, hmore, if_false]
  rw [hlen, walk_selects (forceVisit_selects firstPass) (by omega) hl]

theorem left_eq (hC : Counted s cluster) {T : Finset (Fin n)}
    (hT : ∀ c ∈ T, c ∈ cluster.lru ∧ s.isActive c = true)
    (hout : ∀ c ∈ cluster.lru, c ∉ pauseCpus ∧ c ∉ partPauseCpus) :
    (cluster.lru.countP fun c => s.isActive c && decide (c ∉ pauseCpus ∪ T ∪ partPauseCpus)) =
      cluster.activeCpus - T.card := by
  have hcongr : (cluster.lru.filter fun c =>
      s.isActive c && decide (c ∉ pauseCpus ∪ T ∪ partPauseCpus)) =
      (cluster.lru.filter s.isActive).filter fun c => c ∉ T := by
    rw [filter_filter]
    refine filter_congr fun c hc => ?_
    simp [hout c hc, Bool.and_comm]
  have hsub : T ⊆ (cluster.lru.filter s.isActive).toFinset := by
    intro c hc
    simpa using hT c hc
  have hnodup := hC.nodup.filter s.isActive
  rw [countP_eq_length_filter, hcongr, hC.activeCpus, countP_eq_length_filter,
    ← toFinset_card_of_nodup (hnodup.filter _), ← toFinset_card_of_nodup hnodup,
    ← Finset.card_sdiff_of_subset hsub]
  congr 1
  ext c
  simp only [mem_toFinset, mem_filter, Finset.mem_sdiff, decide_eq_true_eq]

/-- Few enough preferred CPUs are active, or the first pass finds nothing to take among the CPUs that
are not preferred. -/
def NoRecount (s : State n) (cluster : ClusterData n) : Prop :=
  cluster.lru.countP (fun c => s.isActive c && !s.notPreferred c) ≤ cluster.maxCpus ∨
    ∀ c ∈ cluster.lru, s.isActive c = true → s.notPreferred c = true → (s.cpuState c).isBusy = true

instance (s : State n) (cluster : ClusterData n) : Decidable (NoRecount s cluster) :=
  inferInstanceAs (Decidable (_ ∨ _))

section Counts
variable (hC : Counted s cluster)
include hC

theorem not_disabled {c : Fin n} (hc : c ∈ cluster.lru) (hact : s.isActive c = true) :
    (s.cpuState c).disabled = false := by
  cases hdis : (s.cpuState c).disabled with
  | false => rfl
  | true => rw [hC.disabled c hc hdis] at hact; exact absurd hact (by simp)

theorem length_forcible_all : (cluster.lru.filter (forcible s false)).length = cluster.activeCpus := by
  rw [hC.activeCpus, countP_eq_length_filter]
  congr 1
  refine filter_congr fun c hc => ?_
  cases hact : s.isActive c with
  | false => simp [forcible, hact]
  | true => simp [forcible, hact, not_disabled hC hc hact]

theorem length_forcible_first : (cluster.lru.filter (forcible s true)).length +
    cluster.lru.countP (fun c => s.isActive c && !s.notPreferred c) = cluster.activeCpus := by
  have hsplit : ∀ l : List (Fin n), (∀ c ∈ l, c ∈ cluster.lru) →
      (l.filter (forcible s true)).length +
        l.countP (fun c => s.isActive c && !s.notPreferred c) = l.countP s.isActive := by
    intro l hl
    induction l with
    | nil => rfl
    | cons c l ih =>
      have hrest := ih fun d hd => hl d (mem_cons_of_mem c hd)
      cases hact : s.isActive c with
      | false => simpa [forcible, hact] using hrest
      | true =>
        have hdis := not_disabled hC (hl c (mem_cons_self ..)) hact
        cases hpref : s.notPreferred c with
        | false =>
          simp [forcible, hact, hdis, hpref]
          omega
        | true =>
          simp [forcible, hact, hdis, hpref]
          omega
  rw [hC.activeCpus]
  exact hsplit cluster.lru fun c hc => hc

theorem notPreferred_eq_false (hnr : cluster.nrNotPreferredCpus = 0) {c : Fin n}
    (hc : c ∈ cluster.lru) : s.notPreferred c = false := by
  have hnone := hC.nrNotPreferredCpus.symm.trans hnr
  rw [countP_eq_zero] at hnone
  simpa using hnone c hc

end Counts

def firstPick (s : State n) (cluster : ClusterData n) (need : Nat) : List (Fin n) :=
  chosen (pausable s cluster) (cluster.activeCpus - need) 0 cluster.lru

def notPreferredFirst (cluster : ClusterData n) : Bool := cluster.nrNotPreferredCpus ≠ 0

/-- What the passes have to deliver: a set `T` of active CPUs that is large enough exactly when no
CPU was counted twice. -/
def Picks (s : State n) (cluster : ClusterData n) (need : Nat) (T : Finset (Fin n)) : Prop :=
  (∀ c ∈ T, c ∈ cluster.lru ∧ s.isActive c = true) ∧ T.card ≤ cluster.activeCpus - need ∧
    (cluster.activeCpus - T.card ≤ cluster.maxCpus ↔ NoRecount s cluster)

section Passes
variable (hC : Counted s cluster)

theorem firstPick_mem {c : Fin n} (hc : c ∈ firstPick s cluster need) :
    c ∈ cluster.lru ∧ forcible s (notPreferredFirst cluster) c = true ∧
      pausable s cluster c = true := by
  obtain ⟨hmem, hq⟩ := mem_of_mem_chosen hc
  refine ⟨hmem, ?_, hq⟩
  simp only [pausable, Bool.and_eq_true, Bool.or_eq_true, decide_eq_true_eq] at hq
  obtain ⟨⟨⟨hdis, hact⟩, -⟩, hpref⟩ := hq
  rcases hpref with hnr | hpref
  · simp [forcible, notPreferredFirst, hnr, hact, hdis]
  · simp [forcible, hact, hdis, hpref]

theorem forcible_isActive {firstPass : Bool} {c : Fin n} (h : forcible s firstPass c = true) :
    s.isActive c = true := by
  simp only [forcible, Bool.and_eq_true] at h
  exact h.1.2

theorem firstPick_eq (hmax : need ≤ cluster.maxCpus)
    (hmore : ¬ cluster.activeCpus - (firstPick s cluster need).length ≤ cluster.maxCpus) :
    firstPick s cluster need = cluster.lru.filter (pausable s cluster) := by
  have hpick : (firstPick s cluster need).length =
      min (cluster.activeCpus - need - 0) (cluster.lru.filter (pausable s cluster)).length :=
    length_chosen 0 cluster.lru
  rw [firstPick, chosen, take_of_length_le]
  omega

include hC

theorem firstPick_nodup (need : Nat) : (firstPick s cluster need).Nodup := chosen_nodup hC.nodup

theorem passes_eq (hneed : need ≤ cluster.activeCpus) {y : List (Fin n) × Picked n}
    (hy : forcePause s cluster (notPreferredFirst cluster)
      (movedBehind (firstPick s cluster need) cluster.lru,
        pauseCpus ∪ (firstPick s cluster need).toFinset, (firstPick s cluster need).length) = y) :
    pausePasses s cluster need pauseCpus =
      if notPreferredFirst cluster && cluster.activeCpus - y.2.2 > cluster.maxCpus then
        forcePause s cluster false y else y := by
  unfold pausePasses
  simp only [hC.numCpus, walk_selects (pauseVisit_selects hneed) (Nat.zero_le _) hC.nodup,
    Nat.zero_add]
  rw [← hy]
  rfl

theorem firstPick_length_le (need : Nat) : (firstPick s cluster need).length ≤
    (cluster.lru.filter (forcible s (notPreferredFirst cluster))).length := by
  have hlen := length_filter_outside (q := forcible s (notPreferredFirst cluster)) hC.nodup
    (firstPick_nodup hC need)
    fun c hc => ⟨(firstPick_mem hc).1, (firstPick_mem hc).2.1⟩
  omega

theorem notPreferredFirst_of_mem {c : Fin n} (hc : c ∈ cluster.lru)
    (hnot : s.notPreferred c = true) : notPreferredFirst cluster = true := by
  have hpos : 0 < cluster.nrNotPreferredCpus := by
    rw [hC.nrNotPreferredCpus, countP_pos_iff]
    exact ⟨c, hc, hnot⟩
  simp only [notPreferredFirst, decide_eq_true_eq]
  omega

theorem picks_first (hneed : need ≤ cluster.activeCpus)
    (hless : cluster.activeCpus - (firstPick s cluster need).length ≤ cluster.maxCpus) :
    ∃ T, (pausePasses s cluster need pauseCpus).2.1 = pauseCpus ∪ T ∧ Picks s cluster need T := by
  have hcard := toFinset_card_of_nodup (firstPick_nodup hC need)
  refine ⟨(firstPick s cluster need).toFinset, ?_, fun c hc => ?_, ?_, ?_⟩
  · rw [passes_eq hC hneed (if_pos hless)]
    simp [Nat.not_lt.mpr hless]
  · have hmem := firstPick_mem (mem_toFinset.mp hc)
    exact ⟨hmem.1, forcible_isActive hmem.2.1⟩
  · rw [hcard, firstPick, length_chosen]
    omega
  · rw [hcard]
    refine iff_of_true hless ?_
    by_contra hcond
    simp only [NoRecount, not_or, Nat.not_le, not_forall] at hcond
    obtain ⟨hpref, c, hc, hact, hnot, hbusy⟩ := hcond
    have hle := firstPick_length_le hC need
    have hsum := length_forcible_first hC
    rw [notPreferredFirst_of_mem hC hc hnot] at hle
    omega

/-- A forced pass that finds enough CPUs the earlier ones have left: each is new. -/
theorem fresh_pass (firstPass : Bool) (mask : Finset (Fin n)) {S : List (Fin n)} (hS : S.Nodup)
    (hsub : ∀ c ∈ S, c ∈ cluster.lru ∧ forcible s firstPass c = true)
    (hmore : ¬ cluster.activeCpus - S.length ≤ cluster.maxCpus)
    (henough : cluster.activeCpus - cluster.maxCpus ≤
      (cluster.lru.filter (forcible s firstPass)).length) :
    ∃ l T, forcePause s cluster firstPass (movedBehind S cluster.lru, mask ∪ S.toFinset, S.length) =
        (l, mask ∪ T, cluster.activeCpus - cluster.maxCpus) ∧
      (∀ c ∈ T, c ∈ cluster.lru ∧ s.isActive c = true) ∧
      T.card = cluster.activeCpus - cluster.maxCpus := by
  have hperm := movedBehind_perm hC.nodup hS fun c hc => (hsub c hc).1
  obtain ⟨hcard, hlen⟩ := card_union_chosen (m := cluster.activeCpus - cluster.maxCpus)
    (k := S.length) hC.nodup hS hsub (by omega)
  have hforce := force_pass (s := s) firstPass (mask ∪ S.toFinset) (hC.numCpus.trans hperm.length_eq.symm)
    (hperm.nodup_iff.mpr hC.nodup) hmore
  simp only [hlen, Finset.union_assoc, Nat.add_sub_cancel' (show S.length ≤
    cluster.activeCpus - cluster.maxCpus by omega)] at hforce
  refine ⟨_, _, hforce, fun c hc => ?_, hcard.trans (by omega)⟩
  · rcases Finset.mem_union.mp hc with hc | hc
    · have hmem := hsub c (mem_toFinset.mp hc)
      exact ⟨hmem.1, forcible_isActive hmem.2⟩
    · obtain ⟨hmem, hq⟩ := mem_of_mem_chosen (mem_toFinset.mp hc)
      exact ⟨hperm.mem_iff.mp hmem, forcible_isActive hq⟩

section
variable (hneed : need ≤ cluster.activeCpus) (hmax : need ≤ cluster.maxCpus)
include hneed hmax

/-- The forced pass finds enough CPUs that the first one has left. -/
theorem picks_second
    (hmore : ¬ cluster.activeCpus - (firstPick s cluster need).length ≤ cluster.maxCpus)
    (henough : cluster.activeCpus - cluster.maxCpus ≤ (cluster.lru.filter (forcible s (notPreferredFirst cluster))).length)
    (hcond : NoRecount s cluster) :
    ∃ T, (pausePasses s cluster need pauseCpus).2.1 = pauseCpus ∪ T ∧ Picks s cluster need T := by
  obtain ⟨l, T, hforce, hT, hcard⟩ := fresh_pass hC (notPreferredFirst cluster) pauseCpus
    (firstPick_nodup hC need) (fun c hc => ⟨(firstPick_mem hc).1, (firstPick_mem hc).2.1⟩) hmore
    henough
  have hdone : ¬ cluster.activeCpus - (cluster.activeCpus - cluster.maxCpus) > cluster.maxCpus := by
    omega
  refine ⟨T, ?_, hT, by omega, iff_of_true (by omega) hcond⟩
  rw [passes_eq hC hneed hforce]
  simp only [hdone, decide_false, Bool.and_false, Bool.false_eq_true, if_false]

/-- All active CPUs that are not preferred are busy and taken by the forced pass; the last pass
takes preferred ones. -/
theorem picks_third (hfirst : notPreferredFirst cluster = true)
    (hnil : firstPick s cluster need = [])
    (hless : (cluster.lru.filter (forcible s true)).length < cluster.activeCpus - cluster.maxCpus)
    (hcond : NoRecount s cluster) :
    ∃ T, (pausePasses s cluster need pauseCpus).2.1 = pauseCpus ∪ T ∧ Picks s cluster need T := by
  have hmore : ¬ cluster.activeCpus - 0 ≤ cluster.maxCpus := by omega
  have hall : chosen (forcible s true) (cluster.activeCpus - cluster.maxCpus) 0 cluster.lru =
      cluster.lru.filter (forcible s true) := by
    rw [chosen, take_of_length_le (by omega)]
  have hsecond := force_pass (s := s) true pauseCpus hC.numCpus hC.nodup hmore
  simp only [hall, Nat.zero_add] at hsecond
  have hleft : ¬ cluster.activeCpus - (cluster.lru.filter (forcible s true)).length ≤
      cluster.maxCpus := by omega
  have hsub : ∀ c ∈ cluster.lru.filter (forcible s true), c ∈ cluster.lru ∧
      forcible s false c = true := by
    intro c hc
    obtain ⟨hmem, hq⟩ := mem_filter.mp hc
    simp only [forcible, Bool.and_eq_true] at hq ⊢
    exact ⟨hmem, hq.1, rfl⟩
  obtain ⟨l, T, hthird, hT, hcard⟩ := fresh_pass hC false pauseCpus
    (hC.nodup.filter (forcible s true)) hsub hleft (by rw [length_forcible_all hC]; omega)
  refine ⟨T, ?_, hT, by omega, iff_of_true (by omega) hcond⟩
  have hstart : forcePause s cluster (notPreferredFirst cluster)
      (movedBehind (firstPick s cluster need) cluster.lru,
        pauseCpus ∪ (firstPick s cluster need).toFinset, (firstPick s cluster need).length) =
      (movedBehind (cluster.lru.filter (forcible s true)) cluster.lru,
        pauseCpus ∪ (cluster.lru.filter (forcible s true)).toFinset,
        (cluster.lru.filter (forcible s true)).length) := by
    simpa [hnil, hfirst, movedBehind] using hsecond
  have hmoreLeft : cluster.activeCpus - (cluster.lru.filter (forcible s true)).length >
      cluster.maxCpus := by omega
  rw [passes_eq hC hneed hstart, hfirst, if_pos (by simp only [hmoreLeft, decide_true, Bool.and_self]),
    hthird]

end

/-- What a forced pass adds to the passes before it, wherever they left the list. -/
theorem forcePause_spec (firstPass : Bool) (mask : Finset (Fin n)) {l : List (Fin n)} {k : Nat}
    (hperm : l.Perm cluster.lru) (hmore : ¬ cluster.activeCpus - k ≤ cluster.maxCpus) :
    ∃ (l' S : List (Fin n)), forcePause s cluster firstPass (l, mask, k) =
        (l', mask ∪ S.toFinset, k + S.length) ∧ l'.Perm cluster.lru ∧
      (∀ c ∈ S, c ∈ cluster.lru ∧ forcible s firstPass c = true) ∧
      S.length = min (cluster.activeCpus - cluster.maxCpus - k)
        (cluster.lru.filter (forcible s firstPass)).length := by
  have hnodup := hperm.nodup_iff.mpr hC.nodup
  refine ⟨_, _, force_pass firstPass mask (hC.numCpus.trans hperm.length_eq.symm) hnodup hmore, ?_,
    fun c hc => ⟨hperm.mem_iff.mp (mem_of_mem_chosen hc).1, (mem_of_mem_chosen hc).2⟩, ?_⟩
  · exact (movedBehind_perm hnodup (chosen_nodup hnodup) fun c hc => (mem_of_mem_chosen hc).1).trans
      hperm
  · rw [length_chosen, (hperm.filter _).length_eq]

/-- The forced pass runs out of CPUs and counts some of the first pass again. -/
theorem picks_recounted (hneed : need ≤ cluster.activeCpus) (hmax : need ≤ cluster.maxCpus)
    (hfirst : notPreferredFirst cluster = true) (hne : firstPick s cluster need ≠ [])
    (hmore : ¬ cluster.activeCpus - (firstPick s cluster need).length ≤ cluster.maxCpus)
    (hless : (cluster.lru.filter (forcible s true)).length < cluster.activeCpus - cluster.maxCpus)
    (hcond : ¬ NoRecount s cluster) :
    ∃ T, (pausePasses s cluster need pauseCpus).2.1 = pauseCpus ∪ T ∧ Picks s cluster need T := by
  have hpos : 0 < (firstPick s cluster need).length := length_pos_iff.mpr hne
  have hsub : ∀ c ∈ firstPick s cluster need, c ∈ cluster.lru ∧ forcible s true c = true :=
    fun c hc => ⟨(firstPick_mem hc).1, hfirst ▸ (firstPick_mem hc).2.1⟩
  obtain ⟨l, S, hforce, hperm, hpicked, hlength⟩ := forcePause_spec hC (s := s) true
    (pauseCpus ∪ (firstPick s cluster need).toFinset)
    (movedBehind_perm hC.nodup (firstPick_nodup hC need) fun c hc => (hsub c hc).1) hmore
  have hsubset : (firstPick s cluster need).toFinset ∪ S.toFinset ⊆
      (cluster.lru.filter (forcible s true)).toFinset := by
    intro c hc
    simp only [Finset.mem_union, mem_toFinset] at hc
    simpa using hc.elim (hsub c) (hpicked c)
  have hcard : ((firstPick s cluster need).toFinset ∪ S.toFinset).card ≤
      (cluster.lru.filter (forcible s true)).length :=
    (Finset.card_le_card hsubset).trans_eq (toFinset_card_of_nodup (hC.nodup.filter _))
  have hactive : ∀ c ∈ (firstPick s cluster need).toFinset ∪ S.toFinset,
      c ∈ cluster.lru ∧ s.isActive c = true := by
    intro c hc
    have hmem := mem_filter.mp (mem_toFinset.mp (hsubset hc))
    exact ⟨hmem.1, forcible_isActive hmem.2⟩
  rw [← hfirst] at hforce
  have hpasses := passes_eq hC hneed hforce
  simp only [hfirst, Bool.true_and, decide_eq_true_eq] at hpasses
  by_cases hagain : cluster.activeCpus - ((firstPick s cluster need).length + S.length) >
      cluster.maxCpus
  · obtain ⟨l', S', hthird, -, hthirdMem, hthirdLength⟩ := forcePause_spec hC (s := s) false
      (pauseCpus ∪ (firstPick s cluster need).toFinset ∪ S.toFinset) hperm (Nat.not_le.mpr hagain)
    rw [if_pos hagain, hthird] at hpasses
    have hcard' : ((firstPick s cluster need).toFinset ∪ S.toFinset ∪ S'.toFinset).card ≤
        (cluster.lru.filter (forcible s true)).length + S'.length :=
      (Finset.card_union_le _ _).trans (Nat.add_le_add hcard (toFinset_card_le S'))
    refine ⟨(firstPick s cluster need).toFinset ∪ S.toFinset ∪ S'.toFinset, ?_, fun c hc => ?_,
      by omega, iff_of_false (by omega) hcond⟩
    · rw [hpasses]
      simp only [Finset.union_assoc]
    · rcases Finset.mem_union.mp hc with hc | hc
      · exact hactive c hc
      · obtain ⟨hmem, hq⟩ := hthirdMem c (mem_toFinset.mp hc)
        exact ⟨hmem, forcible_isActive hq⟩
  · rw [if_neg hagain] at hpasses
    refine ⟨_, by rw [hpasses]; exact Finset.union_assoc _ _ _, hactive, by omega, ?_⟩
    exact iff_of_false (by omega) hcond

theorem pausePasses_picks (pauseCpus : Finset (Fin n)) (hneed : need ≤ cluster.activeCpus)
    (hmax : need ≤ cluster.maxCpus) :
    ∃ T, (pausePasses s cluster need pauseCpus).2.1 = pauseCpus ∪ T ∧ Picks s cluster need T := by
  by_cases hless : cluster.activeCpus - (firstPick s cluster need).length ≤ cluster.maxCpus
  · exact picks_first hC hneed hless
  have hsum := length_forcible_first hC
  cases hfirst : notPreferredFirst cluster with
  | false =>
    have hnr : cluster.nrNotPreferredCpus = 0 := by simpa [notPreferredFirst] using hfirst
    refine picks_second hC hneed hmax hless ?_ (.inr fun c hc _ hnot => ?_)
    · rw [hfirst, length_forcible_all hC]
      omega
    · rw [notPreferred_eq_false hC hnr hc] at hnot
      exact absurd hnot (by simp)
  | true =>
    by_cases hfew : (cluster.lru.filter (forcible s true)).length <
        cluster.activeCpus - cluster.maxCpus
    · have hpick := firstPick_eq hmax hless
      by_cases hnil : firstPick s cluster need = []
      · refine picks_third hC hneed hmax hfirst hnil hfew (.inr fun c hc hact hnot => ?_)
        rw [hpick, filter_eq_nil_iff] at hnil
        have hbusy := hnil c hc
        simpa [pausable, hact, hnot, not_disabled hC hc hact] using hbusy
      · refine picks_recounted hC hneed hmax hfirst hnil hless hfew ?_
        obtain ⟨c, hc⟩ := exists_mem_of_ne_nil _ hnil
        obtain ⟨hmem, hforce, hpaus⟩ := firstPick_mem hc
        simp only [pausable, Bool.and_eq_true, Bool.not_eq_true'] at hpaus
        rw [hfirst] at hforce
        rintro (hle | hbusy)
        · omega
        · have hnot : s.notPreferred c = true := by simpa [forcible, hpaus.1.1] using hforce
          rw [hbusy c hmem hpaus.1.1.2 hnot] at hpaus
          exact absurd hpaus.1.2 (by simp)
    · refine picks_second hC hneed hmax hless ?_ (.inl (by omega))
      rw [hfirst]
      omega

end Passes

/-- With `need` within the maximum, `try_to_pause` leaves between `need` and the maximum exactly when
at least `need` CPUs are active and no CPU is counted by two passes. -/
theorem try_to_pause_within_limits (hC : Counted s cluster) (hmax : need ≤ cluster.maxCpus)
    (hout : ∀ c ∈ cluster.lru, c ∉ pauseCpus ∧ c ∉ partPauseCpus)
    (hdis : Disjoint pauseCpus partPauseCpus) :
    PausesWithinLimits s cluster need pauseCpus partPauseCpus ↔
      need ≤ cluster.activeCpus ∧ NoRecount s cluster := by
  by_cases hneed : need ≤ cluster.activeCpus
  · obtain ⟨T, hmask, hT, hcard, hiff⟩ := pausePasses_picks hC pauseCpus hneed hmax
    have hdis' : Disjoint (pauseCpus ∪ T) partPauseCpus := by
      rw [Finset.disjoint_union_left]
      exact ⟨hdis, Finset.disjoint_left.mpr fun c hc => (hout c (hT c hc).1).2⟩
    obtain ⟨hunion, hdisjoint⟩ := tryToPartialPause_masks s cluster
      (pausePasses s cluster need pauseCpus).1 hdis'
    simp only [PausesWithinLimits, tryToPause, hunion, hdisjoint, hmask, left_eq hC hT hout, hiff,
      hneed, true_and, and_true]
    exact ⟨fun h => h.1, fun h => ⟨h, by omega⟩⟩
  · refine iff_of_false (fun h => hneed (h.2.1.trans ?_)) fun h => hneed h.1
    rw [hC.activeCpus]
    exact countP_mono_left fun c _ hc => (Bool.and_eq_true _ _ ▸ hc).1

def fourCpus (busy notPreferred : Finset (Fin 4)) : State 4 where
  cpuState c := ⟨c ∈ busy, c ∈ notPreferred, false⟩
  cpuActive := Finset.univ
  halt := initial
  cpusPausedByUs := ∅
  cpusPartPausedByUs := ∅

def fourCluster (maxCpus nrNotPreferredCpus : Nat) : ClusterData 4 :=
  ⟨1, maxCpus, 4, 4, nrNotPreferredCpus, [0, 1, 2, 3]⟩

theorem try_to_pause_busy_not_preferred :
    PausesWithinLimits (fourCpus {0, 1} {0}) (fourCluster 2 1) 1 ∅ ∅ :=
  (try_to_pause_within_limits ⟨by decide, rfl, by decide, by decide, by decide⟩ (by decide) (by decide)
    (by decide)).2 ⟨by decide, by decide⟩

/-- CPU 0 is not preferred and idle: it is taken by the first pass and counted again by the forced
one, and three CPUs stay active where two are allowed. -/
theorem try_to_pause_counts_twice :
    ¬ PausesWithinLimits (fourCpus ∅ {0}) (fourCluster 2 1) 2 ∅ ∅ ∧
      (tryToPause (fourCpus ∅ {0}) (fourCluster 2 1) 2 ∅ ∅).2 = (∅, {0}) := by
  decide +kernel

end MsmKernel.CoreCtl
