import MsmKernel.CoreCtl.Selection

/-! When `try_to_resume` and `core_ctl_resume_cpus` reach exactly the need: the preferred CPUs suffice
and none of them is partially paused, or there are none, or every paused CPU is needed. -/
namespace MsmKernel.CoreCtl
open Halt TailMoves List
variable {n : Nat} {s : State n} {cluster : ClusterData n} {need : Nat}

def State.byUs (s : State n) : PauseType → Finset (Fin n)
  | .halt => s.cpusPausedByUs
  | .partialHalt => s.cpusPartPausedByUs

open State

/-- The CPU is inactive for no other reason than a pause of core_ctl: it is in the mask that tracks
the pause and no other client votes for it. -/
def State.OnlyByUs (s : State n) (c : Fin n) : Prop :=
  c ∈ s.cpuActive ∧ s.isActive c = false ∧ ∀ type, c ∈ s.halt.mask type →
    c ∈ s.byUs type ∧ s.halt.clientVoteMask c type &&& ~~~PauseClient.coreCtl.bit = 0

instance (s : State n) (c : Fin n) : Decidable (s.OnlyByUs c) := inferInstanceAs (Decidable (_ ∧ _))

def State.resumable (s : State n) (force : Bool) (c : Fin n) : Bool :=
  (c ∈ s.cpusPausedByUs || c ∈ s.cpusPartPausedByUs) && !s.isActive c &&
    (force || !(s.cpuState c).notPreferred)

def resumeCluster (s : State n) (cluster : ClusterData n) (need : Nat) : State n :=
  let y := (tryToResume s cluster need ∅ ∅).2
  coreCtlResumeCpus s false y.1 y.2

/-- As many CPUs are active afterwards as needed, or all that core_ctl can make active; and every CPU
selected is active. -/
def ResumesExactly (s : State n) (cluster : ClusterData n) (need : Nat) : Prop :=
  cluster.lru.countP (resumeCluster s cluster need).isActive =
      min need (cluster.activeCpus + cluster.lru.countP fun c => decide (s.OnlyByUs c)) ∧
    ∀ c ∈ (tryToResume s cluster need ∅ ∅).2.1, (resumeCluster s cluster need).isActive c = true

instance (s : State n) (cluster : ClusterData n) (need : Nat) :
    Decidable (ResumesExactly s cluster need) := inferInstanceAs (Decidable (_ ∧ _))

section
variable (s : State n) (cluster : ClusterData n)

def preferredPaused : List (Fin n) :=
  cluster.lru.filter (s.resumable false)

def allPaused : List (Fin n) :=
  cluster.lru.filter (s.resumable true)

/-- Enough preferred CPUs are paused and the first of them are not partially paused; or no preferred
CPU is paused, or no more CPUs than needed. And core_ctl alone keeps the CPUs it takes inactive. -/
def ResumeFits (need : Nat) : Prop :=
  if need - cluster.activeCpus ≤ (preferredPaused s cluster).length then
    ∀ c ∈ (preferredPaused s cluster).take (need - cluster.activeCpus),
      s.OnlyByUs c ∧ c ∉ s.halt.mask .partialHalt
  else
    (preferredPaused s cluster = [] ∨ (allPaused s cluster).length ≤ need - cluster.activeCpus) ∧
      ∀ c ∈ (allPaused s cluster).take (need - cluster.activeCpus), s.OnlyByUs c

end

instance (s : State n) (cluster : ClusterData n) (need : Nat) :
    Decidable (ResumeFits s cluster need) := inferInstanceAs (Decidable (ite _ _ _))

theorem resumeVisit_selects (force : Bool) (hle : cluster.activeCpus ≤ need) :
    Selects (resumeVisit s cluster need force) (s.resumable force) (need - cluster.activeCpus) where
  take mask k c hk hq := by
    have hne : cluster.activeCpus + k ≠ need := by omega
    simp only [resumable, Bool.and_eq_true, Bool.or_eq_true, decide_eq_true_eq,
      Bool.not_eq_true'] at hq
    obtain ⟨⟨hours, hact⟩, hpref⟩ := hq
    have hnot : ¬ (c ∉ s.cpusPausedByUs ∧ c ∉ s.cpusPartPausedByUs) := by tauto
    rcases hpref with hforce | hpref
    · simp [resumeVisit, hnot, hact, hforce, hne]
    · simp [resumeVisit, hnot, hact, hpref, hne]
  pass mask k c hk hq := by
    have hne : cluster.activeCpus + k ≠ need := by omega
    simp only [resumeVisit, hne, if_false]
    split_ifs with hours hact
    · rfl
    · rfl
    · have hmem : c ∈ s.cpusPausedByUs ∨ c ∈ s.cpusPartPausedByUs := by tauto
      simp only [Bool.or_eq_true, Bool.and_eq_true, Bool.not_eq_true', not_or, not_and,
        Bool.not_eq_true] at hact
      have htaken : s.resumable force c = true := by
        cases force with
        | true => simp [resumable, hmem, hact.1]
        | false => simp [resumable, hmem, hact.1, hact.2 rfl]
      rw [hq] at htaken
      exact absurd htaken (by simp)
  full mask c := by
    have heq : cluster.activeCpus + (need - cluster.activeCpus) = need := by omega
    simp only [resumeVisit, heq, if_true]
    split_ifs <;> simp

section Calls
variable {U V K : Finset (Fin n)} {c : Fin n}

theorem waltStartCpus_mask (type : PauseType) (h : HaltState n) :
    (waltStartCpus K .coreCtl type h).1 = 0 ∧
      (c ∈ (waltStartCpus K .coreCtl type h).2.mask type ↔ c ∈ h.mask type ∧ ¬ (c ∈ K ∧
        h.clientVoteMask c type &&& ~~~PauseClient.coreCtl.bit = 0)) := by
  refine ⟨rfl, ?_⟩
  change c ∈ (HaltState.setMask _ _ type).mask type ↔ _
  rw [mask_setMask_self, mask_updateClients, Finset.mem_sdiff, updateHaltCpus, Finset.mem_filter]
  refine and_congr_right fun _ => not_congr (and_congr_right fun hc => ?_)
  simp [updateClients, hc]

theorem waltStartCpus_other (type t : PauseType) (ht : t ≠ type) (h : HaltState n) :
    (waltStartCpus K .coreCtl type h).2.mask t = h.mask t ∧
      (waltStartCpus K .coreCtl type h).2.clientVoteMask c t = h.clientVoteMask c t := by
  refine ⟨?_, ?_⟩
  · change (HaltState.setMask _ _ type).mask t = _
    rw [mask_setMask_of_ne _ _ ht, mask_updateClients]
  · change (HaltState.setMask _ _ type).clientVoteMask c t = _
    simp [updateClients, ht]

theorem partResume_spec : (partResume false K s).cpuActive = s.cpuActive ∧
    (partResume false K s).cpusPausedByUs = s.cpusPausedByUs ∧
    (c ∈ (partResume false K s).halt.mask .partialHalt ↔ c ∈ s.halt.mask .partialHalt ∧ ¬ (c ∈ K ∧
      s.halt.clientVoteMask c .partialHalt &&& ~~~PauseClient.coreCtl.bit = 0)) ∧
    (partResume false K s).halt.mask .halt = s.halt.mask .halt ∧
    (partResume false K s).halt.clientVoteMask c .halt = s.halt.clientVoteMask c .halt := by
  unfold partResume
  split
  · rename_i hempty
    simp [hempty]
  · obtain ⟨hzero, hmask⟩ := waltStartCpus_mask (K := K) (c := c) .partialHalt s.halt
    obtain ⟨hother, hvote⟩ := waltStartCpus_other (K := K) (c := c) PauseType.partialHalt .halt
      (by decide) s.halt
    simp only [call, resumeCall, Bool.false_eq_true, if_false, hzero, lt_self_iff_false]
    exact ⟨trivial, trivial, hmask, hother, hvote⟩

theorem fullResume_spec : (fullResume false K s).cpuActive = s.cpuActive ∧
    (c ∈ (fullResume false K s).halt.mask .halt ↔ c ∈ s.halt.mask .halt ∧ ¬ (c ∈ K ∧
      s.halt.clientVoteMask c .halt &&& ~~~PauseClient.coreCtl.bit = 0)) ∧
    (fullResume false K s).halt.mask .partialHalt = s.halt.mask .partialHalt := by
  unfold fullResume
  split
  · rename_i hempty
    simp [hempty]
  · obtain ⟨hzero, hmask⟩ := waltStartCpus_mask (K := K) (c := c) .halt s.halt
    obtain ⟨hother, -⟩ := waltStartCpus_other (K := K) (c := c) PauseType.halt .partialHalt
      (by decide) s.halt
    simp only [call, resumeCall, Bool.false_eq_true, if_false, hzero, lt_self_iff_false]
    exact ⟨trivial, hmask, hother⟩

theorem isActive_iff : s.isActive c = true ↔
    c ∈ s.cpuActive ∧ c ∉ s.halt.mask .halt ∧ c ∉ s.halt.mask .partialHalt := by
  simp [isActive, HaltState.mask, and_assoc]

/-- A CPU is active after the two calls when it was, or when they undo all votes that halt it. -/
theorem isActive_coreCtlResumeCpus : (coreCtlResumeCpus s false U V).isActive c = true ↔
    c ∈ s.cpuActive ∧
      (c ∈ s.halt.mask .halt → c ∈ U ∩ s.cpusPausedByUs ∧
        s.halt.clientVoteMask c .halt &&& ~~~PauseClient.coreCtl.bit = 0) ∧
      (c ∈ s.halt.mask .partialHalt → c ∈ V ∩ s.cpusPartPausedByUs ∧
        s.halt.clientVoteMask c .partialHalt &&& ~~~PauseClient.coreCtl.bit = 0) := by
  obtain ⟨hact, hours, hpart, hhalt, hvote⟩ :=
    partResume_spec (s := s) (K := V ∩ s.cpusPartPausedByUs) (c := c)
  obtain ⟨hact', hhalt', hpart'⟩ := fullResume_spec (c := c)
    (K := U ∩ (partResume false (V ∩ s.cpusPartPausedByUs) s).cpusPausedByUs)
  rw [hours] at hact' hhalt' hpart'
  rw [hhalt, hvote] at hhalt'
  simp only [coreCtlResumeCpus]
  rw [isActive_iff, hours, hact', hact, hhalt', hpart', hpart, not_and_not_right, not_and_not_right]

theorem isActive_of_notMem (hU : c ∉ U) (hV : c ∉ V) :
    (coreCtlResumeCpus s false U V).isActive c = s.isActive c := by
  rw [Bool.eq_iff_iff, isActive_coreCtlResumeCpus, isActive_iff]
  simp [hU, hV]

/-- A selected CPU becomes active when core_ctl alone keeps it inactive and it is resumed in every
way it is paused. -/
theorem isActive_of_mem (hc : s.isActive c = false) (hU : c ∈ U) :
    (coreCtlResumeCpus s false U V).isActive c = true ↔
      s.OnlyByUs c ∧ (c ∈ s.halt.mask .partialHalt → c ∈ V) := by
  rw [isActive_coreCtlResumeCpus, Finset.mem_inter, Finset.mem_inter]
  constructor
  · rintro ⟨hact, hhalt, hpart⟩
    refine ⟨⟨hact, hc, fun type hin => ?_⟩, fun hin => (hpart hin).1.1⟩
    cases type with
    | halt => exact ⟨(hhalt hin).1.2, (hhalt hin).2⟩
    | partialHalt => exact ⟨(hpart hin).1.2, (hpart hin).2⟩
  · rintro ⟨⟨hact, -, hmask⟩, hV⟩
    exact ⟨hact, fun hin => ⟨⟨hU, (hmask .halt hin).1⟩, (hmask .halt hin).2⟩,
      fun hin => ⟨⟨hV hin, (hmask .partialHalt hin).1⟩, (hmask .partialHalt hin).2⟩⟩

end Calls

section Count
variable {U : Finset (Fin n)}

theorem countP_eq_card {l : List (Fin n)} (hl : l.Nodup) (p : Fin n → Bool) :
    l.countP p = (l.toFinset.filter fun c => p c = true).card := by
  rw [countP_eq_length_filter, ← toFinset_card_of_nodup (hl.filter p), toFinset_filter]

theorem countP_after (after : Fin n → Bool) {l : List (Fin n)} (hl : l.Nodup)
    (hU : ∀ c ∈ U, c ∈ l ∧ s.isActive c = false)
    (hsame : ∀ c ∉ U, after c = s.isActive c) :
    l.countP after = l.countP s.isActive + (U.filter fun c => after c = true).card := by
  have hdis : Disjoint (l.toFinset.filter fun c => s.isActive c = true)
      (U.filter fun c => after c = true) := by
    rw [Finset.disjoint_left]
    intro c hc hin
    have hact := (Finset.mem_filter.mp hc).2
    rw [(hU c (Finset.mem_filter.mp hin).1).2] at hact
    simp at hact
  rw [countP_eq_card hl, countP_eq_card hl, ← Finset.card_union_of_disjoint hdis]
  congr 1
  ext c
  by_cases hc : c ∈ U
  · simp [hc, hU c hc]
  · simp [hc, hsame c hc]

end Count

theorem preferredPaused_mem {c : Fin n} (hc : c ∈ preferredPaused s cluster) :
    c ∈ cluster.lru ∧ s.resumable true c = true := by
  obtain ⟨hmem, hq⟩ := mem_filter.mp hc
  simp only [resumable, Bool.and_eq_true] at hq ⊢
  exact ⟨hmem, hq.1, rfl⟩

section Passes
variable (hl : cluster.lru.Nodup) (hnum : cluster.numCpus = cluster.lru.length)
  (hle : cluster.activeCpus ≤ need)
include hl hnum hle

theorem resume_pass (force : Bool) {l : List (Fin n)} (mask : Finset (Fin n)) (hperm : l.Perm cluster.lru) :
    let S := chosen (s.resumable force) (need - cluster.activeCpus) 0 l
    tryToResumePass s cluster need force l mask =
      (movedBehind S l, mask ∪ S.toFinset, S.length) := by
  unfold tryToResumePass
  rw [hnum, ← hperm.length_eq, walk_selects (resumeVisit_selects force hle) (Nat.zero_le _)
    (hperm.nodup_iff.mpr hl), Nat.zero_add]

theorem tryToResume_early
    (henough : need - cluster.activeCpus ≤ (preferredPaused s cluster).length) :
    (tryToResume s cluster need ∅ ∅).2 =
      (((preferredPaused s cluster).take (need - cluster.activeCpus)).toFinset, ∅) := by
  have hpass := resume_pass (s := s) hl hnum hle false ∅ (List.Perm.refl _)
  have hpick : chosen (s.resumable false) (need - cluster.activeCpus) 0 cluster.lru =
      (preferredPaused s cluster).take (need - cluster.activeCpus) := rfl
  have hdone : cluster.activeCpus +
      ((preferredPaused s cluster).take (need - cluster.activeCpus)).length = need := by
    rw [length_take_of_le henough]
    omega
  simp only [hpick, Finset.empty_union] at hpass
  simp only [tryToResume, hpass, hdone, if_true]

/-- The preferred CPUs do not suffice: all of them are selected, and then up to the whole need
among the others. -/
theorem tryToResume_late
    (hfew : (preferredPaused s cluster).length < need - cluster.activeCpus) :
    ∃ U : Finset (Fin n), (tryToResume s cluster need ∅ ∅).2 = (U, U ∩ s.cpusPartPausedByUs) ∧
      (∀ c ∈ U, c ∈ cluster.lru ∧ s.resumable true c = true) ∧
      U.card = (preferredPaused s cluster).length + min (need - cluster.activeCpus)
        ((allPaused s cluster).length - (preferredPaused s cluster).length) ∧
      ((preferredPaused s cluster = [] ∨ (allPaused s cluster).length ≤ need - cluster.activeCpus) →
        ∀ c, c ∈ U ↔ c ∈ (allPaused s cluster).take (need - cluster.activeCpus)) := by
  have hsub : ∀ c ∈ preferredPaused s cluster, c ∈ cluster.lru ∧ s.resumable true c = true :=
    fun c hc => preferredPaused_mem hc
  have hnodup : (preferredPaused s cluster).Nodup := hl.filter _
  have hperm := movedBehind_perm hl hnodup fun c hc => (hsub c hc).1
  have hfirst := resume_pass (s := s) hl hnum hle false ∅ (List.Perm.refl _)
  have hpick : chosen (s.resumable false) (need - cluster.activeCpus) 0 cluster.lru =
      preferredPaused s cluster := take_of_length_le (by simpa [preferredPaused] using hfew.le)
  have hmore : cluster.activeCpus + (preferredPaused s cluster).length ≠ need := by omega
  have hsecond := resume_pass (s := s) hl hnum hle true (preferredPaused s cluster).toFinset hperm
  have hlen := length_filter_outside hl hnodup hsub
  simp only [hpick, Finset.empty_union] at hfirst
  simp only [chosen_movedBehind fun c hc => (hsub c hc).2, Nat.sub_zero] at hsecond
  generalize hothers : (cluster.lru.filter fun c => c ∉ preferredPaused s cluster).filter
    (s.resumable true) = B at hsecond hlen
  have hB : ∀ c ∈ B, c ∈ cluster.lru ∧ s.resumable true c = true ∧ c ∉ preferredPaused s cluster := by
    intro c hc
    rw [← hothers, mem_filter, mem_filter, decide_eq_true_eq] at hc
    exact ⟨hc.1.1, hc.2, hc.1.2⟩
  have hBnodup : B.Nodup := hothers ▸ (hl.filter _).filter _
  have hmask : (preferredPaused s cluster).toFinset ∪
      (B.take (need - cluster.activeCpus) ++ (preferredPaused s cluster).take
        (need - cluster.activeCpus - B.length)).toFinset =
      (preferredPaused s cluster).toFinset ∪ (B.take (need - cluster.activeCpus)).toFinset := by
    ext c
    simp only [toFinset_append, Finset.mem_union, mem_toFinset]
    have hprefix : c ∈ (preferredPaused s cluster).take (need - cluster.activeCpus - B.length) →
        c ∈ preferredPaused s cluster := mem_of_mem_take
    tauto
  have hdis : Disjoint (preferredPaused s cluster).toFinset
      (B.take (need - cluster.activeCpus)).toFinset := by
    rw [Finset.disjoint_left]
    intro c hc hin
    exact (hB c (mem_of_mem_take (mem_toFinset.mp hin))).2.2 (mem_toFinset.mp hc)
  rw [hmask] at hsecond
  have hall : B.length + (preferredPaused s cluster).length = (allPaused s cluster).length := hlen
  refine ⟨(preferredPaused s cluster).toFinset ∪ (B.take (need - cluster.activeCpus)).toFinset,
    ?_, fun c hc => ?_, ?_, ?_⟩
  · simp only [tryToResume, hfirst, hmore, if_false, hsecond, tryToPartialResume]
  · rcases Finset.mem_union.mp hc with hc | hc
    · exact hsub c (mem_toFinset.mp hc)
    · have hmem := hB c (mem_of_mem_take (mem_toFinset.mp hc))
      exact ⟨hmem.1, hmem.2.1⟩
  · rw [Finset.card_union_of_disjoint hdis, toFinset_card_of_nodup hnodup,
      toFinset_card_of_nodup (hBnodup.sublist (take_sublist _ _)), length_take]
    omega
  · rintro (hnone | hfits) c
    · have hsame : B = allPaused s cluster := by simp [← hothers, hnone, allPaused]
      simp [hnone, hsame]
    · rw [take_of_length_le (by omega : B.length ≤ _), take_of_length_le hfits,
        Finset.mem_union, mem_toFinset, mem_toFinset, ← hothers, allPaused]
      have hin := hsub c
      simp only [mem_filter, decide_eq_true_eq]
      tauto

end Passes

theorem inactive_of_resumable {force : Bool} {c : Fin n} (h : s.resumable force c = true) :
    s.isActive c = false := by
  simp only [resumable, Bool.and_eq_true, Bool.not_eq_true'] at h
  exact h.1.2

theorem resumable_of_onlyByUs {c : Fin n} (honly : s.OnlyByUs c) : s.resumable true c = true := by
  obtain ⟨hact, hin, hmask⟩ := honly
  have hpaused : c ∈ s.halt.mask .halt ∨ c ∈ s.halt.mask .partialHalt := by
    by_contra hnone
    rw [not_or] at hnone
    rw [isActive_iff.mpr ⟨hact, hnone⟩] at hin
    exact absurd hin (by simp)
  rcases hpaused with hhalt | hpart
  · have hmem : c ∈ s.cpusPausedByUs := (hmask .halt hhalt).1
    simp [resumable, hmem, hin]
  · have hmem : c ∈ s.cpusPartPausedByUs := (hmask .partialHalt hpart).1
    simp [resumable, hmem, hin]

theorem countP_onlyByUs_le (s : State n) (cluster : ClusterData n) :
    cluster.lru.countP (fun c => decide (s.OnlyByUs c)) ≤ (allPaused s cluster).length := by
  rw [allPaused, ← countP_eq_length_filter]
  exact countP_mono_left fun c _ hc => resumable_of_onlyByUs (of_decide_eq_true hc)

theorem card_le_countP_onlyByUs (hl : cluster.lru.Nodup) {U : Finset (Fin n)}
    (hU : ∀ c ∈ U, c ∈ cluster.lru ∧ s.OnlyByUs c) :
    U.card ≤ cluster.lru.countP fun c => decide (s.OnlyByUs c) := by
  rw [countP_eq_card hl]
  refine Finset.card_le_card fun c hc => ?_
  simp [hU c hc]

section Exact
variable (hl : cluster.lru.Nodup) (hnum : cluster.numCpus = cluster.lru.length)
  (hactive : cluster.activeCpus = cluster.lru.countP s.isActive) (hlt : cluster.activeCpus < need)
include hl hnum hactive hlt

theorem resumes_early (henough : need - cluster.activeCpus ≤ (preferredPaused s cluster).length) :
    ResumesExactly s cluster need ↔
      ∀ c ∈ (preferredPaused s cluster).take (need - cluster.activeCpus),
        s.OnlyByUs c ∧ c ∉ s.halt.mask .partialHalt := by
  have hsel := tryToResume_early (s := s) hl hnum hlt.le henough
  generalize hpick : (preferredPaused s cluster).take (need - cluster.activeCpus) = S at hsel ⊢
  have hS : ∀ c ∈ S.toFinset, c ∈ cluster.lru ∧ s.isActive c = false := by
    intro c hc
    rw [← hpick, mem_toFinset] at hc
    have hmem := preferredPaused_mem (mem_of_mem_take hc)
    exact ⟨hmem.1, inactive_of_resumable hmem.2⟩
  have hlen : S.toFinset.card = need - cluster.activeCpus := by
    have hnodup : S.Nodup := hpick ▸ (hl.filter _).sublist (take_sublist _ _)
    rw [toFinset_card_of_nodup hnodup, ← hpick, length_take_of_le henough]
  have hcount := countP_after (coreCtlResumeCpus s false S.toFinset ∅).isActive hl hS
    (fun c hc => isActive_of_notMem hc (Finset.notMem_empty c))
  have hafter : (∀ c ∈ S.toFinset, (coreCtlResumeCpus s false S.toFinset ∅).isActive c = true) ↔
      ∀ c ∈ S, s.OnlyByUs c ∧ c ∉ s.halt.mask .partialHalt := by
    simp only [← mem_toFinset (l := S)]
    refine forall₂_congr fun c hc => ?_
    rw [isActive_of_mem (hS c hc).2 hc]
    simp only [Finset.notMem_empty, imp_false]
  simp only [ResumesExactly, resumeCluster, hsel]
  rw [← hafter]
  refine ⟨fun h => h.2, fun hall => ⟨?_, hall⟩⟩
  have hk := card_le_countP_onlyByUs hl fun c hc =>
    ⟨(hS c hc).1, (hafter.mp hall c (mem_toFinset.mp hc)).1⟩
  rw [hcount, Finset.filter_true_of_mem hall]
  omega

theorem resumes_late (hfew : (preferredPaused s cluster).length < need - cluster.activeCpus) :
    ResumesExactly s cluster need ↔
      (preferredPaused s cluster = [] ∨ (allPaused s cluster).length ≤ need - cluster.activeCpus) ∧
        ∀ c ∈ (allPaused s cluster).take (need - cluster.activeCpus), s.OnlyByUs c := by
  obtain ⟨U, hsel, hU, hcard, htake⟩ := tryToResume_late (s := s) hl hnum hlt.le hfew
  have hafter : (∀ c ∈ U,
      (coreCtlResumeCpus s false U (U ∩ s.cpusPartPausedByUs)).isActive c = true) ↔
      ∀ c ∈ U, s.OnlyByUs c := by
    refine forall₂_congr fun c hc => ?_
    rw [isActive_of_mem (inactive_of_resumable (hU c hc).2) hc, Finset.mem_inter]
    exact ⟨fun h => h.1, fun honly => ⟨honly, fun hpart => ⟨hc, (honly.2.2 .partialHalt hpart).1⟩⟩⟩
  have hcount := countP_after (coreCtlResumeCpus s false U (U ∩ s.cpusPartPausedByUs)).isActive hl
    (fun c hc => ⟨(hU c hc).1, inactive_of_resumable (hU c hc).2⟩)
    (fun c hc => isActive_of_notMem hc fun hin => hc (Finset.mem_inter.mp hin).1)
  have hk := countP_onlyByUs_le s cluster
  simp only [ResumesExactly, resumeCluster, hsel]
  constructor
  · rintro ⟨heq, hall⟩
    rw [hcount, Finset.filter_true_of_mem hall] at heq
    have hfits : preferredPaused s cluster = [] ∨
        (allPaused s cluster).length ≤ need - cluster.activeCpus := by
      rw [← length_eq_zero_iff]
      omega
    exact ⟨hfits, fun c hc => hafter.mp hall c ((htake hfits c).mpr hc)⟩
  · rintro ⟨hfits, honly⟩
    have hours : ∀ c ∈ U, s.OnlyByUs c := fun c hc => honly c ((htake hfits c).mp hc)
    have hmany := card_le_countP_onlyByUs hl fun c hc => ⟨(hU c hc).1, hours c hc⟩
    rw [← length_eq_zero_iff] at hfits
    rw [hcount, Finset.filter_true_of_mem (hafter.mpr hours)]
    exact ⟨by omega, hafter.mpr hours⟩

end Exact

/-- Resuming reaches exactly the need if and only if `ResumeFits`. -/
theorem try_to_resume_exact (hl : cluster.lru.Nodup) (hnum : cluster.numCpus = cluster.lru.length)
    (hactive : cluster.activeCpus = cluster.lru.countP s.isActive) (hlt : cluster.activeCpus < need) :
    ResumesExactly s cluster need ↔ ResumeFits s cluster need := by
  unfold ResumeFits
  split
  · rename_i henough
    exact resumes_early hl hnum hactive hlt henough
  · rename_i hfew
    exact resumes_late hl hnum hactive hlt (Nat.not_le.mp hfew)

def pausedCpus (full part hot notPreferred : Finset (Fin 4)) : State 4 where
  cpuState c := ⟨false, c ∈ notPreferred, false⟩
  cpuActive := Finset.univ
  halt :=
    { cpuHaltMask := full ∪ hot
      cpuPartialHaltMask := part
      clientVoteMask := fun c type => match type with
        | .halt => (if c ∈ full then PauseClient.coreCtl.bit else 0) |||
            (if c ∈ hot then PauseClient.thermal.bit else 0)
        | .partialHalt => if c ∈ part then PauseClient.coreCtl.bit else 0
      cpusToDrain := ∅ }
  cpusPausedByUs := full
  cpusPartPausedByUs := part

def pausedCluster (activeCpus nrNotPreferredCpus : Nat) : ClusterData 4 :=
  ⟨0, 4, activeCpus, 4, nrNotPreferredCpus, List.finRange 4⟩

theorem try_to_resume_all_paused :
    ResumesExactly (pausedCpus {0, 1} {2} ∅ {2}) (pausedCluster 1 1) 4 :=
  (try_to_resume_exact (by decide) rfl (by decide +kernel) (by decide)).2 (by decide +kernel)

/-- A partially paused preferred CPU that satisfies the need alone is not resumed; one preferred and
two not preferred CPUs are all resumed where two are needed; and a CPU that another client pauses is
taken in place of one that can be resumed. -/
theorem try_to_resume_misses :
    (¬ ResumesExactly (pausedCpus ∅ {0} ∅ ∅) (pausedCluster 3 0) 4 ∧
      (tryToResume (pausedCpus ∅ {0} ∅ ∅) (pausedCluster 3 0) 4 ∅ ∅).2 = ({0}, ∅) ∧
      (List.finRange 4).countP
        (resumeCluster (pausedCpus ∅ {0} ∅ ∅) (pausedCluster 3 0) 4).isActive = 3) ∧
    (¬ ResumesExactly (pausedCpus {0, 1, 2} ∅ ∅ {1, 2}) (pausedCluster 1 2) 3 ∧
      (List.finRange 4).countP
        (resumeCluster (pausedCpus {0, 1, 2} ∅ ∅ {1, 2}) (pausedCluster 1 2) 3).isActive = 4) ∧
    ¬ ResumesExactly (pausedCpus {0, 1} ∅ {0} ∅) (pausedCluster 2 0) 3 ∧
      (List.finRange 4).countP
        (resumeCluster (pausedCpus {0, 1} ∅ {0} ∅) (pausedCluster 2 0) 3).isActive = 2 := by
  decide +kernel

end MsmKernel.CoreCtl
