import MsmKernel.Lib.Account
import MsmKernel.Walt.BusyCases

/-! The windows of a task and their split over the CPUs: the per-CPU entries of a settled task sum
to its window totals and lie in one frequency domain. -/
set_option linter.unusedSectionVars false

namespace MsmKernel.Walt
open Run Account
variable {Task Cpu : Type} [DecidableEq Task] [DecidableEq Cpu]

variable {total delta wallclock irqtime : Nat} {entry : Cpu → Nat} {newCpu : Cpu} {env : Env}
  {p : Task} {event : TaskEvent}

section Split
variable [Fintype Cpu]

def Splits (total : Nat) (entry : Cpu → Nat) : Prop := total = ∑ cpu, entry cpu

theorem splits_zero : Splits 0 (fun _ : Cpu => 0) := by simp [Splits]

theorem Splits.entry_le (h : Splits total entry) (cpu : Cpu) : entry cpu ≤ total := by
  rw [h]
  exact Finset.single_le_sum (fun _ _ => Nat.zero_le _) (Finset.mem_univ cpu)

theorem splits_single (total : Nat) (cpu : Cpu) :
    Splits total (Function.update (fun _ => 0) cpu total) := by
  have h := sum_add_eq (f := fun _ : Cpu => 0) (g := Function.update (fun _ => 0) cpu total) cpu
    fun y hy => Function.update_of_ne hy _ _
  simpa [Splits] using h.symm

theorem Splits.add (h : Splits total entry) (cpu : Cpu)
    (hfits : total = 0 ∨ total + delta < 2 ^ 32) :
    Splits (u32 (total + delta)) (Function.update entry cpu (u32 (entry cpu + delta))) := by
  have hle := h.entry_le cpu
  have hsum := sum_add_eq (f := entry)
    (g := Function.update entry cpu (u32 (entry cpu + delta))) cpu
    fun y hy => Function.update_of_ne hy _ _
  rw [Function.update_self, ← h] at hsum
  rw [Splits]
  rcases hfits with hzero | hlt
  · have hentry : entry cpu = 0 := by omega
    rw [hentry] at hsum ⊢
    rw [hzero] at hsum ⊢
    omega
  · have h1 : u32 (total + delta) = total + delta := Nat.mod_eq_of_lt hlt
    have h2 : u32 (entry cpu + delta) = entry cpu + delta := Nat.mod_eq_of_lt (by omega)
    omega

end Split

structure WindowsSplit [Fintype Cpu] (topo : Topology Cpu) (cpu : Cpu) (t : Wts Cpu) : Prop where
  curr : Splits t.currWindow t.currWindowCpu
  prev : Splits t.prevWindow t.prevWindowCpu
  curr_domain : ∀ i, t.currWindowCpu i ≠ 0 → sameFreqDomain topo cpu i
  prev_domain : ∀ i, t.prevWindowCpu i ≠ 0 → sameFreqDomain topo cpu i

/- While a migration between clusters is pending the entries have been handed back. -/
structure Cleared (t : Wts Cpu) : Prop where
  curr : t.currWindowCpu = fun _ => 0
  prev : t.prevWindowCpu = fun _ => 0

def SplitUngrouped [Fintype Cpu] (topo : Topology Cpu) (cpu : Cpu) (t : Wts Cpu) : Prop :=
  if t.enqueueAfterMigration = .interCluster then Cleared t else WindowsSplit topo cpu t

section Record
variable [Fintype Cpu] {topo : Topology Cpu} {cpu : Cpu} {t : Wts Cpu} (q : Wrq)

theorem Cleared.rolled (h : Cleared t) : Cleared (rolledTask q t) := by
  simp only [rolledTask]
  split_ifs with hstarts hidle
  · exact ⟨h.curr, h.prev⟩
  · refine ⟨rfl, ?_⟩
    simp only [rolloverTaskWindow, h.curr]
    split_ifs <;> rfl
  · exact h

theorem WindowsSplit.rolled (h : WindowsSplit topo cpu t) :
    WindowsSplit topo cpu (rolledTask q t) := by
  simp only [rolledTask]
  split_ifs with hstarts hidle
  · exact ⟨h.curr, h.prev, h.curr_domain, h.prev_domain⟩
  · cases hfull : passesWindow q t with
    | false => exact ⟨splits_zero, h.curr, fun _ hi => absurd rfl hi, h.curr_domain⟩
    | true =>
      exact ⟨splits_zero, splits_zero, fun _ hi => absurd rfl hi, fun _ hi => absurd rfl hi⟩
  · exact h

theorem domain_update (h : ∀ i, entry i ≠ 0 → sameFreqDomain topo cpu i) (value : Nat) (i : Cpu)
    (hi : Function.update entry cpu value i ≠ 0) : sameFreqDomain topo cpu i := by
  by_cases hc : i = cpu
  · rw [hc]
    rfl
  · rw [Function.update_of_ne hc] at hi
    exact h i hi

theorem WindowsSplit.addCurr (h : WindowsSplit topo cpu t)
    (hfits : t.currWindow = 0 ∨ t.currWindow + delta < 2 ^ 32) :
    WindowsSplit topo cpu (t.addCurr cpu delta) :=
  ⟨h.curr.add cpu hfits, h.prev, domain_update h.curr_domain _, h.prev_domain⟩

theorem WindowsSplit.addPrev (h : WindowsSplit topo cpu t)
    (hfits : t.prevWindow = 0 ∨ t.prevWindow + delta < 2 ^ 32) :
    WindowsSplit topo cpu (t.addPrev cpu delta) :=
  ⟨h.curr, h.prev.add cpu hfits, h.curr_domain, domain_update h.prev_domain _⟩

theorem SplitUngrouped.congr {t' : Wts Cpu} (h : SplitUngrouped topo cpu t)
    (hcurr : t'.currWindow = t.currWindow) (hprev : t'.prevWindow = t.prevWindow)
    (hcurrCpu : t'.currWindowCpu = t.currWindowCpu) (hprevCpu : t'.prevWindowCpu = t.prevWindowCpu)
    (hflag : t'.enqueueAfterMigration = t.enqueueAfterMigration) : SplitUngrouped topo cpu t' := by
  simp only [SplitUngrouped, hflag] at h ⊢
  split_ifs at h ⊢
  · exact ⟨by rw [hcurrCpu, h.curr], by rw [hprevCpu, h.prev]⟩
  · exact ⟨by rw [hcurr, hcurrCpu]; exact h.curr, by rw [hprev, hprevCpu]; exact h.prev,
      by rw [hcurrCpu]; exact h.curr_domain, by rw [hprevCpu]; exact h.prev_domain⟩

theorem SplitUngrouped.accountBusyTime {c : Call} (h : SplitUngrouped topo cpu t)
    (hidle : t.idle = false) (hmark : t.markStart ≠ 0) (hfits : Fits c q t)
    (hsettled : accountBusyForCpuTime c t.idle = true → t.enqueueAfterMigration = .none) :
    SplitUngrouped topo cpu (accountBusyTime c cpu q t).2 := by
  have hflag : (Walt.accountBusyTime c cpu q t).2.enqueueAfterMigration =
      t.enqueueAfterMigration := by
    obtain ⟨_, _, _, _, _, _, h⟩ := accountBusyTime_wts c cpu q t
    rw [h]
  simp only [SplitUngrouped, hflag] at h ⊢
  cases hbusy : accountBusyForCpuTime c t.idle with
  | false =>
    rw [accountBusyTime_skip c cpu q t hbusy]
    split_ifs at h ⊢
    · exact h.rolled q
    · exact h.rolled q
  | true =>
    obtain ⟨hin, hacross⟩ := hfits hidle hmark hbusy
    rw [hsettled hbusy] at h ⊢
    cases hstarts : startsWindow q t with
    | false =>
      rw [accountBusyTime_inWindow c cpu q t hidle hbusy hstarts]
      exact h.addCurr (.inr (hin hstarts))
    | true =>
      rw [accountBusyTime_across c cpu q t hidle hbusy hstarts]
      have hrolled := rolledTask_of_starts q t hidle hstarts
      refine ((h.rolled q).addPrev ?_).addCurr (.inl ?_)
      · cases hfull : passesWindow q t with
        | false =>
          right
          rw [hrolled, hfull]
          exact hacross hstarts hfull
        | true =>
          left
          rw [hrolled, hfull]
          rfl
      · rw [hrolled]
        rfl

theorem pendingMigration_eq (topo : Topology Cpu) (src dst : Cpu) :
    pendingMigration topo src dst = .interCluster ↔ ¬ sameFreqDomain topo src dst := by
  simp only [pendingMigration]
  split_ifs with h <;> simp [h]

theorem WindowsSplit.cleared (h : WindowsSplit topo cpu t) (hcurr : t.currWindow = 0)
    (hprev : t.prevWindow = 0) : Cleared t := by
  refine ⟨funext fun i => ?_, funext fun i => ?_⟩
  · have := h.curr.entry_le i
    omega
  · have := h.prev.entry_le i
    omega

theorem Cleared.windowsSplit (h : Cleared t) (hcurr : t.currWindow = 0) (hprev : t.prevWindow = 0) :
    WindowsSplit topo cpu t := by
  refine ⟨?_, ?_, fun i hi => absurd (congrFun h.curr i) hi,
    fun i hi => absurd (congrFun h.prev i) hi⟩
  · rw [hcurr, h.curr]
    exact splits_zero
  · rw [hprev, h.prev]
    exact splits_zero

theorem WindowsSplit.move (h : WindowsSplit topo cpu t) (hdom : sameFreqDomain topo cpu newCpu) :
    WindowsSplit topo newCpu t :=
  ⟨h.curr, h.prev, fun i hi => hdom.symm.trans (h.curr_domain i hi),
    fun i hi => hdom.symm.trans (h.prev_domain i hi)⟩

theorem zero_outside (h : ∀ i, entry i ≠ 0 → sameFreqDomain topo cpu i) :
    (fun i => if sameFreqDomain topo cpu i then 0 else entry i) = fun _ => 0 := by
  funext i
  split_ifs with hi
  · rfl
  · by_contra hne
    exact hi (h i hne)

theorem SplitUngrouped.departed (h : SplitUngrouped topo cpu t) (hgrp : t.grp = false)
    (hkind : t.enqueueAfterMigration ≠ .none →
      pendingMigration topo cpu newCpu = t.enqueueAfterMigration ∨
        (t.currWindow = 0 ∧ t.prevWindow = 0)) :
    SplitUngrouped topo newCpu (t.departed topo cpu (pendingMigration topo cpu newCpu)) := by
  have hflag := (departed_flags topo cpu (pendingMigration topo cpu newCpu) t).2.2
  rw [SplitUngrouped, hflag]
  rw [SplitUngrouped] at h
  by_cases hdom : sameFreqDomain topo cpu newCpu
  · have hnot : pendingMigration topo cpu newCpu ≠ .interCluster :=
      fun heq => (pendingMigration_eq topo cpu newCpu).1 heq hdom
    rw [if_neg hnot, Wts.departed, if_neg (fun hd => hnot hd.2.2)]
    split_ifs at h with hinter
    · have hzero := (hkind (by simp [hinter])).resolve_left (by rwa [hinter])
      have hsplit : WindowsSplit topo newCpu t := h.windowsSplit hzero.1 hzero.2
      exact ⟨hsplit.1, hsplit.2, hsplit.3, hsplit.4⟩
    · have hsplit := h.move hdom
      exact ⟨hsplit.1, hsplit.2, hsplit.3, hsplit.4⟩
  · have hinter : pendingMigration topo cpu newCpu = .interCluster :=
      (pendingMigration_eq topo cpu newCpu).2 hdom
    rw [if_pos hinter, Wts.departed]
    by_cases hnone : t.enqueueAfterMigration = .none
    · rw [if_pos ⟨hnone, hgrp, hinter⟩]
      rw [if_neg (by simp [hnone])] at h
      exact ⟨zero_outside h.curr_domain, zero_outside h.prev_domain⟩
    · rw [if_neg (fun hd => hnone hd.1)]
      split_ifs at h with hflag'
      · exact ⟨h.curr, h.prev⟩
      · have hzero := (hkind hnone).resolve_left fun heq => hflag' (heq.symm.trans hinter)
        have hclear := h.cleared hzero.1 hzero.2
        exact ⟨hclear.curr, hclear.prev⟩

theorem SplitUngrouped.arrived (h : SplitUngrouped topo cpu t) (hgrp : t.grp = false) :
    SplitUngrouped topo cpu (t.arrived cpu) := by
  have hflag := (arrived_flags cpu t).2.2
  rw [SplitUngrouped, hflag, if_neg (by decide), Wts.arrived]
  rw [SplitUngrouped] at h
  split_ifs at h with hinter
  · rw [if_pos ⟨hgrp, hinter⟩]
    have hnot {entry : Cpu → Nat} (hz : entry = fun _ => 0) (i : Cpu) (hi : entry i ≠ 0) :
        sameFreqDomain topo cpu i := absurd (congrFun hz i) hi
    refine ⟨?_, ?_, domain_update (hnot h.curr) _, domain_update (hnot h.prev) _⟩
    · rw [h.curr]
      exact splits_single _ cpu
    · rw [h.prev]
      exact splits_single _ cpu
  · rw [if_neg (fun hd => hinter hd.2)]
    exact ⟨h.1, h.2, h.3, h.4⟩

theorem splitUngrouped_left (hflag : t.enqueueAfterMigration = .none) :
    SplitUngrouped topo cpu (t.left cpu) := by
  have hnone : (t.left cpu).enqueueAfterMigration ≠ .interCluster := by
    rw [show (t.left cpu).enqueueAfterMigration = t.enqueueAfterMigration from rfl, hflag]
    decide
  rw [SplitUngrouped, if_neg hnone]
  exact ⟨splits_single _ cpu, splits_single _ cpu, domain_update (fun _ hi => absurd rfl hi) _,
    domain_update (fun _ hi => absurd rfl hi) _⟩

end Record

/- A second migration of an ungrouped task whose first is still pending is of the same kind, or the
task has no window time. -/
def SameKind (topo : Topology Cpu) (s : State Task Cpu) : Act Task Cpu → Prop
  | .depart p newCpu =>
    (s.wts p).grp = false → (s.wts p).enqueueAfterMigration ≠ .none →
      pendingMigration topo (s.taskCpu p) newCpu = (s.wts p).enqueueAfterMigration ∨
        ((s.wts p).currWindow = 0 ∧ (s.wts p).prevWindow = 0)
  | .update env p event wallclock irqtime => NoOverflow s env p event wallclock irqtime
  | _ => True

instance decidableSameKind (topo : Topology Cpu) (s : State Task Cpu) :
    ∀ a, Decidable (SameKind topo s a) := by
  rintro (_ | _) <;> (dsimp only [SameKind]; infer_instance)

section System
variable [Fintype Cpu] {topo : Topology Cpu} {s t : State Task Cpu}

def AllSplit (topo : Topology Cpu) (s : State Task Cpu) : Prop :=
  ∀ p, (s.wts p).idle = false → (s.wts p).grp = false → SplitUngrouped topo (s.taskCpu p) (s.wts p)

theorem splitUngrouped_update (hplaced : Placed s)
    (hcall : CoreCall s (.update env p event wallclock irqtime))
    (hok : NoOverflow s env p event wallclock irqtime) (hidle : (s.wts p).idle = false)
    (hs : SplitUngrouped topo (s.taskCpu p) (s.wts p))
    (h : waltUpdateTaskRavg env p event wallclock irqtime s = some t) :
    SplitUngrouped topo (s.taskCpu p) (t.wts p) := by
  rcases update_cases h with ⟨rfl, -⟩ | ⟨q, hupd⟩
  · exact hs
  obtain ⟨c, hc⟩ : ∃ c, c = s.call env p event wallclock irqtime := ⟨_, rfl⟩
  have hwts := hupd.wts
  have hfits := hok.fits hupd
  rw [← hc] at hwts hfits
  by_cases hmark : (s.wts p).markStart = 0
  · obtain ⟨windowStart, -, hfirst⟩ := firstWindow_eq q (s.wts p)
    rw [hwts, updateTaskAndRq, if_pos hmark, hfirst]
    exact hs.congr rfl rfl rfl rfl rfl
  · obtain ⟨windowStart, stats, demand, stats', demand', -, heq⟩ :=
      updateTaskAndRq_busy c (s.taskCpu p) q (s.wts p) hmark
    have hseen : SplitUngrouped topo (s.taskCpu p) { s.wts p with windowStart, demand } :=
      hs.congr rfl rfl rfl rfl rfl
    have hsettled (hbusy : accountBusyForCpuTime c (s.wts p).idle = true) :
        (s.wts p).enqueueAfterMigration = .none :=
      hplaced.settled p (.inr (.inr (accounted_curr hcall hidle (hc ▸ hbusy))))
    have hnew := hseen.accountBusyTime { q with stats } (c := c) hidle hmark hfits hsettled
    rw [← updateCpuBusyTime_snd] at hnew
    rw [hwts, heq]
    exact hnew.congr rfl rfl rfl rfl rfl

section
variable (hs : AllSplit topo s)
include hs

theorem AllSplit.update (hplaced : Placed s)
    (hcall : CoreCall s (.update env p event wallclock irqtime))
    (hok : NoOverflow s env p event wallclock irqtime)
    (h : waltUpdateTaskRavg env p event wallclock irqtime s = some t) : AllSplit topo t := by
  have hframe := updateFrame h
  intro p' hidle hgrp
  rw [(hframe.flags p').idle] at hidle
  rw [(hframe.flags p').grp] at hgrp
  rw [hframe.taskCpu]
  by_cases hp : p' = p
  · subst hp
    exact splitUngrouped_update hplaced hcall hok hidle (hs p' hidle hgrp) h
  · rw [hframe.wts p' hp]
    exact hs p' hidle hgrp

theorem AllSplit.of_wts {r : Wts Cpu} (hwts : t.wts = Function.update s.wts p r)
    (hcpu : ∀ p', p' ≠ p → t.taskCpu p' = s.taskCpu p')
    (hr : r.idle = false → r.grp = false → SplitUngrouped topo (t.taskCpu p) r) :
    AllSplit topo t := by
  intro p' hidle hgrp
  by_cases hp : p' = p
  · subst hp
    rw [hwts, Function.update_self] at hidle hgrp ⊢
    exact hr hidle hgrp
  · rw [hwts, Function.update_of_ne hp] at hidle hgrp ⊢
    rw [hcpu p' hp]
    exact hs p' hidle hgrp

theorem AllSplit.depart (hok : SameKind topo s (.depart p newCpu)) :
    AllSplit topo (depart topo p newCpu s) := by
  obtain ⟨-, hcpu, -, -⟩ := depart_core topo p newCpu s
  refine hs.of_wts (depart_wts topo p s newCpu)
    (fun p' hp => by rw [hcpu, Function.update_of_ne hp]) fun hidle hgrp => ?_
  obtain ⟨hi, hg, hf⟩ := departed_flags topo (s.taskCpu p)
    (pendingMigration topo (s.taskCpu p) newCpu) (s.wts p)
  rw [hi] at hidle
  rw [hg] at hgrp
  rw [hcpu, Function.update_self]
  exact (hs p hidle hgrp).departed hgrp (hok hgrp)

theorem AllSplit.act {a : Act Task Cpu} (hplaced : Placed s) (hready : Ready s a)
    (hcall : CoreCall s a) (hok : SameKind topo s a) (h : act topo s a = some t) :
    AllSplit topo t := by
  cases a <;> try obtain rfl := Option.some.inj h
  case update env p event wallclock irqtime => exact hs.update hplaced hcall hok h
  case depart p newCpu => exact hs.depart hok
  case arrive p =>
    obtain ⟨hi, hg, -⟩ := arrived_flags (s.taskCpu p) (s.wts p)
    refine hs.of_wts (arrive_wts p s) (fun _ _ => by rw [(arrive_core p s).2.1])
      fun hidle hgrp => ?_
    rw [hi] at hidle
    rw [hg] at hgrp
    rw [(arrive_core p s).2.1]
    exact (hs p hidle hgrp).arrived hgrp
  case joinGroup p newTask =>
    exact hs.of_wts (joinGroup_wts topo p newTask s) (fun _ _ => rfl)
      fun _ hgrp => Bool.noConfusion hgrp
  case leaveGroup p newTask =>
    exact hs.of_wts (leaveGroup_wts p newTask s) (fun _ _ => rfl)
      fun _ _ => splitUngrouped_left hready.2
  case accountSubs cpu => exact hs
  case changeWindow thisCpu wallclock newWindow =>
    simp only [changeWindow]
    split_ifs <;> exact hs
  case switch _ _ | enqueue _ _ _ | dequeue _ | misfit _ _ _ | setClass _ _ =>
    have haside := aside_act h trivial
    intro p hidle hgrp
    obtain ⟨misfit, rtgHighPrio, prevOnRq, hp⟩ := haside.wts p
    rw [haside.taskCpu]
    rw [hp] at hidle hgrp ⊢
    exact (hs p hidle hgrp).congr rfl rfl rfl rfl rfl

end

theorem allSplit_init (topo : Topology Cpu) (core : Core Task Cpu) (window tick : Nat) :
    AllSplit topo (waltInitStopHandler core window tick) := fun _ _ _ =>
  ⟨splits_zero, splits_zero, fun _ hi => absurd rfl hi, fun _ hi => absurd rfl hi⟩

/-- Along a run of the hooks in which pending migrations keep their kind and no window counter
overflows, the windows of a settled ungrouped task are the sums of its per-CPU entries, and the
CPUs with an entry belong to one frequency domain. -/
theorem windows_sum_over_cpus (topo : Topology Cpu) (core : Core Task Cpu) {window tick : Nat}
    {es : List (Event Task Cpu)} {t : State Task Cpu}
    (hok : Along (step topo) (fun s e => HookCall s e ∧ Throughout topo (SameKind topo) s e)
      (waltInitStopHandler core window tick) es)
    (h : run (step topo) (waltInitStopHandler core window tick) es = some t) (p : Task)
    (hidle : (t.wts p).idle = false) (hgrp : (t.wts p).grp = false)
    (hsettled : (t.wts p).enqueueAfterMigration = .none) :
    (t.wts p).currWindow = ∑ cpu, (t.wts p).currWindowCpu cpu ∧
    (t.wts p).prevWindow = ∑ cpu, (t.wts p).prevWindowCpu cpu ∧
    ∀ cpu cpu', (t.wts p).currWindowCpu cpu ≠ 0 ∨ (t.wts p).prevWindowCpu cpu ≠ 0 →
      (t.wts p).currWindowCpu cpu' ≠ 0 ∨ (t.wts p).prevWindowCpu cpu' ≠ 0 →
      sameFreqDomain topo cpu cpu' := by
  have hinv := (hook_invariant (fun _ _ _ hplaced hs hready hcall hok h =>
    AllSplit.act hs hplaced hready hcall hok h) (placed_init core window tick)
    (allSplit_init topo core window tick) hok h).2 p hidle hgrp
  rw [SplitUngrouped, if_neg (by simp [hsettled])] at hinv
  have hdom cpu (hcpu : (t.wts p).currWindowCpu cpu ≠ 0 ∨ (t.wts p).prevWindowCpu cpu ≠ 0) :
      sameFreqDomain topo (t.taskCpu p) cpu :=
    hcpu.elim (hinv.curr_domain cpu) (hinv.prev_domain cpu)
  exact ⟨hinv.curr, hinv.prev, fun cpu cpu' hcpu hcpu' =>
    (hdom cpu hcpu).symm.trans (hdom cpu' hcpu')⟩

end System

theorem windows_sum_after_two_moves :
    let es : List (Event (Fin 5) (Fin 3)) :=
      [.enqueueTask plainEnv 3 false false 0 true false,
        .schedule plainEnv plainEnv 0 3 1601000000, .dequeueTask 3 false,
        .schedule plainEnv plainEnv 0 0 1603000000, .setTaskCpu plainEnv 3 1 1603100000,
        .enqueueTask plainEnv 3 false false 1603200000 true false, .dequeueTask 3 false,
        .setTaskCpu plainEnv 3 2 1603300000,
        .enqueueTask plainEnv 3 false false 1603400000 true false]
    ∃ t, run (step littleBig) (waltInitStopHandler littleBigCore 16000000 1600000000) es = some t ∧
      (t.wts 3).currWindow = 2000000 ∧ t.taskCpu 3 = 2 ∧
      (t.wts 3).currWindow = ∑ cpu, (t.wts 3).currWindowCpu cpu := by
  intro es
  exact exists_run_and (by decide) fun t ht _ => ⟨run_holds ht (by decide),
    (windows_sum_over_cpus littleBig littleBigCore (by decide) ht 3 (run_holds ht (by decide))
      (run_holds ht (by decide)) (run_holds ht (by decide))).1⟩

/-- The same task with the two migrations before one enqueue: the second one overwrites the flag,
so the addition stores the whole window time for CPU 2 although the entry of CPU 0 was never
taken back. -/
theorem double_migration_counts_twice :
    ∃ t, run (step littleBig) (waltInitStopHandler littleBigCore 16000000 1600000000)
        [.enqueueTask plainEnv 3 false false 0 true false,
          .schedule plainEnv plainEnv 0 3 1601000000, .dequeueTask 3 false,
          .schedule plainEnv plainEnv 0 0 1603000000, .setTaskCpu plainEnv 3 1 1603100000,
          .setTaskCpu plainEnv 3 2 1603200000,
          .enqueueTask plainEnv 3 false false 1603300000 true false] = some t ∧
      (t.wts 3).idle = false ∧ (t.wts 3).grp = false ∧ (t.wts 3).enqueueAfterMigration = .none ∧
      (t.wts 3).currWindow = 2000000 ∧ ∑ cpu, (t.wts 3).currWindowCpu cpu = 4000000 ∧
      (t.wts 3).currWindowCpu 0 ≠ 0 ∧ (t.wts 3).currWindowCpu 2 ≠ 0 ∧
      ¬ sameFreqDomain littleBig 0 2 :=
  exists_run_of_map (by decide)

end MsmKernel.Walt
