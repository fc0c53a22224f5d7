import MsmKernel.Walt.BusyCases
import MsmKernel.Walt.DemandTotals
import MsmKernel.Walt.History

/-! No demand sample exceeds a window, as long as whole windows are not recorded for a task whose load
is boosted beyond a window: partial windows are capped, whole ones are not. -/
namespace MsmKernel.Walt
open Run
variable {Cpu : Type} {c : Call} {t : Wts Cpu} {W : Nat} {d : TaskDemand}
  {x : WaltSchedStats × TaskDemand}

structure RavgCall (Cpu : Type) where
  call : Call
  cpu : Cpu
  rq : Wrq
  task : Wts Cpu

def ravgStep [DecidableEq Cpu] (window : Nat) (d : TaskDemand) (u : RavgCall Cpu) : Option TaskDemand :=
  if u.call.schedRavgWindow = window then
    (updateRavg u.call u.cpu u.rq { u.task with demand := d }).map fun y => y.2.demand
  else none

/- mult_frac, whose divisions are those of C. -/
def multFrac (x numer denom : Int) : Int :=
  x.tdiv denom * numer + (x.tmod denom * numer).tdiv denom

/-- An execution scale of at most 1024 and a load boost that sched_task_handler accepts. -/
def Permitted (c : Call) : Prop :=
  c.taskExecScale ≤ 1024 ∧ ∃ val : Int, -90 ≤ val ∧ val ≤ 90 ∧ c.loadBoost = decide (val ≠ 0) ∧
    c.boostedTaskLoad = multFrac 1024 val 100

/-- If the task is boosted up and the update accounts whole windows, a window fits when it is boosted. -/
def BulkFits (u : RavgCall Cpu) : Prop :=
  u.call.loadBoost = true → u.task.grp = true → 0 < u.call.boostedTaskLoad →
    accountBusyForTaskDemand u.call u.task.idle = true →
    ∀ q, updateWindowStart u.call.schedRavgWindow u.call.wallclock u.rq = some q →
      u.task.markStart < q.windowStart →
      int32 ((q.windowStart - u.task.markStart) / u.call.schedRavgWindow) ≠ 0 →
      u32 (scaleExecTime u.call true u.call.schedRavgWindow) ≤ u.call.schedRavgWindow

def WithinWindow (W : Nat) (d : TaskDemand) : Prop :=
  (∀ i, d.sumHistory i ≤ W) ∧ d.demand ≤ W ∧ d.demandScaled ≤ scaleTimeToUtil W W

section History

theorem historySum_le (h : ∀ i, d.sumHistory i ≤ W) : historySum d ≤ 5 * W := by
  have hsum : historySum d = d.sumHistory 0 + (d.sumHistory 1 + (d.sumHistory 2 +
      (d.sumHistory 3 + (d.sumHistory 4 + 0)))) := rfl
  have h0 := h 0
  have h1 := h 1
  have h2 := h 2
  have h3 := h 3
  have h4 := h 4
  omega

theorem historyMax_le (h : ∀ i, d.sumHistory i ≤ W) : historyMax d ≤ W := by
  have hfold : ∀ (l : List (Fin 5)) m, m ≤ W → (l.map d.sumHistory).foldl max m ≤ W := by
    intro l
    induction l with
    | nil => exact fun m hm => hm
    | cons i l ih => exact fun m hm => ih _ (max_le hm (h i))
  exact hfold _ 0 (Nat.zero_le W)

theorem recordedHistory_le (h : ∀ i, d.sumHistory i ≤ W) {runtime : Nat} (hruntime : runtime ≤ W)
    (samples : Int) (i : Fin 5) : (recordedHistory c runtime samples d).sumHistory i ≤ W := by
  have hmem := mem_latest (recordedHistory c runtime samples d).sumHistory
    (recordedHistory c runtime samples d).cidx i
  unfold recordedHistory at hmem
  rw [(latest_pushHistory _ _ _ d).1] at hmem
  rcases List.mem_append.mp (List.mem_of_mem_take hmem) with hnew | hold
  · rw [recordedHistory, List.eq_of_mem_replicate hnew]
    exact hruntime
  · rw [latest] at hold
    simp only [List.mem_cons, List.not_mem_nil, or_false] at hold
    rw [recordedHistory]
    rcases hold with heq | heq | heq | heq | heq <;> rw [heq] <;> exact h _

section
variable {runtime : Nat} (h : ∀ i, d.sumHistory i ≤ W) (hruntime : runtime ≤ W) (samples : Int)
include h hruntime samples

theorem recordedAvg_le : recordedAvg c runtime samples d ≤ W := by
  have hsum := historySum_le fun i => recordedHistory_le (c := c) h hruntime samples i
  refine (Nat.mod_le _ _).trans (Nat.div_le_of_le_mul ?_)
  exact hsum

theorem recordedDemand_le : recordedDemand c runtime samples d ≤ W := by
  have havg := recordedAvg_le (c := c) h hruntime samples
  unfold recordedDemand policyDemand
  cases c.statsPolicy with
  | recent => exact hruntime
  | max => exact historyMax_le fun i => recordedHistory_le h hruntime samples i
  | maxRecentAvg => exact max_le havg hruntime
  | avg => exact havg

end

theorem within_updateHistory (hW : c.schedRavgWindow = W) (h : WithinWindow W x.2) (hsum : x.2.sum ≤ W)
    {runtime : Nat} (hruntime : runtime ≤ W) (samples : Int) :
    WithinWindow W (updateHistory c t runtime samples x).2 ∧
      (updateHistory c t runtime samples x).2.sum ≤ W := by
  by_cases hinactive : runtime = 0 ∨ t.idle = true ∨ samples = 0
  · rw [updateHistory_inactive hinactive]
    exact ⟨h, hsum⟩
  · simp only [not_or, Bool.not_eq_true] at hinactive
    obtain ⟨demand, pred, giant, trailblazer, highUtilHistory, hdemand, heq⟩ :=
      updateHistory_task (c := c) hinactive.1 hinactive.2.1 hinactive.2.2 x
    have hle : demand ≤ W := by
      rcases hdemand with rfl | ⟨-, rfl⟩
      · exact recordedDemand_le h.1 hruntime samples
      · rw [hW]
        exact (Nat.mod_le _ _).trans (Nat.mul_div_le W 1024)
    rw [heq]
    refine ⟨⟨fun i => recordedHistory_le h.1 hruntime samples i, hle, ?_⟩, Nat.zero_le W⟩
    rw [hW]
    exact (Nat.mod_le _ _).trans (Nat.div_le_div_right hle)

end History

theorem within_addToTaskDemand (hW : c.schedRavgWindow = W) (h : WithinWindow W d) (grp : Bool)
    (delta : Nat) : WithinWindow W (addToTaskDemand c grp delta d) ∧
      (addToTaskDemand c grp delta d).sum ≤ W := by
  refine ⟨h, ?_⟩
  simp only [addToTaskDemand, hW]
  split_ifs <;> omega

theorem multFrac_ge {val : Int} (hlo : -90 ≤ val) : -1024 ≤ multFrac 1024 val 100 := by
  have hparts : multFrac 1024 val 100 = 10 * val + (24 * val).tdiv 100 := rfl
  have hfrac : -22 ≤ (24 * val).tdiv 100 := by
    rcases Int.le_total 0 val with hpos | hneg
    · exact (by decide : (-22 : Int) ≤ 0).trans (Int.tdiv_nonneg (by omega) (by decide))
    · have hflip : (24 * val).tdiv 100 = -((-(24 * val)).tdiv 100) := by
        rw [Int.neg_tdiv, Int.neg_neg]
      rw [hflip, Int.tdiv_eq_ediv_of_nonneg (by omega)]
      omega
  omega

theorem scaleExecTime_le (hc : Permitted c) (W : Nat) (grp : Bool)
    (hboost : c.loadBoost = true → grp = true → c.boostedTaskLoad ≤ 0) : scaleExecTime c grp W ≤ W := by
  obtain ⟨hscale, val, hlo, hhi, -, hload⟩ := hc
  have hdelta : u64 (W * c.taskExecScale) / 2 ^ SCHED_CAPACITY_SHIFT ≤ W := by
    refine Nat.div_le_of_le_mul ((Nat.mod_le _ _).trans ?_)
    rw [Nat.mul_comm]
    exact Nat.mul_le_mul_right W hscale
  unfold scaleExecTime
  split
  · rename_i hboosted
    rw [Bool.and_eq_true] at hboosted
    have hneg := hboost hboosted.1 hboosted.2
    have hfactor : u64Int (1024 + c.boostedTaskLoad) ≤ 1024 := by
      unfold u64Int
      have hval : -1024 ≤ c.boostedTaskLoad := hload ▸ multFrac_ge hlo
      omega
    refine Nat.div_le_of_le_mul ((Nat.mod_le _ _).trans ?_)
    calc _ ≤ W * 1024 := Nat.mul_le_mul hdelta hfactor
      _ = 1024 * W := Nat.mul_comm _ _
  · exact hdelta

theorem within_updateTaskDemand (hc : Permitted c) (hW : c.schedRavgWindow = W)
    (h : WithinWindow W x.2) (hsum : x.2.sum ≤ W) (windowStart : Nat)
    (hbulk : c.loadBoost = true → t.grp = true → 0 < c.boostedTaskLoad →
      accountBusyForTaskDemand c t.idle = true → t.markStart < windowStart →
      int32 ((windowStart - t.markStart) / W) ≠ 0 → u32 (scaleExecTime c true W) ≤ W) :
    WithinWindow W (updateTaskDemand c windowStart t x).2 ∧
      (updateTaskDemand c windowStart t x).2.sum ≤ W := by
  unfold updateTaskDemand
  dsimp only
  split
  · rename_i hbusy
    split
    · rename_i hnew
      have hfirst := within_addToTaskDemand hW h t.grp (elapsed (addWindows windowStart
        (-int32 ((windowStart - t.markStart) / c.schedRavgWindow)) c.schedRavgWindow) t.markStart)
      have hpushed := within_updateHistory (t := t) (x := (x.1, _)) hW hfirst.1 hfirst.2 hfirst.2 1
      split
      · rename_i hfull
        have hwindow : u32 (scaleExecTime c t.grp c.schedRavgWindow) ≤ W := by
          rw [hW] at hfull ⊢
          by_cases hup : c.loadBoost = true ∧ t.grp = true ∧ 0 < c.boostedTaskLoad
          · rw [hup.2.1]
            exact hbulk hup.1 hup.2.1 hup.2.2 hbusy hnew hfull
          · refine (Nat.mod_le _ _).trans (scaleExecTime_le hc W t.grp fun hload hgrp => ?_)
            exact Int.not_lt.mp fun hpos => hup ⟨hload, hgrp, hpos⟩
        have hall := within_updateHistory (t := t) hW hpushed.1 hpushed.2 hwindow
        exact within_addToTaskDemand hW (hall _).1 _ _
      · exact within_addToTaskDemand hW hpushed.1 _ _
    · exact within_addToTaskDemand hW h _ _
  · split
    · exact within_updateHistory hW h hsum hsum 1
    · exact ⟨h, hsum⟩

theorem updateTaskPredDemand_task (x : WaltSchedStats × TaskDemand) :
    ∃ pred giant, (updateTaskPredDemand c t x).2 =
      { x.2 with predDemandScaled := pred, giant := giant } := by
  unfold updateTaskPredDemand
  dsimp only
  split_ifs
  any_goals exact ⟨x.2.predDemandScaled, x.2.giant, rfl⟩
  · obtain ⟨giant, heq⟩ := fixupWaltSchedStatsCommon_task (c := c) x.2.demandScaled
      (getPredBusy (isNewTask t) (busyToBucket (u16 (scaleTimeToUtil c.schedRavgWindow t.currWindow)))
        (u16 (scaleTimeToUtil c.schedRavgWindow t.currWindow)) x.2) x
    exact ⟨_, giant, by rw [heq]⟩
  · exact ⟨_, x.2.giant, rfl⟩

section Step
variable [DecidableEq Cpu] {u : RavgCall Cpu} {d' : TaskDemand}

theorem accountTask_demand (cpu : Cpu) (q : Wrq) (t : Wts Cpu) :
    ∃ pred giant, (accountTask c cpu q t).2.demand =
      { (updateTaskDemand c q.windowStart t (q.stats, t.demand)).2 with
        predDemandScaled := pred, giant := giant } := by
  obtain ⟨y, hy⟩ : ∃ y, y = updateTaskDemand c q.windowStart t (q.stats, t.demand) := ⟨_, rfl⟩
  have hbusy := updateCpuBusyTime_totals c cpu { q with stats := y.1 } { t with demand := y.2 }
  obtain ⟨pred, giant, heq⟩ := updateTaskPredDemand_task (c := c)
    (t := (updateCpuBusyTime c cpu { q with stats := y.1 } { t with demand := y.2 }).2) y
  refine ⟨pred, giant, ?_⟩
  simp only [accountTask, ← hy, hbusy]
  exact heq

theorem within_ravgStep (hc : Permitted u.call) (hbulk : BulkFits u) (h : WithinWindow W d)
    (hsum : d.sum ≤ W) (hstep : ravgStep W d u = some d') : WithinWindow W d' ∧ d'.sum ≤ W := by
  simp only [ravgStep, updateRavg, Option.ite_none_right_eq_some] at hstep
  obtain ⟨hW, hstep⟩ := hstep
  split at hstep
  · obtain rfl := Option.some.inj hstep
    exact ⟨h, hsum⟩
  · simp only [Option.map_map, Option.map_eq_some_iff] at hstep
    obtain ⟨q, hq, rfl⟩ := hstep
    simp only [Function.comp_apply, updateTaskAndRq]
    split
    · rw [firstWindow_demand]
      exact ⟨h, hsum⟩
    · obtain ⟨pred, giant, heq⟩ := accountTask_demand (c := u.call) u.cpu q
        (firstWindow q { u.task with demand := d })
      obtain ⟨start, -, hfirst⟩ := firstWindow_eq q { u.task with demand := d }
      rw [heq, firstWindow_demand, hfirst]
      exact within_updateTaskDemand (t := { u.task with demand := d, windowStart := start })
        (x := (q.stats, d)) hc hW h hsum q.windowStart fun hload hgrp hpos hbusy hnew hfull =>
          hW ▸ hbulk hload hgrp hpos hbusy q hq hnew (hW ▸ hfull)

end Step

/-- Along every run of permitted updates that meet the condition, the samples, the demand and its scaled
value stay within a window. -/
theorem demand_within_window [DecidableEq Cpu] {us : List (RavgCall Cpu)} {d' : TaskDemand}
    (h : WithinWindow W d) (hsum : d.sum ≤ W)
    (hok : Along (ravgStep W) (fun _ u => Permitted u.call ∧ BulkFits u) d us)
    (hrun : run (ravgStep W) d us = some d') : WithinWindow W d' := by
  refine (run_invariant (I := fun d => WithinWindow W d ∧ d.sum ≤ W) ?_ ⟨h, hsum⟩ hok hrun).1
  exact fun s u v hs hu hstep => within_ravgStep hu.1 hu.2 hs.1 hs.2 hstep

def boostedUpdate (val : Int) (elapsed : Nat) : RavgCall Unit where
  call := { plainTick (16000000 + elapsed) with
    loadBoost := decide (val ≠ 0), boostedTaskLoad := multFrac 1024 val 100 }
  cpu := ()
  rq := initRq 16000000 16000000
  task := { initNewTaskLoad false with markStart := 16000000, grp := true }

theorem demand_within_window_unboosted :
    ∃ d', run (ravgStep 16000000) freshTask.2 [boostedUpdate (-50) 40000000] = some d' ∧
      d'.sum ≤ 16000000 ∧ WithinWindow 16000000 d' := by
  have hpermitted : Permitted (boostedUpdate (-50) 40000000).call :=
    ⟨by decide, -50, by decide, by decide, rfl, rfl⟩
  have hfits : BulkFits (boostedUpdate (-50) 40000000) :=
    fun _ _ hpos => absurd hpos (by decide)
  refine exists_run_and (by decide +kernel) fun d' hd' _ => demand_within_window ?_ (Nat.zero_le _)
    (along_of_mem (p := fun u => Permitted u.call ∧ BulkFits u) fun u hu => ?_) hd'
  · exact ⟨fun _ => Nat.zero_le _, Nat.zero_le _, Nat.zero_le _⟩
  · obtain rfl := List.mem_singleton.mp hu
    exact ⟨hpermitted, hfits⟩

/-- With a load boost of 90 percent, two whole windows are recorded as 30.4 ms each, and the demand is
more than a window. -/
theorem boosted_window_exceeds :
    (run (ravgStep 16000000) freshTask.2 [boostedUpdate 90 40000000]).map
      (fun d => (d.sumHistory 0, d.sumHistory 1, d.demand)) = some (30390625, 30390625, 30390625) := by
  decide +kernel

end MsmKernel.Walt
