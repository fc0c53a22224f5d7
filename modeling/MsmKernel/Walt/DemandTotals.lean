import Mathlib.Algebra.Order.Pi
import MsmKernel.Walt.Effects

/-! What a task contributes to the totals of its runqueue, and that the functions which change its
demand and flags patch the totals by exactly the change when the task is queued, and leave them
alone when it is not. -/
set_option linter.unusedSectionVars false

namespace MsmKernel.Walt

inductive Quantity where
  | demand | predDemand | big | rtgHighPrio | trailblazer | giant

def WaltSchedStats.total (stats : WaltSchedStats) : Quantity → Int
  | .demand => stats.cumulativeRunnableAvgScaled
  | .predDemand => stats.predDemandsSumScaled
  | .big => stats.nrBigTasks
  | .rtgHighPrio => stats.nrRtgHighPrioTasks
  | .trailblazer => stats.nrTrailblazerTasks
  | .giant => stats.nrGiantTasks

open WaltSchedStats

/- What an enqueued task is worth; only fair tasks are counted. -/
def contribution (fair misfit rtgHighPrio : Bool) (d : TaskDemand) : Quantity → Int
  | .demand => d.demandScaled
  | .predDemand => d.predDemandScaled
  | .big => (fair && misfit).toNat
  | .rtgHighPrio => (fair && rtgHighPrio).toNat
  | .trailblazer => (fair && d.trailblazer).toNat
  | .giant => (fair && d.giant).toNat

theorem contribution_nonneg (fair misfit rtgHighPrio : Bool) (d : TaskDemand) :
    0 ≤ contribution fair misfit rtgHighPrio d := by
  intro k
  cases k <;> simp [contribution]

structure Held (fair misfit rtgHighPrio : Bool) (others : Quantity → Int)
    (x : WaltSchedStats × TaskDemand) : Prop where
  total : x.1.total = others + contribution fair misfit rtgHighPrio x.2
  sound : x.1.checkFailed = false

variable {fair : Bool}

section Demand
variable {Cpu : Type} {c : Call} {misfit rtgHighPrio : Bool} {others : Quantity → Int}
  {x : WaltSchedStats × TaskDemand} {t : Wts Cpu}

theorem Held.of_contribution {d : TaskDemand} (h : Held fair misfit rtgHighPrio others x)
    (hd : contribution fair misfit rtgHighPrio d = contribution fair misfit rtgHighPrio x.2) :
    Held fair misfit rtgHighPrio others (x.1, d) :=
  ⟨by rw [hd]; exact h.total, h.sound⟩

theorem contribution_pushHistory (fair : Bool) (runtime runtimeScaled samples : Nat)
    (d : TaskDemand) :
    contribution fair misfit rtgHighPrio (pushHistory runtime runtimeScaled samples d) =
      contribution fair misfit rtgHighPrio d := by
  induction samples generalizing d with
  | zero => rfl
  | succ samples ih =>
    rw [pushHistory, ih]
    funext k
    cases k <;> rfl

theorem held_fixupCumulativeRunnableAvg (hothers : 0 ≤ others)
    (demandScaled predDemandScaled : Nat) (h : Held fair misfit rtgHighPrio others x) :
    Held fair misfit rtgHighPrio others
      (fixupCumulativeRunnableAvg ((demandScaled : Int) - x.2.demandScaled)
        ((predDemandScaled : Int) - x.2.predDemandScaled) x.1,
        { x.2 with demandScaled, predDemandScaled }) := by
  have hdemand := congrFun h.total .demand
  have hpred := congrFun h.total .predDemand
  have hod := hothers .demand
  have hop := hothers .predDemand
  simp only [total, contribution, Pi.add_apply, Pi.zero_apply] at hdemand hpred hod hop
  refine ⟨funext fun k => ?_, ?_⟩
  · cases k with
    | demand =>
      simp only [total, contribution, Pi.add_apply, fixupCumulativeRunnableAvg]
      omega
    | predDemand =>
      simp only [total, contribution, Pi.add_apply, fixupCumulativeRunnableAvg]
      omega
    | big => exact congrFun h.total .big
    | rtgHighPrio => exact congrFun h.total .rtgHighPrio
    | trailblazer => exact congrFun h.total .trailblazer
    | giant => exact congrFun h.total .giant
  · simp only [fixupCumulativeRunnableAvg, h.sound, Bool.false_or, Bool.or_eq_false_iff,
      decide_eq_false_iff_not]
    constructor <;> omega

theorem Held.change {y : WaltSchedStats × TaskDemand} (h : Held fair misfit rtgHighPrio others x)
    (k : Quantity) (hk : y.1.total k + contribution fair misfit rtgHighPrio x.2 k =
      x.1.total k + contribution fair misfit rtgHighPrio y.2 k)
    (hoff : ∀ j, j ≠ k → y.1.total j = x.1.total j ∧
      contribution fair misfit rtgHighPrio y.2 j = contribution fair misfit rtgHighPrio x.2 j)
    (hsound : y.1.checkFailed = x.1.checkFailed) : Held fair misfit rtgHighPrio others y := by
  refine ⟨funext fun j => ?_, hsound.trans h.sound⟩
  have hj := congrFun h.total j
  rw [Pi.add_apply] at hj ⊢
  by_cases hjk : j = k
  · subst hjk
    omega
  · rw [(hoff j hjk).1, (hoff j hjk).2, hj]

theorem held_fixupNrGiant (hothers : 0 ≤ others) (demandScaled : Nat)
    (h : Held true misfit rtgHighPrio others x) :
    Held true misfit rtgHighPrio others (fixupNrGiant c demandScaled x) := by
  have hgiant := congrFun h.total .giant
  have hog := hothers .giant
  simp only [total, contribution, Pi.add_apply, Pi.zero_apply, Bool.true_and] at hgiant hog
  simp only [fixupNrGiant]
  split_ifs with hbig hflag hflag
  · exact h
  · rw [Bool.not_eq_true] at hflag
    refine h.change .giant ?_ (fun j hj => ?_) rfl
    · simp [total, contribution, hflag]
    · cases j <;> first | exact absurd rfl hj | exact ⟨rfl, rfl⟩
  · refine h.change .giant ?_ (fun j hj => ?_) rfl
    · simp only [hflag, Bool.toNat_true] at hgiant
      simp only [total, contribution, hflag, Bool.true_and, Bool.toNat_true, Bool.toNat_false]
      omega
    · cases j <;> first | exact absurd rfl hj | exact ⟨rfl, rfl⟩
  · exact h

theorem held_fixupWaltSchedStatsCommon (hothers : 0 ≤ others)
    (demandScaled predDemandScaled : Nat) (h : Held c.fair misfit rtgHighPrio others x) :
    Held c.fair misfit rtgHighPrio others
      ((fixupWaltSchedStatsCommon c demandScaled predDemandScaled x).1,
        { (fixupWaltSchedStatsCommon c demandScaled predDemandScaled x).2 with
          demandScaled, predDemandScaled }) := by
  have hfix := held_fixupCumulativeRunnableAvg hothers demandScaled predDemandScaled h
  simp only [fixupWaltSchedStatsCommon]
  cases hfair : c.fair with
  | false =>
    rw [hfair] at hfix
    exact hfix
  | true =>
    rw [hfair] at hfix
    have hgiant := held_fixupNrGiant (c := c) hothers demandScaled hfix
    simp only [fixupNrGiant] at hgiant ⊢
    split_ifs at hgiant ⊢ <;> exact hgiant

theorem held_updateTrailblazerAccounting (hqueued : c.queued = true)
    (h : Held true misfit rtgHighPrio others x) (markStart runtime runtimeScaled demand : Nat) :
    Held true misfit rtgHighPrio others
      (updateTrailblazerAccounting c markStart runtime runtimeScaled demand x).2 := by
  simp only [updateTrailblazerAccounting, hqueued, if_true]
  generalize (!c.pipelineInProgress && c.trailblazerFeature && _ : Bool) = trailblazer
  refine h.change .trailblazer ?_ (fun j hj => ?_) rfl
  · cases hflag : x.2.trailblazer <;> cases trailblazer <;>
      simp [total, contribution, hflag]
  · cases j <;> first | exact absurd rfl hj | exact ⟨rfl, rfl⟩

theorem held_storeDemand (hqueued : c.queued = true) (hothers : 0 ≤ others)
    {y : Nat × WaltSchedStats × TaskDemand} (h : Held c.fair misfit rtgHighPrio others y.2)
    (newTask : Bool) (runtimeScaled avg : Nat) :
    Held c.fair misfit rtgHighPrio others (storeDemand c newTask runtimeScaled avg y) := by
  have hpred := h.of_contribution (d := (predictAndUpdateBuckets newTask runtimeScaled y.2.2).2)
    (funext fun k => by cases k <;> rfl)
  have hfix := held_fixupWaltSchedStatsCommon hothers
    (u16 (scaleTimeToUtil c.schedRavgWindow y.1))
    (predictAndUpdateBuckets newTask runtimeScaled y.2.2).1 hpred
  simp only [storeDemand, hqueued, if_true]
  refine ⟨hfix.total.trans (congrArg (others + ·) (funext fun k => ?_)), hfix.sound⟩
  cases k <;> rfl

theorem held_updateHistory (hqueued : c.queued = true) (hothers : 0 ≤ others)
    (h : Held c.fair misfit rtgHighPrio others x) (runtime : Nat) (samples : Int) :
    Held c.fair misfit rtgHighPrio others (updateHistory c t runtime samples x) := by
  have hpush : Held c.fair misfit rtgHighPrio others
      (x.1, { pushHistory runtime (u16 (scaleTimeToUtil c.schedRavgWindow runtime)) samples.toNat
        x.2 with sum := 0 }) :=
    h.of_contribution (contribution_pushHistory c.fair runtime _ samples.toNat x.2)
  simp only [updateHistory]
  split_ifs with hskip htb
  · exact h
  · refine held_storeDemand hqueued hothers ?_ _ _ _
    rw [(Bool.and_eq_true_iff.1 htb).1] at hpush ⊢
    exact held_updateTrailblazerAccounting hqueued hpush _ _ _ _
  · exact held_storeDemand hqueued hothers hpush _ _ _

theorem held_addToTaskDemand (h : Held fair misfit rtgHighPrio others x) (grp : Bool)
    (delta : Nat) : Held fair misfit rtgHighPrio others (x.1, addToTaskDemand c grp delta x.2) :=
  h.of_contribution (funext fun k => by cases k <;> rfl)

theorem held_updateTaskDemand (hqueued : c.queued = true) (hothers : 0 ≤ others)
    (h : Held c.fair misfit rtgHighPrio others x) (windowStart : Nat) :
    Held c.fair misfit rtgHighPrio others (updateTaskDemand c windowStart t x) := by
  simp only [updateTaskDemand]
  split_ifs
  · refine held_addToTaskDemand ?_ _ _
    exact held_updateHistory hqueued hothers
      (held_updateHistory hqueued hothers (held_addToTaskDemand h _ _) _ _) _ _
  · refine held_addToTaskDemand ?_ _ _
    exact held_updateHistory hqueued hothers (held_addToTaskDemand h _ _) _ _
  · exact held_addToTaskDemand h _ _
  · exact held_updateHistory hqueued hothers h _ _
  · exact h

theorem held_updateTaskPredDemand (hqueued : c.queued = true) (hothers : 0 ≤ others)
    (h : Held c.fair misfit rtgHighPrio others x) :
    Held c.fair misfit rtgHighPrio others (updateTaskPredDemand c t x) := by
  simp only [updateTaskPredDemand, hqueued, if_true]
  split_ifs
  · exact h
  · exact h
  · exact h
  · exact h
  · have hfix := held_fixupWaltSchedStatsCommon hothers x.2.demandScaled
      (getPredBusy (isNewTask t)
        (busyToBucket (u16 (scaleTimeToUtil c.schedRavgWindow t.currWindow)))
        (u16 (scaleTimeToUtil c.schedRavgWindow t.currWindow)) x.2) h
    refine ⟨hfix.total.trans (congrArg (others + ·) (funext fun k => ?_)), hfix.sound⟩
    cases k with
    | demand =>
      simp only [contribution, fixupWaltSchedStatsCommon, fixupNrGiant]
      split_ifs <;> rfl
    | predDemand | big | rtgHighPrio | trailblazer | giant => rfl

variable (hqueued : c.queued = false)
include hqueued

theorem updateHistory_stats (runtime : Nat) (samples : Int) :
    (updateHistory c t runtime samples x).1 = x.1 := by
  have hstore (newTask : Bool) (runtimeScaled avg : Nat) (y : Nat × WaltSchedStats × TaskDemand) :
      (storeDemand c newTask runtimeScaled avg y).1 = y.2.1 := by
    simp [storeDemand, hqueued]
  simp only [updateHistory]
  split_ifs
  · rfl
  · rw [hstore]
    simp [updateTrailblazerAccounting, hqueued]
  · rw [hstore]

theorem updateTaskDemand_stats (windowStart : Nat) :
    (updateTaskDemand c windowStart t x).1 = x.1 := by
  simp only [updateTaskDemand]
  split_ifs <;> simp only [updateHistory_stats hqueued]

theorem updateTaskPredDemand_stats : (updateTaskPredDemand c t x).1 = x.1 := by
  have hskip : ¬ c.queued = true := by simp [hqueued]
  simp only [updateTaskPredDemand, if_neg hskip]
  split_ifs <;> rfl

end Demand
section BusyTime
variable {Cpu : Type} [DecidableEq Cpu] (c : Call) (cpu : Cpu) (q : Wrq) (t : Wts Cpu)

theorem updateCpuBusyTime_totals : (updateCpuBusyTime c cpu q t).1.stats = q.stats ∧
    (updateCpuBusyTime c cpu q t).2.demand = t.demand := by
  obtain ⟨sums, grpTime, topTasks, hrq⟩ := updateCpuBusyTime_rq c cpu q t
  obtain ⟨_, _, _, _, _, _, hwts⟩ := accountBusyTime_wts c cpu q t
  rw [hrq, updateCpuBusyTime_snd, hwts]
  exact ⟨rfl, rfl⟩

theorem updateWindowStart_stats {window wallclock : Nat} {q q' : Wrq}
    (h : updateWindowStart window wallclock q = some q') : q'.stats = q.stats := by
  have hrolled (latestClock windowStart prevWindowSize : Nat) (full : Bool) (topTasks : TopTasks) :
      { rolloverCpuWindow full { q with latestClock, windowStart, prevWindowSize } with
        topTasks }.stats = q.stats := rfl
  simp only [updateWindowStart] at h
  split_ifs at h
  · rw [← Option.some.inj h]
  · rw [← Option.some.inj h]
    exact hrolled _ _ _ _ _

theorem held_accountTask {misfit rtgHighPrio : Bool} {others : Quantity → Int}
    (hqueued : c.queued = true) (hothers : 0 ≤ others)
    (h : Held c.fair misfit rtgHighPrio others (q.stats, t.demand)) :
    Held c.fair misfit rtgHighPrio others
      ((accountTask c cpu q t).1.stats, (accountTask c cpu q t).2.demand) := by
  obtain ⟨x, hx⟩ : ∃ x, x = updateTaskDemand c q.windowStart t (q.stats, t.demand) := ⟨_, rfl⟩
  have hheld : Held c.fair misfit rtgHighPrio others x := by
    rw [hx]
    exact held_updateTaskDemand hqueued hothers h q.windowStart
  have hbusy := updateCpuBusyTime_totals c cpu { q with stats := x.1 } { t with demand := x.2 }
  simp only [accountTask, ← hx, hbusy]
  exact held_updateTaskPredDemand hqueued hothers hheld

theorem accountTask_stats (hqueued : c.queued = false) :
    (accountTask c cpu q t).1.stats = q.stats := by
  obtain ⟨x, hx⟩ : ∃ x, x = updateTaskDemand c q.windowStart t (q.stats, t.demand) := ⟨_, rfl⟩
  have hbusy := updateCpuBusyTime_totals c cpu { q with stats := x.1 } { t with demand := x.2 }
  simp only [accountTask, ← hx, hbusy, updateTaskPredDemand_stats hqueued]
  rw [hx, updateTaskDemand_stats hqueued]

theorem firstWindow_demand : (firstWindow q t).demand = t.demand := by
  simp only [firstWindow]
  split_ifs <;> rfl

theorem held_updateTaskAndRq {misfit rtgHighPrio : Bool} {others : Quantity → Int}
    (hqueued : c.queued = true) (hothers : 0 ≤ others)
    (h : Held c.fair misfit rtgHighPrio others (q.stats, t.demand)) :
    Held c.fair misfit rtgHighPrio others
      ((updateTaskAndRq c cpu q t).1.stats, (updateTaskAndRq c cpu q t).2.demand) := by
  have hfirst : Held c.fair misfit rtgHighPrio others (q.stats, (firstWindow q t).demand) := by
    rwa [firstWindow_demand]
  simp only [updateTaskAndRq]
  split_ifs
  · exact hfirst
  · exact held_accountTask c cpu q (firstWindow q t) hqueued hothers hfirst

theorem updateTaskAndRq_stats (hqueued : c.queued = false) :
    (updateTaskAndRq c cpu q t).1.stats = q.stats := by
  simp only [updateTaskAndRq]
  split_ifs
  · rfl
  · exact accountTask_stats c cpu q _ hqueued

end BusyTime

end MsmKernel.Walt
