import Mathlib.Algebra.BigOperators.Pi
import Mathlib.Algebra.BigOperators.Ring.Finset
import MsmKernel.Lib.Account
import MsmKernel.Walt.DemandTotals

/-! Runqueue totals: each total of walt_sched_stats is the sum of what the enqueued tasks
contribute to it, in every state the hooks can reach. -/
set_option linter.unusedSectionVars false

namespace MsmKernel.Walt
open Run Account Finset WaltSchedStats
variable {Task Cpu : Type} [DecidableEq Task] [DecidableEq Cpu]

def share (s : State Task Cpu) (cpu : Cpu) (p : Task) : Quantity → Int :=
  if s.queued p = true ∧ s.taskCpu p = cpu then
    contribution (s.waltFairTask p) (s.wts p).misfit (s.wts p).rtgHighPrio (s.wts p).demand
  else 0

theorem share_nonneg (s : State Task Cpu) (cpu : Cpu) (p : Task) : 0 ≤ share s cpu p := by
  simp only [share]
  split_ifs
  · exact contribution_nonneg _ _ _ _
  · exact le_rfl

variable {p : Task}

theorem share_of_not_queued {s : State Task Cpu} (h : s.queued p = false) (cpu : Cpu) :
    share s cpu p = 0 := by
  simp [share, h]

theorem share_of_ne {s : State Task Cpu} {cpu : Cpu} (h : cpu ≠ s.taskCpu p) :
    share s cpu p = 0 := by
  simp [share, Ne.symm h]

structure SameShare (t t' : Wts Cpu) : Prop where
  idle : t'.idle = t.idle
  misfit : t'.misfit = t.misfit
  rtgHighPrio : t'.rtgHighPrio = t.rtgHighPrio
  prevOnRq : t'.prevOnRq = t.prevOnRq
  demand : t'.demand = t.demand

structure SameTotals (s t : State Task Cpu) : Prop where
  stats : ∀ cpu, (t.rq cpu).stats = (s.rq cpu).stats
  queued : t.queued = s.queued
  fair : t.fair = s.fair
  wts : ∀ p, SameShare (s.wts p) (t.wts p)

theorem SameTotals.of_fixed {s t : State Task Cpu} {cpus : Task → Cpu}
    (h : t.fixed = { s.fixed with taskCpu := cpus }) : SameTotals s t := by
  have hwts p : (t.wts p).fixed = (s.wts p).fixed := congrArg (fun u => u.wts p) h
  refine ⟨fun cpu => (congrArg (fun u => (u.rq cpu).stats) h :), (congrArg State.queued h :),
    (congrArg State.fair h :), fun p => ?_⟩
  exact ⟨(congrArg Wts.idle (hwts p) :), (congrArg Wts.misfit (hwts p) :),
    (congrArg Wts.rtgHighPrio (hwts p) :), (congrArg Wts.prevOnRq (hwts p) :),
    (congrArg Wts.demand (hwts p) :)⟩

section Queue
variable {r : Wts Cpu} {stats : WaltSchedStats} {others : Quantity → Int}

theorem total_enqueued (fair : Bool) (h : stats.checkFailed = false) :
    let stats' := waltIncCumulativeRunnableAvg r (if fair then incRqWaltStats r stats else stats)
    stats'.total = stats.total + contribution fair r.misfit r.rtgHighPrio r.demand ∧
      stats'.checkFailed = false := by
  refine ⟨funext fun k => ?_, ?_⟩
  · cases fair <;> cases k <;>
      simp [total, contribution, waltIncCumulativeRunnableAvg,
        fixupCumulativeRunnableAvg, incRqWaltStats] <;> omega
  · cases fair <;>
      simp [waltIncCumulativeRunnableAvg, fixupCumulativeRunnableAvg, incRqWaltStats, h] <;> omega

theorem total_dequeued (fair : Bool) (hothers : 0 ≤ others) (h : stats.checkFailed = false)
    (htotal : stats.total = others + contribution fair r.misfit r.rtgHighPrio r.demand) :
    let stats' := waltDecCumulativeRunnableAvg r (if fair then decRqWaltStats r stats else stats)
    stats'.total = others ∧ stats'.checkFailed = false := by
  have hk (k : Quantity) := congrFun htotal k
  have hdemand := hk .demand
  have hpred := hk .predDemand
  have hbig := hk .big
  have hrtg := hk .rtgHighPrio
  have htrail := hk .trailblazer
  have hgiant := hk .giant
  have h0 (k : Quantity) := hothers k
  have hod := h0 .demand
  have hop := h0 .predDemand
  have hob := h0 .big
  have hot := h0 .trailblazer
  have hog := h0 .giant
  simp only [total, contribution, Pi.add_apply, Pi.zero_apply]
    at hdemand hpred hbig hrtg htrail hgiant hod hop hob hot hog
  refine ⟨funext fun k => ?_, ?_⟩
  · cases fair <;> cases k <;>
      simp [total, waltDecCumulativeRunnableAvg, fixupCumulativeRunnableAvg,
        decRqWaltStats] at * <;> omega
  · cases fair <;>
      simp [waltDecCumulativeRunnableAvg, fixupCumulativeRunnableAvg, decRqWaltStats, h] at * <;>
      omega

end Queue

theorem share_congr {s t : State Task Cpu} (hqueued : t.queued p = s.queued p)
    (hcpu : s.queued p = true → t.taskCpu p = s.taskCpu p) (hfair : t.fair p = s.fair p)
    (hwts : SameShare (s.wts p) (t.wts p)) (cpu : Cpu) : share t cpu p = share s cpu p := by
  cases hq : s.queued p with
  | false => rw [share_of_not_queued hq, share_of_not_queued (hqueued.trans hq)]
  | true =>
    simp only [share, hqueued, hq, hcpu hq, State.waltFairTask, hfair, hwts.idle, hwts.misfit,
      hwts.rtgHighPrio, hwts.demand]

theorem SameShare.refl (t : Wts Cpu) : SameShare t t := ⟨rfl, rfl, rfl, rfl, rfl⟩

variable {env : Env} {event : TaskEvent} {wallclock irqtime : Nat} {fitsMax : Bool}

theorem update_share {s t : State Task Cpu} {others : Quantity → Int} (hothers : 0 ≤ others)
    (hsound : (s.rq (s.taskCpu p)).stats.checkFailed = false)
    (htotal : (s.rq (s.taskCpu p)).stats.total = others + share s (s.taskCpu p) p)
    (h : waltUpdateTaskRavg env p event wallclock irqtime s = some t) :
    (t.rq (s.taskCpu p)).stats.total = others + share t (s.taskCpu p) p ∧
      (t.rq (s.taskCpu p)).stats.checkFailed = false := by
  have hframe := updateFrame h
  rcases update_cases h with ⟨rfl, -⟩ | ⟨q, hupd⟩
  · exact ⟨htotal, hsound⟩
  have hq := hupd.window
  obtain ⟨c, hc⟩ : ∃ c, c = s.call env p event wallclock irqtime := ⟨_, rfl⟩
  have hcq : c.queued = s.queued p := by rw [hc]; rfl
  have hcf : c.fair = s.waltFairTask p := by rw [hc]; rfl
  have hstats : (t.rq (s.taskCpu p)).stats =
      (updateTaskAndRq c (s.taskCpu p) q (s.wts p)).1.stats := by
    rw [hupd.rq, hc]
  have hdemand : (t.wts p).demand = (updateTaskAndRq c (s.taskCpu p) q (s.wts p)).2.demand := by
    rw [hupd.wts, hc]
  rw [hstats]
  cases hqueued : s.queued p with
  | false =>
    have hqueued' : t.queued p = false := by rw [hframe.queued, hqueued]
    rw [updateTaskAndRq_stats _ _ _ _ (hcq.trans hqueued), updateWindowStart_stats hq,
      share_of_not_queued hqueued', ← share_of_not_queued hqueued]
    exact ⟨htotal, hsound⟩
  | true =>
    have hheld : Held c.fair (s.wts p).misfit (s.wts p).rtgHighPrio others
        (q.stats, (s.wts p).demand) := by
      rw [updateWindowStart_stats hq, hcf]
      refine ⟨?_, hsound⟩
      rw [htotal, share, if_pos ⟨hqueued, rfl⟩]
    have hnew := held_updateTaskAndRq c (s.taskCpu p) q (s.wts p) (hcq.trans hqueued) hothers hheld
    have hfair : t.waltFairTask p = s.waltFairTask p := by
      rw [State.waltFairTask, hframe.fair, (hframe.flags p).idle]
      rfl
    refine ⟨?_, hnew.sound⟩
    rw [share, if_pos ⟨by rw [hframe.queued, hqueued], by rw [hframe.taskCpu]⟩, hfair,
      (hframe.flags p).misfit, (hframe.flags p).rtgHighPrio, hdemand, ← hcf]
    exact hnew.total

def State.requeue (s : State Task Cpu) (p : Task) (r : Wts Cpu) (stats : WaltSchedStats)
    (queued : Bool) : State Task Cpu :=
  ((s.setWts p r).setStats (s.taskCpu p) stats).setQueued p queued

theorem requeue_enqueue {s : State Task Cpu} (fitsMax rtgHighPrio : Bool)
    (hfirst : (s.wts p).prevOnRq ≠ .enqueued) :
    ∃ r : Wts Cpu, r.idle = (s.wts p).idle ∧ r.prevOnRq = .enqueued ∧
      (enqueueStats p fitsMax rtgHighPrio s).setQueued p true = s.requeue p r
        (waltIncCumulativeRunnableAvg r
          (if s.waltFairTask p then incRqWaltStats r (s.rq (s.taskCpu p)).stats
            else (s.rq (s.taskCpu p)).stats)) true := by
  refine ⟨if s.waltFairTask p then
      { s.wts p with prevOnRq := .enqueued, misfit := !fitsMax, rtgHighPrio }
    else { s.wts p with prevOnRq := .enqueued }, ?_, ?_, ?_⟩
  · split_ifs <;> rfl
  · split_ifs <;> rfl
  · simp only [enqueueStats, hfirst, if_false, not_false_eq_true, and_true]
    rfl

theorem requeue_dequeue {s : State Task Cpu} (hlast : (s.wts p).prevOnRq ≠ .dequeued) :
    dequeueStats p (s.setQueued p false) = s.requeue p { s.wts p with prevOnRq := .dequeued }
      (waltDecCumulativeRunnableAvg (s.wts p)
        (if s.waltFairTask p then decRqWaltStats (s.wts p) (s.rq (s.taskCpu p)).stats
          else (s.rq (s.taskCpu p)).stats)) false := by
  have hlast' : ((s.setQueued p false).wts p).prevOnRq ≠ .dequeued := hlast
  simp only [dequeueStats, hlast', if_false, not_false_eq_true, and_true]
  rfl

section Balanced
variable [Fintype Task] {s t : State Task Cpu} {topo : Topology Cpu}

structure Balanced (s : State Task Cpu) : Prop where
  total : ∀ cpu, (s.rq cpu).stats.total = ∑ p, share s cpu p
  sound : ∀ cpu, (s.rq cpu).stats.checkFailed = false
  enqueued : ∀ p, s.queued p = true ↔ (s.wts p).prevOnRq = .enqueued

section
variable (hs : Balanced s)
include hs

theorem Balanced.change (p : Task) (hother : ∀ cpu p', p' ≠ p → share t cpu p' = share s cpu p')
    (hp : ∀ cpu others, 0 ≤ others → (s.rq cpu).stats.checkFailed = false → (s.rq cpu).stats.total = others + share s cpu p → (t.rq cpu).stats.total = others + share t cpu p ∧ (t.rq cpu).stats.checkFailed = false)
    (henqueued : ∀ p', t.queued p' = true ↔ (t.wts p').prevOnRq = .enqueued) : Balanced t := by
  have hcpu cpu := hp cpu (rest (share s cpu) p) (sum_nonneg fun p' _ => share_nonneg s cpu p')
    (hs.sound cpu) ((hs.total cpu).trans (sum_eq_rest_add _ p))
  refine ⟨fun cpu => ?_, fun cpu => (hcpu cpu).2, henqueued⟩
  rw [(hcpu cpu).1, sum_eq_rest_add (share t cpu) p, rest_congr (hother cpu)]

theorem Balanced.sameTotals (h : SameTotals s t)
    (hcpu : ∀ p, s.queued p = true → t.taskCpu p = s.taskCpu p) : Balanced t := by
  have hshare cpu p : share t cpu p = share s cpu p :=
    share_congr (by rw [h.queued]) (hcpu p) (by rw [h.fair]) (h.wts p) cpu
  refine ⟨fun cpu => ?_, fun cpu => ?_, fun p => ?_⟩
  · rw [h.stats, hs.total]
    exact sum_congr rfl fun p _ => (hshare cpu p).symm
  · rw [h.stats, hs.sound]
  · rw [h.queued, (h.wts p).prevOnRq]
    exact hs.enqueued p

theorem Balanced.update (h : waltUpdateTaskRavg env p event wallclock irqtime s = some t) :
    Balanced t := by
  have hframe := updateFrame h
  refine hs.change p (fun cpu p' hne => ?_) (fun cpu others hothers hsound htotal => ?_)
    (fun p' => ?_)
  · refine share_congr (by rw [hframe.queued]) (fun _ => by rw [hframe.taskCpu])
      (by rw [hframe.fair]) ?_ cpu
    rw [hframe.wts p' hne]
    exact .refl _
  · by_cases hcpu : cpu = s.taskCpu p
    · subst hcpu
      exact update_share hothers hsound htotal h
    · have hcpu' : cpu ≠ t.taskCpu p := by rwa [hframe.taskCpu]
      rw [hframe.rq cpu hcpu, share_of_ne hcpu', ← share_of_ne hcpu]
      exact ⟨htotal, hsound⟩
  · rw [hframe.queued, (hframe.flags p').prevOnRq]
    exact hs.enqueued p'

theorem Balanced.requeue {r : Wts Cpu} {stats : WaltSchedStats} {queued : Bool}
    (hidle : r.idle = (s.wts p).idle) (hprev : queued = true ↔ r.prevOnRq = .enqueued)
    (hstats : ∀ others, 0 ≤ others → (s.rq (s.taskCpu p)).stats.checkFailed = false → (s.rq (s.taskCpu p)).stats.total = others + share s (s.taskCpu p) p → stats.total = others + (if queued then contribution (s.waltFairTask p) r.misfit r.rtgHighPrio r.demand else 0) ∧ stats.checkFailed = false) :
    Balanced (s.requeue p r stats queued) := by
  have hwts (p' : Task) : (s.requeue p r stats queued).wts p' = Function.update s.wts p r p' := rfl
  have hq (p' : Task) : (s.requeue p r stats queued).queued p' =
      Function.update s.queued p queued p' := rfl
  have hrq (cpu : Cpu) : (s.requeue p r stats queued).rq cpu = Function.update s.rq (s.taskCpu p)
      { s.rq (s.taskCpu p) with stats } cpu := rfl
  refine hs.change p (fun cpu p' hne => ?_) (fun cpu others hothers hsound htotal => ?_)
    (fun p' => ?_)
  · have hqueued : (s.requeue p r stats queued).queued p' = s.queued p' := by
      rw [hq, Function.update_of_ne hne]
    refine share_congr hqueued (fun _ => rfl) rfl ?_ cpu
    rw [hwts, Function.update_of_ne hne]
    exact .refl _
  · by_cases hcpu : cpu = s.taskCpu p
    · subst hcpu
      have hnew := hstats others hothers hsound htotal
      have hfair : (s.requeue p r stats queued).waltFairTask p = s.waltFairTask p := by
        rw [State.waltFairTask, hwts, Function.update_self, hidle]
        rfl
      have hshare : share (s.requeue p r stats queued) (s.taskCpu p) p = if queued then
          contribution (s.waltFairTask p) r.misfit r.rtgHighPrio r.demand else 0 := by
        simp only [share, hfair, hwts, hq, Function.update_self]
        exact if_congr (and_iff_left rfl) rfl rfl
      rw [hrq, Function.update_self, hshare]
      exact hnew
    · have hcpu' : cpu ≠ (s.requeue p r stats queued).taskCpu p := hcpu
      rw [hrq, Function.update_of_ne hcpu, share_of_ne hcpu', ← share_of_ne hcpu]
      exact ⟨htotal, hsound⟩
  · rw [hq, hwts]
    by_cases hp' : p' = p
    · subst hp'
      rw [Function.update_self, Function.update_self]
      exact hprev
    · rw [Function.update_of_ne hp', Function.update_of_ne hp']
      exact hs.enqueued p'

theorem Balanced.enqueue {rtgHighPrio : Bool} (hp : s.queued p = false) :
    Balanced ((enqueueStats p fitsMax rtgHighPrio s).setQueued p true) := by
  have hfirst : (s.wts p).prevOnRq ≠ .enqueued := fun h => by
    rw [(hs.enqueued p).2 h] at hp
    exact Bool.noConfusion hp
  obtain ⟨r, hidle, hprev, heq⟩ := requeue_enqueue fitsMax rtgHighPrio hfirst
  rw [heq]
  refine hs.requeue hidle (by simp [hprev]) fun others hothers hsound htotal => ?_
  rw [share_of_not_queued hp, add_zero] at htotal
  rw [← htotal]
  exact total_enqueued (s.waltFairTask p) hsound

theorem Balanced.dequeue (hp : s.queued p = true) :
    Balanced (dequeueStats p (s.setQueued p false)) := by
  have hprev := (hs.enqueued p).1 hp
  rw [requeue_dequeue (by simp [hprev])]
  refine hs.requeue rfl (by simp) fun others hothers hsound htotal => ?_
  rw [share, if_pos ⟨hp, rfl⟩] at htotal
  have hnew := total_dequeued (s.waltFairTask p) hothers hsound htotal
  exact ⟨by simpa using hnew.1, hnew.2⟩

end

theorem total_misfit {r : Wts Cpu} {stats : WaltSchedStats} {others : Quantity → Int}
    (misfit : Bool) (hothers : 0 ≤ others) (h : stats.checkFailed = false)
    (htotal : stats.total = others + contribution true r.misfit r.rtgHighPrio r.demand) :
    let nrBigTasks := stats.nrBigTasks + misfit.toNat - r.misfit.toNat
    let stats' : WaltSchedStats :=
      { stats with
        nrBigTasks
        checkFailed := stats.checkFailed ||
          (decide (misfit ≠ r.misfit) && decide (nrBigTasks < 0)) }
    stats'.total = others + contribution true misfit r.rtgHighPrio r.demand ∧
      stats'.checkFailed = false := by
  have hbig := congrFun htotal .big
  have hob := hothers .big
  simp only [total, contribution, Pi.add_apply, Pi.zero_apply, Bool.true_and] at hbig hob
  refine ⟨funext fun k => ?_, ?_⟩
  · cases k with
    | big =>
      simp only [total, contribution, Pi.add_apply, Bool.true_and]
      omega
    | demand => exact congrFun htotal .demand
    | predDemand => exact congrFun htotal .predDemand
    | rtgHighPrio => exact congrFun htotal .rtgHighPrio
    | trailblazer => exact congrFun htotal .trailblazer
    | giant => exact congrFun htotal .giant
  · have hnonneg : ¬ stats.nrBigTasks + misfit.toNat - r.misfit.toNat < 0 := by omega
    simp [h, hnonneg]

theorem Balanced.misfit {taskUtil : Nat} (hs : Balanced s) (hp : s.queued p = true)
    (hfair : s.waltFairTask p = true) :
    Balanced (androidRvhUpdateMisfitStatus p fitsMax taskUtil s) := by
  have hkeep (t : State Task Cpu) (ht : t.queued = s.queued) : t = t.setQueued p true := by
    simp only [State.setQueued, ht, ← hp, Function.update_eq_self]
    rw [← ht]
  rw [hkeep (androidRvhUpdateMisfitStatus p fitsMax taskUtil s) rfl]
  refine hs.requeue rfl (by simpa [hp] using hs.enqueued p) fun others hothers hsound htotal => ?_
  rw [share, if_pos ⟨hp, rfl⟩, hfair] at htotal
  rw [if_pos rfl, hfair]
  exact total_misfit _ hothers hsound htotal

theorem Balanced.setClass {fair : Bool} (hs : Balanced s) (hp : s.queued p = false) :
    Balanced { s with fair := Function.update s.fair p fair } := by
  obtain ⟨t, ht⟩ : ∃ t : State Task Cpu, t = { s with fair := Function.update s.fair p fair } :=
    ⟨_, rfl⟩
  have hqueued : t.queued = s.queued := by rw [ht]
  have hcpu : t.taskCpu = s.taskCpu := by rw [ht]
  have hwts : t.wts = s.wts := by rw [ht]
  rw [← ht]
  have hshare cpu p' : share t cpu p' = share s cpu p' := by
    by_cases hp' : p' = p
    · subst hp'
      rw [share_of_not_queued hp, share_of_not_queued (by rw [hqueued, hp])]
    · refine share_congr (by rw [hqueued]) (fun _ => by rw [hcpu]) ?_ ?_ cpu
      · rw [ht]
        exact Function.update_of_ne hp' _ _
      · rw [hwts]
        exact .refl _
  refine ⟨fun cpu => ?_, fun cpu => ?_, fun p' => ?_⟩
  · rw [sum_congr rfl fun p' _ => hshare cpu p', ← hs.total cpu, ht]
  · rw [ht]
    exact hs.sound cpu
  · rw [hqueued, hwts]
    exact hs.enqueued p'

theorem Balanced.act {a : Act Task Cpu} (hs : Balanced s) (hready : Ready s a)
    (h : act topo s a = some t) : Balanced t := by
  cases a <;> try obtain rfl := Option.some.inj h
  case update env p event wallclock irqtime => exact hs.update h
  case depart p newCpu =>
    refine hs.sameTotals (.of_fixed (fixed_depart topo p newCpu s)) fun p' hq => ?_
    have hne : p' ≠ p := fun heq => by
      rw [heq, hready.2.1] at hq
      exact Bool.noConfusion hq
    rw [(depart_core topo p newCpu s).2.1, Function.update_of_ne hne]
  case arrive p =>
    exact hs.sameTotals (.of_fixed (fixed_arrive p s)) fun p' _ => by rw [(arrive_core p s).2.1]
  case joinGroup p newTask =>
    exact hs.sameTotals (.of_fixed (fixed_transferToGroup topo p newTask s)) fun _ _ => rfl
  case leaveGroup p newTask =>
    exact hs.sameTotals (.of_fixed (fixed_transferToRq p newTask s)) fun _ _ => rfl
  case accountSubs cpu =>
    exact hs.sameTotals (.of_fixed (fixed_accountLoadSubtractions cpu s)) fun _ _ => rfl
  case switch cpu next =>
    exact hs.sameTotals ⟨fun _ => rfl, rfl, rfl, fun _ => .refl _⟩ fun _ _ => rfl
  case enqueue p fitsMax rtgHighPrio => exact hs.enqueue hready.1
  case dequeue p => exact hs.dequeue hready
  case misfit p fitsMax taskUtil => exact hs.misfit hready.1 hready.2
  case setClass p fair => exact hs.setClass hready
  case changeWindow thisCpu wallclock newWindow =>
    simp only [Walt.changeWindow]
    split_ifs
    · exact hs.sameTotals ⟨fun _ => rfl, rfl, rfl, fun _ => .refl _⟩ fun _ _ => rfl
    · exact hs

theorem balanced_init (core : Core Task Cpu) (window tick : Nat)
    (hqueued : ∀ p, core.queued p = false) : Balanced (waltInitStopHandler core window tick) := by
  refine ⟨fun cpu => ?_, fun _ => rfl, fun p => ?_⟩
  · rw [sum_eq_zero fun p _ => share_of_not_queued (hqueued p) cpu]
    funext k
    cases k <;> rfl
  · rw [show (waltInitStopHandler core window tick).queued p = false from hqueued p]
    simp [waltInitStopHandler, initNewTaskLoad]

def enqueuedTasks (s : State Task Cpu) (cpu : Cpu) : Finset Task :=
  Finset.univ.filter fun p => s.queued p = true ∧ s.taskCpu p = cpu

def flaggedTasks (s : State Task Cpu) (cpu : Cpu) (flag : Wts Cpu → Bool) : Finset Task :=
  (enqueuedTasks s cpu).filter fun p => s.waltFairTask p = true ∧ flag (s.wts p) = true

theorem sum_share (cpu : Cpu) (k : Quantity) : (∑ p, share s cpu p) k =
    ∑ p ∈ enqueuedTasks s cpu,
      contribution (s.waltFairTask p) (s.wts p).misfit (s.wts p).rtgHighPrio (s.wts p).demand k := by
  rw [Finset.sum_apply, enqueuedTasks, sum_filter]
  refine sum_congr rfl fun p _ => ?_
  simp only [share]
  split_ifs <;> rfl

theorem card_flaggedTasks (cpu : Cpu) (flag : Wts Cpu → Bool) :
    ∑ p ∈ enqueuedTasks s cpu, ((s.waltFairTask p && flag (s.wts p)).toNat : Int) =
      (flaggedTasks s cpu flag).card := by
  rw [flaggedTasks, card_filter, Nat.cast_sum]
  refine sum_congr rfl fun p _ => ?_
  cases s.waltFairTask p <;> cases flag (s.wts p) <;> rfl

/-- Demand accounting: in every state that is reached, the totals of a CPU are the sums and the
counts over the tasks enqueued there, and no check of the totals has fired. -/
theorem totals_match_enqueued_tasks (topo : Topology Cpu) (core : Core Task Cpu) {window tick : Nat}
    (hqueued : ∀ p, core.queued p = false) {es : List (Event Task Cpu)} {t : State Task Cpu}
    (h : run (step topo) (waltInitStopHandler core window tick) es = some t) (cpu : Cpu) :
    (t.rq cpu).stats.cumulativeRunnableAvgScaled =
      ∑ p ∈ enqueuedTasks t cpu, (t.wts p).demand.demandScaled ∧
    (t.rq cpu).stats.predDemandsSumScaled =
      ∑ p ∈ enqueuedTasks t cpu, (t.wts p).demand.predDemandScaled ∧
    (t.rq cpu).stats.nrTrailblazerTasks = (flaggedTasks t cpu (·.demand.trailblazer)).card ∧
    (t.rq cpu).stats.nrGiantTasks = (flaggedTasks t cpu (·.demand.giant)).card ∧
    (t.rq cpu).stats.nrBigTasks = (flaggedTasks t cpu (·.misfit)).card ∧
    (t.rq cpu).stats.nrRtgHighPrioTasks = (flaggedTasks t cpu (·.rtgHighPrio)).card ∧
    (t.rq cpu).stats.checkFailed = false := by
  have hbalanced : Balanced t :=
    reachable_invariant_of_ready (fun _ _ _ hs hready h => hs.act hready h)
      (balanced_init core window tick hqueued) h
  have htotal (k : Quantity) := (congrFun (hbalanced.total cpu) k).trans (sum_share cpu k)
  have hdemand := htotal .demand
  have hpred := htotal .predDemand
  simp only [total, contribution] at hdemand hpred
  refine ⟨by exact_mod_cast hdemand, by exact_mod_cast hpred, ?_, ?_, ?_, ?_, hbalanced.sound cpu⟩
  · exact (htotal .trailblazer).trans (card_flaggedTasks cpu (·.demand.trailblazer))
  · exact (htotal .giant).trans (card_flaggedTasks cpu (·.demand.giant))
  · exact (htotal .big).trans (card_flaggedTasks cpu (·.misfit))
  · exact (htotal .rtgHighPrio).trans (card_flaggedTasks cpu (·.rtgHighPrio))

end Balanced

theorem totals_match_after_a_window :
    let es : List (Event (Fin 5) (Fin 3)) :=
      [.setTaskCpu plainEnv 4 0 1600000001,
        .enqueueTask plainEnv 3 false false 1600000002 false false,
        .enqueueTask plainEnv 4 false false 1600000003 true true,
        .schedule plainEnv plainEnv 0 3 1600000004, .tickEntry plainEnv 0 1617000000,
        .updateMisfitStatus 4 false 100, .tickEntry plainEnv 0 1633000000]
    ∃ t, run (step littleBig) (waltInitStopHandler littleBigCore 16000000 1600000000) es = some t ∧
      (t.wts 3).demand.demandScaled ≠ 0 ∧ (t.rq 0).stats.nrBigTasks = 2 ∧
      (t.rq 0).stats.cumulativeRunnableAvgScaled =
        ∑ p ∈ enqueuedTasks t 0, (t.wts p).demand.demandScaled := by
  intro es
  exact exists_run_and (by decide) fun t ht _ => ⟨run_holds ht (by decide),
    (totals_match_enqueued_tasks littleBig littleBigCore (fun _ => rfl) ht 0).1⟩

end MsmKernel.Walt
