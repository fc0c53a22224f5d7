import MsmKernel.Lib.Account
import MsmKernel.Walt.AccountedTimes
import MsmKernel.Walt.Grid

/-! The runnable sums as reserves: a pool of a CPU has to cover what its tasks may take out of it,
in the current and in the previous window, for all tasks and for the new ones, together with the
subtractions that are still deferred. -/
set_option linter.unusedSectionVars false

namespace MsmKernel.Walt
open Run Windows
variable {Task Cpu : Type} [DecidableEq Task] [DecidableEq Cpu]

def only (new newTask : Bool) (amount : Nat) : Nat := if new && !newTask then 0 else amount

theorem only_le (new newTask : Bool) {a b : Nat} (h : a ≤ b) : only new newTask a ≤ only new newTask b := by
  cases new <;> cases newTask <;> simp [only, h]

theorem only_zero (new newTask : Bool) : only new newTask 0 = 0 := by
  cases new <;> cases newTask <;> rfl

theorem only_add (new newTask : Bool) (a b : Nat) :
    only new newTask (a + b) = only new newTask a + only new newTask b := by
  cases new <;> cases newTask <;> rfl

theorem only_anti {newTask newTask' : Bool} (h : newTask = true → newTask' = true) (new : Bool)
    (amount : Nat) : only new newTask amount ≤ only new newTask' amount := by
  cases new <;> cases newTask <;> cases newTask' <;> simp_all [only]

def pair (curr prev : Nat) : Tracked → Nat
  | .curr => curr
  | .prev => prev

namespace RunnableSums

def get (sums : RunnableSums) (new : Bool) : Tracked → Nat
  | .curr => if new then sums.ntCurrRunnableSum else sums.currRunnableSum
  | .prev => if new then sums.ntPrevRunnableSum else sums.prevRunnableSum

variable (sums : RunnableSums) (new newTask : Bool) (w : Tracked)

theorem get_addCurr (delta : Nat) :
    (sums.addCurr newTask delta).get new w = sums.get new w + only new newTask (pair delta 0 w) := by
  cases new <;> cases newTask <;> cases w <;> rfl

theorem get_addPrev (delta : Nat) :
    (sums.addPrev newTask delta).get new w = sums.get new w + only new newTask (pair 0 delta w) := by
  cases new <;> cases newTask <;> cases w <;> rfl

theorem get_add (curr prev : Nat) :
    (sums.add newTask curr prev).get new w = sums.get new w + only new newTask (pair curr prev w) := by
  cases new <;> cases newTask <;> cases w <;> rfl

theorem subClamp_eq (a b : Nat) : subClamp a b = a - b := by
  simp only [subClamp]
  split_ifs <;> omega

theorem get_sub (curr prev : Nat) :
    (sums.sub newTask curr prev).get new w = sums.get new w - only new newTask (pair curr prev w) := by
  cases new <;> cases newTask <;> cases w <;> first | exact subClamp_eq _ _ | rfl

theorem isShort_eq_false {curr prev : Nat}
    (h : ∀ new w, only new newTask (pair curr prev w) ≤ sums.get new w) :
    sums.isShort newTask curr prev = false := by
  have hcurr := h false .curr
  have hprev := h false .prev
  have hnt := h true .curr
  have hnt' := h true .prev
  cases newTask <;> simp_all [isShort, only, pair, get]

theorem get_rollover (fullWindow : Bool) :
    (sums.rollover fullWindow).get new .curr = 0 ∧
      (sums.rollover fullWindow).get new .prev = if fullWindow then 0 else sums.get new .curr := by
  cases fullWindow <;> cases new <;> exact ⟨rfl, rfl⟩

end RunnableSums

section Deferred

def LoadSubtractions.amount (entry : LoadSubtractions) (new : Bool) : Nat :=
  if new then entry.newSubs else entry.subs

def LoadSubtractions.at (entry : LoadSubtractions) (start : Nat) (new : Bool) : Nat :=
  if entry.windowStart = start then entry.amount new else 0

def subsAt (ls : Fin 2 → LoadSubtractions) (start : Nat) (new : Bool) : Nat :=
  (ls 0).at start new + (ls 1).at start new

variable (ls : Fin 2 → LoadSubtractions) (ws subLoad start : Nat) (new newTask : Bool)

theorem at_createSubtractionEntry (index j : Fin 2) :
    (createSubtractionEntry ws index ls j).at start new ≤ (ls j).at start new := by
  by_cases hj : j = index
  · subst hj
    cases new <;> simp [createSubtractionEntry, LoadSubtractions.at, LoadSubtractions.amount]
  · rw [createSubtractionEntry, Function.update_of_ne hj]

theorem getSubtractionIndex_spec :
    ((getSubtractionIndex ws ls).2 (getSubtractionIndex ws ls).1).windowStart = ws ∧
      ∀ start new j, ((getSubtractionIndex ws ls).2 j).at start new ≤ (ls j).at start new := by
  simp only [getSubtractionIndex]
  split_ifs with h0 h1
  · exact ⟨h0.symm, fun _ _ _ => Nat.le_refl _⟩
  · exact ⟨h1.symm, fun _ _ _ => Nat.le_refl _⟩
  all_goals
    exact ⟨by simp [createSubtractionEntry], fun start new j =>
      at_createSubtractionEntry ls ws start new _ j⟩

theorem at_updateRqLoadSubtractions (index j : Fin 2) :
    (updateRqLoadSubtractions index subLoad newTask ls j).at start new = (ls j).at start new +
      if j = index ∧ (ls index).windowStart = start then only new newTask subLoad else 0 := by
  by_cases hj : j = index
  · subst hj
    rw [updateRqLoadSubtractions, Function.update_self]
    cases new <;> cases newTask <;> by_cases h : (ls j).windowStart = start <;>
      simp [LoadSubtractions.at, LoadSubtractions.amount, only, h]
  · rw [updateRqLoadSubtractions, Function.update_of_ne hj, if_neg fun h => hj h.1, Nat.add_zero]

/-- Deferring a subtraction adds it under its window and adds nothing else; the entry of the oldest
window may be dropped for it. -/
theorem subsAt_deferSubtraction : subsAt (deferSubtraction ws subLoad newTask ls) start new ≤
    subsAt ls start new + if ws = start then only new newTask subLoad else 0 := by
  by_cases hload : subLoad = 0
  · simp [deferSubtraction, hload]
  · obtain ⟨hws, hle⟩ := getSubtractionIndex_spec ls ws
    have h0 := hle start new 0
    have h1 := hle start new 1
    simp only [deferSubtraction, ne_eq, hload, not_false_eq_true, if_true, subsAt,
      at_updateRqLoadSubtractions, hws]
    by_cases hstart : ws = start
    · have hindex : ((0 : Fin 2) = (getSubtractionIndex ws ls).1 ∧
          (1 : Fin 2) ≠ (getSubtractionIndex ws ls).1) ∨
          ((0 : Fin 2) ≠ (getSubtractionIndex ws ls).1 ∧
          (1 : Fin 2) = (getSubtractionIndex ws ls).1) := by omega
      rcases hindex with ⟨hyes, hno⟩ | ⟨hno, hyes⟩
      · rw [if_pos ⟨hyes, hstart⟩, if_neg fun h => hno h.1, if_pos hstart]
        omega
      · rw [if_neg fun h => hno h.1, if_pos ⟨hyes, hstart⟩, if_pos hstart]
        omega
    · simp only [hstart, and_false, if_false]
      omega

def Reached (start : Nat) : Prop :=
  ∀ start' new, start < start' → subsAt ls start' new = 0

theorem Reached.deferSubtraction {ls : Fin 2 → LoadSubtractions} {start ws subLoad : Nat}
    {newTask : Bool} (h : Reached ls start) (hload : start < ws → subLoad = 0) :
    Reached (deferSubtraction ws subLoad newTask ls) start := by
  intro start' new hlt
  have hle := subsAt_deferSubtraction ls ws subLoad start' new newTask
  rw [h start' new hlt, Nat.zero_add] at hle
  split_ifs at hle with hws
  · obtain rfl := hload (hws ▸ hlt)
    rw [only_zero] at hle
    exact Nat.le_zero.1 hle
  · exact Nat.le_zero.1 hle

end Deferred

section Account
variable {ws prevWs : Nat} (hne : prevWs ≠ ws) (sums : RunnableSums) (entry : LoadSubtractions)

include hne in
theorem get_accountLoadSubtraction (new : Bool) (w : Tracked) :
    (accountLoadSubtraction ws prevWs entry sums).get new w =
      sums.get new w - entry.at (pair ws prevWs w) new := by
  by_cases hws : entry.windowStart = ws
  · have hprev : ws ≠ prevWs := hne.symm
    rw [accountLoadSubtraction, if_pos hws]
    cases w <;> cases new <;> simp [RunnableSums.get, RunnableSums.subClamp_eq, LoadSubtractions.at,
      LoadSubtractions.amount, pair, hws, hprev]
  · by_cases hprev : entry.windowStart = prevWs
    · rw [accountLoadSubtraction, if_neg hws, if_pos hprev]
      cases w <;> cases new <;> simp [RunnableSums.get, RunnableSums.subClamp_eq,
        LoadSubtractions.at, LoadSubtractions.amount, pair, hprev, hne]
    · rw [accountLoadSubtraction, if_neg hws, if_neg hprev]
      cases w <;> simp [LoadSubtractions.at, pair, hws, hprev]

include hne in
theorem isSubtractionShort_eq_false
    (h : ∀ new w, entry.at (pair ws prevWs w) new ≤ sums.get new w) :
    isSubtractionShort ws prevWs entry sums = false := by
  have hcurr := h false .curr
  have hprev := h false .prev
  have hnt := h true .curr
  have hnt' := h true .prev
  simp only [isSubtractionShort, LoadSubtractions.at, LoadSubtractions.amount, pair,
    RunnableSums.get] at *
  split_ifs at * <;> simp_all

end Account

/- The window times of a task: over all CPUs, and those that belong to one CPU. -/
def Wts.time (r : Wts Cpu) : Tracked → Nat := pair r.currWindow r.prevWindow

def Wts.cpuTime (r : Wts Cpu) (cpu : Cpu) : Tracked → Nat :=
  pair (r.currWindowCpu cpu) (r.prevWindowCpu cpu)

/- The two pools of a CPU: its own sums, and those of the related thread group. -/
def Wrq.pool (q : Wrq) (grp : Bool) : RunnableSums := if grp then q.grpTime else q.sums

/- What a task can take out of a pool of a CPU: an ungrouped task what is recorded for the CPU, a
task of the group its whole time on the CPU where it is accounted. -/
def held (s : State Task Cpu) (cpu : Cpu) (grp : Bool) (p : Task) : Tracked → Nat :=
  if (s.wts p).idle = false ∧ (s.wts p).grp = grp then
    if grp then
      if (s.wts p).enqueueAfterMigration = .none ∧ s.taskCpu p = cpu then (s.wts p).time
      else fun _ => 0
    else (s.wts p).cpuTime cpu
  else fun _ => 0

def due (s : State Task Cpu) (cpu : Cpu) (grp new : Bool) (w : Tracked) (p : Task) : Nat :=
  only new (isNewTask (s.wts p)) (portion s.schedRavgWindow (s.rq cpu).windowStart
    (s.rq cpu).prevWindowSize (s.wts p).windowStart (held s cpu grp p) w)

/- The deferred subtractions are all from the CPU's own sums. -/
def deferred (q : Wrq) (grp new : Bool) (w : Tracked) : Nat :=
  if grp then 0 else subsAt q.loadSubs (trackedStart q.windowStart q.prevWindowSize w) new

/- The pools of every CPU cover what may be taken out of them. -/
structure Reserved [Fintype Task] (s : State Task Cpu) : Prop where
  prev_pos : ∀ cpu, 0 < (s.rq cpu).prevWindowSize
  covered : ∀ cpu grp new w, ∑ p, due s cpu grp new w p + deferred (s.rq cpu) grp new w ≤
    ((s.rq cpu).pool grp).get new w
  notAhead : ∀ cpu grp p, NotAhead s.schedRavgWindow (s.rq cpu).windowStart (s.wts p).windowStart
    (held s cpu grp p)
  reached : ∀ cpu, Reached (s.rq cpu).loadSubs (s.rq cpu).windowStart
  unstarted : ∀ p, (s.wts p).markStart = 0 → ∀ cpu, (s.wts p).cpuTime cpu = fun _ => 0

variable {p : Task} {cpu : Cpu} {k : Nat}

section Reserved
variable [Fintype Task] {s t : State Task Cpu}

theorem reserved_init (core : Core Task Cpu) {window tick : Nat} (hwindow : 0 < window) :
    Reserved (waltInitStopHandler core window tick) := by
  have hpair : pair 0 0 = fun _ => 0 := by
    funext w
    cases w <;> rfl
  have hheld cpu grp p : held (waltInitStopHandler core window tick) cpu grp p = fun _ => 0 := by
    simp only [held, Wts.time, Wts.cpuTime, waltInitStopHandler, initNewTaskLoad, hpair, ite_self]
  refine ⟨fun _ => hwindow, fun cpu grp new w => ?_, fun cpu grp p => ?_, fun cpu start new _ => ?_,
    fun p _ cpu => hpair⟩
  · have hdue p : due (waltInitStopHandler core window tick) cpu grp new w p = 0 := by
      rw [due, hheld, portion_zero, only_zero]
    have hdeferred : deferred ((waltInitStopHandler core window tick).rq cpu) grp new w = 0 := by
      cases grp <;> cases new <;> simp [deferred, subsAt, LoadSubtractions.at,
        LoadSubtractions.amount, waltInitStopHandler, initRq]
    simp only [hdue, Finset.sum_const_zero, hdeferred]
    exact Nat.zero_le _
  · rw [hheld]
    exact notAhead_zero
  · cases new <;> simp [subsAt, LoadSubtractions.at, LoadSubtractions.amount, waltInitStopHandler,
      initRq]

theorem Reserved.due_le (hs : Reserved s) (cpu : Cpu) (grp new : Bool) (w : Tracked) (p : Task) :
    due s cpu grp new w p ≤ ((s.rq cpu).pool grp).get new w := by
  have hle : due s cpu grp new w p ≤ ∑ p', due s cpu grp new w p' :=
    Finset.single_le_sum (fun _ _ => Nat.zero_le _) (Finset.mem_univ p)
  have := hs.covered cpu grp new w
  omega

theorem held_congr (hwts : t.wts p = s.wts p) (hcpu : t.taskCpu p = s.taskCpu p) (cpu : Cpu)
    (grp : Bool) : held t cpu grp p = held s cpu grp p := by
  simp only [held, hwts, hcpu]

theorem due_congr {grp : Bool} (hW : t.schedRavgWindow = s.schedRavgWindow)
    (hrq : SameRqWindow (s.rq cpu) (t.rq cpu))
    (hws : (t.wts p).windowStart = (s.wts p).windowStart)
    (hnew : isNewTask (t.wts p) = isNewTask (s.wts p))
    (hheld : held t cpu grp p = held s cpu grp p) (new : Bool) (w : Tracked) :
    due t cpu grp new w p = due s cpu grp new w p := by
  simp only [due, hW, hrq.windowStart, hrq.prevWindowSize, hws, hnew, hheld]

theorem Reserved.of_task (hs : Reserved s) (hW : t.schedRavgWindow = s.schedRavgWindow)
    (hrq : ∀ cpu, SameRqWindow (s.rq cpu) (t.rq cpu))
    (hwts : ∀ p', p' ≠ p → t.wts p' = s.wts p' ∧ t.taskCpu p' = s.taskCpu p')
    (hcover : ∀ cpu grp new w,
      due t cpu grp new w p + deferred (t.rq cpu) grp new w + ((s.rq cpu).pool grp).get new w ≤
        due s cpu grp new w p + deferred (s.rq cpu) grp new w + ((t.rq cpu).pool grp).get new w)
    (hahead : ∀ cpu grp, NotAhead s.schedRavgWindow (s.rq cpu).windowStart (t.wts p).windowStart
      (held t cpu grp p)) (hreached : ∀ cpu, Reached (t.rq cpu).loadSubs (s.rq cpu).windowStart)
    (hunstarted : (t.wts p).markStart = 0 → ∀ cpu, (t.wts p).cpuTime cpu = fun _ => 0) :
    Reserved t := by
  refine ⟨fun cpu => ?_, fun cpu grp new w => ?_, fun cpu grp p' => ?_, fun cpu => ?_,
    fun p' hp' => ?_⟩
  · rw [(hrq cpu).prevWindowSize]
    exact hs.prev_pos cpu
  · have hsum := Account.sum_add_eq (f := due s cpu grp new w) (g := due t cpu grp new w) p
      fun p' hne => due_congr hW (hrq cpu) (by rw [(hwts p' hne).1]) (by rw [(hwts p' hne).1])
        (held_congr (hwts p' hne).1 (hwts p' hne).2 cpu grp) new w
    have hold := hs.covered cpu grp new w
    have hstep := hcover cpu grp new w
    omega
  · rw [hW, (hrq cpu).windowStart]
    by_cases hne : p' = p
    · rw [hne]
      exact hahead cpu grp
    · rw [held_congr (hwts p' hne).1 (hwts p' hne).2, (hwts p' hne).1]
      exact hs.notAhead cpu grp p'
  · rw [(hrq cpu).windowStart]
    exact hreached cpu
  · by_cases hne : p' = p
    · rw [hne] at hp' ⊢
      exact hunstarted hp'
    · rw [(hwts p' hne).1] at hp' ⊢
      exact hs.unstarted p' hp'

theorem Reserved.of_pools (hs : Reserved s) (h : SameWindows s t)
    (hheld : ∀ cpu grp p, held t cpu grp p = held s cpu grp p)
    (htime : ∀ p cpu, (t.wts p).cpuTime cpu = (s.wts p).cpuTime cpu)
    (hcover : ∀ cpu grp new w,
      deferred (t.rq cpu) grp new w + ((s.rq cpu).pool grp).get new w ≤
        deferred (s.rq cpu) grp new w + ((t.rq cpu).pool grp).get new w)
    (hreached : ∀ cpu, Reached (t.rq cpu).loadSubs (s.rq cpu).windowStart) : Reserved t := by
  refine ⟨fun cpu => ?_, fun cpu grp new w => ?_, fun cpu grp p => ?_, fun cpu => ?_,
    fun p hp cpu => ?_⟩
  · rw [(h.rq cpu).prevWindowSize]
    exact hs.prev_pos cpu
  · have hdue p : due t cpu grp new w p = due s cpu grp new w p :=
      due_congr h.schedRavgWindow (h.rq cpu) (h.wts p).windowStart
        (by rw [isNewTask, isNewTask, (h.wts p).activeTime]) (hheld cpu grp p) new w
    have hold := hs.covered cpu grp new w
    have hstep := hcover cpu grp new w
    simp only [hdue]
    omega
  · rw [h.schedRavgWindow, (h.rq cpu).windowStart, (h.wts p).windowStart, hheld]
    exact hs.notAhead cpu grp p
  · rw [(h.rq cpu).windowStart]
    exact hreached cpu
  · rw [(h.wts p).markStart] at hp
    rw [htime]
    exact hs.unstarted p hp cpu

theorem pool_advance (q : Wrq) (window wallclock : Nat) (hk : k ≠ 0) (grp : Bool) :
    (q.advance window wallclock k).pool grp = (q.pool grp).rollover (decide (k > 1)) := by
  cases grp <;> simp [Wrq.pool, Wrq.advance, hk]

theorem deferred_advance (q : Wrq) (window wallclock : Nat) (hk : k ≠ 0) (hpos : 0 < window)
    (hreached : Reached q.loadSubs q.windowStart) (grp new : Bool) :
    deferred (q.advance window wallclock k) grp new .curr = 0 ∧
      deferred (q.advance window wallclock k) grp new .prev =
        if k > 1 then 0 else deferred q grp new .curr := by
  have hone : window ≤ k * window := Nat.le_mul_of_pos_left window (Nat.pos_of_ne_zero hk)
  have hls : (q.advance window wallclock k).loadSubs = q.loadSubs := by
    rw [Wrq.advance, if_neg hk]
  cases grp with
  | true => simp [deferred]
  | false =>
    simp only [deferred, Bool.false_eq_true, if_false, hls, trackedStart, advance_windowStart,
      advance_prevWindowSize, if_neg hk]
    refine ⟨hreached _ new (by omega), ?_⟩
    split_ifs with hfull
    · have htwo : 2 * window ≤ k * window := Nat.mul_le_mul_right window hfull
      exact hreached _ new (by omega)
    · have hk1 : k = 1 := by omega
      rw [hk1, Nat.one_mul, Nat.add_sub_cancel]

variable (hs : Reserved s) (hpos : 0 < s.schedRavgWindow)
include hs hpos

theorem Reserved.covered_advance {wallclock : Nat} (hk : k ≠ 0)
    (hW : t.schedRavgWindow = s.schedRavgWindow)
    (hrq : t.rq cpu = (s.rq cpu).advance s.schedRavgWindow wallclock k) (hwts : t.wts = s.wts)
    (hcpu : t.taskCpu = s.taskCpu) (grp new : Bool) (w : Tracked) :
    ∑ p, due t cpu grp new w p + deferred (t.rq cpu) grp new w ≤
      ((t.rq cpu).pool grp).get new w := by
  have hdue w p : due t cpu grp new w p = only new (isNewTask (s.wts p))
      (portion s.schedRavgWindow ((s.rq cpu).windowStart + k * s.schedRavgWindow) s.schedRavgWindow
        (s.wts p).windowStart (held s cpu grp p) w) := by
    simp only [due, hW, hrq, advance_windowStart, advance_prevWindowSize, if_neg hk, hwts,
      held_congr (congrFun hwts p) (congrFun hcpu p)]
  have hportion p : _ ∧ portion _ _ _ _ _ _ = if k > 1 then 0 else portion _ _ (s.rq cpu).prevWindowSize _ _ _ :=
    portion_advance (hs.notAhead cpu grp p) hpos hk
  obtain ⟨hcurr, hprev⟩ :=
    deferred_advance (s.rq cpu) s.schedRavgWindow wallclock hk hpos (hs.reached cpu) grp new
  obtain ⟨hget, hget'⟩ := ((s.rq cpu).pool grp).get_rollover new (decide (k > 1))
  cases w with
  | curr =>
    have hzero p : due t cpu grp new .curr p = 0 := by rw [hdue, (hportion p).1, only_zero]
    simp only [hzero, Finset.sum_const_zero, hrq, hcurr]
    exact Nat.zero_le _
  | prev =>
    rw [hrq, hprev, pool_advance _ _ _ hk, hget']
    by_cases hfull : k > 1
    · have hzero p : due t cpu grp new .prev p = 0 := by
        rw [hdue, (hportion p).2, if_pos hfull, only_zero]
      simp only [hzero, Finset.sum_const_zero, if_pos hfull]
      exact Nat.zero_le _
    · have hsame p : due t cpu grp new .prev p = due s cpu grp new .curr p := by
        rw [hdue, (hportion p).2, if_neg hfull, due]
      simp only [hsame, hfull, decide_false, Bool.false_eq_true, if_false]
      exact hs.covered cpu grp new .curr

theorem Reserved.advance (c : Cpu) (wallclock k : Nat) : Reserved (s.advance c wallclock k) := by
  obtain ⟨t, ht⟩ : ∃ t, t = s.advance c wallclock k := ⟨_, rfl⟩
  have hW : t.schedRavgWindow = s.schedRavgWindow := by rw [ht]; rfl
  have hwts : t.wts = s.wts := by rw [ht]; rfl
  have hcpu : t.taskCpu = s.taskCpu := by rw [ht]; rfl
  have hheld cpu grp p : held t cpu grp p = held s cpu grp p :=
    held_congr (by rw [hwts]) (by rw [hcpu]) cpu grp
  have hself : t.rq c = (s.rq c).advance s.schedRavgWindow wallclock k := by
    rw [ht]
    exact advance_rq_self c wallclock k
  have hsame cpu (hstill : cpu ≠ c ∨ k = 0) : (t.rq cpu).windowStart = (s.rq cpu).windowStart ∧
      (t.rq cpu).prevWindowSize = (s.rq cpu).prevWindowSize ∧
      (t.rq cpu).loadSubs = (s.rq cpu).loadSubs ∧
      ∀ grp, (t.rq cpu).pool grp = (s.rq cpu).pool grp := by
    by_cases hc : cpu = c
    · rw [hc, hself, Wrq.advance, if_pos (hstill.resolve_left (not_not.2 hc))]
      exact ⟨rfl, rfl, rfl, fun _ => rfl⟩
    · rw [ht, advance_rq_of_ne hc]
      exact ⟨rfl, rfl, rfl, fun _ => rfl⟩
  rw [← ht]
  refine ⟨fun cpu => ?_, fun cpu grp new w => ?_, fun cpu grp p => ?_, fun cpu => ?_, ?_⟩
  all_goals try by_cases hstill : cpu ≠ c ∨ k = 0
  · rw [(hsame cpu hstill).2.1]
    exact hs.prev_pos cpu
  · obtain ⟨rfl, hk⟩ : cpu = c ∧ k ≠ 0 := by simpa using hstill
    rw [hself, advance_prevWindowSize, if_neg hk]
    exact hpos
  · obtain ⟨hws, hpws, hls, hpool⟩ := hsame cpu hstill
    have hdue p : due t cpu grp new w p = due s cpu grp new w p := by
      simp only [due, hW, hws, hpws, hwts, hheld]
    simp only [hdue, deferred, hls, hws, hpws, hpool]
    exact hs.covered cpu grp new w
  · obtain ⟨rfl, hk⟩ : cpu = c ∧ k ≠ 0 := by simpa using hstill
    exact hs.covered_advance hpos hk hW hself hwts hcpu grp new w
  · rw [hW, (hsame cpu hstill).1, hwts, hheld]
    exact hs.notAhead cpu grp p
  · obtain ⟨rfl, -⟩ : cpu = c ∧ k ≠ 0 := by simpa using hstill
    rw [hW, hself, advance_windowStart, hwts, hheld]
    exact (hs.notAhead cpu grp p).advance k
  · rw [(hsame cpu hstill).1, (hsame cpu hstill).2.2.1]
    exact hs.reached cpu
  · obtain ⟨rfl, hk⟩ : cpu = c ∧ k ≠ 0 := by simpa using hstill
    intro start new hlt
    rw [hself, advance_windowStart] at hlt
    rw [hself, Wrq.advance, if_neg hk]
    exact hs.reached cpu start new (by omega)
  · rw [hwts]
    exact hs.unstarted

end Reserved
end MsmKernel.Walt
