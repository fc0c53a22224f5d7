import MsmKernel.Walt.Reserves

/-! Accounting keeps the reserves: an update adds to the pool of its CPU what it adds to the windows
of its task, and rolling a task over takes it ahead of no CPU. -/
set_option linter.unusedSectionVars false

namespace MsmKernel.Walt
open Run Windows Wts
variable {Task Cpu : Type} [DecidableEq Task] [DecidableEq Cpu]

section Record
variable (c : Call) (cpu : Cpu) (q : Wrq) (r : Wts Cpu)

def gain : Tracked → Nat :=
  if accountBusyForCpuTime c r.idle then
    if startsWindow q r then pair (currWindowDelta c q r) (prevWindowDelta c q r)
    else pair (inWindowDelta c r) 0
  else fun _ => 0

theorem pair_add (a b : Nat) (w : Tracked) : pair a b w = pair a 0 w + pair 0 b w := by
  cases w <;> simp [pair]

theorem u32_le (n : Nat) : u32 n ≤ n := Nat.mod_le _ _

theorem gain_inWindow (hbusy : accountBusyForCpuTime c r.idle = true)
    (hstarts : startsWindow q r = false) : gain c q r = pair (inWindowDelta c r) 0 := by
  simp [gain, hbusy, hstarts]

theorem gain_across (hbusy : accountBusyForCpuTime c r.idle = true)
    (hstarts : startsWindow q r = true) :
    gain c q r = pair (currWindowDelta c q r) (prevWindowDelta c q r) := by
  simp [gain, hbusy, hstarts]

theorem pool_addCurr (g newTask grp new : Bool) (delta : Nat) (w : Tracked) :
    ((q.addCurr g newTask delta).pool grp).get new w =
      (q.pool grp).get new w + if grp = g then only new newTask (pair delta 0 w) else 0 := by
  cases g <;> cases grp <;> simp [Wrq.addCurr, Wrq.pool, RunnableSums.get_addCurr]

theorem pool_addPrev (g newTask grp new : Bool) (delta : Nat) (w : Tracked) :
    ((q.addPrev g newTask delta).pool grp).get new w =
      (q.pool grp).get new w + if grp = g then only new newTask (pair 0 delta w) else 0 := by
  cases g <;> cases grp <;> simp [Wrq.addPrev, Wrq.pool, RunnableSums.get_addPrev]

theorem accountBusyTime_pool (hidle : r.idle = false) (grp new : Bool) (w : Tracked) :
    ((accountBusyTime c cpu q r).1.pool grp).get new w = (q.pool grp).get new w +
      if grp = r.grp then only new (isNewTask (rolledTask q r)) (gain c q r w) else 0 := by
  cases hbusy : accountBusyForCpuTime c r.idle with
  | false =>
    rw [accountBusyTime_skip c cpu q r hbusy, gain, hbusy]
    simp [only_zero]
  | true =>
    cases hstarts : startsWindow q r with
    | false =>
      rw [accountBusyTime_inWindow c cpu q r hidle hbusy hstarts,
        rolledTask_of_not_starts q r hstarts, pool_addCurr, gain_inWindow c q r hbusy hstarts]
    | true =>
      rw [accountBusyTime_across c cpu q r hidle hbusy hstarts, pool_addCurr, pool_addPrev,
        gain_across c q r hbusy hstarts,
        pair_add (currWindowDelta c q r) (prevWindowDelta c q r), only_add]
      split_ifs <;> omega

theorem pool_le_accountBusyTime (grp new : Bool) (w : Tracked) :
    (q.pool grp).get new w ≤ ((accountBusyTime c cpu q r).1.pool grp).get new w := by
  have hcurr (q : Wrq) (g newTask : Bool) (delta : Nat) :
      (q.pool grp).get new w ≤ ((q.addCurr g newTask delta).pool grp).get new w := by
    rw [pool_addCurr]
    exact Nat.le_add_right _ _
  have hprev (q : Wrq) (g newTask : Bool) (delta : Nat) :
      (q.pool grp).get new w ≤ ((q.addPrev g newTask delta).pool grp).get new w := by
    rw [pool_addPrev]
    exact Nat.le_add_right _ _
  simp only [accountBusyTime]
  split_ifs
  · exact Nat.le_refl _
  · exact hcurr ..
  · exact (hprev ..).trans (hcurr ..)
  · simp only [accountIrqtime]
    split_ifs
    · exact hcurr ..
    · exact (hprev ..).trans (hcurr ..)

def rolledHeld (held : Tracked → Nat) : Tracked → Nat :=
  if startsWindow q r then rolled (passesWindow q r) held else held

theorem rolledTask_times (hidle : r.idle = false) :
    (rolledTask q r).time = rolledHeld q r r.time ∧
      ∀ i, (rolledTask q r).cpuTime i = rolledHeld q r (r.cpuTime i) := by
  cases hstarts : startsWindow q r with
  | false => simp [rolledTask_of_not_starts q r hstarts, rolledHeld, hstarts]
  | true =>
    simp only [rolledTask_of_starts q r hidle hstarts, rolledHeld, hstarts, if_pos]
    refine ⟨funext fun w => ?_, fun i => funext fun w => ?_⟩
    · cases w <;> rfl
    · cases passesWindow q r <;> cases w <;> simp [cpuTime, rolloverTaskWindow, rolled, pair]

theorem time_addCurr_le (delta : Nat) (w : Tracked) :
    (r.addCurr cpu delta).time w ≤ r.time w + pair delta 0 w ∧
      ∀ i, (r.addCurr cpu delta).cpuTime i w ≤
        r.cpuTime i w + if i = cpu then pair delta 0 w else 0 := by
  cases w with
  | curr =>
    refine ⟨Nat.mod_le _ _, fun i => ?_⟩
    by_cases hi : i = cpu
    · subst hi
      simpa [cpuTime, addCurr, pair] using u32_le _
    · simp [cpuTime, addCurr, pair, hi]
  | prev => exact ⟨Nat.le_refl _, fun i => by simp [cpuTime, addCurr, pair]⟩

theorem time_addPrev_le (delta : Nat) (w : Tracked) :
    (r.addPrev cpu delta).time w ≤ r.time w + pair 0 delta w ∧
      ∀ i, (r.addPrev cpu delta).cpuTime i w ≤
        r.cpuTime i w + if i = cpu then pair 0 delta w else 0 := by
  cases w with
  | curr => exact ⟨Nat.le_refl _, fun i => by simp [cpuTime, addPrev, pair]⟩
  | prev =>
    refine ⟨Nat.mod_le _ _, fun i => ?_⟩
    by_cases hi : i = cpu
    · subst hi
      simpa [cpuTime, addPrev, pair] using u32_le _
    · simp [cpuTime, addPrev, pair, hi]

theorem accountBusyTime_time_le (hidle : r.idle = false) (w : Tracked) :
    (accountBusyTime c cpu q r).2.time w ≤ rolledHeld q r r.time w + gain c q r w ∧
      ∀ i, (accountBusyTime c cpu q r).2.cpuTime i w ≤
        rolledHeld q r (r.cpuTime i) w + if i = cpu then gain c q r w else 0 := by
  obtain ⟨htime, hcpuTime⟩ := rolledTask_times q r hidle
  simp only [← htime, ← hcpuTime]
  cases hbusy : accountBusyForCpuTime c r.idle with
  | false =>
    rw [accountBusyTime_skip c cpu q r hbusy]
    exact ⟨Nat.le_add_right _ _, fun i => Nat.le_add_right _ _⟩
  | true =>
    cases hstarts : startsWindow q r with
    | false =>
      rw [accountBusyTime_inWindow c cpu q r hidle hbusy hstarts,
        rolledTask_of_not_starts q r hstarts, gain_inWindow c q r hbusy hstarts]
      exact time_addCurr_le cpu r _ w
    | true =>
      have hacc : (accountBusyTime c cpu q r).2 = ((rolledTask q r).addPrev cpu
          (prevWindowDelta c q r)).addCurr cpu (currWindowDelta c q r) := by
        rw [accountBusyTime_across c cpu q r hidle hbusy hstarts]
      obtain ⟨hprev, hprev'⟩ := time_addPrev_le cpu (rolledTask q r) (prevWindowDelta c q r) w
      obtain ⟨hcurr, hcurr'⟩ := time_addCurr_le cpu
        ((rolledTask q r).addPrev cpu (prevWindowDelta c q r)) (currWindowDelta c q r) w
      rw [hacc, gain_across c q r hbusy hstarts, pair_add]
      refine ⟨by omega, fun i => ?_⟩
      have hp := hprev' i
      have hc := hcurr' i
      split_ifs at hp hc ⊢ <;> omega

theorem pool_congr {q q' : Wrq} (hsums : q'.sums = q.sums) (hgrp : q'.grpTime = q.grpTime)
    (grp : Bool) : q'.pool grp = q.pool grp := by
  simp only [Wrq.pool, hsums, hgrp]

theorem rolledTask_activeTime : (rolledTask q r).activeTime =
    if startsWindow q r ∧ r.idle = false ∧ isNewTask r then r.activeTime + q.prevWindowSize
    else r.activeTime := by
  cases hstarts : startsWindow q r <;> cases hidle : r.idle <;> cases hnew : isNewTask r <;>
    simp [rolledTask, rolloverTaskWindow, hstarts, hidle, hnew]

theorem isNewTask_rolledTask (h : isNewTask (rolledTask q r) = true) : isNewTask r = true := by
  by_contra hold
  rw [isNewTask, rolledTask_activeTime, if_neg fun hgrow => hold hgrow.2.2] at h
  exact hold h

end Record

namespace Accounted
variable {env : Env} {p : Task} {event : TaskEvent} {wallclock irqtime : Nat}
  {s t : State Task Cpu}

variable (h : Accounted env p event wallclock irqtime s t)
include h

theorem loadSubs (cpu : Cpu) : (t.rq cpu).loadSubs = (s.rq cpu).loadSubs := by
  by_cases hcpu : cpu = s.taskCpu p
  · rw [hcpu, h.rq]
    exact (updateTaskAndRq_keeps ..).2
  · rw [h.frame.rq cpu hcpu]

theorem pool_le (cpu : Cpu) (grp new : Bool) (w : Tracked) :
    ((s.rq cpu).pool grp).get new w ≤ ((t.rq cpu).pool grp).get new w := by
  by_cases hcpu : cpu = s.taskCpu p
  · rw [hcpu]
    by_cases hstarted : (s.wts p).markStart = 0
    · rw [(h.times_first hstarted).1]
    · obtain ⟨stats, windowStart, demand, demand', x, hx, hsums, hgrp, -, -⟩ := h.busyTime hstarted
      have hle := pool_le_accountBusyTime (s.call env p event wallclock irqtime) (s.taskCpu p)
        { s.rq (s.taskCpu p) with stats } { s.wts p with windowStart, demand } grp new w
      rw [← hx] at hle
      rw [pool_congr hsums hgrp]
      exact hle
  · rw [h.frame.rq cpu hcpu]

theorem isNewTask_eq (hstarted : (s.wts p).markStart ≠ 0) : isNewTask (t.wts p) =
      isNewTask (rolledTask (s.rq (s.taskCpu p)) (s.wts p)) := by
  obtain ⟨stats, windowStart, demand, demand', x, hx, -, -, hwts, -⟩ := h.busyTime hstarted
  have hactive := (accountBusyTime_window (s.call env p event wallclock irqtime) (s.taskCpu p)
    { s.rq (s.taskCpu p) with stats } { s.wts p with windowStart, demand }).2
  rw [← hx] at hactive
  rw [hwts, isNewTask, isNewTask]
  simp only [hactive, rolledTask_activeTime]
  rfl

variable (hidle : (s.wts p).idle = false) (hstarted : (s.wts p).markStart ≠ 0)
include hidle hstarted

theorem pool (grp new : Bool) (w : Tracked) : ((t.rq (s.taskCpu p)).pool grp).get new w =
      ((s.rq (s.taskCpu p)).pool grp).get new w +
        if grp = (s.wts p).grp then only new (isNewTask (t.wts p))
          (gain (s.call env p event wallclock irqtime) (s.rq (s.taskCpu p)) (s.wts p) w)
        else 0 := by
  obtain ⟨stats, windowStart, demand, demand', x, hx, hsums, hgrp, hwts, -⟩ := h.busyTime hstarted
  have hgain := accountBusyTime_pool (s.call env p event wallclock irqtime) (s.taskCpu p)
    { s.rq (s.taskCpu p) with stats } { s.wts p with windowStart, demand } hidle grp new w
  rw [← hx] at hgain
  have hnew : isNewTask (t.wts p) = isNewTask (rolledTask { s.rq (s.taskCpu p) with stats }
      { s.wts p with windowStart, demand }) := by
    rw [h.isNewTask_eq hstarted, isNewTask, isNewTask, rolledTask_activeTime, rolledTask_activeTime]
    rfl
  rw [pool_congr hsums hgrp, hgain, hnew]
  rfl

end Accounted

section Account
variable [Fintype Task] {env : Env} {p : Task} {event : TaskEvent} {wallclock irqtime : Nat}
  {s t : State Task Cpu}

theorem Grid.sameGrid (hs : Grid s) (cpu cpu' : Cpu) :
    SameGrid s.schedRavgWindow (s.rq cpu).windowStart (s.rq cpu).prevWindowSize
      (s.rq cpu').windowStart (s.rq cpu').prevWindowSize := by
  have hwhole {c d} (hlt : (s.rq c).windowStart < (s.rq d).windowStart) :
      (s.rq d).prevWindowSize = s.schedRavgWindow ∧
        ∃ j, (s.rq d).windowStart = (s.rq c).windowStart + j * s.schedRavgWindow := by
    obtain ⟨j, hj⟩ := (Nat.modEq_iff_dvd' hlt.le).1 (hs.agreed.aligned c d)
    exact ⟨hs.prev_full hlt, j, by rw [Nat.mul_comm]; omega⟩
  obtain ⟨base, size, hprev⟩ := hs.prev
  exact ⟨fun hsame => by rw [(hprev cpu).2, (hprev cpu').2, hsame], hwhole, hwhole⟩

theorem Accounted.held_le (h : Accounted env p event wallclock irqtime s t)
    (hidle : (s.wts p).idle = false) (hstarted : (s.wts p).markStart ≠ 0) (cpu : Cpu) (grp : Bool)
    (w : Tracked) : held t cpu grp p w ≤
      rolledHeld (s.rq (s.taskCpu p)) (s.wts p) (held s cpu grp p) w +
        if cpu = s.taskCpu p ∧ grp = (s.wts p).grp then
          gain (s.call env p event wallclock irqtime) (s.rq (s.taskCpu p)) (s.wts p) w else 0 := by
  obtain ⟨stats, windowStart, demand, demand', x, hx, -, -, hwts, -⟩ := h.busyTime hstarted
  obtain ⟨htime, hcpuTime⟩ := accountBusyTime_time_le (s.call env p event wallclock irqtime)
    (s.taskCpu p) { s.rq (s.taskCpu p) with stats } { s.wts p with windowStart, demand } hidle w
  rw [← hx] at htime hcpuTime
  have hflags := h.frame.flags p
  simp only [held, hflags.idle, hflags.grp, hflags.pending, h.frame.taskCpu]
  rw [hwts]
  by_cases hgrp : (s.wts p).grp = grp
  · cases grp with
    | false =>
      simp only [hidle, hgrp, and_self, if_true, Bool.false_eq_true, if_false, and_true]
      exact hcpuTime cpu
    | true =>
      simp only [hidle, hgrp, and_self, if_true, and_true]
      by_cases hhere : (s.wts p).enqueueAfterMigration = .none ∧ s.taskCpu p = cpu
      · rw [if_pos hhere, if_pos hhere, if_pos hhere.2.symm]
        exact htime
      · rw [if_neg hhere]
        exact Nat.zero_le _
  · rw [if_neg fun hboth => hgrp hboth.2]
    exact Nat.zero_le _

theorem Grid.portion_rolledHeld (hgrid : Grid s) (hs : Reserved s)
    (hstarted : (s.wts p).markStart ≠ 0)
    (hstays : startsWindow (s.rq (s.taskCpu p)) (s.wts p) = false →
      (s.wts p).windowStart = (s.rq (s.taskCpu p)).windowStart) (cpu : Cpu) (grp : Bool) :
    (∀ w, portion s.schedRavgWindow (s.rq cpu).windowStart (s.rq cpu).prevWindowSize
        (s.rq (s.taskCpu p)).windowStart
        (rolledHeld (s.rq (s.taskCpu p)) (s.wts p) (held s cpu grp p)) w ≤
      portion s.schedRavgWindow (s.rq cpu).windowStart (s.rq cpu).prevWindowSize
        (s.wts p).windowStart (held s cpu grp p) w) ∧
    NotAhead s.schedRavgWindow (s.rq cpu).windowStart (s.rq (s.taskCpu p)).windowStart
      (rolledHeld (s.rq (s.taskCpu p)) (s.wts p) (held s cpu grp p)) := by
  have hahead := hs.notAhead cpu grp p
  cases hstarts : startsWindow (s.rq (s.taskCpu p)) (s.wts p) with
  | false =>
    rw [rolledHeld, hstarts, if_neg Bool.false_ne_true, ← hstays hstarts]
    exact ⟨fun _ => Nat.le_refl _, hahead⟩
  | true =>
    have hon := hgrid.started p hstarted
    have hlt : (s.wts p).windowStart < (s.rq (s.taskCpu p)).windowStart := by
      have hmark : (s.wts p).markStart < (s.rq (s.taskCpu p)).windowStart := by
        simpa [startsWindow] using hstarts
      have := hon.start_le
      omega
    have hback (hfull : passesWindow (s.rq (s.taskCpu p)) (s.wts p) = false) :
        (s.wts p).windowStart + (s.rq (s.taskCpu p)).prevWindowSize =
          (s.rq (s.taskCpu p)).windowStart := by
      have hsize : (s.rq (s.taskCpu p)).windowStart - (s.wts p).markStart <
          (s.rq (s.taskCpu p)).prevWindowSize := by
        simpa [passesWindow, hstarts] using hfull
      have hpast := (hon.seen (s.taskCpu p)).past hlt
      exact hpast.2.resolve_right (by omega)
    have hsame := hgrid.sameGrid cpu (s.taskCpu p)
    rw [rolledHeld, hstarts, if_pos rfl]
    exact ⟨portion_rolled_le hsame hlt hback, notAhead_rolled hahead hsame hback⟩

theorem held_idle (hidle : (s.wts p).idle = true) (cpu : Cpu) (grp : Bool) :
    held s cpu grp p = fun _ => 0 := by
  simp [held, hidle]

variable (hs : Reserved s) (hgrid : Grid s) (h : Accounted env p event wallclock irqtime s t)
include hs hgrid h

theorem Reserved.held_first (hzero : (s.wts p).markStart = 0) (cpu : Cpu) (grp : Bool) :
    held t cpu grp p = fun _ => 0 := by
  obtain ⟨-, hcurr, hprev⟩ := hgrid.unstarted p hzero
  obtain ⟨-, hcurr', hprev'⟩ := h.times_first hzero
  have hcpu : (t.wts p).cpuTime cpu = fun _ => 0 := by
    obtain ⟨windowStart, -, hfirst⟩ := firstWindow_eq (s.rq (s.taskCpu p)) (s.wts p)
    rw [h.wts]
    simp only [updateTaskAndRq, if_pos hzero, hfirst]
    exact hs.unstarted p hzero cpu
  have htime : (t.wts p).time = fun _ => 0 := by
    rw [time, hcurr', hprev', hcurr, hprev]
    funext w
    cases w <;> rfl
  simp only [held, hcpu, htime, ite_self]

theorem Reserved.account_due
    (hlt : wallclock < (s.rq (s.taskCpu p)).windowStart + s.schedRavgWindow)
    (hmark : (s.wts p).markStart ≤ wallclock) (hidle : (s.wts p).idle = false)
    (hstarted : (s.wts p).markStart ≠ 0) (cpu : Cpu) (grp new : Bool) (w : Tracked) :
    due t cpu grp new w p + ((s.rq cpu).pool grp).get new w ≤
      due s cpu grp new w p + ((t.rq cpu).pool grp).get new w := by
  have htw := hgrid.account_window h hlt hmark
  obtain ⟨hroll, -⟩ := hgrid.portion_rolledHeld hs hstarted
    (hgrid.window_of_not_starts hstarted hlt hmark) cpu grp
  obtain ⟨g, hg⟩ : ∃ g, g = gain (s.call env p event wallclock irqtime) (s.rq (s.taskCpu p))
    (s.wts p) := ⟨_, rfl⟩
  have hheld := h.held_le hidle hstarted cpu grp
  rw [← hg] at hheld
  -- On the task's own CPU its windows are the CPU's; elsewhere it gains nothing.
  have hportion : portion t.schedRavgWindow (t.rq cpu).windowStart (t.rq cpu).prevWindowSize
      (t.wts p).windowStart (held t cpu grp p) w ≤
      portion s.schedRavgWindow (s.rq cpu).windowStart (s.rq cpu).prevWindowSize
        (s.wts p).windowStart (held s cpu grp p) w +
        if cpu = s.taskCpu p ∧ grp = (s.wts p).grp then g w else 0 := by
    rw [h.frame.schedRavgWindow, (h.sameRqWindow cpu).windowStart,
      (h.sameRqWindow cpu).prevWindowSize, htw]
    refine Nat.le_trans ?_ (Nat.add_le_add_right (hroll w) _)
    by_cases hcpu : cpu = s.taskCpu p
    · rw [hcpu, portion_of_eq rfl, portion_of_eq rfl]
      have := hheld w
      rwa [hcpu] at this
    · simp only [hcpu, false_and, if_false, Nat.add_zero] at hheld ⊢
      exact portion_mono hheld w
  have hpool : ((t.rq cpu).pool grp).get new w = ((s.rq cpu).pool grp).get new w +
      if cpu = s.taskCpu p ∧ grp = (s.wts p).grp then only new (isNewTask (t.wts p)) (g w)
      else 0 := by
    by_cases hcpu : cpu = s.taskCpu p
    · rw [hcpu, h.pool hidle hstarted, ← hg]
      simp only [true_and]
    · rw [h.frame.rq cpu hcpu, if_neg fun hboth => hcpu hboth.1, Nat.add_zero]
  have hnew : isNewTask (t.wts p) = true → isNewTask (s.wts p) = true := fun hn =>
    isNewTask_rolledTask _ _ ((h.isNewTask_eq hstarted).symm.trans hn)
  have hdue := only_le new (isNewTask (t.wts p)) hportion
  rw [only_add] at hdue
  have hanti := only_anti hnew new (portion s.schedRavgWindow (s.rq cpu).windowStart
    (s.rq cpu).prevWindowSize (s.wts p).windowStart (held s cpu grp p) w)
  rw [hpool, due, due]
  split_ifs at hdue ⊢
  · omega
  · rw [only_zero] at hdue
    omega

theorem Reserved.account (hle : (s.rq (s.taskCpu p)).windowStart ≤ wallclock)
    (hlt : wallclock < (s.rq (s.taskCpu p)).windowStart + s.schedRavgWindow)
    (hmark : (s.wts p).markStart ≤ wallclock) : Reserved t := by
  have hrq := h.sameRqWindow
  have hdeferred cpu grp new w : deferred (t.rq cpu) grp new w = deferred (s.rq cpu) grp new w := by
    simp only [deferred, h.loadSubs, (hrq cpu).windowStart, (hrq cpu).prevWindowSize]
  have hreached cpu : Reached (t.rq cpu).loadSubs (s.rq cpu).windowStart := by
    rw [h.loadSubs]
    exact hs.reached cpu
  have hmarked (hzero : (t.wts p).markStart = 0) (cpu : Cpu) :
      (t.wts p).cpuTime cpu = fun _ => 0 := by
    have hpos := hgrid.agreed.start_pos (s.taskCpu p)
    rw [h.wts] at hzero
    have hzero : wallclock = 0 := hzero
    omega
  have hnothing (hquiet : ¬ ((s.wts p).idle = false ∧ (s.wts p).markStart ≠ 0)) cpu grp :
      held t cpu grp p = fun _ => 0 := by
    by_cases hidle : (s.wts p).idle = true
    · exact held_idle ((h.frame.flags p).idle.trans hidle) cpu grp
    · have hzero : (s.wts p).markStart = 0 := by
        by_contra hne
        exact hquiet ⟨by simpa using hidle, hne⟩
      exact hs.held_first hgrid h hzero cpu grp
  refine hs.of_task h.frame.schedRavgWindow hrq
    (fun p' hne => ⟨h.frame.wts p' hne, by rw [h.frame.taskCpu]⟩)
    (fun cpu grp new w => ?_) (fun cpu grp => ?_) hreached hmarked
  all_goals
    by_cases hbusy : (s.wts p).idle = false ∧ (s.wts p).markStart ≠ 0
  · have hdue := hs.account_due hgrid h hlt hmark hbusy.1 hbusy.2 cpu grp new w
    rw [hdeferred]
    omega
  · have hpool := h.pool_le cpu grp new w
    rw [hdeferred, due, hnothing hbusy, portion_zero, only_zero]
    omega
  · rw [hgrid.account_window h hlt hmark]
    by_cases hcpu : cpu = s.taskCpu p
    · exact notAhead_of_le (by rw [hcpu])
    · have hheld := h.held_le hbusy.1 hbusy.2 cpu grp
      simp only [hcpu, false_and, if_false, Nat.add_zero] at hheld
      exact (hgrid.portion_rolledHeld hs hbusy.2
        (hgrid.window_of_not_starts hbusy.2 hlt hmark) cpu grp).2.mono hheld
  · rw [hnothing hbusy]
    exact notAhead_zero

end Account
end MsmKernel.Walt
