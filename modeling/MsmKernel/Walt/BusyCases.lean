import MsmKernel.Walt.Placement

/-! The three outcomes of busy time accounting for a task that is not idle: nothing is added, time
is added inside one window, or time is added on both sides of a window boundary. -/
set_option linter.unusedSectionVars false

namespace MsmKernel.Walt
variable {Task Cpu : Type} [DecidableEq Task] [DecidableEq Cpu]

variable {r : Wts Cpu} {s : State Task Cpu} {env : Env} {p : Task} {event : TaskEvent}
  {wallclock irqtime : Nat}

section Cases
variable (c : Call) (cpu : Cpu) (q : Wrq) (t : Wts Cpu)

/- The busy time of a task that is not idle: inside one window, and in the window that has ended
and the one that has begun. -/
def inWindowDelta : Nat := scaleExecTime c t.grp (elapsed c.wallclock t.markStart)

def prevWindowDelta : Nat :=
  scaleExecTime c t.grp (if passesWindow q t then q.prevWindowSize else q.windowStart - t.markStart)

def currWindowDelta : Nat := scaleExecTime c t.grp (elapsed c.wallclock q.windowStart)

theorem accountBusyTime_skip (h : accountBusyForCpuTime c t.idle = false) :
    accountBusyTime c cpu q t = (q, rolledTask q t) := by
  simp [accountBusyTime, h]

theorem rolledTask_of_not_starts (h : startsWindow q t = false) : rolledTask q t = t := by
  simp [rolledTask, h]

theorem rolledTask_of_starts (hidle : t.idle = false) (h : startsWindow q t = true) :
    rolledTask q t = { rolloverTaskWindow q.prevWindowSize (passesWindow q t) t with
      windowStart := q.windowStart } := by
  simp [rolledTask, h, hidle]

theorem accountBusyTime_inWindow (hidle : t.idle = false)
    (h : accountBusyForCpuTime c t.idle = true) (hstarts : startsWindow q t = false) :
    accountBusyTime c cpu q t =
      (q.addCurr t.grp (isNewTask t) (inWindowDelta c t), t.addCurr cpu (inWindowDelta c t)) := by
  rw [hidle] at h
  simp [accountBusyTime, h, hstarts, rolledTask_of_not_starts q t hstarts, accountInWindow, hidle,
    inWindowDelta]

theorem accountAcrossWindows_rolled {full newTask : Bool} (hidle : r.idle = false)
    (hcurr : r.currWindow = 0 ∧ r.currWindowCpu = fun _ => 0)
    (hprev : full = true → r.prevWindow = 0 ∧ r.prevWindowCpu = fun _ => 0) :
    let prevDelta := scaleExecTime c r.grp
      (if full then q.prevWindowSize else q.windowStart - r.markStart)
    let currDelta := scaleExecTime c r.grp (elapsed c.wallclock q.windowStart)
    accountAcrossWindows c cpu full newTask q r =
      ((q.addPrev r.grp newTask prevDelta).addCurr r.grp newTask currDelta,
        (r.addPrev cpu prevDelta).addCurr cpu currDelta) := by
  intro prevDelta currDelta
  have hset : (r.addPrev cpu prevDelta).setCurr cpu currDelta =
      (r.addPrev cpu prevDelta).addCurr cpu currDelta := by
    simp [Wts.setCurr, Wts.addCurr, Wts.addPrev, hcurr]
  have hstore : (if full then r.setPrev cpu prevDelta else r.addPrev cpu prevDelta) =
      r.addPrev cpu prevDelta := by
    split_ifs with hfull
    · simp [Wts.setPrev, Wts.addPrev, hprev hfull]
    · rfl
  simp only [accountAcrossWindows, hidle, Bool.and_false, Bool.false_eq_true, if_false]
  rw [hstore, hset]
  rfl

theorem accountBusyTime_across (hidle : t.idle = false)
    (h : accountBusyForCpuTime c t.idle = true) (hstarts : startsWindow q t = true) :
    accountBusyTime c cpu q t =
      ((q.addPrev t.grp (isNewTask (rolledTask q t)) (prevWindowDelta c q t)).addCurr t.grp
        (isNewTask (rolledTask q t)) (currWindowDelta c q t),
        ((rolledTask q t).addPrev cpu (prevWindowDelta c q t)).addCurr cpu
          (currWindowDelta c q t)) := by
  have hrolled := rolledTask_of_starts q t hidle hstarts
  have hidle' : (rolledTask q t).idle = false := by rw [hrolled]; exact hidle
  have hcase : accountBusyTime c cpu q t = accountAcrossWindows c cpu (passesWindow q t)
      (isNewTask (rolledTask q t)) q (rolledTask q t) := by
    rw [hidle] at h
    simp [accountBusyTime, hidle, h, hstarts]
  rw [hcase, accountAcrossWindows_rolled c cpu q hidle' (by rw [hrolled]; exact ⟨rfl, rfl⟩)
    (fun hfull => by rw [hrolled, hfull]; exact ⟨rfl, rfl⟩)]
  have hgrp : (rolledTask q t).grp = t.grp := by rw [hrolled]; rfl
  have hmark : (rolledTask q t).markStart = t.markStart := by rw [hrolled]; rfl
  rw [hgrp, hmark]
  rfl

theorem firstWindow_eq : ∃ windowStart, (t.windowStart ≠ 0 → windowStart = t.windowStart) ∧
    firstWindow q t = { t with windowStart } := by
  simp only [firstWindow]
  split_ifs with h
  · exact ⟨_, fun hne => absurd h hne, rfl⟩
  · exact ⟨_, fun _ => rfl, rfl⟩

theorem updateTaskAndRq_busy (hmark : t.markStart ≠ 0) :
    ∃ windowStart stats demand stats' demand',
      (t.windowStart ≠ 0 → windowStart = t.windowStart) ∧
      updateTaskAndRq c cpu q t =
        ({ (updateCpuBusyTime c cpu { q with stats } { t with windowStart, demand }).1 with
            stats := stats' },
          { (updateCpuBusyTime c cpu { q with stats } { t with windowStart, demand }).2 with
            demand := demand' }) := by
  obtain ⟨windowStart, hws, hfirst⟩ := firstWindow_eq q t
  simp only [updateTaskAndRq, if_neg hmark, accountTask, hfirst]
  exact ⟨windowStart, _, _, _, _, hws, rfl⟩

/- The u32 counters of the task hold what is added to them; storing a counter after a rollover
needs no condition. -/
def Fits : Prop :=
  t.idle = false → t.markStart ≠ 0 → accountBusyForCpuTime c t.idle = true →
    (startsWindow q t = false → t.currWindow + inWindowDelta c t < 2 ^ 32) ∧
    (startsWindow q t = true → passesWindow q t = false →
      t.currWindow + prevWindowDelta c q t < 2 ^ 32)

instance : Decidable (Fits c q t) := by
  unfold Fits
  infer_instance

end Cases

def AtUpdate (P : Call → Wrq → Wts Cpu → Prop) (s : State Task Cpu) (env : Env) (p : Task)
    (event : TaskEvent) (wallclock irqtime : Nat) : Prop :=
  match updateWindowStart s.schedRavgWindow wallclock (s.rq (s.taskCpu p)) with
  | none => True
  | some q => P (s.call env p event wallclock irqtime) q (s.wts p)

instance (P : Call → Wrq → Wts Cpu → Prop) [∀ c q r, Decidable (P c q r)] (s : State Task Cpu)
    (env : Env) (p : Task) (event : TaskEvent) (wallclock irqtime : Nat) :
    Decidable (AtUpdate P s env p event wallclock irqtime) :=
  match h : updateWindowStart s.schedRavgWindow wallclock (s.rq (s.taskCpu p)) with
  | none => isTrue (by simp [AtUpdate, h])
  | some q => decidable_of_iff (P (s.call env p event wallclock irqtime) q (s.wts p))
      (by simp [AtUpdate, h])

theorem AtUpdate.of_updated {P : Call → Wrq → Wts Cpu → Prop} {t : State Task Cpu} {q : Wrq}
    (h : AtUpdate P s env p event wallclock irqtime)
    (hupd : Updated env p event wallclock irqtime s q t) :
    P (s.call env p event wallclock irqtime) q (s.wts p) := by
  rw [AtUpdate, hupd.window] at h
  exact h

def NoOverflow (s : State Task Cpu) (env : Env) (p : Task) (event : TaskEvent)
    (wallclock irqtime : Nat) : Prop :=
  AtUpdate Fits s env p event wallclock irqtime

instance (s : State Task Cpu) (env : Env) (p : Task) (event : TaskEvent)
    (wallclock irqtime : Nat) : Decidable (NoOverflow s env p event wallclock irqtime) := by
  unfold NoOverflow
  infer_instance

theorem NoOverflow.fits {t : State Task Cpu} {q : Wrq}
    (h : NoOverflow s env p event wallclock irqtime)
    (hupd : Updated env p event wallclock irqtime s q t) :
    Fits (s.call env p event wallclock irqtime) q (s.wts p) :=
  AtUpdate.of_updated h hupd

end MsmKernel.Walt
