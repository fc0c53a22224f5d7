import MsmKernel.Walt.BusyCases
import MsmKernel.Walt.WindowAgreement

/-! What an update makes of the window times of its task and of the top-task tables of its CPU, in
the two cases of an update inside a window and an update that starts one. -/
set_option linter.unusedSectionVars false

namespace MsmKernel.Walt
variable {Task Cpu : Type} [DecidableEq Task] [DecidableEq Cpu]

section Record
variable (c : Call) (cpu : Cpu) (q : Wrq) (t : Wts Cpu)

def credit (busy : Bool) (base delta : Nat) : Nat := if busy then u32 (base + delta) else base

theorem le_credit {busy : Bool} {base delta : Nat} (h : busy = true → base + delta < 2 ^ 32) :
    base ≤ credit busy base delta := by
  cases busy with
  | false => exact Nat.le_refl base
  | true =>
    rw [credit, if_pos rfl, u32, Nat.mod_eq_of_lt (h rfl)]
    exact Nat.le_add_right base delta

theorem accountBusyTime_times_inWindow (hidle : t.idle = false) (hstarts : startsWindow q t = false) :
    (accountBusyTime c cpu q t).2.currWindow =
      credit (accountBusyForCpuTime c t.idle) t.currWindow (inWindowDelta c t) ∧
    (accountBusyTime c cpu q t).2.prevWindow = t.prevWindow := by
  cases hbusy : accountBusyForCpuTime c t.idle with
  | false =>
    rw [accountBusyTime_skip c cpu q t hbusy, rolledTask_of_not_starts q t hstarts]
    exact ⟨rfl, rfl⟩
  | true =>
    rw [accountBusyTime_inWindow c cpu q t hidle hbusy hstarts]
    exact ⟨rfl, rfl⟩

theorem accountBusyTime_times_across (hidle : t.idle = false) (hstarts : startsWindow q t = true) :
    (accountBusyTime c cpu q t).2.currWindow =
      credit (accountBusyForCpuTime c t.idle) 0 (currWindowDelta c q t) ∧
    (accountBusyTime c cpu q t).2.prevWindow = credit (accountBusyForCpuTime c t.idle)
      (if passesWindow q t then 0 else t.currWindow) (prevWindowDelta c q t) := by
  have hrolled := rolledTask_of_starts q t hidle hstarts
  cases hbusy : accountBusyForCpuTime c t.idle with
  | false =>
    rw [accountBusyTime_skip c cpu q t hbusy, hrolled]
    exact ⟨rfl, rfl⟩
  | true =>
    rw [accountBusyTime_across c cpu q t hidle hbusy hstarts, hrolled]
    exact ⟨rfl, rfl⟩

theorem updateCpuBusyTime_topTasks : (updateCpuBusyTime c cpu q t).1.topTasks =
    if t.idle then q.topTasks
    else updateTopTasks t.currWindow (accountBusyTime c cpu q t).2.currWindow
      (accountBusyTime c cpu q t).2.prevWindow (startsWindow q t) (passesWindow q t) q.topTasks := by
  obtain ⟨sums, grpTime, h⟩ := accountBusyTime_rq c cpu q t
  simp only [updateCpuBusyTime]
  split_ifs <;> simp only [h]

theorem updateCpuBusyTime_sums :
    (updateCpuBusyTime c cpu q t).1.sums = (accountBusyTime c cpu q t).1.sums := by
  simp only [updateCpuBusyTime]
  split_ifs <;> rfl

theorem updateCpuBusyTime_grpTime :
    (updateCpuBusyTime c cpu q t).1.grpTime = (accountBusyTime c cpu q t).1.grpTime := by
  simp only [updateCpuBusyTime]
  split_ifs <;> rfl

end Record

namespace Accounted
variable {env : Env} {p : Task} {event : TaskEvent} {wallclock irqtime : Nat}
  {s t : State Task Cpu}

variable (h : Accounted env p event wallclock irqtime s t)
include h

theorem busyTime (hmark : (s.wts p).markStart ≠ 0) : ∃ stats windowStart demand demand' x,
      x = accountBusyTime (s.call env p event wallclock irqtime) (s.taskCpu p)
        { s.rq (s.taskCpu p) with stats } { s.wts p with windowStart, demand } ∧
      (t.rq (s.taskCpu p)).sums = x.1.sums ∧ (t.rq (s.taskCpu p)).grpTime = x.1.grpTime ∧
      t.wts p = { x.2 with demand := demand', markStart := wallclock } ∧
      (t.rq (s.taskCpu p)).topTasks =
        if (s.wts p).idle then (s.rq (s.taskCpu p)).topTasks
        else updateTopTasks (s.wts p).currWindow x.2.currWindow x.2.prevWindow
          (startsWindow (s.rq (s.taskCpu p)) (s.wts p))
          (passesWindow (s.rq (s.taskCpu p)) (s.wts p)) (s.rq (s.taskCpu p)).topTasks := by
  obtain ⟨windowStart, stats, demand, stats', demand', -, heq⟩ :=
    updateTaskAndRq_busy (s.call env p event wallclock irqtime) (s.taskCpu p)
      (s.rq (s.taskCpu p)) (s.wts p) hmark
  refine ⟨stats, windowStart, demand, demand', _, rfl, ?_, ?_, ?_, ?_⟩
  · rw [h.rq, heq]
    exact updateCpuBusyTime_sums ..
  · rw [h.rq, heq]
    exact updateCpuBusyTime_grpTime ..
  · rw [h.wts, heq]
    simp only [updateCpuBusyTime_snd]
  · rw [h.rq, heq]
    exact updateCpuBusyTime_topTasks ..

section
variable (hidle : (s.wts p).idle = false) (hmark : (s.wts p).markStart ≠ 0)
include hidle hmark

theorem times_inWindow (hstarts : startsWindow (s.rq (s.taskCpu p)) (s.wts p) = false) :
    (t.wts p).currWindow = credit
      (accountBusyForCpuTime (s.call env p event wallclock irqtime) (s.wts p).idle)
      (s.wts p).currWindow (inWindowDelta (s.call env p event wallclock irqtime) (s.wts p)) ∧
    (t.wts p).prevWindow = (s.wts p).prevWindow := by
  obtain ⟨stats, windowStart, demand, demand', x, hx, -, -, hwts, -⟩ := h.busyTime hmark
  rw [hwts, hx]
  exact accountBusyTime_times_inWindow _ _ { s.rq (s.taskCpu p) with stats }
    { s.wts p with windowStart, demand } hidle hstarts

theorem times_across (hstarts : startsWindow (s.rq (s.taskCpu p)) (s.wts p) = true) :
    (t.wts p).currWindow = credit
      (accountBusyForCpuTime (s.call env p event wallclock irqtime) (s.wts p).idle) 0
      (currWindowDelta (s.call env p event wallclock irqtime) (s.rq (s.taskCpu p)) (s.wts p)) ∧
    (t.wts p).prevWindow = credit
      (accountBusyForCpuTime (s.call env p event wallclock irqtime) (s.wts p).idle)
      (if passesWindow (s.rq (s.taskCpu p)) (s.wts p) then 0 else (s.wts p).currWindow)
      (prevWindowDelta (s.call env p event wallclock irqtime) (s.rq (s.taskCpu p)) (s.wts p)) := by
  obtain ⟨stats, windowStart, demand, demand', x, hx, -, -, hwts, -⟩ := h.busyTime hmark
  rw [hwts, hx]
  exact accountBusyTime_times_across _ _ { s.rq (s.taskCpu p) with stats }
    { s.wts p with windowStart, demand } hidle hstarts

end

theorem times_first (hmark : (s.wts p).markStart = 0) : t.rq (s.taskCpu p) = s.rq (s.taskCpu p) ∧
      (t.wts p).currWindow = (s.wts p).currWindow ∧ (t.wts p).prevWindow = (s.wts p).prevWindow := by
  obtain ⟨windowStart, -, hfirst⟩ := firstWindow_eq (s.rq (s.taskCpu p)) (s.wts p)
  rw [h.rq, h.wts]
  simp only [updateTaskAndRq, if_pos hmark, hfirst, and_self]

theorem topTasks (hmark : (s.wts p).markStart ≠ 0) : (t.rq (s.taskCpu p)).topTasks =
      if (s.wts p).idle then (s.rq (s.taskCpu p)).topTasks
      else updateTopTasks (s.wts p).currWindow (t.wts p).currWindow (t.wts p).prevWindow
        (startsWindow (s.rq (s.taskCpu p)) (s.wts p)) (passesWindow (s.rq (s.taskCpu p)) (s.wts p))
        (s.rq (s.taskCpu p)).topTasks := by
  obtain ⟨stats, windowStart, demand, demand', x, -, -, -, hwts, htop⟩ := h.busyTime hmark
  rw [htop, hwts]

end Accounted
end MsmKernel.Walt
