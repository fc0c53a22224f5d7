import MsmKernel.Walt.ReserveActs

/-! Busy time conservation: along every run of the hooks the pools cover what is taken out of them,
so no busy time check fires and no load is clamped away. -/
set_option linter.unusedSectionVars false

namespace MsmKernel.Walt
open Run Windows
variable {Task Cpu : Type} [DecidableEq Task] [DecidableEq Cpu]

/- transfer_busy_time moves a task under the new_task it has read before the pending migration. -/
def ReadsNew (s : State Task Cpu) : Act Task Cpu → Prop
  | .joinGroup p newTask | .leaveGroup p newTask => newTask = isNewTask (s.wts p)
  | _ => True

variable {a : Act Task Cpu} {event : TaskEvent} {irqtime : Nat}

/-- The reserves are kept by every act of a hook that is on time, and no check fires. -/
theorem Reserved.act [Fintype Task] {topo : Topology Cpu} {s t : State Task Cpu} (hs : Reserved s)
    (hplaced : Placed s) (hgrid : Grid s) (hready : Ready s a) (hontime : OnTime s a)
    (hfresh : Fresh s a) (hnew : ReadsNew s a) (h : act topo s a = some t) :
    Reserved t ∧ t.busyTimeBug = s.busyTimeBug := by
  cases a <;> try obtain rfl := Option.some.inj h
  case update env p event wallclock irqtime =>
    exact ⟨hs.update hgrid hontime h, (updateFrame h).busyTimeBug⟩
  case changeWindow thisCpu wallclock newWindow =>
    refine ⟨hs.changeWindow hgrid hready, ?_⟩
    simp only [Walt.changeWindow]
    split_ifs <;> rfl
  case depart p newCpu => exact hs.depart hgrid hready.1 hfresh newCpu
  case arrive p =>
    have hidle : (s.wts p).idle = false := by
      by_contra hidle
      exact hready (hplaced.settled p (.inr (.inl (by simpa using hidle))))
    exact hs.arrive hgrid hidle hfresh hready hontime
  case joinGroup p newTask => exact hs.joinGroup hgrid hready.1 hfresh hready.2.1 hready.2.2 hnew
  case leaveGroup p newTask =>
    have hidle : (s.wts p).idle = false := by
      by_contra hidle
      have hgrp := hplaced.idle_grp p (by simpa using hidle)
      simp [hready.1] at hgrp
    exact hs.leaveGroup hgrid hidle hfresh hready.1 hready.2 hnew
  case accountSubs cpu => exact hs.accountLoadSubtractions hgrid cpu
  case switch _ _ | enqueue _ _ _ | dequeue _ | misfit _ _ _ | setClass _ _ =>
    have hsame := sameWindows_act h trivial
    exact hs.aside hsame (aside_act h trivial)

/- A task that is still new and has a migration pending joins or leaves the group within one window
of its CPU: both clock readings of the transfer are in that window. -/
def SteadyTransfer (s : State Task Cpu) : Event Task Cpu → Prop
  | .addTaskToGroup _ _ p wallclock wallclock' | .removeTaskFromGroup _ _ p wallclock wallclock' =>
    (s.wts p).enqueueAfterMigration ≠ .none → isNewTask (s.wts p) = true →
      (wallclock' - (s.rq (s.taskCpu p)).windowStart) / s.schedRavgWindow =
        (wallclock - (s.rq (s.taskCpu p)).windowStart) / s.schedRavgWindow
  | _ => True

instance decidableSteadyTransfer (s : State Task Cpu) : ∀ e, Decidable (SteadyTransfer s e) := by
  rintro (_ | _) <;> (dsimp only [SteadyTransfer]; infer_instance)

section Transfer
variable {topo : Topology Cpu} {s t u : State Task Cpu} {env env' : Env} {p : Task}
  {wallclock wallclock' : Nat}

theorem Accounted.newness (h : Accounted env p event wallclock irqtime s t) :
    (isNewTask (s.wts p) = false → isNewTask (t.wts p) = false) ∧
      (startsWindow (s.rq (s.taskCpu p)) (s.wts p) = false →
        isNewTask (t.wts p) = isNewTask (s.wts p)) := by
  by_cases hzero : (s.wts p).markStart = 0
  · obtain ⟨windowStart, -, hfirst⟩ := firstWindow_eq (s.rq (s.taskCpu p)) (s.wts p)
    have hsame : isNewTask (t.wts p) = isNewTask (s.wts p) := by
      rw [h.wts]
      simp only [updateTaskAndRq, if_pos hzero, hfirst, isNewTask]
    exact ⟨hsame.trans, fun _ => hsame⟩
  · have heq := h.isNewTask_eq hzero
    refine ⟨fun hold => ?_, fun hstill => ?_⟩
    · by_contra hnew
      rw [Bool.not_eq_false, heq] at hnew
      simp [isNewTask_rolledTask _ _ hnew] at hold
    · rw [heq, isNewTask, isNewTask, rolledTask_activeTime, if_neg fun hgrow => ?_]
      simp [hgrow.1] at hstill

theorem update_newness (hgrid : Grid s) (hok : OnTime s (.update env p event wallclock irqtime))
    (h : waltUpdateTaskRavg env p event wallclock irqtime s = some t) :
    (t.wts p).markStart = wallclock ∧
      (isNewTask (s.wts p) = false → isNewTask (t.wts p) = false) ∧
      ((t.rq (s.taskCpu p)).windowStart ≤ (s.wts p).markStart →
        isNewTask (t.wts p) = isNewTask (s.wts p)) ∧
      ∃ k, (t.rq (s.taskCpu p)).windowStart =
          (s.rq (s.taskCpu p)).windowStart + k * s.schedRavgWindow ∧
        (t.rq (s.taskCpu p)).windowStart ≤ wallclock ∧
        ((s.wts p).markStart ≠ wallclock →
          wallclock < (t.rq (s.taskCpu p)).windowStart + s.schedRavgWindow) := by
  rcases update_cases h with ⟨rfl, hzero | hnoop⟩ | ⟨q, hupd⟩
  · exact absurd hzero (hgrid.agreed.start_pos _).ne'
  · exact ⟨hnoop, id, fun _ => rfl, 0, by simp, hok.2.1, fun hne => absurd hnoop hne⟩
  · obtain ⟨k, hin, -, hacc⟩ := update_advance hgrid.agreed.window_pos hok.1 h hupd
    have hself := advance_rq_self (s := s) (s.taskCpu p) wallclock k
    have hws : (t.rq (s.taskCpu p)).windowStart =
        (s.rq (s.taskCpu p)).windowStart + k * s.schedRavgWindow := by
      rw [(hacc.sameRqWindow (s.taskCpu p)).windowStart, hself, advance_windowStart]
    have hadv : ((s.advance (s.taskCpu p) wallclock k).rq (s.taskCpu p)).windowStart =
        (t.rq (s.taskCpu p)).windowStart := by rw [hself, advance_windowStart, hws]
    refine ⟨by rw [hacc.wts], hacc.newness.1, fun hle => hacc.newness.2 ?_, k, hws, hws ▸ hin.le,
      fun _ => hws ▸ hin.lt⟩
    have hmark : ((s.advance (s.taskCpu p) wallclock k).rq (s.taskCpu p)).windowStart ≤
        (s.wts p).markStart := hadv ▸ hle
    exact decide_eq_false (Nat.not_lt.2 hmark)

/- A second reading in the window of the first one starts no window for a task that was marked by
the first one. -/
theorem second_reading {start size k k' first second : Nat}
    (hsame : (second - start) / size = (first - start) / size) (hfirst : start + k * size ≤ first)
    (hle : start + k * size + k' * size ≤ second)
    (hlt : first ≠ second → second < start + k * size + k' * size + size) :
    start + k * size + k' * size ≤ first := by
  by_cases heq : first = second
  · omega
  · have hdiv : (second - start) / size = k + k' := by
      refine Nat.div_eq_of_lt_le ?_ ?_
      · rw [Nat.add_mul]
        omega
      · rw [Nat.succ_mul, Nat.add_mul]
        omega
    have hback := Nat.div_mul_le_self (first - start) size
    rw [← hsame, hdiv, Nat.add_mul] at hback
    omega

section
variable (hgrid : Grid s)
  (hsteady : SteadyTransfer s (.addTaskToGroup env env' p wallclock wallclock'))
include hgrid hsteady

theorem isNewTask_consume (hok : OnTime s (.update env p .taskUpdate wallclock 0))
    (hu : waltUpdateTaskRavg env p .taskUpdate wallclock 0 s = some u)
    (hokc : Along (act topo) OnTime u (consumeActs env' p wallclock' u))
    (ht : run (act topo) u (consumeActs env' p wallclock' u) = some t) :
    isNewTask (t.wts p) = isNewTask (u.wts p) := by
  have hframe := updateFrame hu
  by_cases hflag : (u.wts p).enqueueAfterMigration = .none
  · rw [consumeActs, if_neg (not_not.2 hflag)] at ht
    rw [Option.some.inj ht]
  · rw [consumeActs, if_pos hflag] at ht hokc
    obtain ⟨v, hv, ht⟩ := Option.bind_eq_some_iff.1 ht
    have harrive : act topo v (.arrive p) = some t := ht
    have hsame := sameWindows_act harrive trivial
    have hkeep : isNewTask (t.wts p) = isNewTask (v.wts p) := by
      rw [isNewTask, isNewTask, (hsame.wts p).activeTime]
    rw [hkeep]
    obtain ⟨hmark, hold, -, k, hk, hkle, -⟩ := update_newness hgrid hok hu
    obtain ⟨-, hold', hnew', k', hk', hkle', hklt'⟩ :=
      update_newness (hgrid.update hok hu) hokc.1 hv
    rw [hframe.taskCpu, hmark] at hnew'
    rw [hframe.taskCpu, hframe.schedRavgWindow] at hk' hklt'
    rw [hframe.taskCpu] at hkle'
    rw [hmark] at hklt'
    cases hstill : isNewTask (u.wts p) with
    | false => exact hold' hstill
    | true =>
      refine (hnew' ?_).trans hstill
      have hsteady := hsteady (by rwa [← (hframe.flags p).pending])
        (by by_contra hno; simp [hold (by simpa using hno)] at hstill)
      rw [hk', hk] at hkle' hklt' ⊢
      exact second_reading hsteady (hk ▸ hkle) hkle' hklt'

theorem readsNew_transfer
    (ha : ∀ t, ReadsNew t a ↔ newTaskAtTransfer env p wallclock s = isNewTask (t.wts p))
    (hok : Along (act topo) OnTime s (.update env p .taskUpdate wallclock 0 :: (consumeActs env' p wallclock' s ++ [a]))) :
    Along (act topo) ReadsNew s
      (.update env p .taskUpdate wallclock 0 :: (consumeActs env' p wallclock' s ++ [a])) := by
  refine along_update trivial fun u hu => ?_
  have hu' : act topo s (.update env p .taskUpdate wallclock 0) = some u := hu
  rw [along_cons_of_step hu'] at hok
  rw [← consumeActs_congr ((updateFrame hu).flags p).pending] at hok ⊢
  refine along_append.2 ⟨along_consumeActs (fun _ _ _ _ => trivial) fun _ _ _ => trivial,
    fun t ht => ⟨(ha t).2 ?_, ?_⟩⟩
  · rw [isNewTask_consume hgrid hsteady hok.1 hu (along_append.1 hok.2).1 ht]
    simp only [newTaskAtTransfer, hu]
  · cases act topo t a <;> trivial

end

/-- Steady transfers move busy time under the newness that the task has when it moves. -/
theorem throughout_readsNew (hgrid : Grid s) {e : Event Task Cpu} (hsteady : SteadyTransfer s e)
    (hok : Throughout topo OnTime s e) : Throughout topo ReadsNew s e := by
  have hquiet (s : State Task Cpu) (a) (ha : ¬ Act.Moves a) : ReadsNew s a := by
    cases a <;> first | trivial | exact absurd trivial ha
  cases e with
  | addTaskToGroup env env' p wallclock wallclock'
  | removeTaskFromGroup env env' p wallclock wallclock' =>
    exact readsNew_transfer hgrid hsteady (fun _ => Iff.rfl) hok
  | setTaskCpu env p newCpu wallclock => exact along_update trivial fun t ht => ⟨trivial, trivial⟩
  | enqueueTask env p schedDelayed enqueueDelayed wallclock fitsMax rtgHighPrio =>
    simp only [Throughout, acts]
    split_ifs
    · trivial
    · exact along_append.2 ⟨along_consumeActs (fun _ _ _ _ => trivial) fun _ _ _ => trivial,
        fun t _ => ⟨trivial, trivial⟩⟩
  | ravg _ _ _ _ _ | tryToWakeUp _ _ _ _ _ | schedule _ _ _ _ _ | tickEntry _ _ _
  | accountIrq _ _ _ _ | dequeueTask _ _ | migrationIrqWork _ _ _ | rolloverIrqWork _ _ _ _
  | updateMisfitStatus _ _ _ | setSchedClass _ _ => exact throughout_quiet hquiet trivial

end Transfer

/-- Along every run of events that are on time and whose group transfers of new tasks are steady, no
subtraction exceeds the sum it is taken from: no busy time check fires and nothing is clamped. -/
theorem busy_time_is_conserved [Fintype Task] [Nonempty Cpu] (topo : Topology Cpu)
    (core : Core Task Cpu) {window tick : Nat} (hwindow : 0 < window) (htick : 0 < tick)
    {es : List (Event Task Cpu)} {t : State Task Cpu}
    (hok : Along (step topo) (fun s e => SteadyTransfer s e ∧ Throughout topo OnTime s e)
      (waltInitStopHandler core window tick) es)
    (h : run (step topo) (waltInitStopHandler core window tick) es = some t) :
    t.busyTimeBug = false := by
  have hinit : (waltInitStopHandler core window tick).busyTimeBug = false := rfl
  have hinv := run_invariant
    (I := fun s => Placed s ∧ Grid s ∧ Reserved s ∧ s.busyTimeBug = false)
    (fun s e t hI hok h => ?_)
    ⟨placed_init core window tick, grid_init core hwindow htick, reserved_init core hwindow, hinit⟩
    hok h
  · exact hinv.2.2.2
  · have hall : Throughout topo (fun s a => OnTime s a ∧ Fresh s a ∧ ReadsNew s a) s e :=
      along_and.2 ⟨hok.2, along_and.2 ⟨hI.2.1.throughout_fresh hok.2,
        throughout_readsNew hI.2.1 hok.1 hok.2⟩⟩
    refine step_invariant (I := fun s => Placed s ∧ Grid s ∧ Reserved s ∧ s.busyTimeBug = false)
      (fun s a t hI hready hok h => ?_) hI hall h
    obtain ⟨hplaced, hgrid, hs, hbug⟩ := hI
    obtain ⟨hontime, hfresh, hnew⟩ := hok
    obtain ⟨ht, hsame⟩ := hs.act hplaced hgrid hready hontime hfresh hnew h
    exact ⟨hplaced.act hready h, hgrid.act hready hontime h, ht, hsame.trans hbug⟩

theorem busy_time_is_conserved_on_move :
    let es : List (Event (Fin 5) (Fin 3)) :=
      [.enqueueTask plainEnv 3 false false 0 true false,
        .schedule plainEnv plainEnv 0 3 1601000000, .tickEntry plainEnv 0 1605000000,
        .dequeueTask 3 false, .schedule plainEnv plainEnv 0 0 1607000000,
        .setTaskCpu plainEnv 3 2 1608000000,
        .addTaskToGroup plainEnv plainEnv 3 1608100000 1608200000]
    ∃ t, run (step littleBig) (waltInitStopHandler littleBigCore 16000000 1600000000) es = some t ∧
      (t.rq 2).grpTime.currRunnableSum = 6000000 ∧ (t.rq 0).sums.currRunnableSum = 0 ∧
      t.busyTimeBug = false := by
  intro es
  exact exists_run_and (by decide +kernel) fun t ht _ => ⟨run_holds ht (by decide +kernel),
    busy_time_is_conserved littleBig littleBigCore (by decide) (by decide) (by decide +kernel) ht⟩

/-- Task 3 is new, with a migration to CPU 2 pending, when it joins the group with a first clock
reading at the end of a window and a second one after it. The arrival takes it past the active time
of a new task and adds it to the sums of old tasks only; the transfer then subtracts it as new. -/
theorem transfer_across_a_window_fires_a_check :
    ∃ t, run (step littleBig) (waltInitStopHandler littleBigCore 16000000 1600000000)
        [.enqueueTask plainEnv 3 false false 0 true false,
          .schedule plainEnv plainEnv 0 3 1601000000, .tickEntry plainEnv 0 1616000001,
          .tickEntry plainEnv 0 1632000001, .tickEntry plainEnv 0 1648000001,
          .tickEntry plainEnv 0 1664000001, .tickEntry plainEnv 0 1680000001,
          .tickEntry plainEnv 0 1697000000, .dequeueTask 3 false,
          .schedule plainEnv plainEnv 0 0 1699000000, .setTaskCpu plainEnv 3 2 1699100000,
          .addTaskToGroup plainEnv plainEnv 3 1711999999 1712000001] = some t ∧
      t.busyTimeBug = true :=
  exists_run_of_map (by decide +kernel)

end MsmKernel.Walt
