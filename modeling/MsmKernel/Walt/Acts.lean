import MsmKernel.Walt.Frame

/-! Every hook is a sequence of acts: one call of walt_update_task_ravg, one leg of a migration or
of a group transfer, one change of the totals. An invariant is proved for each act and carried
through the acts of an event, and from there through a run. -/
set_option linter.unusedSectionVars false

namespace MsmKernel.Walt
open Run Function Option
variable {Task Cpu : Type} [DecidableEq Task] [DecidableEq Cpu]

inductive Act (Task Cpu : Type) where
  | update (env : Env) (p : Task) (event : TaskEvent) (wallclock irqtime : Nat)
  | depart (p : Task) (newCpu : Cpu)
  | arrive (p : Task)
  | joinGroup (p : Task) (newTask : Bool)
  | leaveGroup (p : Task) (newTask : Bool)
  | accountSubs (cpu : Cpu)
  | switch (cpu : Cpu) (next : Task)
  | enqueue (p : Task) (fitsMax rtgHighPrio : Bool)
  | dequeue (p : Task)
  | misfit (p : Task) (fitsMax : Bool) (taskUtil : Nat)
  | setClass (p : Task) (fair : Bool)
  | changeWindow (thisCpu : Cpu) (wallclock newWindow : Nat)

/- What set_task_cpu does after the update: a task whose earlier migration is still pending only
gets the new flag. -/
def depart (topo : Topology Cpu) (p : Task) (newCpu : Cpu) (s : State Task Cpu) : State Task Cpu :=
  let t := setEnqueueAfterMigration p (pendingMigration topo (s.taskCpu p) newCpu) s
  let t := if (s.wts p).enqueueAfterMigration ≠ .none then t else subtractFromSource topo p t
  { t with taskCpu := update t.taskCpu p newCpu }

def arrive (p : Task) (s : State Task Cpu) : State Task Cpu :=
  setEnqueueAfterMigration p .none (addToDestination p s)

def act (topo : Topology Cpu) (s : State Task Cpu) : Act Task Cpu → Option (State Task Cpu)
  | .update env p event wallclock irqtime => waltUpdateTaskRavg env p event wallclock irqtime s
  | .depart p newCpu => some (depart topo p newCpu s)
  | .arrive p => some (arrive p s)
  | .joinGroup p newTask => some (transferToGroup topo p newTask s)
  | .leaveGroup p newTask => some (transferToRq p newTask s)
  | .accountSubs cpu => some (accountLoadSubtractions cpu s)
  | .switch cpu next => some { s with curr := update s.curr cpu next }
  | .enqueue p fitsMax rtgHighPrio =>
    some ((enqueueStats p fitsMax rtgHighPrio s).setQueued p true)
  | .dequeue p => some (dequeueStats p (s.setQueued p false))
  | .misfit p fitsMax taskUtil => some (androidRvhUpdateMisfitStatus p fitsMax taskUtil s)
  | .setClass p fair => some { s with fair := update s.fair p fair }
  | .changeWindow thisCpu wallclock newWindow =>
    some (changeWindow topo thisCpu wallclock newWindow s)

def consumeActs (env : Env) (p : Task) (wallclock : Nat) (s : State Task Cpu) :
    List (Act Task Cpu) :=
  if (s.wts p).enqueueAfterMigration ≠ .none then
    [.update env p .taskUpdate wallclock 0, .arrive p]
  else []

def newTaskAtTransfer (env : Env) (p : Task) (wallclock : Nat) (s : State Task Cpu) : Bool :=
  match waltUpdateTaskRavg env p .taskUpdate wallclock 0 s with
  | some t => isNewTask (t.wts p)
  | none => false

def irqWorkActs (env : Cpu → Env) (wallclock : Nat) (s : State Task Cpu) :
    List Cpu → List (Act Task Cpu)
  | [] => []
  | cpu :: cpus =>
    .update (env cpu) (s.curr cpu) .taskUpdate wallclock 0 :: .accountSubs cpu ::
      irqWorkActs env wallclock s cpus

def acts (topo : Topology Cpu) (s : State Task Cpu) : Event Task Cpu → List (Act Task Cpu)
  | .ravg env p event wallclock irqtime => [.update env p event wallclock irqtime]
  | .tryToWakeUp env env' p inIowait wallclock =>
    let curr := s.curr (s.taskCpu p)
    (if (s.wts curr).idle ∧ inIowait then [.update env curr .taskUpdate wallclock 0] else []) ++
      [.update env' p .taskWake wallclock 0]
  | .schedule env env' cpu next wallclock =>
    let prev := s.curr cpu
    if prev ≠ next then
      [.update env prev .putPrevTask wallclock 0, .update env' next .pickNextTask wallclock 0,
        .switch cpu next]
    else [.update env prev .taskUpdate wallclock 0]
  | .tickEntry env cpu wallclock => [.update env (s.curr cpu) .taskUpdate wallclock 0]
  | .accountIrq env cpu wallclock irqtime => [.update env (s.curr cpu) .irqUpdate wallclock irqtime]
  | .setTaskCpu env p newCpu wallclock =>
    [.update env p .taskMigrate wallclock 0, .depart p newCpu]
  | .enqueueTask env p schedDelayed enqueueDelayed wallclock fitsMax rtgHighPrio =>
    if schedDelayed ∧ ¬ enqueueDelayed then []
    else consumeActs env p wallclock s ++ [.enqueue p fitsMax rtgHighPrio]
  | .dequeueTask p schedDelayed =>
    if schedDelayed ∧ (s.wts p).prevOnRq = .dequeued then [] else [.dequeue p]
  | .addTaskToGroup env env' p wallclock wallclock' =>
    .update env p .taskUpdate wallclock 0 :: (consumeActs env' p wallclock' s ++
      [.joinGroup p (newTaskAtTransfer env p wallclock s)])
  | .removeTaskFromGroup env env' p wallclock wallclock' =>
    .update env p .taskUpdate wallclock 0 :: (consumeActs env' p wallclock' s ++
      [.leaveGroup p (newTaskAtTransfer env p wallclock s)])
  | .migrationIrqWork env lockCpus wallclock =>
    irqWorkActs env wallclock s (lockedCpus topo lockCpus)
  | .rolloverIrqWork env thisCpu wallclock newWindow =>
    irqWorkActs env wallclock s topo.cpus ++ [.changeWindow thisCpu wallclock newWindow]
  | .updateMisfitStatus p fitsMax taskUtil => [.misfit p fitsMax taskUtil]
  | .setSchedClass p fair => [.setClass p fair]

/- The flag is read by no update. -/
def Wts.withPending (t : Wts Cpu) (pending : PendingMigration) : Wts Cpu :=
  { t with enqueueAfterMigration := pending }

section Pending
variable (c : Call) (cpu : Cpu) (q : Wrq) (t : Wts Cpu) (pending : PendingMigration)

theorem startsWindow_withPending : startsWindow q (t.withPending pending) = startsWindow q t := rfl

theorem passesWindow_withPending : passesWindow q (t.withPending pending) = passesWindow q t := rfl

theorem isNewTask_withPending : isNewTask (t.withPending pending) = isNewTask t := rfl

theorem withPending_idle : (t.withPending pending).idle = t.idle := rfl

theorem withPending_grp : (t.withPending pending).grp = t.grp := rfl

theorem rolledTask_withPending :
    rolledTask q (t.withPending pending) = (rolledTask q t).withPending pending := by
  cases hstarts : startsWindow q t <;> cases hidle : t.idle <;>
    simp only [rolledTask, startsWindow_withPending, passesWindow_withPending, withPending_idle,
      hstarts, hidle] <;> rfl

theorem accountBusyTime_withPending :
    accountBusyTime c cpu q (t.withPending pending) =
      ((accountBusyTime c cpu q t).1, (accountBusyTime c cpu q t).2.withPending pending) := by
  simp only [accountBusyTime, rolledTask_withPending, startsWindow_withPending,
    passesWindow_withPending, withPending_idle, withPending_grp, isNewTask_withPending,
    accountInWindow, accountAcrossWindows]
  split_ifs <;> rfl

theorem updateCpuBusyTime_withPending :
    updateCpuBusyTime c cpu q (t.withPending pending) =
      ((updateCpuBusyTime c cpu q t).1, (updateCpuBusyTime c cpu q t).2.withPending pending) := by
  simp only [updateCpuBusyTime, accountBusyTime_withPending, withPending_idle]
  split_ifs <;> rfl

theorem accountTask_withPending :
    accountTask c cpu q (t.withPending pending) =
      ((accountTask c cpu q t).1, (accountTask c cpu q t).2.withPending pending) := by
  obtain ⟨x, hx⟩ : ∃ x, x = updateTaskDemand c q.windowStart t (q.stats, t.demand) := ⟨_, rfl⟩
  have hdemand : updateTaskDemand c q.windowStart (t.withPending pending)
      (q.stats, (t.withPending pending).demand) = x := hx.symm
  have hbusy := updateCpuBusyTime_withPending c cpu { q with stats := x.1 }
  have hrecord : ({ t.withPending pending with demand := x.2 } : Wts Cpu) =
      ({ t with demand := x.2 } : Wts Cpu).withPending pending := rfl
  simp only [accountTask]
  rw [hdemand, ← hx, hrecord, hbusy]
  rfl

theorem updateTaskAndRq_withPending :
    updateTaskAndRq c cpu q (t.withPending pending) =
      ((updateTaskAndRq c cpu q t).1, (updateTaskAndRq c cpu q t).2.withPending pending) := by
  have hfirst : firstWindow q (t.withPending pending) = (firstWindow q t).withPending pending := by
    change (if t.windowStart = 0 then _ else _) = _
    simp only [firstWindow]
    split_ifs <;> rfl
  have hmark : (t.withPending pending).markStart = t.markStart := rfl
  simp only [updateTaskAndRq, hfirst, hmark, accountTask_withPending]
  split_ifs <;> rfl

theorem updateRavg_withPending :
    updateRavg c cpu q (t.withPending pending) =
      (updateRavg c cpu q t).map fun x => (x.1, x.2.withPending pending) := by
  have hmark : (t.withPending pending).markStart = t.markStart := rfl
  simp only [updateRavg, hmark, updateTaskAndRq_withPending]
  split_ifs
  · rfl
  · rw [map_map]
    rfl

end Pending

theorem waltUpdateTaskRavg_setEnqueueAfterMigration (env : Env) (p : Task) (event : TaskEvent)
    (wallclock irqtime : Nat) (pending : PendingMigration) (s : State Task Cpu) :
    waltUpdateTaskRavg env p event wallclock irqtime (setEnqueueAfterMigration p pending s) =
      (waltUpdateTaskRavg env p event wallclock irqtime s).map
        (setEnqueueAfterMigration p pending) := by
  have hcall : (setEnqueueAfterMigration p pending s).call env p event wallclock irqtime =
      s.call env p event wallclock irqtime := by
    have hidle (p' : Task) : ((setEnqueueAfterMigration p pending s).wts p').idle =
        (s.wts p').idle := apply_update Wts.idle (by rfl) p'
    simp only [State.call, hidle]
    rfl
  have hwts : (setEnqueueAfterMigration p pending s).wts p = (s.wts p).withPending pending :=
    update_self ..
  simp only [waltUpdateTaskRavg, hcall, hwts]
  rw [updateRavg_withPending, map_map, map_map]
  congr 1
  funext x
  simp [setEnqueueAfterMigration, State.setWts, Wts.withPending]

structure SameFlags (t t' : Wts Cpu) : Prop where
  idle : t'.idle = t.idle
  grp : t'.grp = t.grp
  pending : t'.enqueueAfterMigration = t.enqueueAfterMigration
  misfit : t'.misfit = t.misfit
  rtgHighPrio : t'.rtgHighPrio = t.rtgHighPrio
  prevOnRq : t'.prevOnRq = t.prevOnRq

theorem SameFlags.refl (t : Wts Cpu) : SameFlags t t := ⟨rfl, rfl, rfl, rfl, rfl, rfl⟩

theorem sameFlags_updateTaskAndRq (c : Call) (cpu : Cpu) (q : Wrq) (t : Wts Cpu) :
    SameFlags t (updateTaskAndRq c cpu q t).2 := by
  have hfirst : SameFlags t (firstWindow q t) := by
    simp only [firstWindow]
    split_ifs
    · exact ⟨rfl, rfl, rfl, rfl, rfl, rfl⟩
    · exact .refl t
  simp only [updateTaskAndRq]
  split_ifs
  · exact hfirst
  · simp only [accountTask, updateCpuBusyTime_snd]
    generalize updateTaskDemand c q.windowStart (firstWindow q t) (q.stats, _) = x
    obtain ⟨_, _, _, _, _, _, h⟩ := accountBusyTime_wts c cpu { q with stats := x.1 }
      { firstWindow q t with demand := x.2 }
    rw [h]
    exact ⟨hfirst.1, hfirst.2, hfirst.3, hfirst.4, hfirst.5, hfirst.6⟩

section Update
variable {env : Env} {p : Task} {event : TaskEvent} {wallclock irqtime : Nat}
  {s t : State Task Cpu}

variable (h : waltUpdateTaskRavg env p event wallclock irqtime s = some t)
include h

theorem waltUpdateTaskRavg_cases :
    (t = s ∧ ((s.rq (s.taskCpu p)).windowStart = 0 ∨ (s.wts p).markStart = wallclock)) ∨
      ∃ q, updateWindowStart s.schedRavgWindow wallclock (s.rq (s.taskCpu p)) = some q ∧
        (s.rq (s.taskCpu p)).windowStart ≠ 0 ∧ (s.wts p).markStart ≠ wallclock ∧
        t = { s with
          rq := update s.rq (s.taskCpu p)
            (updateTaskAndRq (s.call env p event wallclock irqtime) (s.taskCpu p) q (s.wts p)).1
          wts := update s.wts p
            { (updateTaskAndRq (s.call env p event wallclock irqtime) (s.taskCpu p) q
                (s.wts p)).2 with markStart := wallclock }
          waltIrqWorkLastqWs := runWaltIrqWorkRollover (s.rq (s.taskCpu p)).windowStart
            q.windowStart s.waltIrqWorkLastqWs } := by
  simp only [waltUpdateTaskRavg, updateRavg] at h
  split_ifs at h with hnoop
  · left
    obtain rfl := some.inj h
    refine ⟨?_, hnoop⟩
    simp [runWaltIrqWorkRollover]
  · right
    rw [not_or] at hnoop
    obtain ⟨x, hx, rfl⟩ := map_eq_some_iff.1 h
    obtain ⟨q, hq, rfl⟩ := map_eq_some_iff.1 hx
    refine ⟨q, hq, hnoop.1, hnoop.2, ?_⟩
    have hws := (updateTaskAndRq_keeps (s.call env p event wallclock irqtime) (s.taskCpu p) q
      (s.wts p)).1.windowStart
    simp only [hws]
    rfl

structure UpdateFrame (p : Task) (s t : State Task Cpu) : Prop where
  schedRavgWindow : t.schedRavgWindow = s.schedRavgWindow
  curr : t.curr = s.curr
  taskCpu : t.taskCpu = s.taskCpu
  queued : t.queued = s.queued
  fair : t.fair = s.fair
  busyTimeBug : t.busyTimeBug = s.busyTimeBug
  rq : ∀ cpu, cpu ≠ s.taskCpu p → t.rq cpu = s.rq cpu
  wts : ∀ p', p' ≠ p → t.wts p' = s.wts p'
  flags : ∀ p', SameFlags (s.wts p') (t.wts p')

theorem updateFrame : UpdateFrame p s t := by
  rcases waltUpdateTaskRavg_cases h with ⟨rfl, -⟩ | ⟨q, -, -, -, rfl⟩
  · exact ⟨rfl, rfl, rfl, rfl, rfl, rfl, fun _ _ => rfl, fun _ _ => rfl, fun _ => .refl _⟩
  · refine ⟨rfl, rfl, rfl, rfl, rfl, rfl, fun _ hne => update_of_ne hne _ _,
      fun _ hne => update_of_ne hne _ _, fun p' => ?_⟩
    by_cases hp : p' = p
    · subst hp
      have h := sameFlags_updateTaskAndRq (s.call env p' event wallclock irqtime) (s.taskCpu p') q
        (s.wts p')
      simp only [update_self]
      exact ⟨h.1, h.2, h.3, h.4, h.5, h.6⟩
    · simp only [update_of_ne hp]
      exact .refl _

structure Updated (env : Env) (p : Task) (event : TaskEvent) (wallclock irqtime : Nat)
    (s : State Task Cpu) (q : Wrq) (t : State Task Cpu) : Prop where
  window : updateWindowStart s.schedRavgWindow wallclock (s.rq (s.taskCpu p)) = some q
  start_ne : (s.rq (s.taskCpu p)).windowStart ≠ 0
  mark_ne : (s.wts p).markStart ≠ wallclock
  rq : t.rq (s.taskCpu p) =
    (updateTaskAndRq (s.call env p event wallclock irqtime) (s.taskCpu p) q (s.wts p)).1
  wts : t.wts p =
    { (updateTaskAndRq (s.call env p event wallclock irqtime) (s.taskCpu p) q (s.wts p)).2 with
      markStart := wallclock }
  lastqWs : t.waltIrqWorkLastqWs = runWaltIrqWorkRollover (s.rq (s.taskCpu p)).windowStart
    q.windowStart s.waltIrqWorkLastqWs

theorem update_cases :
    (t = s ∧ ((s.rq (s.taskCpu p)).windowStart = 0 ∨ (s.wts p).markStart = wallclock)) ∨
      ∃ q, Updated env p event wallclock irqtime s q t := by
  rcases waltUpdateTaskRavg_cases h with hnoop | ⟨q, hq, hstart, hmark, rfl⟩
  · exact .inl hnoop
  · exact .inr ⟨q, hq, hstart, hmark, update_self .., update_self .., rfl⟩

end Update

section Perform
variable {topo : Topology Cpu} {s t : State Task Cpu}

theorem irqWorkActs_congr {env : Cpu → Env} {wallclock : Nat} (h : t.curr = s.curr)
    (cpus : List Cpu) : irqWorkActs env wallclock t cpus = irqWorkActs env wallclock s cpus := by
  induction cpus with
  | nil => rfl
  | cons cpu cpus ih => simp only [irqWorkActs, h, ih]

theorem irqWorkCpus_eq (topo : Topology Cpu) (env : Cpu → Env) (wallclock : Nat) (cpus : List Cpu)
    (s : State Task Cpu) :
    irqWorkCpus env wallclock cpus s = run (act topo) s (irqWorkActs env wallclock s cpus) := by
  induction cpus generalizing s with
  | nil => rfl
  | cons cpu cpus ih =>
    cases hu : waltUpdateTaskRavg (env cpu) (s.curr cpu) .taskUpdate wallclock 0 s with
    | none => simp [irqWorkCpus, irqWorkCpu, irqWorkActs, run, act, hu]
    | some u =>
      have hcurr : (accountLoadSubtractions cpu u).curr = s.curr := (updateFrame hu).curr
      simp [irqWorkCpus, irqWorkCpu, irqWorkActs, run, act, hu, ih, irqWorkActs_congr hcurr]

theorem consumeMigration_eq (env : Env) (p : Task) (wallclock : Nat) (s : State Task Cpu) :
    consumeMigration env p wallclock s = run (act topo) s (consumeActs env p wallclock s) := by
  simp only [consumeMigration, consumeActs]
  split_ifs
  · cases hu : waltUpdateTaskRavg env p .taskUpdate wallclock 0 s with
    | none => simp [migrateBusyTimeAddition, run, act, hu]
    | some u => simp [migrateBusyTimeAddition, run, act, hu, arrive]
  · rfl

theorem consumeActs_congr {env : Env} {p : Task} {wallclock : Nat}
    (h : (t.wts p).enqueueAfterMigration = (s.wts p).enqueueAfterMigration) :
    (consumeActs env p wallclock t : List (Act Task Cpu)) = consumeActs env p wallclock s := by
  simp only [consumeActs, h]

theorem perform_eq (e : Event Task Cpu) : perform topo s e = run (act topo) s (acts topo s e) := by
  cases e with
  | ravg env p event wallclock irqtime => simp [perform, acts, run, act]
  | tryToWakeUp env env' p inIowait wallclock =>
    simp only [perform, androidRvhTryToWakeUp, acts, run_append]
    split_ifs
    · simp [run, act]
    · simp [run, act]
  | schedule env env' cpu next wallclock =>
    simp only [perform, androidRvhSchedule, acts]
    split_ifs
    · cases hu : waltUpdateTaskRavg env (s.curr cpu) .putPrevTask wallclock 0 s with
      | none => simp [run, act, hu]
      | some u =>
        cases hv : waltUpdateTaskRavg env' next .pickNextTask wallclock 0 u with
        | _ => simp [run, act, hu, hv]
    · simp [run, act]
  | tickEntry | accountIrq => simp [perform, acts, run, act]
  | setTaskCpu env p newCpu wallclock =>
    simp only [perform, androidRvhSetTaskCpu, migrateBusyTimeSubtraction, acts,
      waltUpdateTaskRavg_setEnqueueAfterMigration]
    cases hu : waltUpdateTaskRavg env p .taskMigrate wallclock 0 s with
    | none => simp [run, act, hu]
    | some u =>
      have hcpu := (updateFrame hu).taskCpu
      have hflag := ((updateFrame hu).flags p).pending
      simp [run, act, hu, depart, hcpu, hflag]
  | enqueueTask env p schedDelayed enqueueDelayed wallclock fitsMax rtgHighPrio =>
    simp only [perform, androidRvhEnqueueTask, acts]
    split_ifs
    · rfl
    · rw [run_append, ← consumeMigration_eq]
      cases consumeMigration env p wallclock s <;> simp [run, act]
  | dequeueTask p schedDelayed =>
    simp only [perform, androidRvhDequeueTask, acts]
    split_ifs <;> rfl
  | addTaskToGroup env env' p wallclock wallclock'
  | removeTaskFromGroup env env' p wallclock wallclock' =>
    simp only [perform, transferBusyTime, acts]
    cases hu : waltUpdateTaskRavg env p .taskUpdate wallclock 0 s with
    | none => simp [run, act, hu]
    | some u =>
      have hflag := ((updateFrame hu).flags p).pending
      rw [run_cons_of_step hu, run_append, ← consumeActs_congr hflag, ← consumeMigration_eq]
      simp only [newTaskAtTransfer, hu, bind_some]
      cases consumeMigration env' p wallclock' u <;> simp [run, act]
  | migrationIrqWork env lockCpus wallclock =>
    exact irqWorkCpus_eq topo env wallclock _ s
  | rolloverIrqWork env thisCpu wallclock newWindow =>
    simp only [perform, waltCpufreqIrqWork, acts]
    rw [run_append, irqWorkCpus_eq topo]
    cases run (act topo) s (irqWorkActs env wallclock s topo.cpus) <;> simp [run, act]
  | _ => simp [perform, acts, run, act]

end Perform

end MsmKernel.Walt
