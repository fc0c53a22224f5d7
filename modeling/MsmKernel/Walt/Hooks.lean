import MsmKernel.Lib.Run
import MsmKernel.Walt.Migration

/-! The hooks through which the scheduler core drives WALT, and the irq work. A step is one whole
hook with the change of the core's own state that goes with it; `none` means that the core does
not issue the event in this state, or that the hook panics. -/
namespace MsmKernel.Walt
variable {Task Cpu : Type} [DecidableEq Task] [DecidableEq Cpu]

def incRqWaltStats (t : Wts Cpu) (stats : WaltSchedStats) : WaltSchedStats :=
  { stats with
    nrBigTasks := stats.nrBigTasks + t.misfit.toNat
    nrRtgHighPrioTasks := stats.nrRtgHighPrioTasks + t.rtgHighPrio.toNat
    nrTrailblazerTasks := stats.nrTrailblazerTasks + t.demand.trailblazer.toNat
    nrGiantTasks := stats.nrGiantTasks + t.demand.giant.toNat }

def decRqWaltStats (t : Wts Cpu) (stats : WaltSchedStats) : WaltSchedStats :=
  let nrBigTasks := stats.nrBigTasks - t.misfit.toNat
  let nrTrailblazerTasks := stats.nrTrailblazerTasks - t.demand.trailblazer.toNat
  { stats with
    nrBigTasks
    nrRtgHighPrioTasks := stats.nrRtgHighPrioTasks - t.rtgHighPrio.toNat
    nrGiantTasks := max 0 (stats.nrGiantTasks - t.demand.giant.toNat)
    nrTrailblazerTasks
    checkFailed := stats.checkFailed || nrBigTasks < 0 || nrTrailblazerTasks < 0 }

def waltIncCumulativeRunnableAvg (t : Wts Cpu) : WaltSchedStats → WaltSchedStats :=
  fixupCumulativeRunnableAvg t.demand.demandScaled t.demand.predDemandScaled

def waltDecCumulativeRunnableAvg (t : Wts Cpu) : WaltSchedStats → WaltSchedStats :=
  fixupCumulativeRunnableAvg (-t.demand.demandScaled) (-t.demand.predDemandScaled)

def State.waltFairTask (s : State Task Cpu) (p : Task) : Bool := s.fair p && !(s.wts p).idle

def State.setQueued (s : State Task Cpu) (p : Task) (queued : Bool) : State Task Cpu :=
  { s with queued := Function.update s.queued p queued }

def State.setStats (s : State Task Cpu) (cpu : Cpu) (stats : WaltSchedStats) : State Task Cpu :=
  s.setRq cpu { s.rq cpu with stats }

/- The part of the enqueue hook after the pending migration; `fitsMax` is task_fits_max(p) and
`rtgHighPrio` task_rtg_high_prio(p). -/
def enqueueStats (p : Task) (fitsMax rtgHighPrio : Bool) (s : State Task Cpu) : State Task Cpu :=
  let cpu := s.taskCpu p
  let doubleEnqueue := (s.wts p).prevOnRq = .enqueued
  let t := { s.wts p with prevOnRq := .enqueued }
  let t :=
    if s.waltFairTask p then
      { t with
        misfit := !fitsMax
        rtgHighPrio := if doubleEnqueue then t.rtgHighPrio else rtgHighPrio }
    else t
  let stats := (s.rq cpu).stats
  let stats := if s.waltFairTask p ∧ ¬ doubleEnqueue then incRqWaltStats t stats else stats
  let stats := if doubleEnqueue then stats else waltIncCumulativeRunnableAvg t stats
  (s.setWts p t).setStats cpu stats

/- A sched_delayed task that is enqueued again without ENQUEUE_DELAYED is skipped. -/
def androidRvhEnqueueTask (env : Env) (p : Task) (schedDelayed enqueueDelayed : Bool)
    (wallclock : Nat) (fitsMax rtgHighPrio : Bool) (s : State Task Cpu) :
    Option (State Task Cpu) :=
  if schedDelayed ∧ ¬ enqueueDelayed then some s
  else
    (consumeMigration env p wallclock s).map fun s =>
      (enqueueStats p fitsMax rtgHighPrio s).setQueued p true

def dequeueStats (p : Task) (s : State Task Cpu) : State Task Cpu :=
  let cpu := s.taskCpu p
  let t := s.wts p
  let doubleDequeue := t.prevOnRq = .dequeued
  let stats := (s.rq cpu).stats
  let stats := if s.waltFairTask p ∧ ¬ doubleDequeue then decRqWaltStats t stats else stats
  let stats := if doubleDequeue then stats else waltDecCumulativeRunnableAvg t stats
  (s.setWts p { t with prevOnRq := .dequeued }).setStats cpu stats

def androidRvhDequeueTask (p : Task) (schedDelayed : Bool) (s : State Task Cpu) :
    State Task Cpu :=
  if schedDelayed ∧ (s.wts p).prevOnRq = .dequeued then s
  else dequeueStats p (s.setQueued p false)

/- misfit_task_load is 0 for a task that fits, and task_util(p) otherwise. -/
def androidRvhUpdateMisfitStatus (p : Task) (fitsMax : Bool) (taskUtil : Nat)
    (s : State Task Cpu) : State Task Cpu :=
  let cpu := s.taskCpu p
  let t := s.wts p
  let stats := (s.rq cpu).stats
  let misfit : Bool := !fitsMax && decide (taskUtil ≠ 0)
  let nrBigTasks := stats.nrBigTasks + misfit.toNat - t.misfit.toNat
  (s.setWts p { t with misfit }).setStats cpu
    { stats with
      nrBigTasks
      checkFailed := stats.checkFailed || (decide (misfit ≠ t.misfit) && decide (nrBigTasks < 0)) }

def androidRvhTryToWakeUp (env env' : Env) (p : Task) (inIowait : Bool) (wallclock : Nat)
    (s : State Task Cpu) : Option (State Task Cpu) :=
  let curr := s.curr (s.taskCpu p)
  (if (s.wts curr).idle ∧ inIowait then waltUpdateTaskRavg env curr .taskUpdate wallclock 0 s
    else some s).bind (waltUpdateTaskRavg env' p .taskWake wallclock 0)

/- rq->curr is still the previous task while the hook runs. -/
def androidRvhSchedule (env env' : Env) (cpu : Cpu) (next : Task) (wallclock : Nat)
    (s : State Task Cpu) : Option (State Task Cpu) :=
  let prev := s.curr cpu
  if prev ≠ next then
    ((waltUpdateTaskRavg env prev .putPrevTask wallclock 0 s).bind
      (waltUpdateTaskRavg env' next .pickNextTask wallclock 0)).map fun s =>
        { s with curr := Function.update s.curr cpu next }
  else waltUpdateTaskRavg env prev .taskUpdate wallclock 0 s

def androidRvhSetTaskCpu (topo : Topology Cpu) (env : Env) (p : Task) (newCpu : Cpu)
    (wallclock : Nat) (s : State Task Cpu) : Option (State Task Cpu) :=
  (migrateBusyTimeSubtraction topo env p newCpu wallclock s).map fun s =>
    { s with taskCpu := Function.update s.taskCpu p newCpu }

def irqWorkCpu (env : Env) (wallclock : Nat) (cpu : Cpu) (s : State Task Cpu) :
    Option (State Task Cpu) :=
  (waltUpdateTaskRavg env (s.curr cpu) .taskUpdate wallclock 0 s).map (accountLoadSubtractions cpu)

def irqWorkCpus (env : Cpu → Env) (wallclock : Nat) : List Cpu → State Task Cpu →
    Option (State Task Cpu)
  | [], s => some s
  | cpu :: cpus, s => (irqWorkCpu (env cpu) wallclock cpu s).bind (irqWorkCpus env wallclock cpus)

section
variable (topo : Topology Cpu)

/- The CPUs of the clusters that lock_cpus intersects. -/
def lockedCpus (lockCpus : Cpu → Bool) : List Cpu :=
  topo.cpus.filter fun cpu =>
    topo.cpus.any fun i => lockCpus i && decide (sameFreqDomain topo cpu i)

/- The window size changes only when every CPU has the window start of the CPU that runs the
work. -/
def changeWindow (thisCpu : Cpu) (wallclock newWindow : Nat)
    (s : State Task Cpu) : State Task Cpu :=
  let windowStart := (s.rq thisCpu).windowStart
  if s.schedRavgWindow ≠ newWindow ∧ wallclock < windowStart + newWindow ∧
      topo.cpus.all fun cpu => decide ((s.rq cpu).windowStart = windowStart) then
    { s with schedRavgWindow := newWindow }
  else s

def waltMigrationIrqWork (env : Cpu → Env) (lockCpus : Cpu → Bool)
    (wallclock : Nat) (s : State Task Cpu) : Option (State Task Cpu) :=
  irqWorkCpus env wallclock (lockedCpus topo lockCpus) s

def waltCpufreqIrqWork (env : Cpu → Env) (thisCpu : Cpu)
    (wallclock newWindow : Nat) (s : State Task Cpu) : Option (State Task Cpu) :=
  (irqWorkCpus env wallclock topo.cpus s).map (changeWindow topo thisCpu wallclock newWindow)

end

/- `ravg` is a call of walt_update_task_ravg with any arguments; every other event is a hook, the
irq work or a change of scheduling class. -/
inductive Event (Task Cpu : Type) where
  | ravg (env : Env) (p : Task) (event : TaskEvent) (wallclock irqtime : Nat)
  | tryToWakeUp (env env' : Env) (p : Task) (inIowait : Bool) (wallclock : Nat)
  | schedule (env env' : Env) (cpu : Cpu) (next : Task) (wallclock : Nat)
  | tickEntry (env : Env) (cpu : Cpu) (wallclock : Nat)
  | accountIrq (env : Env) (cpu : Cpu) (wallclock irqtime : Nat)
  | setTaskCpu (env : Env) (p : Task) (newCpu : Cpu) (wallclock : Nat)
  | enqueueTask (env : Env) (p : Task) (schedDelayed enqueueDelayed : Bool) (wallclock : Nat)
      (fitsMax rtgHighPrio : Bool)
  | dequeueTask (p : Task) (schedDelayed : Bool)
  | addTaskToGroup (env env' : Env) (p : Task) (wallclock wallclock' : Nat)
  | removeTaskFromGroup (env env' : Env) (p : Task) (wallclock wallclock' : Nat)
  | migrationIrqWork (env : Cpu → Env) (lockCpus : Cpu → Bool) (wallclock : Nat)
  | rolloverIrqWork (env : Cpu → Env) (thisCpu : Cpu) (wallclock newWindow : Nat)
  | updateMisfitStatus (p : Task) (fitsMax : Bool) (taskUtil : Nat)
  | setSchedClass (p : Task) (fair : Bool)

def Issued (s : State Task Cpu) : Event Task Cpu → Prop
  | .ravg _ _ _ _ _ => True
  | .tryToWakeUp _ _ p _ _ => (s.wts p).idle = false ∧ s.queued p = false ∧ s.curr (s.taskCpu p) ≠ p
  | .schedule _ _ cpu next _ =>
    s.taskCpu next = cpu ∧ (s.queued next = true ∨ (s.wts next).idle = true ∨ s.curr cpu = next)
  | .tickEntry _ _ _ => True
  | .accountIrq _ cpu _ _ => (s.wts (s.curr cpu)).idle = true
  | .setTaskCpu _ p _ _ => (s.wts p).idle = false ∧ s.queued p = false ∧ s.curr (s.taskCpu p) ≠ p
  | .enqueueTask _ p schedDelayed enqueueDelayed _ _ _ =>
    (schedDelayed = true ∧ enqueueDelayed = false) ∨ s.queued p = false
  | .dequeueTask p schedDelayed =>
    (schedDelayed = true ∧ (s.wts p).prevOnRq = .dequeued) ∨ s.queued p = true
  | .addTaskToGroup _ _ p _ _ => (s.wts p).idle = false ∧ (s.wts p).grp = false
  | .removeTaskFromGroup _ _ p _ _ => (s.wts p).grp = true
  | .migrationIrqWork _ _ _ => True
  | .rolloverIrqWork _ _ _ newWindow => 0 < newWindow
  | .updateMisfitStatus p _ _ => s.queued p = true ∧ s.waltFairTask p = true
  | .setSchedClass p _ => s.queued p = false

instance decidableIssued (s : State Task Cpu) : ∀ e, Decidable (Issued s e) := by
  rintro (_ | _) <;> (dsimp only [Issued]; infer_instance)

def perform (topo : Topology Cpu) (s : State Task Cpu) : Event Task Cpu → Option (State Task Cpu)
  | .ravg env p event wallclock irqtime => waltUpdateTaskRavg env p event wallclock irqtime s
  | .tryToWakeUp env env' p inIowait wallclock =>
    androidRvhTryToWakeUp env env' p inIowait wallclock s
  | .schedule env env' cpu next wallclock => androidRvhSchedule env env' cpu next wallclock s
  | .tickEntry env cpu wallclock => waltUpdateTaskRavg env (s.curr cpu) .taskUpdate wallclock 0 s
  | .accountIrq env cpu wallclock irqtime =>
    waltUpdateTaskRavg env (s.curr cpu) .irqUpdate wallclock irqtime s
  | .setTaskCpu env p newCpu wallclock => androidRvhSetTaskCpu topo env p newCpu wallclock s
  | .enqueueTask env p schedDelayed enqueueDelayed wallclock fitsMax rtgHighPrio =>
    androidRvhEnqueueTask env p schedDelayed enqueueDelayed wallclock fitsMax rtgHighPrio s
  | .dequeueTask p schedDelayed => some (androidRvhDequeueTask p schedDelayed s)
  | .addTaskToGroup env env' p wallclock wallclock' =>
    transferBusyTime topo env env' p true wallclock wallclock' s
  | .removeTaskFromGroup env env' p wallclock wallclock' =>
    transferBusyTime topo env env' p false wallclock wallclock' s
  | .migrationIrqWork env lockCpus wallclock => waltMigrationIrqWork topo env lockCpus wallclock s
  | .rolloverIrqWork env thisCpu wallclock newWindow =>
    waltCpufreqIrqWork topo env thisCpu wallclock newWindow s
  | .updateMisfitStatus p fitsMax taskUtil =>
    some (androidRvhUpdateMisfitStatus p fitsMax taskUtil s)
  | .setSchedClass p fair => some { s with fair := Function.update s.fair p fair }

def step (topo : Topology Cpu) (s : State Task Cpu) (e : Event Task Cpu) :
    Option (State Task Cpu) :=
  if Issued s e then perform topo s e else none

end MsmKernel.Walt
