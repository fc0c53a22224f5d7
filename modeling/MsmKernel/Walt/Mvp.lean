import MsmKernel.Lib.PriorityList
import MsmKernel.Lib.Run
import MsmKernel.Walt.State

/-! The MVP queues of the runqueues (walt_cfs.c): which tasks are MVP, the calls that list, requeue
and demote them, and the runs of those calls over all runqueues. -/
namespace MsmKernel.Mvp
open Walt Function
variable {ρ τ : Type} [DecidableEq τ]

inductive MvpPrio where
  | notMvp | rtg | binder | taskBoost | ll | pipeline
  deriving DecidableEq

/- The higher number is the better priority. -/
def MvpPrio.value : MvpPrio → Int
  | .notMvp => -1
  | .rtg => 0
  | .binder => 1
  | .taskBoost => 2
  | .ll => 3
  | .pipeline => 4

def WALT_MVP_SLICE : Nat := 3000000
def WALT_MVP_LIMIT : Nat := 4 * WALT_MVP_SLICE
def MAX_MVP_TIME_NS : Nat := 500000000
def MVP_THROTTLE_TIME_NS : Nat := 100000000

def TASK_BOOST_ON_MID : Int := 1
def TASK_BOOST_STRICT_MAX : Int := 3

def WALT_LOW_LATENCY_PROCFS_BIT : BitVec 8 := 0x01
def WALT_LOW_LATENCY_BINDER_BIT : BitVec 8 := 0x02
def WALT_LOW_LATENCY_BIT_MASK : BitVec 8 := 0x04 ||| 0x08

/- What decides the class of a task; all of it may change while the task is queued. -/
structure Attrs where
  lowLatency : BitVec 8
  taskUtil : Nat
  boost : Int
  boostPeriod : Nat
  boostExpires : Nat
  inRelatedThreadGroup : Bool
  prio : Nat
  deriving DecidableEq

/- The settings and the clock that walt_get_mvp_task_prio reads; `schedAssist` is
CONFIG_OPLUS_FEATURE_SCHED_ASSIST, `boostOnMid` is SOC_ENABLE_PER_TASK_BOOST_ON_MID_BIT. -/
structure Env where
  schedAssist : Bool
  boostOnMid : Bool
  lowLatencyTaskThreshold : Nat
  rtgCfsBoostPrio : Nat
  schedClock : Nat
  deriving DecidableEq

def waltPipelineLowLatencyTask (a : Attrs) : Bool := a.lowLatency &&& WALT_LOW_LATENCY_BIT_MASK ≠ 0

section
variable (env : Env) (a : Attrs)

def waltProcfsLowLatencyTask : Bool :=
  a.lowLatency &&& WALT_LOW_LATENCY_PROCFS_BIT ≠ 0 ∧ a.taskUtil < env.lowLatencyTaskThreshold

def waltBinderLowLatencyTask : Bool :=
  a.lowLatency &&& WALT_LOW_LATENCY_BINDER_BIT ≠ 0 ∧ a.taskUtil < env.lowLatencyTaskThreshold

def taskRtgHighPrio : Bool :=
  a.inRelatedThreadGroup ∧ a.prio ≤ env.rtgCfsBoostPrio

/- Reading the boost ends one that has expired. -/
def perTaskBoost : Int × Attrs :=
  let a :=
    if a.boostPeriod ≠ 0 ∧ a.boostExpires < env.schedClock then
      { a with boostPeriod := 0, boostExpires := 0, boost := 0 }
    else a
  (if !env.boostOnMid ∧ a.boost = TASK_BOOST_ON_MID then 0 else a.boost, a)

def waltGetMvpTaskPrio : MvpPrio × Attrs :=
  if env.schedAssist then (.notMvp, a)
  else if waltPipelineLowLatencyTask a then (.pipeline, a)
  else if waltProcfsLowLatencyTask env a then (.ll, a)
  else
    let (boost, a) := perTaskBoost env a
    if boost = TASK_BOOST_STRICT_MAX then (.taskBoost, a)
    else if waltBinderLowLatencyTask env a then (.binder, a)
    else if taskRtgHighPrio env a then (.rtg, a)
    else (.notMvp, a)

end

def waltCfsMvpTaskLimit : MvpPrio → Nat
  | .binder => WALT_MVP_SLICE
  | .pipeline => 2 * WALT_MVP_LIMIT
  | _ => WALT_MVP_LIMIT

structure Task where
  attrs : Attrs
  sumExecRuntime : Nat
  mvpPrio : MvpPrio
  totalExec : Nat
  sumExecSnapshotForTotal : Nat
  sumExecSnapshotForSlice : Nat

structure Wrq (τ : Type) where
  mvpTasks : List τ
  numMvpTasks : Int
  skipMvp : Bool
  mvpArrivalTime : Nat
  mvpThrottleTime : Nat

/- `queuedOn` is the runqueue the scheduler core keeps the task on. The last three fields record
history, no function reads them to decide anything: the number of insertions, the stamp of a task's last
insertion (negative if it went ahead of its equals), and the class from which the accounting has
demoted a task that has not slept since. -/
structure State (ρ τ : Type) where
  task : τ → Task
  wrq : ρ → Wrq τ
  queuedOn : τ → Option ρ
  insertions : Nat
  stamp : τ → Int
  demotedAs : τ → Option MvpPrio

def State.prio (s : State ρ τ) (p : τ) : Int := (s.task p).mvpPrio.value

def State.mvpTasks (s : State ρ τ) (r : ρ) : List τ := (s.wrq r).mvpTasks

def State.Listed (s : State ρ τ) (p : τ) : Prop := ∃ r, p ∈ s.mvpTasks r

instance [Fintype ρ] (s : State ρ τ) (p : τ) : Decidable (s.Listed p) := inferInstanceAs (Decidable (∃ _, _))

def State.setTask (s : State ρ τ) (p : τ) (t : Task) : State ρ τ :=
  { s with task := update s.task p t }

@[simp] theorem setTask_task_self (s : State ρ τ) (p : τ) (t : Task) : (s.setTask p t).task p = t :=
  update_self ..

theorem setTask_task_of_ne (s : State ρ τ) {p q : τ} (hq : q ≠ p) (t : Task) :
    (s.setTask p t).task q = s.task q := update_of_ne hq ..

variable [DecidableEq ρ]

section
variable (s : State ρ τ)

def State.setWrq (r : ρ) (w : Wrq τ) : State ρ τ :=
  { s with wrq := update s.wrq r w }

def State.listDel (p : τ) : State ρ τ :=
  { s with wrq := fun r => { s.wrq r with mvpTasks := (s.wrq r).mvpTasks.erase p } }

def State.addNum (r : ρ) (d : Int) : State ρ τ :=
  s.setWrq r { s.wrq r with numMvpTasks := (s.wrq r).numMvpTasks + d }

def waltCfsInsertMvpTask (r : ρ) (p : τ) (atFront : Bool) : State ρ τ :=
  let w := s.wrq r
  let s := s.setWrq r { w with mvpTasks := PriorityList.insert s.prio atFront p w.mvpTasks }
  let s := s.addNum r 1
  { s with
    insertions := s.insertions + 1
    stamp := update s.stamp p
      (if atFront then -(s.insertions + 1 : Int) else (s.insertions + 1 : Int)) }

def waltCfsDeactivateMvpTask (r : ρ) (p : τ) : State ρ τ :=
  let s := s.listDel p
  let s := s.setTask p { s.task p with mvpPrio := .notMvp }
  s.addNum r (-1)

end

def throttle (clock : Nat) (w : Wrq τ) : Wrq τ :=
  if w.mvpThrottleTime ≠ 0 then
    if MVP_THROTTLE_TIME_NS < elapsed clock w.mvpThrottleTime then
      { w with skipMvp := false, mvpThrottleTime := 0 }
    else w
  else if w.mvpArrivalTime ≠ 0 then
    if MAX_MVP_TIME_NS < elapsed clock w.mvpArrivalTime then
      { w with skipMvp := true, mvpArrivalTime := 0, mvpThrottleTime := clock }
    else w
  else w

def waltCfsAccountMvpRuntime (s : State ρ τ) (r : ρ) (curr : τ) (clock : Nat) : State ρ τ :=
  let s := s.setWrq r (throttle clock (s.wrq r))
  let t := s.task curr
  let t := { t with totalExec := t.sumExecRuntime - t.sumExecSnapshotForTotal }
  let slice := t.sumExecRuntime - t.sumExecSnapshotForSlice
  -- slice is not expired
  if slice < (if t.mvpPrio = .pipeline then WALT_MVP_LIMIT else WALT_MVP_SLICE) then s.setTask curr t
  else
    let t := { t with sumExecSnapshotForSlice := t.sumExecRuntime }
    let s := s.setTask curr t
    if waltCfsMvpTaskLimit t.mvpPrio < t.totalExec then
      let s := waltCfsDeactivateMvpTask s r curr
      { s with demotedAs := update s.demotedAs curr (some t.mvpPrio) }
    else if (s.wrq r).numMvpTasks = 1 then s
    else
      -- slice expired. re-queue the task
      let s := s.listDel curr
      let s := s.addNum r (-1)
      waltCfsInsertMvpTask s r curr false

def waltCfsEnqueueTask (env : Env) (s : State ρ τ) (r : ρ) (p : τ) (onCpu : Bool) : State ρ τ :=
  let t := s.task p
  let (mvpPrio, attrs) := waltGetMvpTaskPrio env t.attrs
  let t := { t with attrs }
  if mvpPrio = .notMvp then s.setTask p t
  -- it was once MVP but got demoted, it will not be MVP until it goes to sleep again
  else if waltCfsMvpTaskLimit t.mvpPrio < t.totalExec then s.setTask p t
  else
    let t := { t with mvpPrio }
    let s := waltCfsInsertMvpTask (s.setTask p t) r p onCpu
    if t.totalExec = 0 then
      s.setTask p { t with
        sumExecSnapshotForTotal := t.sumExecRuntime, sumExecSnapshotForSlice := t.sumExecRuntime }
    else s

def waltCfsDequeueTask [Fintype ρ] (s : State ρ τ) (r : ρ) (p : τ) (running : Bool) : State ρ τ :=
  let s := if s.Listed p then waltCfsDeactivateMvpTask s r p else s
  if running then s
  else
    let s := s.setTask p { s.task p with totalExec := 0 }
    { s with demotedAs := update s.demotedAs p none }

/- The MVP part of walt_cfs_replace_next_task_fair: the arrival of MVP tasks is marked when one is
picked. -/
def waltCfsReplaceNextTaskFair (s : State ρ τ) (r : ρ) (clock : Nat) : State ρ τ × Option τ :=
  let w := s.wrq r
  if w.skipMvp then (s, none)
  else match w.mvpTasks with
    | [] => (s.setWrq r { w with mvpArrivalTime := 0 }, none)
    | p :: _ =>
      if w.mvpArrivalTime = 0 then (s.setWrq r { w with mvpArrivalTime := clock }, some p)
      else (s, some p)

/- `account` and `deactivate` stand for the calls of walt_cfs_tick, walt_cfs_check_preempt_wakeup_fair
and walt_do_sched_yield, which check first that the task is listed. -/
inductive Event (ρ τ : Type) where
  | enqueue (r : ρ) (p : τ) (env : Env) (onCpu : Bool)
  | dequeue (r : ρ) (p : τ) (running : Bool)
  | deactivate (r : ρ) (p : τ)
  | account (r : ρ) (curr : τ) (clock : Nat)
  | pick (r : ρ) (clock : Nat)
  | exec (p : τ) (sumExecRuntime : Nat)
  | change (p : τ) (attrs : Attrs)

def step [Fintype ρ] (s : State ρ τ) : Event ρ τ → Option (State ρ τ)
  | .enqueue r p env onCpu =>
    if s.queuedOn p = none then
      let s := waltCfsEnqueueTask env s r p onCpu
      some { s with queuedOn := update s.queuedOn p (some r) }
    else none
  | .dequeue r p running =>
    if s.queuedOn p = some r then
      let s := waltCfsDequeueTask s r p running
      some { s with queuedOn := update s.queuedOn p none }
    else none
  | .deactivate r p =>
    if s.queuedOn p = some r ∧ s.Listed p then some (waltCfsDeactivateMvpTask s r p) else none
  | .account r curr clock =>
    if s.queuedOn curr = some r ∧ s.Listed curr then some (waltCfsAccountMvpRuntime s r curr clock)
    else none
  | .pick r clock => some (waltCfsReplaceNextTaskFair s r clock).1
  | .exec p sumExecRuntime => some (s.setTask p { s.task p with sumExecRuntime })
  | .change p attrs => some (s.setTask p { s.task p with attrs })

def Started (s : State ρ τ) : Prop :=
  (∀ r, s.mvpTasks r = [] ∧ (s.wrq r).numMvpTasks = 0) ∧
    ∀ p, (s.task p).mvpPrio = .notMvp ∧ s.demotedAs p = none

end MsmKernel.Mvp
