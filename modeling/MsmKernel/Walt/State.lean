import Mathlib.Data.Fintype.Basic
import Mathlib.Tactic.NormNum

/-! The data of the window-assisted load tracker (walt.c, walt.h): the fields of
walt_task_struct and walt_rq that the accounting of windows, busy time, demand and top
tasks reads or writes, and the part of the scheduler core it depends on. -/
namespace MsmKernel.Walt

scoped instance neZeroTwo : NeZero 2 := ⟨by decide⟩
scoped instance neZeroThree : NeZero 3 := ⟨by decide⟩
scoped instance neZeroFive : NeZero 5 := ⟨by decide⟩

def NUM_LOAD_INDICES : Nat := 1000
def NEW_TASK_ACTIVE_TIME : Nat := 100000000
def DEFAULT_SCHED_RAVG_WINDOW : Nat := 16000000
def SCHED_CAPACITY_SHIFT : Nat := 10

def schedLoadGranule : Nat := DEFAULT_SCHED_RAVG_WINDOW / NUM_LOAD_INDICES

/- Stores into u64, u32 and u16 fields. -/
def u64 (n : Nat) : Nat := n % 2 ^ 64
def u32 (n : Nat) : Nat := n % 2 ^ 32
def u16 (n : Nat) : Nat := n % 2 ^ 16

def u64Int (n : Int) : Nat := (n % 2 ^ 64).toNat

def int32 (n : Nat) : Int := (n : Int).bmod (2 ^ 32)

/- The u64 sum of a window start and a number of windows that is kept in an int. -/
def addWindows (windowStart : Nat) (nrWindows : Int) (window : Nat) : Nat :=
  ((windowStart + nrWindows * window) % 2 ^ 64).toNat

def elapsed (later earlier : Nat) : Nat := (later + (2 ^ 64 - earlier)) % 2 ^ 64

theorem elapsed_eq {later earlier : Nat} (hle : earlier ≤ later) (hlt : later < 2 ^ 64) :
    elapsed later earlier = later - earlier := by
  have hsum : later + (2 ^ 64 - earlier) = later - earlier + 2 ^ 64 := by omega
  rw [elapsed, hsum, Nat.add_mod_right, Nat.mod_eq_of_lt (by omega)]

inductive TaskEvent where
  | putPrevTask | pickNextTask | taskWake | taskMigrate | taskUpdate | irqUpdate
  deriving DecidableEq

inductive StatsPolicy where
  | recent | max | maxRecentAvg | avg
  deriving DecidableEq

/- enqueue_after_migration: 0, 1 (within the cluster) and 2 (between clusters). -/
inductive PendingMigration where
  | none | withinCluster | interCluster
  deriving DecidableEq

/- prev_on_rq: 0, 1 and 2. -/
inductive PrevOnRq where
  | nothing | enqueued | dequeued
  deriving DecidableEq

/- The demand part of walt_task_struct, with the two flag bits that depend on it. -/
structure TaskDemand where
  sum : Nat
  demand : Nat
  colocDemand : Nat
  sumHistory : Fin 5 → Nat
  sumHistoryUtil : Fin 5 → Nat
  cidx : Fin 5
  busyBuckets : Fin 16 → Nat
  bucketBitmask : Fin 16 → Bool
  demandScaled : Nat
  predDemandScaled : Nat
  highUtilHistory : Nat
  trailblazer : Bool
  giant : Bool

structure Wts (Cpu : Type) where
  idle : Bool
  markStart : Nat
  windowStart : Nat
  currWindow : Nat
  prevWindow : Nat
  currWindowCpu : Cpu → Nat
  prevWindowCpu : Cpu → Nat
  activeTime : Nat
  grp : Bool
  enqueueAfterMigration : PendingMigration
  misfit : Bool
  rtgHighPrio : Bool
  prevOnRq : PrevOnRq
  demand : TaskDemand

/- `checkFailed` records a WALT_BUG or BUG_ON of the functions that maintain the totals. -/
structure WaltSchedStats where
  nrBigTasks : Int
  nrTrailblazerTasks : Int
  nrGiantTasks : Int
  nrRtgHighPrioTasks : Int
  cumulativeRunnableAvgScaled : Nat
  predDemandsSumScaled : Nat
  checkFailed : Bool
  deriving DecidableEq

/- group_cpu_time, and the four fields of walt_rq of the same names. -/
structure RunnableSums where
  currRunnableSum : Nat
  prevRunnableSum : Nat
  ntCurrRunnableSum : Nat
  ntPrevRunnableSum : Nat
  deriving DecidableEq

structure LoadSubtractions where
  windowStart : Nat
  subs : Nat
  newSubs : Nat
  deriving DecidableEq

structure Slot where
  table : Nat → Nat
  bitmap : Nat → Bool
  top : Nat

structure TopTasks where
  table : Fin 2 → Nat → Nat
  bitmap : Fin 2 → Nat → Bool
  currTable : Fin 2
  currTop : Nat
  prevTop : Nat

structure Wrq where
  windowStart : Nat
  prevWindowSize : Nat
  latestClock : Nat
  sums : RunnableSums
  grpTime : RunnableSums
  loadSubs : Fin 2 → LoadSubtractions
  topTasks : TopTasks
  stats : WaltSchedStats

/- What an update reads from code that is not modelled: the execution scale the cycle counters
give, tunables, capacities, and task_is_runnable of a task that is not queued. -/
structure Env where
  taskExecScale : Nat
  loadBoost : Bool
  boostedTaskLoad : Int
  waitingOnIo : Bool
  runnable : Bool
  statsPolicy : StatsPolicy
  pipelineInProgress : Bool
  trailblazerFeature : Bool
  rqClock : Nat
  giantCapacity : Nat
  primeCapacity : Nat

/- One call of walt_update_task_ravg: its arguments, the tunables and what it reads of the core;
`queued` is task_on_rq_queued(p) && task_is_runnable(p). -/
structure Call extends Env where
  event : TaskEvent
  wallclock : Nat
  irqtime : Nat
  schedRavgWindow : Nat
  isCurr : Bool
  currIsIdle : Bool
  queued : Bool
  fair : Bool

/- `busyTimeBug` records that a busy time check of the migration code has fired. -/
structure State (Task Cpu : Type) where
  schedRavgWindow : Nat
  waltIrqWorkLastqWs : Nat
  rq : Cpu → Wrq
  wts : Task → Wts Cpu
  curr : Cpu → Task
  taskCpu : Task → Cpu
  queued : Task → Bool
  fair : Task → Bool
  busyTimeBug : Bool

/- The sched clusters, each of them a frequency domain, and the order in which
for_each_sched_cluster and for_each_cpu visit the CPUs. -/
structure Topology (Cpu : Type) where
  cluster : Cpu → Nat
  cpus : List Cpu
  nodup : cpus.Nodup
  complete : ∀ cpu, cpu ∈ cpus

def isNewTask {Cpu : Type} (t : Wts Cpu) : Bool := t.activeTime < NEW_TASK_ACTIVE_TIME

section Init
variable {Task Cpu : Type}

def initRunnableSums : RunnableSums := ⟨0, 0, 0, 0⟩

def clearTopTasksBitmap : Nat → Bool := fun bit => decide (bit = NUM_LOAD_INDICES)

def clearTopTasksTable : Nat → Nat := fun _ => 0

/- walt_sched_init_rq, with the window start walt_init_stop_handler then stores. -/
def initRq (window tickSchedClock : Nat) : Wrq where
  windowStart := tickSchedClock
  prevWindowSize := window
  latestClock := 0
  sums := initRunnableSums
  grpTime := initRunnableSums
  loadSubs := fun _ => ⟨0, 0, 0⟩
  topTasks := ⟨fun _ => clearTopTasksTable, fun _ => clearTopTasksBitmap, 0, 0, 0⟩
  stats := ⟨0, 0, 0, 0, 0, 0, false⟩

/- init_new_task_load before walt_init_once: an existing task gets a demand of 0. -/
def initNewTaskLoad (idle : Bool) : Wts Cpu where
  idle := idle
  markStart := 0
  windowStart := 0
  currWindow := 0
  prevWindow := 0
  currWindowCpu := fun _ => 0
  prevWindowCpu := fun _ => 0
  activeTime := 0
  grp := false
  enqueueAfterMigration := .none
  misfit := false
  rtgHighPrio := false
  prevOnRq := .nothing
  demand := ⟨0, 0, 0, fun _ => 0, fun _ => 0, 0, fun _ => 0, fun _ => false, 0, 0, 0, false, false⟩

structure Core (Task Cpu : Type) where
  idle : Task → Bool
  curr : Cpu → Task
  taskCpu : Task → Cpu
  queued : Task → Bool
  fair : Task → Bool
  curr_cpu : ∀ cpu, taskCpu (curr cpu) = cpu

def waltInitStopHandler (core : Core Task Cpu) (window tickSchedClock : Nat) : State Task Cpu where
  schedRavgWindow := window
  waltIrqWorkLastqWs := tickSchedClock
  rq := fun _ => initRq window tickSchedClock
  wts := fun p => initNewTaskLoad (core.idle p)
  curr := core.curr
  taskCpu := core.taskCpu
  queued := core.queued
  fair := core.fair
  busyTimeBug := false

end Init
end MsmKernel.Walt
