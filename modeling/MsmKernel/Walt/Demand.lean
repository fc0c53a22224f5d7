import Mathlib.Tactic.Common
import MsmKernel.Walt.State

/-! Task demand: the window history of a task, its predicted demand and the trailblazer and giant
flags, with the fixups of the runqueue totals of a task that is queued. Every function here maps
the totals of one runqueue and the demand of one task to their new values. -/
namespace MsmKernel.Walt
variable {Cpu : Type}

def RAVG_HIST_SIZE : Nat := 5
def NUM_BUSY_BUCKETS : Nat := 16
def U8_MAX : Nat := 255
def TRAILBLAZER_THRES : Nat := 230
def TRAILBLAZER_BYPASS : Nat := 243
def PIPELINE_IDLE_NS : Nat := 3000000000
def GIANT_UTIL_THRESH_PCT : Nat := 700

/- walt_scale_demand_divisor is sched_ravg_window >> SCHED_CAPACITY_SHIFT. -/
def scaleTimeToUtil (schedRavgWindow time : Nat) : Nat :=
  time / (schedRavgWindow / 2 ^ SCHED_CAPACITY_SHIFT)

def scaleUtilToTime (schedRavgWindow util : Nat) : Nat :=
  u32 (util * (schedRavgWindow / 2 ^ SCHED_CAPACITY_SHIFT))

def scaleExecTime (c : Call) (grp : Bool) (delta : Nat) : Nat :=
  let delta := u64 (delta * c.taskExecScale) / 2 ^ SCHED_CAPACITY_SHIFT
  if c.loadBoost && grp then u64 (delta * u64Int (1024 + c.boostedTaskLoad)) / 1024 else delta

theorem scaleExecTime_zero (c : Call) (grp : Bool) : scaleExecTime c grp 0 = 0 := by
  simp [scaleExecTime, u64]

def fixupCumulativeRunnableAvg (demandScaledDelta predDemandScaledDelta : Int)
    (stats : WaltSchedStats) : WaltSchedStats :=
  let cumulative := stats.cumulativeRunnableAvgScaled + demandScaledDelta
  let pred := stats.predDemandsSumScaled + predDemandScaledDelta
  { stats with
    cumulativeRunnableAvgScaled := cumulative.toNat
    predDemandsSumScaled := pred.toNat
    checkFailed := stats.checkFailed || cumulative < 0 || pred < 0 }

def fixupNrGiant (c : Call) (updatedDemandScaled : Nat) (x : WaltSchedStats × TaskDemand) :
    WaltSchedStats × TaskDemand :=
  if updatedDemandScaled > GIANT_UTIL_THRESH_PCT * c.giantCapacity / 2 ^ SCHED_CAPACITY_SHIFT then
    if x.2.giant then x
    else ({ x.1 with nrGiantTasks := x.1.nrGiantTasks + 1 }, { x.2 with giant := true })
  else if x.2.giant then
    ({ x.1 with nrGiantTasks := max 0 (x.1.nrGiantTasks - 1) }, { x.2 with giant := false })
  else x

def fixupWaltSchedStatsCommon (c : Call) (updatedDemandScaled updatedPredDemandScaled : Nat)
    (x : WaltSchedStats × TaskDemand) : WaltSchedStats × TaskDemand :=
  let taskLoadDelta := (updatedDemandScaled : Int) - x.2.demandScaled
  let predDemandDelta := (updatedPredDemandScaled : Int) - x.2.predDemandScaled
  let x := (fixupCumulativeRunnableAvg taskLoadDelta predDemandDelta x.1, x.2)
  if c.fair then fixupNrGiant c updatedDemandScaled x else x

def busyToBucket (normalizedRt : Nat) : Nat :=
  let bidx := min (normalizedRt / 64) (NUM_BUSY_BUCKETS - 1)
  if bidx = 0 then 1 else bidx

def bucketIncrease (idx : Nat) (d : TaskDemand) : TaskDemand :=
  { d with
    busyBuckets := fun i =>
      let count := d.busyBuckets i
      if idx ≠ i then if count > 2 then count - 2 else 0
      else
        let step := if count ≥ 16 then 16 else 8
        if count > U8_MAX - step then U8_MAX else count + step
    bucketBitmask := fun i =>
      if idx ≠ i then if d.busyBuckets i > 2 then d.bucketBitmask i else false else true }

def getPredBusy (newTask : Bool) (start runtimeScaled : Nat) (d : TaskDemand) : Nat :=
  if newTask then runtimeScaled
  else
    match (List.finRange 16).find? fun i => start ≤ i.val ∧ d.bucketBitmask i with
    | none => runtimeScaled
    | some first =>
      let final := if first.val < 2 then 1 else first.val
      let dmin := if first.val < 2 then 0 else final * 64
      let dmax := (final + 1) * 64
      let ret :=
        match (List.finRange 5).find? fun i =>
          dmin ≤ d.sumHistoryUtil i ∧ d.sumHistoryUtil i < dmax with
        | some i => d.sumHistoryUtil i
        | none => runtimeScaled
      max runtimeScaled (if ret < dmin then (dmin + dmax) / 2 else ret)

def predictAndUpdateBuckets (newTask : Bool) (runtimeScaled : Nat) (d : TaskDemand) :
    Nat × TaskDemand :=
  let bidx := busyToBucket runtimeScaled
  (getPredBusy newTask bidx runtimeScaled d, bucketIncrease bidx d)

/- The flag, the count of the runqueue and high_util_history; the demand a trailblazer is
raised to is the first component. -/
def updateTrailblazerAccounting (c : Call) (markStart runtime runtimeScaled demand : Nat)
    (x : WaltSchedStats × TaskDemand) : Nat × WaltSchedStats × TaskDemand :=
  let wasTrailblazer := x.2.trailblazer
  let history :=
    if c.trailblazerFeature ∧ markStart + PIPELINE_IDLE_NS < c.rqClock then 0
    else x.2.highUtilHistory
  let trailblazer : Bool := !c.pipelineInProgress && c.trailblazerFeature &&
    ((decide (runtime ≥ demand) && decide (history ≥ TRAILBLAZER_THRES)) ||
      decide (history ≥ TRAILBLAZER_BYPASS))
  let demand := if trailblazer then scaleUtilToTime c.schedRavgWindow 1024 else demand
  let nrTrailblazerTasks :=
    if c.queued then
      if wasTrailblazer && !trailblazer then x.1.nrTrailblazerTasks - 1
      else if !wasTrailblazer && trailblazer then x.1.nrTrailblazerTasks + 1
      else x.1.nrTrailblazerTasks
    else x.1.nrTrailblazerTasks
  let history' :=
    if runtimeScaled ≥ u16 (c.primeCapacity - c.primeCapacity / 8) then
      if history > U8_MAX - 8 then U8_MAX else history + 8
    else history - 1
  (demand, { x.1 with nrTrailblazerTasks }, { x.2 with trailblazer, highUtilHistory := history' })

def pushHistory (runtime runtimeScaled : Nat) : Nat → TaskDemand → TaskDemand
  | 0, d => d
  | samples + 1, d =>
    pushHistory runtime runtimeScaled samples
      { d with
        sumHistory := Function.update d.sumHistory d.cidx runtime
        sumHistoryUtil := Function.update d.sumHistoryUtil d.cidx runtimeScaled
        cidx := d.cidx + 1 }

def historySum (d : TaskDemand) : Nat := ((List.finRange 5).map d.sumHistory).sum

def historyMax (d : TaskDemand) : Nat := ((List.finRange 5).map d.sumHistory).foldl max 0

def policyDemand (policy : StatsPolicy) (runtime avg : Nat) (d : TaskDemand) : Nat :=
  match policy with
  | .recent => runtime
  | .max => historyMax d
  | .avg => avg
  | .maxRecentAvg => max avg runtime

/- The last part of update_history: the prediction, the fixup of the totals and the new demand,
which is `y.1`. -/
def storeDemand (c : Call) (newTask : Bool) (runtimeScaled avg : Nat)
    (y : Nat × WaltSchedStats × TaskDemand) : WaltSchedStats × TaskDemand :=
  let pred := predictAndUpdateBuckets newTask runtimeScaled y.2.2
  let demandScaled := u16 (scaleTimeToUtil c.schedRavgWindow y.1)
  let z :=
    if c.queued then fixupWaltSchedStatsCommon c demandScaled pred.1 (y.2.1, pred.2)
    else (y.2.1, pred.2)
  (z.1, { z.2 with demand := y.1, demandScaled, colocDemand := avg, predDemandScaled := pred.1 })

def updateHistory (c : Call) (t : Wts Cpu) (runtime : Nat) (samples : Int)
    (x : WaltSchedStats × TaskDemand) : WaltSchedStats × TaskDemand :=
  if runtime = 0 ∨ t.idle ∨ samples = 0 then x
  else
    let runtimeScaled := u16 (scaleTimeToUtil c.schedRavgWindow runtime)
    let d := { pushHistory runtime runtimeScaled samples.toNat x.2 with sum := 0 }
    let avg := u32 (historySum d / RAVG_HIST_SIZE)
    let demand := policyDemand c.statsPolicy runtime avg d
    storeDemand c (isNewTask t) runtimeScaled avg
      (if c.fair && t.grp then
        updateTrailblazerAccounting c t.markStart runtime runtimeScaled demand (x.1, d)
      else (demand, x.1, d))

/- add_to_task_demand; the time it returns is used by no caller. -/
def addToTaskDemand (c : Call) (grp : Bool) (delta : Nat) (d : TaskDemand) : TaskDemand :=
  let sum := u32 (d.sum + scaleExecTime c grp delta)
  { d with sum := if sum > c.schedRavgWindow then c.schedRavgWindow else sum }

/- SCHED_ACCOUNT_WAIT_TIME is 1. -/
def accountBusyForTaskDemand (c : Call) (idle : Bool) : Bool :=
  if idle then false
  else
    match c.event with
    | .taskWake => false
    | .pickNextTask => !c.currIsIdle
    | .taskUpdate => c.isCurr || c.queued || c.runnable
    | _ => true

def updateTaskDemand (c : Call) (windowStart : Nat) (t : Wts Cpu)
    (x : WaltSchedStats × TaskDemand) : WaltSchedStats × TaskDemand :=
  let newWindow := t.markStart < windowStart
  if accountBusyForTaskDemand c t.idle then
    if newWindow then
      let nrFullWindows := int32 ((windowStart - t.markStart) / c.schedRavgWindow)
      let firstStart := addWindows windowStart (-nrFullWindows) c.schedRavgWindow
      let x := (x.1, addToTaskDemand c t.grp (elapsed firstStart t.markStart) x.2)
      let x := updateHistory c t x.2.sum 1 x
      let x :=
        if nrFullWindows ≠ 0 then
          updateHistory c t (u32 (scaleExecTime c t.grp c.schedRavgWindow))
            (min nrFullWindows RAVG_HIST_SIZE) x
        else x
      (x.1, addToTaskDemand c t.grp (elapsed c.wallclock windowStart) x.2)
    else (x.1, addToTaskDemand c t.grp (elapsed c.wallclock t.markStart) x.2)
  else if newWindow then updateHistory c t x.2.sum 1 x
  else x

/- SCHED_FREQ_ACCOUNT_WAIT_TIME is 0. -/
def updateTaskPredDemand (c : Call) (t : Wts Cpu) (x : WaltSchedStats × TaskDemand) :
    WaltSchedStats × TaskDemand :=
  if t.idle then x
  else if c.event ≠ .putPrevTask ∧ c.event ≠ .taskUpdate then x
  else if c.event = .taskUpdate ∧ !(c.queued || c.runnable) then x
  else
    let currWindowScaled := u16 (scaleTimeToUtil c.schedRavgWindow t.currWindow)
    if x.2.predDemandScaled ≥ currWindowScaled then x
    else
      let predDemandScaled :=
        getPredBusy (isNewTask t) (busyToBucket currWindowScaled) currWindowScaled x.2
      let x :=
        if c.queued then fixupWaltSchedStatsCommon c x.2.demandScaled predDemandScaled x else x
      (x.1, { x.2 with predDemandScaled })

end MsmKernel.Walt
