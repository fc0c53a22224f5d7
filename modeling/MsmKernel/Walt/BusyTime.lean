import MsmKernel.Walt.Demand
import MsmKernel.Walt.TopTasks

/-! Windows and busy time: the window of a CPU, its curr and prev runnable sums, and the time a
task contributes to them. -/
namespace MsmKernel.Walt
variable {Cpu : Type}

namespace RunnableSums

def rollover (fullWindow : Bool) (sums : RunnableSums) : RunnableSums :=
  if fullWindow then ⟨0, 0, 0, 0⟩ else ⟨0, sums.currRunnableSum, 0, sums.ntCurrRunnableSum⟩

def addCurr (sums : RunnableSums) (newTask : Bool) (delta : Nat) : RunnableSums :=
  { sums with
    currRunnableSum := sums.currRunnableSum + delta
    ntCurrRunnableSum := if newTask then sums.ntCurrRunnableSum + delta else sums.ntCurrRunnableSum }

def addPrev (sums : RunnableSums) (newTask : Bool) (delta : Nat) : RunnableSums :=
  { sums with
    prevRunnableSum := sums.prevRunnableSum + delta
    ntPrevRunnableSum := if newTask then sums.ntPrevRunnableSum + delta else sums.ntPrevRunnableSum }

end RunnableSums

def rolloverCpuWindow (fullWindow : Bool) (q : Wrq) : Wrq :=
  { q with sums := q.sums.rollover fullWindow, grpTime := q.grpTime.rollover fullWindow }

/- WALT_PANIC stops the machine: a wallclock before latest_clock, or one whose s64 distance from
the window start is negative. -/
def updateWindowStart (schedRavgWindow wallclock : Nat) (q : Wrq) : Option Wrq :=
  if wallclock < q.latestClock ∨ wallclock < q.windowStart ∨ q.windowStart + 2 ^ 63 ≤ wallclock ∨
      2 ^ 64 ≤ wallclock then none
  else
    let delta := wallclock - q.windowStart
    let q := { q with latestClock := wallclock }
    if delta < schedRavgWindow then some q
    else
      let nrWindows := int32 (delta / schedRavgWindow)
      let q :=
        { q with
          windowStart := addWindows q.windowStart nrWindows schedRavgWindow
          prevWindowSize := schedRavgWindow }
      let fullWindow : Bool := nrWindows > 1
      let q := rolloverCpuWindow fullWindow q
      some { q with topTasks := rolloverTopTasks fullWindow q.topTasks }

def rolloverTaskWindow (prevWindowSize : Nat) (fullWindow : Bool) (t : Wts Cpu) : Wts Cpu :=
  { t with
    prevWindow := if fullWindow then 0 else t.currWindow
    currWindow := 0
    prevWindowCpu := if fullWindow then fun _ => 0 else t.currWindowCpu
    currWindowCpu := fun _ => 0
    activeTime := if isNewTask t then t.activeTime + prevWindowSize else t.activeTime }

/- SCHED_FREQ_ACCOUNT_WAIT_TIME is 0. -/
def accountBusyForCpuTime (c : Call) (idle : Bool) : Bool :=
  if idle then
    match c.event with
    | .pickNextTask => false
    | _ => c.irqtime ≠ 0 || c.waitingOnIo
  else
    match c.event with
    | .taskWake => false
    | .putPrevTask => true
    | .irqUpdate => true
    | .taskUpdate => c.isCurr
    | .taskMigrate => false
    | .pickNextTask => false

namespace Wrq

def addCurr (q : Wrq) (grp newTask : Bool) (delta : Nat) : Wrq :=
  if grp then { q with grpTime := q.grpTime.addCurr newTask delta }
  else { q with sums := q.sums.addCurr newTask delta }

def addPrev (q : Wrq) (grp newTask : Bool) (delta : Nat) : Wrq :=
  if grp then { q with grpTime := q.grpTime.addPrev newTask delta }
  else { q with sums := q.sums.addPrev newTask delta }

end Wrq

namespace Wts
variable [DecidableEq Cpu]

section
variable (t : Wts Cpu) (cpu : Cpu) (delta : Nat)

def addCurr : Wts Cpu :=
  { t with
    currWindow := u32 (t.currWindow + delta)
    currWindowCpu := Function.update t.currWindowCpu cpu (u32 (t.currWindowCpu cpu + delta)) }

def addPrev : Wts Cpu :=
  { t with
    prevWindow := u32 (t.prevWindow + delta)
    prevWindowCpu := Function.update t.prevWindowCpu cpu (u32 (t.prevWindowCpu cpu + delta)) }

def setCurr : Wts Cpu :=
  { t with
    currWindow := u32 delta
    currWindowCpu := Function.update t.currWindowCpu cpu (u32 delta) }

def setPrev : Wts Cpu :=
  { t with
    prevWindow := u32 delta
    prevWindowCpu := Function.update t.prevWindowCpu cpu (u32 delta) }

end

end Wts

section BusyTime
variable [DecidableEq Cpu]

def accountInWindow (c : Call) (cpu : Cpu) (newTask : Bool) (q : Wrq) (t : Wts Cpu) :
    Wrq × Wts Cpu :=
  let delta :=
    if c.irqtime = 0 || !t.idle || c.waitingOnIo then elapsed c.wallclock t.markStart else c.irqtime
  let delta := scaleExecTime c t.grp delta
  (q.addCurr t.grp newTask delta, if t.idle then t else t.addCurr cpu delta)

/- Busy time that passes a window boundary, for the current task and for any other; only the
former spares the windows of the idle task. -/
def accountAcrossWindows (c : Call) (cpu : Cpu) (fullWindow newTask : Bool) (q : Wrq)
    (t : Wts Cpu) : Wrq × Wts Cpu :=
  let keep := c.isCurr && t.idle
  let prevDelta :=
    scaleExecTime c t.grp (if fullWindow then q.prevWindowSize else q.windowStart - t.markStart)
  let currDelta := scaleExecTime c t.grp (elapsed c.wallclock q.windowStart)
  let t :=
    if keep then t
    else if fullWindow then t.setPrev cpu prevDelta
    else t.addPrev cpu prevDelta
  ((q.addPrev t.grp newTask prevDelta).addCurr t.grp newTask currDelta,
    if keep then t else t.setCurr cpu currDelta)

def accountIrqtime (c : Call) (grp : Bool) (q : Wrq) : Wrq :=
  let irqStart := elapsed c.wallclock c.irqtime
  if irqStart > q.windowStart then q.addCurr grp false (scaleExecTime c grp c.irqtime)
  else
    let delta := min (q.windowStart - irqStart) q.prevWindowSize
    (q.addPrev grp false (scaleExecTime c grp delta)).addCurr false false
      (scaleExecTime c grp (elapsed c.wallclock q.windowStart))

def startsWindow (q : Wrq) (t : Wts Cpu) : Bool := t.markStart < q.windowStart

def passesWindow (q : Wrq) (t : Wts Cpu) : Bool :=
  startsWindow q t && decide (q.windowStart - t.markStart ≥ q.prevWindowSize)

def rolledTask (q : Wrq) (t : Wts Cpu) : Wts Cpu :=
  if startsWindow q t then
    { (if t.idle then t else rolloverTaskWindow q.prevWindowSize (passesWindow q t) t) with
      windowStart := q.windowStart }
  else t

def accountBusyTime (c : Call) (cpu : Cpu) (q : Wrq) (t : Wts Cpu) : Wrq × Wts Cpu :=
  let r := rolledTask q t
  if !accountBusyForCpuTime c t.idle then (q, r)
  else if !startsWindow q t then accountInWindow c cpu (isNewTask r) q r
  else if !c.isCurr || c.irqtime = 0 || !t.idle || c.waitingOnIo then
    accountAcrossWindows c cpu (passesWindow q t) (isNewTask r) q r
  else (accountIrqtime c t.grp q, r)

def updateCpuBusyTime (c : Call) (cpu : Cpu) (q : Wrq) (t : Wts Cpu) : Wrq × Wts Cpu :=
  let x := accountBusyTime c cpu q t
  if t.idle then x
  else
    ({ x.1 with
        topTasks := updateTopTasks t.currWindow x.2.currWindow x.2.prevWindow (startsWindow q t)
          (passesWindow q t) x.1.topTasks }, x.2)

end BusyTime
end MsmKernel.Walt
