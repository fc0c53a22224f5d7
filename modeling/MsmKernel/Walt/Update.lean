import MsmKernel.Walt.BusyTime

/-! `walt_update_task_ravg`: one update of a task on its runqueue. -/
namespace MsmKernel.Walt
variable {Task Cpu : Type} [DecidableEq Task] [DecidableEq Cpu]

def accountTask (c : Call) (cpu : Cpu) (q : Wrq) (t : Wts Cpu) : Wrq × Wts Cpu :=
  let x := updateTaskDemand c q.windowStart t (q.stats, t.demand)
  let y := updateCpuBusyTime c cpu { q with stats := x.1 } { t with demand := x.2 }
  let x := updateTaskPredDemand c y.2 (y.1.stats, y.2.demand)
  ({ y.1 with stats := x.1 }, { y.2 with demand := x.2 })

def firstWindow (q : Wrq) (t : Wts Cpu) : Wts Cpu :=
  if t.windowStart = 0 then { t with windowStart := q.windowStart } else t

/- The body between the window update and the store of mark_start. -/
def updateTaskAndRq (c : Call) (cpu : Cpu) (q : Wrq) (t : Wts Cpu) : Wrq × Wts Cpu :=
  if t.markStart = 0 then (q, firstWindow q t) else accountTask c cpu q (firstWindow q t)

/- `none` is a WALT_PANIC. -/
def updateRavg (c : Call) (cpu : Cpu) (q : Wrq) (t : Wts Cpu) : Option (Wrq × Wts Cpu) :=
  if q.windowStart = 0 ∨ t.markStart = c.wallclock then some (q, t)
  else
    (updateWindowStart c.schedRavgWindow c.wallclock q).map fun q =>
      let x := updateTaskAndRq c cpu q t
      (x.1, { x.2 with markStart := c.wallclock })

/- The atomic64_cmpxchg that elects the CPU which runs the rollover work. -/
def runWaltIrqWorkRollover (oldWindowStart windowStart lastqWs : Nat) : Nat :=
  if oldWindowStart = windowStart then lastqWs
  else if lastqWs = oldWindowStart then windowStart
  else lastqWs

def State.call (s : State Task Cpu) (env : Env) (p : Task) (event : TaskEvent)
    (wallclock irqtime : Nat) : Call :=
  { env with
    event
    wallclock
    irqtime
    schedRavgWindow := s.schedRavgWindow
    isCurr := s.curr (s.taskCpu p) = p
    currIsIdle := (s.wts (s.curr (s.taskCpu p))).idle
    queued := s.queued p
    fair := s.fair p && !(s.wts p).idle }

def waltUpdateTaskRavg (env : Env) (p : Task) (event : TaskEvent) (wallclock irqtime : Nat)
    (s : State Task Cpu) : Option (State Task Cpu) :=
  let cpu := s.taskCpu p
  let oldWindowStart := (s.rq cpu).windowStart
  (updateRavg (s.call env p event wallclock irqtime) cpu (s.rq cpu) (s.wts p)).map fun x =>
    { s with
      rq := Function.update s.rq cpu x.1
      wts := Function.update s.wts p x.2
      waltIrqWorkLastqWs :=
        runWaltIrqWorkRollover oldWindowStart x.1.windowStart s.waltIrqWorkLastqWs }

end MsmKernel.Walt
