import MsmKernel.Walt.Update

/-! Busy time that moves with a task: the subtraction at set_task_cpu, the addition at the next
enqueue, the deferred subtractions from the other CPUs of a cluster, and the transfer between a
runqueue and the related thread group. A busy time check that fires sets `busyTimeBug`. -/
namespace MsmKernel.Walt
open Function
variable {Task Cpu : Type} [DecidableEq Task] [DecidableEq Cpu]

def subClamp (a b : Nat) : Nat := if a < b then 0 else a - b

namespace RunnableSums

section
variable (sums : RunnableSums) (newTask : Bool) (curr prev : Nat)

def add : RunnableSums :=
  (sums.addCurr newTask curr).addPrev newTask prev

def sub : RunnableSums where
  currRunnableSum := subClamp sums.currRunnableSum curr
  prevRunnableSum := subClamp sums.prevRunnableSum prev
  ntCurrRunnableSum :=
    if newTask then subClamp sums.ntCurrRunnableSum curr else sums.ntCurrRunnableSum
  ntPrevRunnableSum :=
    if newTask then subClamp sums.ntPrevRunnableSum prev else sums.ntPrevRunnableSum

def isShort : Bool :=
  sums.currRunnableSum < curr || sums.prevRunnableSum < prev ||
    newTask && (sums.ntCurrRunnableSum < curr || sums.ntPrevRunnableSum < prev)

end

end RunnableSums

namespace State

def setRq (s : State Task Cpu) (cpu : Cpu) (q : Wrq) : State Task Cpu :=
  { s with rq := update s.rq cpu q }

def setWts (s : State Task Cpu) (p : Task) (t : Wts Cpu) : State Task Cpu :=
  { s with wts := update s.wts p t }

section
variable (s : State Task Cpu) (cpu : Cpu) (newTask : Bool)

def subSums (curr prev : Nat) :
    State Task Cpu :=
  { s.setRq cpu { s.rq cpu with sums := (s.rq cpu).sums.sub newTask curr prev } with
    busyTimeBug := s.busyTimeBug || (s.rq cpu).sums.isShort newTask curr prev }

def subGrpTime (curr prev : Nat) :
    State Task Cpu :=
  { s.setRq cpu { s.rq cpu with grpTime := (s.rq cpu).grpTime.sub newTask curr prev } with
    busyTimeBug := s.busyTimeBug || (s.rq cpu).grpTime.isShort newTask curr prev }

def addSums (curr prev : Nat) :
    State Task Cpu :=
  s.setRq cpu { s.rq cpu with sums := (s.rq cpu).sums.add newTask curr prev }

def addGrpTime (curr prev : Nat) :
    State Task Cpu :=
  s.setRq cpu { s.rq cpu with grpTime := (s.rq cpu).grpTime.add newTask curr prev }

end

end State

def createSubtractionEntry (ws : Nat) (index : Fin 2) (ls : Fin 2 → LoadSubtractions) :
    Fin 2 → LoadSubtractions :=
  update ls index ⟨ws, 0, 0⟩

def getSubtractionIndex (ws : Nat) (ls : Fin 2 → LoadSubtractions) :
    Fin 2 × (Fin 2 → LoadSubtractions) :=
  if ws = (ls 0).windowStart then (0, ls)
  else if ws = (ls 1).windowStart then (1, ls)
  else
    let oldest : Fin 2 := if (ls 1).windowStart < (ls 0).windowStart then 1 else 0
    (oldest, createSubtractionEntry ws oldest ls)

def updateRqLoadSubtractions (index : Fin 2) (subLoad : Nat) (newTask : Bool)
    (ls : Fin 2 → LoadSubtractions) : Fin 2 → LoadSubtractions :=
  update ls index
    { ls index with
      subs := (ls index).subs + subLoad
      newSubs := if newTask then (ls index).newSubs + subLoad else (ls index).newSubs }

def deferSubtraction (ws subLoad : Nat) (newTask : Bool) (ls : Fin 2 → LoadSubtractions) :
    Fin 2 → LoadSubtractions :=
  if subLoad ≠ 0 then
    let x := getSubtractionIndex ws ls
    updateRqLoadSubtractions x.1 subLoad newTask x.2
  else ls

def sameFreqDomain (topo : Topology Cpu) (src dst : Cpu) : Prop :=
  topo.cluster src = topo.cluster dst

instance (topo : Topology Cpu) (src dst : Cpu) : Decidable (sameFreqDomain topo src dst) :=
  inferInstanceAs (Decidable (_ = _))

/- The CPUs whose runqueue update_cluster_load_subtractions visits. -/
def IsSibling (topo : Topology Cpu) (cpu i : Cpu) : Prop := sameFreqDomain topo cpu i ∧ i ≠ cpu

instance (topo : Topology Cpu) (cpu i : Cpu) : Decidable (IsSibling topo cpu i) :=
  inferInstanceAs (Decidable (_ ∧ _))

def updateClusterLoadSubtractions (topo : Topology Cpu) (p : Task) (cpu : Cpu) (ws : Nat)
    (newTask : Bool) (s : State Task Cpu) : State Task Cpu :=
  let t := s.wts p
  let prevWs := ws - (s.rq cpu).prevWindowSize
  { s with
    rq := fun i =>
      if IsSibling topo cpu i then
        { s.rq i with
          loadSubs := deferSubtraction prevWs (t.prevWindowCpu i) newTask
            (deferSubtraction ws (t.currWindowCpu i) newTask (s.rq i).loadSubs) }
      else s.rq i
    wts := update s.wts p
      { t with
        currWindowCpu := fun i => if IsSibling topo cpu i then 0 else t.currWindowCpu i
        prevWindowCpu := fun i => if IsSibling topo cpu i then 0 else t.prevWindowCpu i } }

section
variable (ws prevWs : Nat) (entry : LoadSubtractions) (sums : RunnableSums)

def accountLoadSubtraction :
    RunnableSums :=
  if entry.windowStart = ws then
    { sums with
      currRunnableSum := subClamp sums.currRunnableSum entry.subs
      ntCurrRunnableSum := subClamp sums.ntCurrRunnableSum entry.newSubs }
  else if entry.windowStart = prevWs then
    { sums with
      prevRunnableSum := subClamp sums.prevRunnableSum entry.subs
      ntPrevRunnableSum := subClamp sums.ntPrevRunnableSum entry.newSubs }
  else sums

def isSubtractionShort : Bool :=
  if entry.windowStart = ws then
    sums.currRunnableSum < entry.subs || sums.ntCurrRunnableSum < entry.newSubs
  else if entry.windowStart = prevWs then
    sums.prevRunnableSum < entry.subs || sums.ntPrevRunnableSum < entry.newSubs
  else false

end

/- A check fires when an entry exceeds the sums at its turn: the code tests both entries before
the first subtraction, and clamps at each. -/
def accountLoadSubtractions (cpu : Cpu) (s : State Task Cpu) : State Task Cpu :=
  let q := s.rq cpu
  let ws := q.windowStart
  let prevWs := ws - q.prevWindowSize
  let sums := accountLoadSubtraction ws prevWs (q.loadSubs 0) q.sums
  { s.setRq cpu
      { q with
        sums := accountLoadSubtraction ws prevWs (q.loadSubs 1) sums
        loadSubs := fun i => ⟨(q.loadSubs i).windowStart, 0, 0⟩ } with
    busyTimeBug := s.busyTimeBug || isSubtractionShort ws prevWs (q.loadSubs 0) q.sums ||
      isSubtractionShort ws prevWs (q.loadSubs 1) q.sums ||
      isSubtractionShort ws prevWs (q.loadSubs 1) sums }

def migrateInterClusterSubtraction (topo : Topology Cpu) (p : Task) (newTask : Bool)
    (s : State Task Cpu) : State Task Cpu :=
  let cpu := s.taskCpu p
  let t := s.wts p
  let s := s.subSums cpu newTask (t.currWindowCpu cpu) (t.prevWindowCpu cpu)
  let s := s.setWts p
    { t with
      currWindowCpu := update t.currWindowCpu cpu 0
      prevWindowCpu := update t.prevWindowCpu cpu 0 }
  updateClusterLoadSubtractions topo p cpu (s.rq cpu).windowStart newTask s

def migrateInterClusterAddition (p : Task) (newTask : Bool) (s : State Task Cpu) :
    State Task Cpu :=
  let cpu := s.taskCpu p
  let t := s.wts p
  let s := s.setWts p
    { t with
      currWindowCpu := update t.currWindowCpu cpu t.currWindow
      prevWindowCpu := update t.prevWindowCpu cpu t.prevWindow }
  s.addSums cpu newTask t.currWindow t.prevWindow

def setEnqueueAfterMigration (p : Task) (pending : PendingMigration) (s : State Task Cpu) :
    State Task Cpu :=
  s.setWts p { s.wts p with enqueueAfterMigration := pending }

def mapTopTasks (cpu : Cpu) (f : TopTasks → TopTasks) (s : State Task Cpu) : State Task Cpu :=
  s.setRq cpu { s.rq cpu with topTasks := f (s.rq cpu).topTasks }

def subtractFromSource (topo : Topology Cpu) (p : Task) (s : State Task Cpu) : State Task Cpu :=
  let cpu := s.taskCpu p
  let t := s.wts p
  let newTask := isNewTask t
  let s :=
    if t.grp then s.subGrpTime cpu newTask t.currWindow t.prevWindow
    else if t.enqueueAfterMigration = .interCluster then
      migrateInterClusterSubtraction topo p newTask s
    else s
  mapTopTasks cpu (migrateTopTasksSubtraction t.currWindow t.prevWindow) s

def pendingMigration (topo : Topology Cpu) (src dst : Cpu) : PendingMigration :=
  if sameFreqDomain topo src dst then .withinCluster else .interCluster

def migrateBusyTimeSubtraction (topo : Topology Cpu) (env : Env) (p : Task) (newCpu : Cpu)
    (wallclock : Nat) (s : State Task Cpu) : Option (State Task Cpu) :=
  let doubleMigrate := (s.wts p).enqueueAfterMigration ≠ .none
  let s := setEnqueueAfterMigration p (pendingMigration topo (s.taskCpu p) newCpu) s
  (waltUpdateTaskRavg env p .taskMigrate wallclock 0 s).map fun s =>
    if doubleMigrate then s else subtractFromSource topo p s

def addToDestination (p : Task) (s : State Task Cpu) : State Task Cpu :=
  let cpu := s.taskCpu p
  let t := s.wts p
  let newTask := isNewTask t
  let s :=
    if t.grp then s.addGrpTime cpu newTask t.currWindow t.prevWindow
    else if t.enqueueAfterMigration = .interCluster then migrateInterClusterAddition p newTask s
    else s
  mapTopTasks cpu (migrateTopTasksAddition t.currWindow t.prevWindow) s

/- migrate_busy_time_addition with the reset of the flag that follows each of its calls. -/
def migrateBusyTimeAddition (env : Env) (p : Task) (wallclock : Nat) (s : State Task Cpu) :
    Option (State Task Cpu) :=
  (waltUpdateTaskRavg env p .taskUpdate wallclock 0 s).map fun s =>
    setEnqueueAfterMigration p .none (addToDestination p s)

def consumeMigration (env : Env) (p : Task) (wallclock : Nat) (s : State Task Cpu) :
    Option (State Task Cpu) :=
  if (s.wts p).enqueueAfterMigration ≠ .none then migrateBusyTimeAddition env p wallclock s
  else some s

/- RQ_TO_GROUP. -/
def transferToGroup (topo : Topology Cpu) (p : Task) (newTask : Bool) (s : State Task Cpu) :
    State Task Cpu :=
  let cpu := s.taskCpu p
  let t := s.wts p
  let s := s.subSums cpu newTask (t.currWindowCpu cpu) (t.prevWindowCpu cpu)
  let s := updateClusterLoadSubtractions topo p cpu (s.rq cpu).windowStart newTask s
  let s := s.addGrpTime cpu newTask t.currWindow t.prevWindow
  s.setWts p
    { s.wts p with
      currWindowCpu := update (s.wts p).currWindowCpu cpu t.currWindow
      prevWindowCpu := update (s.wts p).prevWindowCpu cpu t.prevWindow
      grp := true }

/- GROUP_TO_RQ. -/
def transferToRq (p : Task) (newTask : Bool) (s : State Task Cpu) : State Task Cpu :=
  let cpu := s.taskCpu p
  let t := s.wts p
  let s := s.subGrpTime cpu newTask t.currWindow t.prevWindow
  let s := s.addSums cpu newTask t.currWindow t.prevWindow
  s.setWts p
    { t with
      currWindowCpu := update (fun _ => 0) cpu t.currWindow
      prevWindowCpu := update (fun _ => 0) cpu t.prevWindow
      grp := false }

/- transfer_busy_time, with the store of grp that follows it; the second clock reading is made only
for a pending migration. `newTask` is read before the pending migration is consumed. -/
def transferBusyTime (topo : Topology Cpu) (env env' : Env) (p : Task) (toGroup : Bool)
    (wallclock wallclock' : Nat) (s : State Task Cpu) : Option (State Task Cpu) :=
  (waltUpdateTaskRavg env p .taskUpdate wallclock 0 s).bind fun s =>
    let newTask := isNewTask (s.wts p)
    (consumeMigration env' p wallclock' s).map fun s =>
      if toGroup then transferToGroup topo p newTask s else transferToRq p newTask s

end MsmKernel.Walt
