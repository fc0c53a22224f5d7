import MsmKernel.Halt
import MsmKernel.Lib.TailMoves

/-! Which CPUs of a cluster core_ctl pauses and resumes: the passes over the cluster's LRU list and
the calls into walt_halt.c that follow. -/
namespace MsmKernel.CoreCtl
open Halt TailMoves
variable {n : Nat}

structure CpuData where
  isBusy : Bool
  notPreferred : Bool
  disabled : Bool
deriving DecidableEq

structure ClusterData (n : Nat) where
  minPartialCpus : Nat
  maxCpus : Nat
  activeCpus : Nat
  numCpus : Nat
  nrNotPreferredCpus : Nat
  lru : List (Fin n)
deriving DecidableEq

structure State (n : Nat) where
  cpuState : Fin n → CpuData
  cpuActive : Finset (Fin n)
  halt : HaltState n
  cpusPausedByUs : Finset (Fin n)
  cpusPartPausedByUs : Finset (Fin n)
deriving DecidableEq

def State.isActive (s : State n) (c : Fin n) : Bool :=
  c ∈ s.cpuActive && !(c ∈ s.halt.cpuHaltMask) && !(c ∈ s.halt.cpuPartialHaltMask)

section Pause
variable (s : State n) (cluster : ClusterData n)

/- A mask and nr_pending; never more are pending than CPUs are active. -/
abbrev Picked (n : Nat) := Finset (Fin n) × Nat

def pauseVisit (need : Nat) (x : Picked n) (c : Fin n) : Visit (Picked n) :=
  if (s.cpuState c).disabled then .skip
  else if !s.isActive c then .skip
  else if cluster.activeCpus - x.2 = need then .stop
  else if (s.cpuState c).isBusy then .skip
  else if cluster.nrNotPreferredCpus ≠ 0 ∧ !(s.cpuState c).notPreferred then .skip
  else .move (insert c x.1, x.2 + 1)

def forceVisit (firstPass : Bool) (x : Picked n) (c : Fin n) : Visit (Picked n) :=
  if (s.cpuState c).disabled then .skip
  else if !s.isActive c then .skip
  else if cluster.activeCpus - x.2 ≤ cluster.maxCpus then .stop
  else if firstPass && !(s.cpuState c).notPreferred then .skip
  else .move (insert c x.1, x.2 + 1)

/- The part of `try_to_pause` from the label `again` to the end of its loop. -/
def forcePause (firstPass : Bool) (x : List (Fin n) × Picked n) : List (Fin n) × Picked n :=
  if cluster.activeCpus - x.2.2 ≤ cluster.maxCpus then x
  else walk (forceVisit s cluster firstPass) cluster.numCpus [] x.1 x.2

def partialPauseVisit (x : Finset (Fin n) × Finset (Fin n) × Int) (c : Fin n) :
    Visit (Finset (Fin n) × Finset (Fin n) × Int) :=
  if x.2.2 ≤ 0 then .stop
  else if c ∈ x.1 then
    if c ∉ s.cpusPartPausedByUs then .move (x.1.erase c, insert c x.2.1, x.2.2 - 1) else .skip
  else .skip

/- The loop has no bound of its own: a visit passes an entry or takes one out of `pauseCpus`. -/
def tryToPartialPause (lru : List (Fin n)) (pauseCpus partPauseCpus : Finset (Fin n)) :
    List (Fin n) × Finset (Fin n) × Finset (Fin n) :=
  let numCpus : Int := cluster.minPartialCpus - s.cpusPartPausedByUs.card
  if numCpus ≤ 0 then (lru, pauseCpus, partPauseCpus)
  else
    let x := walk (partialPauseVisit s) (lru.length + pauseCpus.card) [] lru
      (pauseCpus, partPauseCpus, numCpus)
    (x.1, x.2.1, x.2.2.1)

/- The passes of `try_to_pause` up to the label `unlock`. -/
def pausePasses (need : Nat) (pauseCpus : Finset (Fin n)) : List (Fin n) × Picked n :=
  let firstPass : Bool := cluster.nrNotPreferredCpus ≠ 0
  let x := walk (pauseVisit s cluster need) cluster.numCpus [] cluster.lru (pauseCpus, 0)
  let x := forcePause s cluster firstPass x
  if firstPass && cluster.activeCpus - x.2.2 > cluster.maxCpus then forcePause s cluster false x
  else x

def tryToPause (need : Nat) (pauseCpus partPauseCpus : Finset (Fin n)) :
    ClusterData n × Finset (Fin n) × Finset (Fin n) :=
  let x := pausePasses s cluster need pauseCpus
  let y := tryToPartialPause s cluster x.1 x.2.1 partPauseCpus
  ({ cluster with lru := y.1 }, y.2)

/-- More steps than `tryToPartialPause` allows its loop change nothing. -/
theorem tryToPartialPause_fuel (lru : List (Fin n)) (x : Finset (Fin n) × Finset (Fin n) × Int)
    {fuel : Nat} (hfuel : lru.length + x.1.card ≤ fuel) :
    walk (partialPauseVisit s) fuel [] lru x =
      walk (partialPauseVisit s) (lru.length + x.1.card) [] lru x := by
  refine walk_fuel (μ := fun x => x.1.card) (fun x c t hvisit => ?_) [] hfuel le_rfl
  unfold partialPauseVisit at hvisit
  split_ifs at hvisit with hnum hmem hpart
  obtain rfl := Visit.move.inj hvisit
  exact Finset.card_erase_lt_of_mem hmem

end Pause

section Resume
variable (s : State n) (cluster : ClusterData n)

def resumeVisit (need : Nat) (force : Bool) (x : Picked n) (c : Fin n) : Visit (Picked n) :=
  if c ∉ s.cpusPausedByUs ∧ c ∉ s.cpusPartPausedByUs then .skip
  else if s.isActive c || (!force && (s.cpuState c).notPreferred) then .skip
  else if cluster.activeCpus + x.2 = need then .stop
  else .move (insert c x.1, x.2 + 1)

def tryToResumePass (need : Nat) (force : Bool) (lru : List (Fin n)) (unpauseCpus : Finset (Fin n)) :
    List (Fin n) × Picked n :=
  walk (resumeVisit s cluster need force) cluster.numCpus [] lru (unpauseCpus, 0)

def tryToPartialResume (unpauseCpus : Finset (Fin n)) : Finset (Fin n) :=
  unpauseCpus ∩ s.cpusPartPausedByUs

def tryToResume (need : Nat) (unpauseCpus partUnpauseCpus : Finset (Fin n)) :
    ClusterData n × Finset (Fin n) × Finset (Fin n) :=
  let x := tryToResumePass s cluster need false cluster.lru unpauseCpus
  if cluster.activeCpus + x.2.2 = need then ({ cluster with lru := x.1 }, x.2.1, partUnpauseCpus)
  else
    let y := tryToResumePass s cluster need true x.1 x.2.1
    ({ cluster with lru := y.1 }, y.2.1, tryToPartialResume s y.2.1)

def resumeCall (request : Request) (cpus : Finset (Fin n)) (waltDisabled : Bool) : Call n :=
  ⟨request, cpus, .coreCtl, waltDisabled, ∅⟩

def partResume (waltDisabled : Bool) (cpus : Finset (Fin n)) (s : State n) : State n :=
  if cpus = ∅ then s
  else
    let r := call s.halt (resumeCall .partialResumeCpus cpus waltDisabled)
    if r.1 < 0 then { s with halt := r.2 }
    else { s with halt := r.2, cpusPartPausedByUs := s.cpusPartPausedByUs \ cpus }

def fullResume (waltDisabled : Bool) (cpus : Finset (Fin n)) (s : State n) : State n :=
  if cpus = ∅ then s
  else
    let r := call s.halt (resumeCall .resumeCpus cpus waltDisabled)
    if r.1 < 0 then { s with halt := r.2 }
    else { s with halt := r.2, cpusPausedByUs := s.cpusPausedByUs \ cpus }

def coreCtlResumeCpus (waltDisabled : Bool) (cpusToUnpause cpusToPartUnpause : Finset (Fin n)) :
    State n :=
  let s := partResume waltDisabled (cpusToPartUnpause ∩ s.cpusPartPausedByUs) s
  fullResume waltDisabled (cpusToUnpause ∩ s.cpusPausedByUs) s

end Resume
end MsmKernel.CoreCtl
