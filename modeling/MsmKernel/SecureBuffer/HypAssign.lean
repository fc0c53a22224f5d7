import MsmKernel.MemBuf.Hypervisor

/-! `hyp_assign_table`: a scatter-gather table is assigned to a list of VMs in batches, and a batch
that the monitor refuses is followed by an attempt to take the earlier ones back. -/
namespace MsmKernel.SecureBuffer
open MemBuf

def EPROBE_DEFER : Errno := 517

def batchMaxSize : Nat := 0x200000
def batchMaxSections : Nat := 32
def pageSize : Nat := 4096
def sizeofPermInfo : Nat := 24

abbrev Owners := List (Vmid × Nat)

def moreBatches (batchSize i : Nat) : List Nat → Nat
  | [] => 0
  | len :: sgl =>
    if i < batchMaxSections ∧ len + batchSize < batchMaxSize then
      moreBatches (batchSize + len) (i + 1) sgl + 1
    else 0

def getBatchesFromSgl : List Nat → Nat
  | [] => 1
  | len :: sgl => moreBatches len 1 sgl + 1

/- What happens to one batch: the mapping of its descriptors fails, the monitor refuses it, or the
monitor applies it to all its regions. -/
inductive Call where
  | ok
  | mapError
  | scmError (e : Errno)

inductive Stop where
  | done
  | mapError
  | scmError (e : Errno)

structure LoopEnd where
  stop : Stop
  batchStart : Nat
  i : Nat
  own : Nat → Owners

def assignEntries (own : Nat → Owners) (start n : Nat) (dest : Owners) (e : Nat) : Owners :=
  if start ≤ e ∧ e < start + n then dest else own e

/- The while loop of `batched_hyp_assign` up to the handling of a failure. Every turn takes at least
one entry, so that `nents` turns are enough. -/
def batchLoop (calls : Nat → Call) (dest : Owners) (nents : Nat) :
    Nat → List Nat → Nat → Nat → (Nat → Owners) → LoopEnd
  | 0, _, batchStart, i, own => ⟨.done, batchStart, i, own⟩
  | fuel + 1, sgl, batchStart, i, own =>
    if batchStart < nents then
      match calls i with
      | .mapError => ⟨.mapError, batchStart, i, own⟩
      | .scmError e => ⟨.scmError e, batchStart, i, own⟩
      | .ok =>
        let n := getBatchesFromSgl sgl
        batchLoop calls dest nents fuel (sgl.drop n) (batchStart + n) (i + 1)
          (assignEntries own batchStart n dest)
    else ⟨.done, batchStart, i, own⟩

/- `ret` is `none` for a return value of 0; `divByZero` says that a division by zero was executed. -/
structure Result where
  ret : Option Errno
  own : Nat → Owners
  divByZero : Bool

structure TableEnv where
  probed : Bool
  kmemdup : Bool
  mapSource : Bool
  destInfo : Bool
  mapDest : Bool
  track : Bool
  regionsBuf : Bool
  calls : Nat → Call

/- `onFail` is what follows a refused batch, given the entries assigned so far. -/
def batchedHypAssign (table : List Nat) (nents : Nat) (dest : Owners) (env : TableEnv)
    (own : Nat → Owners) (onFail : Nat → Errno → (Nat → Owners) → Result) : Result :=
  if env.regionsBuf = false then ⟨some ENOMEM, own, false⟩
  else
    let r := batchLoop env.calls dest nents nents table 0 0 own
    -- the average time of a batch is computed in the end, also if there was none
    let divByZero := r.i == 0
    match r.stop with
    | .done => ⟨none, r.own, divByZero⟩
    | .mapError => ⟨some EADDRNOTAVAIL, r.own, divByZero⟩
    | .scmError e =>
      let f := onFail r.batchStart e r.own
      ⟨f.ret, f.own, f.divByZero || divByZero⟩

/- `_hyp_assign_table`; the table itself is not empty exactly if it has entries. -/
def hypAssignTableWith (table : List Nat) (nents : Nat) (src : List Vmid) (dest : Owners)
    (env : TableEnv) (own : Nat → Owners) (onFail : Nat → Errno → (Nat → Owners) → Result) :
    Result :=
  if env.probed = false then ⟨some EPROBE_DEFER, own, false⟩
  else if src = [] ∨ dest = [] ∨ table = [] then ⟨some EINVAL, own, false⟩
  else if env.kmemdup = false then ⟨some ENOMEM, own, false⟩
  else if env.mapSource = false then ⟨some ENOMEM, own, false⟩
  else if dest.length * sizeofPermInfo > pageSize ∨ env.destInfo = false then
    ⟨some ENOMEM, own, false⟩
  else if env.mapDest = false then ⟨some ENOMEM, own, false⟩
  else if env.track = false then ⟨some ENOMEM, own, false⟩
  else batchedHypAssign table nents dest env own onFail

def giveUp (_ : Nat) (e : Errno) (own : Nat → Owners) : Result := ⟨some e, own, false⟩

/- The number of sources is the quotient the other way round: one for one destination, else none. -/
def rollbackBatchedAssign (table : List Nat) (nentsAssigned : Nat) (dest : Owners)
    (kmallocArray : Bool) (env : TableEnv) (own : Nat → Owners) : Result :=
  let newSourceNelems := sizeofPermInfo / (dest.length * sizeofPermInfo)
  if kmallocArray = false then ⟨some ENOMEM, own, false⟩
  else
    hypAssignTableWith table nentsAssigned ((dest.map Prod.fst).take newSourceNelems)
      [(vmidHlos, 7)] env own giveUp

def rollback (table : List Nat) (src : List Vmid) (dest : Owners) (kmallocArray : Bool)
    (env : TableEnv) (batchStart : Nat) (e : Errno) (own : Nat → Owners) : Result :=
  if batchStart = 0 then ⟨some e, own, false⟩
  else if src.length > 1 ∨ src.head? ≠ some vmidHlos then ⟨some EADDRNOTAVAIL, own, false⟩
  else
    let r := rollbackBatchedAssign table (batchStart - 1) dest kmallocArray env own
    ⟨if r.ret.isSome then some EADDRNOTAVAIL else some e, r.own, r.divByZero⟩

/- `needs` is the answer of `gh_rm_needs_hyp_assign`; `env` and `env'` are for the two invocations. -/
def hypAssignTable (table : List Nat) (src : List Vmid) (dest : Owners) (needs kmallocArray : Bool)
    (env env' : TableEnv) (own : Nat → Owners) : Result :=
  if needs = false then ⟨none, own, false⟩
  else hypAssignTableWith table table.length src dest env own
    (rollback table src dest kmallocArray env')

end MsmKernel.SecureBuffer
