import MsmKernel.Lib.XArray
import MsmKernel.MemBuf.Hypervisor

/-! Lending dma-bufs to other VMs: the permission record of a buffer, the index of memparcel
handles, and the steps of lend, share, reclaim, pin, close and the release notifications. -/
namespace MsmKernel.MemBuf

def EBUSY : Errno := 16

def permRead : UInt32 := 0x4
def permWrite : UInt32 := 0x2
def permExec : UInt32 := 0x1

abbrev Acl := List (Vmid × UInt32)

/- Who holds the references of a buffer, and what was last told to the hypervisor: not data of the
code, but what the properties are about. `opened` is the reference of the dma-buf itself, `lookups`
those of notifiers; `pinRead` and `pinWrite` are the permissions seen by a pin since the buffer
was last unpinned. -/
structure Watch where
  opened : Bool
  lookups : Nat
  errMarks : Nat
  reclaims : Nat
  given : Acl
  lastFailed : Bool
  pinRead : Bool
  pinWrite : Bool

structure Vmperm where
  staticVm : Bool
  lendshare : Bool
  accept : Bool
  err : Bool
  zombie : Bool
  currentVmPerms : UInt32
  mapcount : UInt32
  acl : Acl
  maxAclEntries : Nat
  memparcelHdl : UInt32
  dtor : Bool
  kref : Nat
  watch : Watch

section Code
variable (currentVmid : Vmid)

/- The loop leaves the permissions of the last entry that names the current VM. -/
def currentPerms (acl : Acl) : UInt32 :=
  acl.foldl (fun p e => if e.1 = currentVmid then e.2 else p) 0

def memBufVmpermUpdateState (acl : Acl) (v : Vmperm) : Vmperm :=
  { v with acl, currentVmPerms := currentPerms currentVmid acl }

def memBufVmpermResize (newSize : Nat) (kcalloc : Bool) (v : Vmperm) : Option Vmperm :=
  if v.maxAclEntries ≥ newSize then some v
  else if kcalloc then some { v with maxAclEntries := newSize }
  else none

def memBufVmpermSetErr (v : Vmperm) : Vmperm :=
  { v with
    kref := v.kref + 1
    err := true
    watch := { v.watch with errMarks := v.watch.errMarks + 1 } }

inductive AllocKind where
  | plain
  | staticvm (acl : Acl)
  | accept (acl : Acl) (hdl : UInt32)

def AllocKind.acl : AllocKind → Acl
  | .plain => [(currentVmid, permRead ||| permWrite ||| permExec)]
  | .staticvm acl => acl
  | .accept acl _ => acl

def AllocKind.hdl : AllocKind → UInt32
  | .accept _ hdl => hdl
  | _ => memBufMemparcelInvalid

def AllocKind.staticFlag : AllocKind → Bool
  | .staticvm _ => true
  | _ => false

def AllocKind.acceptFlag : AllocKind → Bool
  | .accept _ _ => true
  | _ => false

def memBufVmpermAllocFlags (kind : AllocKind) : Vmperm where
  staticVm := kind.staticFlag
  lendshare := false
  accept := kind.acceptFlag
  err := false
  zombie := false
  currentVmPerms := currentPerms currentVmid (kind.acl currentVmid)
  mapcount := 0
  acl := kind.acl currentVmid
  maxAclEntries := (kind.acl currentVmid).length
  memparcelHdl := kind.hdl
  dtor := false
  kref := if kind.hdl ≠ memBufMemparcelInvalid then 2 else 1
  watch := ⟨true, 0, 0, 0, kind.acl currentVmid, false, false, false⟩

def memBufVmpermReclaim (unassign : Option Errno) (v : Vmperm) (xa : XArray Nat) :
    Option Errno × Vmperm × XArray Nat :=
  match unassign with
  | some e => (some e, { v with watch := { v.watch with lastFailed := true } }, xa)
  | none =>
    let acl := [(currentVmid, permRead ||| permWrite ||| permExec)]
    (none,
      { memBufVmpermUpdateState currentVmid acl v with
        lendshare := false
        memparcelHdl := memBufMemparcelInvalid
        kref := v.kref - 1
        watch := { v.watch with
          reclaims := v.watch.reclaims + 1
          given := acl
          lastFailed := false } },
      xa.erase v.memparcelHdl.toNat)

def memBufVmpermRelinquish (unmap : Option Errno) (v : Vmperm) (xa : XArray Nat) :
    Option Errno × Vmperm × XArray Nat :=
  match unmap with
  | some e => (some e, v, xa)
  | none =>
    (none,
      { v with
        memparcelHdl := memBufMemparcelInvalid
        accept := false
        kref := v.kref - 1 },
      xa.erase v.memparcelHdl.toNat)

structure ReclaimEnv where
  dtor : Option Errno
  unassign : Option Errno
  unmap : Option Errno

def memBufVmpermTryReclaim (fromNotifier : Bool) (env : ReclaimEnv) (v : Vmperm)
    (xa : XArray Nat) : Option Errno × Vmperm × XArray Nat :=
  if fromNotifier && !v.zombie then (none, v, xa)
  else
    let ret := if v.dtor then env.dtor else none
    let v := { v with dtor := false }
    let r :=
      if v.lendshare then memBufVmpermReclaim currentVmid env.unassign v xa
      else if v.accept then memBufVmpermRelinquish env.unmap v xa
      else (ret, v, xa)
    (r.1, if r.1.isSome then { r.2.1 with zombie := true } else r.2.1, r.2.2)

def memBufVmpermPin (v : Vmperm) : Vmperm :=
  let mapcount := v.mapcount + 1
  { v with
    mapcount
    watch := { v.watch with
      pinRead := mapcount != 0 && (v.watch.pinRead || v.currentVmPerms &&& permRead != 0)
      pinWrite := mapcount != 0 && (v.watch.pinWrite || v.currentVmPerms &&& permWrite != 0) } }

def memBufVmpermUnpin (v : Vmperm) : Vmperm :=
  if v.mapcount = 0 then v
  else
    let mapcount := v.mapcount - 1
    { v with
      mapcount
      watch := { v.watch with
        pinRead := mapcount != 0 && v.watch.pinRead
        pinWrite := mapcount != 0 && v.watch.pinWrite } }

def names (arg : Acl) : Bool := arg.any fun e => e.1 = currentVmid

def validateLendVmids (arg : Acl) (op : UInt32) : Bool :=
  if names currentVmid arg && op == ghRmTransTypeLend then false
  else !(!names currentVmid arg && op == ghRmTransTypeShare)

def permits (arg : Acl) : Bool := arg.any fun e =>
  e.1 = currentVmid && e.2 &&& (permRead ||| permWrite) == (permRead ||| permWrite)

def validateLendMapcount (v : Vmperm) (arg : Acl) : Bool :=
  v.mapcount == 0 || permits currentVmid arg

structure LendEnv where
  kcalloc : Bool
  assign : Except Errno UInt32

def memBufLendLocked (op : UInt32) (arg : Acl) (env : LendEnv) (v : Vmperm) :
    Except Errno UInt32 × Vmperm :=
  if arg = [] then (.error EINVAL, v)
  else if validateLendVmids currentVmid arg op = false then (.error EINVAL, v)
  else if v.err then (.error EINVAL, v)
  else if v.staticVm then (.error EINVAL, v)
  else if v.lendshare then (.error EINVAL, v)
  else if v.accept then (.error EINVAL, v)
  else if validateLendMapcount currentVmid v arg = false then (.error EINVAL, v)
  else
    match memBufVmpermResize arg.length env.kcalloc v with
    | none => (.error ENOMEM, v)
    | some v =>
      match env.assign with
      | .error e =>
        let v := { v with watch := { v.watch with lastFailed := true } }
        (.error e, if e = EADDRNOTAVAIL then memBufVmpermSetErr v else v)
      | .ok hdl =>
        (.ok hdl,
          { memBufVmpermUpdateState currentVmid arg v with
            lendshare := true
            memparcelHdl := hdl
            kref := v.kref + 1
            watch := { v.watch with given := arg, lastFailed := false } })

/- The list that `mem_buf_share` passes on: the current VM is added if it is not there. -/
def shareArg (arg : Acl) : Acl :=
  if names currentVmid arg then arg
  else arg ++ [(currentVmid, permRead ||| permWrite ||| permExec)]

end Code

/- A lend that has left its locked section, with its handle; `epoch` counts the reclaims that the
buffer had seen by then. -/
structure Lend where
  buf : Nat
  hdl : UInt32
  epoch : Nat
deriving DecidableEq

structure Bufs where
  vmperms : List Vmperm
  vmpermXa : XArray Nat
  lends : List Lend
  returned : List Lend

inductive BufEvent where
  | alloc (kind : AllocKind) (insert : Option Errno)
  | lend (i : Nat) (arg : Acl) (env : LendEnv)
  | share (i : Nat) (arg : Acl) (kmalloc : Bool) (env : LendEnv)
  | register (l : Lend) (insert : Option Errno) (env : ReclaimEnv)
  | reclaim (i : Nat) (unassign : Option Errno)
  | pin (i : Nat)
  | unpin (i : Nat)
  | setDestructor (i : Nat)
  | close (i : Nat) (env : ReclaimEnv)
  | closePut (i : Nat)
  | notify (hdl : UInt32)
  | notifierReclaim (i : Nat) (env : ReclaimEnv)
  | notifierPut (i : Nat)

def xaInsert (xa : XArray Nat) (hdl : UInt32) (i : Nat) (fail : Option Errno) :
    Except Errno (XArray Nat) :=
  match fail with
  | some e => .error e
  | none => if (xa.load hdl.toNat).isSome then .error EBUSY else .ok (xa.store hdl.toNat i)

namespace Bufs

def put (s : Bufs) (i : Nat) (v : Vmperm) : Bufs := { s with vmperms := s.vmperms.set i v }

def opened (s : Bufs) (i : Nat) : Option Vmperm := s.vmperms[i]?.filter (·.watch.opened)

section
variable (currentVmid : Vmid) (s : Bufs)

def memBufVmpermAlloc (kind : AllocKind) (insert : Option Errno) :
    Bufs :=
  let v := memBufVmpermAllocFlags currentVmid kind
  if kind.hdl ≠ memBufMemparcelInvalid then
    match xaInsert s.vmpermXa kind.hdl s.vmperms.length insert with
    | .error _ => s
    | .ok xa => { s with vmperms := s.vmperms ++ [v], vmpermXa := xa }
  else { s with vmperms := s.vmperms ++ [v] }

def memBufLendInternal (i : Nat) (v : Vmperm) (op : UInt32) (arg : Acl) (env : LendEnv) : Bufs :=
  match memBufLendLocked currentVmid op arg env v with
  | (.error _, v) => s.put i v
  | (.ok hdl, v) => { s.put i v with lends := ⟨i, hdl, v.watch.reclaims⟩ :: s.lends }

/- `mem_buf_lend_internal` after the unlock: the handle is read again from the record. -/
def registerHandle (l : Lend) (v : Vmperm) (insert : Option Errno) (env : ReclaimEnv) : Bufs :=
  let s := { s with lends := s.lends.erase l }
  if v.memparcelHdl ≠ memBufMemparcelInvalid then
    match xaInsert s.vmpermXa v.memparcelHdl l.buf insert with
    | .ok xa => { s with vmpermXa := xa, returned := l :: s.returned }
    | .error _ =>
      let r := memBufVmpermTryReclaim currentVmid false env v s.vmpermXa
      { s.put l.buf r.2.1 with vmpermXa := r.2.2 }
  else { s with returned := l :: s.returned }

def memBufReclaim (i : Nat) (v : Vmperm) (unassign : Option Errno) : Bufs :=
  if v.staticVm then s
  else if v.lendshare = false then s
  else if v.accept then s
  else
    let r := memBufVmpermReclaim currentVmid unassign v s.vmpermXa
    { s.put i r.2.1 with vmpermXa := r.2.2 }

def tryReclaim (i : Nat) (v : Vmperm) (fromNotifier : Bool) (env : ReclaimEnv) : Bufs :=
  let r := memBufVmpermTryReclaim currentVmid fromNotifier env v s.vmpermXa
  { s.put i r.2.1 with vmpermXa := r.2.2 }

end

def vmpermLookup (s : Bufs) (hdl : UInt32) : Bufs :=
  match s.vmpermXa.load hdl.toNat with
  | none => s
  | some i =>
    match s.vmperms[i]? with
    | none => s
    | some v =>
      if v.kref = 0 then s
      else s.put i { v with
        kref := v.kref + 1
        watch := { v.watch with lookups := v.watch.lookups + 1 } }

def step (currentVmid : Vmid) (s : Bufs) : BufEvent → Option Bufs
  | .alloc kind insert => some (s.memBufVmpermAlloc currentVmid kind insert)
  | .lend i arg env => (s.opened i).map fun v =>
      s.memBufLendInternal currentVmid i v ghRmTransTypeLend arg env
  | .share i arg kmalloc env => (s.opened i).map fun v =>
      if names currentVmid arg || kmalloc then
        s.memBufLendInternal currentVmid i v ghRmTransTypeShare (shareArg currentVmid arg) env
      else s
  | .register l insert env =>
    if l ∈ s.lends then s.vmperms[l.buf]?.map fun v => s.registerHandle currentVmid l v insert env
    else none
  | .reclaim i unassign => (s.opened i).map fun v => s.memBufReclaim currentVmid i v unassign
  | .pin i => (s.opened i).map fun v => s.put i (memBufVmpermPin v)
  | .unpin i => (s.opened i).map fun v => s.put i (memBufVmpermUnpin v)
  | .setDestructor i => (s.opened i).map fun v => s.put i { v with dtor := true }
  | .close i env => (s.opened i).map fun v => s.tryReclaim currentVmid i v false env
  | .closePut i => (s.opened i).map fun v =>
      s.put i { v with kref := v.kref - 1, watch := { v.watch with opened := false } }
  | .notify hdl => some (s.vmpermLookup hdl)
  | .notifierReclaim i env => (s.vmperms[i]?.filter (0 < ·.watch.lookups)).map fun v =>
      s.tryReclaim currentVmid i v true env
  | .notifierPut i => (s.vmperms[i]?.filter (0 < ·.watch.lookups)).map fun v =>
      s.put i { v with
        kref := v.kref - 1
        watch := { v.watch with lookups := v.watch.lookups - 1 } }

def empty : Bufs := ⟨[], .empty, [], []⟩

end Bufs

end MsmKernel.MemBuf
