import MsmKernel.MemBuf.Assignment

/-! The supplier side of mem-buf: memory allocated for other VMs on request, the list of the
transfers that are out, and the ways their pages come back to the local allocator. -/
namespace MsmKernel.MemBuf
open Run
variable {Page : Type} [DecidableEq Page]

def ENOSPC : Errno := 28

def memBufDmaheapMemType : UInt32 := 1
def memBufBuddyMemType : UInt32 := 2

structure XferMem (Page : Type) where
  size : Nat
  memType : UInt32
  memSgt : List Page
  secureAlloc : Bool
  transType : UInt32
  hdl : UInt32
  nrAclEntries : Nat
  dstVmids : List Vmid
  dstPerms : List Nat
  objId : UInt32
deriving DecidableEq

structure Supplier (Page : Type) where
  hyp : Hyp Page
  free : Page → Bool
  list : List (XferMem Page)
  objIds : List UInt32

structure AllocReq where
  size : Nat
  srcMemType : UInt32
  xferType : UInt32
  acl : List (Vmid × Nat)
  arbPayload : Bool

structure CleanupEnv where
  unassign : UnassignEnv
  kzalloc : Bool
  map : MapEnv

structure AllocEnv (Page : Type) where
  kzalloc : Bool
  objId : Except Errno UInt32
  vmidPermList : Bool
  typeData : Bool
  pages : Except Errno (List Page)
  assign : AssignEnv
  resp : Bool
  cleanup : CleanupEnv

def memBufAllocXferMemTypeData (type : UInt32) (kzalloc : Bool) : Except Errno Unit :=
  if type = memBufDmaheapMemType then if kzalloc then .ok () else .error ENOMEM
  else if type = memBufBuddyMemType then .ok ()
  else .error EINVAL

def memBufPrepXferMem (req : AllocReq) (env : AllocEnv Page) (s : Supplier Page) :
    Except Errno (XferMem Page) :=
  if req.acl.length ≠ 1 then .error EINVAL
  else if req.arbPayload = false then .error EINVAL
  else if env.kzalloc = false then .error ENOMEM
  else
    match env.objId with
    | .error e => .error e
    | .ok id =>
      -- the idr only gives ids that are not in use
      if id ∈ s.objIds then .error ENOSPC
      else if env.vmidPermList = false then .error ENOMEM
      else
        match memBufAllocXferMemTypeData req.srcMemType env.typeData with
        | .error e => .error e
        | .ok () =>
          .ok ⟨req.size, req.srcMemType, [], false, 0, 0, req.acl.length,
            req.acl.map Prod.fst, req.acl.map Prod.snd, id⟩

def memBufRmtAllocMem (x : XferMem Page) (pages : Except Errno (List Page)) (s : Supplier Page) :
    Except Errno (XferMem Page × Supplier Page) :=
  if x.memType = memBufDmaheapMemType ∨ x.memType = memBufBuddyMemType then
    match pages with
    | .error e => .error e
    | .ok ps =>
      if ps ≠ [] ∧ ps.Nodup ∧ ∀ g ∈ ps, s.free g = true then
        .ok ({ x with memSgt := ps, secureAlloc := false },
          { s with free := onPages ps false s.free })
      else .error ENOMEM
  else .error EINVAL

def memBufRmtFreeMem (x : XferMem Page) (s : Supplier Page) : Supplier Page :=
  if x.memType = memBufDmaheapMemType ∨ x.memType = memBufBuddyMemType then
    { s with free := onPages x.memSgt true s.free }
  else s

def memBufFreeXferMem (x : XferMem Page) (s : Supplier Page) : Supplier Page :=
  { s with objIds := s.objIds.erase x.objId }

def memBufProcessAllocReq (req : AllocReq) (env : AllocEnv Page) (s : Supplier Page) :
    Except Errno (XferMem Page) × Supplier Page :=
  match memBufPrepXferMem req env s with
  | .error e => (.error e, s)
  | .ok x =>
    let s := { s with objIds := x.objId :: s.objIds }
    match memBufRmtAllocMem x env.pages s with
    | .error e => (.error e, memBufFreeXferMem x s)
    | .ok (x, s) =>
      if x.secureAlloc = false then
        match memBufAssignMem req.xferType x.memSgt (x.dstVmids.zip x.dstPerms) env.assign
            s.hyp with
        | (.error e, hyp) =>
          let s := { s with hyp }
          let s := if e ≠ EADDRNOTAVAIL then memBufRmtFreeMem x s else s
          (.error e, memBufFreeXferMem x s)
        | (.ok hdl, hyp) =>
          let x := { x with hdl, transType := req.xferType }
          (.ok x, { s with hyp, list := x :: s.list })
      else (.ok x, { s with list := x :: s.list })

def freeOnSuccess {α : Type} (x : XferMem Page) (s : Supplier Page) :
    Except Errno α × Hyp Page → Supplier Page
  | (.error _, hyp) => { s with hyp }
  | (.ok _, hyp) => memBufFreeXferMem x (memBufRmtFreeMem x { s with hyp })

/- The pages of an accepted parcel are not compared with those of the transfer. -/
def memBufCleanupAllocReq (x : XferMem Page) (memparcelHdl : UInt32) (env : CleanupEnv)
    (s : Supplier Page) : Supplier Page :=
  if x.secureAlloc = false then
    if memparcelHdl = x.hdl then
      freeOnSuccess x s (memBufUnassignMem x.memSgt x.dstVmids x.hdl env.unassign s.hyp)
    else if env.kzalloc = false then s
    else freeOnSuccess x s (memBufMapMemS2 memparcelHdl vmidTvm env.map s.hyp)
  else memBufFreeXferMem x (memBufRmtFreeMem x s)

def listDel (x : XferMem Page) (s : Supplier Page) : Supplier Page :=
  { s with list := s.list.erase x }

def memBufAllocReqWork (req : AllocReq) (env : AllocEnv Page) (s : Supplier Page) :
    Supplier Page :=
  match memBufProcessAllocReq req env s with
  | (.error _, s) => s
  | (.ok x, s) => if env.resp then s else memBufCleanupAllocReq x x.hdl env.cleanup (listDel x s)

/- The sender of the message is not looked at. -/
def memBufRelinquishWork (objId hdl : UInt32) (env : CleanupEnv) (s : Supplier Page) :
    Supplier Page :=
  match s.list.find? fun x => x.objId = objId with
  | none => s
  | some x => memBufCleanupAllocReq x hdl env (listDel x s)

section
variable (vmid : Vmid) (env : UInt32 → CleanupEnv) (s : Supplier Page)

def relinquishIfTo (x : XferMem Page) : Supplier Page :=
  if x.nrAclEntries = 1 ∧ x.dstVmids.head? = some vmid then
    memBufCleanupAllocReq x x.hdl (env x.objId) (listDel x s)
  else s

def memBufRelinquishAllMem :
    Supplier Page :=
  s.list.foldl (relinquishIfTo vmid env) s

end

inductive Event (Page : Type) where
  | allocReq (req : AllocReq) (env : AllocEnv Page)
  | relinquish (sender : Vmid) (objId hdl : UInt32) (env : CleanupEnv)
  | relinquishAll (vmid : Vmid) (env : UInt32 → CleanupEnv)
  | give (vm : Vmid) (op : UInt32) (acl : List (Vmid × Nat)) (pages : List Page) (hdl : UInt32)
  | accept (vm : Vmid) (op hdl : UInt32)
  | release (vm : Vmid) (hdl : UInt32)
  | reclaim (vm : Vmid) (hdl : UInt32)

def guest (s : Supplier Page) (vm : Vmid) (h : Option (Hyp Page)) : Option (Supplier Page) :=
  if vm = vmidHlos then none else some { s with hyp := h.getD s.hyp }

def step (s : Supplier Page) : Event Page → Option (Supplier Page)
  | .allocReq req env => some (memBufAllocReqWork req env s)
  | .relinquish _ objId hdl env => some (memBufRelinquishWork objId hdl env s)
  | .relinquishAll vmid env => some (memBufRelinquishAllMem vmid env s)
  | .give vm op acl pages hdl => guest s vm (s.hyp.give vm op acl pages hdl)
  | .accept vm op hdl => guest s vm ((s.hyp.accept vm op hdl).map Prod.snd)
  | .release vm hdl => guest s vm (some (s.hyp.release vm hdl))
  | .reclaim vm hdl => guest s vm (s.hyp.reclaim vm hdl)

end MsmKernel.MemBuf
