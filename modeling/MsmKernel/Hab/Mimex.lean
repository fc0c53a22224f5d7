import Mathlib.Data.Fintype.Defs
import Mathlib.Logic.Function.Basic
import MsmKernel.Hab.Grant
import MsmKernel.Lib.Run

/-! Import and revocation of exported memory in hab_mimex.c and hab_msg.c, under the protocol in which
the importer asks for the export descriptor (mem_proto 1). One pchan joins the two VMs by a FIFO
channel each way; a vchan has an end in a context of either VM. -/
namespace MsmKernel.Hab.Mimex

def EAGAIN : Errno := 11
def EBUSY : Errno := 16
def ENODEV : Errno := 19

inductive ExportState where
  | exporting | success
  deriving DecidableEq

inductive ExpDescState where
  | init | importing | imported
  deriving DecidableEq

variable {V E C T : Type*}

/- An export of the exporting VM. `reclaim` is set once it is in the driver's reclaim list instead of
the list of its context. -/
structure Export (V : Type*) where
  vchan : V
  payloadCount : Nat
  expState : ExportState
  remoteImported : Bool
  reclaim : Bool
  deriving DecidableEq

structure ExpDesc where
  exportId : Nat
  payloadCount : Nat
  importState : ExpDescState
  deriving DecidableEq

structure ImportAck (V : Type*) where
  exportId : Nat
  vchan : V
  impWhseAdded : Bool
  age : Nat
  deriving DecidableEq

inductive ToExporter (V : Type*) where
  | importReq (vchan : V) (exportId pageCnt : Nat)
  | unimport (vchan : V) (exportId : Nat)
  deriving DecidableEq

inductive ToImporter (V : Type*) where
  | importAck (vchan : V) (exportId payloadCount : Nat)
  | importAckFail (vchan : V) (exportId : Nat)
  | close (vchan : V)
  deriving DecidableEq

/- A vchan of the exporting VM: closing it comes before its memory is freed. -/
inductive VchanState where
  | alive | stopped | freed
  deriving DecidableEq

/- The points of `hab_mem_import` and `hab_mem_unimport` between two accesses to what they share. -/
inductive Thread (V : Type*) where
  | idle (ret : Errno)
  | awaitAck (vchan : V) (exportId sizebytes : Nat)
  | acked (vchan : V) (exportId sizebytes : Nat)
  | importing (vchan : V) (exportId sizebytes : Nat)
  | undoing (vchan : V) (exportId : Nat) (ret : Errno)
  | removing (vchan : V) (exportId : Nat) (ret : Errno)
  | unmapping (vchan : V) (exportId : Nat)
  | notifying (vchan : V) (exportId : Nat) (ret : Errno)
  deriving DecidableEq

/- The contexts at the two ends of a vchan, and which contexts of the importing VM belong to the
kernel. -/
structure Link (V E C : Type*) where
  expCtx : V → E
  impCtx : V → C
  kernel : C → Bool

/- `unexported` are the exports whose `hab_mem_unexport` has returned 0, `refused` the kernel dma-bufs
that were still in use when they were to be unmapped. -/
structure World (V C T : Type*) where
  exports : Nat → Option (Export V)
  nextId : Nat
  vchans : V → VchanState
  unexported : List Nat
  toExporter : List (ToExporter V)
  toImporter : List (ToImporter V)
  otherendClosed : V → Bool
  impWhse : C → List ExpDesc
  impRxq : C → List (ImportAck V)
  refused : List (C × Nat)
  threads : T → Thread V

def World.initial : World V C T where
  exports _ := none
  nextId := 1
  vchans _ := .alive
  unexported := []
  toExporter := []
  toImporter := []
  otherendClosed _ := false
  impWhse _ := []
  impRxq _ := []
  refused := []
  threads _ := .idle 0

def qAgeThreshold : Nat := 1000000

/- `hab_import_ack_find`: the acknowledgements that it passes on the way grow older. -/
def habImportAckFind [DecidableEq V] (exportId : Nat) (vchan : V) :
    List (ImportAck V) → Option Bool × List (ImportAck V)
  | [] => (none, [])
  | ack :: queue =>
    if ack.exportId = exportId ∧ ack.vchan = vchan then (some ack.impWhseAdded, queue)
    else
      let (found, rest) := habImportAckFind exportId vchan queue
      (found, if qAgeThreshold < ack.age + 1 then rest else { ack with age := ack.age + 1 } :: rest)

def habRbExpFind (exportId : Nat) (whse : List ExpDesc) : Option ExpDesc :=
  whse.find? fun d => d.exportId = exportId

def habRbRemove (exportId : Nat) (whse : List ExpDesc) : List ExpDesc :=
  whse.eraseP fun d => d.exportId = exportId

def setImportState (exportId : Nat) (importState : ExpDescState) (whse : List ExpDesc) :
    List ExpDesc :=
  whse.map fun d => if d.exportId = exportId then { d with importState } else d

structure AckEnv where
  ackRecvd : Bool
  invalidAck : Bool

inductive Event (V T : Type*) where
  | grant (vchan : V) (payloadCount : Nat)
  | exported (exportId : Nat)
  | memUnexport (vchan : V) (exportId : Nat) (revoke : Bool)
  | vchanStop (vchan : V)
  | vchanFree (vchan : V)
  | ctxFree (exportId : Nat)
  | reclaimCleanup (exportId : Nat)
  | recvExporter
  | recvImporter (env : AckEnv)
  | memImport (t : T) (vchan : V) (exportId sizebytes : Nat)
  | ackLook (t : T)
  | ackGiveUp (t : T)
  | lookup (t : T)
  | map (t : T) (mapped : Bool)
  | undoSend (t : T)
  | undoRemove (t : T)
  | memUnimport (t : T) (vchan : V) (exportId : Nat)
  | unmap (t : T) (inUse : Bool)
  | notify (t : T)

open Function (update)

variable [DecidableEq V] [DecidableEq C] [DecidableEq T]

section
variable (w : World V C T)

def World.setThread (t : T) (th : Thread V) : World V C T :=
  { w with threads := update w.threads t th }

def World.setWhse (c : C) (whse : List ExpDesc) : World V C T :=
  { w with impWhse := update w.impWhse c whse }

def World.pushAck (c : C) (ack : ImportAck V) : World V C T :=
  { w with impRxq := update w.impRxq c (w.impRxq c ++ [ack]) }

def World.setExport (exportId : Nat) (exp : Option (Export V)) : World V C T :=
  { w with exports := update w.exports exportId exp }

def World.sendExporter (m : ToExporter V) : World V C T :=
  { w with toExporter := w.toExporter ++ [m] }

def World.sendImporter (m : ToImporter V) : World V C T :=
  { w with toImporter := w.toImporter ++ [m] }

def habRecvImpReq (vchan : V) (exportId pageCnt : Nat) : World V C T :=
  match w.exports exportId with
  | none => w.sendImporter (.importAckFail vchan exportId)
  | some exp =>
    if pageCnt = exp.payloadCount ∧ vchan = exp.vchan ∧ exp.expState = .success then
      (w.setExport exportId (some { exp with remoteImported := true })).sendImporter
        (.importAck vchan exportId exp.payloadCount)
    else w.sendImporter (.importAckFail vchan exportId)

def habRecvUnimportMsg (exportId : Nat) : World V C T :=
  match w.exports exportId with
  | none => w
  | some exp => w.setExport exportId (some { exp with remoteImported := false })

/- `hab_msg_recv` on the exporting VM, with the checks of `hab_try_get_vchan`. -/
def recvExporter : ToExporter V → World V C T
  | .importReq vchan exportId pageCnt =>
    match w.vchans vchan with
    | .alive => habRecvImpReq w vchan exportId pageCnt
    | .stopped | .freed => w
  | .unimport vchan exportId =>
    match w.vchans vchan with
    | .alive | .freed => habRecvUnimportMsg w exportId
    | .stopped => w

/- `hab_receive_export_desc` behind its checks of what the other VM has sent. -/
def habReceiveExportDesc (c : C) (vchan : V) (exportId payloadCount : Nat)
    (env : AckEnv) : World V C T :=
  if env.ackRecvd then
    if (habRbExpFind exportId (w.impWhse c)).isSome then
      w.pushAck c ⟨exportId, vchan, false, 0⟩
    else
      (w.setWhse c (w.impWhse c ++ [⟨exportId, payloadCount, .init⟩])).pushAck c
        ⟨exportId, vchan, true, 0⟩
  else
    (if env.invalidAck then w.pushAck c ⟨exportId, vchan, false, 0⟩ else w).sendExporter
      (.unimport vchan exportId)

end

def recvImporter (link : Link V E C) (w : World V C T) (env : AckEnv) : ToImporter V → World V C T
  | .importAck vchan exportId payloadCount =>
    if w.otherendClosed vchan then w
    else habReceiveExportDesc w (link.impCtx vchan) vchan exportId payloadCount env
  | .importAckFail vchan exportId =>
    if w.otherendClosed vchan ∨ env.ackRecvd = false then w
    else w.pushAck (link.impCtx vchan) ⟨exportId, vchan, false, 0⟩
  | .close vchan => { w with otherendClosed := update w.otherendClosed vchan true }

def pageSize : Nat := 4096

def habMemImport (w : World V C T) (t : T) (vchan : V) (exportId sizebytes : Nat) : World V C T :=
  if sizebytes % pageSize ≠ 0 then w.setThread t (.idle EINVAL)
  else if w.otherendClosed vchan then w.setThread t (.idle ENODEV)
  else (w.sendExporter (.importReq vchan exportId (sizebytes >>> pageShift))).setThread t
    (.awaitAck vchan exportId sizebytes)

section
variable (link : Link V E C) (w : World V C T) (t : T)

section
variable (vchan : V) (exportId sizebytes : Nat)

/- The condition of `hab_import_ack_wait`, and `hab_mem_import` behind it. -/
def importAckLook : World V C T :=
  let (found, queue) := habImportAckFind exportId vchan (w.impRxq (link.impCtx vchan))
  let w := { w with impRxq := update w.impRxq (link.impCtx vchan) queue }
  if w.otherendClosed vchan then w.setThread t (.idle ENODEV)
  else
    match found with
    | none => w
    | some false => w.setThread t (.idle EINVAL)
    | some true => w.setThread t (.acked vchan exportId sizebytes)

def importLookup : World V C T :=
  let c := link.impCtx vchan
  match habRbExpFind exportId (w.impWhse c) with
  | none => w.setThread t (.idle ENODEV)
  | some desc =>
    if desc.importState = .imported ∨ desc.importState = .importing then
      w.setThread t (.idle EINVAL)
    else
      (w.setWhse c (setImportState exportId .importing (w.impWhse c))).setThread t
        (.importing vchan exportId sizebytes)

/- A size that does not match fails before anything is mapped. -/
def importMap (mapped : Bool) : World V C T :=
  let c := link.impCtx vchan
  let matched := (habRbExpFind exportId (w.impWhse c)).any fun d =>
    d.payloadCount <<< pageShift = sizebytes
  if matched ∧ mapped then
    (w.setWhse c (setImportState exportId .imported (w.impWhse c))).setThread t (.idle 0)
  else
    (w.setWhse c (setImportState exportId .init (w.impWhse c))).setThread t
      (.undoing vchan exportId EINVAL)

end

def habMemUnimport (vchan : V) (exportId : Nat) :
    World V C T :=
  let c := link.impCtx vchan
  match habRbExpFind exportId (w.impWhse c) with
  | none => w.setThread t (.idle EINVAL)
  | some desc =>
    if desc.importState = .imported then
      (w.setWhse c (habRbRemove exportId (w.impWhse c))).setThread t (.unmapping vchan exportId)
    else w.setThread t (.idle EINVAL)

/- `habmm_imp_hyp_unmap`: only a kernel dma-buf is put, and not while somebody else uses it. -/
def impHypUnmap (vchan : V) (exportId : Nat) (inUse : Bool) : World V C T :=
  let c := link.impCtx vchan
  if link.kernel c ∧ inUse then
    { w with refused := w.refused ++ [(c, exportId)] }.setThread t (.notifying vchan exportId EBUSY)
  else w.setThread t (.notifying vchan exportId 0)

end

section Exporter
variable [DecidableEq E]

def habMemUnexport (link : Link V E C) (w : World V C T) (vchan : V) (exportId : Nat)
    (revoke : Bool) : World V C T :=
  match w.exports exportId with
  | none => w
  | some exp =>
    if exp.expState = .success ∧ link.expCtx exp.vchan = link.expCtx vchan ∧
        exp.remoteImported = false then
      { w.setExport exportId none with
        unexported := if revoke then exportId :: w.unexported else w.unexported }
    else w

/- What `hab_ctx_free_fn` does with one export, once all vchans of its context are gone. -/
def ctxFreeExport [Fintype V] (link : Link V E C) (w : World V C T) (exportId : Nat) :
    Option (World V C T) :=
  (w.exports exportId).bind fun exp =>
    if exp.expState = .success ∧ exp.reclaim = false ∧
        ∀ v, link.expCtx v = link.expCtx exp.vchan → w.vchans v = .freed then
      some (w.setExport exportId
        (if exp.remoteImported then some { exp with reclaim := true } else none))
    else none

def step [Fintype V] (link : Link V E C) (w : World V C T) : Event V T → Option (World V C T)
  | .grant vchan payloadCount =>
    if w.vchans vchan = .alive then
      some { w.setExport w.nextId (some ⟨vchan, payloadCount, .exporting, false, false⟩) with
        nextId := w.nextId + 1 }
    else none
  | .exported exportId =>
    (w.exports exportId).map fun exp =>
      w.setExport exportId (some { exp with expState := .success })
  | .memUnexport vchan exportId revoke =>
    if w.vchans vchan = .alive then some (habMemUnexport link w vchan exportId revoke) else none
  | .vchanStop vchan =>
    if w.vchans vchan = .alive then
      some ({ w with vchans := update w.vchans vchan .stopped }.sendImporter (.close vchan))
    else none
  | .vchanFree vchan =>
    if w.vchans vchan = .stopped then some { w with vchans := update w.vchans vchan .freed } else none
  | .ctxFree exportId => ctxFreeExport link w exportId
  | .reclaimCleanup exportId =>
    (w.exports exportId).bind fun exp =>
      if exp.reclaim ∧ exp.remoteImported = false then some (w.setExport exportId none) else none
  | .recvExporter =>
    match w.toExporter with
    | [] => none
    | m :: rest => some (recvExporter { w with toExporter := rest } m)
  | .recvImporter env =>
    match w.toImporter with
    | [] => none
    | m :: rest => some (recvImporter link { w with toImporter := rest } env m)
  | .memImport t vchan exportId sizebytes =>
    match w.threads t with
    | .idle _ => some (habMemImport w t vchan exportId sizebytes)
    | _ => none
  | .ackLook t =>
    match w.threads t with
    | .awaitAck vchan exportId sizebytes => some (importAckLook link w t vchan exportId sizebytes)
    | _ => none
  | .ackGiveUp t =>
    match w.threads t with
    | .awaitAck _ _ _ => some (w.setThread t (.idle EAGAIN))
    | _ => none
  | .lookup t =>
    match w.threads t with
    | .acked vchan exportId sizebytes => some (importLookup link w t vchan exportId sizebytes)
    | _ => none
  | .map t mapped =>
    match w.threads t with
    | .importing vchan exportId sizebytes =>
      some (importMap link w t vchan exportId sizebytes mapped)
    | _ => none
  | .undoSend t =>
    match w.threads t with
    | .undoing vchan exportId ret =>
      some ((w.sendExporter (.unimport vchan exportId)).setThread t (.removing vchan exportId ret))
    | _ => none
  | .undoRemove t =>
    match w.threads t with
    | .removing vchan exportId ret =>
      let c := link.impCtx vchan
      some ((w.setWhse c (habRbRemove exportId (w.impWhse c))).setThread t (.idle ret))
    | _ => none
  | .memUnimport t vchan exportId =>
    match w.threads t with
    | .idle _ => some (habMemUnimport link w t vchan exportId)
    | _ => none
  | .unmap t inUse =>
    match w.threads t with
    | .unmapping vchan exportId => some (impHypUnmap link w t vchan exportId inUse)
    | _ => none
  | .notify t =>
    match w.threads t with
    | .notifying vchan exportId ret =>
      some ((w.sendExporter (.unimport vchan exportId)).setThread t (.idle ret))
    | _ => none

end Exporter

end MsmKernel.Hab.Mimex
