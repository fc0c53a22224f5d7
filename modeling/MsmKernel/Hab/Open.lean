import Mathlib.Logic.Function.Basic
import MsmKernel.Hab.Grant
import MsmKernel.Lib.Run

/-! The open handshake of hab.c and hab_open.c. Front ends of several guests and back ends of one host
use one device: each VM has one queue of open requests, and a pchan joins a guest to the host by a
FIFO channel each way. -/
namespace MsmKernel.Hab.Open

def EINTR : Errno := 4
def EAGAIN : Errno := 11
def EPROTO : Errno := 71
def ETIMEDOUT : Errno := 110

inductive PayloadType where
  | init | initAck | initDone | initCancel
  deriving DecidableEq

structure OpenSendData where
  vchanId : Nat
  subId : Nat
  openId : Nat
  verFe : Nat
  verBe : Nat
  deriving DecidableEq

structure Message where
  type : PayloadType
  xdata : OpenSendData
  deriving DecidableEq

variable {B P V : Type*}

structure OpenNode (P : Type*) where
  type : PayloadType
  pchan : P
  xdata : OpenSendData
  age : Nat
  deriving DecidableEq

/- The request that a caller waits for: without a pchan or with the open id 0 it leaves them open. -/
structure Listen (P : Type*) where
  type : PayloadType
  pchan : Option P
  subId : Nat
  openId : Nat

def major (ver : Nat) : Nat := ver &&& 0xFFFF0000

section Queue
variable [DecidableEq P]

def OpenNode.answers (listen : Listen P) (node : OpenNode P) : Bool :=
  (node.type = listen.type ∨ node.type = .initCancel) ∧ node.xdata.subId = listen.subId ∧
    (listen.openId = 0 ∨ node.xdata.openId = listen.openId) ∧
    (listen.pchan = none ∨ listen.pchan = some node.pchan)

/- The loop of `hab_open_request_find`: the entries that it passes on the way are dropped when they
have expired. -/
def habOpenRequestFind (listen : Listen P) (now : Nat) :
    List (OpenNode P) → Option (OpenNode P) × List (OpenNode P)
  | [] => (none, [])
  | node :: queue =>
    if node.answers listen then (some node, queue)
    else
      let (recv, rest) := habOpenRequestFind listen now queue
      (recv, if node.age < now then rest else node :: rest)

def openReqExpireTime : Nat := 36000

def habOpenRequestAdd (queue : List (OpenNode P)) (pchan : P) (m : Message) (now : Nat) :
    List (OpenNode P) :=
  queue ++ [⟨m.type, pchan, m.xdata, now + openReqExpireTime⟩]

def OpenNode.unserviced (data : OpenSendData) (node : OpenNode P) : Bool :=
  (node.type = .init ∨ node.type = .initAck) ∧ node.xdata.subId = data.subId ∧
    node.xdata.openId = data.openId ∧ node.xdata.vchanId = data.vchanId

def habOpenReceiveCancel (queue : List (OpenNode P)) (pchan : P) (data : OpenSendData) (now : Nat) :
    List (OpenNode P) :=
  if queue.any (OpenNode.unserviced data) then queue.eraseP (OpenNode.unserviced data)
  else queue ++ [⟨.initCancel, pchan, data, now + openReqExpireTime⟩]

def habMsgRecv (queue : List (OpenNode P)) (pchan : P) (m : Message) (now : Nat) :
    List (OpenNode P) :=
  match m.type with
  | .init | .initAck | .initDone => habOpenRequestAdd queue pchan m now
  | .initCancel => habOpenReceiveCancel queue pchan m.xdata now

inductive Wake where
  | look (now : Nat)
  | timeout
  | signal
  | pchanClosed

/- `none` stands for a caller that goes on waiting. `ctx->closing` is set nowhere. -/
def habOpenListen (listen : Listen P) (msTimeout : Int) (uninterruptible : Bool)
    (queue : List (OpenNode P)) :
    Wake → Option (Errno × Option (OpenNode P)) × List (OpenNode P)
  | .look now =>
    match habOpenRequestFind listen now queue with
    | (some node, queue) => (some (0, some node), queue)
    | (none, queue) => (none, queue)
  | .timeout => (if 0 < msTimeout then some (EAGAIN, none) else none, queue)
  | .signal => (if 0 < msTimeout ∨ uninterruptible = false then some (EINTR, none) else none, queue)
  | .pchanClosed => (if listen.pchan.isSome then some (0, none) else none, queue)

end Queue

/- The points of `frontend_open` between two accesses to what it shares: `cancelling` and `paired` come
before the message that the call sends next. -/
inductive FePhase (P : Type*) where
  | waiting
  | cancelling (ret : Errno)
  | paired (recv : OpenNode P)
  | opened (recv : OpenNode P)
  | failed (err : Errno)
  deriving DecidableEq

structure FeCall (P : Type*) where
  vchanId : Nat
  subId : Nat
  msTimeout : Int
  uninterruptible : Bool
  phase : FePhase P

def FePhase.listened : Errno × Option (OpenNode P) → FePhase P
  | (0, some recv) =>
    if major recv.xdata.verFe ≠ major recv.xdata.verBe then .failed EPROTO else .paired recv
  | (ret, _) => .cancelling ret

def cancelResult (ret : Errno) : Errno :=
  if ret = EAGAIN then ETIMEDOUT else if ret ≠ EINTR then EINVAL else ret

/- `verBe` is left unwritten by the front end and read by nobody. -/
def FeCall.send (ver : Nat) (openId : Nat) (call : FeCall P) : Option (FePhase P × Message) :=
  match call.phase with
  | .cancelling ret =>
    some (.failed (cancelResult ret), ⟨.initCancel, ⟨call.vchanId, call.subId, openId, ver, 0⟩⟩)
  | .paired recv => some (.opened recv, ⟨.initDone, ⟨0, call.subId, openId, ver, 0⟩⟩)
  | _ => none

def FeCall.listen (pchan : P) (openId : Nat) (call : FeCall P) : Listen P :=
  ⟨.initAck, some pchan, call.subId, openId⟩

structure Session (P : Type*) where
  pchan : P
  openId : Nat
  vchanId : Nat
  otherendId : Nat
  verFe : Nat
  deriving DecidableEq

inductive BePhase (P : Type*) where
  | waitInit
  | replying (s : Session P)
  | waitDone (s : Session P)
  | cancelling (s : Session P)
  | retrying (s : Session P)
  | returned (s : Session P)
  | failed (err : Errno)
  | oops
  deriving DecidableEq

structure BeCall (P : Type*) where
  subId : Nat
  msTimeout : Int
  uninterruptible : Bool
  phase : BePhase P

/- `backend_listen` after it has waited for INIT. A request of another major version is answered
through a null pchan. -/
def BePhase.initListened (ver vchanId : Nat) : Errno × Option (OpenNode P) → BePhase P
  | (0, some recv) =>
    if major recv.xdata.verFe ≠ major ver then .oops
    else .replying ⟨recv.pchan, recv.xdata.openId, vchanId, recv.xdata.vchanId, recv.xdata.verFe⟩
  | (0, none) => .failed EINVAL
  | (ret, _) => .failed (if ret = EAGAIN then ETIMEDOUT else ret)

/- `backend_listen` after it has waited for INIT_DONE: `ret` and the type of the request are tested
together for a cancelled session. -/
def BePhase.doneListened (s : Session P) : Errno × Option (OpenNode P) → BePhase P
  | (ret, recv) =>
    if ret ≠ 0 ∧ recv.map (·.type) = some .initCancel then .cancelling s
    else if ret ≠ EAGAIN then
      if ret ≠ 0 ∨ recv.isNone then .failed EINVAL else .returned s
    else .retrying s

def Session.message (type : PayloadType) (ver subId : Nat) (s : Session P) : Message :=
  ⟨type, ⟨s.vchanId, subId, s.openId, s.verFe, ver⟩⟩

def BeCall.send (ver : Nat) (call : BeCall P) : Option (BePhase P × P × Message) :=
  match call.phase with
  | .replying s => some (.waitDone s, s.pchan, s.message .initAck ver call.subId)
  | .retrying s => some (.waitInit, s.pchan, s.message .initCancel ver call.subId)
  | .cancelling s => some (.failed EINVAL, s.pchan, s.message .initCancel ver call.subId)
  | _ => none

def initListen (subId : Nat) : Listen P := ⟨.init, none, subId, 0⟩

def doneListen (subId : Nat) (s : Session P) : Listen P :=
  ⟨.initDone, some s.pchan, subId, s.openId⟩

def hsTimeout : Int := 10000000

variable [DecidableEq B] [DecidableEq P] [DecidableEq V]

def BeCall.wake (ver vchanId : Nat) (queue : List (OpenNode P)) (e : Wake) (call : BeCall P) :
    Option (BePhase P × List (OpenNode P)) :=
  match call.phase with
  | .waitInit =>
    let (result, queue) :=
      habOpenListen (initListen call.subId) call.msTimeout call.uninterruptible queue e
    some ((result.map (BePhase.initListened ver vchanId)).getD call.phase, queue)
  | .waitDone s =>
    let (result, queue) :=
      habOpenListen (doneListen call.subId s) hsTimeout call.uninterruptible queue e
    some ((result.map (BePhase.doneListened s)).getD call.phase, queue)
  | _ => none

def FeCall.wake (pchan : P) (openId : Nat) (queue : List (OpenNode P)) (e : Wake) (call : FeCall P) :
    Option (FePhase P × List (OpenNode P)) :=
  match call.phase with
  | .waiting =>
    let (result, queue) :=
      habOpenListen (call.listen pchan openId) call.msTimeout call.uninterruptible queue e
    some ((result.map FePhase.listened).getD call.phase, queue)
  | _ => none

/- The VM of the front ends behind each pchan, the VM of the back ends, and the version that each VM
runs. A loopback device has `home pchan = host`. -/
structure Device (P V : Type*) where
  home : P → V
  host : V
  apiVer : V → Nat

structure World (B P V : Type*) where
  openq : V → List (OpenNode P)
  toBe : P → List Message
  toFe : P → List Message
  openIdCounter : V → Nat
  fe : P × Nat → Option (FeCall P)
  be : B → Option (BeCall P)

def World.initial : World B P V :=
  ⟨fun _ => [], fun _ => [], fun _ => [], fun _ => 0, fun _ => none, fun _ => none⟩

/- The open ids of a VM come from one counter, which its other devices advance as well. -/
inductive Event (B P : Type*) where
  | frontendOpen (pchan : P) (openId vchanId subId : Nat) (msTimeout : Int) (uninterruptible : Bool)
  | feWake (pchan : P) (openId : Nat) (e : Wake)
  | feSend (pchan : P) (openId : Nat)
  | feRecv (pchan : P) (now : Nat)
  | backendListen (b : B) (subId : Nat) (msTimeout : Int) (uninterruptible : Bool)
  | beWake (b : B) (e : Wake) (vchanId : Nat)
  | beSend (b : B)
  | beRecv (pchan : P) (now : Nat)

open Function (update)

def step (dev : Device P V) (w : World B P V) : Event B P → Option (World B P V)
  | .frontendOpen pchan openId vchanId subId msTimeout uninterruptible =>
    let data : OpenSendData := ⟨vchanId, subId, openId, dev.apiVer (dev.home pchan), 0⟩
    if w.openIdCounter (dev.home pchan) < openId then
      some { w with
        openIdCounter := update w.openIdCounter (dev.home pchan) openId
        toBe := update w.toBe pchan (w.toBe pchan ++ [⟨.init, data⟩])
        fe := update w.fe (pchan, openId) (some ⟨vchanId, subId, msTimeout, uninterruptible, .waiting⟩) }
    else none
  | .feWake pchan openId e =>
    (w.fe (pchan, openId)).bind fun call =>
      (call.wake pchan openId (w.openq (dev.home pchan)) e).map fun (phase, queue) =>
        { w with
          openq := update w.openq (dev.home pchan) queue
          fe := update w.fe (pchan, openId) (some { call with phase }) }
  | .feSend pchan openId =>
    (w.fe (pchan, openId)).bind fun call =>
      (call.send (dev.apiVer (dev.home pchan)) openId).map fun (phase, m) =>
        { w with
          toBe := update w.toBe pchan (w.toBe pchan ++ [m])
          fe := update w.fe (pchan, openId) (some { call with phase }) }
  | .feRecv pchan now =>
    match w.toFe pchan with
    | [] => none
    | m :: rest =>
      some { w with
        toFe := update w.toFe pchan rest
        openq := update w.openq (dev.home pchan)
          (habMsgRecv (w.openq (dev.home pchan)) pchan m now) }
  | .backendListen b subId msTimeout uninterruptible =>
    if w.be b = none then
      some { w with be := update w.be b (some ⟨subId, msTimeout, uninterruptible, .waitInit⟩) }
    else none
  | .beWake b e vchanId =>
    (w.be b).bind fun call =>
      (call.wake (dev.apiVer dev.host) vchanId (w.openq dev.host) e).map fun (phase, queue) =>
        { w with
          openq := update w.openq dev.host queue
          be := update w.be b (some { call with phase }) }
  | .beSend b =>
    (w.be b).bind fun call =>
      (call.send (dev.apiVer dev.host)).map fun (phase, pchan, m) =>
        { w with
          toFe := update w.toFe pchan (w.toFe pchan ++ [m])
          be := update w.be b (some { call with phase }) }
  | .beRecv pchan now =>
    match w.toBe pchan with
    | [] => none
    | m :: rest =>
      some { w with
        toBe := update w.toBe pchan rest
        openq := update w.openq dev.host (habMsgRecv (w.openq dev.host) pchan m now) }

end MsmKernel.Hab.Open
