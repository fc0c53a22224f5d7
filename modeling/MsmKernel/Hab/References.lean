import Mathlib
import MsmKernel.Hab.Open
import MsmKernel.Lib.Losses

/-! The references of physical channels in one VM: which calls, virtual channels and open requests
hold them, and where hab.c, hab_open.c and hab_pchan.c take and drop them. One device is modelled; the
messages that come in and the outcomes of allocations and sends are arbitrary. -/
namespace MsmKernel.Hab.References
open Run Open
variable {P : Type} [DecidableEq P]

def LOOPBACK_DOM : Int := 0xFF
def HABCFG_VMID_DONT_CARE : Int := -2

structure HabDevice (P : Type) where
  pchannels : List P
  domId : P → Int
  isBe : P → Bool
  kernelOnly : P → Bool
  loopback : Bool
  apiVer : Nat

structure Vchan (P : Type) where
  pchan : P
  id : Nat
  deriving DecidableEq

structure FeOpen (P : Type) where
  pchan : P
  openId : Nat
  vchanId : Nat
  subId : Nat
  msTimeout : Int
  uninterruptible : Bool
  deriving DecidableEq

structure BeListen where
  subId : Nat
  msTimeout : Int
  uninterruptible : Bool
  deriving DecidableEq

/- A call that waits: `frontend_open` for INIT_ACK, `backend_listen` for INIT or for INIT_DONE. -/
inductive Call (P : Type) where
  | fe (c : FeOpen P)
  | beInit (b : BeListen)
  | beDone (b : BeListen) (s : Session P)
  deriving DecidableEq

structure State (P : Type) where
  refcount : P → Int
  openq : List (OpenNode P)
  openqCnt : Int
  opened : List (Vchan P)
  calls : List (Call P)

def State.initial : State P := ⟨fun _ => 1, [], 0, [], []⟩

def State.get (s : State P) (pchan : P) : State P :=
  { s with refcount := fun p => if p = pchan then s.refcount p + 1 else s.refcount p }

def State.put (s : State P) (pchan : P) : State P :=
  { s with refcount := fun p => if p = pchan then s.refcount p - 1 else s.refcount p }

def expired (listen : Listen P) (now : Nat) : List (OpenNode P) → List (OpenNode P)
  | [] => []
  | node :: queue =>
    if node.answers listen then []
    else if node.age < now then node :: expired listen now queue
    else expired listen now queue

def dropped (listen : Listen P) (queue : List (OpenNode P)) : Wake → List (OpenNode P)
  | .look now => expired listen now queue
  | _ => []

def taken (result : Option (Errno × Option (OpenNode P))) : Option (OpenNode P) :=
  result.bind Prod.snd

/- What `hab_open_request_find` does to the queue, its counter and the references: expired entries are
freed without being counted. -/
def State.heard (s : State P) (listen : Listen P) (e : Wake)
    (result : Option (Errno × Option (OpenNode P)) × List (OpenNode P)) : State P :=
  let s := (dropped listen s.openq e).foldl (fun s node => s.put node.pchan) s
  { s with
    openq := result.2
    openqCnt := if (taken result.1).isSome then s.openqCnt - 1 else s.openqCnt }

def habPchanFindDomid (dev : HabDevice P) (domId : Int) : Option P :=
  dev.pchannels.find? fun p => dev.domId p = domId ∨ domId = HABCFG_VMID_DONT_CARE

/- The start of an open: its parameters, the ids that it gets, and whether the allocation of the vchan
and the send of INIT succeed. -/
structure OpenArgs where
  kernel : Bool
  lbBe : Bool
  subId : Nat
  msTimeout : Int
  uninterruptible : Bool
  openId : Nat
  vchanId : Nat
  allocated : Bool
  sent : Bool

/- The lookup takes a reference and `hab_vchan_alloc` another one. -/
def frontendOpen (dev : HabDevice P) (s : State P) (a : OpenArgs) (domId : Int) : State P :=
  match habPchanFindDomid dev domId with
  | none => s
  | some pchan =>
    let s := s.get pchan
    if a.allocated = false then s.put pchan
    else
      let s := s.get pchan
      if a.sent = false then (s.put pchan).put pchan
      else
        { s with
          calls := .fe ⟨pchan, a.openId, a.vchanId, a.subId, a.msTimeout, a.uninterruptible⟩ ::
            s.calls }

def backendListen (s : State P) (a : OpenArgs) : State P :=
  { s with calls := .beInit ⟨a.subId, a.msTimeout, a.uninterruptible⟩ :: s.calls }

/- The lookup that decides between front end and back end takes a reference of its own. -/
def habVchanOpen (dev : HabDevice P) (s : State P) (a : OpenArgs) : State P :=
  if dev.loopback then
    if a.lbBe then backendListen s a else frontendOpen dev s a LOOPBACK_DOM
  else
    match habPchanFindDomid dev HABCFG_VMID_DONT_CARE with
    | none => s
    | some pchan =>
      let s := s.get pchan
      if dev.kernelOnly pchan ∧ a.kernel = false then s
      else if dev.isBe pchan then backendListen s a
      else frontendOpen dev s a HABCFG_VMID_DONT_CARE

def State.release (s : State P) (pchan : P) : State P := (s.put pchan).put pchan

def State.succeed (s : State P) (v : Vchan P) : State P :=
  { s.put v.pchan with opened := v :: s.opened }

/- `frontend_open` after its wait. A request of another version is not freed. -/
def feListened (s : State P) (c : FeOpen P) (sent : Bool) : FePhase P → State P
  | .paired recv =>
    let s := s.put recv.pchan
    if sent then s.succeed ⟨c.pchan, c.vchanId⟩ else s.release c.pchan
  | _ => s.release c.pchan

def beInitListened (s : State P) (b : BeListen) (allocated sent : Bool) : BePhase P → State P
  | .replying session =>
    let s := (s.get session.pchan).put session.pchan
    if allocated = false then s.put session.pchan
    else
      let s := s.get session.pchan
      if sent = false then s.release session.pchan
      else { s with calls := .beDone b session :: s.calls }
  | _ => s

def beDoneListened (s : State P) (b : BeListen) (session : Session P) (recv : Option (OpenNode P)) :
    BePhase P → State P
  | .returned _ =>
    let s := match recv with
      | some node => s.put node.pchan
      | none => s
    s.succeed ⟨session.pchan, session.vchanId⟩
  | .retrying _ =>
    let s := s.release session.pchan
    { s with calls := .beInit b :: s.calls }
  | _ => s.release session.pchan

structure WakeArgs where
  wake : Wake
  vchanId : Nat
  allocated : Bool
  sent : Bool

def State.finish (s : State P) (call : Call P) : State P := { s with calls := s.calls.erase call }

def Call.listen : Call P → Listen P
  | .fe c => ⟨.initAck, some c.pchan, c.subId, c.openId⟩
  | .beInit b => initListen b.subId
  | .beDone b s => doneListen b.subId s

def Call.listened (call : Call P) (queue : List (OpenNode P)) (e : Wake) :
    Option (Errno × Option (OpenNode P)) × List (OpenNode P) :=
  match call with
  | .fe c => habOpenListen call.listen c.msTimeout c.uninterruptible queue e
  | .beInit b => habOpenListen call.listen b.msTimeout b.uninterruptible queue e
  | .beDone b _ => habOpenListen call.listen hsTimeout b.uninterruptible queue e

def wakeCall (dev : HabDevice P) (s : State P) (call : Call P) (a : WakeArgs) : State P :=
  let result := call.listened s.openq a.wake
  let s := s.heard call.listen a.wake result
  match result.1 with
  | none => s
  | some r =>
    let s := s.finish call
    match call with
    | .fe c => feListened s c a.sent (FePhase.listened r)
    | .beInit b =>
      beInitListened s b a.allocated a.sent (BePhase.initListened dev.apiVer a.vchanId r)
    | .beDone b session => beDoneListened s b session r.2 (BePhase.doneListened session r)

def requestAdd (s : State P) (pchan : P) (node : OpenNode P) : State P :=
  let s := s.get pchan
  { s with openq := s.openq ++ [node], openqCnt := s.openqCnt + 1 }

/- `hab_open_receive_cancel`: a request that nobody has taken yet is freed with `kfree` alone. -/
def receiveCancel (s : State P) (pchan : P) (data : OpenSendData) (now : Nat) (allocated : Bool) :
    State P :=
  if s.openq.any (OpenNode.unserviced data) then
    { s with
      openq := s.openq.eraseP (OpenNode.unserviced data)
      openqCnt := s.openqCnt - 1 }
  else if allocated = false then s
  else requestAdd s pchan ⟨.initCancel, pchan, data, now + openReqExpireTime⟩

def habMsgRecv (s : State P) (pchan : P) (m : Message) (now : Nat) (allocated : Bool) : State P :=
  match m.type with
  | .initCancel => receiveCancel s pchan m.xdata now allocated
  | _ =>
    if allocated = false then s
    else requestAdd s pchan ⟨m.type, pchan, m.xdata, now + openReqExpireTime⟩

def habVchanClose (s : State P) (v : Vchan P) : State P :=
  if v ∈ s.opened then { s.put v.pchan with opened := s.opened.erase v } else s

inductive Event (P : Type) where
  | vchanOpen (a : OpenArgs)
  | wake (call : Call P) (a : WakeArgs)
  | recv (pchan : P) (m : Message) (now : Nat) (allocated : Bool)
  | close (v : Vchan P)

def step (dev : HabDevice P) (s : State P) : Event P → Option (State P)
  | .vchanOpen a => some (habVchanOpen dev s a)
  | .wake call a => if call ∈ s.calls then some (wakeCall dev s call a) else none
  | .recv pchan m now allocated => some (habMsgRecv s pchan m now allocated)
  | .close v => some (habVchanClose s v)

def State.vchans (s : State P) (p : P) : Nat := s.opened.countP (·.pchan = p)

def State.queued (s : State P) (p : P) : Nat := s.openq.countP (·.pchan = p)

def lost (dev : HabDevice P) (s : State P) : Event P → Option P
  | .vchanOpen _ =>
    if dev.loopback then none else habPchanFindDomid dev HABCFG_VMID_DONT_CARE
  | .wake (.fe c) a =>
    (taken ((Call.fe c).listened s.openq a.wake).1).bind fun node =>
      if major node.xdata.verFe ≠ major node.xdata.verBe then some node.pchan else none
  | .wake (.beInit b) a =>
    (taken ((Call.beInit b).listened s.openq a.wake).1).bind fun node =>
      if major node.xdata.verFe ≠ major dev.apiVer then some node.pchan else none
  | .recv _ m _ _ =>
    if m.type = .initCancel then (s.openq.find? (OpenNode.unserviced m.xdata)).map (·.pchan)
    else none
  | _ => none

def uncounted (s : State P) : Event P → List (OpenNode P)
  | .wake call a => dropped call.listen s.openq a.wake
  | _ => []

def Clean (dev : HabDevice P) (s : State P) (e : Event P) : Prop :=
  lost dev s e = none ∧ uncounted s e = []

end MsmKernel.Hab.References
