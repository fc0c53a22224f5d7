import Mathlib.Logic.Function.Basic
import MsmKernel.Lib.Run

/-! Intent requests on one GLINK channel: senders of `__qcom_glink_send` that look for a free remote
intent and ask for one, the receive handlers that free intents and set the two wait flags, and a
remote that answers as `qcom_glink_handle_intent_req` does. Every access to shared data is a step. -/

namespace MsmKernel.Glink.Intents

def ECANCELED : Int := 125
def ETIMEDOUT : Int := 110

structure RemoteIntent where
  id : Nat
  size : Nat
  inUse : Bool
deriving DecidableEq, Repr

structure LocalIntent where
  id : Nat
  size : Nat
  reuse : Bool
deriving DecidableEq, Repr

/- A request's serial number is not on the wire; it tells answers apart in statements. -/
inductive Outbound
  | rxIntentReq (size serial : Nat)
  | txData (iid : Nat)
deriving DecidableEq, Repr

inductive Inbound
  | intent (iid size : Nat)
  | rxIntentReqAck (granted : Bool) (serial : Nat)
  | rxDone (iid : Nat) (reuse : Bool)
deriving DecidableEq, Repr

/- Where a sender is; the phases from `wantLock` to `woken` are those of
`qcom_glink_request_intent`. -/
inductive Phase
  | returned (ret : Int)
  | searching (len : Nat)
  | wantLock (len : Nat)
  | locked (len : Nat)
  | resultReset (len : Nat)
  | flagsReset (len : Nat)
  | waiting (len serial : Nat)
  | woken (len serial : Nat)
  | sending (len iid : Nat)
deriving DecidableEq, Repr

structure Remote where
  liids : List LocalIntent
  rxQueue : List (Nat × Nat)
  acking : Option Nat
  holding : List Nat
  nextId : Nat

/- One channel with `n` senders. `handling`: the receive handler has changed `riids` and has yet
to set `intent_received`. -/
structure World (n : Nat) where
  intentReqResult : Int
  intentReceived : Bool
  riids : List RemoteIntent
  intentReqLock : Option (Fin n)
  phase : Fin n → Phase
  handling : Bool
  toRemote : List Outbound
  fromRemote : List Inbound
  remote : Remote
  nextSerial : Nat
  handled : List (Nat × Bool)

def World.initial (n : Nat) : World n where
  intentReqResult := 0
  intentReceived := false
  riids := []
  intentReqLock := none
  phase _ := .returned 0
  handling := false
  toRemote := []
  fromRemote := []
  remote := ⟨[], [], none, [], 1⟩
  nextSerial := 0
  handled := []

/- The search of `__qcom_glink_send`: the smallest free intent that fits, an exact fit at once. -/
def findIntent (len : Nat) : List RemoteIntent → Option RemoteIntent → Option RemoteIntent
  | [], best => best
  | tmp :: rest, best =>
    if tmp.size ≥ len ∧ tmp.inUse = false then
      let best := match best with
        | none => tmp
        | some b => if b.size > tmp.size then tmp else b
      if best.size = len then some best else findIntent len rest (some best)
    else findIntent len rest best

def setInUse (iid : Nat) (v : Bool) (riids : List RemoteIntent) : List RemoteIntent :=
  riids.map fun t => if t.id = iid then { t with inUse := v } else t

/- `idr_alloc` at the intent's own id: an id that is taken is refused; iteration is by id. -/
def idrAlloc (t : RemoteIntent) : List RemoteIntent → List RemoteIntent
  | [] => [t]
  | u :: us => if t.id < u.id then t :: u :: us else if t.id = u.id then u :: us
      else u :: idrAlloc t us

variable {n : Nat}

def World.waitCondition (w : World n) : Bool := decide (w.intentReqResult ≥ 0) && w.intentReceived

def World.setPhase (w : World n) (i : Fin n) (p : Phase) : World n :=
  { w with phase := Function.update w.phase i p }

/- The first part of the receive handlers, up to the release of `intent_lock`, and the whole of
`qcom_glink_handle_intent_req_ack`. -/
def handleBegin (w : World n) : Inbound → World n
  | .intent iid size => { w with riids := idrAlloc ⟨iid, size, false⟩ w.riids, handling := true }
  | .rxDone iid reuse =>
    if w.riids.all (·.id ≠ iid) then w
    else if reuse then { w with riids := setInUse iid false w.riids, handling := true }
    else { w with riids := w.riids.filter (·.id ≠ iid) }
  | .rxIntentReqAck granted serial =>
    { w with
      intentReqResult := if granted then 1 else 0
      handled := (serial, granted) :: w.handled }

/- `qcom_glink_handle_intent_req` on the remote; `ok`: its allocation succeeds. -/
def Remote.handleIntentReq (r : Remote) (size serial : Nat) (ok : Bool) : Remote × List Inbound :=
  if r.liids.any fun tmp => size ≠ 0 && decide (tmp.size ≥ size) && tmp.reuse then
    (r, [.rxIntentReqAck true serial])
  else if ok then ({ r with rxQueue := r.rxQueue ++ [(size, serial)] }, [])
  else (r, [.rxIntentReqAck false serial])

def Remote.addIntent (r : Remote) (size : Nat) (reuse : Bool) : Remote :=
  { r with liids := r.liids ++ [⟨r.nextId, size, reuse⟩], nextId := r.nextId + 1 }

inductive SenderAct
  | send (len : Nat)
  | search
  | lock
  | resetResult
  | resetReceived
  | sendReq
  | wake
  | timeout
  | finish
  | sendData
deriving DecidableEq, Repr

def senderStep (w : World n) (i : Fin n) : Phase → SenderAct → Option (World n)
  | .returned _, .send len => some (w.setPhase i (.searching len))
  | .searching len, .search =>
    match findIntent len w.riids none with
    | some t =>
      some ({ w with riids := setInUse t.id true w.riids }.setPhase i (.sending len t.id))
    | none => some (w.setPhase i (.wantLock len))
  | .wantLock len, .lock =>
    if w.intentReqLock = none then
      some ({ w with intentReqLock := some i }.setPhase i (.locked len))
    else none
  | .locked len, .resetResult =>
    some ({ w with intentReqResult := -1 }.setPhase i (.resultReset len))
  | .resultReset len, .resetReceived =>
    some ({ w with intentReceived := false }.setPhase i (.flagsReset len))
  | .flagsReset len, .sendReq =>
    some ({ w with
      toRemote := w.toRemote ++ [Outbound.rxIntentReq len w.nextSerial]
      nextSerial := w.nextSerial + 1 }.setPhase i (.waiting len w.nextSerial))
  | .waiting len serial, .wake =>
    if w.waitCondition then some (w.setPhase i (.woken len serial)) else none
  | .waiting _ _, .timeout =>
    if w.waitCondition then none
    else some ({ w with intentReqLock := none }.setPhase i (.returned (-ETIMEDOUT)))
  | .woken len _, .finish =>
    some ({ w with intentReqLock := none }.setPhase i
      (if w.intentReqResult ≠ 0 then .searching len else .returned (-ECANCELED)))
  | .sending len iid, .sendData =>
    some ({ w with
      toRemote := if len = 0 then w.toRemote else w.toRemote ++ [Outbound.txData iid] }.setPhase i
        (.returned 0))
  | _, _ => none

/- What the remote may do: take the next message (`ok`: its allocations succeed), let its thread
prepare and announce a requested intent and then acknowledge, announce an intent of its own,
return an intent whose message it has consumed. -/
inductive RemoteAct
  | receive (ok : Bool)
  | thread
  | threadAck
  | advertise (size : Nat) (reuse : Bool)
  | done (iid : Nat)
deriving DecidableEq, Repr

def remoteReceive (w : World n) (ok : Bool) : List Outbound → Option (World n)
  | [] => none
  | .rxIntentReq size serial :: rest =>
    let r := w.remote.handleIntentReq size serial ok
    some { w with toRemote := rest, remote := r.1, fromRemote := w.fromRemote ++ r.2 }
  | .txData iid :: rest =>
    some { w with
      toRemote := rest
      remote := { w.remote with holding := iid :: w.remote.holding } }

def remoteStep (w : World n) : RemoteAct → Option (World n)
  | .receive ok => remoteReceive w ok w.toRemote
  | .thread =>
    match w.remote.rxQueue, w.remote.acking with
    | (size, serial) :: rest, none =>
      some { w with
        remote := { w.remote.addIntent size false with rxQueue := rest, acking := some serial }
        fromRemote := w.fromRemote ++ [.intent w.remote.nextId size] }
    | _, _ => none
  | .threadAck =>
    w.remote.acking.map fun serial =>
      { w with
        remote := { w.remote with acking := none }
        fromRemote := w.fromRemote ++ [.rxIntentReqAck true serial] }
  | .advertise size reuse =>
    some { w with
      remote := w.remote.addIntent size reuse
      fromRemote := w.fromRemote ++ [.intent w.remote.nextId size] }
  | .done iid =>
    (w.remote.liids.find? (·.id = iid)).bind fun t =>
      if iid ∈ w.remote.holding then
        some { w with
          remote := { w.remote with
            holding := w.remote.holding.erase iid
            liids := if t.reuse then w.remote.liids else w.remote.liids.filter (·.id ≠ iid) }
          fromRemote := w.fromRemote ++ [.rxDone iid t.reuse] }
      else none

inductive Event (n : Nat)
  | sender (i : Fin n) (a : SenderAct)
  | remote (a : RemoteAct)
  | handleBegin
  | handleEnd
deriving DecidableEq, Repr

def step (w : World n) : Event n → Option (World n)
  | .sender i a => senderStep w i (w.phase i) a
  | .remote a => remoteStep w a
  | .handleBegin =>
    match w.handling, w.fromRemote with
    | false, msg :: rest => some (handleBegin { w with fromRemote := rest } msg)
    | _, _ => none
  | .handleEnd =>
    if w.handling then some { w with handling := false, intentReceived := true } else none

end MsmKernel.Glink.Intents
