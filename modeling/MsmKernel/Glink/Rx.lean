import Mathlib.Logic.Function.Basic
import MsmKernel.Lib.Run

/-! Receive side of one GLINK channel: chunks arrive in the interrupt handler, messages are handed to
the endpoint there or in the channel's rx thread, and buffers are returned or freed. -/

namespace MsmKernel.Glink.Rx
open Function

def GLINK_IRQ_ITERATION_LIMITS : Nat := 10

structure Intent where
  id : Nat
  size : Nat
  filled : List UInt8
  reuse : Bool
  hasData : Bool
  cbIrqDone : Bool
  freed : Bool
deriving DecidableEq, Repr

inductive Stage
  | deliver
  | finish
deriving DecidableEq, Repr

/- What the remote may do with an intent: a conforming remote starts a message on a free intent and
sends its chunks in order. -/
inductive Use
  | absent
  | free
  | filling (sofar : List UInt8) (left : Nat)
  | busy
deriving DecidableEq, Repr

structure Config where
  intentless : Bool
  cbIrq : Bool
deriving DecidableEq, Repr

/- Intents live at addresses below `next`. `completed` lists the messages in the order of their last
chunks, `delivered` the callbacks; `fault` records an access to freed memory. -/
structure World where
  heap : Nat → Intent
  next : Nat
  buf : Option Nat
  liids : Nat → Option Nat
  nextId : Nat
  rxQueue : List Nat
  thread : Option (Nat × Stage)
  use : Nat → Use
  completed : List (List UInt8)
  delivered : List (List UInt8)
  fault : Bool

def World.initial (cfg : Config) : World where
  heap _ := ⟨0, 0, [], false, false, false, true⟩
  next := 0
  buf := none
  liids _ := none
  nextId := 1
  rxQueue := []
  thread := none
  use k := if cfg.intentless ∧ k = 0 then .free else .absent
  completed := []
  delivered := []
  fault := false

def World.touch (w : World) (p : Nat) : World := { w with fault := w.fault || (w.heap p).freed }

def World.put (w : World) (p : Nat) (i : Intent) : World :=
  { w with heap := update w.heap p i }

def World.alloc (w : World) (i : Intent) : World :=
  { w with heap := update w.heap w.next i, next := w.next + 1 }

def World.enqueue (w : World) (p : Nat) : World :=
  { w.touch p with rxQueue := w.rxQueue ++ [p] }

def qcomGlinkQueueRxIntentAlloc (w : World) (size : Nat) (reuse : Bool) : World :=
  (w.alloc ⟨0, size, [], reuse, false, false, false⟩).enqueue w.next

/- `txOk`: the message fits into the transmit ring (always so for a caller that waits). -/
def qcomGlinkSendRxDone (w : World) (p : Nat) (txOk : Bool) : Bool × World :=
  let i := { w.heap p with filled := [] }
  if txOk then
    (true, { w with
      heap := update w.heap p { i with freed := !i.reuse }
      use := update w.use i.id (if i.reuse then .free else .busy) })
  else (false, w.put p i)

def qcomGlinkRxDone (cfg : Config) (w : World) (p : Nat) (txOk : Bool) : Bool × World :=
  let w := w.touch p
  if cfg.intentless then (true, w.put p { w.heap p with freed := true })
  else
    let w := if (w.heap p).reuse then w
      else { w with liids := update w.liids (w.heap p).id none }
    qcomGlinkSendRxDone w p txOk

/- The endpoint's callback consumes the data before it returns. -/
def World.callback (w : World) (p : Nat) : World :=
  { w.touch p with delivered := w.delivered ++ [(w.heap p).filled] }

section
variable (cfg : Config) (w : World)

def qcomGlinkRxDataHandler (p iters : Nat) (txOk : Bool) : World :=
  if cfg.cbIrq ∧ iters < GLINK_IRQ_ITERATION_LIMITS ∧ w.rxQueue = [] then
    let w := w.callback p
    let w := w.put p { w.heap p with filled := [] }
    let done := qcomGlinkRxDone cfg w p txOk
    if done.1 then { done.2 with buf := none }
    else (done.2.put p { done.2.heap p with cbIrqDone := true }).enqueue p
  else w.enqueue p

def fillIntent (p : Nat) (bytes : List UInt8) (left iters : Nat) (txOk : Bool) : World :=
  let w := w.touch p
  let i := w.heap p
  if i.size - i.filled.length < bytes.length then w
  else
    let w := w.put p { i with filled := i.filled ++ bytes }
    if left = 0 then qcomGlinkRxDataHandler cfg w p iters txOk else w

def qcomGlinkRxData (liid : Nat) (bytes : List UInt8) (left iters : Nat) (txOk : Bool) : World :=
  if cfg.intentless then
    match w.buf with
    | some p => fillIntent cfg w p bytes left iters txOk
    | none =>
      let p := w.next
      let w := w.alloc ⟨0xbabababa, bytes.length + left, [], false, true, false, false⟩
      fillIntent cfg { w with buf := some p } p bytes left iters txOk
  else
    match w.liids liid with
    | some p => fillIntent cfg w p bytes left iters txOk
    | none => w

/- The remote sends a chunk: the first of a message that fits the intent, or the next of one it has
begun. Chunks of a channel without intents belong to one message at a time. -/
def remoteSends (liid : Nat) (bytes : List UInt8) (left : Nat) :
    Option World :=
  let key := if cfg.intentless then 0 else liid
  let sent (sofar : List UInt8) : World :=
    if left = 0 then
      { w with
        use := update w.use key (if cfg.intentless then .free else .busy)
        completed := w.completed ++ [sofar] }
    else { w with use := update w.use key (.filling sofar left) }
  match w.use key with
  | .free =>
    if cfg.intentless ∨ ∃ p ∈ w.liids liid, bytes.length + left ≤ (w.heap p).size then
      some (sent bytes)
    else none
  | .filling sofar rem => if bytes.length + left = rem then some (sent (sofar ++ bytes)) else none
  | _ => none

end

inductive Event
  | queueIntent (size : Nat) (reuse : Bool)
  | chunk (liid : Nat) (bytes : List UInt8) (left iters : Nat) (txOk : Bool)
  | threadTake
  | threadDeliver
  | threadFinish
deriving DecidableEq, Repr

/- `qcom_glink_rx_thread` takes the first entry: a message to deliver, one that was delivered in
the interrupt handler and is only to be returned, or a request for a new intent. -/
def threadTake (w : World) : List Nat → Option World
  | [] => none
  | p :: rest =>
    let w := { w.touch p with rxQueue := rest }
    let i := w.heap p
    if i.hasData then
      if i.cbIrqDone then
        some { w.put p { i with cbIrqDone := false } with thread := some (p, .finish) }
      else some { w with thread := some (p, .deliver) }
    else
      some { w.put p { i with id := w.nextId, hasData := true } with
        liids := update w.liids w.nextId (some p)
        nextId := w.nextId + 1
        use := update w.use w.nextId .free }

def step (cfg : Config) (w : World) : Event → Option World
  | .queueIntent size reuse =>
    if cfg.intentless = false ∧ 0 < size then some (qcomGlinkQueueRxIntentAlloc w size reuse)
    else none
  | .chunk liid bytes left iters txOk =>
    (remoteSends cfg w liid bytes left).map fun w =>
      qcomGlinkRxData cfg w liid bytes left iters txOk
  | .threadTake => if w.thread = none then threadTake w w.rxQueue else none
  | .threadDeliver =>
    match w.thread with
    | some (p, .deliver) => some { w.callback p with thread := some (p, .finish) }
    | _ => none
  | .threadFinish =>
    match w.thread with
    | some (p, .finish) => some { (qcomGlinkRxDone cfg w p true).2 with thread := none }
    | _ => none

end MsmKernel.Glink.Rx
