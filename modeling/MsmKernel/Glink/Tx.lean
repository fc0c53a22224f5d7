import MsmKernel.Lib.Run
import MsmKernel.Qrtr.Pipe

/-! The transmit side of GLINK over shared memory: `qcom_glink_tx` of `qcom_glink_native.c` cut
at the points where it drops `tx_lock`, on the pipe of `qcom_glink_smem.c`. -/

namespace MsmKernel.Glink

open Qrtr (Pipe)

def FIFO_FULL_RESERVE : Nat := 8
def TX_BLOCKED_CMD_RESERVE : Nat := 8
def GLINK_CMD_READ_NOTIF : UInt8 := 13

def EIO : Int := 5
def EAGAIN : Int := 11
def EINVAL : Int := 22

def glinkSmemTxAvail (pipe : Pipe) : Nat :=
  let avail := if pipe.tail ≤ pipe.head then pipe.length - pipe.head + pipe.tail
    else pipe.tail - pipe.head
  let avail := if avail < FIFO_FULL_RESERVE + TX_BLOCKED_CMD_RESERVE then 0
    else avail - (FIFO_FULL_RESERVE + TX_BLOCKED_CMD_RESERVE)
  if avail > pipe.length then 0 else avail

def glinkSmemTxWriteOne (length : Nat) (fifo : Nat → UInt8) (head : Nat) (data : List UInt8) :
    (Nat → UInt8) × Nat :=
  if head > length then (fifo, head)
  else
    let next := head + data.length
    (Ring.write length fifo head data, if next ≥ length then next - length else next)

def align8 (x : Nat) : Nat := (x + 7) / 8 * 8

def glinkSmemTxWrite (pipe : Pipe) (hdr data : List UInt8) : Pipe :=
  let one := glinkSmemTxWriteOne pipe.length pipe.fifo pipe.head hdr
  let two := glinkSmemTxWriteOne pipe.length one.1 one.2 data
  let head := align8 two.2
  { pipe with fifo := two.1, head := if head ≥ pipe.length then head - pipe.length else head }

def glinkSmemRxPeek (pipe : Pipe) (offset count : Nat) : List UInt8 :=
  if pipe.tail > pipe.length then []
  else
    let tail := pipe.tail + offset
    let tail := if tail ≥ pipe.length then tail - pipe.length else tail
    Ring.read pipe.length pipe.fifo tail count

/- One call of `qcom_glink_tx`. The sum of its lengths is kept in an `unsigned int`; the callers
pass an `int` length and a small header. -/
structure Call where
  writer : Nat
  hdr : List UInt8
  data : List UInt8
  wait : Bool
  fits : hdr.length + data.length < 0x100000000
deriving DecidableEq

def Call.tlen (c : Call) : Nat := c.hdr.length + c.data.length

inductive Item
  | message (c : Call)
  | readNotif
deriving DecidableEq

def readNotifMsg : List UInt8 := [GLINK_CMD_READ_NOTIF, 0, 0, 0, 0, 0, 0, 0]

def Item.bytes : Item → List UInt8
  | .message c => c.hdr ++ c.data
  | .readNotif => readNotifMsg

def Item.call? : Item → Option Call
  | .message c => some c
  | .readNotif => none

/- `log` is what was put into the ring, in the order of the lock; `returned` the results of the
calls; `got` the bytes the remote took out. -/
structure Link where
  txPipe : Pipe
  sentReadNotify : Bool
  abortTx : Bool
  waiting : List Call
  log : List Item
  returned : List (Call × Int)
  got : List UInt8

def Link.initial (n : Nat) (fifo : Nat → UInt8) : Link :=
  ⟨⟨n, 0, 0, fifo⟩, false, false, [], [], [], []⟩

def Link.unread (g : Link) : List UInt8 := glinkSmemRxPeek g.txPipe 0 g.txPipe.rxAvail

def Link.finish (g : Link) (c : Call) (ret : Int) : Link :=
  { g with returned := g.returned ++ [(c, ret)] }

def qcomGlinkSendReadNotify (g : Link) : Link :=
  { g with txPipe := glinkSmemTxWrite g.txPipe readNotifMsg [], log := g.log ++ [.readNotif] }

def qcomGlinkTxLoop (g : Link) (c : Call) : Link :=
  if glinkSmemTxAvail g.txPipe < c.tlen then
    if !c.wait then g.finish c (-EAGAIN)
    else if g.abortTx then g.finish c (- EIO)
    else
      let g := if g.sentReadNotify then g
        else qcomGlinkSendReadNotify { g with sentReadNotify := true }
      { g with waiting := g.waiting ++ [c] }
  else
    Link.finish { g with
      txPipe := glinkSmemTxWrite g.txPipe c.hdr c.data
      log := g.log ++ [.message c] } c 0

def qcomGlinkTx (g : Link) (c : Call) : Link :=
  if c.tlen ≥ g.txPipe.length then g.finish c (-EINVAL)
  else if g.abortTx then g.finish c (- EIO)
  else qcomGlinkTxLoop g c

def qcomGlinkTxWake (g : Link) (c : Call) : Link :=
  let g := if glinkSmemTxAvail g.txPipe ≥ c.tlen then { g with sentReadNotify := false } else g
  qcomGlinkTxLoop g c

inductive Event
  | tx (c : Call)
  | wake (i : Nat)
  | abort
  | read (count : Nat)

def step (g : Link) : Event → Option Link
  | .tx c => some (qcomGlinkTx g c)
  | .wake i =>
    g.waiting[i]?.map fun c => qcomGlinkTxWake { g with waiting := g.waiting.eraseIdx i } c
  | .abort => some { g with abortTx := true }
  | .read count =>
    if 8 ∣ count ∧ count ≤ g.txPipe.rxAvail then
      some { g with
        txPipe := g.txPipe.rxAdvance count
        got := g.got ++ glinkSmemRxPeek g.txPipe 0 count }
    else none

end MsmKernel.Glink
