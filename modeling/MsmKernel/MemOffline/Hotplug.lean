import Mathlib.Data.List.Basic
import MsmKernel.Lib.Run

/-! The memory hotplug notifier of `mem-offline.c`: per block state, one bitmask of
online blocks per DDR segment, and the refresh requests sent to the remote controller. -/

namespace MsmKernel.MemOffline

inductive MemoryState
  | online
  | offline
deriving DecidableEq, Repr

structure SegmentInfo where
  startAddr : Nat
  segSize : Nat
deriving DecidableEq, Repr

def SegmentInfo.endAddr (s : SegmentInfo) : Nat := s.startAddr + s.segSize

/- Block `b` is `memory_block_size_bytes()` long and begins `b` blocks after the first section
of the offlinable region. -/
structure Layout where
  blockSize : Nat
  startAddr : Nat
  numBlocks : Nat
  segmentInfos : List SegmentInfo
deriving DecidableEq, Repr

namespace Layout

def blockAddr (L : Layout) (b : Nat) : Nat := L.startAddr + b * L.blockSize

def overlaps (L : Layout) (s : SegmentInfo) (b : Nat) : Prop :=
  s.startAddr < L.blockAddr b + L.blockSize ∧ L.blockAddr b < s.endAddr

instance (L : Layout) (s : SegmentInfo) (b : Nat) : Decidable (L.overlaps s b) :=
  inferInstanceAs (Decidable (_ ∧ _))

def getSegmentAddrToIdx (L : Layout) (addr : Nat) : Option Nat :=
  L.segmentInfos.findIdx? fun s => decide (s.startAddr ≤ addr) && decide (addr < s.endAddr)

def segmentAt (L : Layout) (addr : Nat) : Option SegmentInfo :=
  (L.getSegmentAddrToIdx addr).bind fun i => L.segmentInfos[i]?

end Layout

/- Which step of which block's history comes next; the hotplug lock lets only one history
run at a time. `accepted` is false once the notifier has answered `NOTIFY_BAD`. -/
inductive Pending
  | goingOnline (b : Nat) (accepted : Bool)
  | goingOffline (b : Nat)
deriving DecidableEq, Repr

structure World where
  bitmaskKernelBlk : Nat → BitVec 32
  memSecState : Nat → MemoryState
  /-- the last request the controller granted for the segment at this address was "on" -/
  refresh : Nat → Bool
  blockOnline : Nat → Bool
  pending : Option Pending

/- `1 << n` is an `int`: bit 31 makes it negative, which every caller takes for an error, and
the hardware takes the shift count modulo 32. -/
def shiftedBit (n : Nat) : Option (BitVec 32) :=
  if n % 32 = 31 then none else some (BitVec.twoPow 32 (n % 32))

def getMemblkBits (L : Layout) (segIdx : Option Nat) (addr : Nat) : Option (Nat × BitVec 32) := do
  let i ← segIdx
  let s ← L.segmentInfos[i]?
  if addr > s.startAddr + s.segSize then none
  else (shiftedBit ((addr - s.startAddr) / L.blockSize)).map (i, ·)

section
variable (L : Layout) (w : World) (addr : Nat)

def setMemblkBitmapOnline : World :=
  match getMemblkBits L (L.getSegmentAddrToIdx addr) addr with
  | none => w
  | some (i, bit) =>
    if w.bitmaskKernelBlk i &&& bit ≠ 0 then w
    else { w with bitmaskKernelBlk :=
             Function.update w.bitmaskKernelBlk i (w.bitmaskKernelBlk i ||| bit) }

def setMemblkBitmapOffline : World :=
  match getMemblkBits L (L.getSegmentAddrToIdx addr) addr with
  | none => w
  | some (i, bit) =>
    if w.bitmaskKernelBlk i &&& bit = 0 then w
    else { w with bitmaskKernelBlk :=
             Function.update w.bitmaskKernelBlk i (w.bitmaskKernelBlk i &&& ~~~bit) }

def needToSendRemoteRequest : Bool :=
  match getMemblkBits L (L.getSegmentAddrToIdx addr) addr with
  | none => false
  | some (i, bit) => decide (w.bitmaskKernelBlk i &&& ~~~bit = 0)

end

/- The `while` loop; the block size bounds its rounds, since every round moves `addr` up by a
non-empty segment. The outer `none` stands for a read of `segment_infos[-EINVAL]`. -/
def countSegments (L : Layout) (endAddr : Nat) : Nat → Nat → SegmentInfo → Nat → Option Nat
  | 0, _, _, count => some count
  | fuel + 1, addr, s, count =>
    if addr < endAddr ∧ addr + s.segSize < endAddr then
      if L.blockSize % s.segSize ≠ 0 then some 0
      else (L.segmentAt (addr + s.segSize)).bind fun t =>
        countSegments L endAddr fuel (addr + s.segSize) t (count + 1)
    else some count

def getNumMemblockHotplugSegments (L : Layout) (addr : Nat) : Option Nat :=
  (L.segmentAt addr).bind fun s =>
    if L.blockSize ≤ s.segSize then some 1
    else countSegments L (addr + L.blockSize) L.blockSize addr s 0

structure Answers where
  sent : Nat → Bool
  undone : Nat → Bool

def setRefresh (w : World) (phys : Nat) (on : Bool) : World :=
  { w with refresh := Function.update w.refresh phys on }

def sendLoop (L : Layout) (online : Bool) (answer : Nat → Bool) :
    Nat → Nat → Nat → World → Option (Option Nat × World)
  | 0, _, _, w => some (none, w)
  | count + 1, i, addr, w =>
    (L.segmentAt addr).bind fun s =>
      if answer i then
        sendLoop L online answer count (i + 1) s.endAddr (setRefresh w s.startAddr online)
      else some (some i, w)

/- The undo of the `i` requests already granted; a refusal is a panic, which nothing follows. -/
def undoLoop (L : Layout) (online : Bool) (answer : Nat → Bool) : Nat → Nat → World → Option World
  | 0, _, w => some w
  | i + 1, addr, w =>
    if answer i then
      (L.segmentAt addr).bind fun s =>
        undoLoop L online answer i (addr + s.segSize) (setRefresh w addr (!online))
    else none

def sendMsg (L : Layout) (w : World) (addr : Nat) (online : Bool) (count : Nat) (a : Answers) :
    Option (Bool × World) :=
  (L.segmentAt addr).bind fun s =>
    (sendLoop L online a.sent count 0 addr w).bind fun
      | (none, w') => some (true, w')
      | (some i, w') => (undoLoop L online a.undone i s.startAddr w').map (false, ·)

def setMemSecState (w : World) (b : Nat) (state : MemoryState) : World :=
  { w with memSecState := Function.update w.memSecState b state }

/- `bugOn` is `CONFIG_BUG_ON_HW_MEM_ONLINE_FAIL`. The Boolean is whether it returned 0. -/
def memChangeRefreshState (L : Layout) (bugOn : Bool) (w : World) (b : Nat) (state : MemoryState)
    (a : Answers) : Option (Bool × World) :=
  if w.memSecState b = state then some (true, w)
  else
    (getNumMemblockHotplugSegments L (L.blockAddr b)).bind fun count =>
      if count = 0 then some (false, w)
      else if needToSendRemoteRequest L w (L.blockAddr b) then
        (sendMsg L w (L.blockAddr b) (decide (state = .online)) count a).bind fun
          | (true, w') => some (true, setMemSecState w' b state)
          | (false, w') => if state = .online ∧ bugOn then none else some (false, w')
      else some (true, setMemSecState w b state)

inductive Event
  | goingOnline (b : Nat) (a : Answers)
  | online (b : Nat)
  | cancelOnline (b : Nat) (a : Answers)
  | goingOffline (b : Nat)
  | offline (b : Nat) (a : Answers)

/- One call of `mem_event_callback`, with the bookkeeping of the hotplug core around it: pages
of a block are handed out before `MEM_ONLINE` and withdrawn before `MEM_OFFLINE`. -/
def step (L : Layout) (bugOn : Bool) (w : World) : Event → Option World
  | .goingOnline b a =>
    if w.pending = none ∧ b < L.numBlocks ∧ w.blockOnline b = false then
      (memChangeRefreshState L bugOn w b .online a).map fun r =>
        { r.2 with pending := some (.goingOnline b r.1) }
    else none
  | .online b =>
    if w.pending = some (.goingOnline b true) then
      some { setMemblkBitmapOnline L w (L.blockAddr b) with
        blockOnline := Function.update w.blockOnline b true, pending := none }
    else none
  | .cancelOnline b a =>
    if w.pending = some (.goingOnline b true) ∨ w.pending = some (.goingOnline b false) then
      (memChangeRefreshState L bugOn w b .offline a).map fun r => { r.2 with pending := none }
    else none
  | .goingOffline b =>
    if w.pending = none ∧ b < L.numBlocks ∧ w.blockOnline b = true then
      some { w with pending := some (.goingOffline b) }
    else none
  | .offline b a =>
    if w.pending = some (.goingOffline b) then
      (memChangeRefreshState L bugOn w b .offline a).map fun r =>
        { setMemblkBitmapOffline L r.2 (L.blockAddr b) with
          blockOnline := Function.update w.blockOnline b false, pending := none }
    else none

/- `GENMASK_ULL(num_kernel_blks - 1, 0)` cut to the 32 bits of the field. -/
def allBlocksMask (L : Layout) (s : SegmentInfo) : BitVec 32 :=
  BitVec.ofNat 32 ((1 <<< max 1 (s.segSize / L.blockSize)) - 1)

def World.initial (L : Layout) : World where
  bitmaskKernelBlk i := (L.segmentInfos[i]?.map (allBlocksMask L)).getD 0
  memSecState _ := .online
  refresh _ := true
  blockOnline b := decide (b < L.numBlocks)
  pending := none

end MsmKernel.MemOffline
