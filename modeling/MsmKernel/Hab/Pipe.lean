import Mathlib.Data.List.Basic
import MsmKernel.Hab.Grant

/-! The rings of hab_pipe.c as one endpoint uses them. The region is shared with a VM that may write
anything to it at any time, the fields of the endpoint included: what a read finds there depends only
on the moment of the read, and what the endpoint stores is not remembered. -/
namespace MsmKernel.Hab.Pipe

def EAGAIN : Errno := 11
def EIO : Errno := 5

def pipeShmemSize : BitVec 32 := 524288
def habHeaderSizeMax : Nat := 0x7D000
def habHeadSignature : BitVec 32 := 0xBEE1BEE1
def sizeofHeader : BitVec 32 := 20

/- The fields of the region that an endpoint reads: its own indices and counts, the counts and the size
of the two shared buffers, and the bytes from the start of the ring that it receives from. -/
structure Shared where
  txWrCount : BitVec 32
  txIndex : BitVec 32
  rxIndex : BitVec 32
  txRdCount : BitVec 32
  rxRdCount : BitVec 32
  rxWrCount : BitVec 32
  rxSize : BitVec 32
  rxData : Nat → BitVec 8

structure Access where
  index : Nat
  count : Nat
  deriving DecidableEq

/- `signatureMismatch` is the static variable of `hab_pipe_read`. -/
structure Machine where
  region : Nat → Shared
  now : Nat
  accesses : List Access
  signatureMismatch : Bool

def Machine.contents (m : Machine) : Shared := m.region m.now

def Machine.tick (m : Machine) : Machine := { m with now := m.now + 1 }

def Machine.memcpy (index count : BitVec 32) (m : Machine) : Machine :=
  { m with now := m.now + 1, accesses := m.accesses ++ [⟨index.toNat, count.toNat⟩] }

def Machine.bytes (index count : BitVec 32) (m : Machine) : List (BitVec 8) :=
  (List.range count.toNat).map fun i => m.contents.rxData (index.toNat + i)

def wrapIndex (bufSize index : BitVec 32) : BitVec 32 := if bufSize ≤ index then 0 else index

def firstCount (bufSize index numBytes : BitVec 32) : BitVec 32 :=
  if numBytes ≤ bufSize - index then numBytes else bufSize - index

def Machine.firstPart (bufSize index count1 : BitVec 32) (m : Machine) : BitVec 32 × Machine :=
  if 0 < count1 then (wrapIndex bufSize (index + count1), m.memcpy index count1) else (index, m)

def Machine.secondPart (index count2 : BitVec 32) (m : Machine) : Machine :=
  if 0 < count2 then m.memcpy index count2 else m

/- `p` says whether the pointer is valid. -/
def habPipeWrite (bufSize : BitVec 32) (p : Bool) (numBytes : BitVec 32) (m : Machine) :
    BitVec 32 × Machine :=
  let epTxIndex := m.contents.txIndex
  let m := m.tick
  let epTxWrCount := m.contents.txWrCount
  let m := m.tick
  let shBufRdCount := m.contents.txRdCount
  let m := m.tick
  if bufSize < epTxWrCount - shBufRdCount then (0, m)
  else
    let space := bufSize - (epTxWrCount - shBufRdCount)
    if p = false ∨ space < numBytes ∨ numBytes = 0 then (0, m)
    else if bufSize < epTxIndex ∨ bufSize < numBytes then (0, m)
    else
      let count1 := firstCount bufSize epTxIndex numBytes
      let count2 := numBytes - count1
      let part := m.firstPart bufSize epTxIndex count1
      -- the index that is stored behind the second part is wrapped as well
      (numBytes, part.2.secondPart part.1 count2)

def headSignature (p : List (BitVec 8)) : BitVec 32 :=
  p.getD 15 0 ++ p.getD 14 0 ++ p.getD 13 0 ++ p.getD 12 0

/- The retry loop of `hab_pipe_read` with the number of retries left: it copies the two parts of the
header again. The result is the number of retries counted. -/
def retry (indexSaved count1 epRxIndex count2 : BitVec 32) :
    Nat → List (BitVec 8) → Machine → Nat × Machine
  | 0, head, m =>
    if headSignature head ≠ habHeadSignature then (1002, { m with signatureMismatch := true })
    else (1001, { m with signatureMismatch := false })
  | left + 1, head, m =>
    if headSignature head ≠ habHeadSignature then
      let first := m.bytes indexSaved count1
      let m := m.memcpy indexSaved count1
      let copied := first ++ m.bytes (epRxIndex - count2) count2
      let m := m.secondPart (epRxIndex - count2) count2
      let head := copied ++ head.drop copied.length
      if m.signatureMismatch = false then retry indexSaved count1 epRxIndex count2 left head m
      else (1001 - left, { m with signatureMismatch := true })
    else (1000 - left, { m with signatureMismatch := false })

def habPipeRead (bufSize : BitVec 32) (p : Option (List (BitVec 8))) (size : BitVec 32) (clear : Bool)
    (m : Machine) : BitVec 32 × Machine :=
  let epRxIndex := m.contents.rxIndex
  let m := m.tick
  let wrCount := m.contents.rxWrCount
  let m := m.tick
  let rdCount := m.contents.rxRdCount
  let m := m.tick
  let avail := wrCount - rdCount
  let indexSaved := epRxIndex
  if p = none ∨ avail = 0 ∨ size = 0 ∨ bufSize < epRxIndex then (0, m)
  else
    let toRead := if avail < size then avail else size
    let count1 := firstCount bufSize epRxIndex toRead
    let count2 := toRead - count1
    let first := m.bytes epRxIndex count1
    let part := m.firstPart bufSize epRxIndex count1
    let second := part.2.bytes part.1 count2
    let m := part.2.secondPart part.1 count2
    let epRxIndex := part.1 + count2
    if count1 + count2 = 0 then (toRead, m)
    else
      let copied := first ++ second
      let head := copied ++ (p.getD []).drop copied.length
      let checked :=
        if clear ∧ size = sizeofHeader then retry indexSaved count1 epRxIndex count2 1001 head m
        else (0, m)
      if checked.2.signatureMismatch then
        -- the index that is stored here is compared with the size in the region
        (if checked.1 < 1000 then 0xFFFFFFFE else 0xFFFFFFFF, checked.2.tick)
      else (toRead, checked.2)

/- `shmem_physical_channel_send`: the header and then the payload are written. `payload` says whether
there is a payload, `profile` whether the message carries a time stamp. -/
def shmemPhysicalChannelSend (sizebytes : BitVec 32) (payload profile : Bool) (m : Machine) :
    Option Errno × Machine :=
  let totalSize := sizeofHeader.toNat + sizebytes.toNat
  if pipeShmemSize.toNat < totalSize then (some EINVAL, m)
  else
    let wrCount := m.contents.txWrCount
    let m := m.tick
    let rdCount := m.contents.txRdCount
    let m := m.tick
    if (pipeShmemSize - (wrCount - rdCount)).toNat < totalSize then (some EAGAIN, m)
    else
      let head := habPipeWrite pipeShmemSize true sizeofHeader m
      if head.1 ≠ sizeofHeader then (some EIO, head.2)
      else if profile ∧ payload = false then (some EINVAL, head.2)
      else if sizebytes = 0 then (none, head.2.tick)
      else
        let body := habPipeWrite pipeShmemSize payload sizebytes head.2
        if body.1 ≠ sizebytes then (some EIO, body.2) else (none, body.2.tick)

end MsmKernel.Hab.Pipe
