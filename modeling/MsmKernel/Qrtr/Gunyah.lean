import Mathlib
import MsmKernel.Lib.Run
import MsmKernel.Lib.Framing
import MsmKernel.Qrtr.Pipe

/-! The Gunyah FIFO transport of gunyah.c: `qrtr_gunyah_send` publishes a packet in chunks,
turns of the loop of `qrtr_gunyah_read` reassemble packets from the size in their own header.
A chunk write and a reader turn are atomic; they interleave freely. -/
namespace MsmKernel.Qrtr.Gunyah
open Run Framing List

def FIFO_SIZE : Nat := 0x4000
def MAX_PKT_SZ : Nat := 65536 + 32
def EINVAL : Int := 22
def QRTR_PROTO_VER_1 : UInt8 := 1
def QRTR_PROTO_VER_2 : UInt8 := 3

def byteAt (data : List UInt8) (i : Nat) : UInt8 := data[i]?.getD 0

def le32ToCpu (data : List UInt8) (i : Nat) : Nat :=
  (byteAt data i).toNat + 2 ^ 8 * (byteAt data (i + 1)).toNat +
    2 ^ 16 * (byteAt data (i + 2)).toNat + 2 ^ 24 * (byteAt data (i + 3)).toNat

def align4 (size : Nat) : Nat := (size + 3) % 2 ^ 32 / 4 * 4

def toInt (u : Nat) : Int := if u < 2 ^ 31 then u else (u : Int) - 2 ^ 32

def qrtrPeekPktSize (data : List UInt8) : Int :=
  if byteAt data 0 = QRTR_PROTO_VER_1 then
    toInt ((align4 (le32ToCpu data 20) + 32) % 2 ^ 32)
  else if byteAt data 0 = QRTR_PROTO_VER_2 then
    toInt ((align4 (le32ToCpu data 4) + (16 + (byteAt data 3).toNat)) % 2 ^ 32)
  else -EINVAL

structure GunyahRing where
  buf : Nat → UInt8
  len : Nat
  offset : Nat

/- `skb` and `offset` are those of the running call of `qrtr_gunyah_send`, an skb being the
list of its fragments; `sent` and `posted` record the packets handed to the transport and to
QRTR. -/
structure Dev where
  pipe : Pipe
  skb : List (List UInt8)
  offset : Nat
  ring : GunyahRing
  sent : List (List UInt8)
  posted : List (List UInt8)

def initial (fifo buf : Nat → UInt8) : Dev :=
  ⟨⟨FIFO_SIZE, 0, 0, fifo⟩, [], 0, ⟨buf, 0, 0⟩, [], []⟩

def rxPeak (pipe : Pipe) (offset count : Nat) : List UInt8 :=
  let tail := pipe.tail + offset
  let tail := if tail ≥ pipe.length then tail - pipe.length else tail
  if tail > pipe.length then [] else Ring.read pipe.length pipe.fifo tail count

def txAvail (pipe : Pipe) : Nat := if pipe.head > pipe.length then 0 else pipe.txAvail

def wrapHead (pipe : Pipe) (count : Nat) : Nat :=
  let head := pipe.head + count
  if head ≥ pipe.length then head - pipe.length else head

def txWrite (pipe : Pipe) (data : List UInt8) : Pipe :=
  if pipe.head > pipe.length then pipe
  else
    { pipe with
      fifo := Ring.write pipe.length pipe.fifo pipe.head data
      head := wrapHead pipe data.length }

/- The bytes `gunyah_sg_copy_toio` copies: at most `buflen`, after skipping `skip`. -/
def sgCopyToio : List (List UInt8) → Nat → Nat → List UInt8
  | [], _, _ => []
  | frag :: frags, buflen, skip =>
    if frag.length ≤ skip then sgCopyToio frags buflen (skip - frag.length)
    else
      let copied := (frag.drop skip).take buflen
      copied ++ sgCopyToio frags (buflen - copied.length) 0

def sgWrite (pipe : Pipe) (sg : List (List UInt8)) (offset count : Nat) : Pipe :=
  if pipe.head > pipe.length then pipe
  else
    let len := min count (pipe.length - pipe.head)
    let first := sgCopyToio sg len offset
    let second := if len ≠ count then sgCopyToio sg (count - len) (offset + first.length) else []
    { pipe with
      fifo := Ring.copyTo (Ring.copyTo pipe.fifo pipe.head first) 0 second
      head := wrapHead pipe count }

def writeStep (s : Dev) : Dev :=
  let left := s.skb.flatten.length - s.offset
  let avail := txAvail s.pipe
  if left = 0 ∨ avail = 0 then s
  else
    let chunk := if avail < left then avail else left
    let pipe :=
      match s.skb with
      | [data] => txWrite s.pipe ((data.drop s.offset).take chunk)
      | sg => sgWrite s.pipe sg s.offset chunk
    { s with pipe, offset := s.offset + chunk }

def readNew (s : Dev) : Dev :=
  let pktLen := qrtrPeekPktSize (rxPeak s.pipe 0 32)
  if pktLen < 0 ∨ pktLen > MAX_PKT_SZ then { s with pipe := s.pipe.rxAdvance s.pipe.rxAvail }
  else
    let avail := if s.pipe.rxAvail > pktLen.toNat then pktLen.toNat else s.pipe.rxAvail
    let buf := Ring.copyTo s.ring.buf 0 (rxPeak s.pipe 0 avail)
    let pipe := s.pipe.rxAdvance avail
    if avail = pktLen.toNat then
      { s with
        pipe
        ring := { s.ring with buf }
        posted := s.posted ++ [Ring.copyFrom buf 0 pktLen.toNat] }
    else { s with pipe, ring := ⟨buf, pktLen.toNat, avail⟩ }

def readFrag (s : Dev) : Dev :=
  let ring := s.ring
  let avail := if s.pipe.rxAvail + ring.offset > ring.len then ring.len - ring.offset
    else s.pipe.rxAvail
  let buf := Ring.copyTo ring.buf ring.offset (rxPeak s.pipe 0 avail)
  let pipe := s.pipe.rxAdvance avail
  if avail + ring.offset = ring.len then
    { s with pipe, ring := ⟨buf, 0, 0⟩, posted := s.posted ++ [Ring.copyFrom buf 0 ring.len] }
  else { s with pipe, ring := ⟨buf, ring.len, ring.offset + avail⟩ }

def readStep (s : Dev) : Dev :=
  if s.pipe.rxAvail = 0 then s
  else if s.ring.offset ≠ 0 then readFrag s
  else readNew s

inductive Event where
  | send (skb : List (List UInt8))
  | write
  | read

/- The endpoint lock admits one call of `qrtr_gunyah_send` at a time. -/
def step (s : Dev) : Event → Option Dev
  | .send skb =>
    if s.offset < s.skb.flatten.length then none
    else some { s with skb, offset := 0, sent := s.sent ++ [skb.flatten] }
  | .write => some (writeStep s)
  | .read => some (readStep s)

def WellFormed (pkt : List UInt8) : Prop :=
  pkt.length ≤ MAX_PKT_SZ ∧
    (byteAt pkt 0 = QRTR_PROTO_VER_1 ∧ pkt.length = (le32ToCpu pkt 20 + 3) / 4 * 4 + 32 ∨
      byteAt pkt 0 = QRTR_PROTO_VER_2 ∧
        pkt.length = (le32ToCpu pkt 4 + 3) / 4 * 4 + (16 + (byteAt pkt 3).toNat))

instance (pkt : List UInt8) : Decidable (WellFormed pkt) := inferInstanceAs (Decidable (_ ∧ _))

def sizeFieldEnd (version : UInt8) : Nat := if version = QRTR_PROTO_VER_1 then 24 else 8

variable {xs ys pkt bytes : List UInt8} {m i : Nat} {pipe : Pipe} {s : Dev}

theorem byteAt_of_take (h : xs.take m = ys.take m) (hi : i < m) : byteAt xs i = byteAt ys i := by
  have hx := congrArg (fun l => l[i]?) h
  simp only [List.getElem?_take, hi, if_true] at hx
  rw [byteAt, hx, byteAt]

theorem le32ToCpu_of_take (h : xs.take m = ys.take m) (hi : i + 3 < m) :
    le32ToCpu xs i = le32ToCpu ys i := by
  simp only [le32ToCpu, byteAt_of_take h (show i < m by omega),
    byteAt_of_take h (show i + 1 < m by omega), byteAt_of_take h (show i + 2 < m by omega),
    byteAt_of_take h hi]

theorem sizeFieldEnd_le (version : UInt8) : 8 ≤ sizeFieldEnd version ∧ sizeFieldEnd version ≤ 24 := by
  simp only [sizeFieldEnd]
  split_ifs <;> omega

theorem WellFormed.sizeFieldEnd_le (h : WellFormed pkt) :
    sizeFieldEnd (byteAt pkt 0) ≤ pkt.length := by
  rcases h.2 with ⟨hver, hlen⟩ | ⟨hver, hlen⟩
  · rw [hver, sizeFieldEnd, if_pos rfl]
    omega
  · rw [hver, sizeFieldEnd, if_neg (by decide)]
    omega

/-- The bytes up to the size field decide the size of a well-formed packet. -/
theorem qrtrPeekPktSize_of_take {hdr : List UInt8} (hpkt : WellFormed pkt)
    (h : hdr.take (sizeFieldEnd (byteAt pkt 0)) = pkt.take (sizeFieldEnd (byteAt pkt 0))) :
    qrtrPeekPktSize hdr = pkt.length := by
  have hbound := sizeFieldEnd_le (byteAt pkt 0)
  have h0 := byteAt_of_take h (show 0 < sizeFieldEnd (byteAt pkt 0) by omega)
  obtain ⟨hmax, ⟨hver, hlen⟩ | ⟨hver, hlen⟩⟩ := hpkt
  · rw [hver, sizeFieldEnd, if_pos rfl] at h
    have hsize := le32ToCpu_of_take h (show 20 + 3 < 24 by omega)
    rw [MAX_PKT_SZ] at hmax
    simp only [qrtrPeekPktSize, h0, hver, if_true, hsize, align4, toInt]
    rw [Nat.mod_eq_of_lt (a := le32ToCpu pkt 20 + 3) (by omega), ← hlen,
      Nat.mod_eq_of_lt (by omega), if_pos (by omega)]
  · rw [hver, sizeFieldEnd, if_neg (by decide)] at h
    have hsize := le32ToCpu_of_take h (show 4 + 3 < 8 by omega)
    have hopt := byteAt_of_take h (show 3 < 8 by omega)
    have hne : ¬ QRTR_PROTO_VER_2 = QRTR_PROTO_VER_1 := by decide
    rw [MAX_PKT_SZ] at hmax
    simp only [qrtrPeekPktSize, h0, hver, hne, if_true, if_false, hsize, hopt, align4, toInt]
    rw [Nat.mod_eq_of_lt (a := le32ToCpu pkt 4 + 3) (by omega), ← hlen,
      Nat.mod_eq_of_lt (by omega), if_pos (by omega)]

theorem sgCopyToio_eq (sg : List (List UInt8)) (buflen skip : Nat) :
    sgCopyToio sg buflen skip = (sg.flatten.drop skip).take buflen := by
  induction sg generalizing buflen skip with
  | nil => simp [sgCopyToio]
  | cons frag frags ih =>
    simp only [sgCopyToio, flatten_cons]
    split_ifs with hskip
    · rw [ih, drop_append, drop_eq_nil_of_le hskip, nil_append]
    · rw [ih, drop_append_of_le_length (by omega), drop_zero, take_append]
      congr 2
      rw [length_take]
      omega

theorem sgWrite_eq (pipe : Pipe) (sg : List (List UInt8)) (offset count : Nat)
    (hcount : offset + count ≤ sg.flatten.length) :
    sgWrite pipe sg offset count = txWrite pipe ((sg.flatten.drop offset).take count) := by
  have hlen : ((sg.flatten.drop offset).take count).length = count := by
    rw [length_take, length_drop]
    omega
  generalize hm : min count (pipe.length - pipe.head) = m
  have hfirst : (sg.flatten.drop offset).take m = ((sg.flatten.drop offset).take count).take m := by
    rw [take_take]
    congr 1
    omega
  have hfirstlen : ((sg.flatten.drop offset).take m).length = m := by
    rw [length_take, length_drop]
    omega
  have hsecond : (if m ≠ count then (sg.flatten.drop (offset + m)).take (count - m) else []) =
      ((sg.flatten.drop offset).take count).drop m := by
    split_ifs with hne
    · rw [drop_take, drop_drop]
    · have hmc : m = count := not_not.1 hne
      rw [hmc, drop_eq_nil_of_le (by omega)]
  simp only [sgWrite, txWrite, Ring.write, sgCopyToio_eq, hlen, hm, hfirstlen, hsecond]
  rw [hfirst]

section
variable (h : pipe.Holds bytes)
include h

theorem wrapHead_eq {count : Nat} (hcount : count ≤ pipe.txAvail) :
    wrapHead pipe count = (pipe.head + count) % pipe.length := by
  rw [h.txAvail_eq] at hcount
  have hhead := h.head_lt
  rw [Ring.mod_of_lt_two_mul (by omega)]
  simp only [wrapHead]
  split_ifs <;> omega

theorem txWrite_holds {data : List UInt8} (hfit : data.length ≤ pipe.txAvail) :
    (txWrite pipe data).Holds (bytes ++ data) := by
  have hhead := h.head_lt
  rw [txWrite, if_neg (by omega)]
  exact h.append hfit (wrapHead_eq h hfit)

theorem txAvail_eq : txAvail pipe = pipe.txAvail := by
  have hhead := h.head_lt
  rw [txAvail, if_neg (by omega)]

theorem rxPeak_zero (count : Nat) :
    rxPeak pipe 0 count = Ring.read pipe.length pipe.fifo pipe.tail count := by
  have htail := h.tail_lt
  simp only [rxPeak, Nat.add_zero]
  rw [if_neg (show ¬ pipe.tail ≥ pipe.length by omega),
    if_neg (show ¬ pipe.tail > pipe.length by omega)]

end

theorem writeStep_eq (h : ¬ (s.skb.flatten.length - s.offset = 0 ∨ txAvail s.pipe = 0)) :
    writeStep s =
      { s with
        pipe := txWrite s.pipe ((s.skb.flatten.drop s.offset).take
          (min (txAvail s.pipe) (s.skb.flatten.length - s.offset)))
        offset := s.offset + min (txAvail s.pipe) (s.skb.flatten.length - s.offset) } := by
  have hchunk : (if txAvail s.pipe < s.skb.flatten.length - s.offset then txAvail s.pipe
      else s.skb.flatten.length - s.offset) =
      min (txAvail s.pipe) (s.skb.flatten.length - s.offset) := by
    split_ifs <;> omega
  simp only [writeStep, if_neg h, hchunk]
  congr 1
  split
  · next data hskb => simp [hskb]
  · exact sgWrite_eq _ _ _ _ (by omega)

theorem readNew_eq {len : Nat} (hlen : qrtrPeekPktSize (rxPeak s.pipe 0 32) = len)
    (hmax : len ≤ MAX_PKT_SZ) :
    readNew s =
      let avail := min len s.pipe.rxAvail
      let buf := Ring.copyTo s.ring.buf 0 (rxPeak s.pipe 0 avail)
      if avail = len then
        { s with
          pipe := s.pipe.rxAdvance avail
          ring := { s.ring with buf }
          posted := s.posted ++ [Ring.copyFrom buf 0 len] }
      else { s with pipe := s.pipe.rxAdvance avail, ring := ⟨buf, len, avail⟩ } := by
  have hvalid : ¬ ((len : Int) < 0 ∨ (len : Int) > MAX_PKT_SZ) := by omega
  have havail : (if s.pipe.rxAvail > len then len else s.pipe.rxAvail) =
      min len s.pipe.rxAvail := by
    split_ifs <;> omega
  simp only [readNew, hlen, hvalid, if_false, Int.toNat_natCast, havail]

end MsmKernel.Qrtr.Gunyah
