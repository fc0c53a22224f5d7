import MsmKernel.Lib.Run
import MsmKernel.Lib.Framing
import MsmKernel.Qrtr.Pipe

/-! The genpool FIFO transport of genpool.c: `qrtr_genpool_send` publishes a 4-byte length
header and then payload chunks, turns of the loop of `qrtr_genpool_read` take them out. One
writer step and one reader turn are atomic; they interleave freely. -/
namespace MsmKernel.Qrtr.Genpool
open Run Framing List

def MAX_PKT_SZ : Nat := 65536
def FIFO_SIZE : Nat := 0x4000
def HDR_KEY_VALUE : Nat := 0xdead
def hdrLen : Nat := 4

def cpuToLe16 (x : Nat) : List UInt8 := [UInt8.ofNat x, UInt8.ofNat (x / 256)]

def le16ToCpu (data : List UInt8) : Nat :=
  (data.getD 0 0).toNat + 256 * (data.getD 1 0).toNat

def header (len : Nat) : List UInt8 := cpuToLe16 len ++ cpuToLe16 HDR_KEY_VALUE

structure GenpoolRing where
  buf : Nat → UInt8
  len : Nat
  offset : Nat

inductive Writer where
  | idle
  | generateHdr (skb : List UInt8)
  | payload (skb : List UInt8) (offset : Nat)

structure Dev where
  pipe : Pipe
  writer : Writer
  ring : GenpoolRing
  sent : List (List UInt8)
  posted : List (List UInt8)

def initial (fifo buf : Nat → UInt8) : Dev :=
  ⟨⟨FIFO_SIZE, 0, 0, fifo⟩, .idle, ⟨buf, 0, 0⟩, [], []⟩

def txWrite (pipe : Pipe) (data : List UInt8) : Pipe :=
  let head := pipe.head + data.length
  { pipe with
    fifo := Ring.write pipe.length pipe.fifo pipe.head data
    head := if head ≥ pipe.length then head % pipe.length else head }

def rxPeak (pipe : Pipe) (offset count : Nat) : List UInt8 :=
  let tail := pipe.tail + offset
  Ring.read pipe.length pipe.fifo (if tail ≥ pipe.length then tail % pipe.length else tail) count

def payloadFrom (skb : List UInt8) (offset : Nat) : Writer :=
  if offset < skb.length then .payload skb offset else .idle

def writerStep (s : Dev) : Dev :=
  match s.writer with
  | .idle => s
  | .generateHdr skb =>
    if s.pipe.txAvail < hdrLen then s
    else { s with pipe := txWrite s.pipe (header skb.length), writer := payloadFrom skb 0 }
  | .payload skb offset =>
    let left := skb.length - offset
    let avail := s.pipe.txAvail
    if avail = 0 then s
    else
      let chunk := if avail < left then avail else left
      { s with
        pipe := txWrite s.pipe ((skb.drop offset).take chunk)
        writer := payloadFrom skb (offset + chunk) }

def readNew (s : Dev) : Dev :=
  let pktLen := le16ToCpu (rxPeak s.pipe 0 hdrLen)
  if pktLen > MAX_PKT_SZ then s
  else
    let pipe := s.pipe.rxAdvance hdrLen
    let avail := if pipe.rxAvail > pktLen then pktLen else pipe.rxAvail
    let buf := Ring.copyTo s.ring.buf 0 (rxPeak pipe 0 avail)
    let pipe := pipe.rxAdvance avail
    if avail = pktLen then
      { s with
        pipe
        ring := { s.ring with buf }
        posted := s.posted ++ [Ring.copyFrom buf 0 pktLen] }
    else { s with pipe, ring := ⟨buf, pktLen, avail⟩ }

def readFrag (s : Dev) : Dev :=
  let ring := s.ring
  let avail := if s.pipe.rxAvail + ring.offset > ring.len then ring.len - ring.offset
    else s.pipe.rxAvail
  let buf := Ring.copyTo ring.buf ring.offset (rxPeak s.pipe 0 avail)
  let pipe := s.pipe.rxAdvance avail
  if avail + ring.offset = ring.len then
    { s with pipe, ring := ⟨buf, 0, 0⟩, posted := s.posted ++ [Ring.copyFrom buf 0 ring.len] }
  else { s with pipe, ring := ⟨buf, ring.len, ring.offset + avail⟩ }

def readStep (s : Dev) : Dev :=
  if s.pipe.rxAvail = 0 then s
  else if s.ring.offset ≠ 0 then readFrag s
  else readNew s

inductive Event where
  | send (skb : List UInt8)
  | write
  | read

/- The endpoint lock admits one call of `qrtr_genpool_send` at a time. -/
def step (s : Dev) : Event → Option Dev
  | .send skb =>
    match s.writer with
    | .idle => some { s with writer := .generateHdr skb, sent := s.sent ++ [skb] }
    | _ => none
  | .write => some (writerStep s)
  | .read => some (readStep s)

/-- A packet as `qrtr_node_enqueue` builds it: header and word-aligned payload. -/
def CorePacket (skb : List UInt8) : Prop :=
  ∃ len ≤ 65535, skb.length = (len + 3) / 4 * 4 + 32

/-- The length fits the 16-bit header field, and a turn of the reader that starts a packet
finds more than its header. -/
def Proper (s : Dev) : Event → Prop
  | .send skb => CorePacket skb ∧ skb.length < 65536
  | .write => True
  | .read => s.pipe.rxAvail ≠ 0 → s.ring.offset = 0 → hdrLen < s.pipe.rxAvail

def frame (skb : List UInt8) : List UInt8 := header skb.length ++ skb

def Writer.pending : Writer → List UInt8
  | .idle => []
  | .generateHdr skb => frame skb
  | .payload skb offset => skb.drop offset

def taken (ring : GenpoolRing) : List UInt8 :=
  if ring.offset = 0 then [] else header ring.len ++ Ring.copyFrom ring.buf 0 ring.offset

/-- The transport refines a framed stream over the byte queue of the pipe. -/
structure Inv (s : Dev) : Prop where
  length : s.pipe.length = FIFO_SIZE
  short : ∀ skb ∈ s.sent, skb.length < 65536
  queue : ∃ bytes, s.pipe.Holds bytes ∧
    Framed frame s.sent s.posted (taken s.ring) bytes s.writer.pending
  current : s.ring.offset ≠ 0 →
    ∃ skb rest, s.sent = s.posted ++ skb :: rest ∧ s.ring.len = skb.length

theorem header_length (len : Nat) : (header len).length = hdrLen := rfl

theorem le16ToCpu_header {len : Nat} (h : len < 65536) (rest : List UInt8) :
    le16ToCpu (header len ++ rest) = len := by
  simp only [le16ToCpu, header, cpuToLe16, cons_append, getD_cons_zero,
    getD_cons_succ, UInt8.toNat_ofNat']
  omega

variable {pipe : Pipe} {bytes : List UInt8} {s : Dev}

theorem txWrite_holds {data : List UInt8} (h : pipe.Holds bytes)
    (hfit : data.length ≤ pipe.txAvail) : (txWrite pipe data).Holds (bytes ++ data) := by
  refine h.append hfit ?_
  split_ifs with hge
  · rfl
  · exact (Nat.mod_eq_of_lt (by omega)).symm

theorem rxPeak_zero (h : pipe.Holds bytes) (count : Nat) :
    rxPeak pipe 0 count = Ring.read pipe.length pipe.fifo pipe.tail count := by
  have htail := h.tail_lt
  simp only [rxPeak, Nat.add_zero]
  rw [if_neg (by omega)]

theorem pending_payloadFrom (skb : List UInt8) (offset : Nat) :
    (payloadFrom skb offset).pending = skb.drop offset := by
  simp only [payloadFrom]
  split_ifs with h
  · rfl
  · exact (drop_eq_nil_of_le (by omega)).symm

section
variable (hs : Inv s)
include hs

theorem inv_writerStep : Inv (writerStep s) := by
  obtain ⟨bytes, hholds, hframed⟩ := hs.queue
  cases hw : s.writer with
  | idle =>
    have heq : writerStep s = s := by simp [writerStep, hw]
    rwa [heq]
  | generateHdr skb =>
    simp only [writerStep, hw]
    split_ifs with havail
    · exact hs
    · have hpub := hframed.publish hdrLen
      simp only [hw, Writer.pending, frame] at hpub
      rw [take_append_of_le_length (by simp [header_length]),
        drop_append_of_le_length (by simp [header_length]),
        take_of_length_le (by simp [header_length]),
        drop_eq_nil_of_le (by simp [header_length]), nil_append] at hpub
      refine ⟨hs.length, hs.short, ⟨bytes ++ header skb.length, ?_, ?_⟩, hs.current⟩
      · exact txWrite_holds hholds (by rw [header_length]; omega)
      · simpa only [pending_payloadFrom, drop_zero] using hpub
  | payload skb offset =>
    simp only [writerStep, hw]
    split_ifs with havail hlt
    · exact hs
    all_goals
      refine ⟨hs.length, hs.short, ⟨_, txWrite_holds hholds ?_, ?_⟩, hs.current⟩
      · rw [length_take]
        omega
      · have hpub := hframed.publish (if s.pipe.txAvail < skb.length - offset
          then s.pipe.txAvail else skb.length - offset)
        simp only [hw, hlt, Writer.pending, drop_drop, if_true, if_false] at hpub
        simpa only [pending_payloadFrom] using hpub

theorem inv_send (hw : s.writer = .idle) {skb : List UInt8} (hlen : skb.length < 65536) :
    Inv { s with writer := .generateHdr skb, sent := s.sent ++ [skb] } := by
  obtain ⟨bytes, hholds, hframed⟩ := hs.queue
  have hsend := hframed.send (p := skb) (by simp [frame, header, cpuToLe16])
  rw [hw, Writer.pending, nil_append] at hsend
  refine ⟨hs.length, ?_, ⟨bytes, hholds, hsend⟩, ?_⟩
  · intro q hq
    rcases mem_append.1 hq with hq | hq
    · exact hs.short q hq
    · rwa [mem_singleton.1 hq]
  · intro hoff
    obtain ⟨p, rest, hsent, hl⟩ := hs.current hoff
    exact ⟨p, rest ++ [skb], by simp [hsent], hl⟩

theorem inv_readNew (hoff : s.ring.offset = 0) (havail : hdrLen < s.pipe.rxAvail) :
    Inv (readNew s) := by
  obtain ⟨bytes, hholds, hframed⟩ := hs.queue
  rw [hholds.rxAvail_eq] at havail
  have htaken : taken s.ring = [] := by simp [taken, hoff]
  rw [htaken] at hframed
  obtain ⟨skb, rest, hsent⟩ := hframed.current
    (ne_nil_of_length_pos (Nat.lt_of_le_of_lt (Nat.zero_le _) havail))
  have hshort : skb.length < 65536 := hs.short skb (by simp [hsent])
  have hsplit : bytes ++ s.writer.pending = header skb.length ++ (skb ++ rest.flatMap frame) := by
    simpa [frame] using (hframed.stream_of hsent).1
  have hhdr : bytes.take hdrLen = header skb.length :=
    (append_split hsplit (by rw [header_length]; omega)).1
  have hlen : le16ToCpu (rxPeak s.pipe 0 hdrLen) = skb.length := by
    rw [rxPeak_zero hholds, hholds.read (by omega), hhdr]
    simpa using le16ToCpu_header hshort []
  have hhdrle : hdrLen ≤ bytes.length := by omega
  have hpipe := hholds.rxAdvance hhdrle
  have hrx : (s.pipe.rxAdvance hdrLen).rxAvail = bytes.length - hdrLen := by
    rw [hpipe.rxAvail_eq, length_drop]
  generalize hm : (if bytes.length - hdrLen > skb.length then skb.length
    else bytes.length - hdrLen) = m
  have hmle : m ≤ bytes.length - hdrLen ∧ m ≤ skb.length := by split_ifs at hm <;> omega
  have hmdrop : m ≤ (bytes.drop hdrLen).length := by
    rw [length_drop]
    omega
  have hpeak : rxPeak (s.pipe.rxAdvance hdrLen) 0 m = (bytes.drop hdrLen).take m := by
    rw [rxPeak_zero hpipe, hpipe.read hmdrop]
  have hpipe' := hpipe.rxAdvance hmdrop
  have hcut : bytes.take (hdrLen + m) = header skb.length ++ (bytes.drop hdrLen).take m := by
    rw [take_add, hhdr]
  have hgather := hframed.gather (k := hdrLen + m) s.ring.buf 0 (header skb.length) _ hsent rfl
    (by omega) hcut
  rw [length_take_of_le hmdrop, Nat.zero_add] at hgather
  rw [drop_drop] at hpipe'
  have hmax : ¬ skb.length > MAX_PKT_SZ := by
    rw [MAX_PKT_SZ]
    omega
  simp only [readNew, hlen, hmax, if_false, hrx, hm, hpeak]
  by_cases hfull : m = skb.length
  · obtain ⟨hskb, hdone⟩ := hgather.1 hfull
    rw [if_pos hfull, hskb]
    refine ⟨hs.length, hs.short, ⟨_, hpipe', ?_⟩, fun h => absurd hoff h⟩
    simpa only [taken, hoff, if_true] using hdone
  · have hmpos : m ≠ 0 := by split_ifs at hm <;> omega
    rw [if_neg hfull]
    refine ⟨hs.length, hs.short, ⟨_, hpipe', ?_⟩, fun _ => ⟨skb, rest, hsent, rfl⟩⟩
    simpa only [taken, hmpos, if_false] using hgather.2 (by omega)

theorem inv_readFrag (hoff : s.ring.offset ≠ 0) : Inv (readFrag s) := by
  obtain ⟨bytes, hholds, hframed⟩ := hs.queue
  obtain ⟨skb, rest, hsent, hlen⟩ := hs.current hoff
  have htaken : taken s.ring = header skb.length ++ Ring.copyFrom s.ring.buf 0 s.ring.offset := by
    simp [taken, hoff, hlen]
  rw [htaken] at hframed
  have hlt := (hframed.stream_of hsent).2
  simp only [frame, length_append, header_length, Ring.length_copyFrom] at hlt
  generalize hm : (if bytes.length + s.ring.offset > skb.length then skb.length - s.ring.offset
    else bytes.length) = m
  have hmle : m ≤ bytes.length ∧ s.ring.offset + m ≤ skb.length := by split_ifs at hm <;> omega
  have hpeak : rxPeak s.pipe 0 m = bytes.take m := by
    rw [rxPeak_zero hholds, hholds.read hmle.1]
  have hpipe := hholds.rxAdvance hmle.1
  have hgather := hframed.gather s.ring.buf s.ring.offset _ _ hsent rfl hmle.1 (append_assoc ..)
  rw [length_take_of_le hmle.1] at hgather
  simp only [readFrag, hholds.rxAvail_eq, hlen, hm, hpeak]
  by_cases hfull : m + s.ring.offset = skb.length
  · obtain ⟨hskb, hdone⟩ := hgather.1 (by omega)
    rw [if_pos hfull, hskb]
    exact ⟨hs.length, hs.short, ⟨_, hpipe, hdone⟩, fun h => absurd rfl h⟩
  · have hpos : s.ring.offset + m ≠ 0 := by omega
    rw [if_neg hfull]
    refine ⟨hs.length, hs.short, ⟨_, hpipe, ?_⟩, fun _ => ⟨skb, rest, hsent, rfl⟩⟩
    simpa only [taken, hpos, if_false] using hgather.2 (by omega)

theorem inv_readStep (hread : s.pipe.rxAvail ≠ 0 → s.ring.offset = 0 → hdrLen < s.pipe.rxAvail) :
    Inv (readStep s) := by
  simp only [readStep]
  split_ifs with hempty hoff
  · exact hs
  · exact inv_readFrag hs hoff
  · exact inv_readNew hs (not_not.1 hoff) (hread hempty (not_not.1 hoff))

theorem inv_step {t : Dev} {e : Event} (he : Proper s e) (ht : step s e = some t) : Inv t := by
  cases e with
  | send skb =>
    cases hw : s.writer with
    | idle =>
      simp only [step, hw, Option.some.injEq] at ht
      subst ht
      exact inv_send hs hw he.2
    | _ => simp [step, hw] at ht
  | write =>
    simp only [step, Option.some.injEq] at ht
    subst ht
    exact inv_writerStep hs
  | read =>
    simp only [step, Option.some.injEq] at ht
    subst ht
    exact inv_readStep hs he

end

theorem inv_initial (fifo buf : Nat → UInt8) : Inv (initial fifo buf) :=
  ⟨rfl, by simp [initial], ⟨[], Pipe.holds_nil fifo (by decide), framed_nil⟩, fun h => absurd rfl h⟩

/-- In every run whose steps are proper, the posted packets are a prefix of the sent ones,
and all of them once the pipe is drained and the writer has finished. -/
theorem genpool_delivers {fifo buf : Nat → UInt8} {events : List Event} {s : Dev}
    (hproper : Along step Proper (initial fifo buf) events)
    (hrun : run step (initial fifo buf) events = some s) :
    s.posted <+: s.sent ∧ (s.pipe.rxAvail = 0 → s.writer = .idle → s.posted = s.sent) := by
  have hinv : Inv s :=
    run_invariant (fun s e t hs he ht => inv_step hs he ht) (inv_initial fifo buf) hproper hrun
  obtain ⟨bytes, hholds, hframed⟩ := hinv.queue
  refine ⟨hframed.posted_prefix, fun hempty hidle => ?_⟩
  rw [hholds.rxAvail_eq, length_eq_zero_iff] at hempty
  rw [hempty, hidle, Writer.pending] at hframed
  exact hframed.posted_eq

def dataPacket : List UInt8 :=
  [1, 0, 0, 0, 1, 0, 0, 0, 1, 0, 0, 0, 2, 0, 0, 0, 0, 0, 0, 0, 4, 0, 0, 0, 3, 0, 0, 0, 5, 0, 0, 0,
    9, 9, 9, 9]

theorem genpool_delivers_dataPacket :
    ∃ s, run step (initial (fun _ => 0) fun _ => 0)
        [.send dataPacket, .write, .write, .read] = some s ∧
      s.pipe.rxAvail = 0 ∧ s.posted <+: s.sent ∧ s.posted = [dataPacket] := by
  have hproper : Along step Proper (initial (fun _ => 0) fun _ => 0)
      [.send dataPacket, .write, .write, .read] :=
    ⟨⟨⟨4, by decide, rfl⟩, by decide⟩, trivial, trivial, fun _ _ => by decide, trivial⟩
  refine ⟨_, rfl, by decide, (genpool_delivers hproper rfl).1, ?_⟩
  exact (genpool_delivers hproper rfl).2 (by decide) rfl

/-- A reader turn between the header and the payload forgets the header: the next turn takes
the first payload bytes for a header and posts one byte. -/
theorem header_only_turn_breaks_framing :
    CorePacket dataPacket ∧
      ∃ s, run step (initial (fun _ => 0) fun _ => 0)
          [.send dataPacket, .write, .read, .write, .read] = some s ∧
        s.sent = [dataPacket] ∧ s.posted = [[1]] ∧ ¬ s.posted <+: s.sent :=
  ⟨⟨4, by decide, rfl⟩, _, rfl, rfl, by decide, by decide⟩

/- The other way the framing breaks: the largest core packet has 65568 bytes. -/
example : le16ToCpu (header (65536 + 32)) = 32 := by decide

end MsmKernel.Qrtr.Genpool
