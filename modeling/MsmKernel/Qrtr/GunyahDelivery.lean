import MsmKernel.Qrtr.Gunyah

/-! Delivery over the Gunyah transport: the pipe and the two loops refine a framed stream as
long as the reader never starts a packet whose size field has not arrived. -/
namespace MsmKernel.Qrtr.Gunyah
open Run Framing List

/-- Only well-formed packets are sent, and a reader turn that starts a packet finds at least
its size field. -/
def Proper (s : Dev) : Event → Prop
  | .send skb => WellFormed skb.flatten
  | .write => True
  | .read => s.pipe.rxAvail ≠ 0 → s.ring.offset = 0 →
      sizeFieldEnd (s.pipe.fifo s.pipe.tail) ≤ s.pipe.rxAvail

/-- The transport refines a framed stream whose frames are the packets themselves. -/
structure Inv (s : Dev) : Prop where
  length : s.pipe.length = FIFO_SIZE
  wellFormed : ∀ pkt ∈ s.sent, WellFormed pkt
  queue : ∃ bytes, s.pipe.Holds bytes ∧ Framed id s.sent s.posted
    (Ring.copyFrom s.ring.buf 0 s.ring.offset) bytes (s.skb.flatten.drop s.offset)
  current : s.ring.offset ≠ 0 →
    ∃ pkt rest, s.sent = s.posted ++ pkt :: rest ∧ s.ring.len = pkt.length

variable {s : Dev} {n head tail : Nat} {fifo : Nat → UInt8}

theorem inv_writeStep (hs : Inv s) : Inv (writeStep s) := by
  obtain ⟨bytes, hholds, hframed⟩ := hs.queue
  by_cases hwait : s.skb.flatten.length - s.offset = 0 ∨ txAvail s.pipe = 0
  · have heq : writeStep s = s := by simp only [writeStep, if_pos hwait]
    rwa [heq]
  · rw [writeStep_eq hwait]
    have hpub := hframed.publish (min (txAvail s.pipe) (s.skb.flatten.length - s.offset))
    rw [drop_drop] at hpub
    have hlength : (txWrite s.pipe ((s.skb.flatten.drop s.offset).take
        (min (txAvail s.pipe) (s.skb.flatten.length - s.offset)))).length = s.pipe.length := by
      simp only [txWrite]
      split_ifs <;> rfl
    refine ⟨hlength.trans hs.length, hs.wellFormed, ⟨_, txWrite_holds hholds ?_, hpub⟩, hs.current⟩
    rw [length_take, txAvail_eq hholds]
    omega

theorem inv_send (hs : Inv s) (hidle : ¬ s.offset < s.skb.flatten.length)
    {skb : List (List UInt8)} (hskb : WellFormed skb.flatten) :
    Inv { s with skb, offset := 0, sent := s.sent ++ [skb.flatten] } := by
  obtain ⟨bytes, hholds, hframed⟩ := hs.queue
  have hpos : skb.flatten ≠ [] := by
    have hlen := hskb.sizeFieldEnd_le
    have hmin := sizeFieldEnd_le (byteAt skb.flatten 0)
    exact ne_nil_of_length_pos (by omega)
  have hsend := hframed.send (p := skb.flatten) hpos
  rw [drop_eq_nil_of_le (by omega), nil_append] at hsend
  refine ⟨hs.length, ?_, ⟨bytes, hholds, by simpa using hsend⟩, ?_⟩
  · intro pkt hpkt
    rcases mem_append.1 hpkt with hpkt | hpkt
    · exact hs.wellFormed pkt hpkt
    · rwa [mem_singleton.1 hpkt]
  · intro hoff
    obtain ⟨pkt, rest, hsent, hlen⟩ := hs.current hoff
    exact ⟨pkt, rest ++ [skb.flatten], by simp [hsent], hlen⟩

theorem inv_readNew (hs : Inv s) (hoff : s.ring.offset = 0) (havail : s.pipe.rxAvail ≠ 0)
    (hfield : sizeFieldEnd (s.pipe.fifo s.pipe.tail) ≤ s.pipe.rxAvail) : Inv (readNew s) := by
  obtain ⟨bytes, hholds, hframed⟩ := hs.queue
  rw [hholds.rxAvail_eq] at havail hfield
  rw [hoff, Ring.copyFrom_zero] at hframed
  obtain ⟨pkt, rest, hsent⟩ := hframed.current (ne_nil_of_length_pos (Nat.pos_of_ne_zero havail))
  have hpkt : WellFormed pkt := hs.wellFormed pkt (by simp [hsent])
  have hend := hpkt.sizeFieldEnd_le
  have hbound := sizeFieldEnd_le (byteAt pkt 0)
  have hsplit : bytes ++ s.skb.flatten.drop s.offset = pkt ++ rest.flatMap id := by
    simpa using (hframed.stream_of hsent).1
  have hfront : ∀ k, k ≤ bytes.length → k ≤ pkt.length → bytes.take k = pkt.take k := by
    intro k hkb hkp
    have ht := congrArg (List.take k) hsplit
    rwa [take_append_of_le_length hkb, take_append_of_le_length hkp] at ht
  have hversion : s.pipe.fifo s.pipe.tail = byteAt pkt 0 := by
    cases bytes with
    | nil => exact absurd rfl havail
    | cons b bs =>
      have h1 := byteAt_of_take (hfront 1 (by simp) (by omega)) (show 0 < 1 by omega)
      rw [hholds.fifo_tail, ← h1]
      rfl
  rw [hversion] at hfield
  have hlength : 32 ≤ s.pipe.length := by
    rw [hs.length]
    decide
  have hsize : qrtrPeekPktSize (rxPeak s.pipe 0 32) = pkt.length := by
    refine qrtrPeekPktSize_of_take hpkt ?_
    rw [rxPeak_zero hholds, hholds.read_take hlength (by omega) hfield, hfront _ hfield hend]
  have hvalid : ¬ ((pkt.length : Int) < 0 ∨ (pkt.length : Int) > MAX_PKT_SZ) := by
    have hmax := hpkt.1
    omega
  generalize hm : (if bytes.length > pkt.length then pkt.length else bytes.length) = m
  have hmle : m ≤ bytes.length ∧ m ≤ pkt.length := by split_ifs at hm <;> omega
  have hpeak : rxPeak s.pipe 0 m = bytes.take m := by
    rw [rxPeak_zero hholds, hholds.read hmle.1]
  have hpipe := hholds.rxAdvance hmle.1
  have hgather := hframed.gather s.ring.buf 0 [] (bytes.take m) hsent rfl hmle.1 rfl
  rw [length_take_of_le hmle.1, Nat.zero_add] at hgather
  simp only [readNew, hsize, hvalid, if_false, Int.toNat_natCast, hholds.rxAvail_eq, hm, hpeak]
  by_cases hfull : m = pkt.length
  · obtain ⟨hframe, hdone⟩ := hgather.1 hfull
    rw [if_pos hfull, hframe]
    refine ⟨hs.length, hs.wellFormed, ⟨_, hpipe, ?_⟩, fun h => absurd hoff h⟩
    simpa only [hoff, Ring.copyFrom_zero] using hdone
  · rw [if_neg hfull]
    exact ⟨hs.length, hs.wellFormed, ⟨_, hpipe, hgather.2 (by omega)⟩,
      fun _ => ⟨pkt, rest, hsent, rfl⟩⟩

theorem inv_readFrag (hs : Inv s) (hoff : s.ring.offset ≠ 0) : Inv (readFrag s) := by
  obtain ⟨bytes, hholds, hframed⟩ := hs.queue
  obtain ⟨pkt, rest, hsent, hlen⟩ := hs.current hoff
  have hlt := (hframed.stream_of hsent).2
  simp only [id, Ring.length_copyFrom] at hlt
  generalize hm : (if bytes.length + s.ring.offset > pkt.length then pkt.length - s.ring.offset
    else bytes.length) = m
  have hmle : m ≤ bytes.length ∧ s.ring.offset + m ≤ pkt.length := by split_ifs at hm <;> omega
  have hpeak : rxPeak s.pipe 0 m = bytes.take m := by
    rw [rxPeak_zero hholds, hholds.read hmle.1]
  have hpipe := hholds.rxAdvance hmle.1
  have hgather := hframed.gather s.ring.buf s.ring.offset [] (bytes.take m) hsent rfl hmle.1 rfl
  rw [length_take_of_le hmle.1] at hgather
  simp only [readFrag, hholds.rxAvail_eq, hlen, hm, hpeak]
  by_cases hfull : m + s.ring.offset = pkt.length
  · obtain ⟨hframe, hdone⟩ := hgather.1 (by omega)
    rw [if_pos hfull, hframe]
    exact ⟨hs.length, hs.wellFormed, ⟨_, hpipe, hdone⟩, fun h => absurd rfl h⟩
  · rw [if_neg hfull]
    exact ⟨hs.length, hs.wellFormed, ⟨_, hpipe, hgather.2 (by omega)⟩,
      fun _ => ⟨pkt, rest, hsent, rfl⟩⟩

theorem inv_step {t : Dev} {e : Event} (hs : Inv s) (he : Proper s e) (ht : step s e = some t) :
    Inv t := by
  cases e with
  | send skb =>
    simp only [step] at ht
    split_ifs at ht with hidle
    cases ht
    exact inv_send hs hidle he
  | write =>
    cases ht
    exact inv_writeStep hs
  | read =>
    cases ht
    simp only [readStep]
    split_ifs with hempty hoff
    · exact hs
    · exact inv_readFrag hs hoff
    · exact inv_readNew hs (not_not.1 hoff) hempty (he hempty (not_not.1 hoff))

theorem inv_initial (fifo buf : Nat → UInt8) : Inv (initial fifo buf) :=
  ⟨rfl, by simp [initial], ⟨[], Pipe.holds_nil fifo (by decide), framed_nil⟩, fun h => absurd rfl h⟩

/-- In every run whose steps are proper, the posted packets are a prefix of the sent ones,
and all of them once the pipe is drained and nothing is left to write. -/
theorem gunyah_delivers {fifo buf : Nat → UInt8} {events : List Event} {s : Dev}
    (hproper : Along step Proper (initial fifo buf) events)
    (hrun : run step (initial fifo buf) events = some s) :
    s.posted <+: s.sent ∧
      (s.pipe.rxAvail = 0 → s.skb.flatten.length ≤ s.offset → s.posted = s.sent) := by
  have hinv : Inv s :=
    run_invariant (fun s e t hs he ht => inv_step hs he ht) (inv_initial fifo buf) hproper hrun
  obtain ⟨bytes, hholds, hframed⟩ := hinv.queue
  refine ⟨hframed.posted_prefix, fun hempty hdone => ?_⟩
  rw [hholds.rxAvail_eq, length_eq_zero_iff] at hempty
  rw [hempty, drop_eq_nil_of_le hdone] at hframed
  exact hframed.posted_eq

def dataPacket : List UInt8 :=
  [1, 0, 0, 0, 1, 0, 0, 0, 1, 0, 0, 0, 2, 0, 0, 0, 0, 0, 0, 0, 4, 0, 0, 0, 3, 0, 0, 0, 5, 0, 0, 0,
    9, 9, 9, 9]

theorem gunyah_delivers_dataPacket :
    ∃ s, run step (initial (fun _ => 0) fun _ => 0)
        [.send [dataPacket.take 32, dataPacket.drop 32], .write, .read] = some s ∧
      s.posted <+: s.sent ∧ s.posted = [dataPacket] := by
  have hproper : Along step Proper (initial (fun _ => 0) fun _ => 0)
      [.send [dataPacket.take 32, dataPacket.drop 32], .write, .read] :=
    ⟨(by decide : WellFormed _), trivial, fun _ _ => by decide, trivial⟩
  refine ⟨_, rfl, (gunyah_delivers hproper rfl).1, ?_⟩
  exact (gunyah_delivers hproper rfl).2 (by decide) (by decide)

section ShortSizeField
variable {large : List UInt8}

def largeHeader : List UInt8 :=
  [1, 0, 0, 0, 1, 0, 0, 0, 1, 0, 0, 0, 2, 0, 0, 0, 0, 0, 0, 0, 0xc8, 0x3f, 0, 0, 3, 0, 0, 0,
    5, 0, 0, 0]

def cutFifo (large : List UInt8) : Nat → UInt8 :=
  Ring.write FIFO_SIZE (Ring.write FIFO_SIZE (fun _ => 0) 0 large) 16360 (dataPacket.take 16)

theorem txAvail_mk (n head tail : Nat) (fifo : Nat → UInt8) :
    txAvail ⟨n, head, tail, fifo⟩ = txAvail ⟨n, head, tail, fun _ => 0⟩ := rfl

theorem rxAvail_mk (n head tail : Nat) (fifo : Nat → UInt8) :
    Pipe.rxAvail ⟨n, head, tail, fifo⟩ = Pipe.rxAvail ⟨n, head, tail, fun _ => 0⟩ := rfl

theorem txWrite_mk {data : List UInt8} (head' : Nat) (hle : ¬ head > n)
    (hhead : wrapHead ⟨n, head, tail, fun _ => 0⟩ data.length = head') :
    txWrite ⟨n, head, tail, fifo⟩ data = ⟨n, head', tail, Ring.write n fifo head data⟩ := by
  rw [← hhead, txWrite, if_neg hle]
  rfl

theorem cutFifo_holds (hlen : large.length = 16360) :
    Pipe.Holds ⟨FIFO_SIZE, 16376, 0, cutFifo large⟩ (large ++ dataPacket.take 16) := by
  have hempty := Pipe.holds_nil (fun _ => 0) (n := FIFO_SIZE) (by decide)
  have hfit : large.length ≤ Pipe.txAvail ⟨FIFO_SIZE, 0, 0, fun _ => 0⟩ := by
    rw [hlen]
    decide
  have hlarge := txWrite_holds hempty hfit
  rw [txWrite_mk 16360 (by decide) (by rw [hlen]; decide), nil_append] at hlarge
  have havail := txAvail_mk FIFO_SIZE 16360 0 (Ring.write FIFO_SIZE (fun _ => 0) 0 large)
  rw [txAvail_eq hlarge] at havail
  have hfit' : (dataPacket.take 16).length ≤
      Pipe.txAvail ⟨FIFO_SIZE, 16360, 0, Ring.write FIFO_SIZE (fun _ => 0) 0 large⟩ := by
    rw [havail]
    decide
  have hcut := txWrite_holds hlarge hfit'
  rwa [txWrite_mk 16376 (by decide) (by decide)] at hcut

theorem cutFifo_stale (hlen : large.length = 16360) {i : Nat} (hi : 16376 ≤ i) :
    cutFifo large i = 0 := by
  have hcut : (dataPacket.take 16)[i - 16360]? = none :=
    List.getElem?_eq_none (by rw [length_take]; omega)
  have hrest : (dataPacket.take 16).drop 16 = [] := by decide
  have hlen16 : (dataPacket.take 16).length = 16 := by decide
  have hge : 16360 ≤ i := by omega
  simp [cutFifo, Ring.write, Ring.copyTo, FIFO_SIZE, take_of_length_le, hlen, hrest, hlen16,
    hge, hcut]

theorem rxAdvance_mk {count : Nat} (tail' : Nat)
    (htail : (Pipe.rxAdvance ⟨n, head, tail, fun _ => 0⟩ count).tail = tail') :
    Pipe.rxAdvance ⟨n, head, tail, fifo⟩ count = ⟨n, head, tail', fifo⟩ := by
  rw [← htail]
  rfl

section
variable (hlen : large.length = 16360)
include hlen

theorem cutFifo_next :
    Pipe.Holds ⟨FIFO_SIZE, 16376, 16360, cutFifo large⟩ (dataPacket.take 16) := by
  have hle : 16360 ≤ (large ++ dataPacket.take 16).length := by simp [hlen]
  have h := (cutFifo_holds hlen).rxAdvance hle
  rw [rxAdvance_mk 16360 (by decide)] at h
  have hdrop : (large ++ dataPacket.take 16).drop 16360 = dataPacket.take 16 := by
    rw [← hlen, drop_left]
  rwa [hdrop] at h

theorem qrtrPeekPktSize_cut :
    qrtrPeekPktSize (rxPeak ⟨FIFO_SIZE, 16376, 16360, cutFifo large⟩ 0 32) = (32 : Nat) := by
  have hholds := cutFifo_next hlen
  have h32 : 32 ≤ FIFO_SIZE := by decide
  have hver : byteAt (rxPeak ⟨FIFO_SIZE, 16376, 16360, cutFifo large⟩ 0 32) 0 =
      QRTR_PROTO_VER_1 := by
    have h := hholds.read_take h32 (by decide : 16 ≤ 32) (by decide)
    exact byteAt_of_take h (by decide)
  have hstale : ∀ i, 16 ≤ i → i < 24 →
      byteAt (rxPeak ⟨FIFO_SIZE, 16376, 16360, cutFifo large⟩ 0 32) i = 0 := by
    intro i hi hi'
    have hmod : (16360 + i) % FIFO_SIZE = 16360 + i := Nat.mod_eq_of_lt (by rw [FIFO_SIZE]; omega)
    have hlt : i < 32 := by omega
    have hzero := cutFifo_stale hlen (show 16376 ≤ 16360 + i by omega)
    rw [rxPeak_zero hholds, Ring.read_eq_contents _ hholds.tail_lt h32, byteAt, Ring.contents,
      List.getElem?_map, List.getElem?_range hlt]
    simp only [Option.map_some, Option.getD_some, hmod, hzero]
  simp [qrtrPeekPktSize, hver, le32ToCpu, hstale, align4, toInt]

theorem qrtrPeekPktSize_large (hhdr : large.take 32 = largeHeader) :
    qrtrPeekPktSize (rxPeak ⟨FIFO_SIZE, 16376, 0, cutFifo large⟩ 0 32) = (16360 : Nat) := by
  have hholds := cutFifo_holds hlen
  rw [rxPeak_zero hholds, hholds.read (by rw [length_append]; omega),
    take_append_of_le_length (by omega), hhdr]
  decide

end

theorem writeStep_chunk (avail left : Nat) (havail : txAvail s.pipe = avail)
    (hleft : s.skb.flatten.length - s.offset = left) (hpos : 0 < min avail left) :
    writeStep s =
      { s with
        pipe := txWrite s.pipe ((s.skb.flatten.drop s.offset).take (min avail left))
        offset := s.offset + min avail left } := by
  subst havail hleft
  exact writeStep_eq (by omega)

theorem run_cut (hlen : large.length = 16360) (hhdr : large.take 32 = largeHeader) :
    ∃ s first second, run step (initial (fun _ => 0) fun _ => 0)
        [.send [large], .write, .send [dataPacket], .write, .read, .read, .write, .read] = some s ∧
      s.sent = [large, dataPacket] ∧ s.posted = [first, second] ∧ second.length = 32 := by
  let zero : Nat → UInt8 := fun _ => 0
  let fifo := Ring.write FIFO_SIZE zero 0 large
  let buf := Ring.copyTo zero 0 (rxPeak ⟨FIFO_SIZE, 16376, 0, cutFifo large⟩ 0 16360)
  let buf' := Ring.copyTo buf 0 (rxPeak ⟨FIFO_SIZE, 16376, 16360, cutFifo large⟩ 0 16)
  let fifo' := Ring.write FIFO_SIZE (cutFifo large) 16376 (dataPacket.drop 16)
  let posted := [Ring.copyFrom buf 0 16360]
  -- the two sends and their chunks: 16360 bytes, then 16 of the second packet
  refine ⟨_, Ring.copyFrom buf 0 16360,
    Ring.copyFrom (Ring.copyTo buf' 16 (rxPeak ⟨FIFO_SIZE, 12, 16376, fifo'⟩ 0 16)) 0 32,
    (run_cons_of_step (t := ⟨⟨FIFO_SIZE, 0, 0, zero⟩, [large], 0, ⟨zero, 0, 0⟩, [large], []⟩)
      ?send _).trans <|
    (run_cons_of_step (t := ⟨⟨FIFO_SIZE, 16360, 0, fifo⟩, [large], 16360, ⟨zero, 0, 0⟩, [large],
      []⟩) ?write _).trans <|
    (run_cons_of_step (t := ⟨⟨FIFO_SIZE, 16360, 0, fifo⟩, [dataPacket], 0, ⟨zero, 0, 0⟩,
      [large, dataPacket], []⟩) ?send' _).trans <|
    (run_cons_of_step (t := ⟨⟨FIFO_SIZE, 16376, 0, cutFifo large⟩, [dataPacket], 16, ⟨zero, 0, 0⟩,
      [large, dataPacket], []⟩) ?cut _).trans <|
    (run_cons_of_step (t := ⟨⟨FIFO_SIZE, 16376, 16360, cutFifo large⟩, [dataPacket], 16,
      ⟨buf, 0, 0⟩, [large, dataPacket], posted⟩) ?read _).trans <|
    (run_cons_of_step (t := ⟨⟨FIFO_SIZE, 16376, 16376, cutFifo large⟩, [dataPacket], 16,
      ⟨buf', 32, 16⟩, [large, dataPacket], posted⟩) ?short _).trans <|
    (run_cons_of_step (t := ⟨⟨FIFO_SIZE, 12, 16376, fifo'⟩, [dataPacket], 36, ⟨buf', 32, 16⟩,
      [large, dataPacket], posted⟩) ?rest _).trans rfl, ?sent, ?posted, Ring.length_copyFrom _ _ _⟩
  case send => simp [step, initial, zero]
  case write =>
    have hdata : ([large].flatten.drop 0).take 16360 = large := by
      simp [take_of_length_le, hlen]
    rw [step, writeStep_chunk 16376 16360 rfl (by simp [hlen]) (by decide),
      show min 16376 16360 = 16360 from rfl]
    simp only [hdata]
    rw [txWrite_mk 16360 (by decide) (by rw [hlen]; decide)]
  case send' => simp [step, hlen]
  case cut =>
    rw [step, writeStep_chunk 16 36 (by rw [txAvail_mk]; decide) rfl
      (by decide), show min 16 36 = 16 from rfl]
    rfl
  case read =>
    have havail : Pipe.rxAvail ⟨FIFO_SIZE, 16376, 0, cutFifo large⟩ = 16376 := by
      rw [rxAvail_mk]
      decide
    rw [step, readStep, if_neg (by rw [havail]; decide), if_neg (by simp),
      readNew_eq (qrtrPeekPktSize_large hlen hhdr) (by decide)]
    simp only [havail, show min 16360 16376 = 16360 from rfl, if_true]
    rw [rxAdvance_mk 16360 (by decide)]
    rfl
  case short =>
    have havail : Pipe.rxAvail ⟨FIFO_SIZE, 16376, 16360, cutFifo large⟩ = 16 := by
      rw [rxAvail_mk]
      decide
    rw [step, readStep, if_neg (by rw [havail]; decide), if_neg (by simp), readNew_eq
      (s := ⟨⟨FIFO_SIZE, 16376, 16360, cutFifo large⟩, _, _, _, _, _⟩) (qrtrPeekPktSize_cut hlen)
      (by decide)]
    simp only [havail, show min 32 16 = 16 from rfl, show ¬ 16 = 32 by decide, if_false]
    rw [rxAdvance_mk 16376 (by decide)]
  case rest =>
    rw [step, writeStep_chunk 16376 20 (by rw [txAvail_mk]; decide) rfl
      (by decide), show min 16376 20 = 20 from rfl]
    simp only [show ([dataPacket].flatten.drop 16).take 20 = dataPacket.drop 16 from rfl]
    rw [txWrite_mk 12 (by decide) (by decide)]
  all_goals
    have havail : Pipe.rxAvail ⟨FIFO_SIZE, 12, 16376, fifo'⟩ = 20 := by
      rw [rxAvail_mk]
      decide
    rw [readStep, if_neg (by rw [havail]; decide), if_pos (show (16 : Nat) ≠ 0 by decide)]
    simp [readFrag, havail]
  rfl

end ShortSizeField

/-- A packet of 16360 bytes followed by one of 36: the second is cut to 32 bytes, because the
reader met it with 16 bytes published. -/
theorem short_size_field_breaks_framing :
    ∃ large s, WellFormed large ∧ WellFormed dataPacket ∧
      run step (initial (fun _ => 0) fun _ => 0)
        [.send [large], .write, .send [dataPacket], .write, .read, .read, .write, .read] = some s ∧
      s.sent = [large, dataPacket] ∧ ¬ s.posted <+: s.sent := by
  let large := largeHeader ++ List.replicate 16328 0
  have hlen : large.length = 16360 := by
    rw [length_append, length_replicate]
    rfl
  have hbyte : ∀ i, i < 32 → byteAt large i = byteAt largeHeader i := fun i hi =>
    byteAt_of_take (m := 32) (take_left' rfl) hi
  have hlarge : WellFormed large := by
    refine ⟨by rw [hlen]; decide, Or.inl ⟨hbyte 0 (by decide), ?_⟩⟩
    rw [hlen, le32ToCpu, hbyte 20 (by decide), hbyte 21 (by decide), hbyte 22 (by decide),
      hbyte 23 (by decide)]
    rfl
  obtain ⟨s, first, second, hrun, hsent, hposted, hsecond⟩ :=
    run_cut hlen (take_left' rfl)
  refine ⟨large, s, hlarge, by decide, hrun, hsent, ?_⟩
  rw [hposted, hsent]
  rintro ⟨rest, hrest⟩
  have hsame : second = dataPacket := by
    simp only [cons_append, nil_append, List.cons.injEq] at hrest
    exact hrest.2.1
  rw [hsame] at hsecond
  exact absurd hsecond (by decide)

end MsmKernel.Qrtr.Gunyah
