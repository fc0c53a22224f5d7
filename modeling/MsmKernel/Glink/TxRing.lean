import MsmKernel.Glink.Tx

/-! The transmit ring never overruns. The flag `sent_read_notify` is down only while both
reserves are free, so the notification that is written without a look at the free space fits. -/

namespace MsmKernel.Glink

open Run Qrtr List Option
open Qrtr (Pipe)

variable {pipe : Pipe} {bytes unread : List UInt8} {n : Nat} {g : Link} {c : Call}

/-- The frames one after the other, each filled up to a multiple of 8 with bytes of any value. -/
def Padded : List (List UInt8) → List UInt8 → Prop
  | [], bytes => bytes = []
  | frame :: frames, bytes => ∃ pad rest, bytes = frame ++ pad ++ rest ∧
      (frame ++ pad).length = align8 frame.length ∧ Padded frames rest

theorem Padded.append {frames : List (List UInt8)} (h : Padded frames bytes)
    (frame pad : List UInt8) (hpad : (frame ++ pad).length = align8 frame.length) :
    Padded (frames ++ [frame]) (bytes ++ (frame ++ pad)) := by
  induction frames generalizing bytes with
  | nil =>
    obtain rfl : bytes = [] := h
    exact ⟨pad, [], by simp, hpad, rfl⟩
  | cons f fs ih =>
    obtain ⟨pad', rest, rfl, hlen, hrest⟩ := h
    exact ⟨pad', rest ++ (frame ++ pad), by simp, hlen, ih hrest⟩

theorem align8_ge (x : Nat) : x ≤ align8 x := by
  unfold align8
  omega

theorem align8_dvd (x : Nat) : 8 ∣ align8 x := Nat.dvd_mul_left 8 _

variable {x head count : Nat} {data hdr : List UInt8} {e : Event} {g' : Link}

theorem align8_le {m : Nat} (hm : 8 ∣ m) (h : x ≤ m) : align8 x ≤ m := by
  unfold align8
  omega

theorem holds_grow (h : pipe.Holds bytes) (k : Nat) (hroom : bytes.length + k < pipe.length)
    (hhead : head = (pipe.head + k) % pipe.length) :
    Pipe.Holds { pipe with head }
      (bytes ++ Ring.contents pipe.length pipe.fifo pipe.head k) := by
  refine ⟨h.tail_lt, ?_, ?_, ?_⟩
  · simpa using hroom
  · simp only [hhead, h.head, length_append, Ring.length_contents, Nat.mod_add_mod, Nat.add_assoc]
  · simp only [length_append, Ring.length_contents]
    rw [Ring.contents_add, h.contents, ← h.head]

theorem txWriteOne_eq (fifo : Nat → UInt8) {length : Nat} (hhead : head < length)
    (hfit : data.length ≤ length) :
    glinkSmemTxWriteOne length fifo head data =
      (Ring.write length fifo head data, (head + data.length) % length) := by
  have hmod := Ring.mod_of_lt_two_mul (x := head + data.length) (n := length) (by omega)
  have hwrap : (if head + data.length ≥ length then head + data.length - length
      else head + data.length) = (head + data.length) % length := by
    rw [hmod]
    split_ifs <;> omega
  simp only [glinkSmemTxWriteOne, if_neg (Nat.not_lt.mpr hhead.le), hwrap]

theorem txWriteOne_holds (h : pipe.Holds bytes) (data : List UInt8)
    (hfit : bytes.length + data.length + 8 ≤ pipe.length) :
    let one := glinkSmemTxWriteOne pipe.length pipe.fifo pipe.head data
    one.2 = (pipe.head + data.length) % pipe.length ∧
      Pipe.Holds { pipe with fifo := one.1, head := one.2 } (bytes ++ data) := by
  rw [txWriteOne_eq pipe.fifo h.head_lt (by omega)]
  refine ⟨rfl, h.append ?_ rfl⟩
  rw [h.txAvail_eq, Pipe.FIFO_FULL_RESERVE]
  omega

/-- The head behind the padding: both roundings fill up the same way. -/
theorem align_head {t n : Nat} (hn : 8 ∣ n) (hhead : 8 ∣ head) (hlt : head < n)
    (ht : align8 t ≤ n) (hx : x = (head + t) % n) :
    (if align8 x ≥ n then align8 x - n else align8 x) = (x + (align8 t - t)) % n := by
  have hge := align8_ge t
  have hmod := Ring.mod_of_lt_two_mul (x := head + t) (n := n) (by omega)
  have hxn : x < n := hx ▸ Nat.mod_lt _ (by omega)
  have hround : align8 x = x + (align8 t - t) := by
    rw [hmod] at hx
    unfold align8 at ht ⊢
    split_ifs at hx <;> omega
  have hxle : align8 x ≤ n := align8_le hn hxn.le
  rw [← hround]
  split_ifs with hwrap
  · obtain heq : align8 x = n := by omega
    simp [heq]
  · exact (Nat.mod_eq_of_lt (by omega)).symm

/-- A write that leaves 8 bytes free appends header, data and padding. -/
theorem txWrite_holds (h : pipe.Holds bytes) (hn : 8 ∣ pipe.length) (hhead : 8 ∣ pipe.head)
    (hfit : bytes.length + align8 (hdr.length + data.length) + 8 ≤ pipe.length) :
    ∃ pad, (hdr ++ data ++ pad).length = align8 (hdr ++ data).length ∧
      (glinkSmemTxWrite pipe hdr data).Holds (bytes ++ (hdr ++ data ++ pad)) := by
  have hge := align8_ge (hdr.length + data.length)
  have hle : align8 (hdr.length + data.length) ≤ pipe.length := by omega
  obtain ⟨hone, hfirst⟩ := txWriteOne_holds h hdr (by omega)
  obtain ⟨htwo, hsecond⟩ := txWriteOne_holds hfirst data (by
    simp only [length_append]
    omega)
  have hsum : (glinkSmemTxWriteOne pipe.length
      (glinkSmemTxWriteOne pipe.length pipe.fifo pipe.head hdr).1
      (glinkSmemTxWriteOne pipe.length pipe.fifo pipe.head hdr).2 data).2 =
        (pipe.head + (hdr.length + data.length)) % pipe.length := by
    rw [htwo, hone, Nat.mod_add_mod, Nat.add_assoc]
  have hgrow := holds_grow hsecond (align8 (hdr.length + data.length) - (hdr.length + data.length))
    (by
      simp only [length_append]
      omega)
    (align_head hn hhead h.head_lt hle hsum)
  obtain ⟨pad, hpad, hholds⟩ : ∃ pad,
      pad.length = align8 (hdr.length + data.length) - (hdr.length + data.length) ∧
        (glinkSmemTxWrite pipe hdr data).Holds (bytes ++ hdr ++ data ++ pad) :=
    ⟨_, Ring.length_contents .., hgrow⟩
  refine ⟨pad, ?_, by simpa only [append_assoc] using hholds⟩
  simp only [length_append, hpad]
  omega

theorem txAvail_eq (h : pipe.Holds bytes) :
    glinkSmemTxAvail pipe = pipe.length - bytes.length - 16 := by
  simp only [glinkSmemTxAvail, FIFO_FULL_RESERVE, TX_BLOCKED_CMD_RESERVE]
  rcases h.head_cases with hc | hc <;> split_ifs <;> omega

structure Inv (n : Nat) (g : Link) (unread : List UInt8) : Prop where
  length : g.txPipe.length = n
  holds : g.txPipe.Holds unread
  tail_dvd : 8 ∣ g.txPipe.tail
  unread_dvd : 8 ∣ unread.length
  spare : unread.length + 8 ≤ n
  reserve : g.sentReadNotify = false → unread.length + 16 ≤ n
  stream : Padded (g.log.map Item.bytes) (g.got ++ unread)
  results : g.log.filterMap Item.call? = (g.returned.filter (·.2 == 0)).map (·.1)

section Steps

variable (hn : 8 ∣ n)
include hn

section
variable (hI : Inv n g unread)
include hI

theorem Inv.head_dvd : 8 ∣ g.txPipe.head := by
  have hdvd := Nat.dvd_add hI.tail_dvd hI.unread_dvd
  rw [hI.holds.head, hI.length]
  exact (Nat.dvd_mod_iff hn).mpr hdvd

theorem Inv.write {item : Item} (hbytes : item.bytes = hdr ++ data)
    (hfit : unread.length + align8 (hdr.length + data.length) + 8 ≤ n) :
    ∃ more, more.length = align8 (hdr.length + data.length) ∧
      (glinkSmemTxWrite g.txPipe hdr data).Holds (unread ++ more) ∧
      Padded ((g.log ++ [item]).map Item.bytes) (g.got ++ (unread ++ more)) := by
  obtain ⟨pad, hpad, hholds⟩ := txWrite_holds hI.holds (hI.length ▸ hn) (hI.head_dvd hn)
    (hI.length ▸ hfit)
  refine ⟨hdr ++ data ++ pad, by simpa using hpad, hholds, ?_⟩
  have hstream := hI.stream.append item.bytes pad (hbytes ▸ hpad)
  simpa [hbytes] using hstream

theorem Inv.message (hroom : ¬ glinkSmemTxAvail g.txPipe < c.tlen) :
    ∃ more, Inv n (Link.finish { g with
      txPipe := glinkSmemTxWrite g.txPipe c.hdr c.data
      log := g.log ++ [.message c] } c 0) (unread ++ more) := by
  rw [txAvail_eq hI.holds, hI.length] at hroom
  have hspare := hI.spare
  have hunread := hI.unread_dvd
  have hfit : align8 c.tlen = 0 ∨ unread.length + align8 c.tlen + 16 ≤ n := by
    unfold align8
    omega
  have hbytes : (Item.message c).bytes = c.hdr ++ c.data := rfl
  obtain ⟨more, hlen, hholds, hstream⟩ := hI.write hn hbytes
    (show unread.length + align8 c.tlen + 8 ≤ n by omega)
  change more.length = align8 c.tlen at hlen
  have hdvd : 8 ∣ (unread ++ more).length := by
    rw [length_append, hlen]
    exact Nat.dvd_add hunread (align8_dvd _)
  refine ⟨more, hI.length, hholds, hI.tail_dvd, hdvd, ?_, fun hflag => ?_, hstream, ?_⟩
  · rw [length_append, hlen]
    omega
  · have := hI.reserve hflag
    rw [length_append, hlen]
    omega
  · simp [Link.finish, Item.call?, hI.results]

/-- The notification is written only while both reserves are free. -/
theorem Inv.readNotify (hflag : g.sentReadNotify = false) :
    ∃ more, Inv n (qcomGlinkSendReadNotify { g with sentReadNotify := true }) (unread ++ more) := by
  have hreserve := hI.reserve hflag
  have hbytes : Item.readNotif.bytes = readNotifMsg ++ [] := rfl
  obtain ⟨more, hlen, hholds, hstream⟩ := hI.write hn hbytes
    (show unread.length + 8 + 8 ≤ n by omega)
  change more.length = 8 at hlen
  have hdvd : 8 ∣ (unread ++ more).length := by
    rw [length_append, hlen]
    exact Nat.dvd_add hI.unread_dvd (Nat.dvd_refl 8)
  refine ⟨more, hI.length, hholds, hI.tail_dvd, hdvd, ?_, by simp [qcomGlinkSendReadNotify],
    hstream, ?_⟩
  · rw [length_append, hlen]
    omega
  · simp [qcomGlinkSendReadNotify, Item.call?, hI.results]

end

omit hn in
theorem Inv.refused (hI : Inv n g unread) {ret : Int} (hret : ret ≠ 0) :
    Inv n (g.finish c ret) unread :=
  ⟨hI.length, hI.holds, hI.tail_dvd, hI.unread_dvd, hI.spare, hI.reserve, hI.stream, by
    simp [Link.finish, hret, hI.results]⟩

omit hn in
theorem Inv.setWaiting (hI : Inv n g unread) (ws : List Call) :
    Inv n { g with waiting := ws } unread :=
  ⟨hI.length, hI.holds, hI.tail_dvd, hI.unread_dvd, hI.spare, hI.reserve, hI.stream, hI.results⟩

variable (hI : Inv n g unread)
include hI

theorem Inv.txLoop (c : Call) : ∃ more, Inv n (qcomGlinkTxLoop g c) (unread ++ more) := by
  unfold qcomGlinkTxLoop
  by_cases hroom : glinkSmemTxAvail g.txPipe < c.tlen
  · rw [if_pos hroom]
    cases c.wait with
    | false => exact ⟨[], by simpa using hI.refused (by decide)⟩
    | true =>
      cases habort : g.abortTx with
      | true => exact ⟨[], by simpa using hI.refused (by decide)⟩
      | false =>
        cases hflag : g.sentReadNotify with
        | true => exact ⟨[], by simpa [hflag] using hI.setWaiting _⟩
        | false =>
          obtain ⟨more, hmore⟩ := hI.readNotify hn hflag
          exact ⟨more, by simpa [hflag, habort, qcomGlinkSendReadNotify] using hmore.setWaiting _⟩
  · rw [if_neg hroom]
    exact hI.message hn hroom

theorem Inv.tx (c : Call) : ∃ more, Inv n (qcomGlinkTx g c) (unread ++ more) := by
  unfold qcomGlinkTx
  by_cases hbig : c.tlen ≥ g.txPipe.length
  · exact ⟨[], by simpa [hbig] using hI.refused (by decide)⟩
  · cases habort : g.abortTx with
    | true => exact ⟨[], by simpa [hbig] using hI.refused (by decide)⟩
    | false => simpa [hbig] using hI.txLoop hn c

theorem Inv.wake (hlen : 0 < c.tlen) : ∃ more, Inv n (qcomGlinkTxWake g c) (unread ++ more) := by
  unfold qcomGlinkTxWake
  by_cases hroom : glinkSmemTxAvail g.txPipe ≥ c.tlen
  · have hfree := hroom
    rw [txAvail_eq hI.holds, hI.length] at hfree
    have hI' : Inv n { g with sentReadNotify := false } unread :=
      ⟨hI.length, hI.holds, hI.tail_dvd, hI.unread_dvd, hI.spare, fun _ => by omega, hI.stream,
        hI.results⟩
    simpa [hroom] using hI'.txLoop hn c
  · simpa [hroom] using hI.txLoop hn c

end Steps

theorem rxPeek_eq (h : pipe.Holds bytes) (hcount : count ≤ bytes.length) :
    glinkSmemRxPeek pipe 0 count = bytes.take count := by
  have htail := h.tail_lt
  rw [← h.read hcount]
  simp only [glinkSmemRxPeek, Nat.add_zero]
  rw [if_neg (by omega), if_neg (by omega)]

theorem Inv.read (hn : 8 ∣ n) (hI : Inv n g unread) (hdvd : 8 ∣ count)
    (hcount : count ≤ g.txPipe.rxAvail) :
    Inv n { g with
      txPipe := g.txPipe.rxAdvance count
      got := g.got ++ glinkSmemRxPeek g.txPipe 0 count } (unread.drop count) := by
  rw [hI.holds.rxAvail_eq] at hcount
  have hholds := hI.holds.rxAdvance hcount
  have hunread := hI.unread_dvd
  have htail : 8 ∣ (g.txPipe.rxAdvance count).tail := by
    have hsum := Nat.dvd_add hI.tail_dvd hdvd
    simp only [Pipe.rxAdvance, hI.length]
    split_ifs
    · exact (Nat.dvd_mod_iff hn).mpr hsum
    · exact hsum
  refine ⟨hI.length, hholds, htail, ?_, ?_, fun hflag => ?_, ?_, hI.results⟩
  · rw [length_drop]
    exact Nat.dvd_sub hunread hdvd
  · have := hI.spare
    rw [length_drop]
    omega
  · have := hI.reserve hflag
    rw [length_drop]
    omega
  · rw [rxPeek_eq hI.holds hcount, append_assoc, take_append_drop]
    exact hI.stream

/-- Calls that wait are those that found no room, so they are not empty. -/
def WaitersNonempty (g : Link) : Prop := ∀ c ∈ g.waiting, 0 < c.tlen

theorem WaitersNonempty.txLoop (h : WaitersNonempty g) (c : Call) :
    WaitersNonempty (qcomGlinkTxLoop g c) := by
  unfold qcomGlinkTxLoop
  by_cases hroom : glinkSmemTxAvail g.txPipe < c.tlen
  · rw [if_pos hroom]
    have hpos : 0 < c.tlen := by omega
    have hmore : ∀ d ∈ g.waiting ++ [c], 0 < d.tlen := by
      intro d hd
      rcases mem_append.mp hd with hd | hd
      · exact h d hd
      · exact mem_singleton.mp hd ▸ hpos
    split_ifs
    · exact h
    · exact h
    · exact hmore
    · exact hmore
  · rw [if_neg hroom]
    exact h

theorem WaitersNonempty.step (h : WaitersNonempty g) (hstep : Glink.step g e = some g') :
    WaitersNonempty g' := by
  cases e with
  | tx c =>
    obtain rfl := some.inj hstep
    unfold qcomGlinkTx
    split_ifs
    · exact h
    · exact h
    · exact h.txLoop c
  | wake i =>
    obtain ⟨c, -, rfl⟩ := map_eq_some_iff.mp hstep
    have herase : WaitersNonempty { g with waiting := g.waiting.eraseIdx i } :=
      fun d hd => h d (mem_of_mem_eraseIdx hd)
    refine WaitersNonempty.txLoop ?_ c
    split_ifs
    · exact herase
    · exact herase
  | abort =>
    obtain rfl := some.inj hstep
    exact h
  | read count =>
    obtain ⟨-, hw⟩ := ite_none_right_eq_some.mp hstep
    obtain rfl := some.inj hw
    exact h

theorem txLoop_got (g : Link) (c : Call) : (qcomGlinkTxLoop g c).got = g.got := by
  unfold qcomGlinkTxLoop
  split_ifs <;> rfl

theorem tx_got (g : Link) (c : Call) : (qcomGlinkTx g c).got = g.got := by
  unfold qcomGlinkTx
  split_ifs
  · rfl
  · rfl
  · exact txLoop_got g c

theorem wake_got (g : Link) (c : Call) : (qcomGlinkTxWake g c).got = g.got := by
  unfold qcomGlinkTxWake
  rw [txLoop_got]
  split_ifs <;> rfl

/-- Every step keeps the ring sound and only adds to the bytes read and still to be read. -/
theorem step_inv (hn : 8 ∣ n) (hI : Inv n g unread) (hwait : WaitersNonempty g)
    (hstep : step g e = some g') :
    ∃ unread', Inv n g' unread' ∧ g.got ++ unread <+: g'.got ++ unread' := by
  cases e with
  | tx c =>
    obtain rfl := some.inj hstep
    obtain ⟨more, hmore⟩ := hI.tx hn c
    refine ⟨_, hmore, ?_⟩
    rw [tx_got, ← append_assoc]
    exact prefix_append _ more
  | wake i =>
    obtain ⟨c, hc, rfl⟩ := map_eq_some_iff.mp hstep
    have hpos := hwait c (mem_of_getElem? hc)
    obtain ⟨more, hmore⟩ := (hI.setWaiting (g.waiting.eraseIdx i)).wake hn hpos
    refine ⟨_, hmore, ?_⟩
    rw [wake_got, ← append_assoc]
    exact prefix_append _ more
  | abort =>
    obtain rfl := some.inj hstep
    exact ⟨unread, ⟨hI.length, hI.holds, hI.tail_dvd, hI.unread_dvd, hI.spare, hI.reserve,
      hI.stream, hI.results⟩, prefix_rfl⟩
  | read count =>
    obtain ⟨⟨hdvd, hcount⟩, hw⟩ := ite_none_right_eq_some.mp hstep
    obtain rfl := some.inj hw
    refine ⟨_, hI.read hn hdvd hcount, ?_⟩
    rw [hI.holds.rxAvail_eq] at hcount
    refine ⟨[], ?_⟩
    rw [rxPeek_eq hI.holds hcount, append_nil, append_assoc, take_append_drop]

theorem Inv.initial (hn : 16 < n) (fifo : Nat → UInt8) : Inv n (Link.initial n fifo) [] :=
  ⟨rfl, Pipe.holds_nil fifo (by omega), Nat.dvd_zero 8, Nat.dvd_zero 8, by simp; omega,
    fun _ => by simp; omega, rfl, rfl⟩

theorem Inv.unread_eq (hI : Inv n g unread) : g.unread = unread := by
  rw [Link.unread, hI.holds.rxAvail_eq, rxPeek_eq hI.holds le_rfl, take_length]

theorem run_inv (hn : 8 ∣ n) (hbig : 16 < n) {fifo : Nat → UInt8} {es : List Event}
    (hrun : run step (Link.initial n fifo) es = some g) :
    (∃ unread, Inv n g unread) ∧ WaitersNonempty g := by
  refine run_invariant (I := fun g => (∃ unread, Inv n g unread) ∧ WaitersNonempty g)
    (fun g e g' ⟨⟨unread, hI⟩, hwait⟩ _ hstep => ?_) ?_ (along_true _ es) hrun
  · obtain ⟨unread', hI', -⟩ := step_inv hn hI hwait hstep
    exact ⟨⟨unread', hI'⟩, hwait.step hstep⟩
  · exact ⟨⟨[], Inv.initial hbig fifo⟩, fun c hc => by simp [Link.initial] at hc⟩

/-- However the writers and the remote interleave: head and tail stay aligned inside the ring, 8
bytes stay free, the bytes taken out and those still in the ring are the frames put in, padded,
in the order of the lock, the messages among them being the calls that returned 0; and no step
changes a byte that was not read yet. -/
theorem tx_ring_never_overruns (n : Nat) (hn : 8 ∣ n) (hbig : 16 < n) (fifo : Nat → UInt8)
    (es : List Event) (g : Link) (hrun : run step (Link.initial n fifo) es = some g) :
    (8 ∣ g.txPipe.head ∧ g.txPipe.head < n ∧ 8 ∣ g.txPipe.tail ∧ g.txPipe.tail < n) ∧
    g.txPipe.rxAvail + 8 ≤ n ∧
    Padded (g.log.map Item.bytes) (g.got ++ g.unread) ∧
    g.log.filterMap Item.call? = (g.returned.filter (·.2 == 0)).map (·.1) ∧
    ∀ e g', step g e = some g' → g.got ++ g.unread <+: g'.got ++ g'.unread := by
  obtain ⟨⟨unread, hI⟩, hwait⟩ := run_inv hn hbig hrun
  refine ⟨⟨hI.head_dvd hn, ?_, hI.tail_dvd, ?_⟩, ?_, ?_, hI.results, fun e g' hstep => ?_⟩
  · exact hI.length ▸ hI.holds.head_lt
  · exact hI.length ▸ hI.holds.tail_lt
  · rw [hI.holds.rxAvail_eq]
    exact hI.spare
  · rw [hI.unread_eq]
    exact hI.stream
  · obtain ⟨unread', hI', hprefix⟩ := step_inv hn hI hwait hstep
    rw [hI.unread_eq, hI'.unread_eq]
    exact hprefix

def callOf (writer : Nat) (size : Fin 16) : Call :=
  ⟨writer, List.replicate 8 1, List.replicate size 2, true, by simp; omega⟩

def twoWaiters : List Event :=
  [.tx (callOf 0 3), .tx (callOf 1 2), .tx (callOf 2 0), .read 16, .wake 1, .read 16, .wake 0]

theorem tx_ring_two_waiters :
    ∃ g, run step (Link.initial 32 fun _ => 0) twoWaiters = some g ∧
      (g.log.length = 4 ∧ g.waiting = [] ∧ g.sentReadNotify = false) ∧
      Padded (g.log.map Item.bytes) (g.got ++ g.unread) :=
  exists_run_and (by decide +kernel) fun g hrun _ =>
    (tx_ring_never_overruns 32 (by decide) (by decide) (fun _ => 0) twoWaiters g hrun).2.2.1

end MsmKernel.Glink
