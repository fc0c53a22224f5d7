import MsmKernel.MemOffline.Requests

/-! Online memory is refreshed: block states, online bitmaps and the controller's state agree
in every run in which no request to stop a segment's refresh is refused. -/

namespace MsmKernel.MemOffline

open Run Function List Option

variable {L : Layout} {w : World} {b c i j n : Nat} {s t : SegmentInfo}

/-- The core may hand out pages of the block: it is online, or about to be. -/
def World.inUse (w : World) (b : Nat) : Prop :=
  w.blockOnline b = true ∨ w.pending = some (.goingOnline b true)

open World

instance (w : World) (b : Nat) : Decidable (w.inUse b) := inferInstanceAs (Decidable (_ ∨ _))

def Refreshed (L : Layout) (w : World) : Prop :=
  ∀ b < L.numBlocks, w.inUse b → ∀ s ∈ L.segmentInfos, L.overlaps s b → w.refresh s.startAddr = true

instance (L : Layout) (w : World) : Decidable (Refreshed L w) := by
  unfold Refreshed
  infer_instance

def IdleUnrefreshed (L : Layout) (w : World) : Prop :=
  ∀ s ∈ L.segmentInfos, (∀ b < L.numBlocks, L.overlaps s b → ¬ w.inUse b) →
    w.refresh s.startAddr = false

instance (L : Layout) (w : World) : Decidable (IdleUnrefreshed L w) := by
  unfold IdleUnrefreshed
  infer_instance

def Layout.FewBlocks (L : Layout) : Prop := ∀ s ∈ L.segmentInfos, s.segSize ≤ 31 * L.blockSize

def Layout.Covered (L : Layout) : Prop :=
  ∀ s ∈ L.segmentInfos, ∃ f m, s.startAddr = L.blockAddr f ∧ s.segSize = m * L.blockSize ∧
    f + m ≤ L.numBlocks

def Event.offGranted : Event → Prop
  | .cancelOnline _ a => ∀ j, a.sent j = true
  | .offline _ a => ∀ j, a.sent j = true
  | _ => True

def Layout.blockBit (L : Layout) (b : Nat) (s : SegmentInfo) : Nat :=
  (L.blockAddr b - s.startAddr) / L.blockSize

theorem blockAddr_add_le (h : b < c) : L.blockAddr b + L.blockSize ≤ L.blockAddr c := by
  have : (b + 1) * L.blockSize ≤ c * L.blockSize := Nat.mul_le_mul_right _ h
  rw [Nat.add_mul, Nat.one_mul] at this
  unfold Layout.blockAddr
  omega

section
variable (hL : L.Valid)
include hL

theorem blockBit_lt (hs : s.startAddr ≤ L.blockAddr b) (h : b < c) :
    L.blockBit b s < L.blockBit c s := by
  have hstep : L.blockAddr b - s.startAddr + L.blockSize ≤ L.blockAddr c - s.startAddr := by
    have := blockAddr_add_le (L := L) h
    omega
  have hdiv := Nat.div_le_div_right (c := L.blockSize) hstep
  rw [Nat.add_div_right _ hL.blockSize_pos] at hdiv
  exact hdiv

theorem blockBit_ne (hb : s.startAddr ≤ L.blockAddr b) (hc : s.startAddr ≤ L.blockAddr c)
    (h : b ≠ c) : L.blockBit b s ≠ L.blockBit c s := by
  rcases Nat.lt_or_gt_of_ne h with hlt | hgt
  · exact (blockBit_lt hL hb hlt).ne
  · exact (blockBit_lt hL hc hgt).ne'

/-- A segment that overlaps a block either contains it or lies strictly inside it. -/
theorem Layout.Valid.overlaps_cases (hb : b < L.numBlocks) (hs : s ∈ L.segmentInfos)
    (hover : L.overlaps s b) : (L.blockSize ≤ s.segSize ∧ L.inside b s) ∨
      (s.segSize < L.blockSize ∧ L.blockAddr b ≤ s.startAddr ∧
        s.endAddr ≤ L.blockAddr b + L.blockSize) := by
  rcases hL.inside_or_split hb with ⟨t, ht, hin⟩ | ⟨u, v, ts, hts, hsize⟩
  · obtain rfl := hL.overlaps_of_inside ht hin hs hover
    obtain ⟨hlo, hhi⟩ := hin
    have hend : s.endAddr = s.startAddr + s.segSize := rfl
    exact .inl ⟨by omega, hlo, hhi⟩
  · have hmem := hL.overlaps_of_tiles hts hs hover
    exact .inr ⟨hsize s hmem, hts.within s hmem⟩

theorem Layout.Valid.inside_of_shared (hb : b < L.numBlocks) (hc : c < L.numBlocks) (hbc : b ≠ c)
    (hs : s ∈ L.segmentInfos) (hob : L.overlaps s b) (hoc : L.overlaps s c) :
    L.blockSize ≤ s.segSize ∧ L.inside b s ∧ L.inside c s := by
  rcases hL.overlaps_cases hb hs hob with ⟨hsize, hin⟩ | ⟨hsize, hlo, hhi⟩
  · rcases hL.overlaps_cases hc hs hoc with ⟨-, hin'⟩ | ⟨hsize', -⟩
    · exact ⟨hsize, hin, hin'⟩
    · omega
  · obtain ⟨hov1, hov2⟩ := hoc
    rcases Nat.lt_or_gt_of_ne hbc with hlt | hgt
    · have := blockAddr_add_le (L := L) hlt
      omega
    · have := blockAddr_add_le (L := L) hgt
      omega

/-- A segment of a block that its requests leave out is left out by every block. -/
theorem Layout.Valid.asked_or_unasked (hb : b < L.numBlocks) (hs : s ∈ L.segmentInfos)
    (hover : L.overlaps s b) : L.asked b s ∨ ∀ c < L.numBlocks, ¬ L.asked c s := by
  by_cases hask : L.asked b s
  · exact .inl hask
  · refine .inr fun c hc hcask => hask ?_
    by_cases hbc : b = c
    · exact hbc ▸ hcask
    · have hshared := hL.inside_of_shared hb hc hbc hs hover hcask.2.1
      exact ⟨hs, hover, .inl hshared.1⟩

/- The segment that holds a block's first byte, which keeps the block's bit. -/
structure Layout.Home (L : Layout) (b i : Nat) (s : SegmentInfo) : Prop where
  index : L.segmentInfos[i]? = some s
  start_le : s.startAddr ≤ L.blockAddr b
  lt_end : L.blockAddr b < s.endAddr

theorem Layout.inside.home (h : L.inside b s) (hi : L.segmentInfos[i]? = some s) :
    L.Home b i s := by
  have := hL.blockSize_pos
  obtain ⟨hlo, hhi⟩ := h
  exact ⟨hi, hlo, by omega⟩

theorem Layout.Valid.home (hb : b < L.numBlocks) : ∃ i s, L.Home b i s := by
  rcases hL.inside_or_split hb with ⟨s, hs, hin⟩ | ⟨s, t, ts, hts, -⟩
  · obtain ⟨i, hi⟩ := List.getElem?_of_mem hs
    exact ⟨i, s, hin.home hL hi⟩
  · have hmem := hts.mem s (by simp)
    obtain ⟨i, hi⟩ := List.getElem?_of_mem hmem
    have hstart : s.startAddr = L.blockAddr b := hts.1
    exact ⟨i, s, hi, hstart.le, hstart ▸ hL.endAddr_gt hmem⟩

end

theorem Layout.Home.mem (h : L.Home b i s) : s ∈ L.segmentInfos := mem_of_getElem? h.index

theorem Layout.Home.overlaps (h : L.Home b i s) (hL : L.Valid) : L.overlaps s b := by
  have := hL.blockSize_pos
  have := h.start_le
  exact ⟨by omega, h.lt_end⟩

theorem Layout.Home.unique (hL : L.Valid) (h : L.Home b i s) (h' : L.Home b j t) :
    i = j ∧ s = t := by
  obtain rfl := hL.index_unique h.index h'.index ⟨h.start_le, h.lt_end⟩ ⟨h'.start_le, h'.lt_end⟩
  exact ⟨rfl, some_inj.mp (h.index.symm.trans h'.index)⟩

theorem Layout.FewBlocks.blocks_le (hfew : L.FewBlocks) (hs : s ∈ L.segmentInfos) :
    max 1 (s.segSize / L.blockSize) ≤ 31 := by
  have := Nat.div_le_of_le_mul (Nat.mul_comm 31 L.blockSize ▸ hfew s hs)
  omega

theorem getLsbD_and_not_twoPow (x : BitVec 32) (k : Nat) :
    (x &&& ~~~BitVec.twoPow 32 k).getLsbD n = (x.getLsbD n && decide (n ≠ k)) := by
  by_cases hn : n < 32
  · by_cases hk : k = n
    · simp [hk, hn]
    · simp [hn, Ne.symm hk]
  · simp [BitVec.getLsbD_of_ge x n (by omega)]

theorem and_twoPow_eq_zero_iff (x : BitVec 32) {k : Nat} (hk : k < 32) :
    x &&& BitVec.twoPow 32 k = 0 ↔ x.getLsbD k = false := by
  rw [BitVec.and_twoPow]
  have hne : BitVec.twoPow 32 k ≠ 0 := by
    intro hzero
    have := congrArg (BitVec.getLsbD · k) hzero
    simp [hk] at this
  cases x.getLsbD k with
  | true => simpa using hne
  | false => simp

def writeBit (B : Nat → BitVec 32) (i k : Nat) (v : Bool) : Nat → BitVec 32 :=
  update B i (if v then B i ||| BitVec.twoPow 32 k else B i &&& ~~~BitVec.twoPow 32 k)

theorem getLsbD_writeBit (B : Nat → BitVec 32) {k : Nat} (hk : k < 32) (v : Bool) :
    (writeBit B i k v j).getLsbD n = if j = i ∧ n = k then v else (B j).getLsbD n := by
  by_cases hj : j = i
  · subst hj
    rw [writeBit, update_self]
    by_cases hn : n = k
    · cases v <;> simp [hn, hk]
    · cases v with
      | false => simp only [Bool.false_eq_true, if_false, getLsbD_and_not_twoPow, hn, ne_eq,
          not_false_eq_true, decide_true, Bool.and_true, and_false]
      | true => simp [hn, Ne.symm hn]
  · simp [writeBit, hj]

section Home

variable (hL : L.Valid) (hb : b < L.numBlocks) (h : L.Home b i s)
include hL hb h

theorem blockBit_lt_blocks : L.blockBit b s < max 1 (s.segSize / L.blockSize) := by
  have hend : s.endAddr = s.startAddr + s.segSize := rfl
  rcases hL.overlaps_cases hb h.mem (h.overlaps hL) with ⟨-, hin⟩ | ⟨-, hstart, -⟩
  · have hroom : L.blockAddr b - s.startAddr + L.blockSize ≤ s.segSize := by
      obtain ⟨hlo, hhi⟩ := hin
      omega
    have hdiv := Nat.div_le_div_right (c := L.blockSize) hroom
    rw [Nat.add_div_right _ hL.blockSize_pos] at hdiv
    exact lt_max_of_lt_right hdiv
  · rw [Layout.blockBit, Nat.sub_eq_zero_of_le hstart, Nat.zero_div]
    omega

variable (hfew : L.FewBlocks)
include hfew

theorem blockBit_lt_31 : L.blockBit b s < 31 :=
  (blockBit_lt_blocks hL hb h).trans_le (hfew.blocks_le h.mem)

theorem getMemblkBits_eq :
    getMemblkBits L (L.getSegmentAddrToIdx (L.blockAddr b)) (L.blockAddr b) =
      some (i, BitVec.twoPow 32 (L.blockBit b s)) := by
  have hlt := blockBit_lt_31 hL hb h hfew
  have hbit : shiftedBit ((L.blockAddr b - s.startAddr) / L.blockSize) =
      some (BitVec.twoPow 32 (L.blockBit b s)) := by
    change shiftedBit (L.blockBit b s) = _
    rw [shiftedBit, Nat.mod_eq_of_lt (by omega), if_neg (by omega)]
  have hend : L.blockAddr b < s.startAddr + s.segSize := h.lt_end
  rw [hL.getSegmentAddrToIdx_eq h.index h.start_le h.lt_end, getMemblkBits]
  simp only [bind_eq_bind, bind_some, h.index, hbit, map_some]
  rw [if_neg (by omega)]

theorem needToSendRemoteRequest_iff :
    needToSendRemoteRequest L w (L.blockAddr b) = true ↔
      ∀ n, n ≠ L.blockBit b s → (w.bitmaskKernelBlk i).getLsbD n = false := by
  simp only [needToSendRemoteRequest, getMemblkBits_eq hL hb h hfew, decide_eq_true_eq]
  constructor
  · intro hzero n hn
    have hbit := getLsbD_and_not_twoPow (n := n) (w.bitmaskKernelBlk i) (L.blockBit b s)
    rw [hzero] at hbit
    simpa [hn] using hbit.symm
  · intro hother
    apply BitVec.eq_of_getLsbD_eq
    intro n hn
    by_cases hk : n = L.blockBit b s
    · simp [hk]
    · simp [hother n hk]

theorem setMemblkBitmapOnline_eq (hclear : (w.bitmaskKernelBlk i).getLsbD (L.blockBit b s) = false) :
    setMemblkBitmapOnline L w (L.blockAddr b) =
      { w with bitmaskKernelBlk := writeBit w.bitmaskKernelBlk i (L.blockBit b s) true } := by
  have hzero := (and_twoPow_eq_zero_iff (w.bitmaskKernelBlk i)
    ((blockBit_lt_31 hL hb h hfew).trans (by decide))).mpr hclear
  simp only [setMemblkBitmapOnline, getMemblkBits_eq hL hb h hfew, hzero, ne_eq,
    not_true_eq_false, if_false]
  rfl

theorem setMemblkBitmapOffline_eq (hset : (w.bitmaskKernelBlk i).getLsbD (L.blockBit b s) = true) :
    setMemblkBitmapOffline L w (L.blockAddr b) =
      { w with bitmaskKernelBlk := writeBit w.bitmaskKernelBlk i (L.blockBit b s) false } := by
  have hnz : ¬ w.bitmaskKernelBlk i &&& BitVec.twoPow 32 (L.blockBit b s) = 0 := by
    rw [and_twoPow_eq_zero_iff _ ((blockBit_lt_31 hL hb h hfew).trans (by decide))]
    simp [hset]
  simp only [setMemblkBitmapOffline, getMemblkBits_eq hL hb h hfew, if_neg hnz]
  rfl

end Home

/-- What the three records have to do with each other between two notifications. -/
structure Inv (L : Layout) (w : World) : Prop where
  state : ∀ b < L.numBlocks, w.memSecState b = .online ↔ w.inUse b
  bit : ∀ b < L.numBlocks, ∀ i s, L.Home b i s →
    (w.bitmaskKernelBlk i).getLsbD (L.blockBit b s) = w.blockOnline b
  width : ∀ i s n, L.segmentInfos[i]? = some s → (w.bitmaskKernelBlk i).getLsbD n = true →
    n < max 1 (s.segSize / L.blockSize)
  dark : ∀ i s, L.segmentInfos[i]? = some s → L.blockSize ≤ s.segSize →
    w.refresh s.startAddr = false → w.bitmaskKernelBlk i = 0
  refreshed : ∀ b < L.numBlocks, w.memSecState b = .online → ∀ s ∈ L.segmentInfos,
    L.overlaps s b → w.refresh s.startAddr = true
  unasked : ∀ s ∈ L.segmentInfos, (∀ b < L.numBlocks, ¬ L.asked b s) → w.refresh s.startAddr = true
  goingOnline : ∀ b ok, w.pending = some (.goingOnline b ok) →
    b < L.numBlocks ∧ w.blockOnline b = false
  goingOffline : ∀ b, w.pending = some (.goingOffline b) → b < L.numBlocks ∧ w.blockOnline b = true
  idle : L.Covered → IdleUnrefreshed L w

theorem Inv.state_offline (hI : Inv L w) (hb : b < L.numBlocks) (hnot : ¬ w.inUse b) :
    w.memSecState b = .offline := by
  cases hst : w.memSecState b with
  | online => exact absurd ((hI.state b hb).mp hst) hnot
  | offline => rfl

section
variable (hI : Inv L w) (hL : L.Valid) (hfew : L.FewBlocks) (hb : b < L.numBlocks)
include hI hL hfew hb

theorem Inv.alone (hc : c < L.numBlocks) (hbc : b ≠ c) (hs : s ∈ L.segmentInfos)
    (hob : L.overlaps s b) (hoc : L.overlaps s c)
    (hneed : needToSendRemoteRequest L w (L.blockAddr b) = true) : w.blockOnline c = false := by
  obtain ⟨-, hinb, hinc⟩ := hL.inside_of_shared hb hc hbc hs hob hoc
  obtain ⟨i, hi⟩ := List.getElem?_of_mem hs
  rw [← hI.bit c hc i s (hinc.home hL hi)]
  exact (needToSendRemoteRequest_iff hL hb (hinb.home hL hi) hfew).mp hneed _
    (blockBit_ne hL hinc.1 hinb.1 (Ne.symm hbc))

theorem Inv.refreshed_of_not_needed (hneed : needToSendRemoteRequest L w (L.blockAddr b) = false)
    (hs : s ∈ L.segmentInfos) (hover : L.overlaps s b) : w.refresh s.startAddr = true := by
  obtain ⟨i, t, hhome⟩ := hL.home hb
  have hnot : ¬ ∀ n, n ≠ L.blockBit b t → (w.bitmaskKernelBlk i).getLsbD n = false := by
    rw [← needToSendRemoteRequest_iff hL hb hhome hfew (w := w)]
    simp [hneed]
  push Not at hnot
  obtain ⟨n, hn, hset⟩ := hnot
  rw [ne_eq, Bool.not_eq_false] at hset
  rcases hL.overlaps_cases hb hhome.mem (hhome.overlaps hL) with ⟨hsize, hin⟩ | ⟨hsize, -⟩
  · obtain rfl := hL.overlaps_of_inside hhome.mem hin hs hover
    by_contra hoff
    rw [Bool.not_eq_true] at hoff
    rw [hI.dark i s hhome.index hsize hoff] at hset
    simp at hset
  · -- the mask of a small segment has one bit only
    have hwidth := hI.width i t n hhome.index hset
    have hbit := blockBit_lt_blocks hL hb hhome
    rw [Nat.div_eq_of_lt hsize] at hwidth hbit
    omega

end

/-- In a covered layout every bit of a mask belongs to a block of the segment. -/
theorem Layout.Covered.block_of_bit (hcov : L.Covered) (hL : L.Valid)
    (hs : s ∈ L.segmentInfos) (hn : n < max 1 (s.segSize / L.blockSize)) :
    ∃ c < L.numBlocks, L.inside c s ∧ L.blockBit c s = n := by
  obtain ⟨f, m, hstart, hsize, hle⟩ := hcov s hs
  have hpos := hL.blockSize_pos
  have hm : s.segSize / L.blockSize = m := by rw [hsize, Nat.mul_div_cancel _ hpos]
  have hmpos : 0 < m := by
    have := hL.segSize_pos hs
    rw [hsize] at this
    exact Nat.pos_of_mul_pos_right this
  have hnm : n < m := by omega
  have haddr : L.blockAddr (f + n) = s.startAddr + n * L.blockSize := by
    rw [hstart]
    unfold Layout.blockAddr
    ring
  have hend : s.endAddr = s.startAddr + m * L.blockSize := by rw [SegmentInfo.endAddr, hsize]
  have hfit : (n + 1) * L.blockSize ≤ m * L.blockSize := Nat.mul_le_mul_right _ hnm
  rw [Nat.add_mul, Nat.one_mul] at hfit
  refine ⟨f + n, by omega, ⟨by omega, by omega⟩, ?_⟩
  rw [Layout.blockBit, haddr, Nat.add_sub_cancel_left, Nat.mul_div_cancel _ hpos]

theorem allBlocksMask_getLsbD (hle : max 1 (s.segSize / L.blockSize) ≤ 31) :
    (allBlocksMask L s).getLsbD n = decide (n < max 1 (s.segSize / L.blockSize)) := by
  unfold allBlocksMask
  generalize max 1 (s.segSize / L.blockSize) = k at hle
  rw [BitVec.getLsbD_ofNat, Nat.one_shiftLeft, Nat.testBit_two_pow_sub_one]
  by_cases hn : n < k
  · simp [hn, show n < 32 by omega]
  · simp [hn]

theorem Inv.initial (hL : L.Valid) (hfew : L.FewBlocks) : Inv L (World.initial L) where
  state b hb := by simp [World.initial, inUse, hb]
  bit b hb i s h := by
    simp [World.initial, h.index, allBlocksMask_getLsbD (hfew.blocks_le h.mem), hb,
      blockBit_lt_blocks hL hb h]
  width i s n hi hset := by
    have hs := mem_of_getElem? hi
    simpa [World.initial, hi, allBlocksMask_getLsbD (hfew.blocks_le hs)] using hset
  dark i s hi hsize hoff := by simp [World.initial] at hoff
  refreshed b hb hst s hs hover := rfl
  unasked s hs h := rfl
  goingOnline b ok h := by simp [World.initial] at h
  goingOffline b h := by simp [World.initial] at h
  idle hcov s hs hidle := by
    obtain ⟨c, hc, hin, -⟩ := hcov.block_of_bit hL hs (n := 0) (by omega)
    obtain ⟨i, hi⟩ := List.getElem?_of_mem hs
    exact absurd (.inl (by simp [World.initial, hc])) (hidle c hc ((hin.home hL hi).overlaps hL))

/-- One block's bit is written: the masks show the new state of that block only. -/
theorem Inv.bit_written (hI : Inv L w) (hL : L.Valid) (h : L.Home b i s) {B : Nat → BitVec 32}
    {v : Bool} (hB : ∀ j n, (B j).getLsbD n =
      if j = i ∧ n = L.blockBit b s then v else (w.bitmaskKernelBlk j).getLsbD n)
    (hc : c < L.numBlocks) (h' : L.Home c j t) :
    (B j).getLsbD (L.blockBit c t) = update w.blockOnline b v c := by
  rw [hB, hI.bit c hc j t h']
  by_cases hcb : c = b
  · subst hcb
    obtain ⟨rfl, rfl⟩ := h.unique hL h'
    simp
  · rw [update_of_ne hcb, if_neg]
    rintro ⟨rfl, hbit⟩
    obtain rfl := some_inj.mp (h.index.symm.trans h'.index)
    exact blockBit_ne hL h'.start_le h.start_le hcb hbit

theorem inUse_of_pending_none (hp : w.pending = none) : w.inUse c ↔ w.blockOnline c = true := by
  simp [inUse, hp]

theorem Inv.turnOn (hI : Inv L w) (hb : b < L.numBlocks) (hp : w.pending = none)
    (hoff : w.blockOnline b = false) {R : Nat → Bool}
    (hmono : ∀ s ∈ L.segmentInfos, w.refresh s.startAddr = true → R s.startAddr = true)
    (hown : ∀ s ∈ L.segmentInfos, L.overlaps s b → R s.startAddr = true)
    (hnew : ∀ s ∈ L.segmentInfos, R s.startAddr = true →
      w.refresh s.startAddr = true ∨ L.overlaps s b) :
    Inv L { setMemSecState { w with refresh := R } b .online with
      pending := some (.goingOnline b true) } where
  state c hc := by
    by_cases hcb : c = b
    · simp [setMemSecState, inUse, hcb]
    · have hst := hI.state c hc
      rw [inUse_of_pending_none hp] at hst
      simp [setMemSecState, inUse, hcb, hst, Ne.symm hcb]
  bit := hI.bit
  width := hI.width
  dark i s hi hsize hdark := by
    refine hI.dark i s hi hsize ?_
    by_contra hon
    rw [Bool.not_eq_false] at hon
    have := hmono s (mem_of_getElem? hi) hon
    exact absurd (this.symm.trans hdark) (by simp)
  refreshed c hc hst s hs hover := by
    by_cases hcb : c = b
    · exact hown s hs (hcb ▸ hover)
    · refine hmono s hs (hI.refreshed c hc ?_ s hs hover)
      simpa [setMemSecState, hcb] using hst
  unasked s hs hun := hmono s hs (hI.unasked s hs hun)
  goingOnline c ok h := by
    simp only [some.injEq, Pending.goingOnline.injEq] at h
    exact h.1 ▸ ⟨hb, hoff⟩
  goingOffline c h := by simp at h
  idle hcov s hs hidle := by
    by_contra hon
    rw [Bool.not_eq_false] at hon
    rcases hnew s hs hon with hold | hover
    · have := hI.idle hcov s hs fun c hc hcover hin =>
        hidle c hc hcover (.inl ((inUse_of_pending_none hp).mp hin))
      exact absurd (hold.symm.trans this) (by simp)
    · exact hidle b hb hover (.inr rfl)

/-- A refused request to bring a block up: only segments inside that block may have changed. -/
theorem Inv.refused (hI : Inv L w) (hL : L.Valid) (hb : b < L.numBlocks) (hp : w.pending = none)
    (hoff : w.blockOnline b = false) {R : Nat → Bool}
    (hR : ∀ s ∈ L.segmentInfos, R s.startAddr = w.refresh s.startAddr ∨
      L.asked b s ∧ s.segSize < L.blockSize ∧ R s.startAddr = false) :
    Inv L { w with refresh := R, pending := some (.goingOnline b false) } where
  state c hc := by
    rw [hI.state c hc, inUse_of_pending_none hp]
    simp [inUse]
  bit := hI.bit
  width := hI.width
  dark i s hi hsize hdark := by
    rcases hR s (mem_of_getElem? hi) with heq | ⟨-, hsmall, -⟩
    · exact hI.dark i s hi hsize (heq ▸ hdark)
    · omega
  refreshed c hc hst s hs hover := by
    have hcb : b ≠ c := by
      rintro rfl
      have := (hI.state b hb).mp hst
      rw [inUse_of_pending_none hp] at this
      simp [hoff] at this
    rcases hR s hs with heq | ⟨hask, hsmall, -⟩
    · exact heq.trans (hI.refreshed c hc hst s hs hover)
    · have := (hL.inside_of_shared hb hc hcb hs hask.2.1 hover).1
      omega
  unasked s hs hun := by
    rcases hR s hs with heq | ⟨hask, -⟩
    · exact heq.trans (hI.unasked s hs hun)
    · exact absurd hask (hun b hb)
  goingOnline c ok h := by
    simp only [some.injEq, Pending.goingOnline.injEq] at h
    exact h.1 ▸ ⟨hb, hoff⟩
  goingOffline c h := by simp at h
  idle hcov s hs hidle := by
    rcases hR s hs with heq | ⟨-, -, hdark⟩
    · refine heq.trans (hI.idle hcov s hs fun c hc hcover hin => hidle c hc hcover (.inl ?_))
      exact (inUse_of_pending_none hp).mp hin
    · exact hdark

variable {bugOn : Bool} {a : Answers} {r : Bool × World}

theorem Inv.goingOnline_step (hI : Inv L w) (hL : L.Valid) (hfew : L.FewBlocks)
    (hb : b < L.numBlocks) (hp : w.pending = none) (hoff : w.blockOnline b = false)
    (h : memChangeRefreshState L bugOn w b .online a = some r) :
    Inv L { r.2 with pending := some (.goingOnline b r.1) } := by
  have hst : w.memSecState b ≠ .online := by
    rw [hI.state_offline hb (by simp [inUse, hp, hoff])]
    simp
  rcases memChangeRefreshState_cases hL hb hst h with
    ⟨hneed, rfl⟩ | ⟨hneed, R, rfl, hask, hrest⟩ | ⟨-, R, rfl, hR⟩
  · exact hI.turnOn hb hp hoff (fun s _ hon => hon)
      (fun s hs hover => hI.refreshed_of_not_needed hL hfew hb hneed hs hover)
      (fun s _ hon => .inl hon)
  · refine hI.turnOn hb hp hoff (fun s hs hon => ?_) (fun s hs hover => ?_) (fun s hs hon => ?_)
    · by_cases hsb : L.asked b s
      · exact hask s hsb
      · exact (hrest s hs hsb).trans hon
    · rcases hL.asked_or_unasked hb hs hover with hsb | hun
      · exact hask s hsb
      · exact (hrest s hs (hun b hb)).trans (hI.unasked s hs hun)
    · by_cases hsb : L.asked b s
      · exact .inr hsb.2.1
      · exact .inl ((hrest s hs hsb).symm.trans hon)
  · exact hI.refused hL hb hp hoff hR

theorem inUse_of_ne (hp : w.pending = some (.goingOnline b true) ∨
    w.pending = some (.goingOffline b)) (hcb : c ≠ b) : w.inUse c ↔ w.blockOnline c = true := by
  rcases hp with hp | hp <;> simp [inUse, hp, Ne.symm hcb]

def leaveUse (w : World) (b : Nat) (B : Nat → BitVec 32) (R : Nat → Bool) : World where
  bitmaskKernelBlk := B
  memSecState := update w.memSecState b .offline
  refresh := R
  blockOnline := update w.blockOnline b false
  pending := none

theorem inUse_leaveUse {B : Nat → BitVec 32} {R : Nat → Bool} :
    (leaveUse w b B R).inUse c ↔ c ≠ b ∧ w.blockOnline c = true := by
  rw [inUse_of_pending_none rfl]
  by_cases hcb : c = b
  · simp [leaveUse, hcb]
  · simp [leaveUse, hcb]

def Released (L : Layout) (w : World) (b : Nat) (R : Nat → Bool) : Prop :=
  (needToSendRemoteRequest L w (L.blockAddr b) = false ∧ R = w.refresh) ∨
  (needToSendRemoteRequest L w (L.blockAddr b) = true ∧
    (∀ s, L.asked b s → R s.startAddr = false) ∧
    ∀ s ∈ L.segmentInfos, ¬ L.asked b s → R s.startAddr = w.refresh s.startAddr)

theorem Released.cases {R : Nat → Bool} (h : Released L w b R) (hs : s ∈ L.segmentInfos) :
    R s.startAddr = w.refresh s.startAddr ∨
      needToSendRemoteRequest L w (L.blockAddr b) = true ∧ L.asked b s := by
  rcases h with ⟨-, rfl⟩ | ⟨hneed, hask, hrest⟩
  · exact .inl rfl
  · by_cases hsb : L.asked b s
    · exact .inr ⟨hneed, hsb⟩
    · exact .inl (hrest s hs hsb)

structure Leaving (L : Layout) (w : World) (b i : Nat) (s : SegmentInfo) (B : Nat → BitVec 32)
    (R : Nat → Bool) : Prop where
  block : b < L.numBlocks
  pending : w.pending = some (.goingOnline b true) ∨ w.pending = some (.goingOffline b)
  home : L.Home b i s
  bits : ∀ j n, (B j).getLsbD n =
    if j = i ∧ n = L.blockBit b s then false else (w.bitmaskKernelBlk j).getLsbD n
  released : Released L w b R

/-- With every request granted, taking a block down ends in the released state. -/
theorem memChangeRefreshState_offline (hL : L.Valid) (hb : b < L.numBlocks)
    (hst : w.memSecState b = .online) (hgrant : ∀ j, a.sent j = true)
    (h : memChangeRefreshState L bugOn w b .offline a = some r) :
    ∃ R, r.2 = setMemSecState { w with refresh := R } b .offline ∧ Released L w b R := by
  rcases memChangeRefreshState_cases hL hb (by simp [hst]) h with
    ⟨hneed, rfl⟩ | ⟨hneed, R, rfl, hask, hrest⟩ | ⟨⟨j, hj⟩, -⟩
  · exact ⟨w.refresh, rfl, .inl ⟨hneed, rfl⟩⟩
  · exact ⟨R, rfl, .inr ⟨hneed, by simpa using hask, hrest⟩⟩
  · simp [hgrant j] at hj

theorem Inv.setPending (hI : Inv L w) {p : Option Pending}
    (hin : ∀ c, inUse { w with pending := p } c ↔ w.inUse c)
    (hon : ∀ b ok, p = some (.goingOnline b ok) → b < L.numBlocks ∧ w.blockOnline b = false)
    (hoff : ∀ b, p = some (.goingOffline b) → b < L.numBlocks ∧ w.blockOnline b = true) :
    Inv L { w with pending := p } where
  __ := hI
  state c hc := (hI.state c hc).trans (hin c).symm
  goingOnline := hon
  goingOffline := hoff
  idle hcov s hs hidle :=
    hI.idle hcov s hs fun c hc hcover hc' => hidle c hc hcover ((hin c).mpr hc')

section LeaveUse

variable {B : Nat → BitVec 32} {R : Nat → Bool} (hI : Inv L w) (hL : L.Valid) (hfew : L.FewBlocks)
include hI hL hfew

section
variable (h : Leaving L w b i s B R)
include h

theorem Leaving.dark (hj : L.segmentInfos[j]? = some t) (hsize : L.blockSize ≤ t.segSize)
    (hdark : R t.startAddr = false) : B j = 0 := by
  apply BitVec.eq_of_getLsbD_eq
  intro n hn
  rw [h.bits]
  have ht := mem_of_getElem? hj
  rcases h.released.cases ht with heq | ⟨hneed, hask⟩
  · rw [hI.dark j t hj hsize (heq ▸ hdark)]
    simp
  · -- all other bits are clear, and this block's own bit has just been cleared
    rcases hL.overlaps_cases h.block ht hask.2.1 with ⟨-, hin⟩ | ⟨hsmall, -⟩
    · obtain ⟨rfl, rfl⟩ := h.home.unique hL (hin.home hL hj)
      by_cases hk : n = L.blockBit b s
      · simp [hk]
      · simp [(needToSendRemoteRequest_iff hL h.block h.home hfew).mp hneed n hk]
    · omega

theorem Leaving.refreshed (hc : c < L.numBlocks) (hcb : c ≠ b) (hst : w.memSecState c = .online)
    (ht : t ∈ L.segmentInfos) (hover : L.overlaps t c) : R t.startAddr = true := by
  rcases h.released.cases ht with heq | ⟨hneed, hask⟩
  · exact heq.trans (hI.refreshed c hc hst t ht hover)
  · have hon := (inUse_of_ne h.pending hcb).mp ((hI.state c hc).mp hst)
    have hoff := hI.alone hL hfew h.block hc (Ne.symm hcb) ht hask.2.1 hover hneed
    exact absurd (hon.symm.trans hoff) (by simp)

theorem Leaving.idle (hcov : L.Covered) : IdleUnrefreshed L (leaveUse w b B R) := by
  intro t ht hidle
  have hb := h.block
  have hothers : ∀ c < L.numBlocks, c ≠ b → L.overlaps t c → w.blockOnline c = false := by
    intro c hc hcb hover
    have := hidle c hc hover
    rw [inUse_leaveUse] at this
    simpa [hcb] using this
  by_cases hover : L.overlaps t b
  · -- a segment made of whole blocks is larger than its block, so it is asked for
    obtain ⟨c, hc, hinc, -⟩ := hcov.block_of_bit hL ht (n := 0) (by omega)
    have hend : t.endAddr = t.startAddr + t.segSize := rfl
    have hsize : L.blockSize ≤ t.segSize := by
      have := hinc.1
      have := hinc.2
      omega
    rcases h.released with ⟨hneed, -⟩ | ⟨-, hask, -⟩
    · exfalso
      rcases hL.overlaps_cases hb ht hover with ⟨-, hin⟩ | ⟨hsmall, -⟩
      · obtain ⟨j, hj⟩ := List.getElem?_of_mem ht
        have hnone : ∀ n, n ≠ L.blockBit b t → (w.bitmaskKernelBlk j).getLsbD n = false := by
          intro n hn
          by_contra hset
          rw [Bool.not_eq_false] at hset
          obtain ⟨d, hd, hind, rfl⟩ := hcov.block_of_bit hL ht (hI.width j t n hj hset)
          have hhome := hind.home hL hj
          rw [hI.bit d hd j t hhome] at hset
          have hdb : d ≠ b := fun heq => hn (by rw [heq])
          have := hothers d hd hdb (hhome.overlaps hL)
          exact absurd (hset.symm.trans this) (by simp)
        rw [(needToSendRemoteRequest_iff hL hb (hin.home hL hj) hfew).mpr hnone] at hneed
        simp at hneed
      · omega
    · exact hask t ⟨ht, hover, .inl hsize⟩
  · have hold : w.refresh t.startAddr = false := by
      refine hI.idle hcov t ht fun c hc hcover hin => ?_
      have hcb : c ≠ b := fun heq => hover (heq ▸ hcover)
      have := (inUse_of_ne h.pending hcb).mp hin
      rw [hothers c hc hcb hcover] at this
      simp at this
    rcases h.released.cases ht with heq | ⟨-, hask⟩
    · exact heq.trans hold
    · exact absurd hask.2.1 hover

theorem Inv.leaveUse : Inv L (leaveUse w b B R) where
  state c hc := by
    rw [inUse_leaveUse]
    by_cases hcb : c = b
    · simp [MemOffline.leaveUse, hcb]
    · rw [← inUse_of_ne h.pending hcb, ← hI.state c hc]
      simp [MemOffline.leaveUse, hcb]
  bit c hc j t h' := hI.bit_written hL h.home h.bits hc h'
  width j t n hj hset := by
    have hbit := (h.bits j n).symm.trans hset
    split_ifs at hbit
    exact hI.width j t n hj hbit
  dark j t hj hsize hdark := h.dark hI hL hfew hj hsize hdark
  refreshed c hc hst t ht hover := by
    have hcb : c ≠ b := by
      rintro rfl
      simp [MemOffline.leaveUse] at hst
    refine h.refreshed hI hL hfew hc hcb ?_ ht hover
    simpa [MemOffline.leaveUse, hcb] using hst
  unasked t ht hun := by
    rcases h.released.cases ht with heq | ⟨-, hask⟩
    · exact heq.trans (hI.unasked t ht hun)
    · exact absurd hask (hun b h.block)
  goingOnline c ok h := by simp [MemOffline.leaveUse] at h
  goingOffline c h := by simp [MemOffline.leaveUse] at h
  idle hcov := h.idle hI hL hfew hcov

end

theorem Inv.cancelOnline_step
    (hp : w.pending = some (.goingOnline b true) ∨ w.pending = some (.goingOnline b false))
    (hgrant : ∀ j, a.sent j = true) (h : memChangeRefreshState L bugOn w b .offline a = some r) :
    Inv L { r.2 with pending := none } := by
  rcases hp with hp | hp
  · obtain ⟨hb, hoff⟩ := hI.goingOnline b true hp
    have hst := (hI.state b hb).mpr (.inr hp)
    obtain ⟨R, hr, hR⟩ := memChangeRefreshState_offline hL hb hst hgrant h
    obtain ⟨i, s, hhome⟩ := hL.home hb
    -- the block's bit was never set, so the mask already is what it should be
    have hB : ∀ j n, (w.bitmaskKernelBlk j).getLsbD n =
        if j = i ∧ n = L.blockBit b s then false else (w.bitmaskKernelBlk j).getLsbD n := by
      intro j n
      split_ifs with hjn
      · rw [hjn.1, hjn.2, hI.bit b hb i s hhome, hoff]
      · rfl
    have hsame : update w.blockOnline b false = w.blockOnline := by
      rw [← hoff, update_eq_self]
    have hleave := hI.leaveUse hL hfew ⟨hb, .inl hp, hhome, hB, hR⟩
    rw [MemOffline.leaveUse, hsame] at hleave
    rw [hr]
    exact hleave
  · obtain ⟨hb, hoff⟩ := hI.goingOnline b false hp
    have hst := hI.state_offline hb (by simp [inUse, hp, hoff])
    simp only [memChangeRefreshState, hst, if_true, some.injEq] at h
    subst h
    exact hI.setPending (by simp [inUse, hp]) (by simp) (by simp)

theorem Inv.offline_step (hp : w.pending = some (.goingOffline b)) (hgrant : ∀ j, a.sent j = true)
    (h : memChangeRefreshState L bugOn w b .offline a = some r) :
    Inv L { setMemblkBitmapOffline L r.2 (L.blockAddr b) with
      blockOnline := update w.blockOnline b false, pending := none } := by
  obtain ⟨hb, hon⟩ := hI.goingOffline b hp
  have hst := (hI.state b hb).mpr (.inl hon)
  obtain ⟨R, hr, hR⟩ := memChangeRefreshState_offline hL hb hst hgrant h
  obtain ⟨i, s, hhome⟩ := hL.home hb
  have hset : (r.2.bitmaskKernelBlk i).getLsbD (L.blockBit b s) = true := by
    rw [hr]
    exact (hI.bit b hb i s hhome).trans hon
  rw [setMemblkBitmapOffline_eq hL hb hhome hfew hset, hr]
  have hlt := (blockBit_lt_31 hL hb hhome hfew).trans (by decide : 31 < 32)
  exact hI.leaveUse hL hfew ⟨hb, .inr hp, hhome, fun _ _ => getLsbD_writeBit _ hlt false, hR⟩

theorem Inv.online_step (hp : w.pending = some (.goingOnline b true)) :
    Inv L { setMemblkBitmapOnline L w (L.blockAddr b) with
      blockOnline := update w.blockOnline b true, pending := none } := by
  obtain ⟨hb, hoff⟩ := hI.goingOnline b true hp
  obtain ⟨i, s, hhome⟩ := hL.home hb
  have hclear := (hI.bit b hb i s hhome).trans hoff
  rw [setMemblkBitmapOnline_eq hL hb hhome hfew hclear]
  have hlt := (blockBit_lt_31 hL hb hhome hfew).trans (by decide : 31 < 32)
  have hbits := fun j n => getLsbD_writeBit (i := i) (j := j) (n := n) w.bitmaskKernelBlk hlt true
  have hin : ∀ c, (update w.blockOnline b true c = true) ↔ w.inUse c := by
    intro c
    by_cases hcb : c = b
    · simp [inUse, hp, hcb]
    · rw [inUse_of_ne (.inl hp) hcb, update_of_ne hcb]
  refine ⟨fun c hc => ?_, fun c hc j t h' => hI.bit_written hL hhome hbits hc h',
    fun j t n hj hset => ?_, fun j t hj hsize hdark => ?_, hI.refreshed, hI.unasked, by simp, by simp,
    fun hcov t ht hidle => ?_⟩
  · rw [hI.state c hc, ← hin c]
    simp [inUse]
  · simp only [hbits] at hset
    split_ifs at hset with hown
    · obtain ⟨rfl, rfl⟩ := hown
      obtain rfl := some_inj.mp (hhome.index.symm.trans hj)
      exact blockBit_lt_blocks hL hb hhome
    · exact hI.width j t n hj hset
  · by_cases hj' : j = i
    · subst hj'
      obtain rfl := some_inj.mp (hhome.index.symm.trans hj)
      have := hI.refreshed b hb ((hI.state b hb).mpr (.inr hp)) s hhome.mem (hhome.overlaps hL)
      exact absurd (this.symm.trans hdark) (by simp)
    · simpa [writeBit, hj'] using hI.dark j t hj hsize hdark
  · refine hI.idle hcov t ht fun c hc hcover hc' => hidle c hc hcover (.inl ?_)
    exact (hin c).mpr hc'

end LeaveUse

theorem Inv.goingOffline_step (hI : Inv L w) (hb : b < L.numBlocks) (hp : w.pending = none)
    (hon : w.blockOnline b = true) :
    Inv L { w with pending := some (.goingOffline b) } := by
  refine hI.setPending (by simp [inUse, hp]) nofun fun c hc => ?_
  simp only [some.injEq, Pending.goingOffline.injEq] at hc
  exact hc ▸ ⟨hb, hon⟩

theorem step_inv (hL : L.Valid) (hfew : L.FewBlocks) {w w' : World} {e : Event} (hI : Inv L w)
    (hok : e.offGranted) (hstep : step L bugOn w e = some w') : Inv L w' := by
  cases e with
  | goingOnline b a =>
    obtain ⟨⟨hp, hb, hoff⟩, hchange⟩ := ite_none_right_eq_some.mp hstep
    obtain ⟨r, hr, rfl⟩ := map_eq_some_iff.mp hchange
    exact hI.goingOnline_step hL hfew hb hp hoff hr
  | online b =>
    obtain ⟨hp, hw⟩ := ite_none_right_eq_some.mp hstep
    exact some.inj hw ▸ hI.online_step hL hfew hp
  | cancelOnline b a =>
    obtain ⟨hp, hchange⟩ := ite_none_right_eq_some.mp hstep
    obtain ⟨r, hr, rfl⟩ := map_eq_some_iff.mp hchange
    exact hI.cancelOnline_step hL hfew hp hok hr
  | goingOffline b =>
    obtain ⟨⟨hp, hb, hon⟩, hw⟩ := ite_none_right_eq_some.mp hstep
    exact some.inj hw ▸ hI.goingOffline_step hb hp hon
  | offline b a =>
    obtain ⟨hp, hchange⟩ := ite_none_right_eq_some.mp hstep
    obtain ⟨r, hr, rfl⟩ := map_eq_some_iff.mp hchange
    exact hI.offline_step hL hfew hp hok hr

/-- In a layout with at most 31 blocks to a segment, and as long as no request to stop a refresh
is refused, memory in use is refreshed; and if segments consist of whole blocks, a segment without
memory in use is not. -/
theorem ddr_refresh_follows_blocks (L : Layout) (hL : L.Valid) (hfew : L.FewBlocks) (bugOn : Bool)
    (es : List Event) (w : World) (hgrant : ∀ e ∈ es, e.offGranted)
    (hrun : run (step L bugOn) (World.initial L) es = some w) :
    Refreshed L w ∧ (L.Covered → IdleUnrefreshed L w) := by
  have hok : Along (step L bugOn) (fun _ e => e.offGranted) (World.initial L) es :=
    along_of_mem hgrant
  have hI : Inv L w := run_invariant (fun _ _ _ hI hok hstep => step_inv hL hfew hI hok hstep)
    (Inv.initial hL hfew) hok hrun
  exact ⟨fun b hb huse => hI.refreshed b hb ((hI.state b hb).mpr huse), hI.idle⟩

def granted : Answers := ⟨fun _ => true, fun _ => true⟩

def refused : Answers := ⟨fun _ => false, fun _ => true⟩

def offlined (b : Nat) (a : Answers) : List Event := [.goingOffline b, .offline b a]

def onlined (b : Nat) (a : Answers) : List Event := [.goingOnline b a, .online b]

def twoByTwo : Layout := ⟨2, 0, 4, [⟨0, 4⟩, ⟨4, 4⟩]⟩

theorem twoByTwo_valid : twoByTwo.Valid where
  blockSize_pow := ⟨1, rfl⟩
  segSize_pow s hs := by
    simp only [twoByTwo, mem_cons, not_mem_nil, or_false] at hs
    rcases hs with rfl | rfl <;> exact ⟨2, rfl⟩
  disjoint := by decide
  placed b hb := by
    have hin : ∀ b < 4, ∃ s ∈ twoByTwo.segmentInfos, s.startAddr ≤ twoByTwo.blockAddr b ∧
        twoByTwo.blockAddr b + twoByTwo.blockSize ≤ s.endAddr := by decide
    exact .inl (hin b hb)

theorem twoByTwo_covered : twoByTwo.Covered := by
  intro s hs
  simp only [twoByTwo, mem_cons, not_mem_nil, or_false] at hs
  rcases hs with rfl | rfl
  · exact ⟨0, 2, rfl, rfl, by decide⟩
  · exact ⟨2, 2, rfl, rfl, by decide⟩

def downAndUp : List Event :=
  offlined 0 granted ++ offlined 1 granted ++ [.goingOnline 0 refused, .cancelOnline 0 granted] ++
    offlined 2 granted ++ onlined 1 granted

theorem ddr_refresh_down_and_up :
    ∃ w, run (step twoByTwo false) (World.initial twoByTwo) downAndUp = some w ∧
      w.blockOnline 0 = false ∧ Refreshed twoByTwo w ∧ IdleUnrefreshed twoByTwo w := by
  have hgrant : ∀ e ∈ downAndUp, e.offGranted := by
    simp [downAndUp, offlined, onlined, Event.offGranted, granted]
  have hfew : twoByTwo.FewBlocks := by
    unfold Layout.FewBlocks
    decide
  refine exists_run_and (by decide +kernel) fun w hrun _ => ?_
  have hsound := ddr_refresh_follows_blocks twoByTwo twoByTwo_valid hfew false downAndUp w hgrant hrun
  exact ⟨hsound.1, hsound.2 twoByTwo_covered⟩

def tiledBlock : Layout := ⟨4, 0, 1, [⟨0, 2⟩, ⟨2, 2⟩]⟩

theorem tiledBlock_valid : tiledBlock.Valid where
  blockSize_pow := ⟨2, rfl⟩
  segSize_pow s hs := by
    simp only [tiledBlock, mem_cons, not_mem_nil, or_false] at hs
    rcases hs with rfl | rfl <;> exact ⟨1, rfl⟩
  disjoint := by decide
  placed b hb := by
    obtain rfl : b = 0 := Nat.lt_one_iff.mp hb
    exact .inr ⟨tiledBlock.segmentInfos, rfl, by decide, rfl, by decide, rfl⟩

def refusedOnce : List Event :=
  offlined 0 granted ++ offlined 1 refused ++ onlined 0 granted ++ offlined 0 granted ++
    onlined 1 granted

/-- A refused request leaves a block marked online, so its return asks for no refresh; and the
second half of a tiled block is never asked for, so it stays refreshed for nothing. -/
theorem refused_off_loses_refresh :
    twoByTwo.Valid ∧ tiledBlock.Valid ∧
    (∃ w, run (step twoByTwo false) (World.initial twoByTwo) refusedOnce = some w ∧
      w.blockOnline 1 = true ∧ twoByTwo.overlaps ⟨0, 4⟩ 1 ∧ w.refresh 0 = false ∧
        ¬ Refreshed twoByTwo w) ∧
    ∃ w, run (step tiledBlock false) (World.initial tiledBlock) (offlined 0 granted) = some w ∧
      w.refresh 0 = false ∧ w.refresh 2 = true ∧ ¬ IdleUnrefreshed tiledBlock w :=
  ⟨twoByTwo_valid, tiledBlock_valid, exists_run_of_map (by decide +kernel),
    exists_run_of_map (by decide +kernel)⟩

end MsmKernel.MemOffline
