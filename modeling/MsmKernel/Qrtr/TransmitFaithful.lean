import MsmKernel.Qrtr.Transmit

/-! Which messages `qrtr_sendmsg` turns into the packet they should become: all that stay linear,
and of those with fragments the ones whose padding finds room behind the data. -/
namespace MsmKernel.Qrtr.Transmit
open MsmKernel Gunyah Endpoint List Skb

theorem copyFrom_copyTo_self (mem : Nat → UInt8) (pos : Nat) (l : List UInt8) :
    Ring.copyFrom (Ring.copyTo mem pos l) pos l.length = l := by
  refine ext_getElem (by simp) fun i h₁ h₂ => ?_
  simp [Ring.copyFrom, Ring.copyTo, h₂]

theorem copyFrom_copyTo_zero (mem : Nat → UInt8) (l : List UInt8) (k : Nat) :
    Ring.copyFrom (Ring.copyTo mem 0 l) 0 (l.length + k) = l ++ Ring.copyFrom mem l.length k := by
  refine ext_getElem (by simp) fun i h₁ h₂ => ?_
  simp only [Ring.copyFrom, getElem_map, getElem_range, getElem_append,
    Ring.copyTo, Nat.zero_le, if_true, Nat.zero_add, Nat.sub_zero]
  split_ifs with hi
  · rw [List.getElem?_eq_getElem hi, Option.getD_some]
  · rw [List.getElem?_eq_none (by omega), Option.getD_none]
    congr 1
    omega

theorem length_zeros (n : Nat) : (zeros n).length = n := length_replicate

theorem length_qrtrHdrV1 (type : Nat) (src dst : SockaddrQrtr) (nid : Nat) (confirmRx : Bool)
    (size : Nat) : (qrtrHdrV1 type src dst nid confirmRx size).length = 32 := rfl

theorem le32_cpuToLe32 (n : Nat) :
    (UInt8.ofNat n).toNat + 2 ^ 8 * (UInt8.ofNat (n / 2 ^ 8)).toNat +
      2 ^ 16 * (UInt8.ofNat (n / 2 ^ 16)).toNat + 2 ^ 24 * (UInt8.ofNat (n / 2 ^ 24)).toNat =
      n % 2 ^ 32 := by
  simp only [UInt8.toNat_ofNat']
  omega

theorem le32ToCpu_size (type : Nat) (src dst : SockaddrQrtr) (nid : Nat) (confirmRx : Bool)
    (size : Nat) (rest : List UInt8) :
    le32ToCpu (qrtrHdrV1 type src dst nid confirmRx size ++ rest) 20 = size % 2 ^ 32 :=
  le32_cpuToLe32 size

theorem sub32_eq {a b : Nat} (hle : b ≤ a) (ha : a < 4294967296) : sub32 a b = a - b := by
  unfold sub32 u32
  have hsum : a + (4294967296 - b) = a - b + 4294967296 := by omega
  rw [hsum, Nat.add_mod_right, Nat.mod_eq_of_lt (by omega)]

section Padding
variable {padto : Nat} {w w' : Walk}

/- A walk that has not passed the end of the data, with less than a word of padding to clear. -/
structure Behind (padto : Nat) (w : Walk) : Prop where
  pad : w.len < padto
  word : padto < w.len + 4
  padding : w.paddingLen = padto - w.len
  count : w.count ≤ w.len
  align : (w.len - w.count) % 4 = 0
  lt : padto < 4294967296

theorem Behind.skip {k : Nat} (h : Behind padto w) (hk : w.count + k ≤ w.len) (hword : k % 4 = 0) :
    Behind padto (w.skip k) := by
  have halign := h.align
  refine ⟨h.pad, h.word, h.padding, hk, ?_, h.lt⟩
  simp only [Walk.skip]
  omega

structure Padded (padto : Nat) (w w' : Walk) : Prop where
  mem : w'.mem = Ring.copyTo w.mem (w.base + (w.len - w.count)) (zeros (padto - w.len))
  len : w'.len = padto
  dataLen : w'.dataLen = w.dataLen + (padto - w.len)

theorem Padded.of_skip {k : Nat} (h : Padded padto (w.skip k) w') (hk : w.count + k ≤ w.len) :
    Padded padto w w' := by
  refine ⟨?_, h.len, h.dataLen⟩
  rw [h.mem]
  simp only [Walk.skip]
  congr 1
  omega

theorem padWhole_padded (f : List Nat) (hf : ∀ p ∈ f, p % 4 = 0) (h : Behind padto w)
    (hroom : w.len < w.count + f.sum) : Padded padto w (padWhole padto f w) := by
  have ⟨hpad, hword, hpadding, hcount, halign, hlt⟩ := h
  induction f generalizing w with
  | nil =>
    rw [sum_nil] at hroom
    omega
  | cons p f ih =>
    obtain ⟨hp, hrest⟩ := forall_mem_cons.1 hf
    rw [sum_cons] at hroom
    unfold padWhole
    split_ifs with hskip
    · -- the piece ends before the padding, and then it ends with the data at the latest
      have hend : w.count + p ≤ w.len := by omega
      have hs := h.skip hend hp
      have hroom' : w.len < w.count + p + f.sum := by omega
      exact (ih hrest hs hroom' hpad hword hpadding hend hs.align).of_skip hend
    · rw [hpadding, sub32_eq hcount (by omega)]
      exact ⟨rfl, rfl, rfl⟩

/-- At the end of the data in a full fragment nothing is cleared and only `data_len` grows. -/
theorem padSplit_full (f : List Nat) (hpos : ∀ p ∈ f, 0 < p) (hne : f ≠ []) (hpad : w.len < padto)
    (hpadding : w.paddingLen = padto - w.len) (hlen : padto < 4294967296)
    (hfull : w.count + f.sum = w.len) :
    (padSplit padto f w).len = w.len ∧
      (padSplit padto f w).dataLen = w.dataLen + (padto - w.len) := by
  induction f generalizing w with
  | nil => exact absurd rfl hne
  | cons p f ih =>
    rw [sum_cons] at hfull
    unfold padSplit
    by_cases hlast : f = []
    · subst hlast
      rw [sum_nil, Nat.add_zero] at hfull
      have hoff : sub32 w.len w.count = p := by
        rw [sub32_eq (by omega) (by omega)]
        omega
      have hzero : sub32 p p = 0 := by rw [sub32_eq le_rfl (by omega), Nat.sub_self]
      have hsame : sub32 w.paddingLen 0 = w.paddingLen := sub32_eq (Nat.zero_le _) (by omega)
      have hkeep : u32 (w.len + 0) = w.len := Nat.mod_eq_of_lt (by omega)
      rw [if_neg (by omega), if_pos (by omega)]
      simp only [hoff, hzero, hsame, hkeep]
      exact ⟨rfl, congrArg (w.dataLen + ·) hpadding⟩
    · obtain ⟨q, hq⟩ := exists_mem_of_ne_nil f hlast
      have hq0 := hpos q (mem_cons_of_mem p hq)
      have hle := single_le_sum (fun _ _ => Nat.zero_le _) q hq
      rw [if_pos (by omega)]
      exact ih (fun q hq => hpos q (mem_cons_of_mem p hq)) hlast hpad hpadding
        (show w.count + p + f.sum = w.len by omega)

def Pages (f : List Nat) : Prop := f ≠ [] ∧ ∀ p ∈ f, 0 < p ∧ p % PAGE_SIZE = 0

theorem Pages.words {f : List Nat} (hf : Pages f) : ∀ p ∈ f, p % 4 = 0 := by
  intro p hp
  have hpage := (hf.2 p hp).2
  unfold PAGE_SIZE at hpage
  omega

theorem Pages.le_sum {f : List Nat} (hf : Pages f) : PAGE_SIZE ≤ f.sum := by
  obtain ⟨p, hp⟩ := exists_mem_of_ne_nil f hf.1
  obtain ⟨hpos, hmod⟩ := hf.2 p hp
  have hle := single_le_sum (fun _ _ => Nat.zero_le _) p hp
  unfold PAGE_SIZE at hmod ⊢
  omega

/-- The fragments before the last one are passed: the data ends within a page of the last one's
end. -/
theorem padFrags_skip {f : List Nat} {fs : List (List Nat)} (hfs : fs ≠ [])
    (hpages : ∀ g ∈ fs, Pages g) (hend : w.count + (f.sum + fs.flatten.sum) < w.len + PAGE_SIZE) :
    w.count + f.sum < w.len ∧ padFrags padto (f :: fs) w = padFrags padto fs (w.skip f.sum) := by
  obtain ⟨g, gs, rfl⟩ := exists_cons_of_ne_nil hfs
  have hpage := (hpages g (mem_cons_self ..)).le_sum
  rw [flatten_cons, sum_append] at hend
  have hbefore : w.count + f.sum < w.len := by omega
  exact ⟨hbefore, by rw [padFrags, if_pos hbefore]⟩

theorem padFrags_room (fs : List (List Nat)) (hpages : ∀ g ∈ fs, Pages g) (h : Behind padto w)
    (hroom : w.len < w.count + fs.flatten.sum)
    (hend : w.count + fs.flatten.sum < w.len + PAGE_SIZE) :
    Padded padto w (padFrags padto fs w) := by
  have ⟨hpad, hword, hpadding, hcount, halign, hlt⟩ := h
  induction fs generalizing w with
  | nil =>
    rw [flatten_nil, sum_nil] at hroom
    omega
  | cons f fs ih =>
    obtain ⟨hf, hrest⟩ := forall_mem_cons.1 hpages
    have hsum : f.sum % 4 = 0 := Nat.mod_eq_zero_of_dvd (dvd_sum fun p hp =>
      Nat.dvd_of_mod_eq_zero (hf.words p hp))
    rw [flatten_cons, sum_append] at hroom hend
    by_cases hlast : fs = []
    · subst hlast
      rw [flatten_nil, sum_nil, Nat.add_zero] at hroom
      have hpadded := padWhole_padded f hf.words h hroom
      rw [padFrags, if_neg (by omega)]
      simp only [if_pos (show padto ≤ w.count + f.sum by omega), hpadded.len, if_true]
      exact hpadded
    · obtain ⟨hbefore, hskip⟩ := padFrags_skip hlast hrest hend
      rw [hskip]
      have hs := h.skip hbefore.le hsum
      exact (ih hrest hs (show w.len < w.count + f.sum + fs.flatten.sum by omega)
        (show w.count + f.sum + fs.flatten.sum < w.len + PAGE_SIZE by omega)
        hpad hword hpadding hbefore.le hs.align).of_skip hbefore.le

theorem padFrags_full (fs : List (List Nat)) (hne : fs ≠ []) (hpages : ∀ g ∈ fs, Pages g)
    (hpad : w.len < padto) (hpadding : w.paddingLen = padto - w.len) (hlen : padto < 4294967296)
    (hfull : w.count + fs.flatten.sum = w.len) :
    (padFrags padto fs w).len = w.len ∧
      (padFrags padto fs w).dataLen = w.dataLen + (padto - w.len) := by
  induction fs generalizing w with
  | nil => exact absurd rfl hne
  | cons f fs ih =>
    obtain ⟨hf, hrest⟩ := forall_mem_cons.1 hpages
    rw [flatten_cons, sum_append] at hfull
    by_cases hlast : fs = []
    · subst hlast
      rw [flatten_nil, sum_nil, Nat.add_zero] at hfull
      obtain ⟨hl, hd⟩ :=
        padSplit_full f (fun p hp => (hf.2 p hp).1) hf.1 hpad hpadding hlen hfull
      rw [padFrags, if_neg (by omega)]
      simp only [if_neg (show ¬ padto ≤ w.count + f.sum by omega), hl]
      rw [if_neg (by omega), padFrags]
      exact ⟨hl, hd⟩
    · rw [(padFrags_skip hlast hrest (by unfold PAGE_SIZE; omega)).2]
      exact ih hlast hrest hpad hpadding (show w.count + f.sum + fs.flatten.sum = w.len by omega)

end Padding

section Enqueue
variable {skb : Skb} {lin fm : Nat → UInt8} {msg : List UInt8} {type nid : Nat}
  {src dst : SockaddrQrtr} {confirmRx : Bool}

theorem head_bytes (lin : Nat → UInt8) (front hdr : List UInt8) (hhdr : hdr.length = 32) :
    Ring.copyFrom (Ring.copyTo (Ring.copyTo lin 32 front) 0 hdr) 0 (32 + front.length) =
      hdr ++ front := by
  rw [← hhdr, copyFrom_copyTo_zero, copyFrom_copyTo_self]

theorem alignWord_bounds (n : Nat) : n ≤ alignWord n ∧ alignWord n < n + 4 ∧ alignWord n % 4 = 0 := by
  unfold alignWord
  omega

theorem alignWord_add (n : Nat) : alignWord (n + 32) = alignWord n + 32 := by
  unfold alignWord
  omega

theorem enqueue_linear (hdata : skb.data = 32) (hlinear : skb.linear = Ring.copyTo lin 32 msg)
    (hlen : skb.len = msg.length) (hdataLen : skb.dataLen = 0) :
    (qrtrNodeEnqueue skb type src dst nid confirmRx).bytes =
      qrtrHdrV1 type src dst nid confirmRx msg.length ++ msg ++
        zeros (alignWord msg.length - msg.length) := by
  have hhead := head_bytes lin msg (qrtrHdrV1 type src dst nid confirmRx msg.length) rfl
  simp only [qrtrNodeEnqueue, hdata, hlinear, hlen, hdataLen, ne_eq, not_true_eq_false, if_false,
    Nat.sub_self, skbPutPadto]
  split_ifs with hshort
  · have hpad : alignWord msg.length + 32 - (msg.length + 32) =
        alignWord msg.length - msg.length := by omega
    have hend : alignWord msg.length + 32 =
        (32 + msg.length) + (zeros (alignWord msg.length - msg.length)).length := by
      rw [length_zeros]
      omega
    simp only [bytes, Nat.zero_min, Ring.copyFrom_zero, append_nil, Nat.sub_zero, hpad,
      Nat.zero_add]
    rw [hend, Nat.add_comm msg.length 32, Ring.copyFrom_copyTo, hhead]
  · have hnone : alignWord msg.length - msg.length = 0 := by omega
    simp only [bytes, Nat.zero_min, Ring.copyFrom_zero, append_nil, Nat.sub_zero, hnone]
    rw [Nat.add_comm msg.length 32, hhead]
    exact (append_nil _).symm

structure Split (skb : Skb) (lin fm : Nat → UInt8) (msg : List UInt8) (d : Nat) : Prop where
  data : skb.data = 32
  linear : skb.linear = Ring.copyTo lin 32 (msg.take (msg.length - d))
  fragMem : skb.fragMem = Ring.copyTo fm 0 (msg.drop (msg.length - d))
  len : skb.len = msg.length
  dataLen : skb.dataLen = d
  pos : 0 < d
  le : d ≤ msg.length
  total : d ≤ skb.fragTotal
  pages : ∀ g ∈ skb.frags, Pages g

section
variable {d : Nat} (h : Split skb lin fm msg d)
include h

theorem Split.head (hdr : List UInt8) (hhdr : hdr.length = 32) :
    Ring.copyFrom (Ring.copyTo skb.linear 0 hdr) 0 (msg.length + 32 - d) =
      hdr ++ msg.take (msg.length - d) := by
  have hle := h.le
  have hlen : msg.length + 32 - d = 32 + (msg.take (msg.length - d)).length := by
    rw [length_take]
    omega
  rw [h.linear, hlen, head_bytes lin _ hdr hhdr]

theorem Split.tail : Ring.copyFrom skb.fragMem 0 d = msg.drop (msg.length - d) := by
  have hle := h.le
  have hlen : (msg.drop (msg.length - d)).length = d := by
    rw [length_drop]
    omega
  have hself := copyFrom_copyTo_self fm 0 (msg.drop (msg.length - d))
  rwa [hlen, ← h.fragMem] at hself

theorem Split.enqueue_aligned (halign : alignWord msg.length = msg.length) :
    (qrtrNodeEnqueue skb type src dst nid confirmRx).bytes =
      qrtrHdrV1 type src dst nid confirmRx msg.length ++ msg := by
  have hne : d ≠ 0 := Nat.pos_iff_ne_zero.1 h.pos
  have hhead := h.head (qrtrHdrV1 type src dst nid confirmRx msg.length) rfl
  simp only [qrtrNodeEnqueue, h.data, h.len, h.dataLen, ne_eq, hne, not_false_eq_true, if_true,
    qrtrPadWordPskb, alignWord_add, halign, Nat.sub_self]
  have htotal : d ≤ skb.frags.flatten.sum := h.total
  simp only [bytes, fragTotal]
  rw [Nat.min_eq_left htotal, h.tail, hhead, append_assoc, take_append_drop]

def start (skb : Skb) (len d : Nat) : Walk :=
  ⟨0, len + 32 - d, alignWord len - len, len + 32, d, skb.fragMem⟩

variable (hpad : alignWord msg.length ≠ msg.length)
include hpad

theorem Split.enqueue_eq : qrtrNodeEnqueue skb type src dst nid confirmRx =
      let w := padFrags (alignWord msg.length + 32) skb.frags (start skb msg.length d)
      { skb with
        linear := Ring.copyTo skb.linear 0 (qrtrHdrV1 type src dst nid confirmRx msg.length)
        data := 0
        fragMem := w.mem
        len := w.len
        dataLen := w.dataLen } := by
  have hne : d ≠ 0 := Nat.pos_iff_ne_zero.1 h.pos
  have hbounds := alignWord_bounds msg.length
  have hsome : ¬ alignWord msg.length - msg.length = 0 := by omega
  have hsub : alignWord msg.length + 32 - (msg.length + 32) = alignWord msg.length - msg.length := by
    omega
  simp only [qrtrNodeEnqueue, h.data, h.len, h.dataLen, ne_eq, hne, not_false_eq_true, if_true,
    qrtrPadWordPskb, alignWord_add, hsub, if_neg hsome, Nat.sub_self, start]

theorem Split.enqueue_room (hword : d % 4 = 0) (hmax : msg.length ≤ 65535)
    (hroom : d < skb.fragTotal) (hend : skb.fragTotal < d + PAGE_SIZE)
    (htotal : skb.fragTotal % 4 = 0) : (qrtrNodeEnqueue skb type src dst nid confirmRx).bytes =
      qrtrHdrV1 type src dst nid confirmRx msg.length ++ msg ++
        zeros (alignWord msg.length - msg.length) := by
  have hbounds := alignWord_bounds msg.length
  have hle := h.le
  unfold fragTotal at hroom hend htotal
  have hbehind : Behind (alignWord msg.length + 32) (start skb msg.length d) := by
    refine ⟨?_, ?_, ?_, ?_, ?_, by omega⟩ <;> dsimp only [start] <;> omega
  obtain ⟨hmem, hl, hd⟩ := padFrags_room skb.frags h.pages hbehind
    (by dsimp only [start]; omega) (by dsimp only [start]; omega)
  rw [h.enqueue_eq hpad]
  dsimp only
  rw [hl, hd, hmem]
  dsimp only [start]
  have hpadding : alignWord msg.length + 32 - (msg.length + 32) =
      alignWord msg.length - msg.length := by omega
  have hpos : 0 + (msg.length + 32 - (msg.length + 32 - d)) = d := by omega
  have hheadlen : alignWord msg.length + 32 - (d + (alignWord msg.length - msg.length)) =
      msg.length + 32 - d := by omega
  have hhead := h.head (qrtrHdrV1 type src dst nid confirmRx msg.length) rfl
  simp only [bytes, fragTotal, hpadding, hpos, hheadlen]
  rw [Nat.min_eq_left (by omega), hhead]
  have hfrag := Ring.copyFrom_copyTo skb.fragMem d (zeros (alignWord msg.length - msg.length))
  rw [length_zeros, h.tail] at hfrag
  rw [hfrag, append_assoc, ← append_assoc (msg.take _), take_append_drop, ← append_assoc]

/-- Data that fills its last page leaves no room, and the packet loses bytes instead. -/
theorem Split.enqueue_full (hmax : msg.length ≤ 65535) (hfull : skb.fragTotal = d)
    (hlarge : d + 4 ≤ msg.length) :
    (qrtrNodeEnqueue skb type src dst nid confirmRx).bytes.length < alignWord msg.length + 32 := by
  have hbounds := alignWord_bounds msg.length
  have hd0 := h.pos
  unfold fragTotal at hfull
  have hne : skb.frags ≠ [] := by
    rintro hnil
    rw [hnil, flatten_nil, sum_nil] at hfull
    omega
  obtain ⟨hl, hd⟩ := padFrags_full skb.frags hne h.pages
    (show (start skb msg.length d).len < alignWord msg.length + 32 by dsimp only [start]; omega)
    (by dsimp only [start]; omega) (by omega) (by dsimp only [start]; omega)
  rw [h.enqueue_eq hpad]
  dsimp only
  rw [hl, hd]
  simp only [start, bytes, fragTotal, length_append, Ring.length_copyFrom, hfull]
  omega

end

theorem le32ToCpu_enqueue (hdata : skb.data = 32) (hne : skb.dataLen ≠ 0)
    (hle : skb.dataLen ≤ skb.len) (halign : alignWord skb.len = skb.len) :
    le32ToCpu (qrtrNodeEnqueue skb type src dst nid confirmRx).bytes 20 = skb.len % 2 ^ 32 := by
  have hheadlen : skb.len + 32 - skb.dataLen =
      (qrtrHdrV1 type src dst nid confirmRx skb.len).length + (skb.len - skb.dataLen) := by
    rw [length_qrtrHdrV1]
    omega
  simp only [qrtrNodeEnqueue, hdata, ne_eq, hne, not_false_eq_true, if_true, qrtrPadWordPskb,
    alignWord_add, halign, Nat.sub_self, bytes]
  rw [hheadlen, copyFrom_copyTo_zero, append_assoc, le32ToCpu_size]

end Enqueue

section Sendmsg
variable {plat : Platform} {primary : Bool} {a : Allocator} {r : Route} {msg : List UInt8}

/- The lengths whose packet comes out right. On the primary node the padding needs room in the last
page, on another node the fragments are sent whole. -/
def Fits (plat : Platform) (primary : Bool) (len : Nat) : Prop :=
  if primary then
    len ≤ plat.skbMaxAlloc ∨ len % 4 = 0 ∨ (alignWord len - plat.skbMaxAlloc) % PAGE_SIZE ≠ 0
  else len ≤ PAGE_SIZE ∨ len % PAGE_SIZE = 0

instance (plat : Platform) (primary : Bool) (len : Nat) : Decidable (Fits plat primary len) := by
  unfold Fits
  infer_instance

theorem pageAlign_bounds (n : Nat) :
    n ≤ pageAlign n ∧ pageAlign n < n + PAGE_SIZE ∧ pageAlign n % PAGE_SIZE = 0 := by
  unfold pageAlign PAGE_SIZE
  omega

theorem alloc_linear (hlinear : msg.length ≤ if primary then plat.skbMaxAlloc else PAGE_SIZE) :
    qrtrSockAllocSkbSend plat primary a msg.length = a.skb 0 msg.length 0 := by
  have hbounds := alignWord_bounds msg.length
  have haligned := plat.aligned
  unfold qrtrSockAllocSkbSend
  cases primary with
  | true =>
    have hfits : ¬ plat.skbMaxAlloc < alignWord msg.length := by
      simp only [if_true] at hlinear
      omega
    simp only [if_true, if_neg hfits]
    rfl
  | false =>
    have hfits : ¬ PAGE_SIZE < alignWord msg.length := by
      simp only [Bool.false_eq_true, if_false, PAGE_SIZE] at hlinear ⊢
      omega
    simp only [Bool.false_eq_true, if_false, if_neg hfits, ne_eq, not_true_eq_false]
    rfl

theorem alloc_primary (hmax : msg.length ≤ 65535) (hlarge : plat.skbMaxAlloc < msg.length) :
    qrtrSockAllocSkbSend plat true a msg.length =
      a.skb (pageAlign (alignWord msg.length - plat.skbMaxAlloc)) msg.length
        (alignWord msg.length - plat.skbMaxAlloc) := by
  have hbounds := alignWord_bounds msg.length
  have hpage := plat.page_le
  have hover : plat.skbMaxAlloc < alignWord msg.length := by omega
  have hmin : min (alignWord msg.length - plat.skbMaxAlloc) (MAX_SKB_FRAGS * PAGE_SIZE) =
      alignWord msg.length - plat.skbMaxAlloc := by
    unfold MAX_SKB_FRAGS
    unfold PAGE_SIZE at hpage ⊢
    omega
  simp only [qrtrSockAllocSkbSend, if_true, if_pos hover, hmin]

theorem alloc_secondary (hmax : msg.length ≤ 65535) (hlarge : PAGE_SIZE < msg.length) :
    qrtrSockAllocSkbSend plat false a msg.length =
      a.skb (pageAlign msg.length) (pageAlign msg.length)
        (pageAlign msg.length - QRTR_HDR_MAX_SIZE) := by
  have hbounds := alignWord_bounds msg.length
  have hover : PAGE_SIZE < alignWord msg.length := by omega
  have hmin : min (alignWord msg.length - PAGE_SIZE) (MAX_SKB_FRAGS * PAGE_SIZE) =
      alignWord msg.length - PAGE_SIZE := by
    unfold MAX_SKB_FRAGS PAGE_SIZE
    omega
  have hne : alignWord msg.length - PAGE_SIZE ≠ 0 := by omega
  have hsize : alignWord msg.length - (alignWord msg.length - PAGE_SIZE) +
      pageAlign (alignWord msg.length - PAGE_SIZE) = pageAlign msg.length := by
    unfold alignWord pageAlign PAGE_SIZE at *
    omega
  simp only [qrtrSockAllocSkbSend, Bool.false_eq_true, if_false, if_pos hover, hmin, ne_eq, hne,
    not_false_eq_true, if_true, hsize]

theorem copy_eq {skb : Skb} (hfit : msg.length - (skb.len - skb.dataLen) ≤ skb.fragTotal) :
    skbCopyDatagramFromIter skb msg = some { skb with
      linear := Ring.copyTo skb.linear skb.data (msg.take (skb.len - skb.dataLen))
      fragMem := Ring.copyTo skb.fragMem 0 (msg.drop (skb.len - skb.dataLen)) } :=
  if_pos hfit

def Becomes (plat : Platform) (primary : Bool) (r : Route) (msg : List UInt8) (skb : Skb) : Prop :=
  (4 ≤ msg.length → le32ToCpu skb.bytes 0 = le32ToCpu msg 0) ∧
    ∀ type, (qrtrNodeEnqueue skb type r.us r.addr r.nid r.confirmRx).bytes = packet type r msg ↔
      Fits plat primary msg.length

theorem le32ToCpu_front {skb : Skb} {k : Nat} (hlin : skb.data = 32)
    (hlinear : ∃ lin, skb.linear = Ring.copyTo lin 32 (msg.take k))
    (hhead : skb.len - skb.dataLen = k) (hk : k ≤ msg.length) (h4 : 4 ≤ k) :
    le32ToCpu skb.bytes 0 = le32ToCpu msg 0 := by
  obtain ⟨lin, hlinear⟩ := hlinear
  have hlen : (msg.take k).length = k := by rw [length_take, Nat.min_eq_left hk]
  have hself := copyFrom_copyTo_self lin 32 (msg.take k)
  rw [hlen] at hself
  refine le32ToCpu_of_take (m := 4) ?_ (by decide)
  rw [bytes, hlin, hlinear, hhead, hself, take_append_of_le_length (by omega),
    take_take, Nat.min_eq_left h4]

theorem becomes_linear (hlinear : msg.length ≤ if primary then plat.skbMaxAlloc else PAGE_SIZE) :
    ∃ skb, skbCopyDatagramFromIter (a.skb 0 msg.length 0) msg = some skb ∧
      Becomes plat primary r msg skb := by
  have hfits : Fits plat primary msg.length := by
    cases primary with
    | _ => exact Or.inl hlinear
  refine ⟨_, copy_eq (by simp [Allocator.skb]), fun h4 => ?_, fun type => iff_of_true ?_ hfits⟩
  · exact le32ToCpu_front (k := msg.length) rfl ⟨a.linear, rfl⟩ rfl le_rfl h4
  · have hcopied : Ring.copyTo a.linear 32 (msg.take msg.length) = Ring.copyTo a.linear 32 msg := by
      rw [take_length]
    exact enqueue_linear rfl hcopied rfl rfl

theorem length_packet (type : Nat) (r : Route) (msg : List UInt8) :
    (packet type r msg).length = alignWord msg.length + 32 := by
  have hbounds := alignWord_bounds msg.length
  rw [packet, length_append, length_append, length_qrtrHdrV1, length_zeros]
  omega

theorem packet_of_aligned {type : Nat} (halign : alignWord msg.length = msg.length) :
    packet type r msg = qrtrHdrV1 type r.us r.addr r.nid r.confirmRx msg.length ++ msg := by
  rw [packet, halign, Nat.sub_self]
  exact append_nil _

theorem becomes_primary (hmax : msg.length ≤ 65535) (hlarge : plat.skbMaxAlloc < msg.length) :
    ∃ skb, skbCopyDatagramFromIter (a.skb (pageAlign (alignWord msg.length - plat.skbMaxAlloc))
        msg.length (alignWord msg.length - plat.skbMaxAlloc)) msg = some skb ∧
      Becomes plat true r msg skb := by
  have hbounds := alignWord_bounds msg.length
  have hpage := plat.page_le
  have haligned := plat.aligned
  obtain ⟨hge, hlt, hmod⟩ := pageAlign_bounds (alignWord msg.length - plat.skbMaxAlloc)
  have htotal : (a.skb (pageAlign (alignWord msg.length - plat.skbMaxAlloc)) msg.length
      (alignWord msg.length - plat.skbMaxAlloc)).fragTotal =
      pageAlign (alignWord msg.length - plat.skbMaxAlloc) := a.total _ hmod
  unfold PAGE_SIZE at hpage
  generalize hd : alignWord msg.length - plat.skbMaxAlloc = d at *
  have hle : d + 4 ≤ msg.length := by omega
  have hfit : msg.length - (msg.length - d) ≤ (a.skb (pageAlign d) msg.length d).fragTotal := by
    omega
  refine ⟨_, copy_eq hfit, fun _ => ?_, fun type => ?_⟩
  · exact le32ToCpu_front (k := msg.length - d) rfl ⟨a.linear, rfl⟩ rfl (by omega) (by omega)
  · have hsplit : Split { a.skb (pageAlign d) msg.length d with
        linear := Ring.copyTo a.linear 32 (msg.take (msg.length - d))
        fragMem := Ring.copyTo a.fragMem 0 (msg.drop (msg.length - d)) } a.linear a.fragMem msg d :=
      ⟨rfl, rfl, rfl, rfl, rfl, by omega, by omega, htotal.symm ▸ hge, a.pages _⟩
    have hfitsIff : Fits plat true msg.length ↔ msg.length % 4 = 0 ∨ d % PAGE_SIZE ≠ 0 := by
      simp only [Fits, if_true, hd]
      omega
    rw [hfitsIff]
    by_cases hpad : alignWord msg.length = msg.length
    · have hword : msg.length % 4 = 0 := by omega
      refine iff_of_true ?_ (Or.inl hword)
      rw [packet_of_aligned hpad]
      exact hsplit.enqueue_aligned hpad
    · have hword : ¬ msg.length % 4 = 0 := by
        omega
      by_cases hfull : d % PAGE_SIZE = 0
      · have hsame : pageAlign d = d := by
          unfold pageAlign
          unfold PAGE_SIZE at hfull
          omega
        refine iff_of_false (fun hbytes => ?_) (by simp [hword, hfull])
        refine absurd (congrArg List.length hbytes) ?_
        rw [length_packet]
        exact (hsplit.enqueue_full hpad hmax (htotal.trans hsame) hle).ne
      · have hroom : d < pageAlign d := by
          refine lt_of_le_of_ne hge fun heq => hfull ?_
          rw [heq]
          exact hmod
        have hwords : pageAlign d % 4 = 0 := by
          unfold PAGE_SIZE at hmod
          omega
        refine iff_of_true ?_ (Or.inr hfull)
        exact hsplit.enqueue_room hpad (by omega) hmax (htotal.symm ▸ hroom) (htotal.symm ▸ hlt)
          (htotal.symm ▸ hwords)

theorem becomes_secondary (hmax : msg.length ≤ 65535) (hlarge : PAGE_SIZE < msg.length) :
    ∃ skb, skbCopyDatagramFromIter (a.skb (pageAlign msg.length) (pageAlign msg.length)
        (pageAlign msg.length - QRTR_HDR_MAX_SIZE)) msg = some skb ∧
      Becomes plat false r msg skb := by
  obtain ⟨hge, hlt, hmod⟩ := pageAlign_bounds msg.length
  have hfitsIff : Fits plat false msg.length ↔ pageAlign msg.length = msg.length := by
    simp only [Fits, Bool.false_eq_true, if_false]
    unfold PAGE_SIZE at *
    omega
  have htotal : (a.skb (pageAlign msg.length) (pageAlign msg.length)
      (pageAlign msg.length - QRTR_HDR_MAX_SIZE)).fragTotal = pageAlign msg.length := a.total _ hmod
  unfold PAGE_SIZE at hlarge hlt hmod
  have halign : alignWord (pageAlign msg.length) = pageAlign msg.length := by
    unfold alignWord
    omega
  generalize pageAlign msg.length = l at *
  have hfit : msg.length - (l - (l - 32)) ≤ (a.skb l l (l - QRTR_HDR_MAX_SIZE)).fragTotal := by
    omega
  refine ⟨_, copy_eq hfit, fun _ => ?_, fun type => ?_⟩
  · refine le32ToCpu_front (k := l - (l - 32)) rfl ⟨a.linear, rfl⟩ rfl ?_ ?_ <;> omega
  · rw [hfitsIff]
    by_cases hsame : l = msg.length
    · subst hsame
      have hsplit : Split { a.skb msg.length msg.length (msg.length - 32) with
          linear := Ring.copyTo a.linear 32 (msg.take (msg.length - (msg.length - 32)))
          fragMem := Ring.copyTo a.fragMem 0 (msg.drop (msg.length - (msg.length - 32))) }
          a.linear a.fragMem msg (msg.length - 32) :=
        ⟨rfl, rfl, rfl, rfl, rfl, by omega, by omega, htotal.symm ▸ Nat.sub_le _ _, a.pages _⟩
      refine iff_of_true ?_ rfl
      rw [packet_of_aligned halign]
      exact hsplit.enqueue_aligned halign
    · refine iff_of_false (fun hbytes => hsame ?_) hsame
      -- the size fields of the two headers differ
      have hne : l - QRTR_HDR_MAX_SIZE ≠ 0 := by
        unfold QRTR_HDR_MAX_SIZE
        omega
      have hsize := congrArg (le32ToCpu · 20) hbytes
      rw [le32ToCpu_enqueue rfl hne (Nat.sub_le _ _) halign, packet, append_assoc,
        le32ToCpu_size] at hsize
      have hl : (a.skb l l (l - QRTR_HDR_MAX_SIZE)).len = l := rfl
      rw [hl] at hsize
      omega

/-- Every message is copied, and its skb becomes the packet exactly if its length fits. -/
theorem becomes_packet (plat : Platform) (primary : Bool) (a : Allocator) (r : Route)
    (hmax : msg.length ≤ 65535) :
    ∃ skb, skbCopyDatagramFromIter (qrtrSockAllocSkbSend plat primary a msg.length) msg = some skb ∧
      Becomes plat primary r msg skb := by
  by_cases hlinear : msg.length ≤ if primary then plat.skbMaxAlloc else PAGE_SIZE
  · rw [alloc_linear hlinear]
    exact becomes_linear hlinear
  · cases primary with
    | true =>
      have hlarge : plat.skbMaxAlloc < msg.length := Nat.lt_of_not_le hlinear
      rw [alloc_primary hmax hlarge]
      exact becomes_primary hmax hlarge
    | false =>
      have hlarge : PAGE_SIZE < msg.length := Nat.lt_of_not_le hlinear
      rw [alloc_secondary hmax hlarge]
      exact becomes_secondary hmax hlarge

def Route.cb (r : Route) (type : Nat) : QrtrCb where
  srcNode := r.us.node % 2 ^ 32
  srcPort := r.us.port % 2 ^ 32
  dstNode := (if r.addr.port = Endpoint.QRTR_PORT_CTRL then r.nid else r.addr.node) % 2 ^ 32
  dstPort := portLegacy (r.addr.port % 2 ^ 32)
  type := type % 2 ^ 32 % 256
  confirmRx := r.confirmRx

theorem decodeHeader_packet (type : Nat) (hmax : msg.length ≤ 65535) :
    decodeHeader (packet type r msg) = some (32, r.cb type, msg.length) := by
  have hlen := length_packet type r msg
  have hlong : ¬ (packet type r msg).length < 32 := by omega
  have hver : byteAt (packet type r msg) 0 = QRTR_PROTO_VER_1 := rfl
  have htype : le32ToCpu (packet type r msg) 4 = type % 2 ^ 32 := le32_cpuToLe32 type
  have hsrcNode : le32ToCpu (packet type r msg) 8 = r.us.node % 2 ^ 32 := le32_cpuToLe32 r.us.node
  have hsrcPort : le32ToCpu (packet type r msg) 12 = r.us.port % 2 ^ 32 := le32_cpuToLe32 r.us.port
  have hconfirm : le32ToCpu (packet type r msg) 16 = (if r.confirmRx then 1 else 0) % 2 ^ 32 :=
    le32_cpuToLe32 _
  have hsize : le32ToCpu (packet type r msg) 20 = msg.length % 2 ^ 32 := le32_cpuToLe32 msg.length
  have hdstNode : le32ToCpu (packet type r msg) 24 =
      (if r.addr.port = Endpoint.QRTR_PORT_CTRL then r.nid else r.addr.node) % 2 ^ 32 :=
    le32_cpuToLe32 _
  have hdstPort : le32ToCpu (packet type r msg) 28 = r.addr.port % 2 ^ 32 :=
    le32_cpuToLe32 r.addr.port
  have hconfirmed : decide ((if r.confirmRx then 1 else 0) % 2 ^ 32 ≠ 0) = r.confirmRx := by
    cases r.confirmRx <;> rfl
  rw [decodeHeader, if_pos hver, if_neg hlong, htype, hsrcNode, hsrcPort, hconfirm, hsize,
    hdstNode, hdstPort, hconfirmed, Nat.mod_eq_of_lt (a := msg.length) (by omega), Route.cb]

theorem post_packet_iff (type localNid : Nat) (hpos : 0 < msg.length) (hmax : msg.length ≤ 65535) :
    (∃ d, qrtrEndpointPost (openEnv localNid) (packet type r msg) = .ok d ∧ d.payload = msg) ↔
      typeChecked (r.cb type) msg.length = true := by
  have hdec := decodeHeader_packet (r := r) type hmax
  constructor
  · rintro ⟨d, hpost, -⟩
    obtain ⟨-, hdrlen, cb, size, hdec', -, -, htype⟩ := passes_of_post hpost
    rw [hdec] at hdec'
    obtain ⟨-, rfl, rfl⟩ := hdec'
    exact htype
  · intro htype
    have hlen := length_packet type r msg
    have hbounds := alignWord_bounds msg.length
    obtain ⟨queue, hpost⟩ :=
      post_of_passes localNid (by omega) hdec (by omega) hlen htype
    refine ⟨_, hpost, ?_⟩
    have hhdr : 32 = (qrtrHdrV1 type r.us r.addr r.nid r.confirmRx msg.length).length := rfl
    rw [packet, append_assoc, hhdr, drop_left, take_left]

/- The claim on one message: if a packet goes out, it is the packet of the message, and the endpoint
of the receiver delivers the message. -/
def Faithful (plat : Platform) (primary : Bool) (a : Allocator) (r : Route) (msg : List UInt8) :
    Prop :=
  ∀ skb, qrtrSendmsg plat primary a r msg = .ok (some skb) →
    skb.bytes = packet (r.type msg) r msg ∧
      ∀ localNid, ∃ d, qrtrEndpointPost (openEnv localNid) skb.bytes = .ok d ∧ d.payload = msg

/- A control message has its type in front, and a new server is forwarded. -/
def Sent (r : Route) (msg : List UInt8) : Prop :=
  (r.control = true → 4 ≤ msg.length) ∧
    ¬ (r.addr.port = Endpoint.QRTR_PORT_CTRL ∧ r.type msg = QRTR_TYPE_NEW_SERVER ∧
      r.mustForward = false)

theorem sendmsg_eq (plat : Platform) (primary : Bool) (a : Allocator) (r : Route)
    (hmax : msg.length ≤ 65535) :
    ∃ skb, Becomes plat primary r msg skb ∧
      ((Sent r msg ∧ qrtrSendmsg plat primary a r msg =
          .ok (some (qrtrNodeEnqueue skb (r.type msg) r.us r.addr r.nid r.confirmRx))) ∨
        (¬ Sent r msg ∧ ∀ skb', qrtrSendmsg plat primary a r msg ≠ .ok (some skb'))) := by
  obtain ⟨skb, hcopy, hbecomes⟩ := becomes_packet plat primary a r hmax
  refine ⟨skb, hbecomes, ?_⟩
  unfold qrtrSendmsg Sent
  rw [if_neg (by omega), hcopy]
  dsimp only
  by_cases hctrl : r.control = true → 4 ≤ msg.length
  · have htype : r.type skb.bytes = r.type msg := by
      unfold Route.type
      split_ifs with hc
      · exact hbecomes.1 (hctrl hc)
      · rfl
    have hlong : ¬ (r.control && decide (msg.length < 4)) = true := by
      simp only [Bool.and_eq_true, decide_eq_true_eq, not_and, Nat.not_lt]
      exact hctrl
    rw [if_neg hlong, htype]
    by_cases hnew : r.addr.port = Endpoint.QRTR_PORT_CTRL ∧ r.type msg = QRTR_TYPE_NEW_SERVER ∧
        r.mustForward = false
    · exact Or.inr ⟨fun h => h.2 hnew, by simp [hnew]⟩
    · exact Or.inl ⟨⟨hctrl, hnew⟩, by rw [if_neg hnew]⟩
  · have hshort : (r.control && decide (msg.length < 4)) = true := by
      simp only [Bool.and_eq_true, decide_eq_true_eq]
      rwa [Classical.not_imp, Nat.not_le] at hctrl
    exact Or.inr ⟨fun h => hctrl h.1, by simp [hshort]⟩

theorem fits_of_faithful (hmax : msg.length ≤ 65535) (hsent : Sent r msg)
    (h : Faithful plat primary a r msg) : Fits plat primary msg.length := by
  obtain ⟨skb, ⟨-, hbytes⟩, ⟨-, hsend⟩ | ⟨hkept, -⟩⟩ := sendmsg_eq plat primary a r hmax
  · exact (hbytes _).1 (h _ hsend).1
  · exact absurd hsent hkept

/-- For every message: what goes out is the packet of the message and is delivered as the message
exactly if the length fits and the receiver handles the type. -/
theorem sendmsg_faithful (plat : Platform) (primary : Bool) (a : Allocator) (r : Route)
    (msg : List UInt8) (hpos : 0 < msg.length) (hmax : msg.length ≤ 65535) :
    Faithful plat primary a r msg ↔
      (Sent r msg →
        Fits plat primary msg.length ∧ typeChecked (r.cb (r.type msg)) msg.length = true) := by
  obtain ⟨skb, ⟨-, hbytes⟩, hsent⟩ := sendmsg_eq plat primary a r hmax
  unfold Faithful
  rcases hsent with ⟨hsent, hsend⟩ | ⟨hkept, hsend⟩
  · rw [hsend]
    simp only [Except.ok.injEq, Option.some.injEq, forall_eq', hsent, true_implies,
      hbytes (r.type msg)]
    refine and_congr_right fun hfits => ?_
    rw [(hbytes (r.type msg)).2 hfits]
    simp only [post_packet_iff _ _ hpos hmax, forall_const]
  · exact iff_of_true (fun skb' h => absurd h (hsend skb')) fun h => absurd h hkept

def zeroAllocator : Allocator where
  linear _ := 0
  fragMem _ := 0
  split size := if size % PAGE_SIZE = 0 ∧ size ≠ 0 then [[size]] else []
  total := by
    intro size hsize
    by_cases h : size = 0 <;> simp [hsize, h]
  pages := by
    intro size f hf
    split_ifs at hf with h
    · rw [mem_singleton] at hf
      subst hf
      exact ⟨by simp, by simp [h, Nat.pos_iff_ne_zero]⟩
    · exact absurd hf not_mem_nil

def somePlatform : Platform := ⟨16064, by decide, by decide⟩

def dataRoute : Route := ⟨⟨1, 16⟩, ⟨3, 17⟩, 3, false, true⟩

theorem sendmsg_faithful_three : Faithful somePlatform false zeroAllocator dataRoute [1, 2, 3] :=
  (sendmsg_faithful somePlatform false zeroAllocator dataRoute [1, 2, 3] (by decide) (by decide)).2
    fun _ => ⟨by decide, by decide⟩

def sizeField : Except Int (Option Skb) → Nat
  | .ok (some skb) => le32ToCpu skb.bytes 20
  | _ => 0

/-- A message of 5000 bytes from a VM that is not primary leaves with the size 8192, and one of
20159 bytes from the primary node leaves a byte short. -/
theorem sendmsg_not_faithful :
    (sizeField (qrtrSendmsg somePlatform false zeroAllocator dataRoute (List.replicate 5000 7)) =
        8192 ∧
      ¬ Faithful somePlatform false zeroAllocator dataRoute (List.replicate 5000 7)) ∧
      ¬ Faithful somePlatform true zeroAllocator dataRoute (List.replicate 20159 7) := by
  have hsent : ∀ msg, Sent dataRoute msg := fun msg =>
    ⟨fun h => absurd h (by decide), fun h => absurd h.1 (by decide)⟩
  refine ⟨⟨by decide +kernel, fun h => ?_⟩, fun h => ?_⟩
  · have hfits := fits_of_faithful (by rw [length_replicate]; decide) (hsent _) h
    rw [length_replicate] at hfits
    exact absurd hfits (by decide)
  · have hfits := fits_of_faithful (by rw [length_replicate]; decide) (hsent _) h
    rw [length_replicate] at hfits
    exact absurd hfits (by decide)

end Sendmsg

end MsmKernel.Qrtr.Transmit
