import Mathlib.Tactic.Ring
import MsmKernel.MemOffline.Hotplug

/-! Which segments a block's requests address, in any layout whose blocks lie in or are tiled
by segments: all of them, except the last segment of a block tiled by two or more. -/

namespace MsmKernel.MemOffline
open List

variable {L : Layout} {w : World} {b i addr : Nat} {s : SegmentInfo}

def Tiles (L : Layout) : Nat → Nat → List SegmentInfo → Prop
  | a, e, [] => a = e
  | a, e, s :: ts => s.startAddr = a ∧ s ∈ L.segmentInfos ∧ Tiles L s.endAddr e ts

def Layout.inside (L : Layout) (b : Nat) (s : SegmentInfo) : Prop :=
  s.startAddr ≤ L.blockAddr b ∧ L.blockAddr b + L.blockSize ≤ s.endAddr

structure Layout.Valid (L : Layout) : Prop where
  blockSize_pow : ∃ k, L.blockSize = 2 ^ k
  segSize_pow : ∀ s ∈ L.segmentInfos, ∃ k, s.segSize = 2 ^ k
  disjoint : L.segmentInfos.Pairwise fun s t => s.endAddr ≤ t.startAddr ∨ t.endAddr ≤ s.startAddr
  placed : ∀ b < L.numBlocks, (∃ s ∈ L.segmentInfos, L.inside b s) ∨
    ∃ ts, Tiles L (L.blockAddr b) (L.blockAddr b + L.blockSize) ts

theorem Layout.Valid.blockSize_pos (hL : L.Valid) : 0 < L.blockSize := by
  obtain ⟨k, hk⟩ := hL.blockSize_pow
  rw [hk]
  exact Nat.two_pow_pos k

theorem Layout.Valid.segSize_pos (hL : L.Valid) (hs : s ∈ L.segmentInfos) : 0 < s.segSize := by
  obtain ⟨k, hk⟩ := hL.segSize_pow s hs
  rw [hk]
  exact Nat.two_pow_pos k

theorem Layout.Valid.endAddr_gt (hL : L.Valid) (hs : s ∈ L.segmentInfos) :
    s.startAddr < s.endAddr := by
  have := hL.segSize_pos hs
  unfold SegmentInfo.endAddr
  omega

variable {j x : Nat} {t : SegmentInfo} {ss : List SegmentInfo}

theorem Layout.Valid.index_unique (hL : L.Valid) (hi : L.segmentInfos[i]? = some s)
    (hj : L.segmentInfos[j]? = some t) (hs : s.startAddr ≤ addr ∧ addr < s.endAddr)
    (ht : t.startAddr ≤ addr ∧ addr < t.endAddr) : i = j := by
  have hdis := pairwise_iff_getElem.mp hL.disjoint
  obtain ⟨hi', rfl⟩ := List.getElem?_eq_some_iff.mp hi
  obtain ⟨hj', rfl⟩ := List.getElem?_eq_some_iff.mp hj
  rcases Nat.lt_trichotomy i j with h | h | h
  · have := hdis i j hi' hj' h
    omega
  · exact h
  · have := hdis j i hj' hi' h
    omega

theorem Layout.Valid.segment_unique (hL : L.Valid) (hs : s ∈ L.segmentInfos)
    (ht : t ∈ L.segmentInfos) (has : s.startAddr ≤ addr ∧ addr < s.endAddr)
    (hat : t.startAddr ≤ addr ∧ addr < t.endAddr) : s = t := by
  obtain ⟨i, hi⟩ := List.getElem?_of_mem hs
  obtain ⟨j, hj⟩ := List.getElem?_of_mem ht
  have := hL.index_unique hi hj has hat
  subst this
  exact Option.some_inj.mp (hi.symm.trans hj)

theorem Layout.Valid.getSegmentAddrToIdx_eq (hL : L.Valid) (hi : L.segmentInfos[i]? = some s)
    (hs : s.startAddr ≤ addr) (he : addr < s.endAddr) : L.getSegmentAddrToIdx addr = some i := by
  obtain ⟨hlt, rfl⟩ := List.getElem?_eq_some_iff.mp hi
  refine List.findIdx?_eq_some_iff_getElem.mpr ⟨hlt, by simp [hs, he], fun j hj hhit => ?_⟩
  have hjlt : j < L.segmentInfos.length := hj.trans hlt
  simp only [Bool.and_eq_true, decide_eq_true_eq] at hhit
  have := hL.index_unique hi (List.getElem?_eq_getElem hjlt) ⟨hs, he⟩ hhit
  omega

theorem Layout.Valid.segmentAt_eq (hL : L.Valid) (hmem : s ∈ L.segmentInfos)
    (hs : s.startAddr ≤ addr) (he : addr < s.endAddr) : L.segmentAt addr = some s := by
  obtain ⟨i, hi⟩ := List.getElem?_of_mem hmem
  simp [Layout.segmentAt, hL.getSegmentAddrToIdx_eq hi hs he, hi]

def Visits (L : Layout) : Nat → List SegmentInfo → Prop
  | _, [] => True
  | addr, s :: ts => L.segmentAt addr = some s ∧ Visits L s.endAddr ts

section Tiles

variable {a e : Nat} {ts : List SegmentInfo}

theorem Tiles.visits (hL : L.Valid) (h : Tiles L a e ts) : Visits L a ts := by
  induction ts generalizing a with
  | nil => trivial
  | cons s ts ih =>
    obtain ⟨rfl, hmem, htail⟩ := h
    exact ⟨hL.segmentAt_eq hmem le_rfl (hL.endAddr_gt hmem), ih htail⟩

section
variable (h : Tiles L a e ts)
include h

theorem Tiles.mem : ∀ s ∈ ts, s ∈ L.segmentInfos := by
  induction ts generalizing a with
  | nil => simp
  | cons s ts ih =>
    obtain ⟨-, hmem, htail⟩ := h
    intro t ht
    rcases mem_cons.mp ht with rfl | ht
    · exact hmem
    · exact ih htail t ht

theorem Tiles.le : a ≤ e := by
  induction ts generalizing a with
  | nil => exact Nat.le_of_eq h
  | cons s ts ih =>
    obtain ⟨rfl, -, htail⟩ := h
    exact (Nat.le_add_right s.startAddr s.segSize).trans (ih htail)

theorem Tiles.within : ∀ s ∈ ts, a ≤ s.startAddr ∧ s.endAddr ≤ e := by
  induction ts generalizing a with
  | nil => simp
  | cons s ts ih =>
    obtain ⟨rfl, -, htail⟩ := h
    intro t ht
    rcases mem_cons.mp ht with rfl | ht
    · exact ⟨le_rfl, htail.le⟩
    · have hle : s.startAddr ≤ s.endAddr := Nat.le_add_right _ _
      exact ⟨hle.trans (ih htail t ht).1, (ih htail t ht).2⟩

theorem Tiles.covers (hax : a ≤ x) (hxe : x < e) : ∃ s ∈ ts, s.startAddr ≤ x ∧ x < s.endAddr := by
  induction ts generalizing a with
  | nil =>
    have : a = e := h
    omega
  | cons s ts ih =>
    obtain ⟨rfl, -, htail⟩ := h
    by_cases hx : x < s.endAddr
    · exact ⟨s, by simp, hax, hx⟩
    · obtain ⟨t, ht, htx⟩ := ih htail (by omega)
      exact ⟨t, by simp [ht], htx⟩

end

theorem Tiles.mem_dropLast_iff (hL : L.Valid) (h : Tiles L a e ts) :
    s ∈ ts.dropLast ↔ s ∈ ts ∧ s.endAddr < e := by
  induction ts generalizing a with
  | nil => simp
  | cons t ts ih =>
    obtain ⟨rfl, hmem, htail⟩ := h
    cases ts with
    | nil =>
      have hend : t.endAddr = e := htail
      simp only [dropLast_singleton, not_mem_nil, mem_singleton, false_iff]
      rintro ⟨rfl, hlt⟩
      omega
    | cons u us =>
      have hin : t.endAddr < e := by
        have hgt := hL.endAddr_gt (htail.mem u (by simp))
        have hwithin := htail.within u (by simp)
        omega
      have hrest := ih htail
      rw [dropLast_cons_of_ne_nil (by simp)]
      simp only [mem_cons] at hrest ⊢
      rw [hrest]
      constructor
      · rintro (rfl | ⟨hs, hlt⟩)
        · exact ⟨.inl rfl, hin⟩
        · exact ⟨.inr hs, hlt⟩
      · rintro ⟨rfl | hs, hlt⟩
        · exact .inl rfl
        · exact .inr ⟨hs, hlt⟩

end Tiles

theorem pow_dvd_of_le {y : Nat} (hx : ∃ k, x = 2 ^ k) (hy : ∃ k, y = 2 ^ k) (h : x ≤ y) :
    y % x = 0 := by
  obtain ⟨m, rfl⟩ := hx
  obtain ⟨n, rfl⟩ := hy
  exact Nat.mod_eq_zero_of_dvd (Nat.pow_dvd_pow 2 ((Nat.pow_le_pow_iff_right (by omega)).mp h))

/-- The count stops one short: the last segment of the tiling is not counted. -/
theorem countSegments_tiles (hL : L.Valid) {a e fuel n : Nat} {ts : List SegmentInfo}
    (h : Tiles L a e (s :: ts)) (hsize : ∀ t ∈ s :: ts, t.segSize ≤ L.blockSize)
    (hfuel : e ≤ a + fuel) :
    countSegments L e fuel a s n = some (n + ts.length) := by
  induction fuel generalizing a s ts n with
  | zero =>
    obtain ⟨rfl, hmem, htail⟩ := h
    have := hL.endAddr_gt hmem
    have := htail.le
    omega
  | succ fuel ih =>
    obtain ⟨rfl, hmem, htail⟩ := h
    have hpos := hL.segSize_pos hmem
    have hend : s.startAddr + s.segSize = s.endAddr := rfl
    cases ts with
    | nil =>
      have hlast : s.endAddr = e := htail
      rw [countSegments, hend, if_neg (by omega)]
      rfl
    | cons t us =>
      have hin : s.endAddr < e := by
        have hgt := hL.endAddr_gt (htail.mem t (by simp))
        have hwithin := htail.within t (by simp)
        omega
      have hdvd : L.blockSize % s.segSize = 0 :=
        pow_dvd_of_le (hL.segSize_pow s hmem) hL.blockSize_pow (hsize s (by simp))
      have hvisit : L.segmentAt s.endAddr = some t := (htail.visits hL).1
      have hrest := ih htail (fun u hu => hsize u (by simp [hu])) (by omega) (n := n + 1)
      rw [countSegments, hend, if_pos ⟨by omega, hin⟩, if_neg (by simp [hdvd]), hvisit]
      simp only [Option.bind_some, hrest, length_cons]
      congr 1
      omega

def setRefreshAll (w : World) (ss : List SegmentInfo) (on : Bool) : World :=
  { w with refresh := fun p => if p ∈ ss.map (·.startAddr) then on else w.refresh p }

theorem setRefreshAll_nil (on : Bool) : setRefreshAll w [] on = w := by
  simp [setRefreshAll]

theorem setRefreshAll_cons (ss : List SegmentInfo) (on : Bool) :
    setRefreshAll (setRefresh w s.startAddr on) ss on = setRefreshAll w (s :: ss) on := by
  unfold setRefreshAll setRefresh
  congr 1
  funext p
  by_cases hp : p = s.startAddr
  · simp [hp]
  · simp [hp]

theorem setRefreshAll_setRefreshAll (ss : List SegmentInfo) (on on' : Bool) :
    setRefreshAll (setRefreshAll w ss on) ss on' = setRefreshAll w ss on' := by
  unfold setRefreshAll
  congr 1
  funext p
  by_cases hp : p ∈ ss.map (·.startAddr)
  · simp only [hp, if_true]
  · simp only [hp, if_false]

theorem sendLoop_visits (on : Bool) (answer : Nat → Bool) (h : Visits L addr ss) (k : Nat) :
    sendLoop L on answer ss.length k addr w = some (none, setRefreshAll w ss on) ∨
      ∃ j < ss.length, answer (k + j) = false ∧
        sendLoop L on answer ss.length k addr w =
          some (some (k + j), setRefreshAll w (ss.take j) on) := by
  induction ss generalizing addr k w with
  | nil => exact .inl (by simp [sendLoop, setRefreshAll_nil])
  | cons s ss ih =>
    obtain ⟨hat, hrest⟩ := h
    simp only [length_cons, sendLoop, hat, Option.bind_some]
    by_cases hans : answer k
    · rw [if_pos hans]
      rcases ih (w := setRefresh w s.startAddr on) hrest (k + 1) with hall | ⟨j, hj, hfail, heq⟩
      · exact .inl (by rw [hall, setRefreshAll_cons])
      · refine .inr ⟨j + 1, by omega, ?_, ?_⟩
        · rw [← hfail]
          congr 1
          omega
        · rw [heq, setRefreshAll_cons, take_succ_cons]
          congr 3
          omega
    · rw [if_neg hans]
      exact .inr ⟨0, by omega, by simpa using hans, by simp [setRefreshAll_nil]⟩

theorem undoLoop_tiles (hL : L.Valid) {on : Bool} {answer : Nat → Bool} {a e : Nat}
    {ts : List SegmentInfo} (h : Tiles L a e ts) {w' : World} (hj : j ≤ ts.length)
    (hundo : undoLoop L on answer j a w = some w') : w' = setRefreshAll w (ts.take j) (!on) := by
  induction j generalizing a ts w with
  | zero =>
    simp only [undoLoop, Option.some.injEq] at hundo
    simp [setRefreshAll_nil, hundo]
  | succ j ih =>
    cases ts with
    | nil => simp at hj
    | cons s ts =>
      obtain ⟨rfl, hmem, htail⟩ := h
      have hat := hL.segmentAt_eq hmem le_rfl (hL.endAddr_gt hmem)
      simp only [undoLoop, hat, Option.bind_some] at hundo
      split at hundo
      · have := ih htail (by simpa using hj) hundo
        rw [this, take_succ_cons, setRefreshAll_cons]
      · simp at hundo

/-- The segments that a request for block `b` addresses: the one around it, or all but the
last of those that tile it. -/
def Layout.asked (L : Layout) (b : Nat) (s : SegmentInfo) : Prop :=
  s ∈ L.segmentInfos ∧ L.overlaps s b ∧
    (L.blockSize ≤ s.segSize ∨ s.endAddr < L.blockAddr b + L.blockSize)

theorem Layout.Valid.overlaps_of_inside (hL : L.Valid) (hs : s ∈ L.segmentInfos)
    (hin : L.inside b s) (ht : t ∈ L.segmentInfos) (hover : L.overlaps t b) : t = s := by
  have hpos := hL.blockSize_pos
  have htpos := hL.endAddr_gt ht
  obtain ⟨hlo, hhi⟩ := hin
  obtain ⟨hov1, hov2⟩ := hover
  by_cases hle : t.startAddr ≤ L.blockAddr b
  · exact hL.segment_unique ht hs ⟨hle, hov2⟩ ⟨hlo, by omega⟩
  · exact hL.segment_unique ht hs ⟨le_rfl, htpos⟩ ⟨by omega, by omega⟩

section
variable {ts : List SegmentInfo} (hL : L.Valid)
  (h : Tiles L (L.blockAddr b) (L.blockAddr b + L.blockSize) ts)
include hL h

theorem Layout.Valid.overlaps_of_tiles (hs : s ∈ L.segmentInfos) (hover : L.overlaps s b) :
    s ∈ ts := by
  have hpos := hL.endAddr_gt hs
  have hbpos := hL.blockSize_pos
  obtain ⟨hov1, hov2⟩ := hover
  by_cases hle : s.startAddr ≤ L.blockAddr b
  · obtain ⟨t, ht, htx⟩ := h.covers (x := L.blockAddr b) le_rfl (by omega)
    exact hL.segment_unique hs (h.mem t ht) ⟨hle, hov2⟩ htx ▸ ht
  · obtain ⟨t, ht, htx⟩ := h.covers (x := s.startAddr) (by omega) hov1
    exact hL.segment_unique hs (h.mem t ht) ⟨le_rfl, hpos⟩ htx ▸ ht

theorem Tiles.overlaps (hs : s ∈ ts) : L.overlaps s b := by
  have hpos := hL.endAddr_gt (h.mem s hs)
  have := h.within s hs
  exact ⟨by omega, by omega⟩

end

/-- Either a block lies in a segment, or at least two smaller segments tile it. -/
theorem Layout.Valid.inside_or_split (hL : L.Valid) (hb : b < L.numBlocks) :
    (∃ s ∈ L.segmentInfos, L.inside b s) ∨
      ∃ s t ts, Tiles L (L.blockAddr b) (L.blockAddr b + L.blockSize) (s :: t :: ts) ∧
        ∀ u ∈ s :: t :: ts, u.segSize < L.blockSize := by
  rcases hL.placed b hb with hin | ⟨ts, hts⟩
  · exact .inl hin
  · have hbpos := hL.blockSize_pos
    match ts, hts with
    | [], hts =>
      have : L.blockAddr b = L.blockAddr b + L.blockSize := hts
      omega
    | [s], hts =>
      obtain ⟨hstart, hmem, hend⟩ := hts
      exact .inl ⟨s, hmem, Nat.le_of_eq hstart, Nat.le_of_eq hend.symm⟩
    | s :: t :: ts, hts =>
      by_cases hall : ∀ u ∈ s :: t :: ts, u.segSize < L.blockSize
      · exact .inr ⟨s, t, ts, hts, hall⟩
      · push Not at hall
        obtain ⟨u, hu, hsize⟩ := hall
        have hwithin := hts.within u hu
        have hend : u.endAddr = u.startAddr + u.segSize := rfl
        exact .inl ⟨u, hts.mem u hu, by omega, by omega⟩

theorem getNumMemblockHotplugSegments_inside (hL : L.Valid) (hs : s ∈ L.segmentInfos)
    (hin : L.inside b s) : getNumMemblockHotplugSegments L (L.blockAddr b) = some 1 := by
  have hpos := hL.blockSize_pos
  obtain ⟨hlo, hhi⟩ := hin
  have hend : s.endAddr = s.startAddr + s.segSize := rfl
  have hsize : L.blockSize ≤ s.segSize := by omega
  simp [getNumMemblockHotplugSegments, hL.segmentAt_eq hs hlo (by omega), hsize]

theorem getNumMemblockHotplugSegments_tiles (hL : L.Valid) {ts : List SegmentInfo}
    (h : Tiles L (L.blockAddr b) (L.blockAddr b + L.blockSize) (s :: ts))
    (hsize : ∀ u ∈ s :: ts, u.segSize < L.blockSize) :
    getNumMemblockHotplugSegments L (L.blockAddr b) = some ts.length := by
  have hat : L.segmentAt (L.blockAddr b) = some s := (h.visits hL).1
  have hsmall := hsize s (by simp)
  have hcount : countSegments L (L.blockAddr b + L.blockSize) L.blockSize (L.blockAddr b) s 0 =
      some (0 + ts.length) := countSegments_tiles hL h (fun u hu => (hsize u hu).le) le_rfl
  simp only [getNumMemblockHotplugSegments, hat, Option.bind_some, if_neg (Nat.not_le.mpr hsmall),
    hcount, Nat.zero_add]

theorem Visits.dropLast (h : Visits L addr ss) : Visits L addr ss.dropLast := by
  induction ss generalizing addr with
  | nil => trivial
  | cons s ss ih =>
    cases ss with
    | nil => trivial
    | cons t ts =>
      exact ⟨h.1, ih h.2⟩

/-- The requests of a block: their number, the segments they address in order, and where an
undo finds them again. -/
structure Requests (L : Layout) (b : Nat) (ss : List SegmentInfo) : Prop where
  count : getNumMemblockHotplugSegments L (L.blockAddr b) = some ss.length
  nonempty : ss ≠ []
  visits : Visits L (L.blockAddr b) ss
  mem_iff : ∀ s, s ∈ ss ↔ L.asked b s
  undo : (∃ s, ss = [s]) ∨ ∃ s e ts, L.segmentAt (L.blockAddr b) = some s ∧
    Tiles L s.startAddr e ts ∧ ss = ts.dropLast ∧ ∀ t ∈ ts, t.segSize < L.blockSize

variable (hL : L.Valid)
include hL

theorem requests_inside (hs : s ∈ L.segmentInfos) (hin : L.inside b s) : Requests L b [s] := by
  have hpos := hL.blockSize_pos
  have hover : L.overlaps s b := ⟨by have := hin.1; omega, by have := hin.2; omega⟩
  have hsize : L.blockSize ≤ s.segSize := by
    have := hin.1
    have := hin.2
    have : s.endAddr = s.startAddr + s.segSize := rfl
    omega
  refine ⟨getNumMemblockHotplugSegments_inside hL hs hin, by simp,
    ⟨hL.segmentAt_eq hs hin.1 hover.2, trivial⟩, fun t => ?_, .inl ⟨s, rfl⟩⟩
  rw [mem_singleton]
  constructor
  · rintro rfl
    exact ⟨hs, hover, .inl hsize⟩
  · rintro ⟨ht, hoverT, -⟩
    exact hL.overlaps_of_inside hs hin ht hoverT

theorem requests_tiles {ts : List SegmentInfo}
    (h : Tiles L (L.blockAddr b) (L.blockAddr b + L.blockSize) (s :: t :: ts))
    (hsize : ∀ u ∈ s :: t :: ts, u.segSize < L.blockSize) :
    Requests L b (s :: t :: ts).dropLast := by
  have hvisits := h.visits hL
  have hstart : Tiles L s.startAddr (L.blockAddr b + L.blockSize) (s :: t :: ts) := by
    rw [h.1]
    exact h
  refine ⟨?_, by simp, hvisits.dropLast, fun u => ?_, .inr ⟨s, _, _, hvisits.1, hstart, rfl, hsize⟩⟩
  · rw [getNumMemblockHotplugSegments_tiles hL h hsize]
    simp
  · rw [h.mem_dropLast_iff hL]
    constructor
    · rintro ⟨hu, hlt⟩
      exact ⟨h.mem u hu, h.overlaps hL hu, .inr hlt⟩
    · rintro ⟨hmem, hover, hcase⟩
      have hu := hL.overlaps_of_tiles h hmem hover
      have := hsize u hu
      exact ⟨hu, by omega⟩

theorem Layout.Valid.requests (hb : b < L.numBlocks) : ∃ ss, Requests L b ss := by
  rcases hL.inside_or_split hb with ⟨s, hs, hin⟩ | ⟨s, t, ts, hts, hsize⟩
  · exact ⟨_, requests_inside hL hs hin⟩
  · exact ⟨_, requests_tiles hL hts hsize⟩

/-- A refused request leaves nothing changed at a block inside a segment; the earlier segments
of a tiled block are set the other way. -/
theorem sendMsg_cases (h : Requests L b ss) (on : Bool) (a : Answers) :
    sendMsg L w (L.blockAddr b) on ss.length a = some (true, setRefreshAll w ss on) ∨
      (∃ j < ss.length, a.sent j = false) ∧
        ∀ r, sendMsg L w (L.blockAddr b) on ss.length a = some r →
          ∃ us, r = (false, setRefreshAll w us (!on)) ∧
            ∀ u ∈ us, u ∈ ss ∧ u.segSize < L.blockSize := by
  obtain ⟨s, rest, rfl⟩ := exists_cons_of_ne_nil h.nonempty
  have hat := h.visits.1
  rcases sendLoop_visits (w := w) on a.sent h.visits 0 with hall | ⟨j, hj, hfail, heq⟩
  · exact .inl (by simp only [sendMsg, hat, Option.bind_some, hall])
  · rw [Nat.zero_add] at hfail heq
    refine .inr ⟨⟨j, hj, hfail⟩, fun r hr => ?_⟩
    simp only [sendMsg, hat, Option.bind_some, heq] at hr
    obtain ⟨w', hundo, rfl⟩ := Option.map_eq_some_iff.mp hr
    rcases h.undo with ⟨t, ht⟩ | ⟨t, e, ts, htat, htiles, hss, hsize⟩
    · -- one request only: it failed, so there is nothing to undo
      have hlen := congrArg List.length ht
      simp only [length_cons, length_nil] at hlen
      have hj0 : j = 0 := by
        simp only [length_cons] at hj
        omega
      subst hj0
      simp only [undoLoop, Option.some.injEq, take_zero, setRefreshAll_nil] at hundo
      exact ⟨[], by simp [setRefreshAll_nil, hundo], by simp⟩
    · obtain rfl : s = t := Option.some_inj.mp (hat.symm.trans htat)
      have hjt : j ≤ ts.length - 1 := by
        have := congrArg List.length hss
        simp only [length_dropLast] at this
        omega
      have htake : (s :: rest).take j = ts.take j := by
        rw [hss, dropLast_eq_take, take_take, Nat.min_eq_left hjt]
      have hw' := undoLoop_tiles hL htiles (by omega) hundo
      rw [htake, setRefreshAll_setRefreshAll] at hw'
      refine ⟨ts.take j, by rw [hw'], fun u hu => ⟨?_, hsize u (mem_of_mem_take hu)⟩⟩
      rw [← htake] at hu
      exact mem_of_mem_take hu

theorem setRefreshAll_refresh (on : Bool) (hs : s ∈ L.segmentInfos)
    (hss : ∀ t ∈ ss, t ∈ L.segmentInfos) [Decidable (s ∈ ss)] :
    (setRefreshAll w ss on).refresh s.startAddr = if s ∈ ss then on else w.refresh s.startAddr := by
  have hiff : s.startAddr ∈ ss.map (·.startAddr) ↔ s ∈ ss := by
    rw [mem_map]
    constructor
    · rintro ⟨t, ht, heq⟩
      have hpos := hL.endAddr_gt hs
      have htpos := hL.endAddr_gt (hss t ht)
      exact hL.segment_unique hs (hss t ht) ⟨le_rfl, hpos⟩ ⟨heq.le, heq ▸ htpos⟩ ▸ ht
    · exact fun h => ⟨s, h, rfl⟩
  simp only [setRefreshAll, hiff]

/-- Everything a request for a change of block `b`'s state can do. -/
theorem memChangeRefreshState_cases (hb : b < L.numBlocks) {bugOn : Bool} {state : MemoryState}
    {a : Answers} {r : Bool × World} (hne : w.memSecState b ≠ state)
    (h : memChangeRefreshState L bugOn w b state a = some r) :
    (needToSendRemoteRequest L w (L.blockAddr b) = false ∧ r = (true, setMemSecState w b state)) ∨
    (needToSendRemoteRequest L w (L.blockAddr b) = true ∧
      ∃ R, r = (true, setMemSecState { w with refresh := R } b state) ∧
        (∀ s, L.asked b s → R s.startAddr = decide (state = .online)) ∧
        ∀ s ∈ L.segmentInfos, ¬ L.asked b s → R s.startAddr = w.refresh s.startAddr) ∨
    ((∃ j, a.sent j = false) ∧
      ∃ R, r = (false, { w with refresh := R }) ∧
        ∀ s ∈ L.segmentInfos, R s.startAddr = w.refresh s.startAddr ∨
          L.asked b s ∧ s.segSize < L.blockSize ∧ R s.startAddr = !decide (state = .online)) := by
  obtain ⟨ss, hss⟩ := hL.requests hb
  have hmem : ∀ t ∈ ss, t ∈ L.segmentInfos := fun t ht => ((hss.mem_iff t).mp ht).1
  have hlen : ss.length ≠ 0 := by simpa using hss.nonempty
  simp only [memChangeRefreshState, if_neg hne, hss.count, Option.bind_some, if_neg hlen] at h
  cases hneed : needToSendRemoteRequest L w (L.blockAddr b) with
  | false =>
    simp only [hneed, Bool.false_eq_true, if_false, Option.some.injEq] at h
    exact .inl ⟨rfl, h.symm⟩
  | true =>
    simp only [hneed, if_true] at h
    rcases sendMsg_cases (w := w) hL hss (decide (state = .online)) a with hall | ⟨hfail, hundo⟩
    · simp only [hall, Option.bind_some, Option.some.injEq] at h
      refine .inr (.inl ⟨rfl, _, h.symm, fun s hs => ?_, fun s hs hask => ?_⟩)
      · have := setRefreshAll_refresh (w := w) hL (decide (state = .online)) hs.1 hmem
        rw [if_pos ((hss.mem_iff s).mpr hs)] at this
        exact this
      · have := setRefreshAll_refresh (w := w) hL (decide (state = .online)) hs hmem
        rw [if_neg (mt (hss.mem_iff s).mp hask)] at this
        exact this
    · obtain ⟨q, hq, hcont⟩ := Option.bind_eq_some_iff.mp h
      obtain ⟨us, rfl, hus⟩ := hundo q hq
      have hr : r = (false, setRefreshAll w us (!decide (state = .online))) := by
        simp only at hcont
        split at hcont
        · simp at hcont
        · exact (Option.some.inj hcont).symm
      obtain ⟨j, -, hj⟩ := hfail
      refine .inr (.inr ⟨⟨j, hj⟩, _, hr, fun s hs => ?_⟩)
      have husMem : ∀ t ∈ us, t ∈ L.segmentInfos := fun t ht => hmem t (hus t ht).1
      have := setRefreshAll_refresh (w := w) hL (!decide (state = .online)) hs husMem
      by_cases hsu : s ∈ us
      · rw [if_pos hsu] at this
        exact .inr ⟨(hss.mem_iff s).mp (hus s hsu).1, (hus s hsu).2, this⟩
      · rw [if_neg hsu] at this
        exact .inl this

end MsmKernel.MemOffline
