import Mathlib.Data.List.Basic
import Mathlib.Data.Nat.Bitwise
import Mathlib.Tactic.Common

/-! Scatterlists on their way through the DMA API (qcom-dma-iommu-generic.c): one IOVA range is laid out
over the padded segments, and the length of the range is recovered from the list when it is unmapped. -/
namespace MsmKernel.Iommu.DmaSg
open List Option

def dmaMappingError : Nat := 0xffffffffffffffff

def alignPage (x : Nat) : Nat := (x + 4095) % 0x10000000000000000 / 4096 * 4096

structure Sg where
  offset : Nat
  length : Nat
  dmaAddress : Nat
  dmaLen : Nat
  deriving DecidableEq

structure SegLimits where
  boundary : Nat
  maxSize : Nat

def padLen (mask iovaLen : Nat) : Nat :=
  (mask + 0x10000000000000000 - iovaLen + 1) % 0x10000000000000000 &&& mask

/- `prev->length += pad_len`. There is no `prev` in the first turn, where nothing is padded. -/
def padPrev (pad : Nat) : List Sg → List Sg
  | [] => []
  | prev :: done => { prev with length := (prev.length + pad) % 0x100000000 } :: done

def stash (s : Sg) : Sg :=
  { offset := s.offset - s.offset % 4096
    length := alignPage (s.length + s.offset % 4096) % 0x100000000
    dmaAddress := s.offset % 4096
    dmaLen := s.length }

def prepareMapSg (mask : Nat) : List Sg → List Sg → Nat → List Sg × Nat
  | [], done, iovaLen => (done.reverse, iovaLen)
  | s :: sgl, done, iovaLen =>
    let sLength := alignPage (s.length + s.offset % 4096)
    let pad := padLen mask iovaLen
    if pad ≠ 0 ∧ pad < (sLength + 0xffffffffffffffff) % 0x10000000000000000 then
      prepareMapSg mask sgl (stash s :: padPrev pad done) (iovaLen + pad + sLength)
    else prepareMapSg mask sgl (stash s :: done) (iovaLen + sLength)

def qcomIommuDmaPrepareMapSg (mask : Nat) (sgl : List Sg) : List Sg × Nat := prepareMapSg mask sgl [] 0

structure Finalise where
  outs : List (Nat × Nat)
  curLen : Nat
  dmaAddr : Nat

open Finalise

def setCurLen (len : Nat) : List (Nat × Nat) → List (Nat × Nat)
  | [] => []
  | (addr, _) :: outs => (addr, len) :: outs

def Finalise.concatenates (limits : SegLimits) (f : Finalise) (s : Sg) : Prop :=
  f.curLen ≠ 0 ∧ s.dmaAddress = 0 ∧ f.dmaAddr &&& limits.boundary ≠ 0 ∧
    s.dmaLen ≤ (limits.maxSize + 0x100000000 - f.curLen) % 0x100000000

instance (limits : SegLimits) (f : Finalise) (s : Sg) : Decidable (f.concatenates limits s) :=
  inferInstanceAs (Decidable (_ ∧ _))

def Finalise.turn (limits : SegLimits) (f : Finalise) (s : Sg) : Finalise :=
  let curLen := if f.concatenates limits s then (f.curLen + s.dmaLen) % 0x100000000 else s.dmaLen
  { outs :=
      if f.concatenates limits s then setCurLen curLen f.outs
      else (f.dmaAddr + s.dmaAddress, curLen) :: f.outs
    curLen := if (s.dmaLen + s.dmaAddress) % 0x100000000 < s.length then 0 else curLen
    dmaAddr := f.dmaAddr + s.length }

/- The segments with their own offsets and lengths again; the output segments stand in the DMA fields of
the first of them, and the others have none. -/
def restore : List Sg → List (Nat × Nat) → List Sg
  | [], _ => []
  | s :: sgl, [] => ⟨s.offset + s.dmaAddress, s.dmaLen, dmaMappingError, 0⟩ :: restore sgl []
  | s :: sgl, (addr, len) :: outs => ⟨s.offset + s.dmaAddress, s.dmaLen, addr, len⟩ :: restore sgl outs

def finaliseTurns (limits : SegLimits) (dmaAddr : Nat) (sgl : List Sg) : Finalise :=
  sgl.foldl (Finalise.turn limits) { outs := [], curLen := 0, dmaAddr := dmaAddr }

def qcomIommuDmaFinaliseSg (limits : SegLimits) (dmaAddr : Nat) (sgl : List Sg) : List Sg :=
  restore sgl (finaliseTurns limits dmaAddr sgl).outs.reverse

def lastSg (sg : Sg) : List Sg → Sg
  | [] => sg
  | tmp :: rest => if tmp.dmaLen = 0 then sg else lastSg tmp rest

def unmapRange : List Sg → Nat × Nat
  | [] => (0, 0)
  | sg :: rest =>
    let start := sg.dmaAddress
    let last := lastSg sg rest
    (start, alignPage (last.dmaAddress + last.dmaLen - (start - start % 4096)))

def total : List Sg → Nat
  | [] => 0
  | s :: sgl => s.length + total sgl

/- A segment between the two functions: its data lies in the whole pages that it is given. -/
structure Prepared (s : Sg) : Prop where
  offset_lt : s.dmaAddress < 4096
  len_pos : 0 < s.dmaLen
  fits : s.dmaAddress + s.dmaLen ≤ s.length
  whole : s.length % 4096 = 0

variable {k : Nat} {prev : Sg} {outs : List (Nat × Nat)}

section Prepare
variable {mask iovaLen : Nat} {s : Sg} {sgl done : List Sg}

theorem alignPage_eq {x : Nat} (hx : x < 0x200000000) : alignPage x = (x + 4095) / 4096 * 4096 := by
  rw [alignPage, Nat.mod_eq_of_lt (by omega)]

/-- The padding up to a boundary is made of whole pages, whatever power of two the boundary is. -/
theorem padLen_whole (hk : k ≤ 64) (hmask : mask + 1 = 2 ^ k) (hlen : iovaLen % 4096 = 0)
    (hlt : iovaLen < 0x100000000) : padLen mask iovaLen % 4096 = 0 := by
  have hsum : mask + 0x10000000000000000 - iovaLen + 1 = 2 ^ k + 0x10000000000000000 - iovaLen := by omega
  have hpad : padLen mask iovaLen = (2 ^ k + 0x10000000000000000 - iovaLen) % 0x10000000000000000 % 2 ^ k := by
    rw [padLen, hsum, show mask = 2 ^ k - 1 by omega, Nat.and_two_pow_sub_one_eq_mod]
  have hdvd64 : 2 ^ k ∣ 0x10000000000000000 := Nat.pow_dvd_pow 2 hk
  rw [hpad, Nat.mod_mod_of_dvd _ hdvd64]
  -- below a page the boundary divides everything, above it a page divides the boundary
  rcases Nat.le_total k 12 with hsmall | hlarge
  · have hdvd : 2 ^ k ∣ 2 ^ k + 0x10000000000000000 - iovaLen :=
      Nat.dvd_sub (Nat.dvd_add (dvd_refl _) hdvd64)
        (dvd_trans (Nat.pow_dvd_pow 2 hsmall) (Nat.dvd_of_mod_eq_zero hlen))
    rw [Nat.mod_eq_zero_of_dvd hdvd]
  · have hpage : 4096 ∣ 2 ^ k := Nat.pow_dvd_pow 2 hlarge
    rw [Nat.mod_mod_of_dvd _ hpage]
    omega

theorem padLen_zero (hk : k ≤ 64) (hmask : mask + 1 = 2 ^ k) : padLen mask 0 = 0 := by
  have hsum : mask + 0x10000000000000000 - 0 + 1 = 2 ^ k + 0x10000000000000000 := by omega
  have hdvd64 : 2 ^ k ∣ 0x10000000000000000 := Nat.pow_dvd_pow 2 hk
  have hpad : padLen mask 0 = (2 ^ k + 0x10000000000000000) % 0x10000000000000000 % 2 ^ k := by
    rw [padLen, hsum, show mask = 2 ^ k - 1 by omega, Nat.and_two_pow_sub_one_eq_mod]
  rw [hpad, Nat.mod_mod_of_dvd _ hdvd64, Nat.add_mod_left, Nat.mod_eq_zero_of_dvd hdvd64]

theorem iovaLen_le (mask : Nat) (sgl done : List Sg) (iovaLen : Nat) :
    iovaLen ≤ (prepareMapSg mask sgl done iovaLen).2 := by
  induction sgl generalizing done iovaLen with
  | nil => exact le_rfl
  | cons s sgl ih =>
    rw [prepareMapSg]
    split
    · exact le_trans (by omega) (ih _ _)
    · exact le_trans (by omega) (ih _ _)

theorem stash_prepared (hlen : 0 < s.length) (hlt : alignPage (s.length + s.offset % 4096) < 0x100000000)
    (hs : s.length < 0x100000000) :
    Prepared (stash s) ∧ (stash s).length = alignPage ((stash s).dmaAddress + (stash s).dmaLen) ∧
      (stash s).length = alignPage (s.length + s.offset % 4096) := by
  have heq : (stash s).length = alignPage (s.length + s.offset % 4096) := Nat.mod_eq_of_lt hlt
  have halign := alignPage_eq (by omega : s.length + s.offset % 4096 < 0x200000000)
  refine ⟨⟨?_, hlen, ?_, ?_⟩, ?_, heq⟩
  · exact Nat.mod_lt _ (by decide)
  · rw [heq, halign]
    simp only [stash]
    omega
  · rw [heq, halign]
    omega
  · rw [heq]
    exact congrArg alignPage (Nat.add_comm _ _)

theorem length_le_total (hs : s ∈ sgl) : s.length ≤ total sgl := by
  induction sgl with
  | nil => exact absurd hs not_mem_nil
  | cons s' sgl ih =>
    rw [total]
    rcases mem_cons.1 hs with rfl | hs
    · omega
    · have hle := ih hs
      omega

theorem total_append (sgl sgl' : List Sg) : total (sgl ++ sgl') = total sgl + total sgl' := by
  induction sgl with
  | nil => simp [total]
  | cons s sgl ih => simp [total, ih, Nat.add_assoc]

theorem total_reverse (sgl : List Sg) : total sgl.reverse = total sgl := by
  induction sgl with
  | nil => rfl
  | cons s sgl ih => simp [total_append, total, ih, Nat.add_comm]

structure Laid (done : List Sg) (iovaLen : Nat) : Prop where
  prepared : ∀ s ∈ done, Prepared s
  total : total done = iovaLen
  latest : ∀ s ∈ done.head?, s.length = alignPage (s.dmaAddress + s.dmaLen)

theorem Laid.whole (h : Laid done iovaLen) : iovaLen % 4096 = 0 := by
  obtain ⟨hprepared, rfl, -⟩ := h
  induction done with
  | nil => rfl
  | cons s done ih =>
    have hs := (hprepared s mem_cons_self).whole
    have hrest := ih fun s' hs' => hprepared s' (mem_cons_of_mem s hs')
    rw [DmaSg.total]
    omega

theorem laid_cons (h : ∀ s ∈ done, Prepared s) (hdone : total done = iovaLen) (hlen : 0 < s.length)
    (hs : s.length < 0x100000000) (hlt : iovaLen + alignPage (s.length + s.offset % 4096) < 0x100000000) :
    Laid (stash s :: done) (iovaLen + alignPage (s.length + s.offset % 4096)) := by
  obtain ⟨hprepared, hlatest, hlength⟩ := stash_prepared hlen (by omega) hs
  refine ⟨?_, ?_, ?_⟩
  · intro s' hs'
    rcases mem_cons.1 hs' with rfl | hs'
    · exact hprepared
    · exact h s' hs'
  · rw [DmaSg.total, hdone, hlength, Nat.add_comm]
  · rintro s' ⟨⟩
    exact hlatest

theorem padPrev_laid {pad : Nat} (h : Laid done iovaLen) (hne : done ≠ []) (hpad : pad % 4096 = 0)
    (hlt : iovaLen + pad < 0x100000000) :
    (∀ s ∈ padPrev pad done, Prepared s) ∧ total (padPrev pad done) = iovaLen + pad := by
  obtain ⟨hprepared, rfl, -⟩ := h
  cases done with
  | nil => exact absurd rfl hne
  | cons prev done =>
    rw [DmaSg.total] at hlt ⊢
    have hmod : (prev.length + pad) % 0x100000000 = prev.length + pad := Nat.mod_eq_of_lt (by omega)
    obtain ⟨hoffset, hpos, hfits, hwhole⟩ := hprepared prev mem_cons_self
    refine ⟨?_, ?_⟩
    · intro s hs
      rcases mem_cons.1 hs with rfl | hs
      · refine ⟨hoffset, hpos, ?_, ?_⟩ <;> simp only [hmod] <;> omega
      · exact hprepared s (mem_cons_of_mem prev hs)
    · simp only [padPrev, DmaSg.total, hmod]
      omega

/-- The first loop lays the segments out without a gap in whole pages, in their order. -/
theorem prepareMapSg_laid (hk : k ≤ 64) (hmask : mask + 1 = 2 ^ k) (h : Laid done iovaLen)
    (hsgl : ∀ s ∈ sgl, 0 < s.length ∧ s.length < 0x100000000)
    (hlt : (prepareMapSg mask sgl done iovaLen).2 < 0x100000000) :
    Laid (prepareMapSg mask sgl done iovaLen).1.reverse (prepareMapSg mask sgl done iovaLen).2 ∧
      (prepareMapSg mask sgl done iovaLen).1.map Sg.dmaAddress =
        done.reverse.map Sg.dmaAddress ++ sgl.map (·.offset % 4096) := by
  induction sgl generalizing done iovaLen with
  | nil => simpa [prepareMapSg] using h
  | cons s sgl ih =>
    obtain ⟨hpos, hs⟩ := hsgl s mem_cons_self
    have hrest : ∀ s ∈ sgl, 0 < s.length ∧ s.length < 0x100000000 :=
      fun s' hs' => hsgl s' (mem_cons_of_mem s hs')
    have hmono := iovaLen_le mask sgl
    rw [prepareMapSg] at hlt ⊢
    split at hlt
    · rename_i hpadded
      have hle := lt_of_le_of_lt (hmono _ _) hlt
      have hne : done ≠ [] := by
        rintro rfl
        obtain rfl : 0 = iovaLen := h.total
        exact hpadded.1 (padLen_zero hk hmask)
      obtain ⟨hprepared, htotal⟩ := padPrev_laid h hne
        (padLen_whole hk hmask h.whole (by omega)) (by omega)
      obtain ⟨hlaid, haddr⟩ := ih (laid_cons hprepared htotal hpos hs hle) hrest hlt
      rw [if_pos hpadded]
      refine ⟨hlaid, haddr.trans ?_⟩
      cases done with
      | nil => exact absurd rfl hne
      | cons prev done => simp [padPrev, stash]
    · rename_i hunpadded
      have hle := lt_of_le_of_lt (hmono _ _) hlt
      obtain ⟨hlaid, haddr⟩ := ih (laid_cons h.prepared h.total hpos hs hle) hrest hlt
      rw [if_neg hunpadded]
      exact ⟨hlaid, haddr.trans (by simp [stash])⟩

end Prepare

/- The second loop after the segment `s`: the current output segment ends where the data of `s` does, and
`curLen` is 0 unless that is the end of its pages. -/
structure Filled (iova first : Nat) (f : Finalise) (s : Sg) : Prop where
  cur : ∃ addr len outs, f.outs = (addr, len) :: outs ∧ iova ≤ addr ∧
    addr + len + s.length = f.dmaAddr + s.dmaAddress + s.dmaLen ∧
    (f.curLen ≠ 0 → f.curLen = len ∧ addr + len = f.dmaAddr)
  pos : ∀ o ∈ f.outs, 0 < o.2
  first : f.outs.getLast?.map Prod.fst = some first

section Finalise
variable {limits : SegLimits} {iova first : Nat} {f : Finalise} {s : Sg} {sgl : List Sg}

theorem filled_of_start (hs : Prepared s) (hstart : ¬ f.concatenates limits s) (hlow : iova ≤ f.dmaAddr)
    (hlt : s.length < 0x100000000) (hpos : ∀ o ∈ f.outs, 0 < o.2)
    (hfirst : (f.outs.getLast?.map Prod.fst).getD (f.dmaAddr + s.dmaAddress) = first) :
    Filled iova first (f.turn limits s) s := by
  obtain ⟨hoffset, hlen, hfits, -⟩ := hs
  have hmod : (s.dmaLen + s.dmaAddress) % 0x100000000 = s.dmaLen + s.dmaAddress := Nat.mod_eq_of_lt (by omega)
  refine ⟨⟨f.dmaAddr + s.dmaAddress, s.dmaLen, f.outs, ?_, by omega, ?_, ?_⟩, ?_, ?_⟩
  · simp [turn, hstart]
  · simp only [turn]
    omega
  · simp only [turn, hmod, if_neg hstart]
    split <;> omega
  · simp only [turn, if_neg hstart, mem_cons]
    rintro o (rfl | ho)
    · exact hlen
    · exact hpos o ho
  · simp only [turn, if_neg hstart, List.getLast?_cons, map_some]
    rw [← hfirst]
    cases f.outs.getLast? <;> rfl

theorem filled_of_concatenate (h : Filled iova first f prev) (hs : Prepared s)
    (hjoin : f.concatenates limits s) (hlt : f.dmaAddr + s.length < iova + 0x100000000) :
    Filled iova first (f.turn limits s) s := by
  obtain ⟨addr, len, outs, houts, hlow, -, hcur⟩ := h.cur
  obtain ⟨hcurLen, hend⟩ := hcur hjoin.1
  obtain ⟨-, hlen, hfits, -⟩ := hs
  have hzero : s.dmaAddress = 0 := hjoin.2.1
  have hmod : (s.dmaLen + s.dmaAddress) % 0x100000000 = s.dmaLen + s.dmaAddress := Nat.mod_eq_of_lt (by omega)
  have hnew : (f.curLen + s.dmaLen) % 0x100000000 = len + s.dmaLen := by
    rw [hcurLen, Nat.mod_eq_of_lt (by omega)]
  have hturn : (f.turn limits s).outs = (addr, len + s.dmaLen) :: outs := by
    simp only [turn, if_pos hjoin, hnew, houts, setCurLen]
  refine ⟨⟨addr, len + s.dmaLen, outs, hturn, hlow, ?_, ?_⟩, ?_, ?_⟩
  · simp only [turn]
    omega
  · simp only [turn, hmod, if_pos hjoin, hnew]
    split <;> omega
  · rw [hturn]
    intro o ho
    rcases mem_cons.1 ho with rfl | ho
    · exact Nat.add_pos_right len hlen
    · exact h.pos o (houts ▸ mem_cons_of_mem _ ho)
  · have hfirst := h.first
    rw [houts, List.getLast?_cons] at hfirst
    rw [hturn, List.getLast?_cons]
    cases houtsLast : outs.getLast? with
    | _ => simpa [houtsLast] using hfirst

theorem Filled.turn (h : Filled iova first f prev) (hs : Prepared s) (hlow : iova ≤ f.dmaAddr)
    (hlt : f.dmaAddr + s.length < iova + 0x100000000) : Filled iova first (f.turn limits s) s := by
  by_cases hjoin : f.concatenates limits s
  · exact filled_of_concatenate h hs hjoin hlt
  · refine filled_of_start hs hjoin hlow (by omega) h.pos ?_
    rw [h.first]
    rfl

theorem outs_length_turn (limits : SegLimits) (f : Finalise) (s : Sg) :
    (f.turn limits s).outs.length ≤ f.outs.length + 1 := by
  simp only [turn]
  split
  · cases f.outs <;> simp [setCurLen]
  · simp

theorem outs_length_foldl (limits : SegLimits) (sgl : List Sg) (f : Finalise) :
    (sgl.foldl (Finalise.turn limits) f).outs.length ≤ f.outs.length + sgl.length := by
  induction sgl generalizing f with
  | nil => exact le_rfl
  | cons s sgl ih =>
    have hturn := outs_length_turn limits f s
    have hrest := ih (f.turn limits s)
    rw [foldl_cons, length_cons]
    omega

theorem Filled.foldl (h : Filled iova first f prev) (hsgl : ∀ s ∈ sgl, Prepared s)
    (hlow : iova ≤ f.dmaAddr) (hlt : f.dmaAddr + total sgl < iova + 0x100000000) :
    Filled iova first (sgl.foldl (Finalise.turn limits) f) (sgl.getLast?.getD prev) ∧
      (sgl.foldl (Finalise.turn limits) f).dmaAddr = f.dmaAddr + total sgl := by
  induction sgl generalizing f prev with
  | nil => exact ⟨h, rfl⟩
  | cons s sgl ih =>
    rw [total] at hlt
    have hturn : Filled iova first (f.turn limits s) s := h.turn (hsgl s mem_cons_self) hlow (by omega)
    have hdma : (f.turn limits s).dmaAddr = f.dmaAddr + s.length := rfl
    obtain ⟨hfilled, hend⟩ := ih hturn (fun s' hs' => hsgl s' (mem_cons_of_mem s hs'))
      (by omega) (by omega)
    rw [foldl_cons, List.getLast?_cons, getD_some, total]
    exact ⟨hfilled, hend.trans (by omega)⟩

theorem lastSg_restore (cur : Sg) (hlen : outs.length ≤ sgl.length) (hpos : ∀ o ∈ outs, 0 < o.2) :
    ((lastSg cur (restore sgl outs)).dmaAddress, (lastSg cur (restore sgl outs)).dmaLen) =
      outs.getLast?.getD (cur.dmaAddress, cur.dmaLen) := by
  induction sgl generalizing outs cur with
  | nil =>
    obtain rfl : outs = [] := eq_nil_of_length_eq_zero (by simpa using hlen)
    rfl
  | cons s sgl ih =>
    cases outs with
    | nil => simp [restore, lastSg]
    | cons o outs =>
      have ho : o.2 ≠ 0 := (hpos o mem_cons_self).ne'
      have hrest := ih ⟨s.offset + s.dmaAddress, s.dmaLen, o.1, o.2⟩ (by simpa using hlen)
        fun o' ho' => hpos o' (mem_cons_of_mem o ho')
      simp only [restore, lastSg, if_neg ho, List.getLast?_cons, getD_some]
      exact hrest

theorem unmapRange_restore {addr len : Nat} (hne : sgl ≠ [])
    (hlen : ((addr, len) :: outs).length ≤ sgl.length) (hpos : ∀ o ∈ (addr, len) :: outs, 0 < o.2)
    (hfirst : ((addr, len) :: outs).getLast?.map Prod.fst = some first) :
    unmapRange (restore sgl ((addr, len) :: outs).reverse) =
      (first, alignPage (addr + len - (first - first % 4096))) := by
  cases sgl with
  | nil => exact absurd rfl hne
  | cons s sgl =>
    cases hrev : ((addr, len) :: outs).reverse with
    | nil => simp at hrev
    | cons o os =>
      have hlast : os.getLast?.getD o = (addr, len) := by
        have h := congrArg List.getLast? hrev
        rw [List.getLast?_reverse, List.head?_cons, List.getLast?_cons] at h
        exact (some.inj h).symm
      have ho : o.1 = first := by
        rw [← List.head?_reverse, hrev, List.head?_cons, map_some] at hfirst
        exact some.inj hfirst
      have hcount : os.length ≤ sgl.length := by
        have h := congrArg List.length hrev
        simp only [length_reverse, length_cons] at h hlen
        omega
      have hscan := lastSg_restore ⟨s.offset + s.dmaAddress, s.dmaLen, o.1, o.2⟩ hcount fun o' ho' =>
        hpos o' (mem_reverse.1 (hrev ▸ mem_cons_of_mem o ho'))
      rw [hlast, Prod.mk.injEq] at hscan
      subst ho
      simp only [restore, unmapRange, hscan.1, hscan.2]

/-- The last output segment of a finalised list ends with the data of its last segment, so the whole
range is found again. -/
theorem unmapRange_finalise {l : List Sg} {L : Nat} (hl : l ≠ []) (hlaid : Laid l.reverse L)
    (hL : L < 0x100000000) (hiova : iova % 4096 = 0) :
    unmapRange (qcomIommuDmaFinaliseSg limits iova l) = (iova + (l.head hl).dmaAddress, L) := by
  cases l with
  | nil => exact absurd rfl hl
  | cons s₀ l =>
    have hprepared : ∀ s ∈ s₀ :: l, Prepared s := fun s hs => hlaid.prepared s (mem_reverse.2 hs)
    have htotal : s₀.length + total l = L := (total_reverse (s₀ :: l)).symm.trans hlaid.total
    have hfilled₀ : Filled iova (iova + s₀.dmaAddress) (Finalise.turn limits ⟨[], 0, iova⟩ s₀) s₀ :=
      filled_of_start (hprepared s₀ mem_cons_self) (fun hjoin => hjoin.1 rfl) le_rfl (by omega)
        (fun _ ho => nomatch ho) rfl
    have hdma₀ : (Finalise.turn limits ⟨[], 0, iova⟩ s₀).dmaAddr = iova + s₀.length := rfl
    have hfold : Filled iova _ (finaliseTurns limits iova (s₀ :: l)) (l.getLast?.getD s₀) ∧
        (finaliseTurns limits iova (s₀ :: l)).dmaAddr = _ :=
      hfilled₀.foldl (fun s hs => hprepared s (mem_cons_of_mem s₀ hs)) (by omega) (by omega)
    obtain ⟨⟨⟨addr, len, outs, houts, -, hcur, -⟩, hpos, hfirst⟩, hend⟩ := hfold
    have hcount : (finaliseTurns limits iova (s₀ :: l)).outs.length ≤ 0 + (s₀ :: l).length :=
      outs_length_foldl limits (s₀ :: l) ⟨[], 0, iova⟩
    have hlatest := hlaid.latest (l.getLast?.getD s₀) (by simp)
    have hmem : l.getLast?.getD s₀ ∈ s₀ :: l := mem_of_getLast? List.getLast?_cons
    have hlast := hprepared _ hmem
    have hlastLe : (l.getLast?.getD s₀).length ≤ s₀.length + total l := length_le_total hmem
    have hoffset := (hprepared s₀ mem_cons_self).offset_lt
    have hwhole := hlaid.whole
    rw [houts] at hpos hfirst hcount
    rw [qcomIommuDmaFinaliseSg, houts, unmapRange_restore hl (by omega) hpos hfirst]
    have hlastFits := hlast.fits
    rw [alignPage_eq (by omega)] at hlatest ⊢
    congr 1
    omega

/-- A list that was mapped at a page gives back, when it is unmapped, the range that was allocated. -/
theorem unmapRange_mapped (hk : k ≤ 64) (hboundary : limits.boundary + 1 = 2 ^ k) (hne : sgl ≠ [])
    (hsgl : ∀ s ∈ sgl, 0 < s.length ∧ s.length < 0x100000000)
    (hlen : (qcomIommuDmaPrepareMapSg limits.boundary sgl).2 < 0x100000000)
    (hiova : iova % 4096 = 0) :
    ∃ offset < 4096,
      unmapRange (qcomIommuDmaFinaliseSg limits iova (qcomIommuDmaPrepareMapSg limits.boundary sgl).1) =
        (iova + offset, (qcomIommuDmaPrepareMapSg limits.boundary sgl).2) ∧
      (qcomIommuDmaPrepareMapSg limits.boundary sgl).2 % 4096 = 0 := by
  have hempty : Laid [] 0 := ⟨(fun _ hs => nomatch hs), rfl, (fun _ hs => nomatch hs)⟩
  obtain ⟨hlaid, haddr⟩ := prepareMapSg_laid hk hboundary hempty hsgl hlen
  rw [← qcomIommuDmaPrepareMapSg] at hlaid haddr
  have hl : (qcomIommuDmaPrepareMapSg limits.boundary sgl).1 ≠ [] := by
    intro hnil
    rw [hnil] at haddr
    exact hne (map_eq_nil_iff.1 haddr.symm)
  exact ⟨_, (hlaid.prepared _ (mem_reverse.2 (head_mem hl))).offset_lt,
    unmapRange_finalise hl hlaid hlen hiova, hlaid.whole⟩

end Finalise

end MsmKernel.Iommu.DmaSg
