import MsmKernel.Iommu.FastMapping
import MsmKernel.Lib.Run

/-! The ranges that dma-mapping-fast.c hands out stay apart, and none has a stale TLB entry, for every
sequence of calls on a mapping whose page table begins where its pages do. -/
namespace MsmKernel.Iommu.FastMapping
open Bitmap DmaSg PgtableFast Run List

structure Sound (reserved : Bits) (w : World) : Prop where
  disjoint : w.grants.Pairwise fun g g' => ∀ p, g.covers p → ¬ g'.covers p
  inside : ∀ g ∈ w.grants, g.first + g.count ≤ w.mapping.num4kPages
  unreserved : ∀ g ∈ w.grants, ∀ p, g.covers p → reserved p = false
  exact : ∀ p, w.mapping.bitmap p = true ↔ reserved p = true ∨ ∃ g ∈ w.grants, g.covers p
  clean : ∀ p, w.mapping.bitmap p = true → w.mapping.cleanBitmap p = true
  fresh : ∀ g ∈ w.grants, ∀ p, g.covers p → w.freed p = false

def Handle.range : Handle → Nat × Nat
  | .page iova size => (iova, alignPage (size + iova % 4096))
  | .sg sgl => unmapRange sgl
  | .coherent iova size => (iova, size)
  | .resource addr size => (addr, alignPage (size + addr % 4096))

def Grant.returns (base : Nat) (g : Grant) : Prop :=
  base + 4096 * g.first ≤ g.handle.range.1 ∧ (g.handle.range.1 - base) >>> 12 = g.first ∧
    g.handle.range.2 >>> 12 = g.count

/- The mapping has its fixed base and size, every freed page is still set in the clean map, and the two
maps differ only while there are stale entries. -/
structure Core (base num : Nat) (reserved : Bits) (w : World) : Prop where
  base_eq : w.mapping.base = base
  num_eq : w.mapping.num4kPages = num
  num_le : num ≤ 0x100000
  sound : Sound reserved w
  freed : ∀ p, w.freed p = true → w.mapping.cleanBitmap p = true
  synced : w.mapping.haveStaleTlbs = false → ∀ p, w.mapping.cleanBitmap p = true → w.mapping.bitmap p = true

structure Inv (base num : Nat) (reserved : Bits) (w : World) : Prop extends Core base num reserved w where
  returns : ∀ g ∈ w.grants, g.returns base

variable {g : Grant} {len : Nat} {handle : Handle}

section Allocator
variable {base num : Nat} {reserved : Bits} {w : World} {bit n : Nat}

theorem search_spec {m : Mapping} {start align : Nat} (h : m.search start n align = some bit) :
    bit + n ≤ m.num4kPages ∧ ∀ p, bit ≤ p → p < bit + n → m.cleanBitmap p = false := by
  simp only [Mapping.search, Option.ite_none_left_eq_some, Option.some.injEq] at h
  obtain ⟨hle, rfl⟩ := h
  exact Bitmap.findZeroArea_sound (Nat.le_of_not_lt hle)

theorem Inv.resync (h : Inv base num reserved w) : Inv base num reserved w.resync := by
  obtain ⟨⟨hbase, hnum, hle, ⟨hdisjoint, hinside, hreserved, hexact, -, -⟩, -, -⟩, hreturns⟩ := h
  have hsound : Sound reserved w.resync :=
    ⟨hdisjoint, hinside, hreserved, hexact, fun _ hp => hp, fun _ _ _ _ => rfl⟩
  exact ⟨⟨hbase, hnum, hle, hsound, by simp [World.resync, World.iommuFlushIotlbAll], fun _ _ hp => hp⟩, hreturns⟩

/-- Room is found in pages that are clear in the clean map, after an invalidation if need be. -/
theorem findRoom_spec (h : Inv base num reserved w) (n align : Nat) :
    Inv base num reserved (w.findRoom n align).2 ∧
      ∀ bit, (w.findRoom n align).1 = some bit →
        bit + n ≤ num ∧ ∀ p, bit ≤ p → p < bit + n → (w.findRoom n align).2.mapping.cleanBitmap p = false := by
  rw [World.findRoom]
  cases hnext : w.mapping.search w.mapping.nextStart n align with
  | some bit =>
    refine ⟨h, ?_⟩
    rintro _ ⟨⟩
    exact h.num_eq ▸ search_spec hnext
  | none =>
    cases hwrap : w.mapping.search 0 n align with
    | some bit =>
      refine ⟨h, ?_⟩
      rintro _ ⟨⟩
      exact h.num_eq ▸ search_spec hwrap
    | none =>
      by_cases hstale : w.mapping.haveStaleTlbs
      · simp only [hstale, if_true]
        exact ⟨h.resync, fun bit hbit => h.resync.num_eq ▸ search_spec hbit⟩
      · simp only [hstale]
        exact ⟨h, fun _ hbit => nomatch hbit⟩

section
variable (h : Core base num reserved w)
include h

theorem Core.take (handle : Handle) (hfits : bit + n ≤ num)
    (hclear : ∀ p, bit ≤ p → p < bit + n → w.mapping.cleanBitmap p = false) : Core base num reserved
      { w with mapping := w.mapping.take bit n, grants := ⟨handle, bit, n⟩ :: w.grants } := by
  obtain ⟨hbase, hnum, hle, ⟨hdisjoint, hinside, hreserved, hexact, hclean, hfresh⟩, hfreed, hsynced⟩ := h
  -- a page of the new grant was in no map before
  have hunused : ∀ p, bit ≤ p → p < bit + n → w.mapping.bitmap p = false := fun p hlow hhigh =>
    Bool.eq_false_iff.2 fun hp => by simpa [hclear p hlow hhigh] using hclean p hp
  have hapart : ∀ p, bit ≤ p ∧ p < bit + n → ¬ (reserved p = true ∨ ∃ g ∈ w.grants, g.covers p) :=
    fun p hp hused => by simpa [hunused p hp.1 hp.2] using (hexact p).2 hused
  refine ⟨hbase, hnum, hle, ⟨?_, ?_, ?_, ?_, ?_, ?_⟩, ?_, ?_⟩
  case refine_1 =>
    exact pairwise_cons.2 ⟨fun g hg p hnew hold => hapart p hnew (.inr ⟨g, hg, hold⟩), hdisjoint⟩
  case refine_2 =>
    intro g hg
    rcases mem_cons.1 hg with rfl | hg
    · exact hfits.trans_eq hnum.symm
    · exact hinside g hg
  case refine_3 =>
    intro g hg p hp
    rcases mem_cons.1 hg with rfl | hg
    · exact Bool.eq_false_iff.2 fun hr => hapart p hp (.inl hr)
    · exact hreserved g hg p hp
  case refine_4 =>
    intro p
    rw [Mapping.take, set_iff, hexact p, exists_mem_cons_iff, or_assoc, or_comm (b := _ ∧ _)]
    rfl
  case refine_5 =>
    intro p hp
    rw [Mapping.take, set_iff] at hp ⊢
    exact hp.imp_left (hclean p)
  case refine_6 =>
    intro g hg p hp
    rcases mem_cons.1 hg with rfl | hg
    · exact Bool.eq_false_iff.2 fun hfree => by simpa [hclear p hp.1 hp.2] using hfreed p hfree
    · exact hfresh g hg p hp
  case refine_7 =>
    intro p hp
    rw [Mapping.take, set_iff]
    exact .inl (hfreed p hp)
  case refine_8 =>
    intro hstale p hp
    rw [Mapping.take, set_iff] at hp ⊢
    exact hp.imp_left (hsynced hstale p)

theorem Core.free (hg : g ∈ w.grants) {iova : Nat} (hfirst : (iova - base) >>> 12 = g.first)
    (hcount : len >>> 12 = g.count) :
    Core base num reserved (fastSmmuFreeIova { w with grants := w.grants.erase g } iova len) := by
  obtain ⟨hbase, hnum, hle, ⟨hdisjoint, hinside, hreserved, hexact, hclean, hfresh⟩, hfreed, hsynced⟩ := h
  have hrest : ∀ g' ∈ w.grants.erase g, g' ∈ w.grants := fun g' hg' => mem_of_mem_erase hg'
  have hapart : ∀ g' ∈ w.grants.erase g, ∀ p, g'.covers p → ¬ g.covers p := by
    have hperm := ((perm_cons_erase hg).pairwise_iff fun h p hp hp' => h p hp' hp).1 hdisjoint
    exact fun g' hg' p hp' hp => (pairwise_cons.1 hperm).1 g' hg' p hp hp'
  have hstart : (iova - w.mapping.base) >>> 12 = g.first := hbase ▸ hfirst
  simp only [fastSmmuFreeIova, hstart, hcount]
  refine ⟨hbase, hnum, hle, ⟨hdisjoint.sublist erase_sublist, fun g' hg' => hinside g' (hrest g' hg'),
    fun g' hg' => hreserved g' (hrest g' hg'), ?_, ?_, ?_⟩, ?_, fun hstale => nomatch hstale⟩
  case refine_1 =>
    intro p
    rw [clear_iff, hexact p]
    constructor
    · rintro ⟨hr | ⟨g', hg', hp⟩, hnot⟩
      · exact .inl hr
      · have hne : g' ≠ g := fun heq => hnot (heq ▸ hp)
        exact .inr ⟨g', (mem_erase_of_ne hne).2 hg', hp⟩
    · rintro (hr | ⟨g', hg', hp⟩)
      · exact ⟨.inl hr, fun hp => by simpa [hr] using hreserved g hg p hp⟩
      · exact ⟨.inr ⟨g', hrest g' hg', hp⟩, hapart g' hg' p hp⟩
  case refine_2 =>
    intro p hp
    exact hclean p (clear_iff.1 hp).1
  case refine_3 =>
    intro g' hg' p hp
    rw [Bool.eq_false_iff, Ne, set_iff]
    rintro (hold | hnew)
    · simp [hfresh g' (hrest g' hg') p hp] at hold
    · exact hapart g' hg' p hp hnew
  case refine_4 =>
    intro p hp
    rcases set_iff.1 hp with hold | hnew
    · exact hfreed p hold
    · exact hclean p ((hexact p).2 (.inr ⟨g, hg, hnew⟩))

theorem Core.flush : Core base num reserved w.iommuFlushIotlbAll := by
  obtain ⟨hbase, hnum, hle, ⟨hdisjoint, hinside, hreserved, hexact, hclean, -⟩, -, hsynced⟩ := h
  exact ⟨hbase, hnum, hle, ⟨hdisjoint, hinside, hreserved, hexact, hclean, fun _ _ _ _ => rfl⟩,
    by simp [World.iommuFlushIotlbAll], hsynced⟩

theorem Core.drop (hcount : g.count = 0) :
    Core base num reserved { w with grants := w.grants.erase g } := by
  obtain ⟨hbase, hnum, hle, ⟨hdisjoint, hinside, hreserved, hexact, hclean, hfresh⟩, hfreed, hsynced⟩ := h
  have hrest : ∀ g' ∈ w.grants.erase g, g' ∈ w.grants := fun g' hg' => mem_of_mem_erase hg'
  refine ⟨hbase, hnum, hle, ⟨hdisjoint.sublist erase_sublist, fun g' hg' => hinside g' (hrest g' hg'),
    fun g' hg' => hreserved g' (hrest g' hg'), fun p => ?_, hclean, fun g' hg' => hfresh g' (hrest g' hg')⟩,
    hfreed, hsynced⟩
  rw [hexact p]
  apply or_congr_right
  constructor
  · rintro ⟨g', hg', hp⟩
    have hne : g' ≠ g := by
      rintro rfl
      obtain ⟨hlow, hhigh⟩ := hp
      omega
    exact ⟨g', (mem_erase_of_ne hne).2 hg', hp⟩
  · rintro ⟨g', hg', hp⟩
    exact ⟨g', hrest g' hg', hp⟩

end

/- The world in the middle of a call: the pages of `size` bytes at `iova` are taken, and nobody holds
them yet. -/
def Allocated (base num : Nat) (reserved : Bits) (iova size : Nat) (w : World) : Prop :=
  ∃ w₁ bit, Inv base num reserved w₁ ∧ w = { w₁ with mapping := w₁.mapping.take bit (size >>> 12) } ∧
    iova = base + 4096 * bit ∧ bit + size >>> 12 ≤ num ∧
    ∀ p, bit ≤ p → p < bit + size >>> 12 → w₁.mapping.cleanBitmap p = false

theorem fastSmmuAllocIova_spec (h : Inv base num reserved w) (size : Nat) :
    match fastSmmuAllocIova w size with
    | (none, w') => Inv base num reserved w'
    | (some iova, w') => Allocated base num reserved iova size w' := by
  obtain ⟨hinv, hroom⟩ := findRoom_spec h (size >>> 12) (alignOf size)
  rw [fastSmmuAllocIova]
  generalize w.findRoom (size >>> 12) (alignOf size) = found at hinv hroom
  obtain ⟨_ | bit, w₁⟩ := found
  · exact hinv
  · obtain ⟨hfits, hclear⟩ := hroom bit rfl
    refine ⟨w₁, bit, hinv, rfl, ?_, hfits, hclear⟩
    rw [hinv.base_eq, Nat.shiftLeft_eq]
    omega

variable {iova size : Nat}

theorem bit_of_iova (base bit : Nat) : (base + 4096 * bit - base) >>> 12 = bit := by
  omega

variable (h : Allocated base num reserved iova size w)
include h

theorem Allocated.hand (hlow : iova ≤ handle.range.1) (hhigh : handle.range.1 < iova + 4096)
    (hlen : handle.range.2 = size) : Inv base num reserved (w.hand handle iova size) := by
  obtain ⟨w₁, bit, hinv, rfl, rfl, hfits, hclear⟩ := h
  have hcore := hinv.toCore.take handle hfits hclear
  have hbit : (base + 4096 * bit - (w₁.mapping.take bit (size >>> 12)).base) >>> 12 = bit := by
    rw [show (w₁.mapping.take bit (size >>> 12)).base = base from hinv.base_eq]
    exact bit_of_iova base bit
  simp only [World.hand, hbit]
  refine ⟨hcore, fun g hg => ?_⟩
  rcases mem_cons.1 hg with rfl | hg
  · refine ⟨hlow, ?_, congrArg (· >>> 12) hlen⟩
    dsimp only
    omega
  · exact hinv.returns g hg

theorem Allocated.giveBack (hlen : len >>> 12 = size >>> 12) :
    Inv base num reserved (fastSmmuFreeIova w iova len) := by
  obtain ⟨w₁, bit, hinv, rfl, rfl, hfits, hclear⟩ := h
  have hcore := hinv.toCore.take (.page 0 0) hfits hclear
  have hfree := hcore.free mem_cons_self (bit_of_iova base bit) hlen
  rw [erase_cons_head] at hfree
  exact ⟨hfree, hinv.returns⟩

theorem Allocated.empty (hsize : size >>> 12 = 0) : Inv base num reserved w := by
  obtain ⟨w₁, bit, hinv, rfl, rfl, hfits, hclear⟩ := h
  have hdrop := Core.drop (g := ⟨.page 0 0, bit, size >>> 12⟩) (hinv.toCore.take (.page 0 0) hfits hclear) hsize
  rw [erase_cons_head] at hdrop
  exact ⟨hdrop, hinv.returns⟩

/-- A range with a page in it does not begin below the page table. -/
theorem Allocated.not_below {dev : Device}
    (hpgtbl : ∀ p, base + 4096 * p < dev.pgtbl.base → reserved p = true)
    (hbelow : iova < dev.pgtbl.base) : size >>> 12 = 0 := by
  obtain ⟨w₁, bit, hinv, -, rfl, -, hclear⟩ := h
  by_contra hne
  have hset := hinv.sound.clean bit ((hinv.sound.exact bit).2 (.inl (hpgtbl bit hbelow)))
  simp [hclear bit le_rfl (by omega)] at hset

end Allocator

/- The mapping fits its device: it begins at a page, the pages below the page table are reserved, the
segment boundary is a power of two, and not all of the 4 GB can go to one scatterlist. -/
structure Fits (dev : Device) (base num : Nat) (reserved : Bits) : Prop where
  aligned : base % 4096 = 0
  below : ∀ p, base + 4096 * p < dev.pgtbl.base → reserved p = true
  boundary : ∃ k ≤ 64, dev.limits.boundary + 1 = 2 ^ k
  room : ∃ p < 0x100000, num ≤ p ∨ reserved p = true

/- The length of a page mapping does not wrap around, and the segments of a scatterlist are not empty. -/
def Event.proper : Event → Prop
  | .mapPage _ size => size + 8191 < 0x10000000000000000
  | .mapSg sgl => ∀ s ∈ sgl, 0 < s.length ∧ s.length < 0x100000000
  | _ => True

section Calls
variable {dev : Device} {base num : Nat} {reserved : Bits} {w w' : World}

theorem av8lFastMapPublic_ne_zero {iova : Nat} :
    av8lFastMapPublic dev iova ≠ 0 ↔ iova < dev.pgtbl.base := by
  rw [av8lFastMapPublic, ioptePmdOffset]
  by_cases h : iova < dev.pgtbl.base <;> simp [h, EINVAL]

theorem av8lFastUnmapPublic_eq_zero {iova size : Nat} :
    av8lFastUnmapPublic dev iova size = 0 ↔ iova < dev.pgtbl.base ∨ size = 0 := by
  rw [av8lFastUnmapPublic, ioptePmdOffset]
  by_cases h : iova < dev.pgtbl.base <;> simp [h]

section
variable (hfits : Fits dev base num reserved)
include hfits

section
variable {iova size : Nat} (h : Allocated base num reserved iova size w)
include h

theorem Allocated.iova_aligned : iova % 4096 = 0 := by
  obtain ⟨-, bit, -, -, rfl, -, -⟩ := h
  have := hfits.aligned
  omega

/-- No range takes all of the 4 GB. -/
theorem Allocated.size_lt : size < 0x100000000 := by
  obtain ⟨w₁, bit, hinv, -, -, hin, hclear⟩ := h
  obtain ⟨p, hp, hout⟩ := hfits.room
  have hnum := hinv.num_le
  by_contra hlarge
  have hset : w₁.mapping.cleanBitmap p = true := by
    rcases hout with hout | hr
    · omega
    · exact hinv.sound.clean p ((hinv.sound.exact p).2 (.inl hr))
  simp [hclear p (by omega) (by omega)] at hset

end

/-- The handle of a page or a resource: an address in the first page, with the size asked for. -/
theorem Allocated.hand_offset {iova size phys : Nat}
    (h : Allocated base num reserved iova (alignPage (size + phys % 4096)) w)
    (hrange : handle.range = (iova + phys % 4096, alignPage (size + (iova + phys % 4096) % 4096))) :
    Inv base num reserved (w.hand handle iova (alignPage (size + phys % 4096))) := by
  have hiova := h.iova_aligned hfits
  apply h.hand
  · rw [hrange]
    exact Nat.le_add_right _ _
  · rw [hrange]
    omega
  · rw [hrange]
    dsimp only
    congr 2
    omega

theorem fastSmmuMapPage_inv (h : Inv base num reserved w) {physPlusOff size : Nat}
    (hsize : size + 8191 < 0x10000000000000000) :
    Inv base num reserved (fastSmmuMapPage dev w physPlusOff size) := by
  have halloc := fastSmmuAllocIova_spec h (alignPage (size + physPlusOff % 4096))
  rw [fastSmmuMapPage]
  generalize fastSmmuAllocIova w (alignPage (size + physPlusOff % 4096)) = result at halloc
  obtain ⟨_ | iova, w₁⟩ := result
  · exact halloc
  · dsimp only
    split
    · rename_i hfail
      -- only an empty range can lie below the page table, and then `size` is 0 as well
      have hempty := halloc.not_below hfits.below (av8lFastMapPublic_ne_zero.1 hfail)
      have hlen : alignPage (size + physPlusOff % 4096) =
          (size + physPlusOff % 4096 + 4095) / 4096 * 4096 := by
        rw [alignPage, Nat.mod_eq_of_lt (by omega)]
      apply halloc.giveBack
      omega
    · exact halloc.hand_offset hfits rfl

theorem fastSmmuMapSg_inv (h : Inv base num reserved w) {sgl : List Sg}
    (hsgl : ∀ s ∈ sgl, 0 < s.length ∧ s.length < 0x100000000) :
    Inv base num reserved (fastSmmuMapSg dev w sgl) := by
  have halloc := fastSmmuAllocIova_spec h (qcomIommuDmaPrepareMapSg dev.limits.boundary sgl).2
  rw [fastSmmuMapSg]
  generalize fastSmmuAllocIova w (qcomIommuDmaPrepareMapSg dev.limits.boundary sgl).2 = result at halloc
  obtain ⟨_ | iova, w₁⟩ := result
  · exact halloc
  · dsimp only at halloc ⊢
    split
    · rename_i hnil
      obtain rfl := isEmpty_iff.1 hnil
      exact halloc.empty (by simp [qcomIommuDmaPrepareMapSg, prepareMapSg])
    · rename_i hnil
      have hne : sgl ≠ [] := fun heq => hnil (isEmpty_iff.2 heq)
      obtain ⟨k, hk, hboundary⟩ := hfits.boundary
      obtain ⟨offset, hoffset, hrange, -⟩ := unmapRange_mapped hk hboundary hne hsgl
        (halloc.size_lt hfits) (halloc.iova_aligned hfits)
      apply halloc.hand
      · rw [Handle.range, hrange]
        exact Nat.le_add_right _ _
      · rw [Handle.range, hrange]
        exact Nat.add_lt_add_left hoffset _
      · rw [Handle.range, hrange]

end

theorem allocCoherent_inv (h : Inv base num reserved w) (size : Nat) (mapped : Nat → Bool) :
    Inv base num reserved (w.allocCoherent size mapped) := by
  have halloc := fastSmmuAllocIova_spec h size
  rw [World.allocCoherent]
  generalize fastSmmuAllocIova w size = result at halloc
  obtain ⟨_ | iova, w₁⟩ := result
  · exact halloc
  · dsimp only
    split
    · exact halloc.hand le_rfl (Nat.lt_add_of_pos_right (by decide)) rfl
    · exact halloc.giveBack rfl

theorem fastSmmuAlloc_inv (h : Inv base num reserved w) (size : Nat) (path : AllocPath) :
    Inv base num reserved (fastSmmuAlloc dev w size path) := by
  cases path with
  | atomic gotPages =>
    simp only [fastSmmuAlloc, fastSmmuAllocAtomic]
    split_ifs
    · exact h
    · exact allocCoherent_inv h _ _
    · exact h
  | contiguous gotPages remapped =>
    simp only [fastSmmuAlloc, fastSmmuAllocContiguous]
    split_ifs
    · exact h
    · exact allocCoherent_inv h _ _
    · exact h
  | scattered gotPages gotSgTable remapped =>
    simp only [fastSmmuAlloc, fastSmmuAllocScattered]
    split_ifs
    · exact h
    · exact allocCoherent_inv h _ _
    · exact h

section
variable (hfits : Fits dev base num reserved) (h : Inv base num reserved w)
include hfits h

theorem fastSmmuDmaMapResource_inv (physAddr size : Nat) (mapped : Bool) :
    Inv base num reserved (fastSmmuDmaMapResource w physAddr size mapped) := by
  have halloc := fastSmmuAllocIova_spec h (alignPage (size + physAddr % 4096))
  rw [fastSmmuDmaMapResource]
  generalize fastSmmuAllocIova w (alignPage (size + physAddr % 4096)) = result at halloc
  obtain ⟨_ | iova, w₁⟩ := result
  · exact halloc
  · dsimp only
    split
    · exact halloc.giveBack rfl
    · exact halloc.hand_offset hfits rfl

/-- A grant is given up, and the call frees its range or finds nothing to unmap in it. -/
theorem unmapped_inv (hgive : w.giveUp handle = some w') : Inv base num reserved
      (if av8lFastUnmapPublic dev handle.range.1 handle.range.2 = 0 then w'
        else fastSmmuFreeIova w' handle.range.1 handle.range.2) := by
  simp only [World.giveUp, Option.map_eq_some_iff] at hgive
  obtain ⟨g, hfind, rfl⟩ := hgive
  have hg : g ∈ w.grants := mem_of_find?_eq_some hfind
  obtain rfl : g.handle = handle := by simpa using List.find?_some hfind
  obtain ⟨hlow, hfirst, hcount⟩ := h.returns g hg
  have hreturns : ∀ g' ∈ w.grants.erase g, g'.returns base := fun g' hg' =>
    h.returns g' (mem_of_mem_erase hg')
  split
  · rename_i hfail
    refine ⟨h.toCore.drop ?_, hreturns⟩
    -- a page of the grant would be reserved, or its length would not be 0
    by_contra hne
    rcases av8lFastUnmapPublic_eq_zero.1 hfail with hbelow | hzero
    · have hr := hfits.below g.first (by omega)
      simp [h.sound.unreserved g hg g.first ⟨le_rfl, by omega⟩] at hr
    · rw [hzero] at hcount
      exact hne hcount.symm
  · exact ⟨h.toCore.free hg hfirst hcount, hreturns⟩

end

theorem unmapResource_inv (h : Inv base num reserved w) {addr size : Nat} (unmapped : Bool)
    (hgive : w.giveUp (.resource addr size) = some w') :
    Inv base num reserved (fastSmmuDmaUnmapResource w' addr size unmapped) := by
  simp only [World.giveUp, Option.map_eq_some_iff] at hgive
  obtain ⟨g, hfind, rfl⟩ := hgive
  have hg : g ∈ w.grants := mem_of_find?_eq_some hfind
  have hhandle : g.handle = .resource addr size := by simpa using List.find?_some hfind
  obtain ⟨-, hfirst, hcount⟩ := h.returns g hg
  rw [hhandle] at hfirst hcount
  have hreturns : ∀ g' ∈ w.grants.erase g, g'.returns base := fun g' hg' =>
    h.returns g' (mem_of_mem_erase hg')
  cases unmapped
  · exact ⟨h.toCore.free hg hfirst hcount, hreturns⟩
  · exact ⟨h.toCore.flush.free hg hfirst hcount, hreturns⟩

theorem step_inv (hfits : Fits dev base num reserved) (e : Event) (h : Inv base num reserved w)
    (hproper : e.proper) (hstep : step dev w e = some w') : Inv base num reserved w' := by
  cases e with
  | mapPage physPlusOff size =>
    cases hstep
    exact fastSmmuMapPage_inv hfits h hproper
  | mapSg sgl =>
    cases hstep
    exact fastSmmuMapSg_inv hfits h hproper
  | alloc size path =>
    cases hstep
    exact fastSmmuAlloc_inv h size path
  | mapResource physAddr size mapped =>
    cases hstep
    exact fastSmmuDmaMapResource_inv hfits h physAddr size mapped
  | unmapPage iova size | unmapSg sgl | free dmaHandle size =>
    obtain ⟨w₁, hgive, rfl⟩ := Option.map_eq_some_iff.1 hstep
    exact unmapped_inv hfits h hgive
  | unmapResource addr size unmapped =>
    obtain ⟨w₁, hgive, rfl⟩ := Option.map_eq_some_iff.1 hstep
    exact unmapResource_inv h unmapped hgive

end Calls

theorem fastSmmuInitMapping_inv {apertureStart apertureEnd : Nat} {reserved : Bits} {w : World}
    (h : fastSmmuInitMapping apertureStart apertureEnd reserved = some w) :
    Inv apertureStart w.mapping.num4kPages reserved w := by
  simp only [fastSmmuInitMapping, Option.ite_none_left_eq_some, Option.some.injEq] at h
  obtain ⟨hlt, rfl⟩ := h
  refine ⟨⟨rfl, rfl, ?_, ⟨.nil, ?_, ?_, ?_, fun _ hp => hp, ?_⟩, ?_, fun _ _ hp => hp⟩, ?_⟩ <;> simp
  omega

def noneReserved : Bits := fun _ => false

def deviceAt (base : Nat) : Device where
  pgtbl := ⟨1, fun _ => 2, [3], base, 0x200000⟩
  limits := ⟨0xffffffff, 65536⟩

def reuseAfterFlush : List Event :=
  [.mapPage 0x80000010 100, .mapSg [⟨0, 0x3000, 0, 0⟩, ⟨16, 100, 0, 0⟩], .unmapPage 16 100,
    .mapSg [⟨0, 0x3000, 0, 0⟩, ⟨16, 100, 0, 0⟩]]

def fourPages : World where
  mapping := ⟨0, 4, noneReserved, noneReserved, 0, false⟩
  freed := fun _ => false
  grants := []

instance (e : Event) : Decidable e.proper := by
  cases e <;> unfold Event.proper <;> infer_instance

end MsmKernel.Iommu.FastMapping
