import MsmKernel.Iommu.PgtableFastLayout
import MsmKernel.Lib.Run

/-! The translations that a table of io-pgtable-fast.c gives after any sequence of mappings and
unmappings in its range. -/
namespace MsmKernel.Iommu.PgtableFast
open Run Option

inductive Call where
  | map (iova paddr size : Nat) (prot : Prot)
  | unmap (iova size : Nat) (allowStaleTlb : Bool)

def step (data : Pgtable) (proveTlb : Bool) (mem : Memory) : Call → Option Memory
  | .map iova paddr size prot => (av8lFastMap data mem iova paddr size prot).map Prod.snd
  | .unmap iova size allowStaleTlb =>
    (av8lFastUnmap data proveTlb mem iova size allowStaleTlb).map Prod.snd

def Call.iova : Call → Nat
  | .map iova _ _ _ => iova
  | .unmap iova _ _ => iova

def Call.size : Call → Nat
  | .map _ _ size _ => size
  | .unmap _ size _ => size

/- The range of a call lies in the closed range of the table, and what is mapped in the physical
address space. -/
def Call.inside (base iovaEnd : Nat) (c : Call) : Prop :=
  base ≤ c.iova ∧ c.iova + c.size ≤ iovaEnd + 1 ∧
    match c with
    | .map _ paddr size _ => paddr + size ≤ 0x1000000000000
    | .unmap _ _ _ => True

def pageDown (addr : Nat) : Nat := addr / 4096 * 4096

def Call.covers (c : Call) (iova : Nat) : Prop :=
  pageDown c.iova ≤ iova ∧ iova < pageDown c.iova + pageDown c.size

instance (c : Call) (iova : Nat) : Decidable (c.covers iova) :=
  inferInstanceAs (Decidable (_ ∧ _))

abbrev Translation := Nat → Option Nat

def Call.apply (c : Call) (phys : Translation) : Translation := fun iova =>
  if c.covers iova then
    match c with
    | .map start paddr _ _ => some (pageDown paddr + (iova - pageDown start))
    | .unmap _ _ _ => none
  else phys iova

def translationOf (phys : Translation) : List Call → Translation
  | [] => phys
  | c :: calls => translationOf (c.apply phys) calls

def Pgtable.entryOfPage (data : Pgtable) (mem : Memory) (page : Nat) : Option Nat :=
  (data.slotOfPage page).map fun slot => mem slot.1 slot.2

open Pgtable

variable {iova page : Nat} {slot : Nat × Nat} {c : Call}

section Fill
variable {data : Pgtable} {mem mem' : Memory}

theorem slot_add (hiova : data.base ≤ iova) (k : Nat) :
    data.slot (iova / 4096 - data.base / 0x200000 * 512 + k) = data.slotOfPage (iova / 4096 + k) := by
  rw [← slot_page data (by omega)]
  congr 1
  omega

theorem slotOfPage_inj (hnodup : data.pmds.Nodup) {page' : Nat}
    (h : data.slotOfPage page = some slot) (h' : data.slotOfPage page' = some slot) :
    page = page' := by
  simp only [slotOfPage, ite_none_right_eq_some, map_eq_some_iff] at h h'
  obtain ⟨hlow, pmd, hpmd, rfl⟩ := h
  obtain ⟨hlow', pmd', hpmd', heq⟩ := h'
  rw [Prod.mk.injEq] at heq
  obtain ⟨rfl, hmod⟩ := heq
  have hindex := (List.getElem?_inj (List.getElem?_eq_some_iff.1 hpmd).1 hnodup).1 (hpmd.trans hpmd'.symm)
  omega

theorem slotOfPage_mem (h : data.slotOfPage page = some slot) : slot.1 ∈ data.pmds := by
  simp only [slotOfPage, ite_none_right_eq_some, map_eq_some_iff] at h
  obtain ⟨-, pmd, hpmd, rfl⟩ := h
  exact List.mem_of_getElem? hpmd

theorem entryOfPage_store (hnodup : data.pmds.Nodup) (hslot : data.slotOfPage page = some slot)
    (pte other : Nat) :
    data.entryOfPage (mem.store slot.1 slot.2 pte) other =
      if other = page then some pte else data.entryOfPage mem other := by
  by_cases hother : other = page
  · rw [if_pos hother, hother, entryOfPage, hslot, map_some, store_same]
  · rw [if_neg hother, entryOfPage, entryOfPage]
    cases hslot' : data.slotOfPage other with
    | none => rfl
    | some slot' =>
      rw [map_some, map_some]
      by_cases hpage : slot'.1 = slot.1
      · have hindex : slot'.2 ≠ slot.2 := fun hindex =>
          hother (slotOfPage_inj hnodup (hslot'.trans (congrArg some (Prod.ext hpage hindex))) hslot)
        rw [hpage, store_of_index_ne _ _ hindex]
      · rw [store_of_page_ne _ _ hpage]

theorem fill_spec (hnodup : data.pmds.Nodup) (hiova : data.base ≤ iova) (pte : Nat → Nat)
    (n : Nat) (hslots : ∀ k < n, (data.slotOfPage (iova / 4096 + k)).isSome) :
    ∃ mem', data.fill pte (iova / 4096 - data.base / 0x200000 * 512) n mem = some mem' ∧
      (∀ page ∉ data.pmds, mem' page = mem page) ∧
      ∀ page, data.entryOfPage mem' page =
        if iova / 4096 ≤ page ∧ page < iova / 4096 + n then some (pte (page - iova / 4096))
        else data.entryOfPage mem page := by
  induction n with
  | zero =>
    refine ⟨mem, rfl, fun _ _ => rfl, fun page => ?_⟩
    rw [if_neg (by omega)]
  | succ n ih =>
    obtain ⟨mem₁, hfill, hkeep, hentry⟩ := ih fun k hk => hslots k (by omega)
    obtain ⟨slot, hslot⟩ := isSome_iff_exists.1 (hslots n (by omega))
    refine ⟨mem₁.store slot.1 slot.2 (pte n), ?_, ?_, ?_⟩
    · rw [fill, hfill, bind_some, slot_add hiova, hslot, map_some]
    · intro page hpage
      have hne : page ≠ slot.1 := fun heq => hpage (heq ▸ slotOfPage_mem hslot)
      rw [store_of_page_ne _ _ hne, hkeep page hpage]
    · intro page
      rw [entryOfPage_store hnodup hslot, hentry page]
      by_cases hlast : page = iova / 4096 + n
      · rw [if_pos hlast, if_pos (by omega), hlast, Nat.add_sub_cancel_left]
      · rw [if_neg hlast]
        by_cases hin : iova / 4096 ≤ page ∧ page < iova / 4096 + n
        · rw [if_pos hin, if_pos (by omega)]
        · rw [if_neg hin, if_neg (by omega)]

theorem Layout.of_keep (h : Layout data mem) (hkeep : ∀ page ∉ data.pmds, mem' page = mem page) :
    Layout data mem' := by
  have hpgd := hkeep data.pgd h.pgd_notMem
  refine ⟨h.nodup, h.length, h.pgd_notMem, ?_, ?_⟩
  · intro x pud hpud
    rw [hpgd] at hpud
    exact h.pud_notMem x pud hpud
  · intro iova hiova
    rw [← h.walk iova hiova, PgtableFast.walk, PgtableFast.walk, hpgd]
    cases hpud : tableOf (mem data.pgd (iova / 0x40000000 % 512)) with
    | none => rfl
    | some pud =>
      rw [bind_eq_bind, bind_some, hkeep pud (h.pud_notMem _ pud hpud)]
      rfl

end Fill

section Entries
variable {prot : Prot}

theorem protToPte_type (prot : Prot) : av8lFastProtToPte prot &&& pteTypeMask = pteTypePage := by
  obtain ⟨mmio, cache, sysCache, write⟩ := prot
  cases mmio <;> cases cache <;> cases sysCache <;> cases write <;> decide

theorem protToPte_addr (prot : Prot) : av8lFastProtToPte prot &&& pteAddrMask = 0 := by
  obtain ⟨mmio, cache, sysCache, write⟩ := prot
  cases mmio <;> cases cache <;> cases sysCache <;> cases write <;> decide

theorem pagePhys_entry (prot : Prot) (hpage : page < 0x1000000000) :
    pagePhys (av8lFastProtToPte prot ||| 4096 * page) = some (4096 * page) := by
  have htype : (av8lFastProtToPte prot ||| 4096 * page) % 4 = 3 := by
    rw [← and_typeMask, Nat.and_or_distrib_right, protToPte_type, and_typeMask,
      show 4096 * page % 4 = 0 by omega, Nat.or_zero]
    rfl
  have haddr : (av8lFastProtToPte prot ||| 4096 * page) / 4096 % 0x1000000000 * 4096 = 4096 * page := by
    rw [← and_addrMask, Nat.and_or_distrib_right, protToPte_addr, and_addrMask, Nat.zero_or]
    omega
  rw [pagePhys, if_pos htype, haddr]

theorem pagePhys_unmapped (proveTlb allowStaleTlb : Bool) : pagePhys (unmappedPte proveTlb allowStaleTlb) = none := by
  cases proveTlb <;> cases allowStaleTlb <;> decide

end Entries

structure Realizes (data : Pgtable) (mem : Memory) (phys : Translation) : Prop where
  layout : Layout data mem
  translates : ∀ iova < 0x100000000,
    ((data.entryOfPage mem (iova / 4096)).bind pagePhys).map (· + iova % 4096) = phys iova

section Step
variable {data : Pgtable} {mem mem' : Memory} {phys : Translation}

theorem Realizes.iovaToPhys (h : Realizes data mem phys) (hiova : iova < 0x100000000) :
    av8lFastIovaToPhys data mem iova = (phys iova).getD 0 := by
  rw [iovaToPhys_eq_walk, h.layout.walk iova hiova, ← h.translates iova hiova, entryOfPage]
  cases data.slotOfPage (iova / 4096) <;> rfl

theorem slotOfPage_isSome (h : Layout data mem) (hlow : data.base / 4096 ≤ page)
    (hhigh : page * 4096 < data.iovaEnd) : (data.slotOfPage page).isSome := by
  have hlength := h.length
  rw [slotOfPage, if_pos (by omega), isSome_map, List.getElem?_eq_getElem (by omega)]
  rfl

theorem covers_iff (c : Call) (iova : Nat) :
    c.covers iova ↔ c.iova / 4096 ≤ iova / 4096 ∧ iova / 4096 < c.iova / 4096 + c.size / 4096 := by
  rw [Call.covers, pageDown, pageDown]
  omega

theorem apply_of_not_covers (h : ¬ c.covers iova) : c.apply phys iova = phys iova :=
  if_neg h

theorem Realizes.fill (h : Realizes data mem phys) (hin : c.inside data.base data.iovaEnd)
    (pte : Nat → Nat) (hpte : ∀ iova, c.covers iova →
      (pagePhys (pte (iova / 4096 - c.iova / 4096))).map (· + iova % 4096) = c.apply phys iova) :
    ∃ mem', data.fill pte (c.iova / 4096 - data.base / 0x200000 * 512) (c.size / 4096) mem = some mem' ∧
      Realizes data mem' (c.apply phys) := by
  obtain ⟨hlow, hhigh, -⟩ := hin
  obtain ⟨mem', hfill, hkeep, hentry⟩ := fill_spec h.layout.nodup hlow pte (c.size / 4096)
    fun k hk => slotOfPage_isSome h.layout (by omega) (by omega)
  refine ⟨mem', hfill, h.layout.of_keep hkeep, fun iova hiova => ?_⟩
  rw [hentry]
  by_cases hc : c.covers iova
  · rw [if_pos ((covers_iff c iova).1 hc), bind_some, hpte iova hc]
  · rw [if_neg fun hpages => hc ((covers_iff c iova).2 hpages), h.translates iova hiova, apply_of_not_covers hc]

/-- The entries of a mapping: the masked address is the page that is mapped, and no later page leaves
the 48 bits. -/
theorem pagePhys_map {paddr size a : Nat} {prot : Prot} (hphys : paddr + size ≤ 0x1000000000000)
    (ha : (Call.map iova paddr size prot).covers a) :
    (pagePhys (av8lFastProtToPte prot ||| ((paddr &&& pteAddrMask) + 4096 * (a / 4096 - iova / 4096)))).map
      (· + a % 4096) = (Call.map iova paddr size prot).apply phys a := by
  obtain ⟨hlow, hhigh⟩ : iova / 4096 ≤ a / 4096 ∧ a / 4096 < iova / 4096 + size / 4096 := (covers_iff _ a).1 ha
  have hmask : (paddr &&& pteAddrMask) + 4096 * (a / 4096 - iova / 4096) =
      4096 * (paddr / 4096 + (a / 4096 - iova / 4096)) := by
    rw [and_addrMask]
    omega
  rw [hmask, pagePhys_entry prot (by omega), Call.apply, if_pos ha, map_some]
  simp only [pageDown]
  congr 1
  omega

variable (h : Realizes data mem phys)
include h

theorem Realizes.step (proveTlb : Bool) (hin : c.inside data.base data.iovaEnd) :
    ∃ mem', PgtableFast.step data proveTlb mem c = some mem' ∧ Realizes data mem' (c.apply phys) := by
  have hshift (size : Nat) : size >>> 12 = size / 4096 := Nat.shiftRight_eq_div_pow size 12
  cases c with
  | map iova paddr size prot =>
    have hoffset : ioptePmdOffset data.base iova = _ := ioptePmdOffset_eq hin.1
    obtain ⟨mem', hfill, hreal⟩ := h.fill hin
      (fun i => av8lFastProtToPte prot ||| ((paddr &&& pteAddrMask) + 4096 * i))
      fun _ ha => pagePhys_map hin.2.2 ha
    refine ⟨mem', ?_, hreal⟩
    simp only [Call.iova, Call.size] at hfill
    simp only [PgtableFast.step, av8lFastMap, hoffset, hshift, hfill, map_some]
  | unmap iova size allowStaleTlb =>
    have hoffset : ioptePmdOffset data.base iova = _ := ioptePmdOffset_eq hin.1
    obtain ⟨mem', hfill, hreal⟩ := h.fill hin (fun _ => unmappedPte proveTlb allowStaleTlb) fun a ha => by
      rw [pagePhys_unmapped, Call.apply, if_pos ha, map_none]
    refine ⟨mem', ?_, hreal⟩
    simp only [Call.iova, Call.size] at hfill
    simp only [PgtableFast.step, av8lFastUnmap, hoffset, hshift, hfill, map_some]

theorem Realizes.run (proveTlb : Bool) (calls : List Call)
    (hin : ∀ c ∈ calls, c.inside data.base data.iovaEnd) :
    ∃ mem', Run.run (PgtableFast.step data proveTlb) mem calls = some mem' ∧
      Realizes data mem' (translationOf phys calls) := by
  induction calls generalizing mem phys with
  | nil => exact ⟨mem, rfl, h⟩
  | cons c calls ih =>
    obtain ⟨mem₁, hstep, hreal⟩ := h.step proveTlb (hin c List.mem_cons_self)
    obtain ⟨mem₂, hrun, hreal₂⟩ := ih hreal fun c' hc' => hin c' (List.mem_cons_of_mem c hc')
    exact ⟨mem₂, (run_cons_of_step hstep calls).trans hrun, hreal₂⟩

/-- In the range of a table that realizes a translation, the contiguous array and the walk lead to the
same slot. -/
theorem Realizes.slot_eq_walk (hlow : data.base ≤ iova) (hhigh : pageDown iova < data.iovaEnd)
    (hend : data.iovaEnd ≤ 0x100000000) :
    ∃ slot, (ioptePmdOffset data.base iova).bind data.slot = some slot ∧
      walk mem data.pgd iova = some slot := by
  rw [pageDown] at hhigh
  have hsome : (data.slotOfPage (iova / 4096)).isSome := slotOfPage_isSome h.layout (by omega) (by omega)
  obtain ⟨slot, hslot⟩ := isSome_iff_exists.1 hsome
  refine ⟨slot, ?_, ?_⟩
  · rw [slot_ioptePmdOffset data hlow, hslot]
  · rw [h.layout.walk iova (by omega), hslot]

end Step

theorem realizes_prepopulated {src : PageSource} {vmap : Bool} {mem mem' : Memory} {base iovaEnd : Nat}
    {data : Pgtable} (hbase : base < iovaEnd) (hend : iovaEnd ≤ 0x100000000)
    (h : av8lFastPrepopulatePgtables src vmap mem base iovaEnd = some (data, mem')) :
    data.base = base ∧ data.iovaEnd = iovaEnd ∧ Realizes data mem' fun _ => none := by
  obtain ⟨hb, he, hlayout, hzero⟩ := prepopulate_layout hbase hend h
  refine ⟨hb, he, hlayout, fun iova _ => ?_⟩
  rw [entryOfPage]
  cases hslot : data.slotOfPage (iova / 4096) with
  | none => rfl
  | some slot =>
    rw [map_some, hzero slot.1 (slotOfPage_mem hslot) slot.2]
    rfl

/-- The contiguous view of a populated table is the table that the hardware walks: after any sequence of
calls in the range both reach the same slot for every address of the range, `av8l_fast_iova_to_phys` gives
the mapping that is in force and 0 where there is none, and one more call changes no translation outside
its own range. -/
theorem fast_pgtable_is_hardware_pgtable (src : PageSource) (vmap proveTlb : Bool) (mem mem' : Memory)
    (base iovaEnd : Nat) (data : Pgtable) (hbase : base < iovaEnd) (hend : iovaEnd ≤ 0x100000000)
    (h : av8lFastPrepopulatePgtables src vmap mem base iovaEnd = some (data, mem')) (calls : List Call)
    (hin : ∀ c ∈ calls, c.inside base iovaEnd) :
    ∃ mem'', run (step data proveTlb) mem' calls = some mem'' ∧
      (∀ iova, base ≤ iova → pageDown iova < iovaEnd →
        ∃ slot, (ioptePmdOffset data.base iova).bind data.slot = some slot ∧
          walk mem'' data.pgd iova = some slot) ∧
      (∀ iova < 0x100000000,
        av8lFastIovaToPhys data mem'' iova = (translationOf (fun _ => none) calls iova).getD 0) ∧
      ∀ c : Call, c.inside base iovaEnd →
        ∃ mem₃, step data proveTlb mem'' c = some mem₃ ∧
          ∀ iova < 0x100000000, ¬ c.covers iova →
            av8lFastIovaToPhys data mem₃ iova = av8lFastIovaToPhys data mem'' iova := by
  obtain ⟨rfl, rfl, hreal⟩ := realizes_prepopulated hbase hend h
  obtain ⟨mem'', hrun, hreal'⟩ := hreal.run proveTlb calls hin
  refine ⟨mem'', hrun, fun iova hlow hhigh => hreal'.slot_eq_walk hlow hhigh hend,
    fun iova hiova => hreal'.iovaToPhys hiova, fun c hc => ?_⟩
  obtain ⟨mem₃, hstep, hreal₃⟩ := hreal'.step proveTlb hc
  refine ⟨mem₃, hstep, fun iova hiova hcovers => ?_⟩
  rw [hreal₃.iovaToPhys hiova, hreal'.iovaToPhys hiova, apply_of_not_covers hcovers]

def sixteenPages : PageSource where
  page i := if i < 16 then some (i + 1) else none
  page_inj i j p hi hj := by
    simp only [ite_none_right_eq_some, some.injEq] at hi hj
    omega
  page_lt i p hi := by
    simp only [ite_none_right_eq_some, some.injEq] at hi
    omega

def crossBoundary : List Call :=
  [.map 0x3ffff000 0x80000000 0x3000 ⟨false, true, false, true⟩, .unmap 0x3ffff000 0x1000 true]

theorem fast_pgtable_across_boundary :
    ∃ data mem' mem'',
      av8lFastPrepopulatePgtables sixteenPages true (fun _ _ => 7) 0x3fffe000 0x40003000 = some (data, mem') ∧
      run (step data false) mem' crossBoundary = some mem'' ∧
      av8lFastIovaToPhys data mem'' 0x3ffff042 = 0 ∧
      av8lFastIovaToPhys data mem'' 0x40001042 = 0x80002042 := by
  have hsome : (av8lFastPrepopulatePgtables sixteenPages true (fun _ _ => 7) 0x3fffe000 0x40003000).isSome := by
    decide +kernel
  obtain ⟨⟨data, mem'⟩, h⟩ := isSome_iff_exists.1 hsome
  have hin : ∀ c ∈ crossBoundary, c.inside 0x3fffe000 0x40003000 := by
    simp [crossBoundary, Call.inside, Call.iova, Call.size]
  obtain ⟨mem'', hrun, -, hphys, -⟩ := fast_pgtable_is_hardware_pgtable sixteenPages true false _ mem'
    0x3fffe000 0x40003000 data (by decide) (by decide) h crossBoundary hin
  refine ⟨data, mem', mem'', h, hrun, ?_, ?_⟩
  · rw [hphys _ (by decide)]
    rfl
  · rw [hphys _ (by decide)]
    rfl

end MsmKernel.Iommu.PgtableFast
