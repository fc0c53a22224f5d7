import MsmKernel.Iommu.PgtableFast

/-! What `av8l_fast_prepopulate_pgtables` builds: the entry that the contiguous array has for an IOVA is
the one that the walk of the hardware reaches for it. -/
namespace MsmKernel.Iommu.PgtableFast
open List Memory

/- The walk of the hardware, after the architecture: 9 bits of the address choose an entry at each of
three levels, and an entry of the first two points to the next table. -/
def tableOf (pte : Nat) : Option Nat := if pte % 4 = 3 then some (pte / 4096 % 0x1000000000) else none

def walk (mem : Memory) (pgd iova : Nat) : Option (Nat × Nat) := do
  let pud ← tableOf (mem pgd (iova / 0x40000000 % 512))
  let pmd ← tableOf (mem pud (iova / 0x200000 % 512))
  some (pmd, iova / 4096 % 512)

section Bits
variable {x page index : Nat}

theorem and_shifted_mask (x s k : Nat) : x &&& ((2 ^ k - 1) <<< s) = x / 2 ^ s % 2 ^ k * 2 ^ s := by
  apply Nat.eq_of_testBit_eq
  intro i
  rw [← Nat.shiftLeft_eq, ← Nat.shiftRight_eq_div_pow, Nat.testBit_shiftLeft, Nat.testBit_mod_two_pow,
    Nat.testBit_shiftRight, Nat.testBit_and, Nat.testBit_shiftLeft, Nat.testBit_two_pow_sub_one]
  by_cases hi : s ≤ i
  · simp [hi, Nat.add_sub_cancel' hi, Bool.and_comm]
  · simp [hi]

theorem and_addrMask (x : Nat) : x &&& pteAddrMask = x / 4096 % 0x1000000000 * 4096 :=
  and_shifted_mask x 12 36

theorem and_typeMask (x : Nat) : x &&& pteTypeMask = x % 4 := Nat.and_two_pow_sub_one_eq_mod x 2

theorem or_eq_add {low : Nat} (page : Nat) (hlow : low < 4096) : page * 4096 ||| low = page * 4096 + low := by
  simpa [Nat.mul_comm] using (Nat.two_pow_add_eq_or_of_lt (i := 12) hlow page).symm

theorem deref_or (mem : Memory) (page : Nat) (hindex : index < 512) :
    mem.deref (page * 4096 ||| index * 8) = mem page index := by
  have hlow : (page * 4096 + index * 8) &&& 0xfff = (page * 4096 + index * 8) % 4096 :=
    Nat.and_two_pow_sub_one_eq_mod _ 12
  rw [or_eq_add page (by omega), deref, hlow]
  congr 1 <;> omega

theorem tableOf_table (hpage : page < 0x1000000000) : tableOf (pageToPhys page ||| pteTypeTable) = some page := by
  have hor : pageToPhys page ||| pteTypeTable = page * 4096 + 3 := by
    rw [pageToPhys, Nat.shiftLeft_eq]
    exact or_eq_add page (by decide)
  rw [tableOf, hor, if_pos (by omega)]
  congr 1
  omega

theorem deref_table (mem : Memory) {pte next offset : Nat} (htable : tableOf pte = some next)
    (hoffset : offset = index * 8) (hindex : index < 512) :
    mem.deref ((pte &&& pteAddrMask) ||| offset) = mem next index := by
  simp only [tableOf, Option.ite_none_right_eq_some, Option.some.injEq] at htable
  rw [and_addrMask, htable.2, hoffset, deref_or mem next hindex]

end Bits

def pagePhys (pte : Nat) : Option Nat := if pte % 4 = 3 then some (pte / 4096 % 0x1000000000 * 4096) else none

theorem pagePhys_ite (pte iova : Nat) :
    (if pte &&& pteTypeMask ≠ pteTypePage then 0 else (pte &&& pteAddrMask) ||| (iova &&& 0xfff)) =
      ((pagePhys pte).map (· + iova % 4096)).getD 0 := by
  have hlow : iova &&& 0xfff = iova % 4096 := Nat.and_two_pow_sub_one_eq_mod _ 12
  rw [and_typeMask, and_addrMask, hlow, pagePhys, or_eq_add _ (Nat.mod_lt _ (by decide))]
  by_cases h : pte % 4 = 3 <;> simp [h, pteTypePage]

/-- `av8l_fast_iova_to_phys` follows the walk of the hardware and reads the entry at its end. -/
theorem iovaToPhys_eq_walk (data : Pgtable) (mem : Memory) (iova : Nat) :
    av8lFastIovaToPhys data mem iova =
      (((walk mem data.pgd iova).bind fun slot => pagePhys (mem slot.1 slot.2)).map
        (· + iova % 4096)).getD 0 := by
  have hpgd : mem.deref (pageToPhys data.pgd ||| fastPgdndx iova) =
      mem data.pgd (iova / 0x40000000 % 512) := by
    have hndx : fastPgdndx iova = iova / 0x40000000 % 512 * 8 := by
      rw [fastPgdndx, show (0x7fc0000000 : Nat) = (2 ^ 9 - 1) <<< 30 from rfl, and_shifted_mask]
      omega
    rw [hndx, pageToPhys, Nat.shiftLeft_eq]
    exact deref_or mem data.pgd (Nat.mod_lt _ (by decide))
  have hpud : (iova &&& 0x3fe00000) >>> 18 = iova / 0x200000 % 512 * 8 := by
    rw [show (0x3fe00000 : Nat) = (2 ^ 9 - 1) <<< 21 from rfl, and_shifted_mask]
    omega
  have hpmd : (iova &&& 0x1ff000) >>> 9 = iova / 4096 % 512 * 8 := by
    rw [show (0x1ff000 : Nat) = (2 ^ 9 - 1) <<< 12 from rfl, and_shifted_mask]
    omega
  have hfault {pte : Nat} (h : tableOf pte = none) : pte &&& pteTypeMask ≠ pteTypeTable := by
    rw [and_typeMask]
    intro htype
    exact nomatch (if_pos htype).symm.trans h
  have htype {pte next : Nat} (h : tableOf pte = some next) : ¬ pte &&& pteTypeMask ≠ pteTypeTable := by
    rw [and_typeMask, not_not]
    exact (Option.ite_none_right_eq_some.1 h).1
  simp only [av8lFastIovaToPhys, hpgd, hpud, hpmd, walk]
  -- The walk stops at the first level whose entry is no table.
  cases hfirst : tableOf (mem data.pgd (iova / 0x40000000 % 512)) with
  | none => simp [hfault hfirst]
  | some pud =>
    rw [if_neg (htype hfirst), deref_table mem hfirst rfl (Nat.mod_lt _ (by decide))]
    cases hsecond : tableOf (mem pud (iova / 0x200000 % 512)) with
    | none => simp [hfault hsecond, hsecond]
    | some pmd =>
      rw [if_neg (htype hsecond), deref_table mem hsecond rfl (Nat.mod_lt _ (by decide)), pagePhys_ite]
      simp [hsecond]

def regions (size addr stop : Nat) : Nat := if addr < stop then (stop - 1) / size - addr / size + 1 else 0

variable {base pud k i n iova : Nat}

section Turns
variable {size addr stop iovaEnd : Nat}

section
variable (hsize : 0 < size)
include hsize

theorem boundary_eq (addr : Nat) : (addr + size) / size * size = (addr / size + 1) * size := by
  rw [Nat.add_div_right addr hsize]

theorem lt_boundary (addr : Nat) : addr < (addr / size + 1) * size := by
  rw [Nat.mul_comm]
  exact Nat.lt_mul_div_succ addr hsize

theorem lt_tableNext (haddr : addr < iovaEnd) : addr < tableNext size addr iovaEnd := by
  have hboundary := lt_boundary hsize addr
  simp only [tableNext, boundary_eq hsize]
  split <;> omega

theorem tableNext_eq (hstop : stop ≤ iovaEnd) (hnext : tableNext size addr iovaEnd < stop) :
    tableNext size addr iovaEnd = (addr / size + 1) * size := by
  simp only [tableNext, boundary_eq hsize] at hnext ⊢
  split at hnext
  · rw [if_pos (by assumption)]
  · omega

theorem regions_of_next_lt (haddr : addr < stop) (hnext : (addr / size + 1) * size < stop) :
    regions size addr stop = regions size ((addr / size + 1) * size) stop + 1 := by
  have hle : addr / size + 1 ≤ (stop - 1) / size := by
    rw [Nat.le_div_iff_mul_le hsize]
    omega
  rw [regions, regions, if_pos haddr, if_pos hnext, Nat.mul_div_cancel _ hsize]
  omega

theorem regions_of_le_next (haddr : addr < stop) (hnext : stop ≤ (addr / size + 1) * size) :
    regions size addr stop = 1 := by
  have hle : (stop - 1) / size ≤ addr / size := by
    rw [← Nat.lt_succ_iff, Nat.div_lt_iff_lt_mul hsize]
    exact lt_of_lt_of_le (by omega) hnext
  rw [regions, if_pos haddr]
  omega

/-- The turns of a loop over tables are the regions from the first address to the stop, in order; the
first begins at the address itself and each later one at its boundary. -/
theorem forTables_eq (hstop : stop ≤ iovaEnd) (fuel i addr : Nat) (hfuel : stop - addr ≤ fuel) :
    forTables (tableNext size · iovaEnd) stop fuel i addr =
      (List.range' (addr / size) (regions size addr stop)).map
        fun q => (i + (q - addr / size), max addr (q * size)) := by
  induction fuel generalizing i addr with
  | zero =>
    have hdone : ¬ addr < stop := by omega
    simp [forTables, regions, hdone]
  | succ fuel ih =>
    by_cases haddr : addr < stop
    · have hlt : addr < tableNext size addr iovaEnd := lt_tableNext hsize (by omega)
      have hhead : max addr (addr / size * size) = addr := max_eq_left (Nat.div_mul_le_self addr size)
      rw [forTables, if_pos haddr, ih (i + 1) _ (by omega)]
      by_cases hnext : tableNext size addr iovaEnd < stop
      · have heq := tableNext_eq hsize hstop hnext
        rw [heq] at hnext ⊢
        rw [regions_of_next_lt hsize haddr hnext, Nat.mul_div_cancel _ hsize, List.range'_succ, map_cons,
          Nat.sub_self, Nat.add_zero, hhead]
        congr 1
        apply map_congr_left
        intro q hq
        have hqle : addr / size + 1 ≤ q := (mem_range'_1.1 hq).1
        have hboundary : (addr / size + 1) * size ≤ q * size := Nat.mul_le_mul_right size hqle
        rw [max_eq_right hboundary, max_eq_right (by omega : addr ≤ q * size)]
        congr 1
        omega
      · have hone : regions size addr stop = 1 := by
          apply regions_of_le_next hsize haddr
          have hle : tableNext size addr iovaEnd ≤ (addr / size + 1) * size := by
            have hboundary := lt_boundary hsize addr
            simp only [tableNext, boundary_eq hsize]
            split <;> omega
          omega
        rw [hone, regions, if_neg hnext]
        simp [hhead]
    · simp [forTables, regions, haddr]

end

theorem pudSize_eq : pudSize = 0x40000000 := by decide

theorem pmdSize_eq : pmdSize = 0x200000 := by decide

theorem pudTurns_eq (hbase : base < 0x100000000) (iovaEnd : Nat) :
    pudTurns base iovaEnd =
      (List.range' (base / pudSize) (regions pudSize base iovaEnd)).map fun q => (q, max base (q * pudSize)) := by
  have hindex : pudIndex base = base / pudSize := by
    have hmask : pudIndex base = base >>> 30 % 4 := Nat.and_two_pow_sub_one_eq_mod _ 2
    rw [hmask, pudSize_eq]
    omega
  rw [pudTurns, pudNext, forTables_eq (by decide) le_rfl _ _ _ le_rfl, hindex]
  apply map_congr_left
  intro q hq
  rw [Nat.add_sub_cancel' (mem_range'_1.1 hq).1]

theorem pmdTurns_eq (hnext : pudNext pud iovaEnd ≤ iovaEnd) :
    pmdTurns pud iovaEnd =
      (List.range' (pud / pmdSize) (regions pmdSize pud (pudNext pud iovaEnd))).map
        fun r => (pud / pmdSize % 512 + (r - pud / pmdSize), max pud (r * pmdSize)) := by
  have hindex : pmdIndex pud = pud / pmdSize % 512 := by
    have hmask : pmdIndex pud = pud >>> 21 % 512 := Nat.and_two_pow_sub_one_eq_mod _ 9
    rw [hmask, pmdSize_eq]
    omega
  rw [pmdTurns, pmdNext, forTables_eq (by decide) hnext _ _ _ le_rfl, hindex]

end Turns

section Store
variable (mem : Memory) {page page' index index' : Nat} (pte : Nat)

@[simp] theorem store_same : mem.store page index pte page index = pte := by
  simp [store]

theorem store_of_page_ne (h : page' ≠ page) : mem.store page index pte page' = mem page' := by
  simp [store, h]

theorem store_of_index_ne (h : index' ≠ index) : mem.store page index pte page index' = mem page index' := by
  simp [store, h]

@[simp] theorem zero_same : mem.zero page page = fun _ => 0 := by
  simp [zero]

theorem zero_of_ne (h : page' ≠ page) : mem.zero page page' = mem page' := by
  simp [zero, h]

end Store

def Tables.page (t : Tables) (k : Nat) : Nat := t.pages.getD k 0

def tableEntry (page : Nat) : Nat := pageToPhys page ||| pteTypeTable

/- The table after `P` second-level and `M` third-level tables, when the range begins in the first-level
region `q` and in the second-level region `r`. -/
structure Building (src : PageSource) (q r P M : Nat) (t : Tables) : Prop where
  length : t.pages.length = 1 + P + M
  source : ∀ k < 1 + P + M, src.page k = some (t.page k)
  pgd : t.pgd = t.page 0
  puds : ∀ k < P, t.puds (q + k) = t.page (1 + k)
  pgdEntry : ∀ x, t.mem t.pgd x = if q ≤ x ∧ x < q + P then tableEntry (t.page (1 + (x - q))) else 0
  pudEntry : ∀ k < P, ∀ x < 512, t.mem (t.page (1 + k)) x =
    if r ≤ 512 * (q + k) + x ∧ 512 * (q + k) + x < r + M then
      tableEntry (t.page (1 + P + (512 * (q + k) + x - r)))
    else 0
  pmdEntry : ∀ m < M, ∀ x, t.mem (t.page (1 + P + m)) x = 0

section Populate
variable {src : PageSource} {q r P M : Nat} {t t' : Tables}

theorem Building.page_ne (h : Building src q r P M t) {k' : Nat} (hk : k < 1 + P + M)
    (hk' : k' < 1 + P + M) (hne : k ≠ k') : t.page k ≠ t.page k' := by
  intro heq
  apply hne
  exact src.page_inj k k' (t.page k) (h.source k hk) (heq ▸ h.source k' hk')

theorem populatePud_eq (ht : populatePud src t i = some t') :
    ∃ page, src.page t.pages.length = some page ∧ t'.pages = t.pages ++ [page] ∧ t'.pgd = t.pgd ∧
      t'.puds = Function.update t.puds i page ∧
      t'.mem = (t.mem.zero page).store t.pgd i (tableEntry page) := by
  simp only [populatePud, Tables.iommuAllocPages, Option.map_map, Option.map_eq_some_iff] at ht
  obtain ⟨page, hsrc, rfl⟩ := ht
  exact ⟨page, hsrc, rfl, rfl, rfl, rfl⟩

theorem populatePmd_eq {j : Nat} (ht : populatePmd src t i j = some t') :
    ∃ page, src.page t.pages.length = some page ∧ t'.pages = t.pages ++ [page] ∧ t'.pgd = t.pgd ∧
      t'.puds = t.puds ∧ t'.mem = (t.mem.zero page).store (t.puds i) j (tableEntry page) := by
  simp only [populatePmd, Tables.iommuAllocPages, Option.map_map, Option.map_eq_some_iff] at ht
  obtain ⟨page, hsrc, rfl⟩ := ht
  exact ⟨page, hsrc, rfl, rfl, rfl, rfl⟩

theorem page_extend (h : Building src q r P M t) {page : Nat} (hsrc : src.page t.pages.length = some page)
    (hpages : t'.pages = t.pages ++ [page]) :
    src.page (1 + P + M) = some page ∧ t'.page (1 + P + M) = page ∧
      (∀ k < 1 + P + M, t'.page k = t.page k) ∧ (∀ k < 1 + P + M, t.page k ≠ page) := by
  rw [h.length] at hsrc
  refine ⟨hsrc, ?_, ?_, ?_⟩
  · simp [Tables.page, hpages, ← h.length]
  · intro k hk
    simp only [Tables.page, hpages]
    rw [getD_append _ _ _ _ (by rw [h.length]; exact hk)]
  · intro k hk heq
    have := src.page_inj k (1 + P + M) page (heq ▸ h.source k hk) hsrc
    omega

theorem source_extend (h : Building src q r P M t) {page : Nat} (hsrc : src.page (1 + P + M) = some page)
    (hnew : t'.page (1 + P + M) = page) (hold : ∀ k < 1 + P + M, t'.page k = t.page k) :
    ∀ k < 1 + P + M + 1, src.page k = some (t'.page k) := by
  intro k hk
  by_cases hlast : k = 1 + P + M
  · rw [hlast, hnew, hsrc]
  · rw [hold k (by omega)]
    exact h.source k (by omega)

theorem populatePud_building (h : Building src q r P 0 t) (ht : populatePud src t (q + P) = some t') :
    Building src q r (P + 1) 0 t' := by
  obtain ⟨page, hpage, hpages, hpgd, hpuds, hmem⟩ := populatePud_eq ht
  obtain ⟨hsrc, hnew, hold, hne⟩ := page_extend h hpage hpages
  simp only [Nat.add_zero] at hsrc hnew hold hne
  have hpgdNew : t.pgd ≠ page := h.pgd ▸ hne 0 (by omega)
  constructor
  case length => simp [hpages, h.length, Nat.add_assoc]
  case source => exact source_extend h hsrc hnew hold
  case pgd => rw [hpgd, h.pgd, hold 0 (by omega)]
  case puds =>
    intro k hk
    rw [hpuds]
    by_cases hlast : k = P
    · rw [hlast, Function.update_self, hnew]
    · rw [Function.update_of_ne (by omega), h.puds k (by omega), hold (1 + k) (by omega)]
  case pgdEntry =>
    intro x
    rw [hpgd, hmem]
    by_cases hlast : x = q + P
    · rw [hlast, store_same, if_pos (by omega), Nat.add_sub_cancel_left, hnew]
    · rw [store_of_index_ne _ _ hlast, zero_of_ne _ hpgdNew, h.pgdEntry x]
      by_cases hx : q ≤ x ∧ x < q + P
      · rw [if_pos hx, if_pos (by omega), hold _ (by omega)]
      · rw [if_neg hx, if_neg (by omega)]
  case pudEntry =>
    intro k hk x hx
    rw [if_neg (by omega), hmem]
    by_cases hlast : k = P
    · rw [hlast, hnew, store_of_page_ne _ _ hpgdNew.symm, zero_same]
    · have hdiff : t.page (1 + k) ≠ t.pgd := h.pgd ▸ h.page_ne (by omega) (by omega) (by omega)
      rw [hold (1 + k) (by omega), store_of_page_ne _ _ hdiff, zero_of_ne _ (hne _ (by omega)),
        h.pudEntry k (by omega) x hx, if_neg (by omega)]
  case pmdEntry => exact fun m hm => absurd hm (by omega)

theorem populatePmd_building (h : Building src q r P M t) (hlow : q ≤ (r + M) / 512)
    (hhigh : (r + M) / 512 < q + P) (ht : populatePmd src t ((r + M) / 512) ((r + M) % 512) = some t') :
    Building src q r P (M + 1) t' := by
  obtain ⟨page, hpage, hpages, hpgd, hpuds, hmem⟩ := populatePmd_eq ht
  obtain ⟨hsrc, hnew, hold, hne⟩ := page_extend h hpage hpages
  have hpud : t.puds ((r + M) / 512) = t.page (1 + ((r + M) / 512 - q)) := by
    rw [← h.puds _ (by omega), Nat.add_sub_cancel' hlow]
  have hpudNew : t.puds ((r + M) / 512) ≠ page := hpud ▸ hne _ (by omega)
  constructor
  case length => simp [hpages, h.length, Nat.add_assoc]
  case source => exact source_extend h hsrc hnew hold
  case pgd => rw [hpgd, h.pgd, hold 0 (by omega)]
  case puds =>
    intro k hk
    rw [hpuds, h.puds k hk, hold (1 + k) (by omega)]
  case pgdEntry =>
    intro x
    have hdiff : t.pgd ≠ t.puds ((r + M) / 512) := by
      rw [hpud, h.pgd]
      exact h.page_ne (by omega) (by omega) (by omega)
    rw [hpgd, hmem, store_of_page_ne _ _ hdiff, zero_of_ne _ (h.pgd ▸ hne 0 (by omega)), h.pgdEntry x]
    by_cases hx : q ≤ x ∧ x < q + P
    · rw [if_pos hx, if_pos hx, hold _ (by omega)]
    · rw [if_neg hx, if_neg hx]
  case pudEntry =>
    intro k hk x hx
    rw [hold (1 + k) (by omega), hmem]
    by_cases hat : 512 * (q + k) + x = r + M
    · -- the entry that this turn writes
      have hindex : x = (r + M) % 512 := by omega
      have htable : t.page (1 + k) = t.puds ((r + M) / 512) := by
        rw [hpud]
        congr 1
        omega
      rw [if_pos (by omega), hat, htable, hindex, store_same, Nat.add_sub_cancel_left, hnew]
    · have hkeep : (t.mem.zero page).store (t.puds ((r + M) / 512)) ((r + M) % 512) (tableEntry page)
          (t.page (1 + k)) x = t.mem (t.page (1 + k)) x := by
        by_cases hpage : k = (r + M) / 512 - q
        · rw [hpage, ← hpud, store_of_index_ne _ _ (by omega), zero_of_ne _ hpudNew]
        · rw [store_of_page_ne _ _ (hpud ▸ h.page_ne (by omega) (by omega) (by omega)),
            zero_of_ne _ (hne _ (by omega))]
      rw [hkeep, h.pudEntry k hk x hx]
      by_cases hin : r ≤ 512 * (q + k) + x ∧ 512 * (q + k) + x < r + M
      · rw [if_pos hin, if_pos (by omega), hold _ (by omega)]
      · rw [if_neg hin, if_neg (by omega)]
  case pmdEntry =>
    intro m hm x
    rw [hmem]
    by_cases hlast : m = M
    · rw [hlast, hnew, store_of_page_ne _ _ hpudNew.symm, zero_same]
    · have hdiff : t.page (1 + P + m) ≠ t.puds ((r + M) / 512) :=
        hpud ▸ h.page_ne (by omega) (by omega) (by omega)
      rw [hold _ (by omega), store_of_page_ne _ _ hdiff, zero_of_ne _ (hne _ (by omega))]
      exact h.pmdEntry m (by omega) x

theorem populatePuds_building (start : Nat → Nat) (n : Nat) (h : Building src q r P 0 t)
    (ht : populatePuds src ((List.range' (q + P) n).map fun i => (i, start i)) t = some t') :
    Building src q r (P + n) 0 t' := by
  induction n generalizing P t with
  | zero =>
    cases ht
    exact h
  | succ n ih =>
    obtain ⟨t₁, hone, hrest⟩ := Option.bind_eq_some_iff.1 ht
    have hnext := ih (populatePud_building h hone) hrest
    rwa [Nat.add_assoc, Nat.add_comm 1 n] at hnext

theorem populatePmdsOf_building (start : Nat → Nat) (hlow : q ≤ i) (hhigh : i < q + P)
    (hsame : ∀ k < n, (r + M + k) / 512 = i) (h : Building src q r P M t)
    (ht : populatePmdsOf src i ((List.range' (r + M) n).map fun j => (j % 512, start j)) t = some t') :
    Building src q r P (M + n) t' := by
  induction n generalizing M t with
  | zero =>
    cases ht
    exact h
  | succ n ih =>
    have hi : (r + M) / 512 = i := hsame 0 (by omega)
    obtain ⟨t₁, hone, hrest⟩ := Option.bind_eq_some_iff.1 ht
    rw [← hi] at hone
    have hnext := ih (fun k hk => by rw [← hsame (k + 1) (by omega)]; congr 1; omega)
      (populatePmd_building h (by omega) (by omega) hone) hrest
    rwa [Nat.add_assoc, Nat.add_comm 1 n] at hnext

theorem pudNext_eq (pud iovaEnd : Nat) (hpud : pud < iovaEnd) :
    pudNext pud iovaEnd = min ((pud / 0x40000000 + 1) * 0x40000000) iovaEnd := by
  simp only [pudNext, tableNext, pudSize_eq]
  split <;> omega

/-- The turns of the inner loop at the region `i` are the second-level regions in it that the range
meets from `pud` on. -/
theorem pmdTurns_of_region {iovaEnd : Nat} (hpud : pud < iovaEnd) (hi : pud / 0x40000000 = i) :
    ∃ n, pmdTurns pud iovaEnd =
        (List.range' (pud / 0x200000) n).map (fun j => (j % 512, max pud (j * pmdSize))) ∧
      (∀ k < n, (pud / 0x200000 + k) / 512 = i) ∧
      pud / 0x200000 + n = (pudNext pud iovaEnd - 1) / 0x200000 + 1 := by
  have hnext := pudNext_eq pud iovaEnd hpud
  have hcount : regions pmdSize pud (pudNext pud iovaEnd) =
      (pudNext pud iovaEnd - 1) / 0x200000 - pud / 0x200000 + 1 := by
    rw [regions, if_pos (by omega), pmdSize_eq]
  have hin : ∀ k < regions pmdSize pud (pudNext pud iovaEnd), (pud / 0x200000 + k) / 512 = i := by
    omega
  refine ⟨regions pmdSize pud (pudNext pud iovaEnd), ?_, hin, ?_⟩
  · rw [pmdTurns_eq (by omega), pmdSize_eq]
    apply map_congr_left
    intro j hj
    obtain ⟨hlow, hhigh⟩ := mem_range'_1.1 hj
    have hregion := hin (j - pud / 0x200000) (by rw [pmdSize_eq]; omega)
    congr 1
    omega
  · have hle : pud / 0x200000 ≤ (pudNext pud iovaEnd - 1) / 0x200000 := Nat.div_le_div_right (by omega)
    rw [hcount, ← Nat.add_assoc, Nat.add_sub_cancel' hle]

theorem le_region_end (iovaEnd : Nat) : iovaEnd ≤ ((iovaEnd - 1) / 0x40000000 + 1) * 0x40000000 := by
  omega

theorem region_end_le {iovaEnd : Nat} (hn : i + (n + 1) = (iovaEnd - 1) / 0x40000000) :
    (i + 1) * 0x40000000 ≤ iovaEnd := by
  omega

variable {iovaEnd : Nat} (hbase : base < iovaEnd) (hfirst : base / 0x40000000 ≤ i)
include hbase hfirst

/-- One turn of the outer loop ends where the region `i` or the range does. -/
theorem populatePmds_turn {turns : List (Nat × Nat)} (hend : i ≤ (iovaEnd - 1) / 0x40000000)
    (hlow : q ≤ i) (hhigh : i < q + P) (hM : r + M = max base (i * pudSize) / 0x200000)
    (h : Building src q r P M t)
    (ht : populatePmds src iovaEnd ((i, max base (i * pudSize)) :: turns) t = some t') :
    ∃ t₁ M₁, r + M₁ = (min ((i + 1) * 0x40000000) iovaEnd - 1) / 0x200000 + 1 ∧
      Building src q r P M₁ t₁ ∧ populatePmds src iovaEnd turns t₁ = some t' := by
  have hpud : max base (i * pudSize) < iovaEnd := by
    rw [pudSize_eq]
    omega
  have hregion : max base (i * pudSize) / 0x40000000 = i := by
    rw [pudSize_eq]
    omega
  obtain ⟨n, hturns, hsame, hlast⟩ := pmdTurns_of_region hpud hregion
  rw [pudNext_eq _ _ hpud, hregion] at hlast
  rw [populatePmds, hturns, ← hM] at ht
  obtain ⟨t₁, hinner, hrest⟩ := Option.bind_eq_some_iff.1 ht
  rw [← hM] at hsame hlast
  exact ⟨t₁, M + n, (Nat.add_assoc r M n).symm.trans hlast,
    populatePmdsOf_building _ hlow hhigh hsame h hinner, hrest⟩

theorem populatePmds_building (hn : i + n = (iovaEnd - 1) / 0x40000000) (hlow : q ≤ i)
    (hhigh : (iovaEnd - 1) / 0x40000000 < q + P) (hM : r + M = max base (i * pudSize) / 0x200000)
    (h : Building src q r P M t)
    (ht : populatePmds src iovaEnd ((List.range' i (n + 1)).map fun i => (i, max base (i * pudSize))) t = some t') :
    ∃ M', r + M' = (iovaEnd - 1) / 0x200000 + 1 ∧ Building src q r P M' t' := by
  induction n generalizing i M t with
  | zero =>
    obtain ⟨t₁, M₁, hM₁, hbuilt, hrest⟩ :=
      populatePmds_turn hbase hfirst (by omega) hlow (by omega) hM h ht
    cases hrest
    rw [Nat.add_zero] at hn
    rw [hn, min_eq_right (le_region_end iovaEnd)] at hM₁
    exact ⟨M₁, hM₁, hbuilt⟩
  | succ n ih =>
    obtain ⟨t₁, M₁, hM₁, hbuilt, hrest⟩ :=
      populatePmds_turn hbase hfirst (by omega) hlow (by omega) hM h ht
    refine ih (i := i + 1) (by omega) (by omega) (by omega) ?_ hbuilt hrest
    rw [min_eq_left (region_end_le hn)] at hM₁
    rw [hM₁, pudSize_eq]
    omega

end Populate

def Pgtable.slotOfPage (data : Pgtable) (page : Nat) : Option (Nat × Nat) :=
  if data.base / 0x200000 ≤ page / 512 then
    data.pmds[page / 512 - data.base / 0x200000]?.map fun pmd => (pmd, page % 512)
  else none

/- The two views of the table agree, and a store to a third-level table disturbs no walk. -/
structure Layout (data : Pgtable) (mem : Memory) : Prop where
  nodup : data.pmds.Nodup
  length : data.base / 0x200000 + data.pmds.length = (data.iovaEnd - 1) / 0x200000 + 1
  pgd_notMem : data.pgd ∉ data.pmds
  pud_notMem : ∀ x pud, tableOf (mem data.pgd x) = some pud → pud ∉ data.pmds
  walk : ∀ iova < 0x100000000, walk mem data.pgd iova = data.slotOfPage (iova / 4096)

theorem alignDown2M_eq (base : Nat) : alignDown2M base = 4096 * (base / 0x200000 * 512) := by
  have hright : base >>> 21 = base / 0x200000 := by omega
  have hleft (q : Nat) : q <<< 21 = 4096 * (q * 512) := by omega
  unfold alignDown2M
  rw [hright]
  exact hleft _

theorem ioptePmdOffset_eq (hiova : base ≤ iova) :
    ioptePmdOffset base iova = some (iova / 4096 - base / 0x200000 * 512) := by
  rw [ioptePmdOffset, if_neg (by omega), alignDown2M_eq]
  congr 1
  omega

theorem slot_page (data : Pgtable) {page : Nat} (hpage : data.base / 0x200000 * 512 ≤ page) :
    data.slot (page - data.base / 0x200000 * 512) = data.slotOfPage page := by
  rw [Pgtable.slot, Pgtable.slotOfPage, if_pos (by omega)]
  congr 2
  · funext pmd
    congr 1
    omega
  · omega

theorem slot_ioptePmdOffset (data : Pgtable) (hiova : data.base ≤ iova) :
    (ioptePmdOffset data.base iova).bind data.slot = data.slotOfPage (iova / 4096) := by
  rw [ioptePmdOffset_eq hiova, Option.bind_some, slot_page data (by omega)]

section Prepopulate
variable {src : PageSource} {q r P M : Nat} {t : Tables}

theorem building_initial (src : PageSource) (mem : Memory) {pgd : Nat} (hpgd : src.page 0 = some pgd)
    (q r : Nat) :
    Building src q r 0 0 { mem := mem.zero pgd, pages := [pgd], pgd := pgd, puds := fun _ => 0 } := by
  constructor
  case length => rfl
  case source =>
    intro k hk
    obtain rfl : k = 0 := by omega
    exact hpgd
  case pgd => rfl
  case puds => exact fun k hk => absurd hk (by omega)
  case pgdEntry =>
    intro x
    rw [if_neg (by omega)]
    exact congrFun (zero_same mem) x
  case pudEntry => exact fun k hk => absurd hk (by omega)
  case pmdEntry => exact fun m hm => absurd hm (by omega)

section
variable (h : Building src q r P M t)
include h

theorem Building.tableOf_entry (hk : k < 1 + P + M) :
    tableOf (tableEntry (t.page k)) = some (t.page k) :=
  tableOf_table (src.page_lt k _ (h.source k hk))

theorem Building.pmds_getElem (m : Nat) :
    (t.pages.drop (1 + P))[m]? = if m < M then some (t.page (1 + P + m)) else none := by
  rw [List.getElem?_drop, Tables.page, getD_eq_getElem?_getD]
  by_cases hm : m < M
  · rw [if_pos hm, List.getElem?_eq_getElem (by rw [h.length]; omega), Option.getD_some]
  · rw [if_neg hm, List.getElem?_eq_none (by rw [h.length]; omega)]

theorem Building.mem_pmds {page : Nat} :
    page ∈ t.pages.drop (1 + P) ↔ ∃ m < M, t.page (1 + P + m) = page := by
  simp [mem_iff_getElem?, h.pmds_getElem]

theorem Building.walk_eq (hiova : iova < 0x100000000)
    (hq : ∀ k, r ≤ k → k < r + M → q ≤ k / 512 ∧ k / 512 < q + P) : walk t.mem t.pgd iova =
      if r ≤ iova / 0x200000 ∧ iova / 0x200000 < r + M then
        some (t.page (1 + P + (iova / 0x200000 - r)), iova / 4096 % 512)
      else none := by
  have hindex : iova / 0x40000000 % 512 = iova / 0x200000 / 512 := by omega
  rw [walk, hindex, h.pgdEntry]
  by_cases hpud : q ≤ iova / 0x200000 / 512 ∧ iova / 0x200000 / 512 < q + P
  · have hat : 512 * (q + (iova / 0x200000 / 512 - q)) + iova / 0x200000 % 512 = iova / 0x200000 := by
      omega
    rw [if_pos hpud, h.tableOf_entry (by omega), Option.bind_eq_bind, Option.bind_some,
      h.pudEntry _ (by omega) _ (Nat.mod_lt _ (by omega)), hat]
    by_cases hpmd : r ≤ iova / 0x200000 ∧ iova / 0x200000 < r + M
    · rw [if_pos hpmd, if_pos hpmd, h.tableOf_entry (by omega)]
      rfl
    · rw [if_neg hpmd, if_neg hpmd]
      rfl
  · rw [if_neg hpud, if_neg fun hpmd => hpud (hq _ hpmd.1 hpmd.2)]
    rfl

theorem Building.pmds_nodup : (t.pages.drop (1 + P)).Nodup := by
  rw [nodup_iff_getElem?_ne_getElem?]
  intro i j hij hj
  rw [length_drop, h.length] at hj
  rw [h.pmds_getElem, h.pmds_getElem, if_pos (by omega), if_pos (by omega), Ne, Option.some.injEq]
  exact h.page_ne (by omega) (by omega) (by omega)

theorem Building.layout {iovaEnd : Nat} (hr : r = base / 0x200000)
    (hM : r + M = (iovaEnd - 1) / 0x200000 + 1)
    (hq : ∀ k, r ≤ k → k < r + M → q ≤ k / 512 ∧ k / 512 < q + P) :
    Layout ⟨t.pgd, t.puds, t.pages.drop (1 + P), base, iovaEnd⟩ t.mem := by
  constructor
  case nodup => exact h.pmds_nodup
  case length =>
    rw [length_drop, h.length, ← hr, ← hM]
    omega
  case pgd_notMem =>
    rw [h.mem_pmds]
    rintro ⟨m, hm, heq⟩
    exact h.page_ne (by omega) (by omega) (by omega) (heq.trans h.pgd)
  case pud_notMem =>
    intro x pud hpud hmem
    obtain ⟨m, hm, heq⟩ := h.mem_pmds.1 hmem
    have hentry := h.pgdEntry x
    split at hentry
    · rw [hentry, h.tableOf_entry (by omega), Option.some.injEq] at hpud
      exact h.page_ne (by omega) (by omega) (by omega) (heq.trans hpud.symm)
    · rw [hentry] at hpud
      exact nomatch hpud
  case walk =>
    intro iova hiova
    rw [h.walk_eq hiova hq, Pgtable.slotOfPage, ← hr, show iova / 4096 / 512 = iova / 0x200000 by omega,
      h.pmds_getElem]
    by_cases hlow : r ≤ iova / 0x200000
    · by_cases hhigh : iova / 0x200000 < r + M
      · rw [if_pos ⟨hlow, hhigh⟩, if_pos hlow, if_pos (by omega), Option.map_some]
      · rw [if_neg (fun hand => hhigh hand.2), if_pos hlow, if_neg (by omega), Option.map_none]
    · rw [if_neg (fun hand => hlow hand.1), if_neg hlow]

end

/-- When it succeeds, `av8l_fast_prepopulate_pgtables` lays the table out over its range. -/
theorem prepopulate_layout {vmap : Bool} {mem mem' : Memory} {iovaEnd : Nat} {data : Pgtable}
    (hbase : base < iovaEnd) (hend : iovaEnd ≤ 0x100000000)
    (h : av8lFastPrepopulatePgtables src vmap mem base iovaEnd = some (data, mem')) :
    data.base = base ∧ data.iovaEnd = iovaEnd ∧ Layout data mem' ∧
      ∀ pmd ∈ data.pmds, ∀ x, mem' pmd x = 0 := by
  simp only [av8lFastPrepopulatePgtables, Option.bind_eq_bind, Option.bind_eq_some_iff] at h
  obtain ⟨pgd, hpgd, t₁, hpuds, t₂, hpmds, hvmap⟩ := h
  rw [Option.ite_none_right_eq_some, Option.some.injEq, Prod.mk.injEq] at hvmap
  obtain ⟨-, rfl, rfl⟩ := hvmap
  have hcount : regions pudSize base iovaEnd = (iovaEnd - 1) / 0x40000000 - base / 0x40000000 + 1 := by
    rw [regions, if_pos hbase, pudSize_eq]
  rw [pudTurns_eq (by omega), hcount, pudSize_eq] at hpuds hpmds
  have hbuilt₁ := populatePuds_building _ _
    (building_initial src mem hpgd (base / 0x40000000) (base / 0x200000)) hpuds
  obtain ⟨M, hM, hbuilt₂⟩ := populatePmds_building hbase le_rfl (by omega) le_rfl (by omega)
    (by rw [pudSize_eq]; omega) hbuilt₁ hpmds
  rw [hbuilt₁.length]
  refine ⟨rfl, rfl, hbuilt₂.layout rfl hM ?_, ?_⟩
  · intro k hlow hhigh
    omega
  · intro pmd hpmd x
    obtain ⟨m, hm, rfl⟩ := hbuilt₂.mem_pmds.1 hpmd
    exact hbuilt₂.pmdEntry m hm x

end Prepopulate

end MsmKernel.Iommu.PgtableFast
