import Mathlib.Data.List.Nodup
import Mathlib.Data.List.Range
import Mathlib.Data.Nat.Bitwise
import Mathlib.Logic.Function.Basic
import Mathlib.Tactic.Common

/-! The page table of io-pgtable-fast.c: a three-level table for a range of IOVAs below 4 GB whose last
level is also mapped into one virtually contiguous array of entries. -/
namespace MsmKernel.Iommu.PgtableFast

def EINVAL : Nat := 22

def pteTypeMask : Nat := 0x3
def pteTypeTable : Nat := 3
def pteTypePage : Nat := 3
def pteXn : Nat := 3 <<< 53
def pteAf : Nat := 1 <<< 10
def pteShOs : Nat := 2 <<< 8
def pteApRw : Nat := 1 <<< 6
def pteApRo : Nat := 3 <<< 6
def pteNg : Nat := 1 <<< 11
def pteAttrindxShift : Nat := 2
def pteAddrMask : Nat := 0xfffffffff000
def mairAttrIdxCache : Nat := 1
def mairAttrIdxDev : Nat := 2
def mairAttrIdxUpstream : Nat := 3

/- The memory that page tables are built in. A page is known by its frame number and holds 512 entries. -/
abbrev Memory := Nat → Nat → Nat

def pageToPhys (page : Nat) : Nat := page <<< 12

def Memory.deref (mem : Memory) (phys : Nat) : Nat := mem (phys >>> 12) ((phys &&& 0xfff) >>> 3)

def Memory.store (mem : Memory) (page index pte : Nat) : Memory :=
  Function.update mem page (Function.update (mem page) index pte)

def Memory.zero (mem : Memory) (page : Nat) : Memory := Function.update mem page fun _ => 0

/- `struct av8l_fast_io_pgtable`; `pmds` lists the pages behind the contiguous array. -/
structure Pgtable where
  pgd : Nat
  puds : Nat → Nat
  pmds : List Nat
  base : Nat
  iovaEnd : Nat

def Pgtable.slot (data : Pgtable) (index : Nat) : Option (Nat × Nat) :=
  data.pmds[index / 512]?.map fun page => (page, index % 512)

def alignDown2M (addr : Nat) : Nat := addr >>> 21 <<< 21

def ioptePmdOffset (base iova : Nat) : Option Nat :=
  if iova < base then none else some ((iova - alignDown2M base) >>> 12)

structure Prot where
  mmio : Bool
  cache : Bool
  sysCache : Bool
  write : Bool
  deriving DecidableEq

def av8lFastProtToPte (prot : Prot) : Nat :=
  pteXn ||| pteTypePage ||| pteAf ||| pteNg ||| pteShOs |||
    (if prot.mmio then mairAttrIdxDev <<< pteAttrindxShift
      else if prot.cache then mairAttrIdxCache <<< pteAttrindxShift
      else if prot.sysCache then mairAttrIdxUpstream <<< pteAttrindxShift
      else 0) |||
    (if prot.write then pteApRw else pteApRo)

/- Stores to `nptes` entries of the contiguous array; `none` is a store beyond its end. -/
def Pgtable.fill (data : Pgtable) (pte : Nat → Nat) (index : Nat) : Nat → Memory → Option Memory
  | 0, mem => some mem
  | n + 1, mem =>
    (data.fill pte index n mem).bind fun mem =>
      (data.slot (index + n)).map fun slot => mem.store slot.1 slot.2 (pte n)

def av8lFastMap (data : Pgtable) (mem : Memory) (iova paddr size : Nat) (prot : Prot) :
    Option (Nat × Memory) :=
  match ioptePmdOffset data.base iova with
  | none => some (EINVAL, mem)
  | some ptep =>
    let pte := av8lFastProtToPte prot
    let paddr := paddr &&& pteAddrMask
    (data.fill (fun i => pte ||| (paddr + 4096 * i)) ptep (size >>> 12) mem).map fun mem => (0, mem)

/- What `memset` leaves in an entry. With CONFIG_IOMMU_IO_PGTABLE_FAST_PROVE_TLB an unmapping that
leaves the TLB stale writes the byte 0xa. -/
def unmappedPte (proveTlb allowStaleTlb : Bool) : Nat :=
  if proveTlb && allowStaleTlb then 0x0a0a0a0a0a0a0a0a else 0

def av8lFastUnmap (data : Pgtable) (proveTlb : Bool) (mem : Memory) (iova size : Nat)
    (allowStaleTlb : Bool) : Option (Nat × Memory) :=
  match ioptePmdOffset data.base iova with
  | none => some (0, mem)
  | some ptep =>
    (data.fill (fun _ => unmappedPte proveTlb allowStaleTlb) ptep (size >>> 12) mem).map
      fun mem => (size, mem)

def fastPgdndx (va : Nat) : Nat := (va &&& 0x7fc0000000) >>> 27

def av8lFastIovaToPhys (data : Pgtable) (mem : Memory) (iova : Nat) : Nat :=
  let pte := mem.deref (pageToPhys data.pgd ||| fastPgdndx iova)
  if pte &&& pteTypeMask ≠ pteTypeTable then 0 else
    let pte := mem.deref ((pte &&& pteAddrMask) ||| (iova &&& 0x3fe00000) >>> 18)
    if pte &&& pteTypeMask ≠ pteTypeTable then 0 else
      let pte := mem.deref ((pte &&& pteAddrMask) ||| (iova &&& 0x1ff000) >>> 9)
      if pte &&& pteTypeMask ≠ pteTypePage then 0 else (pte &&& pteAddrMask) ||| (iova &&& 0xfff)

def pudSize : Nat := 1 <<< 30
def pmdSize : Nat := 1 <<< 21

def pudIndex (addr : Nat) : Nat := (addr >>> 30) &&& 0x3
def pmdIndex (addr : Nat) : Nat := (addr >>> 21) &&& 0x1ff

def tableNext (size addr iovaEnd : Nat) : Nat :=
  let boundary := (addr + size) / size * size
  if boundary - 1 < iovaEnd - 1 then boundary else iovaEnd

def pudNext : Nat → Nat → Nat := tableNext pudSize
def pmdNext : Nat → Nat → Nat := tableNext pmdSize

/- The index and the address in each turn of `for (i = .., addr = ..; addr < stop; ++i, addr = next)`. -/
def forTables (next : Nat → Nat) (stop : Nat) : Nat → Nat → Nat → List (Nat × Nat)
  | 0, _, _ => []
  | fuel + 1, i, addr =>
    if addr < stop then (i, addr) :: forTables next stop fuel (i + 1) (next addr) else []

def pudTurns (base iovaEnd : Nat) : List (Nat × Nat) :=
  forTables (pudNext · iovaEnd) iovaEnd (iovaEnd - base) (pudIndex base) base

def pmdTurns (pud iovaEnd : Nat) : List (Nat × Nat) :=
  forTables (pmdNext · iovaEnd) (pudNext pud iovaEnd) (pudNext pud iovaEnd - pud) (pmdIndex pud) pud

structure Tables where
  mem : Memory
  pages : List Nat
  pgd : Nat
  puds : Nat → Nat

/- Where `__iommu_alloc_pages` takes its pages: the page that answers each request in turn, if one is
free. A page is not given out twice and lies in the 48 bits that an entry can address. -/
structure PageSource where
  page : Nat → Option Nat
  page_inj : ∀ i j p, page i = some p → page j = some p → i = j
  page_lt : ∀ i p, page i = some p → p < 0x1000000000

variable (src : PageSource)

def Tables.iommuAllocPages (t : Tables) : Option (Nat × Tables) :=
  (src.page t.pages.length).map fun page =>
    (page, { t with mem := t.mem.zero page, pages := t.pages ++ [page] })

def populatePud (t : Tables) (i : Nat) : Option Tables :=
  (t.iommuAllocPages src).map fun (page, t) =>
    { t with
      puds := Function.update t.puds i page
      mem := t.mem.store t.pgd i (pageToPhys page ||| pteTypeTable) }

def populatePmd (t : Tables) (i j : Nat) : Option Tables :=
  (t.iommuAllocPages src).map fun (page, t) =>
    { t with mem := t.mem.store (t.puds i) j (pageToPhys page ||| pteTypeTable) }

def populatePuds : List (Nat × Nat) → Tables → Option Tables
  | [], t => some t
  | (i, _) :: turns, t => (populatePud src t i).bind (populatePuds turns)

def populatePmdsOf (i : Nat) : List (Nat × Nat) → Tables → Option Tables
  | [], t => some t
  | (j, _) :: turns, t => (populatePmd src t i j).bind (populatePmdsOf i turns)

def populatePmds (iovaEnd : Nat) : List (Nat × Nat) → Tables → Option Tables
  | [], t => some t
  | (i, pud) :: turns, t =>
    (populatePmdsOf src i (pmdTurns pud iovaEnd) t).bind (populatePmds iovaEnd turns)

/- `none` is -ENOMEM: a page is missing or `vmap` fails, and the pages taken so far are given back. -/
def av8lFastPrepopulatePgtables (vmap : Bool) (mem : Memory) (base iovaEnd : Nat) :
    Option (Pgtable × Memory) := do
  let pgd ← src.page 0
  let t ← populatePuds src (pudTurns base iovaEnd)
    { mem := mem.zero pgd, pages := [pgd], pgd := pgd, puds := fun _ => 0 }
  let pmdPgIndex := t.pages.length
  let t ← populatePmds src iovaEnd (pudTurns base iovaEnd) t
  if vmap then
    some ({ pgd := t.pgd, puds := t.puds, pmds := t.pages.drop pmdPgIndex, base := base,
            iovaEnd := iovaEnd }, t.mem)
  else none

end MsmKernel.Iommu.PgtableFast
