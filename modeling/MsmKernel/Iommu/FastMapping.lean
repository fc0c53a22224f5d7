import MsmKernel.Iommu.DmaSg
import MsmKernel.Iommu.PgtableFast
import MsmKernel.Lib.Bitmap

/-! The DMA operations of dma-mapping-fast.c and their allocator of IOVA ranges, which leaves stale TLB
entries behind and invalidates the whole TLB only when it finds no range that has none. -/
namespace MsmKernel.Iommu.FastMapping
open Bitmap DmaSg PgtableFast

structure Mapping where
  base : Nat
  num4kPages : Nat
  bitmap : Bits
  cleanBitmap : Bits
  nextStart : Nat
  haveStaleTlbs : Bool

inductive Handle where
  | page (iova size : Nat)
  | sg (sgl : List Sg)
  | coherent (iova size : Nat)
  | resource (addr size : Nat)
  deriving DecidableEq

structure Grant where
  handle : Handle
  first : Nat
  count : Nat
  deriving DecidableEq

def Grant.covers (g : Grant) (page : Nat) : Prop := g.first ≤ page ∧ page < g.first + g.count

/- `freed` are the pages freed since the last invalidation of the whole TLB. -/
structure World where
  mapping : Mapping
  freed : Bits
  grants : List Grant

structure Device where
  pgtbl : Pgtable
  limits : SegLimits

def fls64 (x : Nat) : Nat := if x = 0 then 0 else Nat.log2 x + 1

/- `fls64((size - 1) >> PAGE_SHIFT)`, where `size - 1` wraps around at 0. -/
def getOrder (size : Nat) : Nat := if size = 0 then 52 else fls64 ((size - 1) >>> 12)

/- `(1 << get_order(size)) - 1`, a shift of an `int`, whose hardware takes the amount modulo 32. -/
def alignOf (size : Nat) : Nat := 1 <<< (getOrder size % 32) - 1

def Mapping.search (m : Mapping) (start nbits align : Nat) : Option Nat :=
  let bit := findNextZeroArea m.cleanBitmap m.num4kPages start nbits align
  if m.num4kPages < bit then none else some bit

def Mapping.take (m : Mapping) (bit nbits : Nat) : Mapping :=
  { m with
    bitmap := set m.bitmap bit nbits
    cleanBitmap := set m.cleanBitmap bit nbits
    nextStart := if m.num4kPages ≤ bit + nbits then 0 else bit + nbits }

def World.iommuFlushIotlbAll (w : World) : World := { w with freed := fun _ => false }

def World.resync (w : World) : World :=
  { w.iommuFlushIotlbAll with
    mapping := { w.mapping with cleanBitmap := w.mapping.bitmap, haveStaleTlbs := false } }

def World.findRoom (w : World) (nbits align : Nat) : Option Nat × World :=
  match w.mapping.search w.mapping.nextStart nbits align with
  | some bit => (some bit, w)
  | none =>
    match w.mapping.search 0 nbits align with
    | some bit => (some bit, w)
    | none =>
      if w.mapping.haveStaleTlbs then (w.resync.mapping.search 0 nbits align, w.resync) else (none, w)

/- `none` is DMA_MAPPING_ERROR. -/
def fastSmmuAllocIova (w : World) (size : Nat) : Option Nat × World :=
  match w.findRoom (size >>> 12) (alignOf size) with
  | (none, w) => (none, w)
  | (some bit, w) =>
    (some ((bit <<< 12) + w.mapping.base), { w with mapping := w.mapping.take bit (size >>> 12) })

def fastSmmuFreeIova (w : World) (iova size : Nat) : World :=
  let startBit := (iova - w.mapping.base) >>> 12
  let nbits := size >>> 12
  { w with
    mapping := { w.mapping with bitmap := clear w.mapping.bitmap startBit nbits, haveStaleTlbs := true }
    freed := set w.freed startBit nbits }

variable (dev : Device)

/- The results of `av8l_fast_map_public` and `av8l_fast_unmap_public`; what they store is the business of
the page table. -/
def av8lFastMapPublic (iova : Nat) : Nat := if (ioptePmdOffset dev.pgtbl.base iova).isNone then EINVAL else 0

def av8lFastUnmapPublic (iova size : Nat) : Nat :=
  if (ioptePmdOffset dev.pgtbl.base iova).isNone then 0 else size

def World.hand (w : World) (handle : Handle) (iova size : Nat) : World :=
  { w with grants := ⟨handle, (iova - w.mapping.base) >>> 12, size >>> 12⟩ :: w.grants }

def fastSmmuMapPage (w : World) (physPlusOff size : Nat) : World :=
  let offset := physPlusOff % 4096
  let len := alignPage (size + offset)
  match fastSmmuAllocIova w len with
  | (none, w) => w
  | (some iova, w) =>
    if av8lFastMapPublic dev iova ≠ 0 then fastSmmuFreeIova w iova size
    else w.hand (.page (iova + offset) size) iova len

def fastSmmuUnmapPage (w : World) (iova size : Nat) : World :=
  let len := alignPage (size + iova % 4096)
  if av8lFastUnmapPublic dev iova len = 0 then w else fastSmmuFreeIova w iova len

/- The result of `av8l_fast_map_sg_public` is ignored. A list without segments maps to 0 segments,
which is a failure to the caller. -/
def fastSmmuMapSg (w : World) (sgl : List Sg) : World :=
  let prepared := qcomIommuDmaPrepareMapSg dev.limits.boundary sgl
  match fastSmmuAllocIova w prepared.2 with
  | (none, w) => w
  | (some iova, w) =>
    if sgl.isEmpty then w
    else w.hand (.sg (qcomIommuDmaFinaliseSg dev.limits iova prepared.1)) iova prepared.2

def fastSmmuUnmapSg (w : World) (sgl : List Sg) : World :=
  let (start, len) := unmapRange sgl
  if av8lFastUnmapPublic dev start len = 0 then w else fastSmmuFreeIova w start len

inductive AllocPath where
  | atomic (gotPages : Bool)
  | contiguous (gotPages remapped : Bool)
  | scattered (gotPages gotSgTable remapped : Bool)
  deriving DecidableEq

/- The part that the three ways share: the range is freed again unless the buffer gets mapped. -/
def World.allocCoherent (w : World) (size : Nat) (mapped : Nat → Bool) : World :=
  match fastSmmuAllocIova w size with
  | (none, w) => w
  | (some iova, w) =>
    if mapped iova then w.hand (.coherent iova size) iova size else fastSmmuFreeIova w iova size

def fastSmmuAllocAtomic (w : World) (size : Nat) (gotPages : Bool) : World :=
  if gotPages then w.allocCoherent size fun iova => av8lFastMapPublic dev iova = 0 else w

def fastSmmuAllocContiguous (w : World) (size : Nat) (gotPages remapped : Bool) : World :=
  if gotPages then w.allocCoherent size fun iova => av8lFastMapPublic dev iova = 0 && remapped else w

def mapPages : Nat → Nat → Bool
  | 0, _ => true
  | n + 1, iova => if av8lFastMapPublic dev iova ≠ 0 then false else mapPages n (iova + 4096)

def fastSmmuAllocScattered (w : World) (size : Nat) (gotPages gotSgTable remapped : Bool) : World :=
  if gotPages && gotSgTable then
    w.allocCoherent size fun iova => mapPages dev (size >>> 12) iova && remapped
  else w

def fastSmmuAlloc (w : World) (size : Nat) (path : AllocPath) : World :=
  let size := alignPage size
  if 0xffffffff < size >>> 12 then w
  else
    match path with
    | .atomic gotPages => fastSmmuAllocAtomic dev w size gotPages
    | .contiguous gotPages remapped => fastSmmuAllocContiguous dev w size gotPages remapped
    | .scattered gotPages gotSgTable remapped => fastSmmuAllocScattered dev w size gotPages gotSgTable remapped

def fastSmmuFree (w : World) (dmaHandle size : Nat) : World :=
  let size := alignPage size
  if av8lFastUnmapPublic dev dmaHandle size = 0 then w else fastSmmuFreeIova w dmaHandle size

def fastSmmuDmaMapResource (w : World) (physAddr size : Nat) (mapped : Bool) : World :=
  let offset := physAddr % 4096
  let len := alignPage (size + offset)
  match fastSmmuAllocIova w len with
  | (none, w) => w
  | (some dmaAddr, w) =>
    if !mapped then fastSmmuFreeIova w dmaAddr len
    else w.hand (.resource (dmaAddr + offset) size) dmaAddr len

/- Unlike the other unmappings, `iommu_unmap` invalidates the TLB, when it finds something to unmap. -/
def fastSmmuDmaUnmapResource (w : World) (addr size : Nat) (unmapped : Bool) : World :=
  let len := alignPage (size + addr % 4096)
  let w := if unmapped then w.iommuFlushIotlbAll else w
  fastSmmuFreeIova w addr len

def World.giveUp (w : World) (handle : Handle) : Option World :=
  (w.grants.find? (·.handle = handle)).map fun g => { w with grants := w.grants.erase g }

inductive Event where
  | mapPage (physPlusOff size : Nat)
  | unmapPage (iova size : Nat)
  | mapSg (sgl : List Sg)
  | unmapSg (sgl : List Sg)
  | alloc (size : Nat) (path : AllocPath)
  | free (dmaHandle size : Nat)
  | mapResource (physAddr size : Nat) (mapped : Bool)
  | unmapResource (addr size : Nat) (unmapped : Bool)

/- An unmapping needs a range that was handed out with the same arguments. -/
def step (w : World) : Event → Option World
  | .mapPage physPlusOff size => some (fastSmmuMapPage dev w physPlusOff size)
  | .unmapPage iova size => (w.giveUp (.page iova size)).map fun w => fastSmmuUnmapPage dev w iova size
  | .mapSg sgl => some (fastSmmuMapSg dev w sgl)
  | .unmapSg sgl => (w.giveUp (.sg sgl)).map fun w => fastSmmuUnmapSg dev w sgl
  | .alloc size path => some (fastSmmuAlloc dev w size path)
  | .free dmaHandle size => (w.giveUp (.coherent dmaHandle (alignPage size))).map fun w =>
      fastSmmuFree dev w dmaHandle size
  | .mapResource physAddr size mapped => some (fastSmmuDmaMapResource w physAddr size mapped)
  | .unmapResource addr size unmapped => (w.giveUp (.resource addr size)).map fun w =>
      fastSmmuDmaUnmapResource w addr size unmapped

def fastSmmuInitMapping (apertureStart apertureEnd : Nat) (reserved : Bits) : Option World :=
  let dmaEnd := min apertureEnd 0xffffffff
  if dmaEnd ≤ apertureStart then none
  else
    some
      { mapping :=
          { base := apertureStart
            num4kPages := (dmaEnd - apertureStart + 1) >>> 12
            bitmap := reserved
            cleanBitmap := reserved
            nextStart := 0
            haveStaleTlbs := false }
        freed := fun _ => false
        grants := [] }

end MsmKernel.Iommu.FastMapping
