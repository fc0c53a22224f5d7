import Mathlib.Data.List.Range

/-! Sharing of pages between VMs in hab_mem_linux.c: the exporter writes the page frames of a buffer
as regions with gaps, and the importer builds its list of pages from them. -/
namespace MsmKernel.Hab

abbrev Errno := Nat

def EINVAL : Errno := 22
def ENOMEM : Errno := 12
def EBADF : Errno := 9

def pageShift : Nat := 12

def toInt (x : Int) : Int := x.bmod 4294967296
def ulong : Nat := 18446744073709551616

structure Region where
  size : Int
  space : Int
  deriving DecidableEq

structure CompressedPfns where
  firstPfn : Nat
  regions : List Region
  deriving DecidableEq

/- An entry of a scatter-gather table: the frame of `sg_page`, and a length in bytes that is an
`unsigned int`. -/
structure SgEntry where
  pfn : Nat
  length : Nat
  lt : length < 4294967296

def SgEntry.pages (s : SgEntry) : Nat := s.length >>> pageShift

/- A buffer of another driver is seen as a table, one of this driver as an array of pages. -/
inductive DmaBuf where
  | table (sgl : List SgEntry)
  | array (pages : List Nat)

def DmaBuf.frames : DmaBuf → List Nat
  | .table sgl => sgl.flatMap fun s => List.range' s.pfn s.pages
  | .array pages => pages

/- The gap behind the last region is written when the next one is met. -/
def setSpace (regions : List Region) (space : Int) : List Region :=
  regions.modify (regions.length - 1) fun r => { r with space }

/- The loop of `habmem_compress_pfns` over a table, with the regions written so far. A loop that ends
without `break` leaves the zeroed region behind them. -/
def compressTable : List SgEntry → Nat → Int → Nat → List Region → Nat → CompressedPfns
  | [], _, _, firstPfn, regions, _ => ⟨firstPfn, regions ++ [⟨0, 0⟩]⟩
  | s :: sgl, pageOffset, pageCount, firstPfn, regions, prePage =>
    if s.pages ≤ pageOffset then
      compressTable sgl (pageOffset - s.pages) pageCount firstPfn regions prePage
    else
      let firstPfn := if regions = [] then s.pfn + pageOffset else firstPfn
      let regions := setSpace regions (toInt ((s.pfn : Int) - prePage - 1))
      let size := toInt ((s.pages : Int) - pageOffset)
      if pageCount ≤ size then ⟨firstPfn, regions ++ [⟨pageCount, 0⟩]⟩
      else
        compressTable sgl 0 (pageCount - size) firstPfn (regions ++ [⟨size, 0⟩])
          (s.pfn + (size - 1).toNat)

def compressArray : Nat → List Nat → Int → List Region → List Region
  | _, [], regionSize, regions => regions ++ [⟨regionSize, 0⟩]
  | prev, page :: pages, regionSize, regions =>
    if (page + (ulong - 1)) % ulong = prev then compressArray page pages (regionSize + 1) regions
    else
      compressArray page pages 1 (regions ++ [⟨regionSize, toInt ((page : Int) - prev - 1)⟩])

structure ExportEnv where
  addExport : Bool
  kzalloc : Bool
  attach : Bool
  mapAttachment : Bool

def habmemCompressPfns (buf : DmaBuf) (offset pageCount : Nat) (env : ExportEnv) :
    Except Errno CompressedPfns :=
  if buf.frames.length < pageCount then .error EINVAL
  else
    match buf with
    | .table sgl =>
      if env.attach = false ∨ env.mapAttachment = false then .error EBADF
      else .ok (compressTable sgl (offset >>> pageShift) pageCount 0 [] 0)
    | .array pages =>
      let first := pages.headD 0
      .ok ⟨first, compressArray first (pages.take pageCount).tail 1 []⟩

structure ExportDesc where
  payloadCount : Nat
  payload : CompressedPfns
  deriving DecidableEq

def habmemAddExportCompress (buf : DmaBuf) (offset pageCount : Nat) (env : ExportEnv) :
    Except Errno ExportDesc :=
  if env.addExport = false ∨ env.kzalloc = false then .error ENOMEM
  else (habmemCompressPfns buf offset pageCount env).map fun pfns => ⟨pageCount, pfns⟩

def decodeRegions (payloadCount : Nat) : List Region → Nat → Nat → List Nat → Except Errno (List Nat)
  | [], _, total, pages => if total ≠ payloadCount then .error EINVAL else .ok pages
  | r :: regions, pfn, total, pages =>
    if r.size ≤ 0 then .error EINVAL
    else if payloadCount < total + r.size.toNat then .error EINVAL
    else
      decodeRegions payloadCount regions
        (((pfn : Int) + toInt (r.size + r.space)) % ulong).toNat (total + r.size.toNat)
        (pages ++ (List.range r.size.toNat).map fun j => (pfn + j) % ulong)

structure ImportEnv where
  pfnValid : Nat → Bool
  pageIsRam : Nat → Bool
  vmalloc : Bool
  kzalloc : Bool

def pagesListCreate (exp : ExportDesc) (env : ImportEnv) : Except Errno (List Nat) :=
  if env.pfnValid exp.payload.firstPfn = false ∨ env.pageIsRam exp.payload.firstPfn = false then
    .error EINVAL
  else if env.vmalloc = false ∨ env.kzalloc = false then .error ENOMEM
  else decodeRegions exp.payloadCount exp.payload.regions exp.payload.firstPfn 0 []

end MsmKernel.Hab
