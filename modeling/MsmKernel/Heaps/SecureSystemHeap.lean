import MsmKernel.Heaps.PagePool
import MsmKernel.Lib.Run
import MsmKernel.MemBuf.Hypervisor

/-! The secure system heaps of qcom_secure_system_heap.c: buffers and pools whose pages are assigned
to the VM of their heap, filled from the pools of the system heap and from the page allocator. -/
namespace MsmKernel.Heaps
open Run MemBuf

/- The heaps by the private data of their dma_heap: `some vmid` is a secure system heap, `none` a
system heap, and a number without an entry a heap of another kind. -/
structure Setup where
  heaps : List (Option Vmid)
  sysHeap : Option Nat
  sysHeap_system : ∀ h, sysHeap = some h → heaps[h]? = some none

namespace Setup

def secureVmid (S : Setup) (h : Nat) : Option Vmid := S.heaps[h]?.join

def vm (S : Setup) (h : Nat) : Vmid := (S.secureVmid h).getD vmidHlos

end Setup

structure SecureBuffer where
  heap : Nat
  pages : List Page

structure PrefetchInfo where
  heap : Nat
  size : Nat
  shrink : Bool

structure PrefetchRegion where
  size : Nat
  heap : Nat

/- `taken` are the pages that the page allocator has handed out to the heaps, `owner` is `none` for
a page whose ownership is unknown. -/
structure World where
  taken : List Page
  owner : Page → Option Vmid
  poolLists : List (List DynamicPagePool)
  buffers : List SecureBuffer
  leaked : List Page
  prefetchList : List PrefetchInfo
  uninitialised : Bool

def initialWorld (S : Setup) : World where
  taken := []
  owner := fun _ => some vmidHlos
  poolLists := S.heaps.map fun _ => dynamicPagePoolCreatePools
  buffers := []
  leaked := []
  prefetchList := []
  uninitialised := false

namespace World

def freePages (w : World) (pages : List Page) : World := { w with taken := w.taken.diff pages }

def leak (w : World) (pages : List Page) : World := { w with leaked := pages ++ w.leaked }

def setPools (w : World) (h : Nat) (pools : List DynamicPagePool) : World :=
  { w with poolLists := w.poolLists.set h pools }

def put (w : World) (h : Nat) (page : Page) : World :=
  { w with poolLists := putIn w.poolLists h page }

def putAll (w : World) (h : Nat) (pages : List Page) : World := pages.foldl (·.put h) w

end World

/- A hypervisor call on an initialised table; `ret` is `none` for a return value of 0. -/
def hypAssign (w : World) (pages : List Page) (dest : Vmid) (ret : Option Errno) : World :=
  { w with
    owner := fun page =>
      if page ∈ pages then
        match ret with
        | none => some dest
        | some e => if e = EADDRNOTAVAIL then none else w.owner page
      else w.owner page }

def allocPages (w : World) (answer : Nat → Option Page) (order : Nat) : Option Page :=
  (answer order).filter fun page => page.order = order ∧ page ∉ w.taken

structure Turn where
  fatalSignal : Bool
  answer : Nat → Option Page

def sysHeapAlloc (S : Setup) (w : World) (answer : Nat → Option Page) (size maxOrder : Nat) :
    Option (Page × World) := do
  let sys ← S.sysHeap
  let pools ← w.poolLists[sys]?
  let (page, fresh, pools) ← allocFromPools (allocPages w answer) size maxOrder orders pools
  return (page, { w.setPools sys pools with taken := if fresh then page :: w.taken else w.taken })

/- The flag is `page_from_secure_pool`. -/
def allocLargestAvailable (S : Setup) (w : World) (h : Nat) (answer : Nat → Option Page)
    (size maxOrder : Nat) : Option (Page × Bool × World) :=
  if S.sysHeap = none then none
  else
    match w.poolLists[h]?.bind (allocFromPools (fun _ => none) size maxOrder orders) with
    | some (page, _, pools) => some (page, true, w.setPools h pools)
    | none => (sysHeapAlloc S w answer size maxOrder).map fun r => (r.1, false, r.2)

structure Gathered where
  done : Bool
  securePages : List Page
  nonSecurePages : List Page
  world : World

/- The loop of `system_heap_allocate`; it is left unfinished if a page is missing or a fatal signal
is pending. -/
def gather (S : Setup) (h : Nat) : List Turn → Nat → Nat → List Page → List Page → World → Gathered
  | [], size, _, secure, nonSecure, w => ⟨size == 0, secure, nonSecure, w⟩
  | turn :: turns, size, maxOrder, secure, nonSecure, w =>
    if size = 0 then ⟨true, secure, nonSecure, w⟩
    else if turn.fatalSignal then ⟨false, secure, nonSecure, w⟩
    else
      match allocLargestAvailable S w h turn.answer size maxOrder with
      | none => ⟨false, secure, nonSecure, w⟩
      | some (page, true, w') =>
        gather S h turns (size - page.size) page.order (secure ++ [page]) nonSecure w'
      | some (page, false, w') =>
        gather S h turns (size - page.size) page.order secure (nonSecure ++ [page]) w'

/- One turn for each entry of the table: the larger page first, of equal ones the non-secure one. -/
def pageListMerge : Nat → List Page → List Page → List Page
  | entries + 1, s :: ss, n :: ns =>
    if s.size ≤ n.size then n :: pageListMerge entries (s :: ss) ns
    else s :: pageListMerge entries ss (n :: ns)
  | entries + 1, [], n :: ns => n :: pageListMerge entries [] ns
  | entries + 1, s :: ss, [] => s :: pageListMerge entries ss []
  | _, _, _ => []

def getPoolSizeBytes : List DynamicPagePool → Nat
  | [] => 0
  | pool :: pools => dynamicPagePoolTotal pool true * pageSize + getPoolSizeBytes pools

structure AllocEnv where
  kzalloc : Bool
  turns : List Turn
  sgTable : Bool
  nonSecureTable : Bool
  assign : Option Errno
  vmperm : Bool
  dmabuf : Bool
  unassign : Option Errno

/- The label `free_buffer`: the secure pages go back to the pools, the others are given back to the
page allocator unless `hyp_ret` is an error. -/
def freeBuffer (w : World) (h : Nat) (secure nonSecure : List Page) (hypRet : Option Errno) : World :=
  let w := w.putAll h secure
  if hypRet.isNone then w.freePages nonSecure else w.leak nonSecure

/- The label `hyp_unassign`: the table of the non-secure pages is only set up if there are any. -/
def hypUnassign (w : World) (h : Nat) (secure nonSecure : List Page) (ret : Option Errno) : World :=
  let w := if nonSecure = [] then { w with uninitialised := true } else hypAssign w nonSecure vmidHlos ret
  freeBuffer w h secure nonSecure ret

def exportBuffer (w : World) (h : Nat) (vmid : Vmid) (secure nonSecure : List Page) (env : AllocEnv) :
    World :=
  let assignRet := if nonSecure = [] then none else env.assign
  let w := hypAssign w nonSecure vmid assignRet
  match assignRet with
  | some e =>
    -- only an unknown ownership keeps the error
    freeBuffer w h secure nonSecure (if e = EADDRNOTAVAIL then some e else none)
  | none =>
    if env.vmperm = false ∨ env.dmabuf = false then hypUnassign w h secure nonSecure env.unassign
    else
      let totalPages := secure.length + nonSecure.length
      { w with buffers := w.buffers ++ [⟨h, pageListMerge totalPages secure nonSecure⟩] }

/- A table of no entries is refused as well. -/
def systemHeapAllocate (S : Setup) (w : World) (h : Nat) (vmid : Vmid) (len : Nat) (env : AllocEnv) :
    World :=
  if env.kzalloc = false then w
  else
    let g := gather S h env.turns len (orders.headD 0) [] [] w
    if g.done = false ∨ env.sgTable = false ∨ g.securePages ++ g.nonSecurePages = [] ∨
        (g.nonSecurePages ≠ [] ∧ env.nonSecureTable = false) then
      freeBuffer g.world h g.securePages g.nonSecurePages none
    else exportBuffer g.world h vmid g.securePages g.nonSecurePages env

def systemHeapFree (w : World) (i : Nat) : World :=
  match w.buffers[i]? with
  | some buffer => { w with buffers := w.buffers.eraseIdx i }.putAll buffer.heap buffer.pages
  | none => w

structure ReleaseEnv where
  sgTable : Bool
  unassign : Option Errno

/- The flag is false for `DYNAMIC_POOL_FAILURE`. -/
def freeSecurePages (w : World) (pages : List Page) (env : ReleaseEnv) : Bool × World :=
  if env.sgTable = false then (false, w)
  else (env.unassign.isNone, hypAssign w pages vmidHlos env.unassign)

/- What follows the loop of `dynamic_page_pool_do_shrink`: the pools of secure heaps have a
callback, and its failure leaves the pages where they are. -/
def releasePages (secure : Bool) (w : World) (pages : List Page) (freed : Int) (env : ReleaseEnv) :
    World × Int :=
  if freed ≠ 0 ∧ secure then
    match freeSecurePages w pages env with
    | (true, w) => (w.freePages pages, freed)
    | (false, w) => (w.leak pages, 0)
  else (w.freePages pages, freed)

def dynamicPagePoolDoShrink (S : Setup) (w : World) (h j : Nat) (high : Bool) (nr : Int)
    (env : ReleaseEnv) : World × Int :=
  match w.poolLists[h]? with
  | none => (w, 0)
  | some pools =>
    match pools[j]? with
    | none => (w, 0)
    | some pool =>
      if nr = 0 then (w, dynamicPagePoolTotal pool high)
      else
        let r := shrinkLoop high nr nr.toNat 0 pool []
        releasePages (S.secureVmid h).isSome (w.setPools h (pools.set j r.2.2)) r.1 r.2.1 env

def dynamicPagePoolShrinkHighAndLow (S : Setup) (w : World) (h : Nat) (nr : Int)
    (env : Nat → Nat → ReleaseEnv) : World :=
  shrinkPools (fun h j nr w => dynamicPagePoolDoShrink S w h j true nr (env h j)) (poolsOfHeap h) nr w

/- A shrinker that only counts changes nothing. -/
def dynamicPagePoolShrink (S : Setup) (w : World) (high : Bool) (nr : Int)
    (env : Nat → Nat → ReleaseEnv) : World :=
  if nr = 0 then w
  else
    shrinkPools (fun h j nr w => dynamicPagePoolDoShrink S w h j high nr (env h j))
      (poolList S.heaps.length) nr w

def getPagesLoop (S : Setup) : List Turn → Nat → Nat → List Page → World → Bool × List Page × World
  | [], size, _, pages, w => (size == 0, pages, w)
  | turn :: turns, size, maxOrder, pages, w =>
    if size = 0 then (true, pages, w)
    else
      match sysHeapAlloc S w turn.answer size maxOrder with
      | none => (false, pages, w)
      | some (page, w') => getPagesLoop S turns (size - page.size) page.order (pages ++ [page]) w'

def getPages (S : Setup) (w : World) (size : Nat) (turns : List Turn) (table : Bool) :
    Option (List Page) × World :=
  let r := getPagesLoop S turns size (orders.headD 0) [] w
  if r.1 = false ∨ table = false ∨ r.2.1 = [] then (none, r.2.2.freePages r.2.1)
  else (some r.2.1, r.2.2)

structure WorkEnv where
  turns : List Turn
  table : Bool
  assign : Option Errno
  release : Nat → Nat → ReleaseEnv

def processOnePrefetch (S : Setup) (w : World) (info : PrefetchInfo) (vmid : Vmid) (env : WorkEnv) :
    World :=
  match getPages S w info.size env.turns env.table with
  | (none, w) => w
  | (some pages, w) =>
    let w := hypAssign w pages vmid env.assign
    if env.assign.isNone then w.putAll info.heap pages else w.freePages pages

def toInt (n : Nat) : Int := (n : Int).bmod 4294967296

def processOneShrink (S : Setup) (w : World) (info : PrefetchInfo) (env : WorkEnv) : World :=
  dynamicPagePoolShrinkHighAndLow S w info.heap (toInt (info.size / pageSize)) env.release

def pageAlign (size : Nat) : Nat := (size + (pageSize - 1)) % 18446744073709551616 / pageSize * pageSize

def maxNrPrefetchRegions : Nat := 32

/- The loop of `__qcom_secure_system_heap_resize`, with `secure_heap` found so far: each turn looks
for the heap of the first region. -/
def resizeLoop (S : Setup) (first : Nat) (shrink : Bool) (kmalloc : Nat → Bool) :
    List PrefetchRegion → Nat → Bool → List PrefetchInfo → Option (List PrefetchInfo)
  | [], _, _, items => some items
  | region :: regions, i, found, items =>
    let found := found || (S.secureVmid first).isSome
    if found = false ∨ kmalloc i = false then none
    else
      resizeLoop S first shrink kmalloc regions (i + 1) found
        (items ++ [⟨region.heap, pageAlign region.size, shrink⟩])

def resize (S : Setup) (w : World) (regions : List PrefetchRegion) (shrink : Bool)
    (kmalloc : Nat → Bool) : World :=
  if regions.length > maxNrPrefetchRegions then w
  else
    match resizeLoop S ((regions.head?.map (·.heap)).getD 0) shrink kmalloc regions 0 false [] with
    | some items => { w with prefetchList := w.prefetchList ++ items }
    | none => w

inductive Event where
  | allocate (h len : Nat) (env : AllocEnv)
  | free (i : Nat)
  | resize (regions : List PrefetchRegion) (shrink : Bool) (kmalloc : Nat → Bool)
  | work (env : WorkEnv)
  | shrink (high : Bool) (nr : Int) (env : Nat → Nat → ReleaseEnv)
  | systemPut (h : Nat) (page : Page)
  | systemTake (h size maxOrder : Nat)

/- The system heaps share their pools: they put pages in and take pages out, which are with HLOS
while they are not in a pool. Work on a heap that is not a secure one is undefined. -/
def step (S : Setup) (w : World) : Event → Option World
  | .allocate h len env => (S.secureVmid h).map fun vmid => systemHeapAllocate S w h vmid len env
  | .free i => some (systemHeapFree w i)
  | .resize regions shrink kmalloc => some (resize S w regions shrink kmalloc)
  | .work env =>
    match w.prefetchList with
    | [] => some w
    | info :: infos =>
      let w := { w with prefetchList := infos }
      (S.secureVmid info.heap).map fun vmid =>
        if info.shrink then processOneShrink S w info env else processOnePrefetch S w info vmid env
  | .shrink high nr env => some (dynamicPagePoolShrink S w high nr env)
  | .systemPut h page =>
    if S.heaps[h]? = some none ∧ page.order ∈ orders ∧ page ∉ w.taken then
      some ({ w with taken := page :: w.taken }.put h page)
    else none
  | .systemTake h size maxOrder =>
    if S.heaps[h]? = some none then
      match w.poolLists[h]?.bind (allocFromPools (fun _ => none) size maxOrder orders) with
      | some (page, _, pools) => some ((w.setPools h pools).freePages [page])
      | none => some w
    else none

end MsmKernel.Heaps
