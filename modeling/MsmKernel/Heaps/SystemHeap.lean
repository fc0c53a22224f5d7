import MsmKernel.Heaps.PagePool
import MsmKernel.Lib.Run

/-! The system heaps of qcom_system_heap.c and the movable heap on top of them: pages come zeroed
from the page allocator or from the pools, and go back through the deferred free list. The vendor's
boost pool is not configured. -/
namespace MsmKernel.Heaps.System
open Run

structure SgBuffer where
  heap : Nat
  len : Nat
  pages : List Page

/- `taken` are the pages that the page allocator has handed out, `refs` their reference counts, and
`data` is what stands in each base page of a page, with 0 for one that is entirely zero. -/
structure World where
  taken : List Page
  refs : Page → Nat
  data : Page → Nat → Nat
  poolLists : List (List DynamicPagePool)
  buffers : List SgBuffer
  freeList : List SgBuffer

def initialWorld (heaps : Nat) (data : Page → Nat → Nat) : World where
  taken := []
  refs := fun _ => 0
  data := data
  poolLists := List.replicate heaps dynamicPagePoolCreatePools
  buffers := []
  freeList := []

def basePages (page : Page) : Nat := 1 <<< page.order

namespace World

def dropRef (w : World) (page : Page) : World :=
  { w with
    refs := fun p => if p = page then w.refs p - 1 else w.refs p
    taken := if w.refs page = 1 then w.taken.erase page else w.taken }

/- A page of the movable zone is unpinned first. -/
def freePage (w : World) (page : Page) : World :=
  if page.movable then (w.dropRef page).dropRef page else w.dropRef page

/- A page from the page allocator, zeroed for `__GFP_ZERO`; one of the movable zone is pinned. -/
def takePage (w : World) (page : Page) : World :=
  { w with
    taken := page :: w.taken
    refs := fun p => if p = page then if page.movable then 2 else 1 else w.refs p
    data := fun p => if p = page then fun _ => 0 else w.data p }

def setPools (w : World) (h : Nat) (pools : List DynamicPagePool) : World :=
  { w with poolLists := w.poolLists.set h pools }

end World

/- The page allocator answers with a page that it has not handed out, and with one of the movable
zone only if it is asked for `__GFP_MOVABLE`. -/
def allocPages (w : World) (answer : Nat → Option Page) (gfpMovable : Bool) (order : Nat) :
    Option Page :=
  (answer order).filter fun page =>
    page.order = order ∧ page ∉ w.taken ∧ (page.movable = true → gfpMovable = true)

structure Turn where
  fatalSignal : Bool
  watermarkOk : Nat → Bool
  movableAnswer : Nat → Option Page
  answer : Nat → Option Page

/- A page of another zone is given back at once. -/
def qcomMovableHeapAllocPages (w : World) (turn : Turn) (order : Nat) : Option Page :=
  if turn.watermarkOk order then allocPages w turn.movableAnswer false order
  else (allocPages w turn.movableAnswer true order).filter (·.movable)

def allocOutsidePools (w : World) (turn : Turn) (movable : Bool) (order : Nat) : Option Page :=
  (if movable then qcomMovableHeapAllocPages w turn order else none).or
    (allocPages w turn.answer false order)

def qcomSysHeapAllocLargestAvailable (w : World) (h : Nat) (turn : Turn) (movable : Bool)
    (size maxOrder : Nat) : Option (Page × World) := do
  let pools ← w.poolLists[h]?
  let (page, fresh, pools) ←
    allocFromPools (allocOutsidePools w turn movable) size maxOrder orders pools
  return (page, (if fresh then w.takePage page else w).setPools h pools)

def allocLoop (h : Nat) (movable : Bool) :
    List Turn → Nat → Nat → List Page → World → Bool × List Page × World
  | [], size, _, pages, w => (size == 0, pages, w)
  | turn :: turns, size, maxOrder, pages, w =>
    if size = 0 then (true, pages, w)
    else if turn.fatalSignal then (false, pages, w)
    else
      match qcomSysHeapAllocLargestAvailable w h turn movable size maxOrder with
      | none => (false, pages, w)
      | some (page, w') => allocLoop h movable turns (size - page.size) page.order (pages ++ [page]) w'

def systemQcomSgBufferAlloc (w : World) (h len : Nat) (movable : Bool) (turns : List Turn)
    (table : Bool) : Option (List Page) × World :=
  let r := allocLoop h movable turns len (orders.headD 0) [] w
  if r.1 = false ∨ table = false ∨ r.2.1 = [] then (none, r.2.1.foldl World.freePage r.2.2)
  else (some r.2.1, r.2.2)

structure AllocEnv where
  kzalloc : Bool
  turns : List Turn
  table : Bool
  vmperm : Bool
  dmabuf : Bool

def heapAllocate (w : World) (h len : Nat) (movable : Bool) (env : AllocEnv) :
    Option SgBuffer × World :=
  if env.kzalloc = false then (none, w)
  else
    match systemQcomSgBufferAlloc w h len movable env.turns env.table with
    | (none, w) => (none, w)
    | (some pages, w) =>
      if env.vmperm = false ∨ env.dmabuf = false then
        (none, { w with freeList := ⟨h, len, pages⟩ :: w.freeList })
      else (some ⟨h, len, pages⟩, { w with buffers := w.buffers ++ [⟨h, len, pages⟩] })

def clearPages (frames : List (Page × Nat)) (data : Page → Nat → Nat) : Page → Nat → Nat :=
  fun page i => if (page, i) ∈ frames then 0 else data page i

/- The loop of `system_heap_zero_buffer` over the base pages with the batch collected so far; `vmap`
says which of the mappings succeed. -/
def zeroLoop (vmap : Nat → Bool) : List (Page × Nat) → List (Page × Nat) → Nat →
    (Page → Nat → Nat) → Bool × (Page → Nat → Nat)
  | [], batch, k, data =>
    if batch = [] then (true, data)
    else if vmap k then (true, clearPages batch data) else (false, data)
  | frame :: frames, batch, k, data =>
    let batch := batch ++ [frame]
    if batch.length = 32 then
      if vmap k then zeroLoop vmap frames [] (k + 1) (clearPages batch data) else (false, data)
    else zeroLoop vmap frames batch k data

def framesOf (pages : List Page) : List (Page × Nat) :=
  pages.flatMap fun page => (List.range (basePages page)).map fun i => (page, i)

inductive DfReason where
  | normal | underPressure
  deriving DecidableEq

def disposePage (reason : DfReason) (h : Nat) (w : World) (page : Page) : World :=
  if page.movable then (w.dropRef page).dropRef page
  else
    match reason with
    | .underPressure => w.dropRef page
    | .normal => { w with poolLists := putIn w.poolLists h page }

/- A buffer that could not be zeroed is freed as under pressure. -/
def systemHeapDeferredFree (w : World) (buffer : SgBuffer) (reason : DfReason) (vmap : Nat → Bool) :
    World :=
  match reason with
  | .underPressure => buffer.pages.foldl (disposePage .underPressure buffer.heap) w
  | .normal =>
    let r := zeroLoop vmap (framesOf buffer.pages) [] 0 w.data
    let reason := if r.1 then DfReason.normal else .underPressure
    buffer.pages.foldl (disposePage reason buffer.heap) { w with data := r.2 }

def freeOneItem (w : World) (reason : DfReason) (vmap : Nat → Bool) : World :=
  match w.freeList with
  | [] => w
  | buffer :: items => systemHeapDeferredFree { w with freeList := items } buffer reason vmap

def dynamicPoolFillMark : Nat := 100 * 1048576

def getDynamicPoolFillmark (pool : DynamicPagePool) : Nat :=
  dynamicPoolFillMark / (pageSize <<< pool.order)

def refillLoop (h j : Nat) : List (Bool × (Nat → Option Page)) → World → World
  | [], w => w
  | (refillOk, answer) :: turns, w =>
    match w.poolLists[h]? with
    | none => w
    | some pools =>
      match pools[j]? with
      | none => w
      | some pool =>
        if pool.order = 0 ∨ pool.count ≥ getDynamicPoolFillmark pool ∨ refillOk = false then w
        else
          match allocPages w answer false pool.order with
          | none => w
          | some page =>
            refillLoop h j turns
              ((w.takePage page).setPools h (pools.set j (dynamicPagePoolAdd pool page)))

def dynamicPagePoolDoShrink (high : Bool) (h j : Nat) (nr : Int) (w : World) : World × Int :=
  match w.poolLists[h]? with
  | none => (w, 0)
  | some pools =>
    match pools[j]? with
    | none => (w, 0)
    | some pool =>
      if nr = 0 then (w, dynamicPagePoolTotal pool high)
      else
        let r := shrinkLoop high nr nr.toNat 0 pool []
        (r.1.foldl World.dropRef (w.setPools h (pools.set j r.2.2)), r.2.1)

def dynamicPagePoolShrink (w : World) (high : Bool) (nr : Int) : World :=
  if nr = 0 then w
  else shrinkPools (dynamicPagePoolDoShrink high) (poolList w.poolLists.length) nr w

inductive Event where
  | allocate (h len : Nat) (movable : Bool) (env : AllocEnv)
  | write (buffer page i value : Nat)
  | release (buffer : Nat)
  | freeOneItem (reason : DfReason) (vmap : Nat → Bool)
  | refill (h j : Nat) (turns : List (Bool × (Nat → Option Page)))
  | shrink (high : Bool) (nr : Int)

def writePage (w : World) (page : Page) (i value : Nat) : World :=
  { w with data := fun p k => if p = page ∧ k = i then value else w.data p k }

/- A buffer is written while it is live; its last reference puts it on the deferred free list. -/
def step (w : World) : Event → Option World
  | .allocate h len movable env => some (heapAllocate w h len movable env).2
  | .write b k i value => do
    let buffer ← w.buffers[b]?
    let page ← buffer.pages[k]?
    return writePage w page i value
  | .release b => do
    let buffer ← w.buffers[b]?
    return { w with buffers := w.buffers.eraseIdx b, freeList := buffer :: w.freeList }
  | .freeOneItem reason vmap => some (freeOneItem w reason vmap)
  | .refill h j turns => some (refillLoop h j turns w)
  | .shrink high nr => some (dynamicPagePoolShrink w high nr)

end MsmKernel.Heaps.System
