import Mathlib
import MsmKernel.Lib.Run

/-! The hypervisor heap manager (gh_rm_heap_manager.c): memory parcels added to the root and
resource-manager heaps before a lend and taken back when the hypervisor does not use them. -/
namespace MsmKernel.Gunyah.HeapManager
open Run Function List

inductive HeapLabel
  | root
  | rm
  deriving DecidableEq

def HeapLabel.index : HeapLabel → Nat
  | .root => 0
  | .rm => 1

def HeapLabel.ofIndex : Nat → Option HeapLabel
  | 0 => some .root
  | 1 => some .rm
  | _ => none

def heapMinResolution : Nat := 4194304

def getDmabufHeapSize (dmabufSize : Nat) : HeapLabel → Nat
  | .root => dmabufSize / 4096 * 20
  | .rm => dmabufSize / 4096 * 12

/- The rounded size in chunks, in a `u16`. -/
def numChunks (heapIncrease heapFree : Nat) : Nat :=
  if heapIncrease > heapFree then
    (heapIncrease - heapFree + (heapMinResolution - 1)) / heapMinResolution % 2 ^ 16
  else 0

section Prealloc

/- A query of the free size and an added chunk are given. -/
variable {σ : Type} (heapFree : σ → HeapLabel → Nat) (addChunk : Nat → HeapLabel → σ → σ)

def preallocHeap (dmabufSize : Nat) (heap : HeapLabel) (s : σ) : σ :=
  (addChunk heapMinResolution .root)^[numChunks (getDmabufHeapSize dmabufSize heap)
    (heapFree s heap)] s

def ghRmHeapMemlendPrealloc (dmabufSize : Nat) (s : σ) : σ :=
  preallocHeap heapFree addChunk dmabufSize .rm (preallocHeap heapFree addChunk dmabufSize .root s)

end Prealloc

/- `heap` and `lent` are the hypervisor's side: the heap that has the memory, and whether it is
still lent. The other fields are those of `struct rm_heap_mem_parcel`. -/
structure Parcel where
  mpHandle : Nat
  size : Nat
  added : Bool
  assigned : Bool
  poolAlloc : Bool
  needsCleanup : Bool
  heap : Option Nat
  lent : Bool
  deriving DecidableEq

inductive Fault
  | badIndex
  | otherList
  | otherHeap
  | earlyFree
  deriving DecidableEq

structure Manager where
  heapHandle : HeapLabel → Nat
  numParcels : HeapLabel → Int
  totalHeapAdded : HeapLabel → Int
  parcels : HeapLabel → List Parcel
  calls : Nat
  faults : List Fault

/- What the calls made for one parcel return; `lend` is the handle. -/
structure Answers where
  allocs : Bool
  poolAlloc : Bool
  lend : Option Nat
  add : Bool
  remove : Bool
  reclaim : Bool
  poolFree : Bool

variable (o : Nat → Answers)

def checked (ok : Prop) [Decidable ok] (f : Fault) : List Fault := if ok then [] else [f]

def freeFaults (heap : Option Nat) (lent : Bool) : List Fault :=
  checked (heap = none ∧ lent = false) .earlyFree

def addParcel (w : Manager) (label : HeapLabel) (p : Parcel) : Manager :=
  { w with
    parcels := update w.parcels label (p :: w.parcels label)
    numParcels := update w.numParcels label (w.numParcels label + 1)
    totalHeapAdded := update w.totalHeapAdded label (w.totalHeapAdded label + p.size) }

def ghRmHeapAddChunk (size : Nat) (label : HeapLabel) (w : Manager) : Manager :=
  let a := o w.calls
  let w := { w with calls := w.calls + 1 }
  if size % heapMinResolution ≠ 0 ∨ !a.poolAlloc then w
  else if !a.allocs then { w with faults := w.faults ++ freeFaults none false }
  else
    match a.lend with
    | none => { w with faults := w.faults ++ freeFaults none false }
    | some mpHandle =>
      if a.add then
        addParcel w label ⟨mpHandle, size, true, true, true, false, some (w.heapHandle label), true⟩
      else if a.reclaim then { w with faults := w.faults ++ freeFaults none false }
      else w

/- `__remove_heap_parcel` up to the removal from the list: the parcel that stays, if any. -/
def removeParcel (a : Answers) (handle : Nat) (p : Parcel) : Option Parcel × List Fault :=
  let f := checked (p.added → p.heap = some handle) .otherHeap
  if p.added && !a.remove then (some p, f)
  else
    let p := if p.added then { p with added := false, heap := none } else p
    if p.assigned && !a.reclaim then (some { p with needsCleanup := true }, f)
    else
      let p := if p.assigned then { p with assigned := false, lent := false } else p
      if !p.poolAlloc then (none, f)
      else
        let f := f ++ freeFaults p.heap p.lent
        if a.poolFree then (none, f) else (some { p with needsCleanup := true }, f)

/- The parcel between `front` and `back` in one list is removed on behalf of a label. -/
def removeHeapParcel (w : Manager) (list label : HeapLabel) (front : List Parcel) (p : Parcel)
    (back : List Parcel) : Manager :=
  let r := removeParcel (o w.calls) (w.heapHandle label) p
  let gone : Int := if r.1.isSome then 0 else 1
  { w with
    calls := w.calls + 1
    faults := w.faults ++ r.2
    parcels := update w.parcels list (front ++ r.1.toList ++ back)
    numParcels := update w.numParcels label (w.numParcels label - gone)
    totalHeapAdded :=
      update w.totalHeapAdded label (w.totalHeapAdded label - gone * p.size) }

/- The index is an argument of type `enum gh_hyp_heap_label`; `asked` is the heap whose free
parcels are being removed. -/
def removeHeapHandle (asked : HeapLabel) (index : Nat) (w : Manager) (mpHandle : Nat) : Manager :=
  match HeapLabel.ofIndex index with
  | none => { w with faults := w.faults ++ [.badIndex] }
  | some label =>
    let w := { w with faults := w.faults ++ checked (label = asked) .otherList }
    match (w.parcels label).span (·.mpHandle ≠ mpHandle) with
    | (_, []) => w
    | (front, p :: back) => removeHeapParcel o w label label front p back

def ghRmRemoveAllFreeHeap (label : HeapLabel) (reported : Option (List Nat)) (w : Manager) :
    Manager :=
  (reported.getD []).foldl (removeHeapHandle o label (w.heapHandle label)) w

def retryList (list label : HeapLabel) : List Parcel → List Parcel → Manager → Manager
  | _, [], w => w
  | front, p :: back, w =>
    if p.needsCleanup then
      retryList list label
        (front ++ (removeParcel (o w.calls) (w.heapHandle label) p).1.toList) back
        (removeHeapParcel o w list label front p back)
    else retryList list label (front ++ [p]) back w

def removeChunkRetry (w : Manager) : Manager :=
  let v := retryList o .root .root [] (w.parcels .root) w
  retryList o .rm .root [] (v.parcels .rm) v

def ghRmHeapShrink (reported : HeapLabel → Option (List Nat)) (w : Manager) : Manager :=
  removeChunkRetry o (ghRmRemoveAllFreeHeap o .rm (reported .rm)
    (ghRmRemoveAllFreeHeap o .root (reported .root) w))

inductive Event
  | prealloc (dmabufSize : Nat) (heapFree : HeapLabel → Nat)
  | shrink (reported : HeapLabel → Option (List Nat))

def step (w : Manager) : Event → Option Manager
  | .prealloc dmabufSize heapFree =>
    some (ghRmHeapMemlendPrealloc (fun _ => heapFree) (ghRmHeapAddChunk o) dmabufSize w)
  | .shrink reported => some (ghRmHeapShrink o reported w)

def initial (heapHandle : HeapLabel → Nat) : Manager :=
  ⟨heapHandle, fun _ => 0, fun _ => 0, fun _ => [], 0, []⟩

/- A heap that reports free parcels has the number of its label for a handle. -/
def Event.HandlesAreLabels (heapHandle : HeapLabel → Nat) : Event → Prop
  | .prealloc _ _ => True
  | .shrink reported =>
    ∀ label, (reported label).getD [] ≠ [] → heapHandle label = label.index

def Consistent (w : Manager) : Prop :=
  w.faults = [] ∧ ∀ label, w.numParcels label = (w.parcels label).length ∧
    w.totalHeapAdded label = ((w.parcels label).map fun p => (p.size : Int)).sum

def Parcel.Ok (handle : Nat) (p : Parcel) : Prop :=
  p.heap = (if p.added then some handle else none) ∧ p.lent = p.assigned

structure Inv (heapHandle : HeapLabel → Nat) (w : Manager) : Prop where
  handles : w.heapHandle = heapHandle
  consistent : Consistent w
  parcels : ∀ label, ∀ p ∈ w.parcels label, p.Ok (heapHandle label)
  rm : w.parcels .rm = []

variable {o} {heapHandle : HeapLabel → Nat} {w : Manager}

theorem removeParcel_ok {a : Answers} {handle : Nat} {p : Parcel} (hp : p.Ok handle) :
    (removeParcel a handle p).2 = [] ∧
      ∀ q ∈ (removeParcel a handle p).1, q.Ok handle ∧ q.size = p.size := by
  obtain ⟨hheap, hlent⟩ := hp
  unfold removeParcel freeFaults checked Parcel.Ok
  grind

section
variable (hI : Inv heapHandle w)
include hI

theorem Inv.replace {v : Manager} {L : List Parcel} (hhandles : v.heapHandle = w.heapHandle)
    (hfaults : v.faults = []) (hparcels : v.parcels = update w.parcels .root L)
    (hroot : v.numParcels .root = L.length ∧ v.totalHeapAdded .root = (L.map fun p => (p.size : Int)).sum)
    (hrm : v.numParcels .rm = w.numParcels .rm ∧ v.totalHeapAdded .rm = w.totalHeapAdded .rm)
    (hL : ∀ p ∈ L, p.Ok (heapHandle .root)) : Inv heapHandle v := by
  refine ⟨hhandles.trans hI.handles, ⟨hfaults, fun label => ?_⟩, fun label p hp => ?_, ?_⟩
  · cases label with
    | root => simpa [hparcels] using hroot
    | rm => simpa [hparcels, hrm] using hI.consistent.2 .rm
  · rw [hparcels] at hp
    cases label with
    | root => exact hL p (by simpa using hp)
    | rm => exact hI.parcels .rm p hp
  · rw [hparcels]
    exact hI.rm

theorem Inv.addChunk (size : Nat) : Inv heapHandle (ghRmHeapAddChunk o size .root w) := by
  have hcalled : Inv heapHandle { w with calls := w.calls + 1 } :=
    ⟨hI.handles, hI.consistent, hI.parcels, hI.rm⟩
  have hcounts := hI.consistent.2 .root
  unfold ghRmHeapAddChunk
  simp only [freeFaults, checked, and_self, if_true, append_nil]
  split_ifs with hrefused halloc
  · exact hcalled
  · exact hcalled
  all_goals cases (o w.calls).lend with
  | none => exact hcalled
  | some mpHandle =>
    first
    | exact hcalled
    | refine hcalled.replace (by rfl) hI.consistent.1 (by rfl) ?_ (by simp [addParcel])
        (forall_mem_cons.2 ⟨?_, hI.parcels .root⟩)
      · simp [addParcel, hcounts, add_comm]
      · exact ⟨by simp [hI.handles], rfl⟩

theorem Inv.removeParcel {front back : List Parcel} {p : Parcel}
    (hlist : w.parcels .root = front ++ p :: back) :
    Inv heapHandle (removeHeapParcel o w .root .root front p back) := by
  have hparcels := hI.parcels .root
  have hcounts := hI.consistent.2 .root
  simp only [hlist, forall_mem_append, forall_mem_cons] at hparcels hcounts
  obtain ⟨hfront, hp, hback⟩ := hparcels
  rw [← hI.handles] at hp
  obtain ⟨hnone, hstays⟩ := removeParcel_ok (a := o w.calls) hp
  refine hI.replace (by rfl) (by simp [removeHeapParcel, hnone, hI.consistent.1]) (by rfl) ?_
    (by simp [removeHeapParcel]) ?_
  · cases hr : (HeapManager.removeParcel (o w.calls) (w.heapHandle .root) p).1 with
    | none => simp [removeHeapParcel, hr, hcounts, add_sub_assoc]
    | some q => simpa [removeHeapParcel, hr, (hstays q hr).2] using hcounts
  · simp only [forall_mem_append, Option.mem_toList]
    exact ⟨⟨hfront, fun q hq => hI.handles ▸ (hstays q hq).1⟩, hback⟩

theorem Inv.retryList {front back : List Parcel} (hlist : w.parcels .root = front ++ back) :
    Inv heapHandle (retryList o .root .root front back w) := by
  induction back generalizing front w with
  | nil => exact hI
  | cons p back ih =>
    unfold HeapManager.retryList
    split_ifs with hneeds
    · exact ih (hI.removeParcel hlist) (by simp [removeHeapParcel])
    · exact ih hI (by simpa using hlist)

theorem Inv.removeAllFree {label : HeapLabel} {reported : Option (List Nat)}
    (hlabel : reported.getD [] ≠ [] → heapHandle label = label.index) :
    Inv heapHandle (ghRmRemoveAllFreeHeap o label reported w) := by
  unfold ghRmRemoveAllFreeHeap
  rw [hI.handles]
  refine List.foldlRecOn _ _ hI fun v hv mpHandle hmem => ?_
  have hindex : HeapLabel.ofIndex (heapHandle label) = some label := by
    rw [hlabel (ne_nil_of_mem hmem)]
    cases label <;> rfl
  simp only [removeHeapHandle, hindex, checked, if_true, append_nil]
  cases label with
  | root =>
    split
    · exact hv
    · next front p back hspan =>
      refine hv.removeParcel ?_
      rw [span_eq_takeWhile_dropWhile, Prod.mk.injEq] at hspan
      rw [← hspan.1, ← hspan.2, takeWhile_append_dropWhile]
  | rm => simpa [hv.rm] using hv

theorem Inv.step {e : Event} {v : Manager} (hlabels : e.HandlesAreLabels heapHandle)
    (hstep : step o w e = some v) : Inv heapHandle v := by
  cases e with
  | prealloc dmabufSize heapFree =>
    obtain rfl := Option.some.inj hstep
    have hheap : ∀ heap u, Inv heapHandle u → Inv heapHandle
        (preallocHeap (fun _ => heapFree) (ghRmHeapAddChunk o) dmabufSize heap u) :=
      fun heap u hu => Function.Iterate.rec (Inv heapHandle) hu (fun _ h => h.addChunk _) _
    exact hheap .rm _ (hheap .root _ hI)
  | shrink reported =>
    obtain rfl := Option.some.inj hstep
    have hfree := (hI.removeAllFree (o := o) (hlabels .root)).removeAllFree (o := o) (hlabels .rm)
    have hretry := hfree.retryList (o := o) (nil_append _).symm
    simpa only [ghRmHeapShrink, removeChunkRetry, hretry.rm, HeapManager.retryList] using hretry

end

/-- As long as every heap that reports free parcels has its label for a handle, the bookkeeping of
both heaps is consistent. -/
theorem heap_bookkeeping_consistent (es : List Event)
    (hlabels : ∀ e ∈ es, e.HandlesAreLabels heapHandle)
    (hrun : run (step o) (initial heapHandle) es = some w) : Consistent w := by
  have hI : Inv heapHandle (initial heapHandle) :=
    ⟨rfl, ⟨rfl, by simp [initial]⟩, by simp [initial], rfl⟩
  exact (run_invariant (fun _ _ _ hI hok hstep => hI.step hok hstep) hI (along_of_mem hlabels)
    hrun).consistent

def granted : Answers := ⟨true, true, some 5, true, true, true, true⟩

def chunkAndShrink (heap : HeapLabel) : List Event :=
  [.prealloc 4194304 (fun _ => 0), .shrink fun label => if label = heap then some [5] else none]

theorem heap_bookkeeping_consistent_shrunk :
    ∃ w, run (step fun _ => granted) (initial HeapLabel.index) (chunkAndShrink .root) = some w ∧
      w.parcels .root ≠ [] ∧ Consistent w := by
  refine exists_run_and (by decide +kernel) fun w hrun _ => heap_bookkeeping_consistent _ ?_ hrun
  simp [chunkAndShrink, Event.HandlesAreLabels]

/-- A handle of the resource manager's is taken for a label: with handles 17 and 0, one shrink reads
past the arrays, and one looks for the parcels of the one heap in the list of the other. -/
theorem shrink_takes_handle_for_label :
    (∃ w, run (step fun _ => granted) (initial fun _ => 17) (chunkAndShrink .root) = some w ∧
      w.faults = [.badIndex]) ∧
    ∃ w, run (step fun _ => granted) (initial fun _ => 0) (chunkAndShrink .rm) = some w ∧
      w.faults = [.otherList] :=
  ⟨exists_run_of_map (by decide +kernel), exists_run_of_map (by decide +kernel)⟩

def addFree (size : Nat) (label : HeapLabel) (free : HeapLabel → Nat) : HeapLabel → Nat :=
  update free label (free label + size)

theorem preallocHeap_addFree (dmabufSize : Nat) (heap : HeapLabel) (free : HeapLabel → Nat) :
    preallocHeap id addFree dmabufSize heap free =
      addFree (numChunks (getDmabufHeapSize dmabufSize heap) (free heap) * heapMinResolution) .root
        free := by
  rw [preallocHeap, id]
  generalize numChunks _ _ = n
  induction n with
  | zero => simp [addFree]
  | succ n ih =>
    rw [iterate_succ_apply', ih]
    simp only [addFree, update_self, update_idem, Nat.add_mul, Nat.one_mul, Nat.add_assoc]

theorem prealloc_addFree (dmabufSize : Nat) (free : HeapLabel → Nat) :
    ghRmHeapMemlendPrealloc id addFree dmabufSize free .root = free .root +
      numChunks (getDmabufHeapSize dmabufSize .root) (free .root) * heapMinResolution +
      numChunks (getDmabufHeapSize dmabufSize .rm) (free .rm) * heapMinResolution ∧
    ghRmHeapMemlendPrealloc id addFree dmabufSize free .rm = free .rm := by
  have hrm : ∀ size f, addFree size .root f .rm = f .rm := by simp [addFree]
  have hroot : ∀ size f, addFree size .root f .root = f .root + size := by simp [addFree]
  rw [ghRmHeapMemlendPrealloc, preallocHeap_addFree, preallocHeap_addFree, hroot, hroot, hrm, hrm,
    hrm]
  exact ⟨rfl, rfl⟩

theorem numChunks_covers (need free : Nat) :
    (need ≤ free → numChunks need free = 0) ∧
    (need ≤ free + numChunks need free * heapMinResolution ↔
      need ≤ free + 65535 * heapMinResolution) ∧
    numChunks need free * heapMinResolution < need - free + heapMinResolution := by
  simp only [numChunks, heapMinResolution]
  split_ifs <;> omega

/-- The chunks cover what each heap lacks, and no chunk more, exactly if the resource manager's
heap lacks nothing and the root heap lacks at most 65535 chunks. -/
theorem prealloc_covers_lend (dmabufSize : Nat) (free : HeapLabel → Nat) :
    (∀ heap,
      getDmabufHeapSize dmabufSize heap ≤ ghRmHeapMemlendPrealloc id addFree dmabufSize free heap ∧
      ghRmHeapMemlendPrealloc id addFree dmabufSize free heap <
        free heap + (getDmabufHeapSize dmabufSize heap - free heap) + heapMinResolution) ↔
    getDmabufHeapSize dmabufSize .rm ≤ free .rm ∧
      getDmabufHeapSize dmabufSize .root ≤ free .root + 65535 * heapMinResolution := by
  obtain ⟨hroot, hrm⟩ := prealloc_addFree dmabufSize free
  obtain ⟨-, hcovers, hmore⟩ := numChunks_covers (getDmabufHeapSize dmabufSize .root) (free .root)
  obtain ⟨hnone, -, hpos⟩ := numChunks_covers (getDmabufHeapSize dmabufSize .rm) (free .rm)
  have hboth : ∀ P : HeapLabel → Prop, (∀ heap, P heap) ↔ P .root ∧ P .rm :=
    fun P => ⟨fun h => ⟨h .root, h .rm⟩, fun h heap => by cases heap <;> simp [h]⟩
  rw [hboth, hroot, hrm]
  generalize numChunks (getDmabufHeapSize dmabufSize .rm) (free .rm) = m at *
  generalize numChunks (getDmabufHeapSize dmabufSize .root) (free .root) = n at *
  generalize heapMinResolution = c at *
  constructor
  · rintro ⟨⟨hge, -⟩, hlack, -⟩
    rw [hnone hlack, Nat.zero_mul, Nat.add_zero] at hge
    exact ⟨hlack, hcovers.1 hge⟩
  · rintro ⟨hlack, hge⟩
    rw [hnone hlack, Nat.zero_mul, Nat.add_zero]
    rw [hnone hlack, Nat.zero_mul] at hpos
    exact ⟨⟨hcovers.2 hge, by omega⟩, hlack, by omega⟩

/-- A lend of 400 MB gives all chunks to the root heap: the other heap stays short of what it
needs, and the root heap gets one chunk too many. -/
theorem prealloc_grows_root_only :
    ghRmHeapMemlendPrealloc id addFree 419430400 (fun _ => 0) .root = 2 * heapMinResolution ∧
      ghRmHeapMemlendPrealloc id addFree 419430400 (fun _ => 0) .rm = 0 ∧
      getDmabufHeapSize 419430400 .root ≤ heapMinResolution ∧ 0 < getDmabufHeapSize 419430400 .rm := by
  decide +kernel

end MsmKernel.Gunyah.HeapManager
