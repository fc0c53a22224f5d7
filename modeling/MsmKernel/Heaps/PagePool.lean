import Mathlib.Data.List.Forall2
import MsmKernel.Lib.Custody

/-! The page pools of qcom_dynamic_page_pool.c and the loop that takes the largest page that fits
from them. A pool is only touched under its lock, so every access is one step. -/
namespace MsmKernel.Heaps
open Custody
open List

structure Page where
  id : Nat
  order : Nat
  highMem : Bool := false
  movable : Bool := false
  deriving DecidableEq

def pageSize : Nat := 4096
def orders : List Nat := [9, 4, 0]

def Page.size (page : Page) : Nat := pageSize <<< page.order

def bytes : List Page → Nat
  | [] => 0
  | page :: pages => page.size + bytes pages

structure DynamicPagePool where
  highCount : Nat
  lowCount : Nat
  count : Int
  highItems : List Page
  lowItems : List Page
  order : Nat
  deriving DecidableEq

open DynamicPagePool

namespace DynamicPagePool

def items (pool : DynamicPagePool) : List Page := pool.lowItems ++ pool.highItems

/- The counters say how long the lists are, and every page has the order of its pool. -/
structure Wf (pool : DynamicPagePool) : Prop where
  high : pool.highCount = pool.highItems.length
  low : pool.lowCount = pool.lowItems.length
  total : pool.count = pool.lowItems.length + pool.highItems.length
  order : ∀ page ∈ pool.items, page.order = pool.order

end DynamicPagePool

def dynamicPagePoolCreate (order : Nat) : DynamicPagePool := ⟨0, 0, 0, [], [], order⟩

def dynamicPagePoolCreatePools : List DynamicPagePool := orders.map dynamicPagePoolCreate

section
variable (pool : DynamicPagePool)

def dynamicPagePoolAdd (page : Page) : DynamicPagePool :=
  if page.highMem then
    { pool with
      highItems := pool.highItems ++ [page]
      highCount := pool.highCount + 1
      count := pool.count + 1 }
  else
    { pool with
      lowItems := pool.lowItems ++ [page]
      lowCount := pool.lowCount + 1
      count := pool.count + 1 }

/- `none` stands for the `BUG_ON` and for the first entry of an empty list; neither is met by a
caller that has seen a counter of a well-formed pool. -/
def dynamicPagePoolRemove : Bool → Option (Page × DynamicPagePool)
  | true =>
    match pool.highCount, pool.highItems with
    | n + 1, page :: pages =>
      some (page, { pool with highItems := pages, highCount := n, count := pool.count - 1 })
    | _, _ => none
  | false =>
    match pool.lowCount, pool.lowItems with
    | n + 1, page :: pages =>
      some (page, { pool with lowItems := pages, lowCount := n, count := pool.count - 1 })
    | _, _ => none

/- A page of another order is the `BUG_ON`. -/
def dynamicPagePoolFree (page : Page) : DynamicPagePool :=
  if pool.order = page.order then dynamicPagePoolAdd pool page else pool

def dynamicPagePoolTotal (high : Bool) : Nat :=
  (pool.lowCount + if high then pool.highCount else 0) <<< pool.order

def removeHighFirst : Option (Page × DynamicPagePool) :=
  if pool.highCount ≠ 0 then dynamicPagePoolRemove pool true
  else if pool.lowCount ≠ 0 then dynamicPagePoolRemove pool false
  else none

end

def removeLowFirst (high : Bool) (pool : DynamicPagePool) : Option (Page × DynamicPagePool) :=
  if pool.lowCount ≠ 0 then dynamicPagePoolRemove pool false
  else if high ∧ pool.highCount ≠ 0 then dynamicPagePoolRemove pool true
  else none

/- The loop of `dynamic_page_pool_do_shrink`. Every turn adds at least one to `freed`, so that
`nr` turns are enough. -/
def shrinkLoop (high : Bool) (nr : Int) :
    Nat → Int → DynamicPagePool → List Page → List Page × Int × DynamicPagePool
  | 0, freed, pool, pages => (pages, freed, pool)
  | turns + 1, freed, pool, pages =>
    if freed < nr then
      match removeLowFirst high pool with
      | some (page, pool') =>
        shrinkLoop high nr turns (freed + (1 <<< pool.order : Nat)) pool' (page :: pages)
      | none => (pages, freed, pool)
    else (pages, freed, pool)

/- The loop of the two functions that allocate the largest available page, over the pools of a heap
and their orders; `alloc` is what is left to try if a pool is empty. The flag says that the page
came from there. -/
def allocFromPools (alloc : Nat → Option Page) (size maxOrder : Nat) :
    List Nat → List DynamicPagePool → Option (Page × Bool × List DynamicPagePool)
  | order :: os, pool :: pools =>
    let next := (allocFromPools alloc size maxOrder os pools).map fun r => (r.1, r.2.1, pool :: r.2.2)
    if size < pageSize <<< order ∨ maxOrder < order then next
    else
      match removeHighFirst pool with
      | some (page, pool') => some (page, false, pool' :: pools)
      | none =>
        match alloc order with
        | some page => some (page, true, pool :: pools)
        | none => next
  | _, _ => none

def shrinkPools {σ : Type} (doShrink : Nat → Nat → Int → σ → σ × Int) :
    List (Nat × Nat) → Int → σ → σ
  | [], _, s => s
  | (h, j) :: pools, remaining, s =>
    let r := doShrink h j remaining s
    if remaining - r.2 ≤ 0 then r.1 else shrinkPools doShrink pools (remaining - r.2) r.1

def poolsOfHeap (h : Nat) : List (Nat × Nat) := (List.range orders.length).map fun j => (h, j)

/- The list of all pools has the pool created last in front. -/
def poolList (heaps : Nat) : List (Nat × Nat) := ((List.range heaps).flatMap poolsOfHeap).reverse

def pageToPoolInd (page : Page) : Nat := orders.findIdx (· == page.order)

def putPage (pools : List DynamicPagePool) (page : Page) : List DynamicPagePool :=
  pools.modify (pageToPoolInd page) (dynamicPagePoolFree · page)

def pagesOf (pools : List DynamicPagePool) : List Page := pools.flatMap DynamicPagePool.items

def allPages (poolLists : List (List DynamicPagePool)) : List Page := poolLists.flatMap pagesOf

def putIn (poolLists : List (List DynamicPagePool)) (h : Nat) (page : Page) :
    List (List DynamicPagePool) :=
  match poolLists[h]? with
  | some pools => poolLists.set h (putPage pools page)
  | none => poolLists

def PoolsWf (os : List Nat) (pools : List DynamicPagePool) : Prop :=
  List.Forall₂ (fun order pool => pool.order = order ∧ pool.Wf) os pools

structure Removes (pool : DynamicPagePool) (pages : List Page) (pool' : DynamicPagePool) : Prop where
  order : pool'.order = pool.order
  wf : pool'.Wf
  items : pool.items ~ pages ++ pool'.items

variable {pool pool' : DynamicPagePool} {page : Page} {pools pools' : List DynamicPagePool}

@[simp] theorem bytes_nil : bytes [] = 0 := rfl

theorem bytes_cons (page : Page) (pages : List Page) :
    bytes (page :: pages) = page.size + bytes pages := rfl

theorem bytes_append (xs ys : List Page) : bytes (xs ++ ys) = bytes xs + bytes ys := by
  induction xs with
  | nil => simp
  | cons x xs ih => simp [bytes_cons, ih, Nat.add_assoc]

theorem bytes_perm {xs ys : List Page} (hperm : xs ~ ys) : bytes xs = bytes ys := by
  induction hperm with
  | nil => rfl
  | cons x _ ih => simp [bytes_cons, ih]
  | swap x y l =>
    simp only [bytes_cons]
    omega
  | trans _ _ ih₁ ih₂ => exact ih₁.trans ih₂

variable {size j : Nat} {pages : List Page} {high fresh : Bool} {os : List Nat}
  {alloc : Nat → Option Page}

theorem bytes_of_size (hsize : ∀ page ∈ pages, page.size = size) :
    bytes pages = pages.length * size := by
  induction pages with
  | nil => simp
  | cons page pages ih =>
    rw [bytes_cons, hsize page (by simp), ih fun p hp => hsize p (by simp [hp]), length_cons,
      Nat.succ_mul, Nat.add_comm]

theorem create_wf (order : Nat) : (dynamicPagePoolCreate order).Wf :=
  ⟨rfl, rfl, rfl, by simp [dynamicPagePoolCreate, items]⟩

theorem createPools_wf : PoolsWf orders dynamicPagePoolCreatePools :=
  .cons ⟨rfl, create_wf 9⟩ (.cons ⟨rfl, create_wf 4⟩ (.cons ⟨rfl, create_wf 0⟩ .nil))

theorem pagesOf_createPools : pagesOf dynamicPagePoolCreatePools = [] := rfl

theorem add_order (pool : DynamicPagePool) (page : Page) :
    (dynamicPagePoolAdd pool page).order = pool.order := by
  unfold dynamicPagePoolAdd
  split <;> rfl

theorem add_items (pool : DynamicPagePool) (page : Page) :
    (dynamicPagePoolAdd pool page).items ~ page :: pool.items := by
  unfold dynamicPagePoolAdd DynamicPagePool.items
  split
  · exact append_assoc .. ▸ perm_append_singleton ..
  · simp

theorem add_wf (h : pool.Wf) (hpage : page.order = pool.order) :
    (dynamicPagePoolAdd pool page).Wf := by
  have horder : ∀ p ∈ (dynamicPagePoolAdd pool page).items,
      p.order = (dynamicPagePoolAdd pool page).order := by
    intro p hp
    rw [add_order]
    rcases mem_cons.1 ((add_items pool page).mem_iff.1 hp) with rfl | hp
    · exact hpage
    · exact h.order p hp
  have hhigh := h.high
  have hlow := h.low
  have htotal := h.total
  refine ⟨?_, ?_, ?_, horder⟩
  all_goals
    unfold dynamicPagePoolAdd
    split <;> simp <;> omega

theorem remove_removes (h : pool.Wf) (hr : dynamicPagePoolRemove pool high = some (page, pool')) :
    Removes pool [page] pool' := by
  have hhigh := h.high
  have hlow := h.low
  have htotal := h.total
  have horder := h.order
  cases high with
  | true =>
    cases hn : pool.highCount with
    | zero => simp [dynamicPagePoolRemove, hn] at hr
    | succ n =>
      cases hi : pool.highItems with
      | nil => simp [dynamicPagePoolRemove, hi] at hr
      | cons p ps =>
        simp only [dynamicPagePoolRemove, hn, hi, Option.some.injEq, Prod.mk.injEq] at hr
        obtain ⟨rfl, rfl⟩ := hr
        simp only [items, hi] at horder
        simp only [hi, hn, length_cons] at hhigh htotal
        refine ⟨rfl, ⟨by simp; omega, hlow, by simp; omega, ?_⟩, ?_⟩
        · intro q hq
          exact horder q (by simp only [items] at hq; grind)
        · simp [items, hi]
  | false =>
    cases hn : pool.lowCount with
    | zero => simp [dynamicPagePoolRemove, hn] at hr
    | succ n =>
      cases hi : pool.lowItems with
      | nil => simp [dynamicPagePoolRemove, hi] at hr
      | cons p ps =>
        simp only [dynamicPagePoolRemove, hn, hi, Option.some.injEq, Prod.mk.injEq] at hr
        obtain ⟨rfl, rfl⟩ := hr
        simp only [items, hi] at horder
        simp only [hi, hn, length_cons] at hlow htotal
        refine ⟨rfl, ⟨hhigh, by simp; omega, by simp; omega, ?_⟩, ?_⟩
        · intro q hq
          exact horder q (by simp only [items] at hq; grind)
        · simp [items, hi]

theorem removeHighFirst_removes (h : pool.Wf) (hr : removeHighFirst pool = some (page, pool')) :
    Removes pool [page] pool' := by
  unfold removeHighFirst at hr
  split_ifs at hr <;> exact remove_removes h hr

theorem removeLowFirst_removes (h : pool.Wf) (hr : removeLowFirst high pool = some (page, pool')) :
    Removes pool [page] pool' := by
  unfold removeLowFirst at hr
  split_ifs at hr <;> exact remove_removes h hr

theorem shrinkLoop_removes (high : Bool) (nr : Int) (turns : Nat) (freed : Int)
    (pages : List Page) (h : pool.Wf) :
    ∃ taken, (shrinkLoop high nr turns freed pool pages).1 = taken ++ pages ∧
      (shrinkLoop high nr turns freed pool pages).2.1 =
        freed + taken.length * (1 <<< pool.order : Nat) ∧
      Removes pool taken (shrinkLoop high nr turns freed pool pages).2.2 := by
  induction turns generalizing freed pool pages with
  | zero => exact ⟨[], rfl, by simp [shrinkLoop], rfl, h, .refl _⟩
  | succ turns ih =>
    unfold shrinkLoop
    split
    · cases hr : removeLowFirst high pool with
      | none => exact ⟨[], rfl, by simp, rfl, h, .refl _⟩
      | some r =>
        obtain ⟨page, pool'⟩ := r
        have hrem := removeLowFirst_removes h hr
        obtain ⟨taken, hpages, hfreed, hmore⟩ :=
          ih (freed + (1 <<< pool.order : Nat)) (page :: pages) hrem.wf
        refine ⟨taken ++ [page], by simpa using hpages, ?_, hmore.order.trans hrem.order, hmore.wf, ?_⟩
        · rw [hfreed, hrem.order, length_append, length_singleton]
          grind
        -- the later turns take from what the first turn has left
        · have hswap : [page] ++ taken ~ taken ++ [page] := perm_append_comm
          calc pool.items
            _ ~ [page] ++ pool'.items := hrem.items
            _ ~ [page] ++ (taken ++ _) := hmore.items.append_left _
            _ ~ taken ++ [page] ++ _ := by
              exact hswap.append_right _
    · exact ⟨[], rfl, by simp, rfl, h, .refl _⟩

theorem Removes.pagesOf_perm (h : Removes pool pages pool') (hj : pools[j]? = some pool) :
    pagesOf pools ~ pages ++ pagesOf (pools.set j pool') :=
  flatMap_set_perm hj h.items

theorem poolsWf_set (hwf : PoolsWf os pools) (hj : pools[j]? = some pool)
    (horder : pool'.order = pool.order) (hwf' : pool'.Wf) : PoolsWf os (pools.set j pool') := by
  induction hwf generalizing j with
  | nil => simp at hj
  | cons hhead htail ih =>
    cases j with
    | zero =>
      obtain rfl := Option.some.inj hj
      exact .cons ⟨horder.trans hhead.1, hwf'⟩ htail
    | succ j => exact .cons hhead (ih hj)

theorem Removes.poolsWf (h : Removes pool pages pool') (hj : pools[j]? = some pool)
    (hwf : PoolsWf os pools) : PoolsWf os (pools.set j pool') :=
  poolsWf_set hwf hj h.order h.wf

theorem wf_of_mem (hwf : PoolsWf os pools) (hp : pool ∈ pools) : pool.Wf := by
  induction hwf with
  | nil => simp at hp
  | cons hhead htail ih =>
    rcases mem_cons.1 hp with rfl | hp
    · exact hhead.2
    · exact ih hp

structure Takes (alloc : Nat → Option Page) (size : Nat) (os : List Nat)
    (pools : List DynamicPagePool) (page : Page) (fresh : Bool) (pools' : List DynamicPagePool) :
    Prop where
  order_mem : page.order ∈ os
  fits : page.size ≤ size
  wf : PoolsWf os pools'
  source : if fresh then pools' = pools ∧ alloc page.order = some page
    else pagesOf pools ~ page :: pagesOf pools'

theorem Takes.cons {order : Nat} (h : Takes alloc size os pools page fresh pools')
    (horder : pool.order = order) (hpool : pool.Wf) :
    Takes alloc size (order :: os) (pool :: pools) page fresh (pool :: pools') := by
  refine ⟨mem_cons_of_mem _ h.order_mem, h.fits, .cons ⟨horder, hpool⟩ h.wf, ?_⟩
  have hsource := h.source
  cases fresh with
  | true => simpa using hsource
  | false => simpa [pagesOf] using (hsource.append_left pool.items).trans perm_middle

theorem allocFromPools_takes {maxOrder : Nat} (hwf : PoolsWf os pools)
    (halloc : ∀ order p, alloc order = some p → p.order = order)
    (h : allocFromPools alloc size maxOrder os pools = some (page, fresh, pools')) :
    Takes alloc size os pools page fresh pools' := by
  induction hwf generalizing pools' with
  | nil => simp [allocFromPools] at h
  | @cons order pool os pools hhead htail ih =>
    have hnext : (allocFromPools alloc size maxOrder os pools).map
        (fun r => (r.1, r.2.1, pool :: r.2.2)) = some (page, fresh, pools') →
        Takes alloc size (order :: os) (pool :: pools) page fresh pools' := by
      intro hmap
      obtain ⟨⟨p, f, ps⟩, hr, heq⟩ := Option.map_eq_some_iff.1 hmap
      obtain ⟨rfl, rfl, rfl⟩ : p = page ∧ f = fresh ∧ pool :: ps = pools' := by simpa using heq
      exact (ih hr).cons hhead.1 hhead.2
    unfold allocFromPools at h
    split_ifs at h with hskip
    · exact hnext h
    · have hfits : pageSize <<< order ≤ size := by omega
      split at h
      · next p pool' hr =>
        obtain ⟨rfl, rfl, rfl⟩ : p = page ∧ false = fresh ∧ pool' :: pools = pools' := by simpa using h
        have hrem := removeHighFirst_removes hhead.2 hr
        have horder : p.order = order := by
          have hmem : p ∈ pool.items := hrem.items.mem_iff.2 (by simp)
          exact (hhead.2.order p hmem).trans hhead.1
        refine ⟨by simp [horder], by simpa [Page.size, horder] using hfits,
          .cons ⟨hrem.order.trans hhead.1, hrem.wf⟩ htail, ?_⟩
        simpa [pagesOf] using hrem.items.append_right (pagesOf pools)
      · split at h
        · next p hp =>
          obtain ⟨rfl, rfl, rfl⟩ : p = page ∧ true = fresh ∧ pool :: pools = pools' := by simpa using h
          have horder := halloc order p hp
          exact ⟨by simp [horder], by simpa [Page.size, horder] using hfits, .cons hhead htail,
            by simpa [horder] using hp⟩
        · exact hnext h

/-- The bound on the order is a bound on the size. -/
theorem allocFromPools_min (alloc : Nat → Option Page) (size maxOrder : Nat) (os : List Nat)
    (pools : List DynamicPagePool) :
    allocFromPools alloc (min size (pageSize <<< maxOrder)) maxOrder os pools =
      allocFromPools alloc size maxOrder os pools := by
  have hskip (order : Nat) : (min size (pageSize <<< maxOrder) < pageSize <<< order ∨
      maxOrder < order) ↔ (size < pageSize <<< order ∨ maxOrder < order) := by
    have hmono (h : order ≤ maxOrder) : pageSize <<< order ≤ pageSize <<< maxOrder := by
      simp only [Nat.shiftLeft_eq]
      exact Nat.mul_le_mul_left _ (Nat.pow_le_pow_right (by decide) h)
    omega
  induction os generalizing pools with
  | nil => rfl
  | cons order os ih =>
    cases pools with
    | nil => rfl
    | cons pool pools => simp only [allocFromPools, hskip, ih]

theorem modify_free_spec (hwf : PoolsWf os pools) (hpage : page.order ∈ os) :
    PoolsWf os (pools.modify (os.findIdx (· == page.order)) (dynamicPagePoolFree · page)) ∧
    pagesOf (pools.modify (os.findIdx (· == page.order)) (dynamicPagePoolFree · page)) ~
      page :: pagesOf pools := by
  induction hwf with
  | nil => simp at hpage
  | @cons order pool os pools hhead htail ih =>
    by_cases horder : order = page.order
    · have hfree : dynamicPagePoolFree pool page = dynamicPagePoolAdd pool page :=
        if_pos (hhead.1.trans horder)
      have hadd := add_items pool page
      simp only [findIdx_cons, horder, beq_self_eq_true, cond_true, modify_zero_cons, hfree]
      refine ⟨.cons ⟨(add_order pool page).trans (hhead.1.trans horder), add_wf hhead.2 ?_⟩ htail, ?_⟩
      · rw [← horder, hhead.1]
      · simpa [pagesOf] using hadd.append_right (pagesOf pools)
    · have hne : (order == page.order) = false := by simpa using horder
      obtain ⟨hwf', hperm⟩ := ih (by grind)
      simp only [findIdx_cons, hne, cond_false, modify_succ_cons]
      refine ⟨.cons hhead hwf', ?_⟩
      simpa [pagesOf] using (hperm.append_left pool.items).trans perm_middle

section
variable (hwf : PoolsWf orders pools) (hpage : page.order ∈ orders)
include hwf hpage

theorem putPage_wf : PoolsWf orders (putPage pools page) :=
  (modify_free_spec hwf hpage).1

theorem putPage_perm : pagesOf (putPage pools page) ~ page :: pagesOf pools :=
  (modify_free_spec hwf hpage).2

end

theorem shrinkPools_invariant {σ : Type} {I : σ → Prop} {doShrink : Nat → Nat → Int → σ → σ × Int}
    (hone : ∀ h j nr s, I s → I (doShrink h j nr s).1) (refs : List (Nat × Nat)) (remaining : Int)
    {s : σ} (hs : I s) : I (shrinkPools doShrink refs remaining s) := by
  induction refs generalizing remaining s with
  | nil => exact hs
  | cons ref refs ih =>
    unfold shrinkPools
    dsimp only
    split_ifs
    · exact hone _ _ _ _ hs
    · exact ih _ (hone _ _ _ _ hs)

end MsmKernel.Heaps
