import MsmKernel.Heaps.SecurePageOwnership

/-! Assembly of a secure buffer: the pages that `system_heap_allocate` has collected on two lists
are merged into the table of the buffer and the table that goes to the hypervisor. -/
namespace MsmKernel.Heaps
open MemBuf Custody
open List

/- One turn of `page_list_merge`: the page put in the entry of the buffer's table, the page put in
the entry of the other table, and the lists from the cursors on. A cursor that has passed the last
page is at the list head, and `none` is a turn that takes a list head for a page. -/
def mergeTurn (secure nonSecure : List Page) :
    Option (Option Page × Option Page × List Page × List Page) :=
  if secure ≠ [] ∧ nonSecure ≠ [] then do
    let n ← nonSecure.head?
    let s ← secure.head?
    if n.size ≥ s.size then return (n, n, secure, nonSecure.tail)
    else return (s, none, secure.tail, nonSecure)
  else if nonSecure ≠ [] then do
    let n ← nonSecure.head?
    return (n, n, secure, nonSecure.tail)
  else if secure ≠ [] then do
    let s ← secure.head?
    return (s, none, secure.tail, nonSecure)
  else return (none, none, secure, nonSecure)

/- The loop of `page_list_merge` on tables with `sg` and `nonSecureSg` entries left: it ends with the
first table, which is never empty, and `none` is also a page put behind the end of the second. -/
def mergeTables : Nat → Nat → List Page → List Page → Option (List (Option Page) × List Page)
  | 0, _, _, _ => some ([], [])
  | sg + 1, nonSecureSg, secure, nonSecure => do
    let (page, nonSecurePage, secure, nonSecure) ← mergeTurn secure nonSecure
    match nonSecurePage, nonSecureSg with
    | none, _ =>
      let (table, nonSecureTable) ← mergeTables sg nonSecureSg secure nonSecure
      return (page :: table, nonSecureTable)
    | some n, nonSecureSg + 1 =>
      let (table, nonSecureTable) ← mergeTables sg nonSecureSg secure nonSecure
      return (page :: table, n :: nonSecureTable)
    | some _, 0 => none

theorem mergeTables_eq (ss ns : List Page) :
    mergeTables (ss.length + ns.length) ns.length ss ns =
      some ((pageListMerge (ss.length + ns.length) ss ns).map some, ns) := by
  generalize hlen : ss.length + ns.length = entries
  fun_induction pageListMerge entries ss ns with
  | case1 entries s ss n ns hsize ih => simp [mergeTables, mergeTurn, hsize, ih (by grind)]
  | case2 entries s ss n ns hsize ih =>
    have htail := ih (by grind)
    rw [length_cons] at htail
    simp [mergeTables, mergeTurn, hsize, htail]
  | case3 entries n ns ih => simp [mergeTables, mergeTurn, ih (by grind)]
  | case4 entries s ss ih =>
    have htail := ih (by grind)
    rw [length_nil] at htail
    simp [mergeTables, mergeTurn, htail]
  | case5 entries ss ns => cases ss <;> cases ns <;> cases entries <;> grind [mergeTables]

/- The pages handed out by the page allocator are in one place each, and those of a pool have the
order of the pool. -/
structure Stocked (hands : List Page) (w : World) : Prop where
  wf : ∀ pools ∈ w.poolLists, PoolsWf orders pools
  held : Held w.taken w.held hands

variable {S : Setup} {w w' w₀ : World} {hands secure nonSecure : List Page} {page : Page}
  {h size maxOrder : Nat} {source : Option Nat}

theorem Stocked.fetch (hst : Stocked hands w) (hf : Fetched S w size maxOrder source page w') :
    Stocked (page :: hands) w' := by
  rcases hf.change with ⟨j, pools, pools', -, hpools, hwf, hperm, rfl⟩ | ⟨-, hfresh, rfl⟩
  · refine ⟨fun ps hps => ?_, hst.held.takeOut (held_setPools_perm hpools hperm)⟩
    rcases mem_or_eq_of_mem_set hps with hps | rfl
    · exact hst.wf ps hps
    · exact hwf
  · exact ⟨hst.wf, hst.held.acquire hfresh⟩

def Larger (a b : Page) : Prop := b.size ≤ a.size

theorem pageListMerge_sorted {ss ns : List Page} (hss : ss.Pairwise Larger)
    (hns : ns.Pairwise Larger) :
    (pageListMerge (ss.length + ns.length) ss ns).Pairwise Larger := by
  rw [pageListMerge_eq]
  have htotal (a b : Page) : (decide (b.size ≤ a.size) || decide (a.size ≤ b.size)) = true := by
    simpa using Nat.le_total b.size a.size
  have htrans (a b c : Page) (hab : decide (b.size ≤ a.size) = true)
      (hbc : decide (c.size ≤ b.size) = true) : decide (c.size ≤ a.size) = true := by grind
  have hle {a b : Page} (hl : Larger a b) : decide (b.size ≤ a.size) = true := decide_eq_true hl
  exact (pairwise_merge htrans htotal ns ss (hns.imp hle) (hss.imp hle)).imp of_decide_eq_true

theorem append_sorted {pages : List Page} (hsorted : pages.Pairwise Larger)
    (hle : ∀ p ∈ pages, page.size ≤ p.size) : (pages ++ [page]).Pairwise Larger := by
  refine pairwise_append.2 ⟨hsorted, pairwise_singleton .., fun p hp q hq => ?_⟩
  rw [mem_singleton.1 hq]
  exact hle p hp

/- The pages collected by an allocation that has started in `w₀`. -/
structure Collected (h : Nat) (w₀ : World) (maxOrder : Nat) (secure nonSecure : List Page)
    (w : World) : Prop where
  stocked : Stocked (secure ++ nonSecure) w
  bound : ∀ page ∈ secure ++ nonSecure, pageSize <<< maxOrder ≤ page.size
  secureSorted : secure.Pairwise Larger
  nonSecureSorted : nonSecure.Pairwise Larger
  pools : w₀.poolPages h ~ secure ++ w.poolPages h

namespace Collected

variable (hc : Collected h w₀ maxOrder secure nonSecure w)
include hc

theorem le_of_fetched (hf : Fetched S w size maxOrder source page w') :
    ∀ p ∈ secure ++ nonSecure, page.size ≤ p.size :=
  fun p hp => Nat.le_trans (Nat.le_trans hf.fits (Nat.min_le_right ..)) (hc.bound p hp)

theorem addSecure (hv : (S.secureVmid h).isSome) (hf : Fetched S w size maxOrder (some h) page w') :
    Collected h w₀ page.order (secure ++ [page]) nonSecure w' where
  stocked :=
    have hst := hc.stocked.fetch hf
    ⟨hst.wf, hst.held.reorder (by simpa using perm_middle.symm)⟩
  bound p hp := by
    have hle := hc.le_of_fetched hf
    change page.size ≤ p.size
    grind
  secureSorted := append_sorted hc.secureSorted fun p hp => hc.le_of_fetched hf p (by simp [hp])
  nonSecureSorted := hc.nonSecureSorted
  pools := hc.pools.trans (by simpa using (hf.poolPages hv).append_left secure)

theorem addNonSecure (hv : (S.secureVmid h).isSome) (hf : Fetched S w size maxOrder none page w') :
    Collected h w₀ page.order secure (nonSecure ++ [page]) w' where
  stocked := by
    have hst := hc.stocked.fetch hf
    have hlast : page :: (secure ++ nonSecure) ~ secure ++ nonSecure ++ [page] :=
      (perm_append_singleton page (secure ++ nonSecure)).symm
    exact ⟨hst.wf, hst.held.reorder (by simpa using hlast)⟩
  bound p hp := by
    have hle := hc.le_of_fetched hf
    change page.size ≤ p.size
    grind
  secureSorted := hc.secureSorted
  nonSecureSorted :=
    append_sorted hc.nonSecureSorted fun p hp => hc.le_of_fetched hf p (by simp [hp])
  pools := hc.pools.trans ((hf.poolPages hv).append_left secure)

end Collected

/-- A finished collection of any length is merged without taking a list head for a page or leaving a
table: the buffer's table lists every collected page once, in descending order of size and for the
whole length, and the other table lists those that are not from the pools of the heap. -/
theorem buffer_assembly_exact (S : Setup) (h : Nat) (turns : List Turn) (len : Nat) (w : World)
    (hv : (S.secureVmid h).isSome) (hst : Stocked [] w) :
    let g := gather S h turns len (orders.headD 0) [] [] w
    let totalPages := g.securePages.length + g.nonSecurePages.length
    let sg := pageListMerge totalPages g.securePages g.nonSecurePages
    g.done = true →
      mergeTables totalPages g.nonSecurePages.length g.securePages g.nonSecurePages =
        some (sg.map some, g.nonSecurePages) ∧
      sg ~ g.securePages ++ g.nonSecurePages ∧ sg.Nodup ∧ sg.Pairwise (fun a b => b.size ≤ a.size) ∧
      bytes sg = len ∧ w.poolPages h ~ g.securePages ++ g.world.poolPages h := by
  intro g totalPages sg hdone
  have hempty : Collected h w (orders.headD 0) [] [] w :=
    ⟨hst, by simp, .nil, .nil, .refl _⟩
  obtain ⟨⟨order, hc⟩, hbytes⟩ := gather_rule (fun hc => hc.stocked.wf)
    (fun hc hf => hc.addSecure hv hf) (fun hc hf => hc.addNonSecure hv hf) turns len _ hempty
  have hperm : sg ~ g.securePages ++ g.nonSecurePages := pageListMerge_perm ..
  have hall := hbytes hdone
  simp only [bytes_nil, Nat.zero_add] at hall
  refine ⟨mergeTables_eq .., hperm, hperm.nodup_iff.2 hc.stocked.held.hands_nodup,
    pageListMerge_sorted hc.secureSorted hc.nonSecureSorted, ?_, hc.pools⟩
  rw [bytes_perm hperm, bytes_append]
  exact hall

theorem buffer_assembly_exact_fresh :
    let g := gather twoHeaps 1 [turnOf 1, turnOf 2] 8192 (orders.headD 0) [] [] (initialWorld twoHeaps)
    g.done = true ∧ g.nonSecurePages.length = 2 ∧
      bytes (pageListMerge (g.securePages.length + g.nonSecurePages.length) g.securePages
        g.nonSecurePages) = 8192 := by
  have hinv := initial_inv twoHeaps
  have hdone : (gather twoHeaps 1 [turnOf 1, turnOf 2] 8192 (orders.headD 0) [] []
    (initialWorld twoHeaps)).done = true := by decide +kernel
  refine ⟨hdone, by decide +kernel, ?_⟩
  have hexact := buffer_assembly_exact twoHeaps 1 [turnOf 1, turnOf 2] 8192 _ (by decide)
    ⟨hinv.wf, hinv.held⟩ hdone
  exact hexact.2.2.2.2.1

end MsmKernel.Heaps
