import MsmKernel.Heaps.SecurePageCustody

/-! Page ownership in the secure system heaps over whole runs: allocation, release, prefetching and
shrinking move pages between the places, and three error paths do not. -/
namespace MsmKernel.Heaps
open Run MemBuf Custody
open List

variable {S : Setup} {w w' : World} {hands pages : List Page} {page : Page} {h : Nat} {vmid : Vmid}
  {pools pools' : List DynamicPagePool}

def World.poolPages (w : World) (h : Nat) : List Page := (w.poolLists[h]?.map pagesOf).getD []

open World

structure Turned (S : Setup) (hands : List Page) (w : World) (size : Nat) (source : Option Nat)
    (page : Page) (w' : World) : Prop where
  inv : Inv S (page :: hands) w'
  owner : w'.owner = w.owner
  page_owner : w.owner page = some (source.elim vmidHlos S.vm)
  order_mem : page.order ∈ orders
  fits : page.size ≤ size
  pools : ∀ i, (S.secureVmid i).isSome →
    w.poolPages i ~ (if source = some i then [page] else []) ++ w'.poolPages i

variable {answer : Nat → Option Page} {i size maxOrder : Nat} {fresh shrink : Bool} {env : AllocEnv}
  {kmalloc : Nat → Bool} {regions : List PrefetchRegion}

theorem allocPages_order {order : Nat} (halloc : allocPages w answer order = some page) :
    page.order = order ∧ page ∉ w.taken := by
  simpa using (Option.filter_eq_some_iff.1 halloc).2

theorem poolPages_setPools_self (hpools : w.poolLists[h]? = some pools) :
    (w.setPools h pools').poolPages h = pagesOf pools' := by
  obtain ⟨hlt, -⟩ := List.getElem?_eq_some_iff.1 hpools
  simp [poolPages, setPools, hlt]

theorem poolPages_setPools_ne (hi : h ≠ i) : (w.setPools h pools').poolPages i = w.poolPages i := by
  simp [poolPages, setPools, List.getElem?_set_ne hi]

/- What one page taken for an operation changes: it leaves the pools of `source` or, without one,
those of the system heap or the page allocator. -/
structure Fetched (S : Setup) (w : World) (size maxOrder : Nat) (source : Option Nat) (page : Page)
    (w' : World) : Prop where
  order_mem : page.order ∈ orders
  fits : page.size ≤ min size (pageSize <<< maxOrder)
  change : (∃ i pools pools', (source = some i ∨ source = none ∧ S.heaps[i]? = some none) ∧
      w.poolLists[i]? = some pools ∧ PoolsWf orders pools' ∧
      pagesOf pools ~ [page] ++ pagesOf pools' ∧ w' = w.setPools i pools') ∨
    source = none ∧ page ∉ w.taken ∧ w' = { w with taken := page :: w.taken }

section Fetched
variable {source : Option Nat}

section
variable (hwf : ∀ pools ∈ w.poolLists, PoolsWf orders pools)
include hwf

theorem fetched_of_pools
    (halloc : w.poolLists[h]?.bind (allocFromPools (fun _ => none) size maxOrder orders) = some (page, fresh, pools')) :
    Fetched S w size maxOrder (some h) page (w.setPools h pools') := by
  obtain ⟨pools, hpools, halloc⟩ := Option.bind_eq_some_iff.1 halloc
  rw [← allocFromPools_min] at halloc
  have htakes := allocFromPools_takes (hwf _ (mem_of_getElem? hpools)) (by simp) halloc
  have hsource := htakes.source
  cases fresh with
  | true => simp at hsource
  | false =>
    exact ⟨htakes.order_mem, htakes.fits,
      .inl ⟨h, pools, pools', .inl rfl, hpools, htakes.wf, by simpa using hsource, rfl⟩⟩

theorem fetched_of_sysHeapAlloc (halloc : sysHeapAlloc S w answer size maxOrder = some (page, w')) :
    Fetched S w size maxOrder none page w' := by
  simp only [sysHeapAlloc, Option.bind_eq_bind, Option.bind_eq_some_iff, Option.pure_def,
    Option.some.injEq, Prod.mk.injEq] at halloc
  obtain ⟨sys, hsys, pools, hpools, ⟨p, fresh, pools'⟩, halloc, rfl, rfl⟩ := halloc
  rw [← allocFromPools_min] at halloc
  have htakes := allocFromPools_takes (hwf _ (mem_of_getElem? hpools))
    (fun order p hp => (allocPages_order hp).1) halloc
  refine ⟨htakes.order_mem, htakes.fits, ?_⟩
  have hsource := htakes.source
  cases fresh with
  | false =>
    exact .inl ⟨sys, pools, pools', .inr ⟨rfl, S.sysHeap_system sys hsys⟩, hpools, htakes.wf,
      by simpa using hsource, rfl⟩
  | true =>
    obtain ⟨rfl, hp⟩ : pools' = pools ∧ _ := by simpa using hsource
    have hsame : w.setPools sys pools' = w := by
      obtain ⟨hlt, hget⟩ := List.getElem?_eq_some_iff.1 hpools
      simp [setPools, ← hget]
    rw [hsame]
    exact .inr ⟨rfl, (allocPages_order hp).2, rfl⟩

theorem fetched_of_allocLargestAvailable {secure : Bool}
    (halloc : allocLargestAvailable S w h answer size maxOrder = some (page, secure, w')) :
    Fetched S w size maxOrder (if secure then some h else none) page w' := by
  unfold allocLargestAvailable at halloc
  split_ifs at halloc
  split at halloc
  · next p fresh pools hpools =>
    obtain ⟨rfl, rfl, rfl⟩ : p = page ∧ true = secure ∧ w.setPools h pools = w' := by simpa using halloc
    exact fetched_of_pools hwf hpools
  · obtain ⟨⟨p, w''⟩, hsys, heq⟩ := Option.map_eq_some_iff.1 halloc
    obtain ⟨rfl, rfl, rfl⟩ : p = page ∧ false = secure ∧ w'' = w' := by simpa using heq
    exact fetched_of_sysHeapAlloc hwf hsys

end

theorem Fetched.poolPages (hf : Fetched S w size maxOrder source page w')
    (hi : (S.secureVmid i).isSome) :
    w.poolPages i ~ (if source = some i then [page] else []) ++ w'.poolPages i := by
  rcases hf.change with ⟨j, pools, pools', hsource, hpools, -, hperm, rfl⟩ | ⟨rfl, -, rfl⟩
  · by_cases hj : j = i
    · subst hj
      have hself : source = some j := hsource.resolve_right fun hsys => by
        simp [Setup.secureVmid, hsys.2] at hi
      rw [poolPages_setPools_self hpools, if_pos hself]
      simpa [poolPages, hpools] using hperm
    · have hne : source ≠ some i := by
        rcases hsource with rfl | ⟨rfl, -⟩ <;> simp [hj]
      simp [poolPages_setPools_ne hj, hne]
  · exact .refl _

theorem Turned.of_fetched (hinv : Inv S hands w) (hf : Fetched S w size maxOrder source page w') :
    Turned S hands w size source page w' := by
  have hfits := Nat.le_trans hf.fits (Nat.min_le_left ..)
  have hpages := fun i hi => @hf.poolPages _ _ _ _ i _ _ _ hi
  rcases hf.change with ⟨j, pools, pools', hsource, hpools, hwf, hperm, rfl⟩ | ⟨rfl, hfresh, rfl⟩
  · obtain ⟨hinv', howner⟩ := hinv.takeOut hpools hwf hperm
    refine ⟨hinv', rfl, ?_, hf.order_mem, hfits, hpages⟩
    rw [howner page (by simp)]
    rcases hsource with rfl | ⟨rfl, hsys⟩
    · rfl
    · exact congrArg some (vm_of_system hsys)
  · exact ⟨hinv.acquire hfresh, rfl, hinv.freed page hfresh, hf.order_mem, hfits, hpages⟩

end Fetched

structure InHands (S : Setup) (h : Nat) (secure nonSecure : List Page) (w : World) : Prop where
  inv : Inv S (secure ++ nonSecure) w
  secure : ∀ page ∈ secure, w.owner page = some (S.vm h) ∧ page.order ∈ orders
  nonSecure : ∀ page ∈ nonSecure, w.owner page = some vmidHlos ∧ page.order ∈ orders

variable {secure nonSecure : List Page}

theorem InHands.addSecure (hin : InHands S h secure nonSecure w)
    (ht : Turned S (secure ++ nonSecure) w size (some h) page w') :
    InHands S h (secure ++ [page]) nonSecure w' := by
  have howner := ht.page_owner
  refine ⟨ht.inv.reorder (by simpa using perm_middle.symm), ?_, ?_⟩
  · rw [ht.owner]
    intro p hp
    rcases mem_append.1 hp with hp | hp
    · exact hin.secure p hp
    · obtain rfl := mem_singleton.1 hp
      exact ⟨howner, ht.order_mem⟩
  · rw [ht.owner]
    exact hin.nonSecure

theorem InHands.addNonSecure (hin : InHands S h secure nonSecure w)
    (ht : Turned S (secure ++ nonSecure) w size none page w') :
    InHands S h secure (nonSecure ++ [page]) w' := by
  have howner := ht.page_owner
  have hlast : page :: (secure ++ nonSecure) ~ secure ++ nonSecure ++ [page] := by
    simpa using (perm_append_singleton page (secure ++ nonSecure)).symm
  refine ⟨ht.inv.reorder (by simpa using hlast), ?_, ?_⟩
  · rw [ht.owner]
    exact hin.secure
  · rw [ht.owner]
    intro p hp
    rcases mem_append.1 hp with hp | hp
    · exact hin.nonSecure p hp
    · obtain rfl := mem_singleton.1 hp
      exact ⟨howner, ht.order_mem⟩

theorem gather_rule {I : Nat → List Page → List Page → World → Prop}
    (hwf : ∀ {m ss ns w}, I m ss ns w → ∀ pools ∈ w.poolLists, PoolsWf orders pools)
    (hsecure : ∀ {m ss ns w size page w'}, I m ss ns w → Fetched S w size m (some h) page w' →
      I page.order (ss ++ [page]) ns w')
    (hnon : ∀ {m ss ns w size page w'}, I m ss ns w → Fetched S w size m none page w' →
      I page.order ss (ns ++ [page]) w')
    (turns : List Turn) (size maxOrder : Nat) (hI : I maxOrder secure nonSecure w) :
    let g := gather S h turns size maxOrder secure nonSecure w
    (∃ m, I m g.securePages g.nonSecurePages g.world) ∧ (g.done = true →
      bytes g.securePages + bytes g.nonSecurePages = bytes secure + bytes nonSecure + size) := by
  induction turns generalizing size maxOrder secure nonSecure w with
  | nil => exact ⟨⟨_, hI⟩, fun hdone => by simp_all [gather]⟩
  | cons turn turns ih =>
    unfold gather
    split_ifs with hsize hsignal
    · exact ⟨⟨_, hI⟩, fun _ => by simp [hsize]⟩
    · exact ⟨⟨_, hI⟩, by simp⟩
    · split
      · exact ⟨⟨_, hI⟩, by simp⟩
      · next p w' halloc =>
        have hf := fetched_of_allocLargestAvailable (hwf hI) halloc
        have hfits := hf.fits
        obtain ⟨hI', hdone⟩ := ih (size - p.size) p.order (hsecure hI hf)
        simp only [bytes_append, bytes_cons, bytes_nil] at hdone
        exact ⟨hI', fun hd => by have := hdone hd; omega⟩
      · next p w' halloc =>
        have hf := fetched_of_allocLargestAvailable (hwf hI) halloc
        have hfits := hf.fits
        obtain ⟨hI', hdone⟩ := ih (size - p.size) p.order (hnon hI hf)
        simp only [bytes_append, bytes_cons, bytes_nil] at hdone
        exact ⟨hI', fun hd => by have := hdone hd; omega⟩

/-- The allocation loop keeps what it has gathered; a finished one has gathered the whole size, and
the secure pages came out of the pools of the heap. -/
theorem gather_spec (hv : S.secureVmid h = some vmid) (turns : List Turn) (len maxOrder : Nat)
    (hinv : Inv S [] w) :
    let g := gather S h turns len maxOrder [] [] w
    InHands S h g.securePages g.nonSecurePages g.world ∧
    w.poolPages h ~ g.securePages ++ g.world.poolPages h ∧
    (g.done = true → bytes g.securePages + bytes g.nonSecurePages = len) := by
  have hsome : (S.secureVmid h).isSome := by simp [hv]
  have hempty : InHands S h [] [] w := ⟨hinv, by simp, by simp⟩
  obtain ⟨⟨m, hin, hpools⟩, hdone⟩ := gather_rule
    (I := fun _ ss ns w' => InHands S h ss ns w' ∧ w.poolPages h ~ ss ++ w'.poolPages h)
    (fun hI => hI.1.inv.wf)
    (fun hI hf => ⟨hI.1.addSecure (.of_fetched hI.1.inv hf),
      hI.2.trans (by simpa using (hf.poolPages hsome).append_left _)⟩)
    (fun hI hf => ⟨hI.1.addNonSecure (.of_fetched hI.1.inv hf),
      hI.2.trans ((hf.poolPages hsome).append_left _)⟩)
    turns len maxOrder ⟨hempty, .refl _⟩
  exact ⟨hin, hpools, by simpa using hdone⟩

theorem getPoolSizeBytes_eq {os : List Nat} (hwf : PoolsWf os pools) :
    getPoolSizeBytes pools = bytes (pagesOf pools) := by
  induction hwf with
  | nil => rfl
  | @cons order pool os pools hhead htail ih =>
    have hitems : bytes pool.items = pool.items.length * (pageSize <<< pool.order) :=
      bytes_of_size fun p hp => by rw [Page.size, hhead.2.order p hp]
    have htotal : dynamicPagePoolTotal pool true * pageSize = bytes pool.items := by
      rw [hitems, dynamicPagePoolTotal, if_pos rfl, hhead.2.low, hhead.2.high, Nat.shiftLeft_eq,
        Nat.shiftLeft_eq, DynamicPagePool.items, length_append, Nat.mul_assoc,
        Nat.mul_comm pageSize]
    rw [getPoolSizeBytes, htotal, ih, ← bytes_append]
    rfl

theorem freeBuffer_inv {hypRet : Option Errno} (hinv : Inv S (secure ++ nonSecure) w)
    (hh : h < S.heaps.length)
    (hsecure : ∀ page ∈ secure, w.owner page = some (S.vm h) ∧ page.order ∈ orders)
    (hnon : hypRet = none → ∀ page ∈ nonSecure, w.owner page = some vmidHlos) :
    Inv S [] (freeBuffer w h secure nonSecure hypRet) := by
  have hput : Inv S (nonSecure ++ []) (w.putAll h secure) := by
    simpa using hinv.putAll hh hsecure
  cases hypRet with
  | none => exact hput.freePages (by simpa using hnon rfl)
  | some e => exact hput.leak

def AllocateOk (w : World) (h len : Nat) (env : AllocEnv) : Prop :=
  env.vmperm = false ∨ env.dmabuf = false → getPoolSizeBytes (w.poolLists[h]?.getD []) < len

theorem hypAssign_keeps (hinv : Inv S (secure ++ nonSecure) w)
    (hsecure : ∀ page ∈ secure, w.owner page = some (S.vm h) ∧ page.order ∈ orders)
    (dest : Vmid) (ret : Option Errno) :
    Inv S (secure ++ nonSecure) (hypAssign w nonSecure dest ret) ∧
    ∀ page ∈ secure, (hypAssign w nonSecure dest ret).owner page = some (S.vm h) ∧
      page.order ∈ orders := by
  have hswap : secure ++ nonSecure ~ nonSecure ++ secure := perm_append_comm
  refine ⟨((hinv.reorder hswap).hypAssign dest ret).reorder hswap.symm, fun page hp => ?_⟩
  have hapart : page ∉ nonSecure := fun hn =>
    (nodup_append.1 hinv.held.hands_nodup).2.2 page hp page hn rfl
  exact ⟨(if_neg hapart).trans (hsecure page hp).1, (hsecure page hp).2⟩

theorem hypUnassign_inv {ret : Option Errno} (hh : h < S.heaps.length)
    (hinv : Inv S (secure ++ nonSecure) w) (hnon : nonSecure ≠ [])
    (hsecure : ∀ page ∈ secure, w.owner page = some (S.vm h) ∧ page.order ∈ orders) :
    Inv S [] (hypUnassign w h secure nonSecure ret) := by
  obtain ⟨hinv', hsecure'⟩ := hypAssign_keeps hinv hsecure vmidHlos ret
  unfold hypUnassign
  rw [if_neg hnon]
  refine freeBuffer_inv hinv' hh hsecure' fun hret p hp => ?_
  rw [hret]
  exact hypAssign_owner_ok hp vmidHlos

theorem pageListMerge_eq (ss ns : List Page) :
    pageListMerge (ss.length + ns.length) ss ns = ns.merge ss fun n s => s.size ≤ n.size := by
  generalize hlen : ss.length + ns.length = entries
  fun_induction pageListMerge entries ss ns with
  | case1 entries s ss n ns hsize ih => simp [hsize, ih (by grind)]
  | case2 entries s ss n ns hsize ih => simp [hsize, ih (by grind)]
  | case3 entries n ns ih => simp [ih (by grind)]
  | case4 entries s ss ih => simp [ih (by grind)]
  | case5 entries ss ns => cases ss <;> cases ns <;> cases entries <;> grind [List.merge]

theorem pageListMerge_perm (ss ns : List Page) :
    pageListMerge (ss.length + ns.length) ss ns ~ ss ++ ns := by
  rw [pageListMerge_eq]
  exact (merge_perm_append ..).trans perm_append_comm

theorem exportBuffer_inv (hin : InHands S h secure nonSecure w) (hv : S.secureVmid h = some vmid)
    (hok : env.vmperm = false ∨ env.dmabuf = false → nonSecure ≠ []) :
    Inv S [] (exportBuffer w h vmid secure nonSecure env) := by
  have hh := lt_of_secureVmid hv
  have hvm := vm_of_secureVmid hv
  unfold exportBuffer
  generalize (if nonSecure = [] then none else env.assign) = assignRet
  obtain ⟨hinv, hsecure⟩ := hypAssign_keeps hin.inv hin.secure vmid assignRet
  cases assignRet with
  | some e =>
    refine freeBuffer_inv hinv hh hsecure fun hret p hp => ?_
    have he : e ≠ EADDRNOTAVAIL := by
      rintro rfl
      simp at hret
    rw [hypAssign_owner_error he]
    exact (hin.nonSecure p hp).1
  | none =>
    split_ifs with hfail
    · exact hypUnassign_inv hh hinv (hok hfail) hsecure
    · refine hinv.publish hv (pageListMerge_perm ..) fun p hp => ?_
      rcases mem_append.1 hp with hp | hp
      · exact hvm ▸ hsecure p hp
      · exact ⟨hypAssign_owner_ok hp vmid, (hin.nonSecure p hp).2⟩

theorem allocate_inv {len : Nat} (hinv : Inv S [] w) (hv : S.secureVmid h = some vmid)
    (hok : AllocateOk w h len env) : Inv S [] (systemHeapAllocate S w h vmid len env) := by
  have hg := gather_spec hv env.turns len (orders.headD 0) hinv
  unfold systemHeapAllocate
  split_ifs with hkzalloc
  · exact hinv
  obtain ⟨hin, htook, hdone⟩ := hg
  dsimp only
  split_ifs with hearly
  · exact freeBuffer_inv hin.inv (lt_of_secureVmid hv) hin.secure fun _ p hp => (hin.nonSecure p hp).1
  · refine exportBuffer_inv hin hv fun hfail hnon => ?_
    have hsmall := hok hfail
    have hlt : h < w.poolLists.length := hinv.shape ▸ lt_of_secureVmid hv
    have hpools : w.poolLists[h]? = some w.poolLists[h] := List.getElem?_eq_getElem hlt
    have hbytes : getPoolSizeBytes (w.poolLists[h]?.getD []) = bytes (w.poolPages h) := by
      simpa [poolPages, hpools] using getPoolSizeBytes_eq (hinv.wf _ (getElem_mem hlt))
    have hall := hdone (by grind)
    have hpages := bytes_perm htook
    rw [hnon] at hall
    rw [bytes_append] at hpages
    simp only [bytes_nil] at hall
    omega

theorem systemHeapFree_inv (hinv : Inv S [] w) (i : Nat) : Inv S [] (systemHeapFree w i) := by
  unfold systemHeapFree
  split
  · next buffer hb =>
    obtain ⟨vmid, hv, hpages⟩ := hinv.live buffer (mem_of_getElem? hb)
    refine (hinv.unpublish hb).putAll (lt_of_secureVmid hv) fun page hp => ?_
    rw [vm_of_secureVmid hv]
    exact hpages page hp
  · exact hinv

theorem releasePages_inv {freed : Int} {env : ReleaseEnv} (hinv : Inv S (pages ++ []) w)
    (howner : ∀ page ∈ pages, w.owner page = some (S.vm h)) (hnone : freed = 0 → pages = []) :
    Inv S [] (releasePages (S.secureVmid h).isSome w pages freed env).1 := by
  unfold releasePages
  split_ifs with hcallback
  · unfold freeSecurePages
    split_ifs with htable
    · exact hinv.leak
    · have hassign := hinv.hypAssign vmidHlos env.unassign
      cases hret : env.unassign with
      | none => exact (hret ▸ hassign).freePages fun page hp => hypAssign_owner_ok hp vmidHlos
      | some e => exact (hret ▸ hassign).leak
  · refine hinv.freePages fun page hp => ?_
    -- without the callback the pages are those of a system heap
    have hsecure : S.secureVmid h = none := by
      by_contra hsome
      have hfreed : freed = 0 := by
        by_contra hne
        exact hcallback ⟨hne, Option.isSome_iff_ne_none.2 hsome⟩
      simp [hnone hfreed] at hp
    simpa [Setup.vm, hsecure] using howner page hp

theorem doShrink_inv {j : Nat} {high : Bool} {nr : Int} {env : ReleaseEnv} (hinv : Inv S [] w) :
    Inv S [] (dynamicPagePoolDoShrink S w h j high nr env).1 := by
  unfold dynamicPagePoolDoShrink
  split
  · exact hinv
  · next pools hpools =>
    split
    · exact hinv
    · next pool hpool =>
      split_ifs
      · exact hinv
      have hwf := hinv.wf pools (mem_of_getElem? hpools)
      obtain ⟨taken, htaken, hfreed, hrem⟩ := shrinkLoop_removes high nr nr.toNat 0 []
        (wf_of_mem hwf (mem_of_getElem? hpool))
      obtain ⟨hinv', howner⟩ :=
        hinv.takeOut hpools (hrem.poolsWf hpool hwf) (hrem.pagesOf_perm hpool)
      rw [append_nil] at htaken
      refine releasePages_inv (htaken ▸ hinv') (htaken ▸ howner) fun hzero => ?_
      have hpos : 0 < 1 <<< pool.order := by simp [Nat.shiftLeft_eq, Nat.two_pow_pos]
      rw [hzero, Int.zero_add] at hfreed
      have hlength : taken.length = 0 := by
        rcases Int.mul_eq_zero.1 hfreed.symm with hl | hl <;> omega
      rw [htaken, length_eq_zero_iff.1 hlength]

theorem getPagesLoop_spec (turns : List Turn) (size maxOrder : Nat) (hin : InHands S h [] pages w) :
    InHands S h [] (getPagesLoop S turns size maxOrder pages w).2.1
      (getPagesLoop S turns size maxOrder pages w).2.2 := by
  induction turns generalizing size maxOrder pages w with
  | nil => exact hin
  | cons turn turns ih =>
    unfold getPagesLoop
    split_ifs
    · exact hin
    · split
      · exact hin
      · next page w' halloc => exact ih _ _ (hin.addNonSecure
        (.of_fetched hin.inv (fetched_of_sysHeapAlloc hin.inv.wf halloc)))

theorem getPages_spec {turns : List Turn} {table : Bool} (hinv : Inv S [] w) :
    match getPages S w size turns table with
    | (none, w') => Inv S [] w'
    | (some pages, w') => InHands S h [] pages w' := by
  have hempty : InHands S h [] [] w := ⟨hinv, by simp, by simp⟩
  have hin := getPagesLoop_spec turns size (orders.headD 0) hempty
  unfold getPages
  generalize getPagesLoop S turns size (orders.headD 0) [] w = r at hin ⊢
  dsimp only
  split_ifs
  · have hpages : Inv S (r.2.1 ++ []) r.2.2 := by simpa using hin.inv
    exact hpages.freePages fun page hp => (hin.nonSecure page hp).1
  · exact hin

theorem processOnePrefetch_inv {info : PrefetchInfo} {env : WorkEnv} (hinv : Inv S [] w)
    (hv : S.secureVmid info.heap = some vmid) (hok : env.assign ≠ some EADDRNOTAVAIL) :
    Inv S [] (processOnePrefetch S w info vmid env) := by
  have hget := @getPages_spec S w info.heap info.size env.turns env.table hinv
  unfold processOnePrefetch
  generalize getPages S w info.size env.turns env.table = r at hget ⊢
  obtain ⟨got, w'⟩ := r
  cases got with
  | none => exact hget
  | some pages =>
    have hpages : Inv S (pages ++ []) w' := by simpa using hget.inv
    have hassign := hpages.hypAssign vmid env.assign
    cases hret : env.assign with
    | none =>
      refine (hret ▸ hassign).putAll (lt_of_secureVmid hv) fun page hp => ?_
      rw [vm_of_secureVmid hv]
      exact ⟨hypAssign_owner_ok hp vmid, (hget.nonSecure page hp).2⟩
    | some e =>
      refine (hret ▸ hassign).freePages fun page hp => ?_
      have he : e ≠ EADDRNOTAVAIL := by
        rintro rfl
        exact hok hret
      rw [hypAssign_owner_error he]
      exact (hget.nonSecure page hp).1

theorem resizeLoop_spec {first : Nat} {found : Bool} {items items' : List PrefetchInfo}
    (hloop : resizeLoop S first shrink kmalloc regions i found items = some items') :
    ∀ info ∈ items', info ∈ items ∨
      (found = true ∨ (S.secureVmid first).isSome) ∧ ∃ region ∈ regions, info.heap = region.heap := by
  induction regions generalizing i found items with
  | nil =>
    obtain rfl := Option.some.inj hloop
    exact fun info hi => .inl hi
  | cons region regions ih =>
    unfold resizeLoop at hloop
    dsimp only at hloop
    split_ifs at hloop with hfail
    have hfound : found = true ∨ (S.secureVmid first).isSome := by
      by_contra hne
      exact hfail (.inl (by simpa using hne))
    intro info hi
    rcases ih hloop info hi with hi | ⟨-, r, hr, heq⟩
    · rcases mem_append.1 hi with hi | hi
      · exact .inl hi
      · obtain rfl := mem_singleton.1 hi
        exact .inr ⟨hfound, region, by simp, rfl⟩
    · exact .inr ⟨hfound, r, by simp [hr], heq⟩

def ResizeOk (S : Setup) (regions : List PrefetchRegion) : Prop :=
  ∀ first ∈ regions.head?, (S.secureVmid first.heap).isSome →
    ∀ region ∈ regions, (S.secureVmid region.heap).isSome

theorem resize_inv (hinv : Inv S [] w) (hok : ResizeOk S regions) :
    Inv S [] (resize S w regions shrink kmalloc) := by
  unfold resize
  split_ifs
  · exact hinv
  split
  · next items hloop =>
    refine { hinv with queued := fun info hi => ?_ }
    rcases mem_append.1 hi with hi | hi
    · exact hinv.queued info hi
    rcases resizeLoop_spec hloop info hi with hi | ⟨hfirst, region, hr, heq⟩
    · simp at hi
    cases regions with
    | nil => simp at hr
    | cons first regions =>
      rw [heq]
      exact hok first rfl (by simpa using hfirst) region hr
  · exact hinv

def StepOk (S : Setup) (w : World) : Event → Prop
  | .allocate h len env => AllocateOk w h len env
  | .resize regions _ _ => ResizeOk S regions
  | .work env => env.assign ≠ some EADDRNOTAVAIL
  | _ => True

theorem systemPut_inv (hinv : Inv S [] w) (hsys : S.heaps[h]? = some none)
    (horder : page.order ∈ orders) (hfresh : page ∉ w.taken) :
    Inv S [] ({ w with taken := page :: w.taken }.put h page) := by
  have howner := hinv.freed page hfresh
  have hlt : h < S.heaps.length := (List.getElem?_eq_some_iff.1 hsys).1
  exact (hinv.acquire hfresh).put hlt (by rw [vm_of_system hsys]; exact howner) horder

theorem systemTake_inv (hinv : Inv S [] w) (hsys : S.heaps[h]? = some none)
    (halloc : w.poolLists[h]?.bind (allocFromPools (fun _ => none) size maxOrder orders) =
      some (page, fresh, pools)) : Inv S [] ((w.setPools h pools).freePages [page]) := by
  have ht := Turned.of_fetched hinv (fetched_of_pools hinv.wf halloc)
  have howner : w.owner page = some (S.vm h) := ht.page_owner
  rw [vm_of_system hsys] at howner
  exact ht.inv.freePages fun p hp => mem_singleton.1 hp ▸ howner

theorem step_inv (w : World) (e : Event) (w' : World) (hinv : Inv S [] w) (hok : StepOk S w e)
    (hstep : step S w e = some w') : Inv S [] w' := by
  cases e <;> try obtain rfl := Option.some.inj hstep
  case allocate h len env =>
    obtain ⟨vmid, hv, rfl⟩ := Option.map_eq_some_iff.1 hstep
    exact allocate_inv hinv hv hok
  case free i => exact systemHeapFree_inv hinv i
  case resize regions shrink kmalloc => exact resize_inv hinv hok
  case work env =>
    simp only [step] at hstep
    split at hstep
    · obtain rfl := Option.some.inj hstep
      exact hinv
    · next info infos hlist =>
      obtain ⟨vmid, hv, rfl⟩ := Option.map_eq_some_iff.1 hstep
      have hpopped : Inv S [] { w with prefetchList := infos } :=
        { hinv with queued := fun i hi => hinv.queued i (by simp [hlist, hi]) }
      split_ifs
      · exact shrinkPools_invariant (fun _ _ _ _ hw => doShrink_inv hw) _ _ hpopped
      · exact processOnePrefetch_inv hpopped hv hok
  case shrink high nr env =>
    unfold dynamicPagePoolShrink
    split_ifs
    · exact hinv
    · exact shrinkPools_invariant (fun _ _ _ _ hw => doShrink_inv hw) _ _ hinv
  case systemPut h page =>
    simp only [step] at hstep
    split_ifs at hstep with hguard
    obtain rfl := Option.some.inj hstep
    exact systemPut_inv hinv hguard.1 hguard.2.1 hguard.2.2
  case systemTake h size maxOrder =>
    simp only [step] at hstep
    split_ifs at hstep with hsys
    split at hstep
    · next page fresh pools halloc =>
      obtain rfl := Option.some.inj hstep
      exact systemTake_inv hinv hsys halloc
    · obtain rfl := Option.some.inj hstep
      exact hinv

theorem initial_inv (S : Setup) : Inv S [] (initialWorld S) := by
  have hpools : ∀ pools ∈ (initialWorld S).poolLists, pools = dynamicPagePoolCreatePools := by
    simp [initialWorld]
  have hall : allPages (initialWorld S).poolLists = [] := by
    refine flatMap_eq_nil_iff.2 fun pools hp => ?_
    rw [hpools pools hp, pagesOf_createPools]
  have hheld : (initialWorld S).held = [] := by
    rw [held, hall]
    rfl
  refine ⟨by simp [initialWorld], fun pools hp => hpools pools hp ▸ createPools_wf,
    ⟨nodup_nil, by rw [hheld]; rfl⟩, ?_, by simp [initialWorld], fun _ _ => rfl, rfl,
    by simp [initialWorld]⟩
  intro h pools hp page hpage
  rw [hpools pools (mem_of_getElem? hp), pagesOf_createPools] at hpage
  simp at hpage

/-- In a run whose prefetches meet no unknown ownership, whose requests name secure heaps only, and
whose exports only fail for buffers that the pools of the heap could not have served alone, every
page is in one place and assigned to the VM of that place. -/
theorem secure_heap_pages_safe (S : Setup) (es : List Event) (w : World)
    (hok : Along (step S) (StepOk S) (initialWorld S) es)
    (hrun : run (step S) (initialWorld S) es = some w) : PagesSafe S w :=
  (run_invariant step_inv (initial_inv S) hok hrun).pagesSafe

/-- In the same runs the counters and the page orders of every pool are right. -/
theorem secure_pools_counted (S : Setup) (es : List Event) (w : World)
    (hok : Along (step S) (StepOk S) (initialWorld S) es)
    (hrun : run (step S) (initialWorld S) es = some w) :
    ∀ pools ∈ w.poolLists, PoolsWf orders pools :=
  (run_invariant step_inv (initial_inv S) hok hrun).wf

instance (S : Setup) (w : World) (e : Event) : Decidable (StepOk S w e) := by
  cases e <;> (dsimp only [StepOk, AllocateOk, ResizeOk]; infer_instance)

def twoHeaps : Setup := ⟨[none, some 0x9], some 0, by rintro h ⟨⟩; rfl⟩

def smallPage (id : Nat) : Page := { id, order := 0 }

def turnOf (id : Nat) : Turn := ⟨false, fun _ => some (smallPage id)⟩

def releaseOk : Nat → Nat → ReleaseEnv := fun _ _ => ⟨true, none⟩

def prefetchedRun : List Event :=
  [.resize [⟨1, 1⟩] false fun _ => true,
    .work ⟨[turnOf 1], true, none, releaseOk⟩,
    .allocate 1 8192 ⟨true, [turnOf 2, turnOf 2], true, true, none, true, true, none⟩]

theorem secure_heap_pages_safe_prefetched :
    ∃ w, run (step twoHeaps) (initialWorld twoHeaps) prefetchedRun = some w ∧
      w.buffers.map (·.pages) = [[smallPage 2, smallPage 1]] ∧ PagesSafe twoHeaps w :=
  exists_run_and (by decide +kernel) fun w hrun _ =>
    secure_heap_pages_safe twoHeaps prefetchedRun w (by decide +kernel) hrun

theorem secure_pools_counted_prefetched :
    ∃ w, run (step twoHeaps) (initialWorld twoHeaps) prefetchedRun = some w ∧ w.buffers ≠ [] ∧
      ∀ pools ∈ w.poolLists, PoolsWf orders pools :=
  exists_run_and (by decide +kernel) fun w hrun _ =>
    secure_pools_counted twoHeaps prefetchedRun w (by decide +kernel) hrun

def unknownOwnerRun : List Event :=
  [.resize [⟨1, 1⟩] false fun _ => true, .work ⟨[turnOf 1], true, some EADDRNOTAVAIL, releaseOk⟩]

def noTableRun : List Event :=
  [.resize [⟨1, 1⟩] false fun _ => true,
    .work ⟨[turnOf 1], true, none, releaseOk⟩,
    .allocate 1 4096 ⟨true, [turnOf 2], true, true, none, false, true, none⟩]

def mixedRegionsRun : List Event := [.resize [⟨1, 1⟩, ⟨1, 0⟩] false fun _ => true]

/-- A page of unknown ownership is given back to the page allocator, a table that was never set up
is passed to the hypervisor, and a request is queued for a heap that is not a secure one. -/
theorem secure_heap_error_paths :
    (∃ w, run (step twoHeaps) (initialWorld twoHeaps) unknownOwnerRun = some w ∧
      smallPage 1 ∉ w.taken ∧ w.owner (smallPage 1) = none) ∧
    (∃ w, run (step twoHeaps) (initialWorld twoHeaps) noTableRun = some w ∧
      w.uninitialised = true) ∧
    (∃ w, run (step twoHeaps) (initialWorld twoHeaps) mixedRegionsRun = some w ∧
      ∃ info ∈ w.prefetchList, twoHeaps.secureVmid info.heap = none) :=
  ⟨exists_run_of_map (by decide +kernel), exists_run_of_map (by decide +kernel),
    exists_run_of_map (by decide +kernel)⟩

end MsmKernel.Heaps
