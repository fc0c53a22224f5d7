import MsmKernel.Heaps.SystemHeap

/-! The system heaps hand out zeroed pages only and lose none: every page that the page allocator has
handed out is in one place, and whatever is in a pool is zero. -/
namespace MsmKernel.Heaps.System
open Run Custody
open List

variable {w w' : World} {hands pages : List Page} {page : Page} {h : Nat}
  {pools pools' : List DynamicPagePool}

def ZeroPage (data : Page → Nat → Nat) (page : Page) : Prop :=
  ∀ i < basePages page, data page i = 0

def World.held (w : World) : List Page :=
  allPages w.poolLists ++ (w.buffers ++ w.freeList).flatMap SgBuffer.pages

structure Inv (hands : List Page) (w : World) : Prop where
  wf : ∀ pools ∈ w.poolLists, PoolsWf orders pools
  held : Held w.taken w.held hands
  refs : ∀ page ∈ w.taken, w.refs page = if page.movable then 2 else 1
  pooled : ∀ page ∈ allPages w.poolLists, ZeroPage w.data page ∧ page.movable = false
  buffers : ∀ buffer ∈ w.buffers ++ w.freeList, buffer.heap < w.poolLists.length ∧
    bytes buffer.pages = buffer.len ∧ ∀ page ∈ buffer.pages, page.order ∈ orders

def World.without (w : World) (page : Page) : World :=
  { w with
    taken := w.taken.erase page
    refs := fun p => if p = page then 0 else w.refs p }

theorem dropRef_last (hrefs : w.refs page = 1) : w.dropRef page = w.without page := by
  unfold World.dropRef World.without
  rw [if_pos hrefs]
  congr 1
  funext p
  split_ifs with hp
  · rw [hp, hrefs]
  · rfl

/-- Two references are dropped for a pinned page and one for another, which are all there are. -/
theorem freePage_eq (hrefs : w.refs page = if page.movable then 2 else 1) :
    w.freePage page = w.without page := by
  unfold World.freePage
  split_ifs at hrefs ⊢ with hm
  · have hfirst : (w.dropRef page).refs page = 1 := by simp [World.dropRef, hrefs]
    rw [dropRef_last hfirst]
    unfold World.dropRef World.without
    rw [if_neg (by omega)]
    congr 1
    funext p
    split_ifs with hp
    · rfl
    · exact if_neg hp
  · exact dropRef_last hrefs

namespace Inv

theorem reorder (hinv : Inv hands w) (hperm : hands ~ pages) : Inv pages w :=
  { hinv with held := hinv.held.reorder hperm }

theorem without (hinv : Inv (page :: hands) w) : Inv hands (w.without page) where
  wf := hinv.wf
  held := by
    have hheld : Held w.taken w.held ([page] ++ hands) := hinv.held
    have hout := hheld.release
    rwa [diff_cons, diff_nil] at hout
  refs p hp := by
    obtain ⟨hne, hp⟩ := hinv.held.nodup.mem_erase_iff.1 hp
    exact (if_neg hne).trans (hinv.refs p hp)
  pooled := hinv.pooled
  buffers := hinv.buffers

theorem freePage (hinv : Inv (page :: hands) w) : Inv hands (w.freePage page) := by
  have hin : page ∈ w.taken := hinv.held.mem_out.2 (.inr (by simp))
  rw [freePage_eq (hinv.refs page hin)]
  exact hinv.without

theorem freeAll (hinv : Inv (pages ++ hands) w) : Inv hands (pages.foldl World.freePage w) := by
  induction pages generalizing w with
  | nil => exact hinv
  | cons page pages ih => exact ih hinv.freePage

theorem dropAll (hinv : Inv (pages ++ hands) w) (hm : ∀ page ∈ pages, page.movable = false) :
    Inv hands (pages.foldl World.dropRef w) := by
  induction pages generalizing w with
  | nil => exact hinv
  | cons page pages ih =>
    have hdrop : w.dropRef page = w.freePage page := by simp [World.freePage, hm page (by simp)]
    refine ih ?_ fun p hp => hm p (by simp [hp])
    rw [hdrop]
    exact freePage hinv

theorem takePage (hinv : Inv hands w) (hfresh : page ∉ w.taken) :
    Inv (page :: hands) (w.takePage page) ∧ ZeroPage (w.takePage page).data page := by
  have hnew : ∀ p, ZeroPage w.data p → ZeroPage (w.takePage page).data p := by
    intro p hz i hi
    simp only [World.takePage]
    split_ifs with hp
    · rfl
    · exact hz i hi
  refine ⟨⟨hinv.wf, hinv.held.acquire hfresh, ?_, ?_, hinv.buffers⟩, fun i _ => by simp [World.takePage]⟩
  · intro p hp
    rcases mem_cons.1 hp with rfl | hp
    · exact if_pos rfl
    · have hne : p ≠ page := fun heq => hfresh (heq ▸ hp)
      exact (if_neg hne).trans (hinv.refs p hp)
  · intro p hp
    exact ⟨hnew p (hinv.pooled p hp).1, (hinv.pooled p hp).2⟩

theorem setPools {hands' : List Page} (hinv : Inv hands w) (hwf : PoolsWf orders pools')
    (hheld : Held w.taken (w.setPools h pools').held hands')
    (hpooled : ∀ page ∈ allPages (w.poolLists.set h pools'), ZeroPage w.data page ∧ page.movable = false) :
    Inv hands' (w.setPools h pools') where
  wf pools hp := by
    rcases mem_or_eq_of_mem_set hp with hp | rfl
    · exact hinv.wf pools hp
    · exact hwf
  held := hheld
  refs := hinv.refs
  pooled := hpooled
  buffers buffer hb := by simpa [World.setPools] using hinv.buffers buffer hb

theorem takeOut (hinv : Inv hands w) (hpools : w.poolLists[h]? = some pools)
    (hwf : PoolsWf orders pools') (hperm : pagesOf pools ~ pages ++ pagesOf pools') :
    Inv (pages ++ hands) (w.setPools h pools') ∧
      ∀ page ∈ pages, ZeroPage w.data page ∧ page.movable = false := by
  have hall : allPages w.poolLists ~ pages ++ allPages (w.poolLists.set h pools') :=
    flatMap_set_perm hpools hperm
  have hheld : w.held ~ pages ++ (w.setPools h pools').held := by
    simpa [World.held, World.setPools] using hall.append_right _
  have hpooled : ∀ p ∈ pages ++ allPages (w.poolLists.set h pools'),
      ZeroPage w.data p ∧ p.movable = false := fun p hp => hinv.pooled p (hall.mem_iff.2 hp)
  exact ⟨hinv.setPools hwf (hinv.held.takeOut hheld) fun p hp => hpooled p (by simp [hp]),
    fun p hp => hpooled p (by simp [hp])⟩

theorem add (hinv : Inv (page :: hands) w) (hpools : w.poolLists[h]? = some pools)
    (hwf : PoolsWf orders pools') (hperm : pagesOf pools' ~ page :: pagesOf pools)
    (hzero : ZeroPage w.data page) (hm : page.movable = false) :
    Inv hands (w.setPools h pools') := by
  have hall : allPages (w.poolLists.set h pools') ~ [page] ++ allPages w.poolLists :=
    flatMap_set_perm_add hpools hperm
  have hheld : (w.setPools h pools').held ~ [page] ++ w.held := by
    simpa [World.held, World.setPools] using hall.append_right _
  refine hinv.setPools hwf (hinv.held.putIn hheld) fun p hp => ?_
  rcases mem_cons.1 (hall.mem_iff.1 hp) with rfl | hp
  · exact ⟨hzero, hm⟩
  · exact hinv.pooled p hp

theorem put (hinv : Inv (page :: hands) w) (hh : h < w.poolLists.length) (horder : page.order ∈ orders)
    (hzero : ZeroPage w.data page) (hm : page.movable = false) :
    Inv hands { w with poolLists := putIn w.poolLists h page } := by
  have hpools : w.poolLists[h]? = some w.poolLists[h] := List.getElem?_eq_getElem hh
  have hwf := hinv.wf _ (getElem_mem hh)
  have hadd := hinv.add hpools (putPage_wf hwf horder) (putPage_perm hwf horder) hzero hm
  simpa [putIn, hpools, World.setPools] using hadd

end Inv

variable {order j : Nat} {turn : Turn} {movable : Bool} {buffer : SgBuffer}

theorem allocPages_spec {answer : Nat → Option Page} {gfpMovable : Bool}
    (halloc : allocPages w answer gfpMovable order = some page) :
    page.order = order ∧ page ∉ w.taken ∧ (page.movable = true → gfpMovable = true) := by
  have hguard := (Option.filter_eq_some_iff.1 halloc).2
  exact of_decide_eq_true hguard

theorem allocOutsidePools_spec (halloc : allocOutsidePools w turn movable order = some page) :
    page.order = order ∧ page ∉ w.taken := by
  have hdirect : ∀ answer gfpMovable, allocPages w answer gfpMovable order = some page →
      page.order = order ∧ page ∉ w.taken := fun answer gfpMovable ha =>
    ⟨(allocPages_spec ha).1, (allocPages_spec ha).2.1⟩
  rcases Option.or_eq_some_iff.1 halloc with hmovable | ⟨-, hplain⟩
  · split_ifs at hmovable
    unfold qcomMovableHeapAllocPages at hmovable
    split_ifs at hmovable
    · exact hdirect _ _ hmovable
    · exact hdirect _ _ (Option.filter_eq_some_iff.1 hmovable).1
  · exact hdirect _ _ hplain

structure InHands (pages : List Page) (w : World) : Prop where
  inv : Inv pages w
  zero : ∀ page ∈ pages, ZeroPage w.data page
  order_mem : ∀ page ∈ pages, page.order ∈ orders

theorem InHands.alloc {size maxOrder : Nat} (hin : InHands pages w)
    (halloc : qcomSysHeapAllocLargestAvailable w h turn movable size maxOrder = some (page, w')) :
    InHands (pages ++ [page]) w' ∧ page.size ≤ size ∧ h < w.poolLists.length ∧
      w'.poolLists.length = w.poolLists.length := by
  simp only [qcomSysHeapAllocLargestAvailable, Option.bind_eq_bind, Option.bind_eq_some_iff,
    Option.pure_def, Option.some.injEq, Prod.mk.injEq] at halloc
  obtain ⟨pools, hpools, ⟨p, fresh, pools'⟩, halloc, rfl, rfl⟩ := halloc
  have htakes := allocFromPools_takes (hin.inv.wf _ (mem_of_getElem? hpools))
    (fun order q hq => (allocOutsidePools_spec hq).1) halloc
  have hsource := htakes.source
  have hlast : p :: pages ~ pages ++ [p] := (perm_append_singleton p pages).symm
  have horder : ∀ q ∈ pages ++ [p], q.order ∈ orders := by
    intro q hq
    rcases mem_append.1 hq with hq | hq
    · exact hin.order_mem q hq
    · exact mem_singleton.1 hq ▸ htakes.order_mem
  refine ⟨?_, htakes.fits, (List.getElem?_eq_some_iff.1 hpools).1,
    by cases fresh <;> simp [World.setPools, World.takePage]⟩
  cases fresh with
  | false =>
    have hperm : pagesOf pools ~ [p] ++ pagesOf pools' := by simpa using hsource
    obtain ⟨hinv, hpage⟩ := hin.inv.takeOut hpools htakes.wf hperm
    refine ⟨hinv.reorder hlast, fun q hq => ?_, horder⟩
    rcases mem_append.1 hq with hq | hq
    · exact hin.zero q hq
    · exact (hpage q hq).1
  | true =>
    obtain ⟨rfl, hp⟩ : pools' = pools ∧ _ := by simpa using hsource
    obtain ⟨hinv, hzero⟩ := hin.inv.takePage (allocOutsidePools_spec hp).2
    have hsame : (w.takePage p).setPools h pools' = w.takePage p := by
      obtain ⟨hlt, hget⟩ := List.getElem?_eq_some_iff.1 hpools
      simp [World.setPools, World.takePage, ← hget]
    simp only [if_true, hsame]
    refine ⟨hinv.reorder hlast, fun q hq i hi => ?_, horder⟩
    by_cases heq : q = p
    · exact heq ▸ hzero i (heq ▸ hi)
    · rcases mem_append.1 hq with hq | hq
      · simpa [World.takePage, heq] using hin.zero q hq i hi
      · exact absurd (mem_singleton.1 hq) heq

theorem allocLoop_spec (h : Nat) (movable : Bool) (turns : List Turn) (size maxOrder : Nat)
    (hin : InHands pages w) :
    let r := allocLoop h movable turns size maxOrder pages w
    InHands r.2.1 r.2.2 ∧ r.2.2.poolLists.length = w.poolLists.length ∧
    (r.2.1 = pages ∨ h < w.poolLists.length) ∧
    (r.1 = true → bytes r.2.1 = bytes pages + size) := by
  induction turns generalizing size maxOrder pages w with
  | nil => exact ⟨hin, rfl, .inl rfl, fun hdone => by simp_all [allocLoop]⟩
  | cons turn turns ih =>
    unfold allocLoop
    split_ifs with hsize hsignal
    · exact ⟨hin, rfl, .inl rfl, fun _ => by simp [hsize]⟩
    · exact ⟨hin, rfl, .inl rfl, by simp⟩
    · split
      · exact ⟨hin, rfl, .inl rfl, by simp⟩
      · next page w' halloc =>
        obtain ⟨hin', hfits, hlt, hlen⟩ := hin.alloc halloc
        obtain ⟨hin'', hlen', -, hdone⟩ := ih (size - page.size) page.order hin'
        refine ⟨hin'', hlen'.trans hlen, .inr hlt, fun hd => ?_⟩
        have hbytes := hdone hd
        rw [bytes_append, bytes_cons, bytes_nil] at hbytes
        omega

/-- The scatter-gather part of an allocation: either the pages are given back or they make up the
requested length. -/
theorem systemQcomSgBufferAlloc_spec (h len : Nat) (movable : Bool) (turns : List Turn) (table : Bool)
    (hinv : Inv [] w) :
    match systemQcomSgBufferAlloc w h len movable turns table with
    | (none, w') => Inv [] w'
    | (some pages, w') => InHands pages w' ∧ bytes pages = len ∧ h < w'.poolLists.length := by
  have hempty : InHands [] w := ⟨hinv, by simp, by simp⟩
  have hloop := allocLoop_spec h movable turns len (orders.headD 0) hempty
  unfold systemQcomSgBufferAlloc
  generalize allocLoop h movable turns len (orders.headD 0) [] w = r at hloop ⊢
  obtain ⟨hin, hlen, hlt, hdone⟩ := hloop
  dsimp only
  split_ifs with hearly
  · have hpages : Inv (r.2.1 ++ []) r.2.2 := by simpa using hin.inv
    exact hpages.freeAll
  · push Not at hearly
    refine ⟨hin, ?_, hlen ▸ hlt.resolve_left hearly.2.2⟩
    simpa using hdone (by simpa using hearly.1)

theorem held_add_buffer {buffers freeList : List SgBuffer}
    (hadd : buffers ++ freeList ~ buffer :: (w.buffers ++ w.freeList)) :
    World.held { w with buffers := buffers, freeList := freeList } ~ buffer.pages ++ w.held := by
  have hflat := (hadd.flatMap_right SgBuffer.pages).append_left (allPages w.poolLists)
  have hswap : allPages w.poolLists ++ buffer.pages ~ buffer.pages ++ allPages w.poolLists :=
    perm_append_comm
  refine hflat.trans ?_
  simpa [World.held, ← append_assoc] using
    hswap.append_right ((w.buffers ++ w.freeList).flatMap SgBuffer.pages)

namespace InHands

theorem publish {buffers freeList : List SgBuffer} {len : Nat} (hin : InHands pages w)
    (hbytes : bytes pages = len) (hh : h < w.poolLists.length)
    (hadd : buffers ++ freeList ~ ⟨h, len, pages⟩ :: (w.buffers ++ w.freeList)) :
    Inv [] { w with buffers := buffers, freeList := freeList } := by
  have hheld : Held w.taken w.held (pages ++ []) := by simpa using hin.inv.held
  refine ⟨hin.inv.wf, hheld.putIn (held_add_buffer hadd), hin.inv.refs, hin.inv.pooled, fun buffer hb => ?_⟩
  rcases mem_cons.1 (hadd.mem_iff.1 hb) with rfl | hb
  · exact ⟨hh, hbytes, hin.order_mem⟩
  · exact hin.inv.buffers buffer hb

end InHands

theorem heapAllocate_spec (h len : Nat) (movable : Bool) (env : AllocEnv) (hinv : Inv [] w) :
    Inv [] (heapAllocate w h len movable env).2 ∧
    ∀ buffer, (heapAllocate w h len movable env).1 = some buffer →
      (∀ page ∈ buffer.pages, ZeroPage (heapAllocate w h len movable env).2.data page) ∧
      bytes buffer.pages = len := by
  have hspec := systemQcomSgBufferAlloc_spec h len movable env.turns env.table hinv
  unfold heapAllocate
  by_cases hk : env.kzalloc = false
  · simpa [hk] using hinv
  simp only [if_neg hk]
  generalize systemQcomSgBufferAlloc w h len movable env.turns env.table = r at hspec ⊢
  obtain ⟨got, w'⟩ := r
  cases got with
  | none => exact ⟨hspec, by simp⟩
  | some pages =>
    obtain ⟨hin, hbytes, hh⟩ := hspec
    split_ifs
    · exact ⟨hin.publish hbytes hh (by simp), by simp⟩
    · refine ⟨hin.publish hbytes hh (by simp), ?_⟩
      rintro buffer ⟨⟩
      exact ⟨hin.zero, hbytes⟩

theorem clearPages_cases (frames : List (Page × Nat)) (data : Page → Nat → Nat) (page : Page) (i : Nat) :
    clearPages frames data page i = 0 ∨ clearPages frames data page i = data page i := by
  unfold clearPages
  split_ifs
  · exact .inl rfl
  · exact .inr rfl

theorem zeroLoop_spec (vmap : Nat → Bool) (frames batch : List (Page × Nat)) (k : Nat)
    (data : Page → Nat → Nat) :
    let r := zeroLoop vmap frames batch k data
    (∀ page i, r.2 page i = 0 ∨ r.2 page i = data page i) ∧
    (r.1 = true → ∀ page i, (page, i) ∈ batch ++ frames → r.2 page i = 0) := by
  induction frames generalizing batch k data with
  | nil =>
    unfold zeroLoop
    split_ifs with hb hv
    · exact ⟨fun _ _ => .inr rfl, fun _ page i hmem => by simp [hb] at hmem⟩
    · exact ⟨clearPages_cases batch data, fun _ page i hmem => if_pos (by simpa using hmem)⟩
    · exact ⟨fun _ _ => .inr rfl, by simp⟩
  | cons frame frames ih =>
    have hassoc : ∀ f, f ∈ batch ++ frame :: frames ↔ f ∈ batch ++ [frame] ∨ f ∈ frames := by
      simp [or_assoc]
    unfold zeroLoop
    dsimp only
    split_ifs with hfull hv
    · -- the batch is full and is cleared before the rest
      obtain ⟨hcases, hdone⟩ := ih [] (k + 1) (clearPages (batch ++ [frame]) data)
      refine ⟨fun page i => ?_, fun hd page i hmem => ?_⟩
      · rcases hcases page i with hz | hkept
        · exact .inl hz
        · exact hkept ▸ clearPages_cases _ data page i
      · rcases (hassoc _).1 hmem with hmem | hmem
        · have hcleared : clearPages (batch ++ [frame]) data page i = 0 := if_pos hmem
          rcases hcases page i with hz | hkept
          · exact hz
          · exact hkept.trans hcleared
        · exact hdone hd page i (by simpa using hmem)
    · exact ⟨fun _ _ => .inr rfl, by simp⟩
    · obtain ⟨hcases, hdone⟩ := ih (batch ++ [frame]) k data
      refine ⟨hcases, fun hd page i hmem => hdone hd page i ?_⟩
      exact mem_append.2 ((hassoc _).1 hmem)

namespace Inv

theorem setData {data : Page → Nat → Nat} (hinv : Inv hands w)
    (hcases : ∀ page i, data page i = 0 ∨ data page i = w.data page i) :
    Inv hands { w with data := data } := by
  refine { hinv with pooled := fun page hp => ⟨fun i hi => ?_, (hinv.pooled page hp).2⟩ }
  rcases hcases page i with hz | hkept
  · exact hz
  · exact hkept.trans ((hinv.pooled page hp).1 i hi)

theorem dispose {reason : DfReason} (hinv : Inv (pages ++ hands) w) (hh : h < w.poolLists.length)
    (horder : ∀ page ∈ pages, page.order ∈ orders)
    (hzero : reason = .normal → ∀ page ∈ pages, ZeroPage w.data page) :
    Inv hands (pages.foldl (disposePage reason h) w) := by
  induction pages generalizing w with
  | nil => exact hinv
  | cons page pages ih =>
    have hfirst : Inv (pages ++ hands) (disposePage reason h w page) ∧
        h < (disposePage reason h w page).poolLists.length ∧
        (disposePage reason h w page).data = w.data := by
      have hfree : Inv (pages ++ hands) (w.freePage page) := freePage hinv
      unfold World.freePage at hfree
      unfold disposePage
      split_ifs with hm
      · exact ⟨by simpa [hm] using hfree, hh, rfl⟩
      · cases reason with
        | underPressure => exact ⟨by simpa [hm] using hfree, hh, rfl⟩
        | normal =>
          refine ⟨put hinv hh (horder page (by simp)) (hzero rfl page (by simp)) (by simpa using hm), ?_, rfl⟩
          dsimp only [putIn]
          split
          · simpa using hh
          · exact hh
    refine ih hfirst.1 hfirst.2.1 (fun p hp => horder p (by simp [hp])) fun hr p hp => ?_
    rw [hfirst.2.2]
    exact hzero hr p (by simp [hp])

end Inv

theorem freeOneItem_inv (hinv : Inv [] w) (reason : DfReason) (vmap : Nat → Bool) :
    Inv [] (freeOneItem w reason vmap) := by
  unfold freeOneItem
  split
  · exact hinv
  · next buffer items hlist =>
    obtain ⟨hh, -, horder⟩ := hinv.buffers buffer (by simp [hlist])
    have hmore : w.buffers ++ w.freeList ~ buffer :: (w.buffers ++ items) := by simp [hlist]
    have hheld : w.held ~ buffer.pages ++ World.held { w with freeList := items } :=
      held_add_buffer (w := { w with freeList := items }) hmore
    have hpopped : Inv (buffer.pages ++ []) { w with freeList := items } :=
      ⟨hinv.wf, hinv.held.takeOut hheld, hinv.refs, hinv.pooled,
        fun b hb => hinv.buffers b (hmore.mem_iff.2 (mem_cons_of_mem _ hb))⟩
    unfold systemHeapDeferredFree
    cases reason with
    | underPressure => exact hpopped.dispose hh horder (by simp)
    | normal =>
      obtain ⟨hcases, hdone⟩ := zeroLoop_spec vmap (framesOf buffer.pages) [] 0 w.data
      generalize zeroLoop vmap (framesOf buffer.pages) [] 0 w.data = r at hcases hdone ⊢
      refine (hpopped.setData hcases).dispose hh horder fun hr page hp => ?_
      have hd : r.1 = true := by
        by_contra hne
        simp [hne] at hr
      exact fun i hi => hdone hd _ i (mem_flatMap.2 ⟨_, hp, by simpa using hi⟩)

theorem refillLoop_inv (turns : List (Bool × (Nat → Option Page))) (hinv : Inv [] w) :
    Inv [] (refillLoop h j turns w) := by
  induction turns generalizing w with
  | nil => exact hinv
  | cons turn turns ih =>
    unfold refillLoop
    split
    · exact hinv
    · next pools hpools =>
      split
      · exact hinv
      · next pool hpool =>
        split_ifs
        · exact hinv
        · split
          · exact hinv
          · next page halloc =>
            obtain ⟨horder, hfresh, hzone⟩ := allocPages_spec halloc
            obtain ⟨hgot, hzero⟩ := hinv.takePage hfresh
            have hwf := hinv.wf pools (mem_of_getElem? hpools)
            have hpoolWf := wf_of_mem hwf (mem_of_getElem? hpool)
            have hadd : (dynamicPagePoolAdd pool page).items ~ [page] ++ pool.items := add_items pool page
            refine ih (hgot.add hpools ?_ (flatMap_set_perm_add hpool hadd) hzero ?_)
            · exact poolsWf_set hwf hpool (add_order pool page) (add_wf hpoolWf horder)
            · simpa using hzone

theorem doShrink_inv {high : Bool} {nr : Int} (hinv : Inv [] w) :
    Inv [] (dynamicPagePoolDoShrink high h j nr w).1 := by
  unfold dynamicPagePoolDoShrink
  split
  · exact hinv
  · next pools hpools =>
    split
    · exact hinv
    · next pool hpool =>
      split_ifs
      · exact hinv
      have hwf := hinv.wf pools (mem_of_getElem? hpools)
      obtain ⟨taken, htaken, -, hrem⟩ := shrinkLoop_removes high nr nr.toNat 0 []
        (wf_of_mem hwf (mem_of_getElem? hpool))
      obtain ⟨hinv', hpages⟩ :=
        hinv.takeOut hpools (hrem.poolsWf hpool hwf) (hrem.pagesOf_perm hpool)
      rw [append_nil] at htaken
      dsimp only
      rw [htaken]
      exact hinv'.dropAll fun page hp => (hpages page hp).2

theorem write_inv {i value : Nat} (hinv : Inv [] w) (hb : buffer ∈ w.buffers)
    (hp : page ∈ buffer.pages) : Inv [] (writePage w page i value) := by
  -- the written page is in a buffer, so that it is in no pool
  have hother : ∀ p ∈ allPages w.poolLists, p ≠ page := by
    rintro p hpool rfl
    have hbuffer : p ∈ (w.buffers ++ w.freeList).flatMap SgBuffer.pages :=
      mem_flatMap.2 ⟨buffer, by simp [hb], hp⟩
    exact (nodup_append.1 hinv.held.places_nodup).2.2 p hpool p hbuffer rfl
  refine { hinv with pooled := fun p hpool => ⟨fun k hk => ?_, (hinv.pooled p hpool).2⟩ }
  have hkept : (writePage w page i value).data p k = w.data p k :=
    if_neg fun heq => hother p hpool heq.1
  exact hkept.trans ((hinv.pooled p hpool).1 k hk)

theorem release_inv {b : Nat} (hinv : Inv [] w) (hb : w.buffers[b]? = some buffer) :
    Inv [] { w with buffers := w.buffers.eraseIdx b, freeList := buffer :: w.freeList } := by
  obtain ⟨hlt, hget⟩ := List.getElem?_eq_some_iff.1 hb
  have hmove : w.buffers.eraseIdx b ++ buffer :: w.freeList ~ w.buffers ++ w.freeList := by
    refine perm_middle.trans ?_
    simpa [hget] using (getElem_cons_eraseIdx_perm hlt).append_right w.freeList
  have hheld : World.held { w with buffers := w.buffers.eraseIdx b, freeList := buffer :: w.freeList } ~
      w.held := (hmove.flatMap_right SgBuffer.pages).append_left (allPages w.poolLists)
  refine ⟨hinv.wf, ⟨hinv.held.nodup, ?_⟩, hinv.refs, hinv.pooled, fun p hp => ?_⟩
  · simpa using hinv.held.perm.trans (by simpa using hheld.symm)
  · exact hinv.buffers p (hmove.mem_iff.1 hp)

theorem step_inv (w : World) (e : Event) (w' : World) (hinv : Inv [] w) (_ : True)
    (hstep : step w e = some w') : Inv [] w' := by
  cases e with
  | allocate h len movable env =>
    obtain rfl := Option.some.inj hstep
    exact (heapAllocate_spec h len movable env hinv).1
  | write b k i value =>
    simp only [step, Option.bind_eq_bind, Option.bind_eq_some_iff, Option.pure_def,
      Option.some.injEq] at hstep
    obtain ⟨buffer, hb, page, hp, rfl⟩ := hstep
    exact write_inv hinv (mem_of_getElem? hb) (mem_of_getElem? hp)
  | release b =>
    simp only [step, Option.bind_eq_bind, Option.bind_eq_some_iff, Option.pure_def,
      Option.some.injEq] at hstep
    obtain ⟨buffer, hb, rfl⟩ := hstep
    exact release_inv hinv hb
  | freeOneItem reason vmap =>
    obtain rfl := Option.some.inj hstep
    exact freeOneItem_inv hinv reason vmap
  | refill h j turns =>
    obtain rfl := Option.some.inj hstep
    exact refillLoop_inv turns hinv
  | shrink high nr =>
    obtain rfl := Option.some.inj hstep
    unfold dynamicPagePoolShrink
    split_ifs
    · exact hinv
    · exact shrinkPools_invariant (fun _ _ _ _ hw => doShrink_inv hw) _ _ hinv

theorem initial_inv (heaps : Nat) (data : Page → Nat → Nat) : Inv [] (initialWorld heaps data) := by
  have hpools : ∀ pools ∈ (initialWorld heaps data).poolLists, pools = dynamicPagePoolCreatePools := by
    intro pools hp
    exact eq_of_mem_replicate hp
  have hall : allPages (initialWorld heaps data).poolLists = [] := by
    refine flatMap_eq_nil_iff.2 fun pools hp => ?_
    rw [hpools pools hp, pagesOf_createPools]
  have hheld : (initialWorld heaps data).held = [] := by
    rw [World.held, hall]
    rfl
  refine ⟨fun pools hp => hpools pools hp ▸ createPools_wf, ⟨nodup_nil, by rw [hheld]; rfl⟩,
    by simp [initialWorld], ?_, by simp [initialWorld]⟩
  rw [hall]
  simp

structure BuffersClean (w : World) : Prop where
  returned : ∀ h len movable env buffer, (heapAllocate w h len movable env).1 = some buffer →
    (∀ page ∈ buffer.pages, ZeroPage (heapAllocate w h len movable env).2.data page) ∧
    bytes buffer.pages = len
  lengths : ∀ buffer ∈ w.buffers, bytes buffer.pages = buffer.len
  places : ∀ page, w.held.count page = if page ∈ w.taken then 1 else 0
  counters : ∀ pools ∈ w.poolLists, ∀ pool ∈ pools, pool.lowCount = pool.lowItems.length ∧
    pool.highCount = pool.highItems.length ∧
    pool.count = pool.lowItems.length + pool.highItems.length

/-- In every run of the system and movable heaps, whatever stood in the pages before and whatever
the users have written, a buffer that is returned is zero and has the requested length, every page
that is in use is in one place, and the counters of the pools are right. -/
theorem system_heap_buffers_clean (heaps : Nat) (data : Page → Nat → Nat) (es : List Event) (w : World)
    (hrun : run step (initialWorld heaps data) es = some w) : BuffersClean w := by
  have hinv := run_invariant step_inv (initial_inv heaps data) (along_true _ es) hrun
  refine ⟨fun h len movable env => (heapAllocate_spec h len movable env hinv).2,
    fun buffer hb => (hinv.buffers buffer (by simp [hb])).2.1, hinv.held.count_places,
    fun pools hp pool hpool => ?_⟩
  have hwf := wf_of_mem (hinv.wf pools hp) hpool
  exact ⟨hwf.low, hwf.high, hwf.total⟩

def plainTurn (id : Nat) : Turn :=
  ⟨false, fun _ => true, fun _ => none, fun _ => some { id, order := 0 }⟩

def recycledRun : List Event :=
  [.allocate 0 4096 false ⟨true, [plainTurn 1], true, true, true⟩, .write 0 0 0 7, .release 0,
    .freeOneItem .normal fun _ => true]

theorem system_heap_buffers_clean_recycled :
    ∃ w, run step (initialWorld 1 fun _ _ => 5) recycledRun = some w ∧
      (heapAllocate w 0 4096 true ⟨true, [plainTurn 2], true, true, true⟩).1.map (·.pages) =
        some [{ id := 1, order := 0 }] ∧ BuffersClean w :=
  exists_run_and (by decide +kernel) fun w hrun _ =>
    system_heap_buffers_clean 1 _ recycledRun w hrun

end MsmKernel.Heaps.System
