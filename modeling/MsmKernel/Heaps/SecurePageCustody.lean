import MsmKernel.Heaps.SecureSystemHeap

/-! The pages of the secure system heaps: every page is in one place, and that place says which VM it
is assigned to. An operation is followed through the pages that it has in its hands. -/
namespace MsmKernel.Heaps
open Run MemBuf Custody
open List

variable {S : Setup} {w w' : World} {hands pages : List Page} {page : Page} {h : Nat} {vmid : Vmid}
  {pools pools' : List DynamicPagePool}

def World.held (w : World) : List Page :=
  allPages w.poolLists ++ w.buffers.flatMap SecureBuffer.pages ++ w.leaked

structure PagesSafe (S : Setup) (w : World) : Prop where
  pooled : ∀ h vmid pools, S.secureVmid h = some vmid → w.poolLists[h]? = some pools →
    ∀ page ∈ pagesOf pools, w.owner page = some vmid
  live : ∀ buffer ∈ w.buffers, ∃ vmid, S.secureVmid buffer.heap = some vmid ∧
    ∀ page ∈ buffer.pages, w.owner page = some vmid
  freed : ∀ page ∉ w.taken, w.owner page = some vmidHlos
  place : ∀ page, w.held.count page + (if page ∈ w.taken then 0 else 1) = 1
  tables : w.uninitialised = false
  queued : ∀ info ∈ w.prefetchList, (S.secureVmid info.heap).isSome

structure Inv (S : Setup) (hands : List Page) (w : World) : Prop where
  shape : w.poolLists.length = S.heaps.length
  wf : ∀ pools ∈ w.poolLists, PoolsWf orders pools
  held : Held w.taken w.held hands
  pooled : ∀ h pools, w.poolLists[h]? = some pools →
    ∀ page ∈ pagesOf pools, w.owner page = some (S.vm h)
  live : ∀ buffer ∈ w.buffers, ∃ vmid, S.secureVmid buffer.heap = some vmid ∧
    ∀ page ∈ buffer.pages, w.owner page = some vmid ∧ page.order ∈ orders
  freed : ∀ page ∉ w.taken, w.owner page = some vmidHlos
  tables : w.uninitialised = false
  queued : ∀ info ∈ w.prefetchList, (S.secureVmid info.heap).isSome

theorem vm_of_secureVmid (hv : S.secureVmid h = some vmid) : S.vm h = vmid := by
  simp [Setup.vm, hv]

theorem vm_of_system (hsys : S.heaps[h]? = some none) : S.vm h = vmidHlos := by
  simp [Setup.vm, Setup.secureVmid, hsys]

theorem lt_of_secureVmid (hv : S.secureVmid h = some vmid) : h < S.heaps.length := by
  by_contra hlt
  simp [Setup.secureVmid, List.getElem?_eq_none (Nat.le_of_not_lt hlt)] at hv

@[simp] theorem World.put_owner (w : World) (h : Nat) (page : Page) :
    (w.put h page).owner = w.owner := rfl

@[simp] theorem World.putAll_owner (w : World) (h : Nat) (pages : List Page) :
    (w.putAll h pages).owner = w.owner := by
  induction pages generalizing w with
  | nil => rfl
  | cons page pages ih => exact (ih (w.put h page)).trans (w.put_owner h page)

theorem mem_held_of_pooled (hpools : w.poolLists[h]? = some pools) (hpage : page ∈ pagesOf pools) :
    page ∈ w.held := by
  have hmem : page ∈ allPages w.poolLists :=
    mem_flatMap.2 ⟨pools, mem_of_getElem? hpools, hpage⟩
  simp [World.held, hmem]

theorem mem_held_of_live {buffer : SecureBuffer} (hb : buffer ∈ w.buffers)
    (hpage : page ∈ buffer.pages) : page ∈ w.held := by
  have hmem := mem_flatMap.2 ⟨buffer, hb, hpage⟩
  simp [World.held, hmem]

theorem held_setPools_perm (hpools : w.poolLists[h]? = some pools)
    (hperm : pagesOf pools ~ pages ++ pagesOf pools') :
    w.held ~ pages ++ (w.setPools h pools').held := by
  simpa [World.held, World.setPools, allPages] using
    (flatMap_set_perm hpools hperm).append_right (w.buffers.flatMap SecureBuffer.pages ++ w.leaked)

theorem held_setPools_perm_add (hpools : w.poolLists[h]? = some pools)
    (hperm : pagesOf pools' ~ pages ++ pagesOf pools) :
    (w.setPools h pools').held ~ pages ++ w.held := by
  simpa [World.held, World.setPools, allPages] using
    (flatMap_set_perm_add hpools hperm).append_right
      (w.buffers.flatMap SecureBuffer.pages ++ w.leaked)

namespace Inv

theorem pagesSafe (hinv : Inv S [] w) : PagesSafe S w where
  pooled h vmid pools hv hpools page hpage := by
    rw [hinv.pooled h pools hpools page hpage, vm_of_secureVmid hv]
  live buffer hb := by
    obtain ⟨vmid, hv, hpages⟩ := hinv.live buffer hb
    exact ⟨vmid, hv, fun page hpage => (hpages page hpage).1⟩
  freed := hinv.freed
  place page := by
    rw [hinv.held.count_places]
    split_ifs <;> rfl
  tables := hinv.tables
  queued := hinv.queued

section
variable (hinv : Inv S hands w)
include hinv

theorem reorder (hperm : hands ~ pages) : Inv S pages w :=
  { hinv with held := hinv.held.reorder hperm }

theorem setPools {hands' : List Page} (hwf : PoolsWf orders pools')
    (hheld : Held w.taken (w.setPools h pools').held hands')
    (howner : ∀ page ∈ pagesOf pools', w.owner page = some (S.vm h)) :
    Inv S hands' (w.setPools h pools') where
  shape := by simpa [World.setPools] using hinv.shape
  wf pools hp := by
    rcases mem_or_eq_of_mem_set hp with hp | rfl
    · exact hinv.wf pools hp
    · exact hwf
  held := hheld
  pooled i pools hp page hpage := by
    by_cases hi : h = i
    · subst hi
      obtain rfl : pools' = pools := by
        simp only [World.setPools, List.getElem?_set_self'] at hp
        cases hold : w.poolLists[h]? <;> simp_all
      exact howner page hpage
    · exact hinv.pooled i pools (by simpa [World.setPools, List.getElem?_set_ne hi] using hp) page hpage
  live := hinv.live
  freed := hinv.freed
  tables := hinv.tables
  queued := hinv.queued

theorem takeOut (hpools : w.poolLists[h]? = some pools) (hwf : PoolsWf orders pools')
    (hperm : pagesOf pools ~ pages ++ pagesOf pools') :
    Inv S (pages ++ hands) (w.setPools h pools') ∧ ∀ page ∈ pages, w.owner page = some (S.vm h) := by
  have howner : ∀ page ∈ pages ++ pagesOf pools', w.owner page = some (S.vm h) := fun page hp =>
    hinv.pooled h pools hpools page (hperm.mem_iff.2 hp)
  exact ⟨hinv.setPools hwf (hinv.held.takeOut (held_setPools_perm hpools hperm)) fun page hp =>
    howner page (by simp [hp]), fun page hp => howner page (by simp [hp])⟩

theorem acquire (hfresh : page ∉ w.taken) :
    Inv S (page :: hands) { w with taken := page :: w.taken } :=
  { hinv with
    held := hinv.held.acquire hfresh
    freed := fun q hq => hinv.freed q fun hin => hq (by simp [hin]) }

end

theorem put (hinv : Inv S (page :: hands) w) (hh : h < S.heaps.length)
    (howner : w.owner page = some (S.vm h)) (horder : page.order ∈ orders) :
    Inv S hands (w.put h page) := by
  have hlt : h < w.poolLists.length := hinv.shape ▸ hh
  have hpools : w.poolLists[h]? = some w.poolLists[h] := List.getElem?_eq_getElem hlt
  have hwf := hinv.wf _ (getElem_mem hlt)
  have hperm := putPage_perm hwf horder
  have hput : w.put h page = w.setPools h (putPage w.poolLists[h] page) := by
    simp [World.put, World.setPools, putIn, hpools]
  rw [hput]
  have hadd : (w.setPools h (putPage w.poolLists[h] page)).held ~ [page] ++ w.held :=
    held_setPools_perm_add hpools hperm
  refine hinv.setPools (putPage_wf hwf horder) (hinv.held.putIn hadd) fun p hp => ?_
  · rcases mem_cons.1 (hperm.mem_iff.1 hp) with rfl | hp
    · exact howner
    · exact hinv.pooled h _ hpools p hp

section
variable (hinv : Inv S (pages ++ hands) w)
include hinv

theorem putAll (hh : h < S.heaps.length)
    (hpages : ∀ page ∈ pages, w.owner page = some (S.vm h) ∧ page.order ∈ orders) :
    Inv S hands (w.putAll h pages) := by
  induction pages generalizing w with
  | nil => exact hinv
  | cons page pages ih =>
    have hput := hinv.put hh (hpages page (by simp)).1 (hpages page (by simp)).2
    refine ih hput fun p hp => ?_
    exact hpages p (by simp [hp])

theorem freePages (hpages : ∀ page ∈ pages, w.owner page = some vmidHlos) :
    Inv S hands (w.freePages pages) where
  shape := hinv.shape
  wf := hinv.wf
  held := hinv.held.release
  pooled := hinv.pooled
  live := hinv.live
  freed page ht := by
    by_cases hp : page ∈ pages
    · exact hpages page hp
    · exact hinv.freed page fun hin => ht (mem_diff_of_mem hin hp)
  tables := hinv.tables
  queued := hinv.queued

theorem leak : Inv S hands (w.leak pages) := by
  have hadd : (w.leak pages).held ~ pages ++ w.held := by
    have hswap : allPages w.poolLists ++ w.buffers.flatMap SecureBuffer.pages ++ pages ~
        pages ++ (allPages w.poolLists ++ w.buffers.flatMap SecureBuffer.pages) :=
      perm_append_comm
    simpa [World.held, World.leak, append_assoc] using hswap.append_right w.leaked
  exact { hinv with held := hinv.held.putIn hadd }

theorem hypAssign (dest : Vmid) (ret : Option Errno) :
    Inv S (pages ++ hands) (hypAssign w pages dest ret) := by
  have hsame : ∀ page, page ∈ w.held ∨ page ∉ w.taken →
      (Heaps.hypAssign w pages dest ret).owner page = w.owner page := by
    intro page hpage
    refine if_neg fun hp => ?_
    have hhand : page ∈ pages ++ hands := by simp [hp]
    rcases hpage with hpage | hpage
    · exact hinv.held.not_mem_places hhand hpage
    · exact hpage (hinv.held.mem_out.2 (.inr hhand))
  refine ⟨hinv.shape, hinv.wf, hinv.held, ?_, ?_, ?_, hinv.tables, hinv.queued⟩
  · intro h pools hpools page hpage
    rw [hsame page (.inl (mem_held_of_pooled hpools hpage))]
    exact hinv.pooled h pools hpools page hpage
  · intro buffer hb
    obtain ⟨vmid, hv, hpages⟩ := hinv.live buffer hb
    refine ⟨vmid, hv, fun page hpage => ?_⟩
    rw [hsame page (.inl (mem_held_of_live hb hpage))]
    exact hpages page hpage
  · intro page hpage
    rw [hsame page (.inr hpage)]
    exact hinv.freed page hpage

end

theorem publish (hinv : Inv S hands w) (hv : S.secureVmid h = some vmid) (hperm : pages ~ hands)
    (hpages : ∀ page ∈ hands, w.owner page = some vmid ∧ page.order ∈ orders) :
    Inv S [] { w with buffers := w.buffers ++ [⟨h, pages⟩] } := by
  have hadd : World.held { w with buffers := w.buffers ++ [⟨h, pages⟩] } ~ pages ++ w.held := by
    have hswap : allPages w.poolLists ++ w.buffers.flatMap SecureBuffer.pages ++ pages ~
        pages ++ (allPages w.poolLists ++ w.buffers.flatMap SecureBuffer.pages) :=
      perm_append_comm
    simpa [World.held, append_assoc] using hswap.append_right w.leaked
  have hheld : Held w.taken w.held (pages ++ []) := by
    simpa using hinv.held.reorder hperm.symm
  refine ⟨hinv.shape, hinv.wf, hheld.putIn hadd, hinv.pooled, ?_, hinv.freed, hinv.tables, hinv.queued⟩
  intro buffer hb
  rcases mem_append.1 hb with hb | hb
  · exact hinv.live buffer hb
  · obtain rfl := mem_singleton.1 hb
    exact ⟨vmid, hv, fun page hpage => hpages page (hperm.mem_iff.1 hpage)⟩

theorem unpublish {i : Nat} {buffer : SecureBuffer} (hinv : Inv S hands w)
    (hb : w.buffers[i]? = some buffer) :
    Inv S (buffer.pages ++ hands) { w with buffers := w.buffers.eraseIdx i } := by
  obtain ⟨hlt, hget⟩ := List.getElem?_eq_some_iff.1 hb
  have hbuffers : w.buffers.flatMap SecureBuffer.pages ~
      buffer.pages ++ (w.buffers.eraseIdx i).flatMap SecureBuffer.pages := by
    have hperm := (getElem_cons_eraseIdx_perm hlt).symm.flatMap_right SecureBuffer.pages
    simpa [hget] using hperm
  have htake : w.held ~ buffer.pages ++ World.held { w with buffers := w.buffers.eraseIdx i } := by
    have hmid := (hbuffers.append_left (allPages w.poolLists)).append_right w.leaked
    have hswap : allPages w.poolLists ++ buffer.pages ~
        buffer.pages ++ allPages w.poolLists := perm_append_comm
    refine hmid.trans ?_
    simpa [World.held, ← append_assoc] using
      (hswap.append_right ((w.buffers.eraseIdx i).flatMap SecureBuffer.pages)).append_right w.leaked
  refine ⟨hinv.shape, hinv.wf, hinv.held.takeOut htake, hinv.pooled, ?_, hinv.freed, hinv.tables,
    hinv.queued⟩
  exact fun b hmem => hinv.live b (mem_of_mem_eraseIdx hmem)

end Inv

theorem hypAssign_owner_ok (hp : page ∈ pages) (dest : Vmid) :
    (hypAssign w pages dest none).owner page = some dest := if_pos hp

theorem hypAssign_owner_error {e : Errno} (he : e ≠ EADDRNOTAVAIL) (dest : Vmid) :
    (hypAssign w pages dest (some e)).owner page = w.owner page := by
  simp [hypAssign, he]

end MsmKernel.Heaps
