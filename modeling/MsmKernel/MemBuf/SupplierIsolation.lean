import MsmKernel.MemBuf.Supplier

/-! Isolation on the supplier side: pages come back to the allocator only when no other VM can
reach them, a VM's relinquish message touches only its own transfers, and no transfer drops out of
the list while its pages are out. -/
namespace MsmKernel.MemBuf
open Run List
variable {Page : Type} [DecidableEq Page]

/-- The host's allocator before any request: its pages are in no parcel and not lost. -/
structure Fresh (s : Supplier Page) : Prop where
  wf : s.hyp.Wf
  home : ∀ g, s.free g = true → s.hyp.Home g
  list : s.list = []

/-- The parcel was donated to the host and has just these pages. -/
def DonatedBack (h : Hyp Page) (hdl : UInt32) (pages : List Page) : Prop :=
  match h.parcel hdl with
  | none => False
  | some P => P.op = ghRmTransTypeDonate ∧ vmidHlos ∈ P.acl.map Prod.fst ∧
      (∀ g ∈ P.pages, g ∈ pages) ∧ ∀ g ∈ pages, g ∈ P.pages

/-- The handle gives back the pages of the transfer, and no call on the way fails except with
-EADDRNOTAVAIL. -/
def Returns (h : Hyp Page) (x : XferMem Page) (hdl : UInt32) (env : CleanupEnv) : Prop :=
  if hdl = x.hdl then
    (x.hdl ≠ memBufMemparcelInvalid → Reclaimable h x.hdl x.memSgt) ∧
      Benign env.unassign.reclaim ∧ Benign env.unassign.hypAssign
  else
    env.kzalloc = true ∧ x.dstVmids = [vmidTvm] ∧ DonatedBack h hdl x.memSgt ∧
      Benign env.map.accept ∧ Benign env.map.hypAssign

/-- The condition on a step: a relinquish message names a transfer of its sender and a handle
that gives its pages back, and the calls of a cleanup do not fail. -/
def Cooperative (s : Supplier Page) : Event Page → Prop
  | .allocReq _ env => env.resp = true ∨
      Benign env.cleanup.unassign.reclaim ∧ Benign env.cleanup.unassign.hypAssign
  | .relinquish sender objId hdl env => ∀ x ∈ s.list, x.objId = objId →
      x.dstVmids = [sender] ∧ Returns s.hyp x hdl env
  | .relinquishAll vmid env => ∀ x ∈ s.list, x.dstVmids = [vmid] →
      Returns s.hyp x x.hdl (env x.objId)
  | _ => True

instance (fail : Option Errno) : Decidable (Benign fail) :=
  inferInstanceAs (Decidable (_ ∨ _))

instance (h : Hyp Page) (hdl : UInt32) (pages : List Page) : Decidable (Reclaimable h hdl pages) :=
  match hP : h.parcel hdl with
  | none => .isFalse (by simp [Reclaimable, hP])
  | some P => decidable_of_iff (P.creator = vmidHlos ∧ (∀ v ∈ P.holders, v = vmidHlos) ∧
      (∀ g ∈ P.pages, g ∈ pages) ∧ ∀ g ∈ pages, g ∈ P.pages) (by simp [Reclaimable, hP])

instance (h : Hyp Page) (hdl : UInt32) (pages : List Page) : Decidable (DonatedBack h hdl pages) :=
  match hP : h.parcel hdl with
  | none => .isFalse (by simp [DonatedBack, hP])
  | some P => decidable_of_iff (P.op = ghRmTransTypeDonate ∧ vmidHlos ∈ P.acl.map Prod.fst ∧
      (∀ g ∈ P.pages, g ∈ pages) ∧ ∀ g ∈ pages, g ∈ P.pages) (by simp [DonatedBack, hP])

instance (h : Hyp Page) (x : XferMem Page) (hdl : UInt32) (env : CleanupEnv) :
    Decidable (Returns h x hdl env) := by
  unfold Returns
  infer_instance

instance (s : Supplier Page) (e : Event Page) : Decidable (Cooperative s e) := by
  cases e <;> (dsimp only [Cooperative]; infer_instance)

/-- A transfer that is out: its pages are assigned to its VM and are not in the allocator. -/
structure Out (s : Supplier Page) (x : XferMem Page) : Prop where
  plain : x.secureAlloc = false
  type : x.memType = memBufDmaheapMemType ∨ x.memType = memBufBuddyMemType
  entries : x.nrAclEntries = 1 ∧ x.dstVmids.length = 1
  pages : x.memSgt ≠ []
  held : ∀ g ∈ x.memSgt, s.free g = false ∧ s.hyp.assigned g = x.dstVmids ∧ s.hyp.lost g = false
  bare : x.hdl = memBufMemparcelInvalid → ∀ g ∈ x.memSgt, s.hyp.Host g

def XferMem.Apart (x y : XferMem Page) : Prop :=
  x.objId ≠ y.objId ∧ ∀ g ∈ x.memSgt, g ∉ y.memSgt

omit [DecidableEq Page] in
theorem XferMem.Apart.symm {x y : XferMem Page} (h : x.Apart y) : y.Apart x :=
  ⟨h.1.symm, fun g hg hg' => h.2 g hg' hg⟩

instance : Std.Symm (@XferMem.Apart Page) := ⟨fun _ _ => XferMem.Apart.symm⟩

structure Inv (free₀ : Page → Bool) (s : Supplier Page) : Prop where
  wf : s.hyp.Wf
  home : ∀ g, s.free g = true → s.hyp.Home g
  out : ∀ x ∈ s.list, Out s x
  apart : s.list.Pairwise XferMem.Apart
  ids : ∀ x ∈ s.list, x.objId ∈ s.objIds
  accounted : ∀ g, free₀ g = true →
    s.free g = true ∨ (∃ x ∈ s.list, g ∈ x.memSgt) ∨ s.hyp.lost g = true

/-- What a cleanup does with a transfer: its pages are home and in the allocator, or lost. -/
structure Gone (x : XferMem Page) (s t : Supplier Page) : Prop where
  within : s.hyp.Within x.memSgt t.hyp
  list : t.list = s.list
  ids : ∀ i ∈ s.objIds, i ≠ x.objId → i ∈ t.objIds
  free : ∀ g, g ∉ x.memSgt → t.free g = s.free g
  pages : (∀ g ∈ x.memSgt, t.free g = true ∧ t.hyp.Home g) ∨
    ∀ g ∈ x.memSgt, t.free g = s.free g ∧ t.hyp.lost g = true

variable {s t : Supplier Page} {x y : XferMem Page} {free₀ : Page → Bool} {env : CleanupEnv}
  {hdl : UInt32}

theorem gone_of_settles {α : Type} {r : Except Errno α × Hyp Page} (hx : Out s x)
    (hr : Settles x.memSgt s.hyp r) : Gone x s (freeOnSuccess x s r) := by
  obtain ⟨res, h'⟩ := r
  obtain ⟨hin, hpages⟩ := hr
  cases res with
  | error e => exact ⟨hin, rfl, fun i hi _ => hi, fun _ _ => rfl, .inr fun g hg => ⟨rfl, hpages g hg⟩⟩
  | ok a =>
    simp only [freeOnSuccess, memBufFreeXferMem, memBufRmtFreeMem, if_pos hx.type]
    exact ⟨hin, rfl, fun i hi hne => (mem_erase_of_ne hne).2 hi,
      fun g hg => onPages_of_notMem hg _ _, .inl fun g hg => ⟨onPages_of_mem hg _ _, hpages g hg⟩⟩

theorem gone_cleanup (hw : s.hyp.Wf) (hx : Out s x) (hret : Returns s.hyp x hdl env) :
    Gone x s (memBufCleanupAllocReq x hdl env s) := by
  have hheld : ∀ g ∈ x.memSgt, s.hyp.assigned g = x.dstVmids ∧ s.hyp.lost g = false :=
    fun g hg => (hx.held g hg).2
  unfold memBufCleanupAllocReq
  rw [if_pos hx.plain]
  unfold Returns at hret
  by_cases hh : hdl = x.hdl
  · rw [if_pos hh] at hret ⊢
    obtain ⟨hrec, hb₁, hb₂⟩ := hret
    refine gone_of_settles hx (settles_unassignMem hw hb₁ hb₂ hheld ?_)
    split_ifs with hinv
    · exact hx.bare hinv
    · exact hrec hinv
  · rw [if_neg hh] at hret ⊢
    obtain ⟨hk, hdst, hdon, hb₁, hb₂⟩ := hret
    rw [if_neg (by simp [hk])]
    unfold DonatedBack at hdon
    cases hP : s.hyp.parcel hdl with
    | none => simp [hP] at hdon
    | some P =>
      simp only [hP] at hdon
      obtain ⟨hop, hacl, hsub, hsup⟩ := hdon
      rw [hdst] at hheld
      have hset := settles_mapMemS2 hw hP hop hacl hb₁ hb₂ fun g hg => hheld g (hsub g hg)
      exact gone_of_settles hx (hset.congr hsub hsup)

omit [DecidableEq Page] in
theorem Out.of_within {ps : List Page} (hy : Out s y) (hw : s.hyp.Wf)
    (hin : s.hyp.Within ps t.hyp) (hfree : ∀ g, g ∉ ps → t.free g = s.free g)
    (hap : ∀ g ∈ y.memSgt, g ∉ ps) : Out t y := by
  have hsame : ∀ g ∈ y.memSgt, s.hyp.SameAt g t.hyp := fun g hmem => hin.same hw g (hap g hmem)
  refine ⟨hy.plain, hy.type, hy.entries, hy.pages, fun g hmem => ?_, fun hinv g hmem => ?_⟩
  · obtain ⟨hf, ha, hl⟩ := hy.held g hmem
    exact ⟨(hfree g (hap g hmem)).trans hf, (hsame g hmem).assigned.trans ha,
      (hsame g hmem).lost.trans hl⟩
  · exact (hsame g hmem).host (hy.bare hinv g hmem)

omit [DecidableEq Page] in
/-- A step that concerns only the pages `ps`: what is left to show is about them. -/
theorem Inv.of_within (hI : Inv free₀ s) (ps : List Page) (hin : s.hyp.Within ps t.hyp)
    (hfree : ∀ g, g ∉ ps → t.free g = s.free g)
    (hlist : ∀ y ∈ t.list, (y ∈ s.list ∧ ∀ g ∈ y.memSgt, g ∉ ps) ∨ Out t y)
    (hkeep : ∀ y ∈ s.list, y ∈ t.list ∨ ∀ g ∈ y.memSgt, g ∈ ps)
    (hap : t.list.Pairwise XferMem.Apart) (hids : ∀ y ∈ t.list, y.objId ∈ t.objIds)
    (hhome : ∀ g ∈ ps, t.free g = true → t.hyp.Home g)
    (hacc : ∀ g ∈ ps, t.free g = true ∨ (∃ x ∈ t.list, g ∈ x.memSgt) ∨ t.hyp.lost g = true) :
    Inv free₀ t := by
  refine ⟨hin.wf hI.wf, fun g hf => ?_, fun y hy => ?_, hap, hids, fun g h₀ => ?_⟩
  · by_cases hmem : g ∈ ps
    · exact hhome g hmem hf
    · exact (hin.same hI.wf g hmem).home (hI.home g ((hfree g hmem).symm.trans hf))
  · rcases hlist y hy with ⟨hys, hoff⟩ | hout
    · exact (hI.out y hys).of_within hI.wf hin hfree hoff
    · exact hout
  · by_cases hmem : g ∈ ps
    · exact hacc g hmem
    · rcases hI.accounted g h₀ with hf | ⟨y, hy, hgy⟩ | hl
      · exact .inl ((hfree g hmem).trans hf)
      · rcases hkeep y hy with hyt | hin'
        · exact .inr (.inl ⟨y, hyt, hgy⟩)
        · exact absurd (hin' g hgy) hmem
      · exact .inr (.inr ((hin.same hI.wf g hmem).lost.trans hl))

theorem Inv.gone (hI : Inv free₀ s) (hx : x ∈ s.list) (hg : Gone x (listDel x s) t) :
    Inv free₀ t := by
  have hlist : t.list = s.list.erase x := hg.list
  have hnd : s.list.Nodup :=
    List.Pairwise.imp (fun hap he => hap.1 (congrArg XferMem.objId he)) hI.apart
  have hother : ∀ y ∈ t.list, y ∈ s.list ∧ y.Apart x := by
    intro y hy
    rw [hlist] at hy
    obtain ⟨hne, hym⟩ := hnd.mem_erase_iff.1 hy
    exact ⟨hym, hI.apart.forall hym hx hne⟩
  refine hI.of_within x.memSgt hg.within hg.free ?_ ?_ ?_ ?_ ?_ ?_
  · exact fun y hy => .inl ⟨(hother y hy).1, (hother y hy).2.2⟩
  · intro y hy
    by_cases hne : y = x
    · exact .inr fun g hgy => hne ▸ hgy
    · exact .inl (hlist ▸ (mem_erase_of_ne hne).2 hy)
  · rw [hlist]
    exact hI.apart.sublist erase_sublist
  · exact fun y hy => hg.ids _ (hI.ids y (hother y hy).1) (hother y hy).2.1
  · intro g hmem hf
    rcases hg.pages with hp | hp
    · exact (hp g hmem).2
    · have hout := ((hI.out x hx).held g hmem).1
      rw [(hp g hmem).1] at hf
      exact absurd (hf.symm.trans hout) (by decide)
  · intro g hmem
    rcases hg.pages with hp | hp
    · exact .inl (hp g hmem).1
    · exact .inr (.inr (hp g hmem).2)

theorem Inv.cleanup (hI : Inv free₀ s) (hx : x ∈ s.list) (hret : Returns s.hyp x hdl env) :
    Inv free₀ (memBufCleanupAllocReq x hdl env (listDel x s)) ∧
      Gone x (listDel x s) (memBufCleanupAllocReq x hdl env (listDel x s)) := by
  have hxs := hI.out x hx
  have hx' : Out (listDel x s) x :=
    ⟨hxs.plain, hxs.type, hxs.entries, hxs.pages, hxs.held, hxs.bare⟩
  have hg : Gone x (listDel x s) (memBufCleanupAllocReq x hdl env (listDel x s)) :=
    gone_cleanup hI.wf hx' hret
  exact ⟨hI.gone hx hg, hg⟩

omit [DecidableEq Page] in
theorem prep_eq_ok {req : AllocReq} {aenv : AllocEnv Page}
    (hp : memBufPrepXferMem req aenv s = .ok x) :
    x.objId ∉ s.objIds ∧ x.nrAclEntries = 1 ∧ x.dstVmids.length = 1 ∧
      (x.dstVmids.zip x.dstPerms).map Prod.fst = x.dstVmids := by
  unfold memBufPrepXferMem at hp
  cases hobj : aenv.objId with
  | error e =>
    simp only [hobj] at hp
    split_ifs at hp
  | ok id =>
    cases hdata : memBufAllocXferMemTypeData req.srcMemType aenv.typeData with
    | error e =>
      simp only [hobj, hdata] at hp
      split_ifs at hp
    | ok u =>
      simp only [hobj, hdata] at hp
      split_ifs at hp with hlen harb hk hid hv
      cases hp
      have hone : req.acl.length = 1 := not_not.1 hlen
      exact ⟨hid, hone, by simpa using hone, by simp [map_fst_zip]⟩

theorem rmtAlloc_eq_ok {ps : Except Errno (List Page)}
    (ha : memBufRmtAllocMem x ps s = .ok (y, t)) :
    ∃ qs, qs ≠ [] ∧ (∀ g ∈ qs, s.free g = true) ∧
      (x.memType = memBufDmaheapMemType ∨ x.memType = memBufBuddyMemType) ∧
      y = { x with memSgt := qs, secureAlloc := false } ∧
      t = { s with free := onPages qs false s.free } := by
  unfold memBufRmtAllocMem at ha
  split_ifs at ha with htype
  split at ha
  · cases ha
  · split_ifs at ha with hc
    cases ha
    exact ⟨_, hc.1, hc.2.2, htype, rfl, rfl⟩

/-! An allocation takes free pages, so that it meets no transfer that is out. -/
section Alloc
variable {ps : List Page} {h' : Hyp Page}

omit [DecidableEq Page] in
theorem Inv.notMem_of_free (hI : Inv free₀ s) (hfree : ∀ g ∈ ps, s.free g = true)
    (hy : y ∈ s.list) : ∀ g ∈ y.memSgt, g ∉ ps := by
  intro g hgy hgps
  have hout := ((hI.out y hy).held g hgy).1
  exact absurd ((hfree g hgps).symm.trans hout) (by decide)

omit [DecidableEq Page] in
theorem Inv.tried (hI : Inv free₀ s) (hfree : ∀ g ∈ ps, s.free g = true)
    (hin : s.hyp.Within ps h') {f : Page → Bool} (hf : ∀ g, g ∉ ps → f g = s.free g)
    (hps : (∀ g ∈ ps, f g = true ∧ h'.Home g) ∨ ∀ g ∈ ps, f g = false ∧ h'.lost g = true) :
    Inv free₀ { s with hyp := h', free := f } := by
  refine hI.of_within ps hin hf (fun y hy => .inl ⟨hy, hI.notMem_of_free hfree hy⟩)
    (fun y hy => .inl hy) hI.apart hI.ids (fun g hg ht => ?_) fun g hg => ?_
  · rcases hps with hh | hl
    · exact (hh g hg).2
    · exact absurd (ht.symm.trans (hl g hg).1) (by decide)
  · rcases hps with hh | hl
    · exact .inl (hh g hg).1
    · exact .inr (.inr (hl g hg).2)

theorem Inv.listed (hI : Inv free₀ s) (hfree : ∀ g ∈ x.memSgt, s.free g = true)
    (hin : s.hyp.Within x.memSgt h') (hid : x.objId ∉ s.objIds)
    (hx : Out { s with hyp := h', free := onPages x.memSgt false s.free } x) :
    Inv free₀ ⟨h', onPages x.memSgt false s.free, x :: s.list, x.objId :: s.objIds⟩ := by
  refine hI.of_within x.memSgt hin (fun g hg => onPages_of_notMem hg _ _) (fun y hy => ?_)
    (fun y hy => .inl (mem_cons_of_mem x hy)) (pairwise_cons.2 ⟨fun y hy => ?_, hI.apart⟩)
    (fun y hy => ?_) (fun g hg ht => ?_) fun g hg => .inr (.inl ⟨x, mem_cons_self, hg⟩)
  · rcases mem_cons.1 hy with rfl | hys
    · exact .inr ⟨hx.plain, hx.type, hx.entries, hx.pages, hx.held, hx.bare⟩
    · exact .inl ⟨hys, hI.notMem_of_free hfree hys⟩
  · have hne : x.objId ≠ y.objId := fun he => hid (he ▸ hI.ids y hy)
    exact ⟨hne, fun g hgx hgy => hI.notMem_of_free hfree hy g hgy hgx⟩
  · rcases mem_cons.1 hy with rfl | hys
    · exact mem_cons_self
    · exact mem_cons_of_mem _ (hI.ids y hys)
  · exact absurd (ht.symm.trans (onPages_of_mem hg _ _)) (by decide)

variable (hI : Inv free₀ s) (req : AllocReq) (aenv : AllocEnv Page)
include hI req aenv

theorem inv_processAllocReq : match memBufProcessAllocReq req aenv s with
    | (.error _, t) => Inv free₀ t
    | (.ok x, t) => Inv free₀ t ∧ x ∈ t.list ∧
        (x.hdl ≠ memBufMemparcelInvalid → Reclaimable t.hyp x.hdl x.memSgt) := by
  unfold memBufProcessAllocReq
  cases hp : memBufPrepXferMem req aenv s with
  | error e => exact hI
  | ok x =>
    obtain ⟨hid, hnr, hlen, hacl⟩ := prep_eq_ok hp
    dsimp only
    cases ha : memBufRmtAllocMem x aenv.pages { s with objIds := x.objId :: s.objIds } with
    | error e =>
      simp only [memBufFreeXferMem, erase_cons_head]
      exact hI
    | ok r =>
      obtain ⟨y, t⟩ := r
      obtain ⟨ps, hne, hfree, htype, rfl, rfl⟩ := rmtAlloc_eq_ok ha
      have hspec := assignMem_spec req.xferType (x.dstVmids.zip x.dstPerms) aenv.assign
        fun g hg => hI.home g (hfree g hg)
      have hin := within_assignMem req.xferType ps (x.dstVmids.zip x.dstPerms) aenv.assign s.hyp
      dsimp only
      cases hasg : memBufAssignMem req.xferType ps (x.dstVmids.zip x.dstPerms) aenv.assign s.hyp with
      | mk res h' =>
        rw [hasg] at hspec hin
        cases res with
        | error e =>
          by_cases he : e = EADDRNOTAVAIL
          · simp only [he, if_true] at hspec
            simp only [memBufFreeXferMem, he, ne_eq, not_true_eq_false, if_false, erase_cons_head]
            exact hI.tried hfree hin (fun g hg => onPages_of_notMem hg _ _)
              (.inr fun g hg => ⟨onPages_of_mem hg _ _, hspec g hg⟩)
          · simp only [he, if_false] at hspec
            simp only [memBufFreeXferMem, memBufRmtFreeMem, erase_cons_head, ne_eq, he,
              not_false_eq_true, if_true, if_pos htype]
            refine hI.tried hfree hin (fun g hg => ?_)
              (.inl fun g hg => ⟨onPages_of_mem hg _ _, hspec g hg⟩)
            rw [onPages_of_notMem hg, onPages_of_notMem hg]
        | ok hdl =>
          obtain ⟨hheld, hhdl⟩ := hspec
          rw [hacl] at hheld
          refine ⟨Inv.listed (x := ⟨x.size, x.memType, ps, false, req.xferType, hdl, x.nrAclEntries,
            x.dstVmids, x.dstPerms, x.objId⟩) hI hfree hin hid ?_, mem_cons_self,
            fun hinv => ?_⟩
          · refine ⟨rfl, htype, ⟨hnr, hlen⟩, hne,
              fun g hg => ⟨onPages_of_mem hg _ _, hheld g hg⟩, fun hinv => ?_⟩
            rwa [if_pos hinv] at hhdl
          · rwa [if_neg hinv] at hhdl

theorem inv_allocReqWork (hok : Cooperative s (.allocReq req aenv)) :
    Inv free₀ (memBufAllocReqWork req aenv s) := by
  have hspec := inv_processAllocReq hI req aenv
  unfold memBufAllocReqWork
  cases hproc : memBufProcessAllocReq req aenv s with
  | mk res t =>
    rw [hproc] at hspec
    cases res with
    | error e => exact hspec
    | ok x =>
      obtain ⟨hIt, hx, hrec⟩ := hspec
      split_ifs with hresp
      · exact hIt
      · have hb := hok.resolve_left hresp
        refine (hIt.cleanup hx ?_).1
        unfold Returns
        rw [if_pos rfl]
        exact ⟨hrec, hb.1, hb.2⟩

end Alloc

/-! The shutdown of a VM cleans up its transfers one after the other. -/

omit [DecidableEq Page] in
theorem Reclaimable.of_within {h h' : Hyp Page} {ps qs : List Page} (hr : Reclaimable h hdl qs)
    (hw : h.Wf) (hin : h.Within ps h') (hne : qs ≠ []) (hap : ∀ g ∈ qs, g ∉ ps) :
    Reclaimable h' hdl qs := by
  unfold Reclaimable at hr ⊢
  cases hP : h.parcel hdl with
  | none => simp [hP] at hr
  | some P =>
    simp only [hP] at hr
    obtain ⟨hPm, rfl⟩ := Hyp.mem_of_parcel hP
    obtain ⟨g, hg⟩ := exists_mem_of_ne_nil qs hne
    have hmem : P ∈ h'.parcels :=
      ((hin.same hw g (hap g hg)).parcels P (hr.2.2.2 g hg)).2 hPm
    rw [(hin.wf hw).parcel_eq hmem]
    exact hr

theorem inv_relinquish_fold {vmid : Vmid} {envs : UInt32 → CleanupEnv} (l : List (XferMem Page))
    (hI : Inv free₀ s) (hsub : ∀ x ∈ l, x ∈ s.list) (hap : l.Pairwise XferMem.Apart)
    (hok : ∀ x ∈ l, x.dstVmids = [vmid] → Returns s.hyp x x.hdl (envs x.objId)) :
    Inv free₀ (l.foldl (relinquishIfTo vmid envs) s) := by
  induction l generalizing s with
  | nil => exact hI
  | cons x l ih =>
    obtain ⟨hapx, hapl⟩ := pairwise_cons.1 hap
    have hx := hsub x mem_cons_self
    rw [foldl_cons]
    by_cases hto : x.nrAclEntries = 1 ∧ x.dstVmids.head? = some vmid
    · have hdst : x.dstVmids = [vmid] := by
        obtain ⟨v, hv⟩ := length_eq_one_iff.1 (hI.out x hx).entries.2
        simpa [hv] using hto.2
      obtain ⟨hIt, hgone⟩ := hI.cleanup hx (hok x mem_cons_self hdst)
      rw [relinquishIfTo, if_pos hto]
      refine ih hIt (fun y hy => ?_) hapl fun y hy hydst => ?_
      · rw [hgone.list]
        have hne : y ≠ x := fun he => (hapx y hy).1 (congrArg XferMem.objId he.symm)
        exact (mem_erase_of_ne hne).2 (hsub y (mem_cons_of_mem x hy))
      · have hy' := mem_cons_of_mem x hy
        have hret := hok y hy' hydst
        unfold Returns at hret ⊢
        rw [if_pos rfl] at hret ⊢
        refine ⟨fun hinv => ?_, hret.2⟩
        exact (hret.1 hinv).of_within hI.wf hgone.within (hI.out y (hsub y hy')).pages
          (hapx y hy).symm.2
    · rw [relinquishIfTo, if_neg hto]
      exact ih hI (fun y hy => hsub y (mem_cons_of_mem x hy)) hapl
        fun y hy => hok y (mem_cons_of_mem x hy)

omit [DecidableEq Page] in
theorem Inv.guest {h' : Hyp Page} (hI : Inv free₀ s) (hg : GuestStep s.hyp h') :
    Inv free₀ { s with hyp := h' } := by
  refine ⟨hg.wf hI.wf, fun g hf => ?_, fun x hx => ?_, hI.apart, hI.ids, fun g h₀ => ?_⟩
  · have hh := hI.home g hf
    exact ⟨hg.host hI.wf g hh.toHost, (congrFun hg.assigned g).trans hh.assigned,
      (congrFun hg.lost g).trans hh.lost⟩
  · have hx' := hI.out x hx
    refine ⟨hx'.plain, hx'.type, hx'.entries, hx'.pages, fun g hgx => ?_, fun hinv g hgx => ?_⟩
    · obtain ⟨hf, ha, hl⟩ := hx'.held g hgx
      exact ⟨hf, (congrFun hg.assigned g).trans ha, (congrFun hg.lost g).trans hl⟩
    · exact hg.host hI.wf g (hx'.bare hinv g hgx)
  · rcases hI.accounted g h₀ with hf | hx | hl
    · exact .inl hf
    · exact .inr (.inl hx)
    · exact .inr (.inr ((congrFun hg.lost g).trans hl))

omit [DecidableEq Page] in
theorem inv_guest {vm : Vmid} {o : Option (Hyp Page)} (hI : Inv free₀ s)
    (hg : vm ≠ vmidHlos → ∀ h', o = some h' → GuestStep s.hyp h') (hs : guest s vm o = some t) :
    Inv free₀ t := by
  unfold guest at hs
  split_ifs at hs with hvm
  cases hs
  cases ho : o with
  | none => exact hI
  | some h' => exact hI.guest (hg hvm h' ho)

theorem inv_step (hI : Inv free₀ s) {e : Event Page} (hok : Cooperative s e)
    (hs : step s e = some t) : Inv free₀ t := by
  cases e with
  | allocReq req aenv =>
    cases hs
    exact inv_allocReqWork hI req aenv hok
  | relinquish sender objId hdl env =>
    cases hs
    unfold memBufRelinquishWork
    split
    · exact hI
    · rename_i x hx
      have hmem := mem_of_find?_eq_some hx
      have hobj : x.objId = objId := by simpa using List.find?_some hx
      exact (hI.cleanup hmem (hok x hmem hobj).2).1
  | relinquishAll vmid envs =>
    cases hs
    exact inv_relinquish_fold s.list hI (fun _ hx => hx) hI.apart hok
  | give vm op acl pages hdl => exact inv_guest hI (fun hvm _ => guestStep_give hvm) hs
  | accept vm op hdl =>
    refine inv_guest hI (fun _ h' ho => ?_) hs
    obtain ⟨⟨ps, h''⟩, hacc, rfl⟩ := Option.map_eq_some_iff.1 ho
    exact guestStep_accept hacc
  | release vm hdl =>
    refine inv_guest hI (fun _ h' ho => ?_) hs
    cases ho
    exact guestStep_setHolders s.hyp hdl _
  | reclaim vm hdl => exact inv_guest hI (fun _ _ => guestStep_reclaim) hs

omit [DecidableEq Page] in
theorem Fresh.inv (hs : Fresh s) : Inv s.free s := by
  refine ⟨hs.wf, hs.home, ?_, ?_, ?_, fun g hg => .inl hg⟩
  all_goals simp [hs.list]

def Untouched (x : XferMem Page) (s t : Supplier Page) : Prop :=
  x ∈ t.list ∧ ∀ g ∈ x.memSgt, t.free g = s.free g ∧ s.hyp.SameAt g t.hyp

theorem untouched_relinquish (hI : Inv free₀ s) {sender : Vmid} {objId : UInt32}
    (hok : Cooperative s (.relinquish sender objId hdl env)) (hx : x ∈ s.list)
    (hto : x.dstVmids ≠ [sender]) : Untouched x s (memBufRelinquishWork objId hdl env s) := by
  unfold memBufRelinquishWork
  split
  · exact ⟨hx, fun g _ => ⟨rfl, .refl g _⟩⟩
  · rename_i y hy
    have hmem := mem_of_find?_eq_some hy
    have hobj : y.objId = objId := by simpa using List.find?_some hy
    obtain ⟨hdst, hret⟩ := hok y hmem hobj
    have hne : x ≠ y := by
      rintro rfl
      exact hto hdst
    obtain ⟨-, hgone⟩ := hI.cleanup hmem hret
    have hap := (hI.apart.forall hx hmem hne).2
    refine ⟨?_, fun g hg => ⟨hgone.free g (hap g hg), hgone.within.same hI.wf g (hap g hg)⟩⟩
    rw [hgone.list]
    exact (mem_erase_of_ne hne).2 hx

/-- In every run of cooperative steps, from an allocator whose pages are the host's alone: pages in
the allocator are out of every other VM's reach, a relinquish message touches no transfer of
another VM, and a page that has left the allocator is in a listed transfer, unless it was lost. -/
theorem supplier_isolates {s₀ : Supplier Page} {es : List (Event Page)} (hfresh : Fresh s₀)
    (hok : Along step Cooperative s₀ es) (hrun : run step s₀ es = some s) :
    (∀ g, s.free g = true → ∀ vm, vm ≠ vmidHlos → ¬ s.hyp.Reaches vm g) ∧
    (∀ sender objId hdl env t, Cooperative s (.relinquish sender objId hdl env) →
      step s (.relinquish sender objId hdl env) = some t →
      ∀ x ∈ s.list, x.dstVmids ≠ [sender] → Untouched x s t) ∧
    ∀ g, s₀.free g = true →
      s.free g = true ∨ (∃ x ∈ s.list, g ∈ x.memSgt) ∨ s.hyp.lost g = true := by
  have hI : Inv s₀.free s :=
    run_invariant (fun _ _ _ hI hok hs => inv_step hI hok hs) hfresh.inv hok hrun
  refine ⟨fun g hf vm hvm => (hI.home g hf).not_reaches hvm, ?_, hI.accounted⟩
  intro sender objId hdl env t hco hs x hx hto
  cases hs
  exact untouched_relinquish hI hco hx hto

/-- In the same runs no page is in two transfers, and a page in one is out of the allocator and
assigned to its VM. -/
theorem transfers_stay_apart {s₀ : Supplier Page} {es : List (Event Page)} (hfresh : Fresh s₀)
    (hok : Along step Cooperative s₀ es) (hrun : run step s₀ es = some s) :
    s.list.Pairwise XferMem.Apart ∧
    ∀ x ∈ s.list, ∀ g ∈ x.memSgt, s.free g = false ∧ s.hyp.assigned g = x.dstVmids := by
  have hI := run_invariant (fun _ _ _ hI hok hs => inv_step hI hok hs) hfresh.inv hok hrun
  refine ⟨hI.apart, fun x hx g hg => ?_⟩
  obtain ⟨hfree, hassigned, -⟩ := (hI.out x hx).held g hg
  exact ⟨hfree, hassigned⟩

/-! Two pages, lent or donated by requests that succeed in every call. -/
section Runs

def hostPages : Supplier Nat where
  hyp := ⟨[], fun _ => vmidHlos, fun _ => [vmidHlos], fun _ => false⟩
  free g := decide (g < 2)
  list := []
  objIds := []

def noFailure : CleanupEnv := ⟨⟨none, none⟩, true, ⟨none, none, .error ENOMEM⟩⟩

def request (op : UInt32) (vm : Vmid) (page : Nat) (objId hdl : UInt32) : Event Nat :=
  .allocReq ⟨4096, memBufBuddyMemType, op, [(vm, 7)], true⟩
    ⟨true, .ok objId, true, true, .ok [page], ⟨none, .ok hdl, none⟩, true, noFailure⟩

theorem fresh_hostPages : Fresh hostPages :=
  ⟨⟨.nil, fun _ hP => absurd hP not_mem_nil⟩,
    fun _ _ => ⟨⟨rfl, fun _ hP => absurd hP not_mem_nil⟩, rfl, rfl⟩, rfl⟩

def lendAndReturn : List (Event Nat) :=
  [request ghRmTransTypeLend vmidTvm 0 1 10, .accept vmidTvm ghRmTransTypeLend 10,
    .release vmidTvm 10, .relinquish vmidTvm 1 10 noFailure]

theorem supplier_isolates_lent_page : ∃ s, run step hostPages lendAndReturn = some s ∧
    s.free 0 = true ∧ ∀ vm, vm ≠ vmidHlos → ¬ s.hyp.Reaches vm 0 :=
  exists_run_and (by decide) fun _ hrun hf =>
    (supplier_isolates fresh_hostPages (by decide) hrun).1 0 hf

theorem transfers_stay_apart_two_pages :
    ∃ s, run step hostPages [request ghRmTransTypeLend vmidTvm 0 1 10,
        request ghRmTransTypeLend vmidOemvm 1 2 11] = some s ∧ s.list.length = 2 ∧
      s.list.Pairwise XferMem.Apart :=
  exists_run_and (by decide) fun _ hrun _ =>
    (transfers_stay_apart fresh_hostPages (by decide) hrun).1

/-- The trusted VM returns a loan under the handle of another, donated page and keeps the loan; it
returns a loan of the OEM VM; and a loan that it still holds when it returns it drops out of the
list for good. -/
theorem relinquish_breaks_isolation :
    (∃ s, run step hostPages
        [request ghRmTransTypeLend vmidTvm 0 1 10, .accept vmidTvm ghRmTransTypeLend 10,
          request ghRmTransTypeDonate vmidTvm 1 2 11, .accept vmidTvm ghRmTransTypeDonate 11,
          .give vmidTvm ghRmTransTypeDonate [(vmidHlos, 7)] [1] 12,
          .relinquish vmidTvm 1 12 noFailure] = some s ∧
      s.free 0 = true ∧ ∃ P ∈ s.hyp.parcels, 0 ∈ P.pages ∧ vmidTvm ∈ P.holders) ∧
    (∃ s, run step hostPages [request ghRmTransTypeLend vmidOemvm 0 1 10] = some s ∧
      ∃ x ∈ s.list, x.dstVmids = [vmidOemvm] ∧ x ∉ (memBufRelinquishWork 1 10 noFailure s).list) ∧
    ∃ s, run step hostPages
        [request ghRmTransTypeLend vmidTvm 0 1 10, .accept vmidTvm ghRmTransTypeLend 10,
          .relinquish vmidTvm 1 10 noFailure, .release vmidTvm 10] = some s ∧
      s.free 0 = false ∧ s.list = [] ∧ s.hyp.lost 0 = false := by
  refine ⟨exists_run_of_map (by decide), exists_run_of_map (by decide),
    exists_run_of_map (by decide)⟩

end Runs

end MsmKernel.MemBuf
