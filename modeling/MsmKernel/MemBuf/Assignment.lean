import MsmKernel.MemBuf.Hypervisor

/-! The mem-buf calls that go through the monitor and Gunyah, what each of them does to a page, and
what the other VMs can do in between. -/
namespace MsmKernel.MemBuf
variable {Page : Type} [DecidableEq Page]

/- `hyp_assign_table`: all or nothing, and only from the current assignment. -/
def memBufHypAssignTable (pages : List Page) (src dst : List Vmid) (fail : Option Errno)
    (h : Hyp Page) : Except Errno Unit × Hyp Page :=
  match fail with
  | some e => (.error e, h.lose e pages)
  | none =>
    if ∀ g ∈ pages, h.assigned g = src then
      (.ok (), { h with assigned := onPages pages dst h.assigned })
    else (.error EINVAL, h)

def memBufAssignMemGunyah (op : UInt32) (pages : List Page) (acl : List (Vmid × Nat))
    (res : Except Errno UInt32) (h : Hyp Page) : Except Errno UInt32 × Hyp Page :=
  match memBufVmUsesGunyah (acl.map Prod.fst) with
  | .error e => (.error e, h)
  | .ok false => (.ok memBufMemparcelInvalid, h)
  | .ok true =>
    match res with
    | .error e => (.error e, h.lose e pages)
    | .ok hdl =>
      if op = ghRmTransTypeLend ∨ op = ghRmTransTypeShare ∨ op = ghRmTransTypeDonate then
        match h.give vmidHlos op acl pages hdl with
        | none => (.error EINVAL, h)
        | some h' => (.ok hdl, h')
      else (.error EINVAL, h)

structure AssignEnv where
  hypAssign : Option Errno
  gunyah : Except Errno UInt32
  undo : Option Errno

def memBufAssignMem (op : UInt32) (pages : List Page) (acl : List (Vmid × Nat))
    (env : AssignEnv) (h : Hyp Page) : Except Errno UInt32 × Hyp Page :=
  match memBufHypAssignTable pages [vmidHlos] (acl.map Prod.fst) env.hypAssign h with
  | (.error e, h₁) => (.error e, h₁)
  | (.ok _, h₁) =>
    match memBufAssignMemGunyah op pages acl env.gunyah h₁ with
    | (.ok hdl, h₂) => (.ok hdl, h₂)
    | (.error e, h₂) =>
      match memBufHypAssignTable pages (acl.map Prod.fst) [vmidHlos] env.undo h₂ with
      | (.ok _, h₃) => (.error e, h₃)
      | (.error _, h₃) => (.error EADDRNOTAVAIL, h₃.lose EADDRNOTAVAIL pages)

structure UnassignEnv where
  reclaim : Option Errno
  hypAssign : Option Errno

def memBufUnassignMemGunyah (pages : List Page) (hdl : UInt32) (fail : Option Errno)
    (h : Hyp Page) : Except Errno Unit × Hyp Page :=
  match fail with
  | some e => (.error e, h.lose e pages)
  | none =>
    match h.reclaim vmidHlos hdl with
    | none => (.error EINVAL, h)
    | some h' => (.ok (), h')

def memBufUnassignMem (pages : List Page) (src : List Vmid) (hdl : UInt32) (env : UnassignEnv)
    (h : Hyp Page) : Except Errno Unit × Hyp Page :=
  if hdl ≠ memBufMemparcelInvalid then
    match memBufUnassignMemGunyah pages hdl env.reclaim h with
    | (.error e, h₁) => (.error e, h₁)
    | (.ok _, h₁) => memBufHypAssignTable pages src [vmidHlos] env.hypAssign h₁
  else memBufHypAssignTable pages src [vmidHlos] env.hypAssign h

structure MapEnv where
  accept : Option Errno
  hypAssign : Option Errno
  redonate : Except Errno UInt32

def memBufMapMemS2CleanupDonate (pages : List Page) (src : Vmid) (res : Except Errno UInt32)
    (h : Hyp Page) : Except Errno UInt32 × Hyp Page :=
  memBufAssignMemGunyah ghRmTransTypeDonate pages [(src, 7)] res h

def memBufMapMemS2 (hdl : UInt32) (src : Vmid) (env : MapEnv) (h : Hyp Page) :
    Except Errno (List Page) × Hyp Page :=
  match env.accept with
  | some e => (.error e, h.lose e ((h.parcel hdl).elim [] Parcel.pages))
  | none =>
    match h.accept vmidHlos ghRmTransTypeDonate hdl with
    | none => (.error EINVAL, h)
    | some (pages, h₁) =>
      match memBufHypAssignTable pages [src] [vmidHlos] env.hypAssign h₁ with
      | (.ok _, h₂) => (.ok pages, h₂)
      | (.error e, h₂) =>
        match memBufMapMemS2CleanupDonate pages src env.redonate h₂ with
        | (.ok _, h₃) => (.error e, h₃)
        | (.error _, h₃) => (.error EADDRNOTAVAIL, h₃.lose EADDRNOTAVAIL pages)

variable {α : Type} {ps : List Page} {P : Parcel Page}

section Calls
variable {h h' : Hyp Page} {g : Page} {pages : List Page} {src dst : List Vmid}
  {fail : Option Errno} {e : Errno} {hdl op : UInt32} {acl : List (Vmid × Nat)}
  {res : Except Errno UInt32}

theorem within_hypAssignTable (pages : List Page) (src dst : List Vmid) (fail : Option Errno)
    (h : Hyp Page) : h.Within pages (memBufHypAssignTable pages src dst fail h).2 := by
  cases fail with
  | some e => exact Hyp.within_lose h e pages
  | none =>
    simp only [memBufHypAssignTable]
    split_ifs
    · exact Hyp.within_assigned h pages dst
    · exact .refl pages h

theorem within_assignMemGunyah (op : UInt32) (pages : List Page) (acl : List (Vmid × Nat))
    (res : Except Errno UInt32) (h : Hyp Page) :
    h.Within pages (memBufAssignMemGunyah op pages acl res h).2 := by
  unfold memBufAssignMemGunyah
  split
  · exact .refl pages h
  · exact .refl pages h
  · split
    · exact Hyp.within_lose h _ pages
    · split_ifs
      · split
        · exact .refl pages h
        · rename_i hgive
          exact Hyp.within_give hgive
      · exact .refl pages h

theorem usesGunyah_error {vs : List Vmid} (he : memBufVmUsesGunyah vs = .error e) : e = EINVAL := by
  induction vs with
  | nil => simp [memBufVmUsesGunyah, memBufVms, vmidHlos, vmidTvm, vmidOemvm] at he
  | cons v vs ih =>
    unfold memBufVmUsesGunyah at he
    split at he
    · exact (Except.error.inj he).symm
    · cases he
    · exact ih he

/-- The host can take the pages back under the handle: nobody else holds the parcel. -/
def Reclaimable (h : Hyp Page) (hdl : UInt32) (pages : List Page) : Prop :=
  match h.parcel hdl with
  | none => False
  | some P => P.creator = vmidHlos ∧ (∀ v ∈ P.holders, v = vmidHlos) ∧
      (∀ g ∈ P.pages, g ∈ pages) ∧ ∀ g ∈ pages, g ∈ P.pages

theorem assignMemGunyah_ok (hok : memBufAssignMemGunyah op pages acl res h = (.ok hdl, h')) :
    h'.assigned = h.assigned ∧ h'.lost = h.lost ∧
      (hdl = memBufMemparcelInvalid ∧ h' = h ∨
        hdl ≠ memBufMemparcelInvalid ∧ Reclaimable h' hdl pages) := by
  unfold memBufAssignMemGunyah at hok
  split at hok
  · cases hok
  · cases hok
    exact ⟨rfl, rfl, .inl ⟨rfl, rfl⟩⟩
  · split at hok
    · cases hok
    · split_ifs at hok
      · split at hok
        · cases hok
        · rename_i hgive
          cases hok
          have hne : hdl ≠ memBufMemparcelInvalid := by
            unfold Hyp.give at hgive
            split_ifs at hgive with hc
            exact hc.1
          obtain ⟨-, -, rfl⟩ := Hyp.give_eq_some hgive
          exact ⟨rfl, rfl, .inr ⟨hne, by simp [Reclaimable, Hyp.parcel]⟩⟩
      · cases hok

theorem assignMemGunyah_error (herr : memBufAssignMemGunyah op pages acl res h = (.error e, h')) :
    h' = h.lose e pages := by
  have hsame : h = h.lose EINVAL pages := (Hyp.lose_of_ne (by decide)).symm
  unfold memBufAssignMemGunyah at herr
  split at herr
  · rename_i he
    cases herr
    rw [usesGunyah_error he]
    exact hsame
  · cases herr
  · split at herr
    · cases herr
      rfl
    · split_ifs at herr
      · split at herr
        · cases herr
          exact hsame
        · cases herr
      · cases herr
        exact hsame

/-- A failure that is none, or that says the pages are lost. -/
def Benign (fail : Option Errno) : Prop := fail = none ∨ fail = some EADDRNOTAVAIL

/-- The pages are home after a success and lost after a failure; the others are untouched. -/
def Settles {α : Type} (pages : List Page) (h : Hyp Page) (r : Except Errno α × Hyp Page) : Prop :=
  h.Within pages r.2 ∧
    match r with
    | (.ok _, h') => ∀ g ∈ pages, h'.Home g
    | (.error _, h') => ∀ g ∈ pages, h'.lost g = true

theorem settles_hypAssignTable (hfail : Benign fail) (hhost : ∀ g ∈ pages, h.Host g)
    (hpages : ∀ g ∈ pages, h.assigned g = src ∧ h.lost g = false) :
    Settles pages h (memBufHypAssignTable pages src [vmidHlos] fail h) := by
  refine ⟨within_hypAssignTable pages src [vmidHlos] fail h, ?_⟩
  rcases hfail with rfl | rfl
  · have hsrc : ∀ g ∈ pages, h.assigned g = src := fun g hg => (hpages g hg).1
    simp only [memBufHypAssignTable, if_pos hsrc]
    intro g hg
    exact ⟨⟨(hhost g hg).owner, (hhost g hg).idle⟩, onPages_of_mem hg _ _, (hpages g hg).2⟩
  · exact fun g hg => Hyp.lost_lose hg

theorem settles_lose (h : Hyp Page) (pages : List Page) :
    Settles pages h ((.error EADDRNOTAVAIL, h.lose EADDRNOTAVAIL pages) : Except Errno α × _) :=
  ⟨Hyp.within_lose h EADDRNOTAVAIL pages, fun _ hg => Hyp.lost_lose hg⟩

omit [DecidableEq Page] in
theorem Settles.after {r : Except Errno α × Hyp Page} (hr : Settles pages h' r)
    (hin : h.Within pages h') : Settles pages h r :=
  ⟨hin.trans hr.1, hr.2⟩

omit [DecidableEq Page] in
theorem Settles.congr {r : Except Errno α × Hyp Page} (hr : Settles ps h r)
    (hsub : ∀ g ∈ ps, g ∈ pages) (hsup : ∀ g ∈ pages, g ∈ ps) : Settles pages h r := by
  obtain ⟨res, h'⟩ := r
  refine ⟨hr.1.mono hsub, ?_⟩
  cases res with
  | _ => exact fun g hg => hr.2 g (hsup g hg)

theorem within_assignMem (op : UInt32) (pages : List Page) (acl : List (Vmid × Nat))
    (env : AssignEnv) (h : Hyp Page) : h.Within pages (memBufAssignMem op pages acl env h).2 := by
  have hfirst := within_hypAssignTable pages [vmidHlos] (acl.map Prod.fst) env.hypAssign h
  unfold memBufAssignMem
  split
  · rename_i h₁ heq
    rwa [heq] at hfirst
  · rename_i h₁ heq
    rw [heq] at hfirst
    have hgun := within_assignMemGunyah op pages acl env.gunyah h₁
    split
    · rename_i h₂ hg
      rw [hg] at hgun
      exact hfirst.trans hgun
    · rename_i h₂ hg
      rw [hg] at hgun
      have hundo := within_hypAssignTable pages (acl.map Prod.fst) [vmidHlos] env.undo h₂
      split
      · rename_i h₃ hu
        rw [hu] at hundo
        exact (hfirst.trans hgun).trans hundo
      · rename_i h₃ hu
        rw [hu] at hundo
        exact ((hfirst.trans hgun).trans hundo).trans (Hyp.within_lose h₃ EADDRNOTAVAIL pages)

/-- After an assignment the pages are with the VMs of the list, or with the host as before, or
lost. -/
theorem assignMem_spec (op : UInt32) (acl : List (Vmid × Nat)) (env : AssignEnv)
    (hpages : ∀ g ∈ pages, h.Home g) :
    match memBufAssignMem op pages acl env h with
    | (.ok hdl, h') =>
      (∀ g ∈ pages, h'.assigned g = acl.map Prod.fst ∧ h'.lost g = false) ∧
        if hdl = memBufMemparcelInvalid then ∀ g ∈ pages, h'.Host g else Reclaimable h' hdl pages
    | (.error e, h') =>
      if e = EADDRNOTAVAIL then ∀ g ∈ pages, h'.lost g = true else ∀ g ∈ pages, h'.Home g := by
  unfold memBufAssignMem
  obtain ⟨hyp, gun, undo⟩ := env
  cases hyp with
  | some e =>
    simp only [memBufHypAssignTable]
    split_ifs with he
    · subst he
      exact fun g hg => Hyp.lost_lose hg
    · rw [Hyp.lose_of_ne he]
      exact hpages
  | none =>
    have hsrc : ∀ g ∈ pages, h.assigned g = [vmidHlos] := fun g hg => (hpages g hg).assigned
    simp only [memBufHypAssignTable, if_pos hsrc]
    -- the pages are now assigned to the list and otherwise as before
    obtain ⟨h₁, hh₁⟩ : ∃ h₁, h₁ = { h with assigned := onPages pages (acl.map Prod.fst) h.assigned }
      := ⟨_, rfl⟩
    rw [← hh₁]
    have hass : ∀ g ∈ pages, h₁.assigned g = acl.map Prod.fst := by
      intro g hg
      rw [hh₁]
      exact onPages_of_mem hg _ _
    have hlost : ∀ g ∈ pages, h₁.lost g = false := fun g hg => hh₁ ▸ (hpages g hg).lost
    have hhost : ∀ g ∈ pages, h₁.Host g := by
      intro g hg
      rw [hh₁]
      exact ⟨(hpages g hg).owner, (hpages g hg).idle⟩
    cases hgun : memBufAssignMemGunyah op pages acl gun h₁ with
    | mk res h₂ =>
      cases res with
      | ok hdl =>
        obtain ⟨ha, hl, hhdl⟩ := assignMemGunyah_ok hgun
        refine ⟨fun g hg => ⟨ha ▸ hass g hg, hl ▸ hlost g hg⟩, ?_⟩
        rcases hhdl with ⟨rfl, rfl⟩ | ⟨hne, hrec⟩
        · exact hhost
        · rwa [if_neg hne]
      | error e =>
        have hh₂ := assignMemGunyah_error hgun
        cases undo with
        | some e' => exact fun g hg => Hyp.lost_lose hg
        | none =>
          have hback : ∀ g ∈ pages, h₂.assigned g = acl.map Prod.fst := by
            rw [hh₂, Hyp.lose_assigned]
            exact hass
          simp only [if_pos hback]
          split_ifs with he
          · subst he hh₂
            exact fun g hg => Hyp.lost_lose hg
          · rw [Hyp.lose_of_ne he] at hh₂
            subst hh₂
            intro g hg
            exact ⟨⟨(hhost g hg).owner, (hhost g hg).idle⟩, onPages_of_mem hg _ _, hlost g hg⟩

omit [DecidableEq Page] in
theorem reclaim_of_reclaimable (hw : h.Wf) (hrec : Reclaimable h hdl pages) :
    ∃ h', h.reclaim vmidHlos hdl = some h' ∧ h.Within pages h' ∧ (∀ g ∈ pages, h'.Host g) ∧
      h'.assigned = h.assigned ∧ h'.lost = h.lost := by
  unfold Reclaimable at hrec
  unfold Hyp.reclaim
  cases hP : h.parcel hdl with
  | none => simp [hP] at hrec
  | some P =>
    simp only [hP] at hrec ⊢
    obtain ⟨hcr, hhold, hsub, hsup⟩ := hrec
    obtain ⟨hPm, rfl⟩ := Hyp.mem_of_parcel hP
    rw [if_pos ⟨hcr, hhold⟩]
    refine ⟨_, rfl, (hw.within_drop hPm).mono hsub, fun g hg => ⟨?_, ?_⟩, rfl, rfl⟩
    · exact (hw.owned P hPm g (hsup g hg)).trans hcr
    · exact hw.idle_drop hPm (hsup g hg)

theorem settles_unassignMem {env : UnassignEnv} (hw : h.Wf) (hrec : Benign env.reclaim)
    (hhyp : Benign env.hypAssign)
    (hpages : ∀ g ∈ pages, h.assigned g = src ∧ h.lost g = false)
    (hhdl : if hdl = memBufMemparcelInvalid then ∀ g ∈ pages, h.Host g
      else Reclaimable h hdl pages) :
    Settles pages h (memBufUnassignMem pages src hdl env h) := by
  unfold memBufUnassignMem
  by_cases hinv : hdl = memBufMemparcelInvalid
  · rw [if_pos hinv] at hhdl
    rw [if_neg (not_not.2 hinv)]
    exact settles_hypAssignTable hhyp hhdl hpages
  · rw [if_neg hinv] at hhdl
    rw [if_pos hinv]
    obtain ⟨hr, ha⟩ := env
    rcases hrec with rfl | rfl
    · obtain ⟨h', hre, hin, hhost, hass, hlost⟩ := reclaim_of_reclaimable hw hhdl
      simp only [memBufUnassignMemGunyah, hre]
      refine (settles_hypAssignTable hhyp hhost ?_).after hin
      rw [hass, hlost]
      exact hpages
    · exact settles_lose h pages

variable (hw : h.Wf) (hP : h.parcel hdl = some P) (hop : P.op = ghRmTransTypeDonate)
  (hacl : vmidHlos ∈ P.acl.map Prod.fst)
include hw hP hop hacl

theorem accept_donation : ∃ h', h.accept vmidHlos ghRmTransTypeDonate hdl = some (P.pages, h') ∧
      h.Within P.pages h' ∧ (∀ g ∈ P.pages, h'.Host g) ∧
      h'.assigned = h.assigned ∧ h'.lost = h.lost := by
  obtain ⟨hPm, rfl⟩ := Hyp.mem_of_parcel hP
  unfold Hyp.accept
  simp only [hP, if_pos (And.intro hop hacl), if_true]
  refine ⟨_, rfl, hw.within_take hPm vmidHlos, fun g hg => ⟨?_, ?_⟩, rfl, rfl⟩
  · exact onPages_of_mem hg _ _
  · exact hw.idle_drop hPm hg

theorem settles_mapMemS2 {env : MapEnv} {v : Vmid} (hacc : Benign env.accept)
    (hhyp : Benign env.hypAssign) (hpages : ∀ g ∈ P.pages, h.assigned g = [v] ∧ h.lost g = false) :
    Settles P.pages h (memBufMapMemS2 hdl v env h) := by
  obtain ⟨ea, eh, er⟩ := env
  rcases hacc with rfl | rfl
  · obtain ⟨h₁, hre, hin, hhost, hass, hlost⟩ := accept_donation hw hP hop hacl
    have hset : Settles P.pages h₁ (memBufHypAssignTable P.pages [v] [vmidHlos] eh h₁) := by
      refine settles_hypAssignTable hhyp hhost ?_
      rw [hass, hlost]
      exact hpages
    simp only [memBufMapMemS2, hre]
    refine Settles.after ?_ hin
    cases hh : memBufHypAssignTable P.pages [v] [vmidHlos] eh h₁ with
    | mk r h₂ =>
      rw [hh] at hset
      cases r with
      | ok _ => exact hset
      | error e =>
        have hdon := within_assignMemGunyah ghRmTransTypeDonate P.pages [(v, 7)] er h₂
        cases hr : memBufAssignMemGunyah ghRmTransTypeDonate P.pages [(v, 7)] er h₂ with
        | mk r' h₃ =>
          rw [hr] at hdon
          simp only [memBufMapMemS2CleanupDonate, hr]
          cases r' with
          | ok _ =>
            refine ⟨hset.1.trans hdon, ?_⟩
            show ∀ g ∈ P.pages, h₃.lost g = true
            rw [(assignMemGunyah_ok hr).2.1]
            exact hset.2
          | error _ => exact (settles_lose h₃ P.pages).after (hset.1.trans hdon)
  · have he := settles_lose (α := List Page) h P.pages
    simpa [memBufMapMemS2, hP] using he

end Calls

/-! What the other VMs can do. -/
section Guests
variable {h h' : Hyp Page} {g : Page} {pages : List Page} {hdl op : UInt32} {vm : Vmid}
  {acl : List (Vmid × Nat)}

/-- The step of another VM: the monitor is not involved, and the host keeps what is its own. -/
structure GuestStep (h h' : Hyp Page) : Prop where
  wf : h.Wf → h'.Wf
  assigned : h'.assigned = h.assigned
  lost : h'.lost = h.lost
  host : h.Wf → ∀ g, h.Host g → h'.Host g

theorem guestStep_give (hvm : vm ≠ vmidHlos) (hgive : h.give vm op acl pages hdl = some h') :
    GuestStep h h' := by
  have hin := Hyp.within_give hgive
  obtain ⟨-, hown, rfl⟩ := Hyp.give_eq_some hgive
  refine ⟨hin.wf, rfl, rfl, fun hw g hg => (hin.same hw g fun hmem => ?_).host hg⟩
  exact hvm ((hown g hmem).1.symm.trans hg.owner)

omit [DecidableEq Page] in
theorem guestStep_setHolders (h : Hyp Page) (hdl : UInt32) (f : List Vmid → List Vmid) :
    GuestStep h (h.setHolders hdl f) := by
  have hmem : ∀ P ∈ (h.setHolders hdl f).parcels, ∃ Q ∈ h.parcels,
      P.pages = Q.pages ∧ P.creator = Q.creator := by
    intro P hP
    obtain ⟨Q, hQ, rfl⟩ := List.mem_map.1 hP
    exact ⟨Q, hQ, by split_ifs <;> rfl, by split_ifs <;> rfl⟩
  refine ⟨fun hw => ⟨?_, ?_⟩, rfl, rfl, fun _ g hg => ⟨hg.owner, ?_⟩⟩
  · refine List.Pairwise.map _ ?_ hw.disjoint
    intro P Q hPQ
    split_ifs <;> exact hPQ
  · intro P hP g hg
    obtain ⟨Q, hQ, hpages, hcr⟩ := hmem P hP
    rw [hcr]
    exact hw.owned Q hQ g (hpages ▸ hg)
  · intro P hP hgP
    obtain ⟨Q, hQ, hpages, -⟩ := hmem P hP
    exact hg.idle Q hQ (hpages ▸ hgP)

omit [DecidableEq Page] in
/-- Whatever a parcel's end does to its own pages, the host's own pages are in no parcel. -/
theorem GuestStep.of_within (hP : P ∈ h.parcels) (hin : h.Wf → h.Within P.pages h')
    (hass : h'.assigned = h.assigned) (hlost : h'.lost = h.lost) : GuestStep h h' := by
  refine ⟨fun hw => (hin hw).wf hw, hass, hlost, fun hw g hg => ?_⟩
  exact ((hin hw).same hw g (hg.idle P hP)).host hg

theorem guestStep_accept (hacc : h.accept vm op hdl = some (ps, h')) : GuestStep h h' := by
  unfold Hyp.accept at hacc
  split at hacc
  · cases hacc
  · rename_i P hP
    obtain ⟨hPm, rfl⟩ := Hyp.mem_of_parcel hP
    split_ifs at hacc
    · cases hacc
      exact .of_within hPm (fun hw => hw.within_take hPm vm) rfl rfl
    · cases hacc
      exact guestStep_setHolders h P.hdl _

omit [DecidableEq Page] in
theorem guestStep_reclaim (hre : h.reclaim vm hdl = some h') : GuestStep h h' := by
  unfold Hyp.reclaim at hre
  split at hre
  · cases hre
  · rename_i P hP
    obtain ⟨hPm, rfl⟩ := Hyp.mem_of_parcel hP
    split_ifs at hre
    cases hre
    exact .of_within hPm (fun hw => hw.within_drop hPm) rfl rfl

end Guests

end MsmKernel.MemBuf
