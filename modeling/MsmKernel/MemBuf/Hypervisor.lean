import Mathlib.Data.List.Pairwise
import MsmKernel.Lib.Run

/-! The hypervisor as mem-buf uses it: Gunyah's memory parcels and the monitor's assignment of
pages to VMs. -/
namespace MsmKernel.MemBuf

abbrev Vmid := Nat
abbrev Errno := Nat

def EINVAL : Errno := 22
def ENOMEM : Errno := 12
def EADDRNOTAVAIL : Errno := 99

def vmidHlos : Vmid := 0x3
def vmidTvm : Vmid := 0x2D
def vmidOemvm : Vmid := 0x31

def ghRmTransTypeDonate : UInt32 := 0
def ghRmTransTypeLend : UInt32 := 1
def ghRmTransTypeShare : UInt32 := 2

def memBufMemparcelInvalid : UInt32 := 0xFFFFFFFF

def memBufVms (vmid : Vmid) : Option Bool :=
  if vmid = vmidTvm ∨ vmid = vmidOemvm then some true
  else if vmid ∈ [vmidHlos, 0x8, 0xA, 0x9, 0xB, 0xD, 0x11, 0x1A, 0x1D, 0x22, 0x24, 0x2A, 0x12] then
    some false
  else none

/- The last lookup is of the current VM, the host. -/
def memBufVmUsesGunyah : List Vmid → Except Errno Bool
  | [] => (memBufVms vmidHlos).elim (.error EINVAL) .ok
  | v :: vs =>
    match memBufVms v with
    | none => .error EINVAL
    | some true => .ok true
    | some false => memBufVmUsesGunyah vs

/- A memparcel: its pages stay with `creator` until a donation is accepted; `holders` have
accepted a loan or a share and not released it. -/
structure Parcel (Page : Type) where
  hdl : UInt32
  pages : List Page
  op : UInt32
  acl : List (Vmid × Nat)
  creator : Vmid
  holders : List Vmid

/- `lost` are the pages of a call that ended in -EADDRNOTAVAIL: nothing is known of them. -/
structure Hyp (Page : Type) where
  parcels : List (Parcel Page)
  owner : Page → Vmid
  assigned : Page → List Vmid
  lost : Page → Bool

variable {Page : Type} [DecidableEq Page]

def onPages {β : Type} (pages : List Page) (v : β) (f : Page → β) (g : Page) : β :=
  if g ∈ pages then v else f g

theorem onPages_of_mem {β : Type} {pages : List Page} {g : Page} (h : g ∈ pages) (v : β)
    (f : Page → β) : onPages pages v f g = v := if_pos h

theorem onPages_of_notMem {β : Type} {pages : List Page} {g : Page} (h : g ∉ pages) (v : β)
    (f : Page → β) : onPages pages v f g = f g := if_neg h

namespace Hyp

def parcel (h : Hyp Page) (hdl : UInt32) : Option (Parcel Page) :=
  h.parcels.find? fun P => P.hdl = hdl

def Idle (h : Hyp Page) (g : Page) : Prop := ∀ P ∈ h.parcels, g ∉ P.pages

instance (h : Hyp Page) (g : Page) : Decidable (h.Idle g) :=
  inferInstanceAs (Decidable (∀ P ∈ h.parcels, g ∉ P.pages))

section
variable (h : Hyp Page)

/- A failed call changes nothing, unless it says that it could not go back. -/
def lose (e : Errno) (pages : List Page) : Hyp Page :=
  if e = EADDRNOTAVAIL then { h with lost := onPages pages true h.lost } else h

/- Lend, share and donate: the pages must be the creator's own and in no other parcel. -/
def give (creator : Vmid) (op : UInt32) (acl : List (Vmid × Nat))
    (pages : List Page) (hdl : UInt32) : Option (Hyp Page) :=
  if hdl ≠ memBufMemparcelInvalid ∧ h.parcel hdl = none ∧
      ∀ g ∈ pages, h.owner g = creator ∧ h.Idle g then
    some { h with parcels := ⟨hdl, pages, op, acl, creator, []⟩ :: h.parcels }
  else none

def drop (hdl : UInt32) : List (Parcel Page) :=
  h.parcels.filter fun P => P.hdl ≠ hdl

def setHolders (hdl : UInt32) (f : List Vmid → List Vmid) : Hyp Page :=
  { h with parcels := h.parcels.map fun P =>
      if P.hdl = hdl then { P with holders := f P.holders } else P }

/- Accepting a donation ends the parcel and makes the acceptor the owner. -/
def accept (vm : Vmid) (op : UInt32) (hdl : UInt32) : Option (List Page × Hyp Page) :=
  match h.parcel hdl with
  | none => none
  | some P =>
    if P.op = op ∧ vm ∈ P.acl.map Prod.fst then
      if op = ghRmTransTypeDonate then
        some (P.pages, { h with parcels := h.drop hdl, owner := onPages P.pages vm h.owner })
      else some (P.pages, h.setHolders hdl (vm :: ·))
    else none

def release (vm : Vmid) (hdl : UInt32) : Hyp Page :=
  h.setHolders hdl (List.filter (· ≠ vm))

/- Reclaim fails as long as another VM holds the parcel. -/
def reclaim (vm : Vmid) (hdl : UInt32) : Option (Hyp Page) :=
  match h.parcel hdl with
  | none => none
  | some P =>
    if P.creator = vm ∧ ∀ v ∈ P.holders, v = vm then some { h with parcels := h.drop hdl }
    else none

/-- Some way of the VM to the page is left. -/
def Reaches (vm : Vmid) (g : Page) : Prop :=
  h.lost g = true ∨ h.owner g = vm ∨ vm ∈ h.assigned g ∨
    ∃ P ∈ h.parcels, g ∈ P.pages ∧ vm ∈ P.holders

end

instance (h : Hyp Page) (vm : Vmid) (g : Page) : Decidable (h.Reaches vm g) :=
  inferInstanceAs (Decidable (_ ∨ _ ∨ _ ∨ _))

structure Wf (h : Hyp Page) : Prop where
  disjoint : h.parcels.Pairwise fun P Q => P.hdl ≠ Q.hdl ∧ ∀ g ∈ P.pages, g ∉ Q.pages
  owned : ∀ P ∈ h.parcels, ∀ g ∈ P.pages, h.owner g = P.creator

structure Host (h : Hyp Page) (g : Page) : Prop where
  owner : h.owner g = vmidHlos
  idle : h.Idle g

structure Home (h : Hyp Page) (g : Page) : Prop extends Host h g where
  assigned : h.assigned g = [vmidHlos]
  lost : h.lost g = false

structure SameAt (g : Page) (h h' : Hyp Page) : Prop where
  owner : h'.owner g = h.owner g
  assigned : h'.assigned g = h.assigned g
  lost : h'.lost g = h.lost g
  parcels : ∀ P, g ∈ P.pages → (P ∈ h'.parcels ↔ P ∈ h.parcels)

variable {h h' h'' : Hyp Page} {g : Page} {pages : List Page} {hdl op : UInt32} {vm : Vmid}
  {P Q : Parcel Page} {acl : List (Vmid × Nat)}

section Pages
omit [DecidableEq Page]

theorem SameAt.refl (g : Page) (h : Hyp Page) : SameAt g h h := ⟨rfl, rfl, rfl, fun _ _ => Iff.rfl⟩

theorem SameAt.trans (a : SameAt g h h') (b : SameAt g h' h'') : SameAt g h h'' :=
  ⟨b.owner.trans a.owner, b.assigned.trans a.assigned, b.lost.trans a.lost,
    fun P hP => (b.parcels P hP).trans (a.parcels P hP)⟩

theorem SameAt.host (a : SameAt g h h') (hg : h.Host g) : h'.Host g := by
  refine ⟨a.owner.trans hg.owner, fun P hP hgP => ?_⟩
  exact hg.idle P ((a.parcels P hgP).1 hP) hgP

theorem SameAt.home (a : SameAt g h h') (hg : h.Home g) : h'.Home g :=
  ⟨a.host hg.toHost, a.assigned.trans hg.assigned, a.lost.trans hg.lost⟩

theorem Home.not_reaches (hg : h.Home g) (hvm : vm ≠ vmidHlos) : ¬ h.Reaches vm g := by
  rintro (hl | ho | ha | ⟨P, hP, hgP, -⟩)
  · simp [hg.lost] at hl
  · exact hvm (ho.symm.trans hg.owner)
  · simp [hg.assigned, hvm] at ha
  · exact hg.idle P hP hgP

theorem mem_of_parcel (hP : h.parcel hdl = some P) : P ∈ h.parcels ∧ P.hdl = hdl :=
  ⟨List.mem_of_find?_eq_some hP, by simpa using List.find?_some hP⟩

theorem hdl_ne_of_parcel_none (hn : h.parcel hdl = none) (hP : P ∈ h.parcels) : P.hdl ≠ hdl := by
  simpa using List.find?_eq_none.1 hn P hP

section
variable (hw : h.Wf) (hP : P ∈ h.parcels)
include hw hP

theorem Wf.disjoint_of_ne (hQ : Q ∈ h.parcels) (hne : P ≠ Q) :
    P.hdl ≠ Q.hdl ∧ ∀ g ∈ P.pages, g ∉ Q.pages := by
  have : Std.Symm fun P Q : Parcel Page => P.hdl ≠ Q.hdl ∧ ∀ g ∈ P.pages, g ∉ Q.pages :=
    ⟨fun _ _ hd => ⟨hd.1.symm, fun g hg hg' => hd.2 g hg' hg⟩⟩
  exact hw.disjoint.forall hP hQ hne

theorem Wf.eq_of_hdl (hQ : Q ∈ h.parcels) (he : P.hdl = Q.hdl) : P = Q := by
  by_contra hne
  exact (hw.disjoint_of_ne hP hQ hne).1 he

theorem Wf.parcel_eq : h.parcel P.hdl = some P := by
  cases hQ : h.parcel P.hdl with
  | none => exact absurd rfl (hdl_ne_of_parcel_none hQ hP)
  | some Q =>
    obtain ⟨hQm, hQh⟩ := mem_of_parcel hQ
    rw [hw.eq_of_hdl hQm hP hQh]

end

theorem mem_drop : P ∈ h.drop hdl ↔ P ∈ h.parcels ∧ P.hdl ≠ hdl := by
  simp [drop]

theorem Wf.idle_drop (hw : h.Wf) (hP : P ∈ h.parcels) (hg : g ∈ P.pages) :
    ∀ Q ∈ h.drop P.hdl, g ∉ Q.pages := by
  intro Q hQ hgQ
  obtain ⟨hQm, hne⟩ := mem_drop.1 hQ
  have hPQ : P ≠ Q := fun he => hne (he ▸ rfl)
  exact (hw.disjoint_of_ne hP hQm hPQ).2 g hg hgQ

theorem Wf.mem_drop_iff (hw : h.Wf) (hP : P ∈ h.parcels) (hg : g ∉ P.pages) (hgQ : g ∈ Q.pages) :
    Q ∈ h.drop P.hdl ↔ Q ∈ h.parcels := by
  rw [mem_drop]
  refine ⟨And.left, fun hQ => ⟨hQ, fun he => ?_⟩⟩
  exact hg (hw.eq_of_hdl hQ hP he ▸ hgQ)

structure Within (pages : List Page) (h h' : Hyp Page) : Prop where
  wf : h.Wf → h'.Wf
  same : h.Wf → ∀ g, g ∉ pages → SameAt g h h'

theorem Within.refl (pages : List Page) (h : Hyp Page) : Within pages h h :=
  ⟨id, fun _ g _ => .refl g h⟩

theorem Within.trans (a : Within pages h h') (b : Within pages h' h'') : Within pages h h'' :=
  ⟨fun hw => b.wf (a.wf hw), fun hw g hg => (a.same hw g hg).trans (b.same (a.wf hw) g hg)⟩

theorem Within.mono {ps : List Page} (a : Within ps h h') (hsub : ∀ g ∈ ps, g ∈ pages) :
    Within pages h h' :=
  ⟨a.wf, fun hw g hg => a.same hw g fun hps => hg (hsub g hps)⟩

theorem Wf.within_drop (hw : h.Wf) (hP : P ∈ h.parcels) :
    Within P.pages h { h with parcels := h.drop P.hdl } := by
  refine ⟨fun _ => ⟨hw.disjoint.filter _, ?_⟩, fun _ g hg => ⟨rfl, rfl, rfl, ?_⟩⟩
  · exact fun Q hQ => hw.owned Q (mem_drop.1 hQ).1
  · exact fun Q hgQ => hw.mem_drop_iff hP hg hgQ

end Pages

theorem within_lose (h : Hyp Page) (e : Errno) (pages : List Page) :
    Within pages h (h.lose e pages) := by
  unfold lose
  split_ifs
  · exact ⟨fun hw => ⟨hw.disjoint, hw.owned⟩,
      fun _ g hg => ⟨rfl, rfl, onPages_of_notMem hg _ _, fun _ _ => Iff.rfl⟩⟩
  · exact .refl pages h

theorem within_assigned (h : Hyp Page) (pages : List Page) (dst : List Vmid) :
    Within pages h { h with assigned := onPages pages dst h.assigned } :=
  ⟨fun hw => ⟨hw.disjoint, hw.owned⟩,
    fun _ _ hg => ⟨rfl, onPages_of_notMem hg _ _, rfl, fun _ _ => Iff.rfl⟩⟩

theorem lost_lose (hg : g ∈ pages) : (h.lose EADDRNOTAVAIL pages).lost g = true := by
  simp [lose, onPages, hg]

theorem lose_assigned (e : Errno) : (h.lose e pages).assigned = h.assigned := by
  unfold lose
  split_ifs <;> rfl

theorem lose_of_ne {e : Errno} (he : e ≠ EADDRNOTAVAIL) : h.lose e pages = h := if_neg he

theorem give_eq_some (hgive : h.give vm op acl pages hdl = some h') :
    (∀ P ∈ h.parcels, P.hdl ≠ hdl) ∧ (∀ g ∈ pages, h.owner g = vm ∧ h.Idle g) ∧
      h' = { h with parcels := ⟨hdl, pages, op, acl, vm, []⟩ :: h.parcels } := by
  unfold give at hgive
  split_ifs at hgive with hc
  obtain ⟨-, hnone, hown⟩ := hc
  exact ⟨fun P hP => hdl_ne_of_parcel_none hnone hP, hown, (Option.some.inj hgive).symm⟩

theorem within_give (hgive : h.give vm op acl pages hdl = some h') : Within pages h h' := by
  obtain ⟨hfresh, hown, rfl⟩ := give_eq_some hgive
  refine ⟨fun hw => ⟨?_, ?_⟩, fun _ g hg => ⟨rfl, rfl, rfl, ?_⟩⟩
  · refine List.pairwise_cons.2 ⟨fun P hP => ⟨(hfresh P hP).symm, ?_⟩, hw.disjoint⟩
    exact fun g hg => (hown g hg).2 P hP
  · intro P hP g hg
    rcases List.mem_cons.1 hP with rfl | hP
    · exact (hown g hg).1
    · exact hw.owned P hP g hg
  · intro P hgP
    refine List.mem_cons.trans (or_iff_right ?_)
    rintro rfl
    exact hg hgP

theorem Wf.within_take (hw : h.Wf) (hP : P ∈ h.parcels) (vm : Vmid) :
    Within P.pages h { h with parcels := h.drop P.hdl, owner := onPages P.pages vm h.owner } := by
  refine ⟨fun _ => ⟨hw.disjoint.filter _, ?_⟩,
    fun _ g hg => ⟨onPages_of_notMem hg _ _, rfl, rfl, ?_⟩⟩
  · intro Q hQ g hg
    have hgP : g ∉ P.pages := fun hgP => hw.idle_drop hP hgP Q hQ hg
    exact (onPages_of_notMem hgP _ _).trans (hw.owned Q (mem_drop.1 hQ).1 g hg)
  · exact fun Q hgQ => hw.mem_drop_iff hP hg hgQ

end Hyp

end MsmKernel.MemBuf
