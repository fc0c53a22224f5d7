import Mathlib.Data.Fintype.Basic
import MsmKernel.Lib.Run

/-! Lending interrupts to another VM (gh_irq_lend.c): the state kept for each label against the
interrupts that the resource manager holds. -/
namespace MsmKernel.Gunyah.IrqLend
open Run Function Option

inductive IrqState
  | none
  | waitReleaseOrAccept
  | waitLend
  | released
  | accepted
  | lent
  deriving DecidableEq

structure Entry where
  vmid : Nat
  state : IrqState
  virqHandle : Nat

/- `held` is the resource manager's side: the label through which the interrupt with a handle is
lent. The counters are the calls it granted. -/
structure World (n : Nat) where
  entries : Fin n → Entry
  held : Nat → Option (Fin n)
  lends : Fin n → Nat
  reclaims : Fin n → Nat

inductive Notification
  | released
  | accepted

/- Arguments that are answers come last: whether the Linux interrupt has a virq, the VMID of the
name, and the handle of a granted lend. -/
inductive Event
  | lend (label : Nat) (cbHandle virq : Bool) (vmid handle : Option Nat)
  | lendNotify (label : Nat) (granted : Bool)
  | reclaim (label : Nat) (granted : Bool)
  | notification (cmd : Notification) (virqHandle : Nat)
  | earlyPoweroff (vmid : Nat) (granted : Nat → Bool)

variable {n : Nat} {w : World n} {l : Fin n}

section
variable (w : World n) (l : Fin n)

def setState (state : IrqState) : World n :=
  { w with entries := update w.entries l { w.entries l with state } }

def rmVmIrqLend (handle : Nat) : World n where
  entries := update w.entries l { w.entries l with virqHandle := handle }
  held := update w.held handle (some l)
  lends := update w.lends l (w.lends l + 1)
  reclaims := w.reclaims

def rmVmIrqReclaim : World n :=
  { w with
    held := update w.held (w.entries l).virqHandle none
    reclaims := update w.reclaims l (w.reclaims l + 1) }

def ghIrqLendV2 (cbHandle virq : Bool) (vmid handle : Option Nat) :
    World n :=
  if !cbHandle || !virq || (w.entries l).state ≠ .none then w
  else
    match vmid with
    | none => setState w l .none
    | some vmid =>
      let w := setState w l .waitReleaseOrAccept
      let w := { w with entries := update w.entries l { w.entries l with vmid } }
      match handle with
      | none => w
      | some handle => rmVmIrqLend w l handle

def reclaimEntry (granted : Bool) : World n :=
  if granted then setState (rmVmIrqReclaim w l) l .none else w

def ghIrqReclaim (granted : Bool) : World n :=
  if (w.entries l).state = .waitReleaseOrAccept ∨ (w.entries l).state = .released then
    reclaimEntry w l granted
  else w

end

/- The label whose callback a released or accepted notification runs. -/
def notified (w : World n) (virqHandle : Nat) : Option (Fin n) :=
  (List.finRange n).find? fun l => ((w.entries l).state = .waitReleaseOrAccept ∨
    (w.entries l).state = .accepted) ∧ (w.entries l).virqHandle = virqHandle

def ghIrqReleasedAcceptedNbHandler (w : World n) (cmd : Notification) (virqHandle : Nat) :
    World n :=
  match notified w virqHandle, cmd with
  | none, _ => w
  | some l, .released => setState w l .released
  | some l, .accepted => setState w l .accepted

def poweroffEntry (vmid : Nat) (granted : Nat → Bool) (w : World n) (l : Fin n) : World n :=
  if vmid ≠ (w.entries l).vmid ∨ ((w.entries l).state ≠ .waitReleaseOrAccept ∧
      (w.entries l).state ≠ .released ∧ (w.entries l).state ≠ .accepted ∧
      (w.entries l).state ≠ .lent) then w
  else reclaimEntry w l (granted l)

def ghIrqVmNbHandler (w : World n) (vmid : Nat) (granted : Nat → Bool) : World n :=
  (List.finRange n).foldl (poweroffEntry vmid granted) w

/- No step: the resource manager does not give out the handle of an interrupt that is lent. -/
def step (w : World n) : Event → Option (World n)
  | .lend label cbHandle virq vmid handle =>
    if h : label < n then
      if (handle.bind w.held).isSome then none
      else some (ghIrqLendV2 w ⟨label, h⟩ cbHandle virq vmid handle)
    else some w
  | .lendNotify _ _ => some w
  | .reclaim label granted =>
    if h : label < n then some (ghIrqReclaim w ⟨label, h⟩ granted) else some w
  | .notification cmd virqHandle => some (ghIrqReleasedAcceptedNbHandler w cmd virqHandle)
  | .earlyPoweroff vmid granted => some (ghIrqVmNbHandler w vmid granted)

/- A lend that gets as far as the resource manager is granted. -/
def Event.Granted : Event → Prop
  | .lend _ cbHandle virq vmid handle =>
    cbHandle = true → virq = true → vmid ≠ none → handle ≠ none
  | _ => True

def initial (n : Nat) : World n := ⟨fun _ => ⟨0, .none, 0⟩, fun _ => none, fun _ => 0, fun _ => 0⟩

/- A lend that is over has been reclaimed once, and a notification runs the callback of the lend
it is about. -/
def Matches (w : World n) : Prop :=
  ∀ l, ((w.entries l).state = .none ↔ ∀ handle, w.held handle ≠ some l) ∧
    w.lends l = w.reclaims l + (if (w.entries l).state = .none then 0 else 1) ∧
    ∀ handle, notified w handle = some l → w.held handle = some l

structure Inv (w : World n) : Prop where
  held : ∀ h l, w.held h = some l ↔ (w.entries l).state ≠ .none ∧ (w.entries l).virqHandle = h
  counts : ∀ l, w.lends l = w.reclaims l + (if (w.entries l).state = .none then 0 else 1)

theorem notified_cases {h : Nat} (hl : notified w h = some l) :
    (w.entries l).state ≠ .none ∧ (w.entries l).virqHandle = h := by
  have hfound := List.find?_some hl
  simp only [decide_eq_true_eq] at hfound
  refine ⟨fun hnone => ?_, hfound.2⟩
  simp [hnone] at hfound

theorem Inv.matches (hI : Inv w) : Matches w := by
  refine fun l => ⟨?_, hI.counts l, fun h hl => (hI.held h l).2 (notified_cases hl)⟩
  simp only [ne_eq, hI.held, not_and]
  exact ⟨fun hnone h hne => absurd hnone hne, fun h => by_contra fun hne => h _ hne rfl⟩

theorem Inv.setState {state : IrqState} (hI : Inv w)
    (hl : state = .none ↔ (w.entries l).state = .none) : Inv (setState w l state) := by
  constructor
  · intro h k
    by_cases hkl : k = l
    · simp [IrqLend.setState, hkl, hl, hI.held]
    · simp [IrqLend.setState, hkl, hI.held]
  · intro k
    by_cases hkl : k = l
    · simp [IrqLend.setState, hkl, hl, hI.counts]
    · simp [IrqLend.setState, hkl, hI.counts]

theorem Inv.reclaimEntry (hI : Inv w) (hl : (w.entries l).state ≠ .none) (granted : Bool) :
    Inv (reclaimEntry w l granted) := by
  have hheld := (hI.held _ l).2 ⟨hl, rfl⟩
  cases granted with
  | false => exact hI
  | true =>
    simp only [IrqLend.reclaimEntry, IrqLend.setState, rmVmIrqReclaim, if_true]
    constructor
    · intro h k
      have hk := hI.held h k
      grind
    · intro k
      have hk := hI.counts k
      grind

theorem Inv.lend {vmid handle : Option Nat} {cbHandle virq : Bool} (hI : Inv w)
    (hfresh : (handle.bind w.held).isSome = false)
    (hgranted : cbHandle = true → virq = true → vmid ≠ none → handle ≠ none) :
    Inv (ghIrqLendV2 w l cbHandle virq vmid handle) := by
  unfold ghIrqLendV2
  split_ifs with hrefused
  · exact hI
  simp only [ne_eq, decide_not, Bool.or_eq_true, Bool.not_eq_true', decide_eq_false_iff_not,
    not_or, Bool.not_eq_false, not_not] at hrefused
  obtain ⟨⟨hcb, hvirq⟩, hnone⟩ := hrefused
  cases vmid with
  | none => exact hI.setState (by simp [hnone])
  | some vmid =>
    obtain ⟨h, rfl⟩ := ne_none_iff_exists'.1 (hgranted hcb hvirq (by simp))
    simp only [rmVmIrqLend, IrqLend.setState, bind_some, isSome_eq_false_iff,
      isNone_iff_eq_none] at hfresh ⊢
    constructor
    · intro g k
      have hk := hI.held g k
      grind
    · intro k
      have hk := hI.counts k
      grind

theorem Inv.step {e : Event} {t : World n} (hI : Inv w) (hgranted : e.Granted)
    (hstep : step w e = some t) : Inv t := by
  cases e with
  | lend label cbHandle virq vmid handle =>
    simp only [IrqLend.step] at hstep
    split_ifs at hstep with hlabel hheld
    · obtain rfl := some.inj hstep
      exact hI.lend (by simpa using hheld) hgranted
    · exact some.inj hstep ▸ hI
  | lendNotify label granted => exact some.inj hstep ▸ hI
  | reclaim label granted =>
    simp only [IrqLend.step, ghIrqReclaim] at hstep
    split_ifs at hstep with hlabel hstate
    · refine some.inj hstep ▸ hI.reclaimEntry (fun hnone => ?_) granted
      simp [hnone] at hstate
    · exact some.inj hstep ▸ hI
    · exact some.inj hstep ▸ hI
  | notification cmd virqHandle =>
    obtain rfl := some.inj hstep
    unfold ghIrqReleasedAcceptedNbHandler
    cases hl : notified w virqHandle with
    | none => exact hI
    | some l =>
      have hne := (notified_cases hl).1
      cases cmd with
      | released => exact hI.setState (by simp [hne])
      | accepted => exact hI.setState (by simp [hne])
  | earlyPoweroff vmid granted =>
    obtain rfl := some.inj hstep
    refine List.foldlRecOn _ _ hI fun v hv l _ => ?_
    unfold poweroffEntry
    split_ifs with hskip
    · exact hv
    · refine hv.reclaimEntry (fun hnone => ?_) _
      simp [hnone] at hskip

/-- As long as the resource manager grants every lend that it is asked for, the labels are in
state none exactly while nothing is lent through them. -/
theorem irq_lends_match {es : List Event} (hgranted : ∀ e ∈ es, e.Granted)
    (hrun : run step (initial n) es = some w) : Matches w := by
  have hI : Inv (initial n) := ⟨by simp [initial], by simp [initial]⟩
  exact (run_invariant (fun _ _ _ hI hok hstep => hI.step hok hstep) hI (along_of_mem hgranted)
    hrun).matches

def lentOnce : List Event :=
  [.lend 0 true true (some 3) (some 7), .notification .accepted 7, .notification .released 7,
    .reclaim 0 true]

theorem irq_lends_match_reclaimed :
    ∃ w : World 2, run step (initial 2) lentOnce = some w ∧ Matches w := by
  obtain ⟨w, hrun⟩ : ∃ w, run step (initial 2) lentOnce = some w := ⟨_, rfl⟩
  exact ⟨w, hrun, irq_lends_match (by simp [lentOnce, Event.Granted]) hrun⟩

/-- A refused lend leaves its label waiting: the next lend is turned away, and a notification for
the lend before it runs the callback. -/
theorem refused_lend_blocks_label :
    ∃ w : World 2, run step (initial 2) (lentOnce ++ [.lend 0 true true (some 3) none]) = some w ∧
      (w.entries 0).state = .waitReleaseOrAccept ∧ w.held 7 = none ∧ notified w 7 = some 0 ∧
      (step w (.lend 0 true true (some 3) (some 8))).map (·.held 8) = some none :=
  exists_run_of_map (by decide +kernel)

end MsmKernel.Gunyah.IrqLend
