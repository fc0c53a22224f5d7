import Mathlib.Data.List.AList
import MsmKernel.Lib.Run

/-! The table of message queues (gh_msgq.c): an entry is made by whichever of the client and the
resource manager comes first, and a client descriptor and two interrupt handlers point to it. -/
namespace MsmKernel.Gunyah.Msgq
open Run Option

def EINVAL : Int := 22
def ENXIO : Int := 6
def ENOMEM : Int := 12
def EBUSY : Int := 16
def GH_CAPID_INVAL : UInt64 := 0xffffffffffffffff

/- CONFIG_QTVM_WITH_AVF moves the labels. -/
def GUNYAH_QCOM_MIN_MSGQ (avf : Bool) : Int := if avf then 0x101 else 0x1
def GH_MSGQ_LABEL_MAX (avf : Bool) : Int := GUNYAH_QCOM_MIN_MSGQ avf + 14

inductive Direction
  | tx | rx
  deriving DecidableEq

structure CapTable where
  clientDesc : Option Nat
  capId : Direction → UInt64
  irq : Direction → Int

open CapTable

def CapTable.set (e : CapTable) (dir : Direction) (capId : UInt64) (irq : Int) : CapTable :=
  { e with capId := Function.update e.capId dir capId, irq := Function.update e.irq dir irq }

inductive Slot
  | client
  | irq (dir : Direction)
  deriving DecidableEq

/- A holder of the address of an entry: the client descriptor at `val`, or the handler of interrupt
`val`, whose name has the label. -/
structure User where
  label : Int
  entry : Nat
  slot : Slot
  val : Int
  deriving DecidableEq

/- The listed entries with their addresses; `next` is the address that kzalloc hands out next. -/
structure State where
  capList : AList fun _ : Int => Nat × CapTable
  users : List User
  next : Nat

inductive Call
  | register (label : Int) (allocEntry allocDesc : Bool)
  | unregister (clientDesc : Option Nat)
  | populate (label : Int) (capId : UInt64) (direction : Option Direction) (irq : Int)
    (allocEntry : Bool) (requestIrq : Int)
  | reset (label : Int) (direction : Option Direction) (irqPtr : Bool)

section
variable (s : State) (label : Int)

/- An entry is added only after a search for its label has failed. -/
def State.put (a : Nat) (e : CapTable) (users : List User) : State :=
  { s with capList := s.capList.insert label (a, e), users }

def State.kfree : State := { s with capList := s.capList.erase label }

def ghMsgqAllocEntry : State × Nat × CapTable :=
  let e := ⟨none, fun _ => GH_CAPID_INVAL, fun _ => 0⟩
  ({ s.put label s.next e s.users with next := s.next + 1 }, s.next, e)

def State.entryOrAlloc (alloc : Bool) : Option (State × Nat × CapTable) :=
  match s.capList.lookup label with
  | some x => some (s, x)
  | none => if alloc then some (ghMsgqAllocEntry s label) else none

end

def ghMsgqRegister (avf : Bool) (s : State) (label : Int) (allocEntry allocDesc : Bool) :
    Except Int Nat × State :=
  if label < GUNYAH_QCOM_MIN_MSGQ avf ∨ GH_MSGQ_LABEL_MAX avf ≤ label then (.error (- EINVAL), s)
  else
    match s.entryOrAlloc label allocEntry with
    | none => (.error (- ENOMEM), s)
    | some (s, a, e) =>
      if e.clientDesc ≠ none then (.error (- EBUSY), s)
      else if !allocDesc then (.error (- ENOMEM), s)
      else
        (.ok s.next, { s.put label a { e with clientDesc := some s.next }
          (⟨label, a, .client, s.next⟩ :: s.users) with next := s.next + 1 })

/- `none` is a descriptor or an entry that is not allocated any more. -/
def ghMsgqUnregister (s : State) : Option Nat → Option (Int × State)
  | none => some (- EINVAL, s)
  | some addr =>
    (s.users.find? fun u => u.slot = .client ∧ u.val = (addr : Int)).bind fun d =>
      (s.capList.lookup d.label).bind fun (a, e) =>
        if a ≠ d.entry then none
        else if e.clientDesc ≠ some addr then some (- EINVAL, s)
        else some (0, s.put d.label a { e with clientDesc := none } (s.users.filter (· ≠ d)))

/- The handlers are not shared, so an interrupt that has one is refused. -/
def State.requestIrq (s : State) (irq ret : Int) : Int :=
  if s.users.any fun u => u.slot ≠ .client ∧ u.val = irq then - EBUSY else ret

def ghMsgqPopulateCapInfo (avf : Bool) (s : State) (label : Int) (capId : UInt64)
    (direction : Option Direction) (irq : Int) (allocEntry : Bool) (ret : Int) : Int × State :=
  if label < GUNYAH_QCOM_MIN_MSGQ avf then (- EINVAL, s)
  else if irq < 0 then (- ENXIO, s)
  else if (s.capList.lookup label).any fun x => !direction.any (x.2.capId · = GH_CAPID_INVAL) then
    (- EINVAL, s)
  else
    match s.entryOrAlloc label allocEntry, direction with
    | none, _ => (- ENOMEM, s)
    | some (s, _), none => (- EINVAL, s.kfree label)
    | some (s, a, e), some dir =>
      if s.requestIrq irq ret < 0 then (s.requestIrq irq ret, s.kfree label)
      else
        (0, s.put label a (e.set dir capId irq) (⟨label, a, .irq dir, irq⟩ :: s.users))

def ghMsgqResetCapInfo (s : State) (label : Int) (direction : Option Direction) (irqPtr : Bool) :
    Int × State :=
  if label < 0 ∨ !irqPtr then (- EINVAL, s)
  else
    match s.capList.lookup label, direction with
    | some (a, e), some dir =>
      if e.irq dir = 0 then (- ENXIO, s)
      else (0, s.put label a (e.set dir GH_CAPID_INVAL 0)
        (s.users.filter (· ≠ ⟨label, a, .irq dir, e.irq dir⟩)))
    | _, _ => (- EINVAL, s)

def step (avf : Bool) (s : State) : Call → Option State
  | .register label allocEntry allocDesc => some (ghMsgqRegister avf s label allocEntry allocDesc).2
  | .unregister clientDesc => (ghMsgqUnregister s clientDesc).map (·.2)
  | .populate label capId direction irq allocEntry ret =>
    some (ghMsgqPopulateCapInfo avf s label capId direction irq allocEntry ret).2
  | .reset label direction irqPtr => some (ghMsgqResetCapInfo s label direction irqPtr).2

def started : State := ⟨∅, [], 0⟩

/-- One entry and one client to a label, and descriptors and handlers point to listed entries. -/
structure Outlives (s : State) : Prop where
  one_entry : s.capList.keys.Nodup
  one_client : ∀ u ∈ s.users, ∀ v ∈ s.users, u.slot = .client → v.slot = .client →
    u.label = v.label → u = v
  live : ∀ u ∈ s.users, ∃ e, s.capList.lookup u.label = some (u.entry, e)

/-- A populate call that does not get its interrupt finds no entry that is in use, and one that
does brings a capability and an interrupt which do not look like none. -/
def Guarded (s : State) : Call → Prop
  | .populate label capId direction irq _ ret =>
    if s.requestIrq irq ret < 0 then
      ∀ x ∈ s.capList.lookup label, (∃ dir ∈ direction, x.2.capId dir = GH_CAPID_INVAL) →
        x.2.clientDesc = none ∧ x.2.irq .tx = 0 ∧ x.2.irq .rx = 0
    else capId ≠ GH_CAPID_INVAL ∧ irq ≠ 0
  | _ => True

instance (s : State) (c : Call) : Decidable (Guarded s c) := by
  cases c <;> (unfold Guarded; infer_instance)

/- What the fields of an entry say about its users. -/
def CapTable.shows (e : CapTable) : Slot → Option Int
  | .client => e.clientDesc.map Int.ofNat
  | .irq dir => if e.irq dir = 0 then none else some (e.irq dir)

def CapTable.Ok (e : CapTable) : Prop := ∀ dir, e.capId dir = GH_CAPID_INVAL → e.irq dir = 0

structure Inv (s : State) : Prop where
  ok : ∀ label a e, s.capList.lookup label = some (a, e) → e.Ok
  shown : ∀ u ∈ s.users, ∃ e, s.capList.lookup u.label = some (u.entry, e) ∧
    e.shows u.slot = some u.val

variable {s t : State} {label : Int} {a next : Nat} {e e' : CapTable} {users : List User} {k : Slot}
  {v : Int} {dir : Direction} {capId : UInt64} {irq : Int}

theorem CapTable.Ok.set (h : e.Ok) (hset : capId = GH_CAPID_INVAL → irq = 0) :
    (e.set dir capId irq).Ok := by
  intro dir' hinval
  by_cases hdir : dir' = dir
  · simp only [CapTable.set, hdir, Function.update_self] at hinval ⊢
    exact hset hinval
  · simp only [CapTable.set, Function.update_of_ne hdir] at hinval ⊢
    exact h dir' hinval

theorem shows_set_of_ne (hk : k ≠ .irq dir) : (e.set dir capId irq).shows k = e.shows k := by
  cases k with
  | client => rfl
  | irq dir' =>
    have hdir : dir' ≠ dir := fun hdir => hk (by rw [hdir])
    simp only [shows, CapTable.set, Function.update_of_ne hdir]

namespace Inv
variable (h : Inv s)
include h

theorem outlives : Outlives s where
  one_entry := s.capList.keys_nodup
  one_client u hu v hv hcu hcv hl := by
    obtain ⟨e, he, hshow⟩ := h.shown u hu
    obtain ⟨e', he', hshow'⟩ := h.shown v hv
    obtain ⟨hentry, rfl⟩ := Prod.mk.inj (some.inj ((hl ▸ he).symm.trans he'))
    rw [hcu] at hshow
    rw [hcv] at hshow'
    obtain ⟨l, a, k, x⟩ := u
    obtain ⟨l', a', k', x'⟩ := v
    simp_all
  live u hu := (h.shown u hu).imp fun _ he => he.1

/-- Only the entry of one label is written: it must show its users, those of other labels stay. -/
theorem put (hok : e'.Ok) (hother : ∀ u ∈ users, u.label ≠ label → u ∈ s.users)
    (husers : ∀ u ∈ users, u.label = label → u.entry = a ∧ e'.shows u.slot = some u.val) :
    Inv { s.put label a e' users with next } where
  ok l b x hx := by
    by_cases hl : l = label
    · subst hl
      simp only [State.put, AList.lookup_insert, some.injEq, Prod.mk.injEq] at hx
      exact hx.2 ▸ hok
    · rw [State.put, AList.lookup_insert_ne hl] at hx
      exact h.ok l b x hx
  shown u hu := by
    by_cases hl : u.label = label
    · obtain ⟨rfl, hshow⟩ := husers u hu hl
      exact ⟨e', by rw [hl]; exact AList.lookup_insert .., hshow⟩
    · obtain ⟨x, hx, hshow⟩ := h.shown u (hother u hu hl)
      exact ⟨x, (AList.lookup_insert_ne hl).trans hx, hshow⟩

variable (he : s.capList.lookup label = some (a, e))
include he

theorem at_label {u : User} (hu : u ∈ s.users) (hl : u.label = label) :
    u.entry = a ∧ e.shows u.slot = some u.val := by
  obtain ⟨x, hx, hshow⟩ := h.shown u hu
  obtain ⟨heq, rfl⟩ := Prod.mk.inj (some.inj ((hl ▸ hx).symm.trans he))
  exact ⟨heq, hshow⟩

theorem kfree (hnone : ∀ k, e.shows k = none) : Inv (s.kfree label) where
  ok l b x hx := by
    by_cases hl : l = label
    · rw [hl, State.kfree, AList.lookup_erase] at hx
      cases hx
    · exact h.ok l b x ((AList.lookup_erase_ne hl).symm.trans hx)
  shown u hu := by
    obtain ⟨x, hx, hshow⟩ := h.shown u hu
    have hl : u.label ≠ label := fun hl =>
      absurd ((hnone u.slot).symm.trans (h.at_label he hu hl).2) nofun
    exact ⟨x, (AList.lookup_erase_ne hl).trans hx, hshow⟩

variable (hok : e'.Ok) (hkeep : ∀ k' ≠ k, e'.shows k' = e.shows k')
include hok hkeep

theorem install (hnone : e.shows k = none) (hnew : e'.shows k = some v) :
    Inv { s.put label a e' (⟨label, a, k, v⟩ :: s.users) with next } := by
  refine h.put hok (List.forall_mem_cons.2 ⟨fun hne => absurd rfl hne, fun _ hu _ => hu⟩)
    (List.forall_mem_cons.2 ⟨fun _ => ⟨rfl, hnew⟩, fun u hu hl => ?_⟩)
  obtain ⟨hentry, hshow⟩ := h.at_label he hu hl
  have hk : u.slot ≠ k := by
    rintro rfl
    exact absurd (hnone.symm.trans hshow) nofun
  exact ⟨hentry, (hkeep _ hk).trans hshow⟩

theorem remove (hold : e.shows k = some v) :
    Inv (s.put label a e' (s.users.filter (· ≠ ⟨label, a, k, v⟩))) := by
  refine h.put hok (fun _ hu _ => List.mem_of_mem_filter hu) fun u hu hl => ?_
  obtain ⟨hu, hkept⟩ := List.mem_filter.1 hu
  obtain ⟨hentry, hshow⟩ := h.at_label he hu hl
  have hk : u.slot ≠ k := by
    rintro rfl
    obtain rfl := some.inj (hshow.symm.trans hold)
    obtain rfl := hl
    obtain rfl := hentry
    simp at hkept
  exact ⟨hentry, (hkeep _ hk).trans hshow⟩

end Inv

section
variable (h : Inv s)
include h

theorem inv_entryOrAlloc {alloc : Bool} (hs : s.entryOrAlloc label alloc = some (t, a, e)) :
    Inv t ∧ t.capList.lookup label = some (a, e) ∧ t.users = s.users ∧
      (s.capList.lookup label = some (a, e) ∨
        (∀ dir, e.capId dir = GH_CAPID_INVAL) ∧ ∀ k, e.shows k = none) := by
  unfold State.entryOrAlloc at hs
  split at hs
  · next x hx =>
    obtain ⟨rfl, rfl⟩ := Prod.mk.inj (some.inj hs)
    exact ⟨h, hx, rfl, .inl hx⟩
  · next hx =>
    obtain ⟨-, hs'⟩ := ite_none_right_eq_some.1 hs
    obtain ⟨rfl, heq⟩ := Prod.mk.inj (some.inj hs')
    obtain ⟨rfl, rfl⟩ := Prod.mk.inj heq
    refine ⟨h.put (fun _ _ => rfl) (fun _ hu _ => hu) fun u hu hl => ?_, AList.lookup_insert ..,
      rfl, .inr ⟨fun _ => rfl, fun k => by cases k <;> rfl⟩⟩
    obtain ⟨y, hy, -⟩ := h.shown u hu
    rw [hl, hx] at hy
    cases hy

theorem inv_register (avf : Bool) (label : Int) (allocEntry allocDesc : Bool) :
    Inv (ghMsgqRegister avf s label allocEntry allocDesc).2 := by
  unfold ghMsgqRegister
  split
  · exact h
  cases hs : s.entryOrAlloc label allocEntry with
  | none => exact h
  | some x =>
    obtain ⟨t, a, e⟩ := x
    obtain ⟨ht, he, -⟩ := inv_entryOrAlloc h hs
    dsimp only
    split_ifs with hclient
    · exact ht
    · exact ht
    refine ht.install he (ht.ok label a e he) (fun k' hk' => ?_) ?_ rfl
    · cases k' with
      | client => exact absurd rfl hk'
      | irq dir => rfl
    · rw [shows, not_not.1 hclient, map_none]

theorem inv_unregister {clientDesc : Option Nat} {r : Int × State}
    (hr : ghMsgqUnregister s clientDesc = some r) : Inv r.2 := by
  cases clientDesc with
  | none => exact some.inj hr ▸ h
  | some addr =>
    obtain ⟨d, hd, hr⟩ := bind_eq_some_iff.1 hr
    obtain ⟨⟨a, e⟩, he, hr⟩ := bind_eq_some_iff.1 hr
    dsimp only at hr
    split_ifs at hr with hentry hclient
    · exact some.inj hr ▸ h
    obtain rfl := some.inj hr
    obtain ⟨label, b, k, v⟩ := d
    have hdesc := List.find?_some hd
    simp only [decide_eq_true_eq] at hdesc
    obtain ⟨rfl, rfl⟩ := hdesc
    obtain rfl := not_not.1 hentry
    refine h.remove he (h.ok label a e he) (fun k' hk' => ?_) ?_
    · cases k' with
      | client => exact absurd rfl hk'
      | irq dir => rfl
    · rw [shows, not_not.1 hclient]
      rfl

theorem inv_populate {avf : Bool} {direction : Option Direction} {ret : Int} {allocEntry : Bool}
    (hok : Guarded s (.populate label capId direction irq allocEntry ret)) :
    Inv (ghMsgqPopulateCapInfo avf s label capId direction irq allocEntry ret).2 := by
  unfold ghMsgqPopulateCapInfo
  split_ifs with _ _ hbusy
  · exact h
  · exact h
  · exact h
  cases hs : s.entryOrAlloc label allocEntry with
  | none => exact h
  | some x =>
    obtain ⟨t, a, e⟩ := x
    obtain ⟨ht, he, husers, hcases⟩ := inv_entryOrAlloc h hs
    cases direction with
    | none =>
      rcases hcases with hx | hfresh
      · simp [hx] at hbusy
      · exact ht.kfree he hfresh.2
    | some dir =>
      have hinval : e.capId dir = GH_CAPID_INVAL := by
        rcases hcases with hx | hfresh
        · simpa [hx] using hbusy
        · exact hfresh.1 dir
      have hreq : t.requestIrq irq ret = s.requestIrq irq ret := by
        simp only [State.requestIrq, husers]
      simp only [Guarded, ← hreq] at hok
      dsimp only
      split_ifs with hfail
      · rw [if_pos hfail] at hok
        refine ht.kfree he ?_
        rcases hcases with hx | hfresh
        · obtain ⟨hclient, htx, hrx⟩ := hok (a, e) hx ⟨dir, rfl, hinval⟩
          intro k
          rcases k with _ | (_ | _) <;> simp_all [shows]
        · exact hfresh.2
      · rw [if_neg hfail] at hok
        refine ht.install he ((ht.ok _ _ _ he).set fun hcap => absurd hcap hok.1)
          (fun _ => shows_set_of_ne) ?_ ?_
        · simp [shows, ht.ok _ _ _ he dir hinval]
        · simp [shows, CapTable.set, hok.2]

theorem inv_reset (label : Int) (direction : Option Direction) (irqPtr : Bool) :
    Inv (ghMsgqResetCapInfo s label direction irqPtr).2 := by
  unfold ghMsgqResetCapInfo
  split_ifs
  · exact h
  split
  · next a e dir he =>
    split_ifs with hset
    · exact h
    · exact h.remove he ((h.ok _ _ _ he).set fun _ => rfl) (fun _ => shows_set_of_ne)
        (by simp [shows, hset])
  · exact h

theorem step_inv {avf : Bool} {c : Call} (hok : Guarded s c) (hstep : step avf s c = some t) :
    Inv t := by
  cases c with
  | register label allocEntry allocDesc =>
    exact some.inj hstep ▸ inv_register h avf label allocEntry allocDesc
  | unregister clientDesc =>
    obtain ⟨r, hr, rfl⟩ := map_eq_some_iff.1 hstep
    exact inv_unregister h hr
  | populate label capId direction irq allocEntry ret =>
    exact some.inj hstep ▸ inv_populate h hok
  | reset label direction irqPtr => exact some.inj hstep ▸ inv_reset h label direction irqPtr

end

/-- Along every run of guarded calls, entries outlive their users. -/
theorem entries_outlive_users {avf : Bool} {calls : List Call}
    (hok : Along (step avf) Guarded started calls) (hrun : run (step avf) started calls = some t) :
    Outlives t := by
  have hstart : Inv started := ⟨fun _ _ _ he => (by cases he), fun _ hu => (by cases hu)⟩
  exact (run_invariant (fun _ _ _ h hok hstep => step_inv h hok hstep) hstart hok hrun).outlives

def sharedLabel : List Call :=
  [.register 0x101 true true, .populate 0x101 7 (some .tx) 40 true 0,
    .populate 0x101 8 (some .rx) 41 true 0, .populate 0x102 9 (some .tx) 40 true 0,
    .reset 0x101 (some .tx) true, .unregister (some 1)]

theorem entries_outlive_users_shared : ∃ t, run (step true) started sharedLabel = some t ∧
    t.users = [⟨0x101, 0, .irq .rx, 41⟩] ∧ Outlives t :=
  exists_run_and (by decide +kernel) fun _ hrun _ => entries_outlive_users (by decide +kernel) hrun

/-- The interrupt of a queue that has a client is refused: the entry is freed under the client. -/
theorem failed_populate_frees_under_client : ∃ t, run (step true) started
    [.register 0x101 true true, .populate 0x101 7 (some .tx) 40 true (- EBUSY)] = some t ∧
      t.users = [⟨0x101, 0, .client, 1⟩] ∧ t.capList.lookup 0x101 = none ∧ ¬ Outlives t := by
  refine ⟨_, rfl, rfl, rfl, fun h => ?_⟩
  obtain ⟨e, he⟩ := h.live ⟨0x101, 0, .client, 1⟩ (List.mem_cons_self ..)
  cases he

end MsmKernel.Gunyah.Msgq
