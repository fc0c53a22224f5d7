import MsmKernel.Glink.Intents

/-! No wakeup is lost and refusals are reported, unless an intent becomes free between a sender's
search and its reset of the flags, or a refusal finds `intent_received` unset. -/

namespace MsmKernel.Glink.Intents

open Run List

variable {n : Nat} {w w' : World n} {i j : Fin n} {len k : Nat}

def NoFree (riids : List RemoteIntent) (len : Nat) : Prop :=
  ∀ t ∈ riids, t.size ≥ len → t.inUse = true

instance (riids : List RemoteIntent) (len : Nat) : Decidable (NoFree riids len) :=
  inferInstanceAs (Decidable (∀ t ∈ riids, _))

def Outbound.serial? : Outbound → Option Nat
  | .rxIntentReq _ serial => some serial
  | .txData _ => none

def Inbound.serial? : Inbound → Option Nat
  | .rxIntentReqAck _ serial => some serial
  | _ => none

@[simp] theorem serial?_rxIntentReq (size serial : Nat) :
    (Outbound.rxIntentReq size serial).serial? = some serial := rfl

@[simp] theorem serial?_txData (iid : Nat) : (Outbound.txData iid).serial? = none := rfl

@[simp] theorem serial?_intent (iid size : Nat) : (Inbound.intent iid size).serial? = none := rfl

@[simp] theorem serial?_rxDone (iid : Nat) (reuse : Bool) :
    (Inbound.rxDone iid reuse).serial? = none := rfl

@[simp] theorem serial?_rxIntentReqAck (granted : Bool) (serial : Nat) :
    (Inbound.rxIntentReqAck granted serial).serial? = some serial := rfl

/-- The requests whose answer has not been handled: on their way, with the remote, or answered by
a message on its way. -/
def World.unanswered (w : World n) : List Nat :=
  w.toRemote.filterMap Outbound.serial? ++ w.remote.rxQueue.map (·.2) ++ w.remote.acking.toList ++
    w.fromRemote.filterMap Inbound.serial?

open World

def Inbound.announces : Inbound → Bool
  | .intent _ _ => true
  | .rxDone _ reuse => reuse
  | .rxIntentReqAck _ _ => false

/-- Messages on their way (or half handled) make the wait condition true. -/
def World.WakeComing (w : World n) : Prop :=
  (w.intentReceived = true ∨ w.handling = true ∨ ∃ msg ∈ w.fromRemote, msg.announces = true) ∧
    (0 ≤ w.intentReqResult ∨ w.unanswered ≠ [])

instance (w : World n) : Decidable w.WakeComing := inferInstanceAs (Decidable (_ ∧ _))

/-- A sender that waits for the mutex has no free intent to go on with; one that waits for the
answer has none, or is about to be woken. -/
def World.NoLostWakeup (w : World n) : Prop :=
  ∀ i, match w.phase i with
    | .wantLock len => NoFree w.riids len
    | .waiting len _ => w.waitCondition = true ∨ NoFree w.riids len ∨ w.WakeComing
    | _ => True

/-- A sender whose refusal has been handled is not blocked, and returns `-ECANCELED`. -/
def World.RefusalReported (w : World n) : Prop :=
  ∀ i, match w.phase i with
    | .waiting _ serial => (serial, false) ∈ w.handled → w.waitCondition = true
    | .woken _ serial => (serial, false) ∈ w.handled →
        ∃ w', step w (.sender i .finish) = some w' ∧ w'.phase i = .returned (-ECANCELED)
    | _ => True

def Phase.window? : Phase → Option Nat
  | .wantLock len => some len
  | .locked len => some len
  | .resultReset len => some len
  | _ => none

open Phase

def frees (riids : List RemoteIntent) (len : Nat) : Inbound → Bool
  | .intent _ size => decide (size ≥ len)
  | .rxDone iid reuse => reuse && riids.any fun t => decide (t.id = iid ∧ t.size ≥ len)
  | .rxIntentReqAck _ _ => false

/-- No intent that would do for a sender becomes free between its search and its reset of the
flags. -/
def WindowQuiet (w : World n) : Event n → Prop
  | .handleBegin => ∀ msg ∈ w.fromRemote.head?, ∀ i, ∀ len ∈ (w.phase i).window?,
      frees w.riids len msg = false
  | _ => True

instance (w : World n) (e : Event n) : Decidable (WindowQuiet w e) := by
  cases e <;> (dsimp only [WindowQuiet]; infer_instance)

def Inbound.refuses : Inbound → Bool
  | .rxIntentReqAck granted _ => !granted
  | _ => false

/-- Waits do not time out, and a refusal is handled only when `intent_received` is set. -/
def RefusalMeetsIntent (w : World n) : Event n → Prop
  | .sender _ a => a ≠ .timeout
  | .handleBegin => ∀ msg ∈ w.fromRemote.head?, msg.refuses = true → w.intentReceived = true
  | _ => True

instance (w : World n) (e : Event n) : Decidable (RefusalMeetsIntent w e) := by
  cases e <;> (dsimp only [RefusalMeetsIntent]; infer_instance)

variable {riids : List RemoteIntent} {msg : Inbound} {a : SenderAct} {p : Phase} {v : World n}
  {rest : List Inbound} {e : Event n}

theorem findIntent_some (b : RemoteIntent) : (findIntent len riids (some b)).isSome := by
  induction riids generalizing b with
  | nil => rfl
  | cons t ts ih =>
    simp only [findIntent]
    split_ifs
    · rfl
    · exact ih t
    · rfl
    · exact ih b
    · exact ih b

theorem findIntent_none (h : findIntent len riids none = none) : NoFree riids len := by
  induction riids with
  | nil => simp [NoFree]
  | cons t ts ih =>
    simp only [findIntent] at h
    by_cases hfree : t.size ≥ len ∧ t.inUse = false
    · rw [if_pos hfree] at h
      split_ifs at h
      have hsome : (findIntent len ts (some t)).isSome := findIntent_some t
      rw [h] at hsome
      simp at hsome
    · rw [if_neg hfree] at h
      intro u hu hsize
      rcases mem_cons.mp hu with rfl | hu
      · by_contra hnot
        exact hfree ⟨hsize, by simpa using hnot⟩
      · exact ih h u hu hsize

theorem NoFree.setInUse_true (h : NoFree riids len) (iid : Nat) :
    NoFree (setInUse iid true riids) len := by
  intro t ht hsize
  obtain ⟨u, hu, rfl⟩ := mem_map.mp ht
  split_ifs at hsize ⊢
  · rfl
  · exact h u hu hsize

theorem NoFree.filter (h : NoFree riids len) (p : RemoteIntent → Bool) :
    NoFree (riids.filter p) len :=
  fun t ht => h t (mem_filter.mp ht).1

theorem mem_idrAlloc {t u : RemoteIntent} (h : u ∈ idrAlloc t riids) : u = t ∨ u ∈ riids := by
  induction riids with
  | nil => exact .inl (mem_singleton.mp h)
  | cons v vs ih =>
    simp only [idrAlloc] at h
    split_ifs at h
    · exact mem_cons.mp h
    · exact .inr h
    · rcases mem_cons.mp h with rfl | h
      · exact .inr (by simp)
      · rcases ih h with rfl | h
        · exact .inl rfl
        · exact .inr (by simp [h])

theorem NoFree.handleBegin (h : NoFree w.riids len) (hfrees : frees w.riids len msg = false) :
    NoFree (handleBegin w msg).riids len := by
  cases msg with
  | intent iid size =>
    intro t ht hsize
    rcases mem_idrAlloc ht with rfl | ht
    · simp only [frees, decide_eq_false_iff_not] at hfrees
      exact absurd hsize hfrees
    · exact h t ht hsize
  | rxIntentReqAck granted serial => exact h
  | rxDone iid reuse =>
    simp only [Intents.handleBegin]
    split_ifs with hall hreuse
    · exact h
    · intro t ht hsize
      obtain ⟨u, hu, rfl⟩ := mem_map.mp ht
      split_ifs at hsize ⊢ with hid
      · simp only [frees, hreuse, Bool.true_and, any_eq_false, decide_eq_true_eq] at hfrees
        exact absurd ⟨hid, hsize⟩ (hfrees u hu)
      · exact h u hu hsize
    · exact h.filter _

def Phase.holds : Phase → Bool
  | .locked _ => true
  | .resultReset _ => true
  | .flagsReset _ => true
  | .waiting _ _ => true
  | .woken _ _ => true
  | _ => false

def LockHeld (w : World n) : Prop := ∀ i, (w.phase i).holds = true ↔ w.intentReqLock = some i

theorem LockHeld.others (h : LockHeld w) (hold : (w.phase i).holds = true) (hj : j ≠ i) :
    (w.phase j).holds = false := by
  rw [← Bool.not_eq_true, h j, (h i).mp hold]
  exact fun heq => hj (Option.some_inj.mp heq).symm

theorem forall_setPhase {P : Phase → Prop} (hothers : ∀ j ≠ i, P (w.phase j)) (hp : P p) (j : Fin n) :
    P ((w.setPhase i p).phase j) := by
  by_cases hj : j = i
  · simpa [setPhase, hj] using hp
  · simpa [setPhase, hj] using hothers j hj

/-- Everything a sender's step can do. -/
inductive SenderMove (w : World n) (i : Fin n) : SenderAct → World n → Prop
  | send {ret : Int} {len : Nat} (h : w.phase i = .returned ret) :
      SenderMove w i (.send len) (w.setPhase i (.searching len))
  | found {len : Nat} {t : RemoteIntent} (h : w.phase i = .searching len) :
      SenderMove w i .search
        ({ w with riids := setInUse t.id true w.riids }.setPhase i (.sending len t.id))
  | notFound {len : Nat} (h : w.phase i = .searching len) (hnone : NoFree w.riids len) :
      SenderMove w i .search (w.setPhase i (.wantLock len))
  | lock {len : Nat} (h : w.phase i = .wantLock len) (hlock : w.intentReqLock = none) :
      SenderMove w i .lock ({ w with intentReqLock := some i }.setPhase i (.locked len))
  | resetResult {len : Nat} (h : w.phase i = .locked len) :
      SenderMove w i .resetResult ({ w with intentReqResult := -1 }.setPhase i (.resultReset len))
  | resetReceived {len : Nat} (h : w.phase i = .resultReset len) :
      SenderMove w i .resetReceived
        ({ w with intentReceived := false }.setPhase i (.flagsReset len))
  | sendReq {len : Nat} (h : w.phase i = .flagsReset len) :
      SenderMove w i .sendReq ({ w with
        toRemote := w.toRemote ++ [Outbound.rxIntentReq len w.nextSerial]
        nextSerial := w.nextSerial + 1 }.setPhase i (.waiting len w.nextSerial))
  | wake {len serial : Nat} (h : w.phase i = .waiting len serial) (hcond : w.waitCondition = true) :
      SenderMove w i .wake (w.setPhase i (.woken len serial))
  | timeout {len serial : Nat} (h : w.phase i = .waiting len serial) :
      SenderMove w i .timeout ({ w with intentReqLock := none }.setPhase i (.returned (-ETIMEDOUT)))
  | finish {len serial : Nat} {p : Phase} (h : w.phase i = .woken len serial)
      (hp : p.holds = false ∧ p.window? = none) :
      SenderMove w i .finish ({ w with intentReqLock := none }.setPhase i p)
  | sendData {len iid : Nat} {out : List Outbound} (h : w.phase i = .sending len iid)
      (hout : out.filterMap Outbound.serial? = []) :
      SenderMove w i .sendData ({ w with toRemote := w.toRemote ++ out }.setPhase i (.returned 0))

theorem senderMove_of_step (h : senderStep w i (w.phase i) a = some w') : SenderMove w i a w' := by
  generalize hp : w.phase i = p at h
  unfold senderStep at h
  split at h
  · exact Option.some.inj h ▸ .send hp
  · split at h
    · exact Option.some.inj h ▸ .found hp
    · rename_i hnone
      exact Option.some.inj h ▸ .notFound hp (findIntent_none hnone)
  · obtain ⟨hlock, h⟩ := Option.ite_none_right_eq_some.mp h
    exact Option.some.inj h ▸ .lock hp hlock
  · exact Option.some.inj h ▸ .resetResult hp
  · exact Option.some.inj h ▸ .resetReceived hp
  · exact Option.some.inj h ▸ .sendReq hp
  · obtain ⟨hcond, h⟩ := Option.ite_none_right_eq_some.mp h
    exact Option.some.inj h ▸ .wake hp hcond
  · obtain ⟨-, h⟩ := Option.ite_none_left_eq_some.mp h
    exact Option.some.inj h ▸ .timeout hp
  · refine Option.some.inj h ▸ .finish hp ?_
    split_ifs <;> exact ⟨rfl, rfl⟩
  · rename_i len iid
    obtain rfl := Option.some.inj h
    by_cases hlen : len = 0
    · have hmove : SenderMove w i .sendData
          ({ w with toRemote := w.toRemote ++ [] }.setPhase i (.returned 0)) := .sendData hp rfl
      simpa [hlen] using hmove
    · have hmove : SenderMove w i .sendData ({ w with
          toRemote := w.toRemote ++ [Outbound.txData iid] }.setPhase i (.returned 0)) :=
        .sendData hp rfl
      simpa [hlen] using hmove
  · simp at h

theorem remoteStep_frame {a : RemoteAct} (h : remoteStep w a = some w') :
    ∃ out r more, w' = { w with toRemote := out, remote := r, fromRemote := w.fromRemote ++ more } ∧
      w'.unanswered.Perm w.unanswered := by
  cases a with
  | receive ok =>
    have hreceive : remoteReceive w ok w.toRemote = some w' := h
    cases hout : w.toRemote with
    | nil => simp [hout, remoteReceive] at hreceive
    | cons msg rest =>
      rw [hout] at hreceive
      cases msg with
      | rxIntentReq size serial =>
        obtain rfl := Option.some.inj hreceive
        refine ⟨_, _, _, rfl, perm_iff_count.mpr fun x => ?_⟩
        simp only [unanswered, hout, Remote.handleIntentReq]
        split_ifs <;>
          simp [count_cons] <;> omega
      | txData iid =>
        obtain rfl := Option.some.inj hreceive
        simp [unanswered, hout, filterMap_cons]
  | thread =>
    simp only [remoteStep] at h
    split at h
    · rename_i size serial rest hqueue hacking
      obtain rfl := Option.some.inj h
      refine ⟨_, _, _, rfl, perm_iff_count.mpr fun x => ?_⟩
      simp [unanswered, hqueue, hacking, filterMap_cons, count_cons]
      omega
    · simp at h
  | threadAck =>
    obtain ⟨serial, hacking, rfl⟩ := Option.map_eq_some_iff.mp h
    refine ⟨_, _, _, rfl, perm_iff_count.mpr fun x => ?_⟩
    simp [unanswered, hacking, count_cons]
  | advertise size reuse =>
    obtain rfl := Option.some.inj h
    simp [unanswered, filterMap_cons, Remote.addIntent]
  | done iid =>
    obtain ⟨t, -, h⟩ := Option.bind_eq_some_iff.mp h
    obtain ⟨-, h⟩ := Option.ite_none_right_eq_some.mp h
    obtain rfl := Option.some.inj h
    simp [unanswered, filterMap_cons]

theorem SenderMove.lockHeld (hmove : SenderMove w i a w') (h : LockHeld w) : LockHeld w' := by
  intro j
  have hi := h i
  have hheld := h j
  cases hmove <;> by_cases hj : j = i <;>
    simp_all [setPhase, holds, eq_comm (a := i)]

def World.Armed (w : World n) (len : Nat) : Prop :=
  NoFree w.riids len ∨ w.intentReceived = true ∨ w.handling = true

def World.Asked (w : World n) : Prop := 0 ≤ w.intentReqResult ∨ w.unanswered ≠ []

def PhaseFree (w : World n) : Phase → Prop
  | .wantLock len => NoFree w.riids len
  | .locked len => NoFree w.riids len
  | .resultReset len => NoFree w.riids len
  | .flagsReset len => w.Armed len
  | .waiting len _ => w.Armed len ∧ w.Asked
  | _ => True

/-- What carries the argument against lost wakeups. -/
structure Inv (w : World n) : Prop where
  lock : LockHeld w
  phases : ∀ i, PhaseFree w (w.phase i)

theorem PhaseFree.of_idle (hp : p.holds = false ∧ p.window? = none) : PhaseFree w p := by
  cases p <;> simp_all [PhaseFree, holds, window?]

theorem PhaseFree.of_riids (h : PhaseFree w p) (hp : p.holds = false)
    (hriids : v.riids = w.riids) : PhaseFree v p := by
  cases p <;> simp_all [PhaseFree, holds]

theorem PhaseFree.mono (h : PhaseFree w p)
    (hriids : ∀ len ∈ p.window?, NoFree w.riids len → NoFree v.riids len)
    (harmed : ∀ len, w.Armed len → v.Armed len) (hasked : w.Asked → v.Asked) : PhaseFree v p := by
  cases p with
  | wantLock len | locked len | resultReset len => exact hriids len rfl h
  | flagsReset len => exact harmed len h
  | waiting len k => exact ⟨harmed len h.1, hasked h.2⟩
  | _ => trivial

theorem SenderMove.inv (hmove : SenderMove w i a w') (hI : Inv w) : Inv w' := by
  refine ⟨hmove.lockHeld hI.lock, ?_⟩
  have hi := hI.phases i
  have hothers {j : Fin n} := hI.lock.others (i := i) (j := j)
  cases hmove with
  | send h | wake h hcond | timeout h => exact forall_setPhase (fun j _ => hI.phases j) trivial
  | found h =>
    refine forall_setPhase (fun j _ => (hI.phases j).mono ?_ ?_ id) trivial
    · exact fun len _ hfree => hfree.setInUse_true _
    · exact fun len => Or.imp_left fun hfree => hfree.setInUse_true _
  | notFound h hnone => exact forall_setPhase (fun j _ => hI.phases j) hnone
  | lock h hlock =>
    rw [h] at hi
    exact forall_setPhase (fun j _ => hI.phases j) hi
  | resetResult h =>
    rw [h] at hi hothers
    exact forall_setPhase (fun j hj => (hI.phases j).of_riids (hothers rfl hj) rfl) hi
  | resetReceived h =>
    rw [h] at hi hothers
    exact forall_setPhase (fun j hj => (hI.phases j).of_riids (hothers rfl hj) rfl) (.inl hi)
  | sendReq h =>
    rw [h] at hi hothers
    refine forall_setPhase (fun j hj => (hI.phases j).of_riids (hothers rfl hj) rfl) ⟨hi, .inr ?_⟩
    simp [unanswered, setPhase]
  | finish h hp => exact forall_setPhase (fun j _ => hI.phases j) (.of_idle hp)
  | sendData h hout =>
    refine forall_setPhase (fun j _ => (hI.phases j).mono (fun _ _ => id) (fun _ => id) ?_) trivial
    refine Or.imp_right fun hun => ?_
    simpa [unanswered, setPhase, hout] using hun

theorem handleBegin_frame (w : World n) (msg : Inbound) :
    (handleBegin w msg).phase = w.phase ∧ (handleBegin w msg).intentReqLock = w.intentReqLock ∧
      (handleBegin w msg).intentReceived = w.intentReceived := by
  cases msg with
  | intent | rxIntentReqAck => exact ⟨rfl, rfl, rfl⟩
  | rxDone iid reuse =>
    simp only [handleBegin]
    split_ifs <;> exact ⟨rfl, rfl, rfl⟩

theorem handleBegin_result (msg : Inbound) (rest : List Inbound) (hmsg : w.fromRemote = msg :: rest) :
    0 ≤ (handleBegin { w with fromRemote := rest } msg).intentReqResult ∨
      (handleBegin { w with fromRemote := rest } msg).intentReqResult = w.intentReqResult ∧
        (handleBegin { w with fromRemote := rest } msg).unanswered = w.unanswered := by
  cases msg with
  | intent iid size =>
    exact .inr ⟨rfl, by simp [handleBegin, unanswered, hmsg, filterMap_cons]⟩
  | rxIntentReqAck granted serial =>
    simp only [handleBegin]
    split_ifs <;> omega
  | rxDone iid reuse =>
    refine .inr ?_
    simp only [handleBegin]
    split_ifs <;> exact ⟨rfl, by simp [unanswered, hmsg, filterMap_cons]⟩

theorem handleBegin_frees (msg : Inbound) (hfree : NoFree w.riids len) :
    NoFree (handleBegin w msg).riids len ∨ (handleBegin w msg).handling = true := by
  cases msg with
  | intent iid size => exact .inr rfl
  | rxIntentReqAck granted serial => exact .inl hfree
  | rxDone iid reuse =>
    simp only [handleBegin]
    split_ifs
    · exact .inl hfree
    · exact .inr rfl
    · exact .inl (hfree.filter _)

theorem Inv.handleBegin (hI : Inv w) (hhand : w.handling = false)
    (hmsg : w.fromRemote = msg :: rest)
    (hquiet : ∀ i, ∀ len ∈ (w.phase i).window?, frees w.riids len msg = false) :
    Inv (handleBegin { w with fromRemote := rest } msg) := by
  obtain ⟨hphase, hlock, hrec⟩ := handleBegin_frame { w with fromRemote := rest } msg
  refine ⟨by simpa [LockHeld, hphase, hlock] using hI.lock, fun i => ?_⟩
  rw [hphase]
  refine (hI.phases i).mono (fun len hlen hfree => ?_) (fun len harmed => ?_) fun hasked => ?_
  · exact NoFree.handleBegin (w := { w with fromRemote := rest }) hfree (hquiet i len hlen)
  · rcases harmed with hfree | hflag | hbusy
    · exact (handleBegin_frees (w := { w with fromRemote := rest }) msg hfree).imp_right .inr
    · exact .inr (.inl (hrec.trans hflag))
    · simp [hhand] at hbusy
  · rcases handleBegin_result msg rest hmsg with hres | ⟨hres, hun⟩
    · exact .inl hres
    · rwa [World.Asked, hres, hun]

theorem handleBegin_cases (hstep : step w .handleBegin = some w') :
    ∃ msg rest, w.handling = false ∧ w.fromRemote = msg :: rest ∧
      w' = handleBegin { w with fromRemote := rest } msg := by
  simp only [step] at hstep
  split at hstep
  · rename_i msg rest hhand hmsg
    exact ⟨msg, rest, hhand, hmsg, (Option.some.inj hstep).symm⟩
  · simp at hstep

theorem step_inv (hI : Inv w) (hquiet : WindowQuiet w e) (hstep : step w e = some w') : Inv w' := by
  cases e with
  | sender i a => exact (senderMove_of_step hstep).inv hI
  | remote a =>
    obtain ⟨out, r, more, rfl, hperm⟩ := remoteStep_frame hstep
    refine ⟨hI.lock, fun i => (hI.phases i).mono (fun _ _ => id) (fun _ => id) ?_⟩
    exact Or.imp_right fun hun hnil => hun (nil_perm.mp (hnil ▸ hperm))
  | handleBegin =>
    obtain ⟨msg, rest, hhand, hmsg, rfl⟩ := handleBegin_cases hstep
    exact hI.handleBegin hhand hmsg fun i => hquiet msg (by simp [hmsg]) i
  | handleEnd =>
    obtain ⟨-, hw⟩ := Option.ite_none_right_eq_some.mp hstep
    obtain rfl := Option.some.inj hw
    exact ⟨hI.lock, fun i => (hI.phases i).mono (fun _ _ => id) (fun _ _ => .inr (.inl rfl)) id⟩

theorem Inv.noLostWakeup (hI : Inv w) : w.NoLostWakeup := by
  intro i
  have hi := hI.phases i
  split
  · rename_i len hphase
    rwa [hphase] at hi
  · rename_i len serial hphase
    rw [hphase] at hi
    obtain ⟨harmed, hasked⟩ := hi
    rcases harmed with hfree | hflag | hbusy
    · exact .inr (.inl hfree)
    · exact .inr (.inr ⟨.inl hflag, hasked⟩)
    · exact .inr (.inr ⟨.inr (.inl hbusy), hasked⟩)
  · trivial

def Settled (w : World n) (serial : Nat) : Prop :=
  w.unanswered = [] ∧ ∃ granted : Bool, (∀ g, (serial, g) ∈ w.handled ↔ g = granted) ∧
    w.intentReqResult = (if granted then 1 else 0) ∧ (granted = false → w.intentReceived = true)

def UnderWay (w : World n) (serial : Nat) : Prop :=
  w.unanswered = [serial] ∧ w.intentReqResult < 0 ∧ ∀ g, (serial, g) ∉ w.handled

def PhaseOk (w : World n) : Phase → Prop
  | .locked _ => w.unanswered = []
  | .resultReset _ => w.unanswered = [] ∧ w.intentReqResult < 0
  | .flagsReset _ => w.unanswered = [] ∧ w.intentReqResult < 0
  | .waiting _ serial => UnderWay w serial ∨ Settled w serial
  | .woken _ serial => Settled w serial
  | _ => True

/-- What carries the argument about refusals: one request at a time, each answered once. -/
structure Answered (w : World n) : Prop where
  lock : LockHeld w
  phases : ∀ i, PhaseOk w (w.phase i)
  idle : w.intentReqLock = none → w.unanswered = []
  fresh : (∀ k ∈ w.unanswered, k < w.nextSerial) ∧ ∀ k g, (k, g) ∈ w.handled → k < w.nextSerial

theorem PhaseOk.of_not_holds (h : p.holds = false) : PhaseOk w p := by
  cases p <;> simp_all [PhaseOk, holds]

theorem PhaseOk.congr (h : PhaseOk w p) (hun : v.unanswered.Perm w.unanswered)
    (hres : v.intentReqResult = w.intentReqResult) (hhandled : v.handled = w.handled)
    (hrec : w.intentReceived = true → v.intentReceived = true) : PhaseOk v p := by
  have hset (k : Nat) (h : Settled w k) : Settled v k := by
    obtain ⟨hnone, granted, hall, hresult, href⟩ := h
    rw [hnone, perm_nil] at hun
    exact ⟨hun, granted, hhandled ▸ hall, hres.trans hresult, fun hg => hrec (href hg)⟩
  cases p with
  | locked =>
    rw [PhaseOk] at h
    rwa [h, perm_nil] at hun
  | resultReset | flagsReset =>
    rw [h.1, perm_nil] at hun
    exact ⟨hun, hres ▸ h.2⟩
  | waiting len serial =>
    rcases h with ⟨hpending, hneg, hnot⟩ | h
    · rw [hpending, perm_singleton] at hun
      exact .inl ⟨hun, hres ▸ hneg, hhandled ▸ hnot⟩
    · exact .inr (hset serial h)
  | woken len serial => exact hset serial h
  | _ => trivial

theorem SenderMove.answered (hmove : SenderMove w i a w') (hne : a ≠ .timeout) (hA : Answered w) :
    Answered w' := by
  have hlock' := hmove.lockHeld hA.lock
  have hi := hA.phases i
  have hothers (v : World n) (hhold : (w.phase i).holds = true) (j : Fin n) (hj : j ≠ i) :
      PhaseOk v (w.phase j) := .of_not_holds (hA.lock.others hhold hj)
  cases hmove with
  | send h | found h | notFound h hnone =>
    exact ⟨hlock', forall_setPhase (fun j _ => hA.phases j) trivial, hA.idle, hA.fresh⟩
  | lock h hlock =>
    exact ⟨hlock', forall_setPhase (fun j _ => hA.phases j) (hA.idle hlock), nofun, hA.fresh⟩
  | resetResult h =>
    rw [h] at hi hothers
    exact ⟨hlock', forall_setPhase (hothers _ rfl) ⟨hi, Int.negSucc_lt_zero 0⟩, hA.idle, hA.fresh⟩
  | resetReceived h =>
    rw [h] at hi hothers
    exact ⟨hlock', forall_setPhase (hothers _ rfl) hi, hA.idle, hA.fresh⟩
  | @sendReq len h =>
    rw [h] at hi hothers
    have hone : World.unanswered { w with
        toRemote := w.toRemote ++ [Outbound.rxIntentReq len w.nextSerial]
        nextSerial := w.nextSerial + 1 } = [w.nextSerial] := by
      obtain ⟨⟨⟨hout, hqueue⟩, hack⟩, hin⟩ := by
        simpa only [unanswered, append_eq_nil_iff] using hi.1
      simp [unanswered, hout, hqueue, hack, hin]
    refine ⟨hlock', forall_setPhase (hothers _ rfl) (.inl ⟨hone, hi.2, fun g hg => ?_⟩), ?_, ?_, ?_⟩
    · exact absurd (hA.fresh.2 _ g hg) (Nat.lt_irrefl _)
    · have hheld := (hA.lock i).mp (by rw [h]; rfl)
      exact fun hnone => absurd (hheld.symm.trans hnone) nofun
    · exact fun k hk => Nat.lt_succ_of_le (Nat.le_of_eq (mem_singleton.mp (hone ▸ hk)))
    · exact fun k g hkg => Nat.lt_succ_of_lt (hA.fresh.2 k g hkg)
  | @wake len serial h hcond =>
    rw [h] at hi hothers
    have hset : Settled w serial := by
      rcases hi with ⟨-, hneg, -⟩ | hset
      · simp only [waitCondition, Bool.and_eq_true, decide_eq_true_eq] at hcond
        omega
      · exact hset
    exact ⟨hlock', forall_setPhase (hothers _ rfl) hset, hA.idle, hA.fresh⟩
  | timeout h => exact absurd rfl hne
  | finish h hp =>
    rw [h] at hi hothers
    exact ⟨hlock', forall_setPhase (hothers _ rfl) (.of_not_holds hp.1), fun _ => hi.1, hA.fresh⟩
  | @sendData _ _ out h hout =>
    have hun : World.unanswered { w with toRemote := w.toRemote ++ out } = w.unanswered := by
      simp [unanswered, hout]
    refine ⟨hlock', forall_setPhase (fun j _ => ?_) trivial, fun hnone => ?_, ?_, hA.fresh.2⟩
    · exact (hA.phases j).congr (.of_eq hun) rfl rfl id
    · exact hun.trans (hA.idle hnone)
    · exact fun k hk => hA.fresh.1 k (hun ▸ hk)

section
variable (hA : Answered w)
include hA

/-- The answer that is handled is the one the waiting sender waits for. -/
theorem Answered.ack {granted : Bool} {serial : Nat}
    (hmsg : w.fromRemote = .rxIntentReqAck granted serial :: rest)
    (href : granted = false → w.intentReceived = true) :
    Answered (handleBegin { w with fromRemote := rest } (.rxIntentReqAck granted serial)) := by
  have hmem : serial ∈ w.unanswered := by simp [unanswered, hmsg]
  -- somebody holds the lock, since a request is unanswered
  obtain ⟨i, hheld⟩ : ∃ i, w.intentReqLock = some i := by
    rw [← Option.isSome_iff_exists, Option.isSome_iff_ne_none]
    exact fun hnone => by simp [hA.idle hnone] at hmem
  have hhold := (hA.lock i).mpr hheld
  obtain ⟨⟨hone, -, hnot⟩, len, hphase⟩ :
      UnderWay w serial ∧ ∃ len, w.phase i = .waiting len serial := by
    have hok := hA.phases i
    cases hp : w.phase i with
    | waiting len k =>
      rw [hp] at hok
      rcases hok with hunder | ⟨hnil, -⟩
      · rw [hunder.1, mem_singleton] at hmem
        exact ⟨hmem ▸ hunder, len, by rw [hmem]⟩
      · simp [hnil] at hmem
    | locked | resultReset | flagsReset | woken => simp_all [PhaseOk, Settled]
    | _ => simp [hp, holds] at hhold
  have hnil : (handleBegin { w with fromRemote := rest }
      (.rxIntentReqAck granted serial)).unanswered = [] := by
    have hlen := congrArg List.length hone
    simp only [unanswered, hmsg, filterMap_cons_some (serial?_rxIntentReqAck _ _),
      length_append, length_cons, length_nil] at hlen
    apply eq_nil_of_length_eq_zero
    simp only [handleBegin, unanswered, length_append]
    omega
  refine ⟨hA.lock, fun j => ?_, fun _ => hnil, by simp [hnil], fun k g hkg => ?_⟩
  · change PhaseOk _ (w.phase j)
    by_cases hj : j = i
    · rw [hj, hphase]
      exact .inr ⟨hnil, granted, by simp [handleBegin, hnot], rfl, href⟩
    · exact .of_not_holds (hA.lock.others hhold hj)
  · rcases mem_cons.mp hkg with heq | hold
    · obtain ⟨rfl, rfl⟩ := Prod.mk.inj heq
      exact hA.fresh.1 k hmem
    · exact hA.fresh.2 k g hold

theorem Answered.congr (hphase : v.phase = w.phase) (hlock : v.intentReqLock = w.intentReqLock)
    (hun : v.unanswered.Perm w.unanswered) (hres : v.intentReqResult = w.intentReqResult)
    (hhandled : v.handled = w.handled) (hrec : w.intentReceived = true → v.intentReceived = true)
    (hserial : v.nextSerial = w.nextSerial) : Answered v := by
  refine ⟨by simpa [LockHeld, hphase, hlock] using hA.lock, fun i => ?_, fun hnone => ?_,
    fun k hk => ?_, by simpa [hhandled, hserial] using hA.fresh.2⟩
  · rw [hphase]
    exact (hA.phases i).congr hun hres hhandled hrec
  · rwa [hA.idle (hlock ▸ hnone), perm_nil] at hun
  · rw [hserial]
    exact hA.fresh.1 k (hun.mem_iff.mp hk)

theorem Answered.handleBegin (hmsg : w.fromRemote = msg :: rest)
    (href : msg.refuses = true → w.intentReceived = true) :
    Answered (handleBegin { w with fromRemote := rest } msg) := by
  cases msg with
  | intent iid size =>
    exact hA.congr rfl rfl (.of_eq (by simp [Intents.handleBegin, unanswered, hmsg,
      filterMap_cons])) rfl rfl id rfl
  | rxDone iid reuse =>
    have hun : World.unanswered { w with fromRemote := rest } = w.unanswered := by
      simp [unanswered, hmsg, filterMap_cons]
    simp only [Intents.handleBegin]
    split_ifs <;> exact hA.congr rfl rfl (.of_eq hun) rfl rfl id rfl
  | rxIntentReqAck granted serial =>
    exact hA.ack hmsg fun hg => href (by simp [Inbound.refuses, hg])

theorem step_answered (hok : RefusalMeetsIntent w e) (hstep : step w e = some w') :
    Answered w' := by
  cases e with
  | sender i a =>
    exact (senderMove_of_step hstep).answered hok hA
  | remote a =>
    obtain ⟨out, r, more, rfl, hperm⟩ := remoteStep_frame hstep
    exact hA.congr rfl rfl hperm rfl rfl id rfl
  | handleBegin =>
    obtain ⟨msg, rest, -, hmsg, rfl⟩ := handleBegin_cases hstep
    exact hA.handleBegin hmsg (hok msg (by simp [hmsg]))
  | handleEnd =>
    obtain ⟨-, hw⟩ := Option.ite_none_right_eq_some.mp hstep
    obtain rfl := Option.some.inj hw
    exact hA.congr rfl rfl (.refl _) rfl rfl (fun _ => rfl) rfl

theorem Answered.refusalReported : w.RefusalReported := by
  intro i
  have hok := hA.phases i
  split
  · rename_i len serial hphase
    rw [hphase] at hok
    intro hrefused
    rcases hok with ⟨-, -, hnot⟩ | ⟨-, granted, hall, hres, hrec⟩
    · exact absurd hrefused (hnot false)
    · obtain rfl := (hall false).mp hrefused
      simp [waitCondition, hres, hrec rfl]
  · rename_i len serial hphase
    rw [hphase] at hok
    intro hrefused
    obtain ⟨-, granted, hall, hres, -⟩ := hok
    obtain rfl := (hall false).mp hrefused
    refine ⟨_, by rw [step, hphase]; rfl, ?_⟩
    simp [setPhase, hres]
  · trivial

end

theorem Inv.initial (n : Nat) : Inv (World.initial n) where
  lock i := by simp [World.initial, holds]
  phases _ := trivial

theorem Answered.initial (n : Nat) : Answered (World.initial n) where
  lock i := by simp [World.initial, holds]
  phases _ := trivial
  idle _ := rfl
  fresh := ⟨by simp [World.initial, unanswered], by simp [World.initial]⟩

/-- As long as no suitable intent becomes free between a sender's search and its reset of the
flags, no wakeup is lost; as long as no wait times out and refusals meet a set `intent_received`, a
refused sender returns `-ECANCELED` once the refusal is handled. -/
theorem intent_requests_lose_no_wakeup (n : Nat) (es : List (Event n)) (w : World n)
    (hrun : run step (World.initial n) es = some w) :
    (Along step WindowQuiet (World.initial n) es → w.NoLostWakeup) ∧
      (Along step RefusalMeetsIntent (World.initial n) es → w.RefusalReported) := by
  constructor
  · intro hquiet
    have hI : Inv w := run_invariant (fun _ _ _ => step_inv) (Inv.initial n) hquiet hrun
    exact hI.noLostWakeup
  · intro hmeet
    have hA : Answered w :=
      run_invariant (fun _ _ _ => step_answered) (Answered.initial n) hmeet hrun
    exact hA.refusalReported

def requests (i : Fin n) : List (Event n) :=
  [.sender i .lock, .sender i .resetResult, .sender i .resetReceived, .sender i .sendReq]

def searches (i : Fin n) (len : Nat) : List (Event n) :=
  [.sender i (.send len), .sender i .search]

def grantThenRefuse : List (Event 2) :=
  searches 0 4 ++ requests 0 ++
    [.remote (.receive true), .remote .thread, .remote .threadAck, .handleBegin, .handleEnd,
      .handleBegin, .sender 0 .wake, .sender 0 .finish, .sender 0 .search, .sender 0 .sendData] ++
    searches 1 10 ++ requests 1 ++
    [.remote (.receive true), .remote (.advertise 2 false), .remote (.receive false), .handleBegin,
      .handleEnd, .handleBegin]

theorem intent_requests_grant_then_refuse :
    ∃ w, run step (World.initial 2) grantThenRefuse = some w ∧
      (w.phase 1 = .waiting 10 1 ∧ (1, false) ∈ w.handled) ∧ w.NoLostWakeup ∧
        w.RefusalReported := by
  refine exists_run_and (by decide +kernel) fun w hrun _ => ?_
  obtain ⟨hwake, hrefuse⟩ := intent_requests_lose_no_wakeup 2 grantThenRefuse w hrun
  exact ⟨hwake (by decide +kernel), hrefuse (by decide +kernel)⟩

def returnedInWindow : List (Event 2) :=
  [.remote (.advertise 8 true), .handleBegin, .handleEnd] ++ searches 0 8 ++
    [.sender 0 .sendData, .remote (.receive true)] ++ searches 1 8 ++
    [.remote (.done 1), .handleBegin, .handleEnd] ++ requests 1 ++
    [.remote (.receive true), .handleBegin]

def refusedAtOnce : List (Event 1) :=
  searches 0 8 ++ requests 0 ++ [.remote (.receive false), .handleBegin]

/-- The reset throws away the return of a reusable intent, and the remote only acknowledges, since
it has one: the sender waits with a free intent and nothing to come. A refusal alone does not end
the wait. -/
theorem intent_wakeup_lost :
    (∃ w, run step (World.initial 2) returnedInWindow = some w ∧
      (w.phase 1 = .waiting 8 0 ∧ w.waitCondition = false ∧ ¬ NoFree w.riids 8 ∧ ¬ w.WakeComing ∧
        w.toRemote = [] ∧ w.fromRemote = [])) ∧
    ∃ w, run step (World.initial 1) refusedAtOnce = some w ∧
      (w.phase 0 = .waiting 8 0 ∧ (0, false) ∈ w.handled ∧ w.waitCondition = false ∧
        w.toRemote = [] ∧ w.fromRemote = []) :=
  ⟨exists_run_of_map (by decide +kernel), exists_run_of_map (by decide +kernel)⟩

end MsmKernel.Glink.Intents
