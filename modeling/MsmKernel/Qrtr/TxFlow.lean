import Mathlib.Data.List.Basic
import Mathlib.Tactic.Common
import MsmKernel.Lib.Run

/-! Transmit flow control of af_qrtr.c for one flow: senders in `qrtr_tx_wait`, the
transmission of their packets, a receiver that queues, drops and reads them, and the RESUME_TX
it answers. A packet is the confirm_rx flag it carries. Everything `qrtr_tx_wait` does between
taking and releasing the flow lock is one step. -/
namespace MsmKernel.Qrtr.TxFlow
open Run

def QRTR_TX_FLOW_HIGH : Nat := 10
def QRTR_TX_FLOW_LOW : Nat := 5
def EPIPE : Int := 32
def EAGAIN : Int := 11
def ERESTARTSYS : Int := 512

variable {Sock : Type*} [DecidableEq Sock]

/- `asleep` and `woken` are the blocking senders on `resume_tx` without and with a pending
wakeup; `failing` counts failed confirm_rx transmissions whose `qrtr_tx_flow_failed` has not
run yet; `resume` counts RESUME_TX packets in transit. -/
structure Flow (Sock : Type*) where
  pending : Nat
  txFailed : Bool
  ep : Bool
  waiters : List Sock
  asleep : List Sock
  woken : List Sock
  xmitting : List Bool
  failing : Nat
  transit : List Bool
  rxQueue : List Bool
  resume : Nat

def initial : Flow Sock := ⟨0, false, true, [], [], [], [], 0, [], [], 0⟩

def mayProceed (s : Flow Sock) : Bool :=
  decide (s.pending < QRTR_TX_FLOW_HIGH) || s.txFailed || !s.ep

/- `qrtr_tx_wait` after its wait returned `ret`: the confirm_rx flag or an errno. -/
def qrtrTxWait (ret : Int) (sk : Sock) (s : Flow Sock) : Int × Flow Sock :=
  if ret < 0 then (ret, s)
  else if s.ep = false then (-EPIPE, s)
  else if s.txFailed then (1, { s with txFailed := false })
  else if ret = 0 ∧ s.pending ≥ QRTR_TX_FLOW_HIGH then
    if sk ∈ s.waiters then (-EAGAIN, s)
    else (-EAGAIN, { s with waiters := s.waiters ++ [sk] })
  else
    (if s.pending + 1 = QRTR_TX_FLOW_LOW then 1 else 0, { s with pending := s.pending + 1 })

def qrtrNodeEnqueue (ret : Int) (sk : Sock) (s : Flow Sock) : Flow Sock :=
  let r := qrtrTxWait ret sk s
  if r.1 < 0 then r.2 else { r.2 with xmitting := r.2.xmitting ++ [decide (r.1 ≠ 0)] }

def qrtrTxResume (s : Flow Sock) : Flow Sock :=
  { s with pending := 0, woken := s.woken ++ s.asleep, asleep := [], waiters := [] }

def qrtrTxFlowFailed (s : Flow Sock) : Flow Sock := { s with txFailed := true }

inductive Event (Sock : Type*) where
  | send (sk : Sock) (dontwait : Bool)
  | sendCtrl
  | wake (sk : Sock)
  | timeout (sk : Sock) (woken : Bool)
  | signal (sk : Sock) (woken : Bool)
  | xmitOk (confirm : Bool)
  | xmitFail (confirm : Bool)
  | flowFailed
  | deliver (confirm : Bool)
  | drop (confirm : Bool)
  | read
  | resumeTx

def leave (sk : Sock) (woken : Bool) (s : Flow Sock) : Option (Flow Sock) :=
  if woken then
    if sk ∈ s.woken then some { s with woken := s.woken.erase sk } else none
  else
    if sk ∈ s.asleep then some { s with asleep := s.asleep.erase sk } else none

def step (s : Flow Sock) : Event Sock → Option (Flow Sock)
  | .send sk dontwait =>
    if mayProceed s then some (qrtrNodeEnqueue 1 sk s)
    else if dontwait then some (qrtrNodeEnqueue 0 sk s)
    else some { s with asleep := s.asleep ++ [sk] }
  | .sendCtrl => some { s with xmitting := s.xmitting ++ [false] }
  | .wake sk =>
    (leave sk true s).map fun t =>
      if mayProceed t then qrtrNodeEnqueue 1 sk t else { t with asleep := t.asleep ++ [sk] }
  | .timeout sk woken =>
    (leave sk woken s).map fun t => qrtrNodeEnqueue (if mayProceed t then 1 else 0) sk t
  | .signal sk woken =>
    (leave sk woken s).map fun t =>
      qrtrNodeEnqueue (if mayProceed t then 1 else -ERESTARTSYS) sk t
  | .xmitOk confirm =>
    if confirm ∈ s.xmitting then
      some { s with xmitting := s.xmitting.erase confirm, transit := s.transit ++ [confirm] }
    else none
  | .xmitFail confirm =>
    if confirm ∈ s.xmitting then
      some { s with
        xmitting := s.xmitting.erase confirm
        failing := if confirm then s.failing + 1 else s.failing }
    else none
  | .flowFailed =>
    if s.failing = 0 then none
    else some (qrtrTxFlowFailed { s with failing := s.failing - 1 })
  | .deliver confirm =>
    if confirm ∈ s.transit then
      some { s with transit := s.transit.erase confirm, rxQueue := s.rxQueue ++ [confirm] }
    else none
  | .drop confirm =>
    if confirm ∈ s.transit then some { s with transit := s.transit.erase confirm } else none
  | .read =>
    match s.rxQueue with
    | [] => none
    | confirm :: rest =>
      some { s with rxQueue := rest, resume := if confirm then s.resume + 1 else s.resume }
  | .resumeTx =>
    if s.resume = 0 then none else some (qrtrTxResume { s with resume := s.resume - 1 })

def Marker (s : Flow Sock) : Prop :=
  true ∈ s.xmitting ∨ true ∈ s.transit ∨ true ∈ s.rxQueue ∨ 0 < s.resume

instance (s : Flow Sock) : Decidable (Marker s) := inferInstanceAs (Decidable (_ ∨ _))

def NoneWaiting (s : Flow Sock) : Prop := s.asleep = [] ∧ s.waiters = []

/-- What the flow promises in every state. -/
def NotStranded (s : Flow Sock) : Prop :=
  s.pending ≤ QRTR_TX_FLOW_HIGH ∧ (NoneWaiting s ∨ Marker s)

instance (s : Flow Sock) : Decidable (NotStranded s) :=
  inferInstanceAs (Decidable (_ ∧ (_ ∧ _ ∨ _)))

/- A sender that finds the flow full does so while a marker is on its way, or at least not
between a failed confirm_rx transmission and the setting of tx_failed. -/
def FullIsMarked (s : Flow Sock) : Prop := mayProceed s = false → s.failing = 0 ∨ Marker s

instance (s : Flow Sock) : Decidable (FullIsMarked s) := inferInstanceAs (Decidable (_ → _))

/-- The last confirm_rx marker is not lost while the flow depends on it. -/
def KeepsMarker (s : Flow Sock) : Event Sock → Prop
  | .send _ _ => FullIsMarked s
  | .wake _ => FullIsMarked s
  | .timeout _ _ => FullIsMarked s
  | .xmitFail true => Marker { s with xmitting := s.xmitting.erase true } ∨ NoneWaiting s
  | .drop true => Marker { s with transit := s.transit.erase true } ∨
      NoneWaiting s ∧ (s.pending < QRTR_TX_FLOW_LOW ∨ s.txFailed = true ∨ s.failing ≠ 0)
  | _ => True

instance decidableKeepsMarker (s : Flow Sock) (e : Event Sock) : Decidable (KeepsMarker s e) := by
  cases e with
  | xmitFail b | drop b => cases b <;> (dsimp only [KeepsMarker, NoneWaiting]; infer_instance)
  | _ => dsimp only [KeepsMarker]; infer_instance

structure Inv (s : Flow Sock) : Prop where
  ep : s.ep = true
  high : s.pending ≤ QRTR_TX_FLOW_HIGH
  waiting : NoneWaiting s ∨ Marker s
  low : QRTR_TX_FLOW_LOW ≤ s.pending → Marker s ∨ s.txFailed = true ∨ s.failing ≠ 0

omit [DecidableEq Sock] in
variable {s : Flow Sock}

theorem not_mayProceed (h : mayProceed s = false) :
    QRTR_TX_FLOW_HIGH ≤ s.pending ∧ s.txFailed = false ∧ s.ep = true := by
  simp only [mayProceed, Bool.or_eq_false_iff, decide_eq_false_iff_not, Nat.not_lt,
    Bool.not_eq_false'] at h
  exact ⟨h.1.1, h.1.2, h.2⟩

omit [DecidableEq Sock] in
theorem Inv.marker_of_full (hs : Inv s) (hfull : ¬ mayProceed s = true) (hmarked : FullIsMarked s) :
    Marker s := by
  have hfull : mayProceed s = false := by simpa using hfull
  obtain ⟨hpending, hfailed, -⟩ := not_mayProceed hfull
  have hlow : QRTR_TX_FLOW_LOW ≤ s.pending := Nat.le_trans (by decide) hpending
  rcases hs.low hlow with hm | hm | hm
  · exact hm
  · simp [hfailed] at hm
  · exact (hmarked hfull).resolve_left hm

omit [DecidableEq Sock] in
theorem Inv.moved (hs : Inv s) {xmitting transit rxQueue : List Bool} {resume : Nat}
    (hm : Marker s → Marker { s with xmitting, transit, rxQueue, resume }) :
    Inv { s with xmitting, transit, rxQueue, resume } :=
  ⟨hs.ep, hs.high, hs.waiting.imp id hm, fun h => (hs.low h).imp hm id⟩

theorem inv_enqueue_proceed (hs : Inv s) (hgo : mayProceed s = true) (sk : Sock) :
    Inv (qrtrNodeEnqueue 1 sk s) := by
  have hep := hs.ep
  cases hf : s.txFailed with
  | true =>
    have heq : qrtrNodeEnqueue 1 sk s =
        { s with txFailed := false, xmitting := s.xmitting ++ [true] } := by
      simp [qrtrNodeEnqueue, qrtrTxWait, hep, hf]
    have hm : Marker (qrtrNodeEnqueue 1 sk s) := Or.inl (by simp [heq])
    rw [heq] at hm ⊢
    exact ⟨hep, hs.high, Or.inr hm, fun _ => Or.inl hm⟩
  | false =>
    have hlt : s.pending < QRTR_TX_FLOW_HIGH := by simpa [mayProceed, hf, hep] using hgo
    have heq : qrtrNodeEnqueue 1 sk s = { s with
        pending := s.pending + 1
        xmitting := s.xmitting ++ [decide (s.pending + 1 = QRTR_TX_FLOW_LOW)] } := by
      by_cases hl : s.pending + 1 = QRTR_TX_FLOW_LOW <;>
        simp [qrtrNodeEnqueue, qrtrTxWait, hep, hf, hl]
    have hmono : Marker s → Marker (qrtrNodeEnqueue 1 sk s) := by
      rw [heq]
      exact fun hm => hm.imp (List.mem_append_left _) id
    rw [heq] at hmono ⊢
    refine ⟨hep, hlt, hs.waiting.imp id hmono, fun hlow => ?_⟩
    by_cases hl : s.pending + 1 = QRTR_TX_FLOW_LOW
    · exact Or.inl (Or.inl (by simp [hl]))
    · have hlow : QRTR_TX_FLOW_LOW ≤ s.pending + 1 := hlow
      exact (hs.low (by omega)).imp hmono id

theorem inv_enqueue_full (hs : Inv s) (hfull : ¬ mayProceed s = true) (hmarked : FullIsMarked s)
    (sk : Sock) : Inv (qrtrNodeEnqueue 0 sk s) := by
  obtain ⟨hpending, hfailed, hep⟩ := not_mayProceed (Bool.not_eq_true _ ▸ hfull)
  by_cases hmem : sk ∈ s.waiters
  · have heq : qrtrNodeEnqueue 0 sk s = s := by
      simp [qrtrNodeEnqueue, qrtrTxWait, hep, hfailed, hpending, hmem, EAGAIN]
    rwa [heq]
  · have heq : qrtrNodeEnqueue 0 sk s = { s with waiters := s.waiters ++ [sk] } := by
      simp [qrtrNodeEnqueue, qrtrTxWait, hep, hfailed, hpending, hmem, EAGAIN]
    rw [heq]
    exact ⟨hep, hs.high, Or.inr (hs.marker_of_full hfull hmarked), hs.low⟩

theorem enqueue_signal (s : Flow Sock) (sk : Sock) : qrtrNodeEnqueue (-ERESTARTSYS) sk s = s := by
  simp [qrtrNodeEnqueue, qrtrTxWait, ERESTARTSYS]

omit [DecidableEq Sock] in
theorem inv_sleep (hs : Inv s) (hfull : ¬ mayProceed s = true) (hmarked : FullIsMarked s)
    (sk : Sock) : Inv { s with asleep := s.asleep ++ [sk] } :=
  ⟨hs.ep, hs.high, Or.inr (hs.marker_of_full hfull hmarked), hs.low⟩

theorem inv_leave {s t : Flow Sock} {sk : Sock} {woken : Bool} (hs : Inv s)
    (h : leave sk woken s = some t) : Inv t ∧ (FullIsMarked s → FullIsMarked t) := by
  simp only [leave] at h
  split_ifs at h with hw hmem hmem <;> cases h
  · exact ⟨⟨hs.ep, hs.high, hs.waiting, hs.low⟩, id⟩
  · refine ⟨⟨hs.ep, hs.high, hs.waiting.imp (fun hnone => ⟨?_, hnone.2⟩) id, hs.low⟩, id⟩
    simp [hnone.1]

theorem mem_erase_or {confirm : Bool} {l : List Bool} (h : true ∈ l) :
    confirm = true ∨ true ∈ l.erase confirm := by
  cases confirm with
  | true => exact .inl rfl
  | false => exact .inr ((List.mem_erase_of_ne (by decide)).2 h)

theorem inv_step {s t : Flow Sock} {e : Event Sock} (hs : Inv s) (he : KeepsMarker s e)
    (ht : step s e = some t) : Inv t := by
  cases e with
  | send sk dontwait =>
    simp only [step] at ht
    split_ifs at ht with hgo hdont <;> cases ht
    · exact inv_enqueue_proceed hs hgo sk
    · exact inv_enqueue_full hs hgo he sk
    · exact inv_sleep hs hgo he sk
  | sendCtrl =>
    cases ht
    exact hs.moved (Or.imp (List.mem_append_left _) id)
  | wake sk =>
    simp only [step, Option.map_eq_some_iff] at ht
    obtain ⟨u, hu, rfl⟩ := ht
    obtain ⟨hinv, hmarked⟩ := inv_leave hs hu
    split_ifs with hgo
    · exact inv_enqueue_proceed hinv hgo sk
    · exact inv_sleep hinv hgo (hmarked he) sk
  | timeout sk woken =>
    simp only [step, Option.map_eq_some_iff] at ht
    obtain ⟨u, hu, rfl⟩ := ht
    obtain ⟨hinv, hmarked⟩ := inv_leave hs hu
    split_ifs with hgo
    · exact inv_enqueue_proceed hinv hgo sk
    · exact inv_enqueue_full hinv hgo (hmarked he) sk
  | signal sk woken =>
    simp only [step, Option.map_eq_some_iff] at ht
    obtain ⟨u, hu, rfl⟩ := ht
    obtain ⟨hinv, -⟩ := inv_leave hs hu
    split_ifs with hgo
    · exact inv_enqueue_proceed hinv hgo sk
    · rwa [enqueue_signal]
  | xmitOk confirm =>
    simp only [step] at ht
    split_ifs at ht with hmem
    cases ht
    refine hs.moved ?_
    rintro (hm | hm | hm)
    · exact (mem_erase_or hm).elim (fun hc => .inr (.inl (by simp [hc]))) .inl
    · exact .inr (.inl (List.mem_append_left _ hm))
    · exact .inr (.inr hm)
  | xmitFail confirm =>
    simp only [step] at ht
    split_ifs at ht with hmem hc <;> cases ht
    · subst hc
      exact ⟨hs.ep, hs.high, he.symm, fun _ => .inr (.inr (Nat.succ_ne_zero _))⟩
    · exact hs.moved (Or.imp (fun hm => (mem_erase_or hm).resolve_left hc) id)
  | flowFailed =>
    simp only [step] at ht
    split_ifs at ht
    cases ht
    exact ⟨hs.ep, hs.high, hs.waiting, fun _ => .inr (.inl rfl)⟩
  | deliver confirm =>
    simp only [step] at ht
    split_ifs at ht with hmem
    cases ht
    refine hs.moved ?_
    rintro (hm | hm | hm | hm)
    · exact .inl hm
    · exact (mem_erase_or hm).elim (fun hc => .inr (.inr (.inl (by simp [hc])))) (.inr ∘ .inl)
    · exact .inr (.inr (.inl (List.mem_append_left _ hm)))
    · exact .inr (.inr (.inr hm))
  | drop confirm =>
    simp only [step] at ht
    split_ifs at ht with hmem
    cases ht
    cases confirm with
    | true =>
      rcases he with hm | ⟨hnone, hflow⟩
      · exact ⟨hs.ep, hs.high, .inr hm, fun _ => .inl hm⟩
      · exact ⟨hs.ep, hs.high, .inl hnone, fun hlow =>
          .inr (hflow.resolve_left (Nat.not_lt.2 hlow))⟩
    | false =>
      exact hs.moved (Or.imp id (Or.imp (fun hm => (mem_erase_or hm).resolve_left (by simp)) id))
  | read =>
    cases hq : s.rxQueue with
    | nil => simp [step, hq] at ht
    | cons confirm rest =>
      simp only [step, hq, Option.some.injEq] at ht
      subst ht
      refine hs.moved ?_
      rintro (hm | hm | hm | hm)
      · exact .inl hm
      · exact .inr (.inl hm)
      · rw [hq] at hm
        cases confirm with
        | true => exact .inr (.inr (.inr (Nat.succ_pos _)))
        | false => exact .inr (.inr (.inl (by simpa using hm)))
      · refine .inr (.inr (.inr ?_))
        simp only
        split_ifs <;> omega
  | resumeTx =>
    simp only [step] at ht
    split_ifs at ht
    cases ht
    exact ⟨hs.ep, Nat.zero_le _, .inl ⟨rfl, rfl⟩, fun h => absurd h (show ¬ 5 ≤ 0 by decide)⟩

/-- In every run whose steps keep the marker, the flow stays below the high watermark and a
sender that is asleep or registered is covered by a marker on its way. -/
theorem tx_flow_not_stranded {events : List (Event Sock)}
    (hkeep : Along step KeepsMarker (initial : Flow Sock) events)
    (hrun : run step (initial : Flow Sock) events = some s) : NotStranded s := by
  have hinit : Inv (initial : Flow Sock) :=
    ⟨rfl, Nat.zero_le _, Or.inl ⟨rfl, rfl⟩, fun h => absurd h (show ¬ 5 ≤ 0 by decide)⟩
  have hinv : Inv s := run_invariant (fun s e t hs he ht => inv_step hs he ht) hinit hkeep hrun
  exact ⟨hinv.high, hinv.waiting⟩

def fill : List (Event Nat) := List.replicate 10 (.send 0 false)

/-- With the marker delivered and read, the eleventh sender sleeps, is woken by the RESUME_TX
and transmits. -/
theorem tx_flow_not_stranded_resume :
    ∃ s, run step (initial : Flow Nat)
        (fill ++ [.send 1 false, .xmitOk true, .deliver true, .read, .resumeTx, .wake 1]) =
          some s ∧ s.pending = 1 ∧ NotStranded s := by
  have hkeep : Along step KeepsMarker (initial : Flow Nat)
      (fill ++ [.send 1 false, .xmitOk true, .deliver true, .read, .resumeTx, .wake 1]) := by decide
  exact ⟨_, rfl, rfl, tx_flow_not_stranded hkeep rfl⟩

/-- The transmission of the confirm_rx packet fails while the eleventh sender sleeps: tx_failed
is set, but nobody is woken and no marker is left. -/
theorem failed_xmit_strands_sender :
    ∃ s, run step (initial : Flow Nat)
        (fill ++ [.send 1 false, .xmitFail true, .flowFailed]) = some s ∧
      s.asleep = [1] ∧ s.woken = [] ∧ s.txFailed = true ∧ ¬ NotStranded s :=
  ⟨_, rfl, rfl, rfl, rfl, by decide⟩

/- The other loss: the receiver drops the confirm_rx packet, and nothing replaces it. -/
example : ∃ s, run step (initial : Flow Nat)
    (List.replicate 5 (.send 0 false) ++ [.xmitOk true, .drop true] ++
      List.replicate 5 (.send 0 false) ++ [.send 1 false]) = some s ∧ ¬ NotStranded s :=
  ⟨_, rfl, by decide⟩

end MsmKernel.Qrtr.TxFlow
