import MsmKernel.Hab.Open

/-! What the calls of the open handshake do: what a received message does to the queue, what a caller
takes out of it when it wakes up, and what a call sends. -/
namespace MsmKernel.Hab.Open
open List Option BeCall

variable {P : Type*}

def PayloadType.leads (type : PayloadType) : Prop := type = .init ∨ type = .initAck

def BePhase.session : BePhase P → Option (Session P)
  | .replying s | .waitDone s | .cancelling s | .retrying s => some s
  | _ => none

def Unexpired (queue : List (OpenNode P)) (now : Nat) : Prop :=
  ∀ node ∈ queue, now ≤ node.age

/- The request that the cancellation removes came through the same pchan. -/
def OwnCancel (queue : List (OpenNode P)) (pchan : P) (data : OpenSendData) : Prop :=
  ∀ node ∈ queue.find? (OpenNode.unserviced data), node.pchan = pchan

instance (queue : List (OpenNode P)) (now : Nat) : Decidable (Unexpired queue now) :=
  inferInstanceAs (Decidable (∀ node ∈ queue, now ≤ node.age))

instance [DecidableEq P] (queue : List (OpenNode P)) (pchan : P) (data : OpenSendData) :
    Decidable (OwnCancel queue pchan data) := by
  unfold OwnCancel
  infer_instance

variable {pchan : P} {m : Message} {now openId ver : Nat} {e : Wake} {call : FeCall P}
  {phase : FePhase P} {queue' : List (OpenNode P)}

section Queue
variable {queue : List (OpenNode P)} {node : OpenNode P}

theorem mem_eraseP_or_eq {f : OpenNode P → Bool} {n : OpenNode P} (hn : n ∈ queue) :
    n ∈ queue.eraseP f ∨ queue.find? f = some n := by
  induction queue with
  | nil => cases hn
  | cons head queue ih =>
    by_cases hf : f head = true
    · rw [eraseP_cons_of_pos hf, List.find?_cons_of_pos hf]
      cases hn with
      | head => exact .inr rfl
      | tail _ hn => exact .inl hn
    · rw [eraseP_cons_of_neg hf, List.find?_cons_of_neg hf]
      cases hn with
      | head => exact .inl mem_cons_self
      | tail _ hn => exact (ih hn).imp (mem_cons_of_mem head) id

theorem mem_of_mem_habMsgRecv (hnode : node ∈ habMsgRecv queue pchan m now) :
    node ∈ queue ∨ node.type = m.type ∧ node.pchan = pchan ∧ node.xdata = m.xdata := by
  have hadd : node ∈ habOpenRequestAdd queue pchan m now →
      node ∈ queue ∨ node.type = m.type ∧ node.pchan = pchan ∧ node.xdata = m.xdata := by
    intro hmem
    refine (mem_append.1 hmem).imp_right fun hnew => ?_
    rw [mem_singleton.1 hnew]
    exact ⟨rfl, rfl, rfl⟩
  unfold habMsgRecv at hnode
  split at hnode
  · exact hadd hnode
  · exact hadd hnode
  · exact hadd hnode
  · next htype =>
    unfold habOpenReceiveCancel at hnode
    split_ifs at hnode
    · exact .inl (mem_of_mem_eraseP hnode)
    · refine (mem_append.1 hnode).imp_right fun hnew => ?_
      rw [mem_singleton.1 hnew]
      exact ⟨htype.symm, rfl, rfl⟩

theorem mem_habMsgRecv_of_mem (now : Nat)
    (hown : m.type = .initCancel → OwnCancel queue pchan m.xdata) (hnode : node ∈ queue) :
    node ∈ habMsgRecv queue pchan m now ∨
      m.type = .initCancel ∧ node.pchan = pchan ∧ node.xdata.openId = m.xdata.openId := by
  unfold habMsgRecv
  split
  · exact .inl (mem_append_left _ hnode)
  · exact .inl (mem_append_left _ hnode)
  · exact .inl (mem_append_left _ hnode)
  · next htype =>
    unfold habOpenReceiveCancel
    split_ifs
    · refine (mem_eraseP_or_eq hnode).imp_right fun hfind => ⟨htype, hown htype node hfind, ?_⟩
      have hun := List.find?_some hfind
      simp only [OpenNode.unserviced, decide_eq_true_eq] at hun
      exact hun.2.2.1
    · exact .inl (mem_append_left _ hnode)

theorem habMsgRecv_queues (queue : List (OpenNode P)) (pchan : P) (now : Nat)
    (hlead : m.type.leads) :
    ∃ node ∈ habMsgRecv queue pchan m now,
      node.type = m.type ∧ node.pchan = pchan ∧ node.xdata = m.xdata := by
  unfold habMsgRecv
  cases hlead with
  | inl hinit => simp [hinit, habOpenRequestAdd]
  | inr hack => simp [hack, habOpenRequestAdd]

end Queue

theorem doneListened_none (s : Session P) (ret : Errno) :
    BePhase.doneListened s (ret, none) = .retrying s ∨
      ∃ err, BePhase.doneListened s (ret, none) = .failed err := by
  by_cases hret : ret = EAGAIN
  · exact .inl (by simp [BePhase.doneListened, hret])
  · exact .inr ⟨EINVAL, by simp [BePhase.doneListened, hret]⟩

section Listen
variable [DecidableEq P] {listen : Listen P} {queue : List (OpenNode P)} {node : OpenNode P}

theorem answers_iff : node.answers listen = true ↔
    (node.type = listen.type ∨ node.type = .initCancel) ∧ node.xdata.subId = listen.subId ∧
    (listen.openId = 0 ∨ node.xdata.openId = listen.openId) ∧
    (listen.pchan = none ∨ listen.pchan = some node.pchan) := by
  simp [OpenNode.answers]

theorem habOpenRequestFind_unexpired (hnow : Unexpired queue now) :
    habOpenRequestFind listen now queue =
      (queue.find? (OpenNode.answers listen), queue.eraseP (OpenNode.answers listen)) := by
  induction queue with
  | nil => rfl
  | cons node queue ih =>
    have hage : ¬ node.age < now := Nat.not_lt.2 (hnow node mem_cons_self)
    have hrest := ih fun n hn => hnow n (mem_cons_of_mem node hn)
    by_cases hanswers : node.answers listen = true
    · simp [habOpenRequestFind, hanswers]
    · simp [habOpenRequestFind, hanswers, hrest, hage]

variable (hnow : ∀ now, e = .look now → Unexpired queue now)
include hnow

theorem habOpenListen_cases {msTimeout : Int} {uninterruptible : Bool} :
    (∃ result, habOpenListen listen msTimeout uninterruptible queue e = (result, queue) ∧
      ∀ ret recv, result = some (ret, recv) → recv = none) ∨
    ∃ node, queue.find? (OpenNode.answers listen) = some node ∧ (∃ now, e = .look now) ∧
      habOpenListen listen msTimeout uninterruptible queue e =
        (some (0, some node), queue.eraseP (OpenNode.answers listen)) := by
  cases e with
  | look now =>
    simp only [habOpenListen, habOpenRequestFind_unexpired (hnow now rfl)]
    cases hfind : queue.find? (OpenNode.answers listen) with
    | none =>
      have hnone : ∀ n ∈ queue, ¬ n.answers listen = true := by simpa using hfind
      exact .inl ⟨none, by rw [eraseP_of_forall_not hnone], nofun⟩
    | some node => exact .inr ⟨node, rfl, ⟨now, rfl⟩, rfl⟩
  | _ => exact .inl ⟨_, rfl, fun ret recv h => by split_ifs at h; cases h; rfl⟩

theorem feWake_cases (hwake : call.wake pchan openId queue e = some (phase, queue')) :
    call.phase = .waiting ∧
    (queue' = queue ∧ (phase = .waiting ∨ ∃ ret, phase = .cancelling ret) ∨
    ∃ node, queue.find? (OpenNode.answers (call.listen pchan openId)) = some node ∧
      queue' = queue.eraseP (OpenNode.answers (call.listen pchan openId)) ∧
      phase = .listened (0, some node)) := by
  cases hphase : call.phase with
  | waiting =>
    refine ⟨rfl, ?_⟩
    simp only [FeCall.wake, hphase, some.injEq, Prod.mk.injEq] at hwake
    rcases habOpenListen_cases hnow with ⟨result, hlisten, hnone⟩ | ⟨node, hfind, _, hlisten⟩
    · rw [hlisten] at hwake
      obtain ⟨rfl, rfl⟩ := hwake
      refine .inl ⟨rfl, ?_⟩
      rcases result with _ | ⟨ret, recv⟩
      · exact .inl rfl
      · obtain rfl := hnone ret recv rfl
        exact .inr ⟨ret, by cases ret <;> rfl⟩
    · rw [hlisten] at hwake
      obtain ⟨rfl, rfl⟩ := hwake
      exact .inr ⟨node, hfind, rfl, rfl⟩
  | _ => simp [FeCall.wake, hphase] at hwake

theorem beWake_cases {vchanId : Nat} {call : BeCall P} {phase : BePhase P}
    (hwake : call.wake ver vchanId queue e = some (phase, queue')) : (call.phase = .waitInit ∧
      (queue' = queue ∧ (phase = .waitInit ∨ ∃ err, phase = .failed err) ∨
      ∃ node, queue.find? (OpenNode.answers (initListen call.subId)) = some node ∧
        (∃ now, e = .look now) ∧ queue' = queue.eraseP (OpenNode.answers (initListen call.subId)) ∧
        phase = .initListened ver vchanId (0, some node))) ∨
    ∃ s, call.phase = .waitDone s ∧
      (queue' = queue ∧ (phase = .waitDone s ∨ phase = .retrying s ∨ ∃ err, phase = .failed err) ∨
      ∃ node, queue.find? (OpenNode.answers (doneListen call.subId s)) = some node ∧
        (∃ now, e = .look now) ∧ queue' = queue.eraseP (OpenNode.answers (doneListen call.subId s)) ∧
        phase = .returned s) := by
  cases hphase : call.phase with
  | waitInit =>
    refine .inl ⟨rfl, ?_⟩
    simp only [wake, hphase, some.injEq, Prod.mk.injEq] at hwake
    rcases habOpenListen_cases hnow with ⟨result, hlisten, hnone⟩ | ⟨node, hfind, hlook, hlisten⟩
    · rw [hlisten] at hwake
      obtain ⟨rfl, rfl⟩ := hwake
      refine .inl ⟨rfl, ?_⟩
      rcases result with _ | ⟨ret, recv⟩
      · exact .inl rfl
      · obtain rfl := hnone ret recv rfl
        exact .inr (by cases ret <;> exact ⟨_, rfl⟩)
    · rw [hlisten] at hwake
      obtain ⟨rfl, rfl⟩ := hwake
      exact .inr ⟨node, hfind, hlook, rfl, rfl⟩
  | waitDone s =>
    refine .inr ⟨s, rfl, ?_⟩
    simp only [wake, hphase, some.injEq, Prod.mk.injEq] at hwake
    rcases habOpenListen_cases hnow with ⟨result, hlisten, hnone⟩ | ⟨node, hfind, hlook, hlisten⟩
    · rw [hlisten] at hwake
      obtain ⟨rfl, rfl⟩ := hwake
      refine .inl ⟨rfl, ?_⟩
      rcases result with _ | ⟨ret, recv⟩
      · exact .inl rfl
      · obtain rfl := hnone ret recv rfl
        exact .inr (doneListened_none s ret)
    · rw [hlisten] at hwake
      obtain ⟨rfl, rfl⟩ := hwake
      exact .inr ⟨node, hfind, hlook, rfl, rfl⟩
  | _ => simp [wake, hphase] at hwake

end Listen

theorem feSend_cases (hsend : call.send ver openId = some (phase, m)) :
    m.xdata.openId = openId ∧
    ((∃ ret, call.phase = .cancelling ret ∧ phase = .failed (cancelResult ret) ∧
      m.type = .initCancel) ∨
    ∃ recv, call.phase = .paired recv ∧ phase = .opened recv ∧ m.type = .initDone) := by
  cases hphase : call.phase with
  | cancelling ret =>
    simp only [FeCall.send, hphase, some.injEq, Prod.mk.injEq] at hsend
    obtain ⟨rfl, rfl⟩ := hsend
    exact ⟨rfl, .inl ⟨ret, rfl, rfl, rfl⟩⟩
  | paired recv =>
    simp only [FeCall.send, hphase, some.injEq, Prod.mk.injEq] at hsend
    obtain ⟨rfl, rfl⟩ := hsend
    exact ⟨rfl, .inr ⟨recv, rfl, rfl, rfl⟩⟩
  | _ => simp [FeCall.send, hphase] at hsend

theorem beSend_cases {call : BeCall P} {phase : BePhase P}
    (hsend : call.send ver = some (phase, pchan, m)) :
    ∃ s, call.phase.session = some s ∧ s.pchan = pchan ∧ m.xdata.openId = s.openId ∧
      (phase = .waitDone s ∧ m.type = .initAck ∨
      phase.session = none ∧ (∀ s', phase ≠ .returned s') ∧ (∀ s', call.phase ≠ .replying s') ∧
        m.type = .initCancel) := by
  cases hphase : call.phase with
  | replying s =>
    simp only [send, hphase, some.injEq, Prod.mk.injEq] at hsend
    obtain ⟨rfl, rfl, rfl⟩ := hsend
    exact ⟨s, rfl, rfl, rfl, .inl ⟨rfl, rfl⟩⟩
  | retrying s | cancelling s =>
    simp only [send, hphase, some.injEq, Prod.mk.injEq] at hsend
    obtain ⟨rfl, rfl, rfl⟩ := hsend
    exact ⟨s, rfl, rfl, rfl, .inr ⟨rfl, nofun, nofun, rfl⟩⟩
  | _ => simp [send, hphase] at hsend

end MsmKernel.Hab.Open
