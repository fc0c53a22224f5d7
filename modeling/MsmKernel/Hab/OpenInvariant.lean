import MsmKernel.Hab.OpenQueue

/-! The invariant of the open handshake: what messages, queued requests and back ends know of a front
end, and where the answer to a waiting front end is. -/
namespace MsmKernel.Hab.Open
open Function List

variable {B P V : Type*}

structure Later (call call' : FeCall P) : Prop where
  vchanId : call'.vchanId = call.vchanId
  waiting : call'.phase = .waiting → call.phase = .waiting
  opened : ∀ recv, call.phase = .opened recv → call'.phase = .opened recv

theorem Later.refl (call : FeCall P) : Later call call := ⟨rfl, id, fun _ => id⟩

def World.Extends (w w' : World B P V) : Prop :=
  ∀ key call, w.fe key = some call → ∃ call', w'.fe key = some call' ∧ Later call call'

theorem World.Extends.of_eq {w w' : World B P V} (h : w'.fe = w.fe) : w.Extends w' :=
  fun _ call hcall => ⟨call, by rw [h, hcall], Later.refl call⟩

def World.supports (w : World B P V) (pchan : P) (type : PayloadType) (data : OpenSendData) : Prop :=
  ∃ call, w.fe (pchan, data.openId) = some call ∧
    match type with
    | .init => call.vchanId = data.vchanId
    | .initAck => True
    | .initDone => ∃ recv, call.phase = .opened recv
    | .initCancel => call.phase ≠ .waiting

def World.backs (w : World B P V) (s : Session P) : Prop :=
  ∃ call, w.fe (s.pchan, s.openId) = some call ∧ call.vchanId = s.otherendId

def World.paired (w : World B P V) (s : Session P) : Prop :=
  ∃ call recv, w.fe (s.pchan, s.openId) = some call ∧ call.vchanId = s.otherendId ∧
    call.phase = .opened recv

section Extends
variable {w w' : World B P V} {pchan : P} {type : PayloadType} {data : OpenSendData} {s : Session P}

theorem World.supports.mono (h : w.supports pchan type data) (hext : w.Extends w') :
    w'.supports pchan type data := by
  obtain ⟨call, hcall, htype⟩ := h
  obtain ⟨call', hcall', hlater⟩ := hext _ _ hcall
  refine ⟨call', hcall', ?_⟩
  cases type with
  | init => exact hlater.vchanId.trans htype
  | initAck => trivial
  | initDone => exact htype.imp hlater.opened
  | initCancel => exact fun hwaiting => htype (hlater.waiting hwaiting)

theorem World.backs.mono (h : w.backs s) (hext : w.Extends w') : w'.backs s := by
  obtain ⟨call, hcall, hid⟩ := h
  obtain ⟨call', hcall', hlater⟩ := hext _ _ hcall
  exact ⟨call', hcall', hlater.vchanId.trans hid⟩

theorem World.paired.mono (h : w.paired s) (hext : w.Extends w') : w'.paired s := by
  obtain ⟨call, recv, hcall, hid, hopened⟩ := h
  obtain ⟨call', hcall', hlater⟩ := hext _ _ hcall
  exact ⟨call', recv, hcall', hlater.vchanId.trans hid, hlater.opened recv hopened⟩

end Extends

def World.awaited (dev : Device P V) (w : World B P V) (pchan : P) (openId : Nat) : Prop :=
  (∃ m ∈ w.toBe pchan ++ w.toFe pchan, m.type.leads ∧ m.xdata.openId = openId) ∨
  (∃ node ∈ w.openq dev.host ++ w.openq (dev.home pchan),
    node.type.leads ∧ node.pchan = pchan ∧ node.xdata.openId = openId) ∨
  ∃ b call s, w.be b = some call ∧ call.phase = .replying s ∧ s.pchan = pchan ∧ s.openId = openId

structure Inv (dev : Device P V) (w : World B P V) : Prop where
  counter : ∀ pchan openId call, w.fe (pchan, openId) = some call →
    0 < openId ∧ openId ≤ w.openIdCounter (dev.home pchan)
  acked : ∀ key call recv, w.fe key = some call →
    call.phase = .paired recv ∨ call.phase = .opened recv → recv.type = .initAck
  toBe : ∀ pchan, ∀ m ∈ w.toBe pchan, w.supports pchan m.type m.xdata
  toFe : ∀ pchan, ∀ m ∈ w.toFe pchan, (m.type = .initAck ∨ m.type = .initCancel) ∧
    w.supports pchan .initAck m.xdata
  queued : ∀ vm, ∀ node ∈ w.openq vm, w.supports node.pchan node.type node.xdata
  session : ∀ b call s, w.be b = some call → call.phase.session = some s → w.backs s
  returned : ∀ b call s, w.be b = some call → call.phase = .returned s → w.paired s
  served : ∀ pchan openId call, w.fe (pchan, openId) = some call → call.phase = .waiting →
    w.awaited dev pchan openId

theorem Inv.initial (dev : Device P V) : Inv dev (World.initial : World B P V) where
  counter := nofun
  acked := nofun
  toBe := nofun
  toFe := nofun
  queued := nofun
  session := nofun
  returned := nofun
  served := nofun

structure Change (dev : Device P V) (w w' : World B P V) : Prop where
  later : w.Extends w'
  counter : ∀ pchan openId call, w'.fe (pchan, openId) = some call →
    0 < openId ∧ openId ≤ w'.openIdCounter (dev.home pchan)
  acked : ∀ key call recv, w'.fe key = some call →
    call.phase = .paired recv ∨ call.phase = .opened recv → recv.type = .initAck
  toBe : ∀ pchan, ∀ m ∈ w'.toBe pchan, m ∈ w.toBe pchan ∨ w'.supports pchan m.type m.xdata
  toFe : ∀ pchan, ∀ m ∈ w'.toFe pchan, m ∈ w.toFe pchan ∨
    (m.type = .initAck ∨ m.type = .initCancel) ∧ w'.supports pchan .initAck m.xdata
  queued : ∀ vm, ∀ node ∈ w'.openq vm, node ∈ w.openq vm ∨
    w'.supports node.pchan node.type node.xdata
  be : ∀ b call, w'.be b = some call → w.be b = some call ∨
    (∀ s, call.phase.session = some s → w'.backs s) ∧ ∀ s, call.phase = .returned s → w'.paired s
  served : ∀ pchan openId call, w'.fe (pchan, openId) = some call → call.phase = .waiting →
    w'.awaited dev pchan openId

theorem Inv.after {dev : Device P V} {w w' : World B P V} (hinv : Inv dev w)
    (h : Change dev w w') : Inv dev w' where
  counter := h.counter
  acked := h.acked
  toBe pchan m hm := (h.toBe pchan m hm).elim (fun hold => (hinv.toBe pchan m hold).mono h.later) id
  toFe pchan m hm :=
    (h.toFe pchan m hm).elim (fun hold => (hinv.toFe pchan m hold).imp_right (·.mono h.later)) id
  queued vm node hnode :=
    (h.queued vm node hnode).elim (fun hold => (hinv.queued vm node hold).mono h.later) id
  session b call s hcall hs :=
    (h.be b call hcall).elim (fun hold => (hinv.session b call s hold hs).mono h.later)
      fun hnew => hnew.1 s hs
  returned b call s hcall hs :=
    (h.be b call hcall).elim (fun hold => (hinv.returned b call s hold hs).mono h.later)
      fun hnew => hnew.2 s hs
  served := h.served

variable {α β : Type*} {f : P → List Message} {key : P × Nat} {call call' : FeCall P} {p : P}
  {m m' : Message} {rest : List Message} {now : Nat} {vm : V} {queue : List (OpenNode P)}

theorem mem_update_append [DecidableEq α] {f : α → List β} {a c : α} {x y : β} :
    y ∈ update f a (f a ++ [x]) c ↔ y ∈ f c ∨ c = a ∧ y = x := by
  by_cases hc : c = a
  · subst hc
    simp
  · simp [hc]

theorem eq_or_of_update_eq_some [DecidableEq α] {f : α → Option β} {a c : α} {x y : β}
    (h : update f a (some x) c = some y) : c = a ∧ y = x ∨ c ≠ a ∧ f c = some y := by
  by_cases hc : c = a
  · subst hc
    rw [update_self, Option.some.injEq] at h
    exact .inl ⟨rfl, h.symm⟩
  · rw [update_of_ne hc] at h
    exact .inr ⟨hc, h⟩

/-- Whatever leads to INIT_ACK stays where it is or turns into something else that does. -/
theorem World.awaited.transfer {dev : Device P V} {w w' : World B P V} {pchan : P} {openId : Nat}
    (h : w.awaited dev pchan openId)
    (hmsg : ∀ m ∈ w.toBe pchan ++ w.toFe pchan, m.type.leads → m.xdata.openId = openId →
      m ∈ w'.toBe pchan ++ w'.toFe pchan ∨ w'.awaited dev pchan openId)
    (hnode : ∀ vm, ∀ node ∈ w.openq vm, node.type.leads → node.pchan = pchan →
      node.xdata.openId = openId → node ∈ w'.openq vm ∨ w'.awaited dev pchan openId)
    (hbe : ∀ b call s, w.be b = some call → call.phase = .replying s → s.pchan = pchan →
      s.openId = openId → w'.be b = some call ∨ w'.awaited dev pchan openId) :
    w'.awaited dev pchan openId := by
  rcases h with ⟨m, hm, htype, hid⟩ | ⟨node, hnode', htype, hp, hid⟩ |
    ⟨b, call, s, hcall, hphase, hp, hid⟩
  · exact (hmsg m hm htype hid).elim (fun hm => .inl ⟨m, hm, htype, hid⟩) id
  · rcases mem_append.1 hnode' with hq | hq
    · exact (hnode _ node hq htype hp hid).elim
        (fun hq => .inr (.inl ⟨node, mem_append_left _ hq, htype, hp, hid⟩)) id
    · exact (hnode _ node hq htype hp hid).elim
        (fun hq => .inr (.inl ⟨node, mem_append_right _ hq, htype, hp, hid⟩)) id
  · exact (hbe b call s hcall hphase hp hid).elim
      (fun hcall => .inr (.inr ⟨b, call, s, hcall, hphase, hp, hid⟩)) id

section Update
variable [DecidableEq P] {dev : Device P V} {w w' : World B P V} {pchan : P} {openId : Nat}

theorem extends_update (hcall : w.fe key = some call) (hlater : Later call call')
    (hfe : w'.fe = update w.fe key (some call')) : w.Extends w' := by
  intro key' old hold
  rw [hfe]
  by_cases hkey : key' = key
  · subst hkey
    cases hcall.symm.trans hold
    exact ⟨call', update_self .., hlater⟩
  · exact ⟨old, by rw [update_of_ne hkey, hold], Later.refl old⟩

theorem counter_update (hinv : Inv dev w) (hcall : w.fe key = some call)
    (hfe : w'.fe = update w.fe key (some call')) (hcounter : w'.openIdCounter = w.openIdCounter)
    (p : P) (x : Nat) (new : FeCall P) (hnew : w'.fe (p, x) = some new) :
    0 < x ∧ x ≤ w'.openIdCounter (dev.home p) := by
  rw [hcounter]
  rw [hfe] at hnew
  rcases eq_or_of_update_eq_some hnew with ⟨rfl, _⟩ | ⟨_, hold⟩
  · exact hinv.counter p x call hcall
  · exact hinv.counter p x new hold

theorem acked_update (hinv : Inv dev w) (hfe : w'.fe = update w.fe key (some call'))
    (hack : ∀ recv, call'.phase = .paired recv ∨ call'.phase = .opened recv → recv.type = .initAck)
    (key' : P × Nat) (new : FeCall P) (recv : OpenNode P) (hnew : w'.fe key' = some new)
    (hphase : new.phase = .paired recv ∨ new.phase = .opened recv) : recv.type = .initAck := by
  rw [hfe] at hnew
  rcases eq_or_of_update_eq_some hnew with ⟨_, rfl⟩ | ⟨_, hold⟩
  · exact hack recv hphase
  · exact hinv.acked key' new recv hold hphase

theorem sent_toBe (htoBe : w'.toBe = update w.toBe pchan (w.toBe pchan ++ [m]))
    (htoFe : w'.toFe = w.toFe) (m' : Message) (hm : m' ∈ w.toBe p ++ w.toFe p) (_ : m'.type.leads)
    (_ : m'.xdata.openId = openId) : m' ∈ w'.toBe p ++ w'.toFe p ∨ w'.awaited dev p openId := by
  rw [htoBe, htoFe, mem_append, mem_update_append]
  exact .inl ((mem_append.1 hm).imp_left .inl)

theorem mem_of_mem_update_tail (hf : f pchan = m :: rest) (hm : m' ∈ update f pchan rest p) :
    m' ∈ f p := by
  rw [update_apply] at hm
  split_ifs at hm with hp
  · rw [hp, hf]
    exact mem_cons_of_mem m hm
  · exact hm

theorem mem_update_tail_or_eq (hf : f pchan = m :: rest) (hm : m' ∈ f p) :
    m' ∈ update f pchan rest p ∨ p = pchan ∧ m' = m := by
  rw [update_apply]
  split_ifs with hp
  · rw [hp, hf] at hm
    cases hm with
    | head => exact .inr ⟨hp, rfl⟩
    | tail _ hm => exact .inl hm
  · exact .inl hm

end Update

section Queues
variable [DecidableEq V] {dev : Device P V} {w w' : World B P V} {pchan : P}

/-- The queue of one VM takes in the first message of a channel; the front end that a cancellation is
about does not wait. -/
theorem recv_awaited {x : Nat} (h : w.awaited dev p x) (hvm : vm = dev.host ∨ vm = dev.home pchan)
    (hown : m.type = .initCancel → OwnCancel (w.openq vm) pchan m.xdata)
    (hcancel : m.type = .initCancel → (pchan, m.xdata.openId) ≠ (p, x))
    (hq : w'.openq = update w.openq vm (habMsgRecv (w.openq vm) pchan m now))
    (hmsg : ∀ m' ∈ w.toBe p ++ w.toFe p, m' ∈ w'.toBe p ++ w'.toFe p ∨ p = pchan ∧ m' = m)
    (hbe : w'.be = w.be) : w'.awaited dev p x := by
  refine h.transfer ?_ ?_ (fun b call s hcall _ _ _ => .inl (hbe ▸ hcall))
  · intro m' hm' hlead hid
    refine (hmsg m' hm').imp_right ?_
    rintro ⟨rfl, rfl⟩
    obtain ⟨node, hnode, htype, hp, hdata⟩ := habMsgRecv_queues (w.openq vm) p now hlead
    have hin : node ∈ w'.openq vm := by rwa [hq, update_self]
    refine .inr (.inl ⟨node, ?_, htype ▸ hlead, hp, by rw [hdata, hid]⟩)
    rcases hvm with rfl | rfl
    · exact mem_append_left _ hin
    · exact mem_append_right _ hin
  · intro vm' node hnode hlead hp hid
    rw [hq, update_apply]
    split_ifs with hvm'
    · subst hvm'
      refine (mem_habMsgRecv_of_mem now hown hnode).imp_right ?_
      rintro ⟨htype, hp', hid'⟩
      exact absurd (by rw [← hp, ← hid, hp', hid']) (hcancel htype)
    · exact .inl hnode

theorem recv_queued (hm : w'.supports pchan m.type m.xdata)
    (hq : w'.openq = update w.openq vm (habMsgRecv (w.openq vm) pchan m now)) (vm' : V)
    (node : OpenNode P) (hnode : node ∈ w'.openq vm') :
    node ∈ w.openq vm' ∨ w'.supports node.pchan node.type node.xdata := by
  rw [hq, update_apply] at hnode
  split_ifs at hnode with hvm
  · subst hvm
    refine (mem_of_mem_habMsgRecv hnode).imp_right ?_
    rintro ⟨htype, hp, hdata⟩
    rwa [htype, hp, hdata]
  · exact .inl hnode

theorem wake_queued (hsub : queue ⊆ w.openq vm) (hq : w'.openq = update w.openq vm queue)
    (vm' : V) (node : OpenNode P) (hnode : node ∈ w'.openq vm') : node ∈ w.openq vm' := by
  rw [hq, update_apply] at hnode
  split_ifs at hnode with hvm
  · exact hvm ▸ hsub hnode
  · exact hnode

theorem wake_kept {x : Nat}
    (hkeep : ∀ node ∈ w.openq vm, node.type.leads → node.pchan = p → node.xdata.openId = x →
      node ∈ queue ∨ w'.awaited dev p x) (hq : w'.openq = update w.openq vm queue) (vm' : V)
    (node : OpenNode P) (hnode : node ∈ w.openq vm') (hlead : node.type.leads)
    (hp : node.pchan = p) (hx : node.xdata.openId = x) :
    node ∈ w'.openq vm' ∨ w'.awaited dev p x := by
  rw [hq, update_apply]
  split_ifs with hvm
  · subst hvm
    exact hkeep node hnode hlead hp hx
  · exact .inl hnode

end Queues

end MsmKernel.Hab.Open
