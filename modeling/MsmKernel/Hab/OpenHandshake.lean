import MsmKernel.Hab.OpenInvariant

/-! Agreement of the open handshake: what a back end that returns a vchan knows of its front end, and
what a waiting front end can still expect. -/
namespace MsmKernel.Hab.Open
open Run Function List Option

variable {B P V : Type*}

/- A vchan that a back end returns belongs to a front end that has received INIT_ACK and has sent
INIT_DONE. -/
def Agreement (w : World B P V) : Prop :=
  ∀ b call s, w.be b = some call → call.phase = .returned s →
    ∃ fe recv, w.fe (s.pchan, s.openId) = some fe ∧ fe.vchanId = s.otherendId ∧
      fe.phase = .opened recv ∧ recv.type = .initAck

def World.carries (dev : Device P V) (w : World B P V) (pchan : P) (openId : Nat)
    (type : PayloadType) : Prop :=
  (∃ m ∈ w.toBe pchan ++ w.toFe pchan, m.type = type ∧ m.xdata.openId = openId) ∨
  ∃ node ∈ w.openq dev.host ++ w.openq (dev.home pchan),
    node.type = type ∧ node.pchan = pchan ∧ node.xdata.openId = openId

def World.processes (w : World B P V) (pchan : P) (openId : Nat) : Prop :=
  ∃ b call s, w.be b = some call ∧ call.phase.session = some s ∧ s.pchan = pchan ∧ s.openId = openId

/- A front end that waits for INIT_ACK has a message of its open id under way, or a back end at work
on it. -/
def Served (dev : Device P V) (w : World B P V) : Prop :=
  ∀ pchan openId call, w.fe (pchan, openId) = some call → call.phase = .waiting →
    w.carries dev pchan openId .init ∨ w.carries dev pchan openId .initAck ∨
    w.carries dev pchan openId .initCancel ∨ w.processes pchan openId

variable {node : OpenNode P} {vchanId subId now : Nat} {msTimeout : Int} {uninterruptible : Bool}
  {b : B} {e : Wake}

section Condition
variable [DecidableEq P]

/- What a back end finds: for INIT a request of its own major version, with the vchan of the front end
even if it is a cancellation; for INIT_DONE no cancellation. -/
def BeCall.FindsReply (dev : Device P V) (w : World B P V) (call : BeCall P) : Prop :=
  match call.phase with
  | .waitInit =>
    ∀ node ∈ (w.openq dev.host).find? (OpenNode.answers (initListen call.subId)),
      major node.xdata.verFe = major (dev.apiVer dev.host) ∧
      (node.type = .initCancel →
        ∃ fe ∈ w.fe (node.pchan, node.xdata.openId), fe.vchanId = node.xdata.vchanId)
  | .waitDone s =>
    ∀ node ∈ (w.openq dev.host).find? (OpenNode.answers (doneListen call.subId s)),
      node.type ≠ .initCancel
  | _ => True

def Orderly (dev : Device P V) (w : World B P V) : Event B P → Prop
  | .feWake pchan _ (.look now) => Unexpired (w.openq (dev.home pchan)) now
  | .beWake b (.look now) _ =>
    Unexpired (w.openq dev.host) now ∧ ∀ call ∈ w.be b, call.FindsReply dev w
  | .feRecv pchan _ =>
    ∀ m ∈ (w.toFe pchan).head?, m.type = .initCancel →
      (∀ call ∈ w.fe (pchan, m.xdata.openId), call.phase ≠ .waiting) ∧
      OwnCancel (w.openq (dev.home pchan)) pchan m.xdata
  | .beRecv pchan _ =>
    ∀ m ∈ (w.toBe pchan).head?, m.type = .initCancel → OwnCancel (w.openq dev.host) pchan m.xdata
  | _ => True

instance (dev : Device P V) (w : World B P V) (call : BeCall P) :
    Decidable (call.FindsReply dev w) := by
  unfold BeCall.FindsReply
  split <;> infer_instance

instance (dev : Device P V) (w : World B P V) (e : Event B P) : Decidable (Orderly dev w e) := by
  unfold Orderly
  split <;> infer_instance

variable {dev : Device P V} {w : World B P V}

theorem finds_init {call : BeCall P} (vchanId : Nat) (hinv : Inv dev w)
    (hphase : call.phase = .waitInit) (hreply : call.FindsReply dev w)
    (hfind : (w.openq dev.host).find? (OpenNode.answers (initListen call.subId)) = some node) :
    ∃ s, BePhase.initListened (dev.apiVer dev.host) vchanId (0, some node) = .replying s ∧
      s.pchan = node.pchan ∧ s.openId = node.xdata.openId ∧ w.backs s := by
  simp only [BeCall.FindsReply, hphase] at hreply
  obtain ⟨hver, hcancel⟩ := hreply node hfind
  refine ⟨_, if_neg (not_not.2 hver), rfl, rfl, ?_⟩
  rcases (answers_iff.1 (List.find?_some hfind)).1 with hinit | htype
  · obtain ⟨fe, hfe, hid⟩ := hinv.queued _ node (mem_of_find?_eq_some hfind)
    rw [hinit] at hid
    exact ⟨fe, hfe, hid⟩
  · exact hcancel htype

theorem finds_done {call : BeCall P} {s : Session P} (hinv : Inv dev w)
    (hphase : call.phase = .waitDone s) (hback : w.backs s) (hreply : call.FindsReply dev w)
    (hfind : (w.openq dev.host).find? (OpenNode.answers (doneListen call.subId s)) = some node) :
    node.type = .initDone ∧ w.paired s := by
  simp only [BeCall.FindsReply, hphase] at hreply
  obtain ⟨fe, hfe, hid⟩ := hback
  have hpos := (hinv.counter _ _ fe hfe).1
  obtain ⟨htype, _, hopen, hp⟩ := answers_iff.1 (List.find?_some hfind)
  have hdone : node.type = .initDone := htype.resolve_right (hreply node hfind)
  have hopen : node.xdata.openId = s.openId := hopen.resolve_left (Nat.ne_of_gt hpos)
  have hp : node.pchan = s.pchan := by simpa [doneListen, eq_comm] using hp
  refine ⟨hdone, ?_⟩
  obtain ⟨fe', hfe', hopened⟩ := hinv.queued _ node (mem_of_find?_eq_some hfind)
  rw [hp, hopen] at hfe'
  rw [hdone] at hopened
  cases hfe.symm.trans hfe'
  obtain ⟨recv, hrecv⟩ := hopened
  exact ⟨fe, recv, hfe, hid, hrecv⟩

end Condition

theorem Inv.agreement {dev : Device P V} {w : World B P V} (hinv : Inv dev w) : Agreement w := by
  intro b call s hcall hphase
  obtain ⟨fe, recv, hfe, hid, hopened⟩ := hinv.returned b call s hcall hphase
  exact ⟨fe, recv, hfe, hid, hopened, hinv.acked _ _ _ hfe (.inr hopened)⟩

theorem World.awaited.served {dev : Device P V} {w : World B P V} {pchan : P} {openId : Nat}
    (h : w.awaited dev pchan openId) :
    w.carries dev pchan openId .init ∨ w.carries dev pchan openId .initAck ∨
    w.carries dev pchan openId .initCancel ∨ w.processes pchan openId := by
  rcases h with ⟨m, hm, htype, hid⟩ | ⟨node, hnode, htype, hkey⟩ | ⟨b, call, s, hcall, hphase, hkey⟩
  · cases htype with
    | inl hinit => exact .inl (.inl ⟨m, hm, hinit, hid⟩)
    | inr hack => exact .inr (.inl (.inl ⟨m, hm, hack, hid⟩))
  · cases htype with
    | inl hinit => exact .inl (.inr ⟨node, hnode, hinit, hkey⟩)
    | inr hack => exact .inr (.inl (.inr ⟨node, hnode, hack, hkey⟩))
  · exact .inr (.inr (.inr ⟨b, call, s, hcall, by rw [hphase]; rfl, hkey⟩))

section Step
variable [DecidableEq B] [DecidableEq P] [DecidableEq V] {dev : Device P V} {w w' : World B P V}
  {pchan : P} {openId : Nat}

section
variable (hinv : Inv dev w)
include hinv

theorem frontendOpen_change
    (hstep : step dev w (.frontendOpen pchan openId vchanId subId msTimeout uninterruptible) = some w') :
    Change dev w w' := by
  simp only [step, ite_none_right_eq_some, some.injEq] at hstep
  obtain ⟨hnew, rfl⟩ := hstep
  have hfresh : w.fe (pchan, openId) = none := by
    by_contra hsome
    obtain ⟨call, hcall⟩ := ne_none_iff_exists'.1 hsome
    have hle := (hinv.counter pchan openId call hcall).2
    omega
  refine ⟨?_, ?_, ?_, ?_, fun _ _ => .inl, fun _ _ => .inl, fun _ _ => .inl, ?_⟩
  · intro key call hcall
    have hkey : key ≠ (pchan, openId) := by
      rintro rfl
      exact nomatch hfresh.symm.trans hcall
    exact ⟨call, (update_of_ne hkey ..).trans hcall, Later.refl call⟩
  · intro p x call hcall
    dsimp only
    rcases eq_or_of_update_eq_some hcall with ⟨hkey, _⟩ | ⟨_, hold⟩
    · cases hkey
      rw [update_self]
      omega
    · obtain ⟨hpos, hle⟩ := hinv.counter p x call hold
      rw [update_apply]
      split_ifs with hp
      · rw [hp] at hle
        omega
      · exact ⟨hpos, hle⟩
  · exact acked_update hinv rfl (by simp)
  · intro p m hm
    refine (mem_update_append.1 hm).imp_right ?_
    rintro ⟨rfl, rfl⟩
    exact ⟨_, update_self .., rfl⟩
  · intro p x call hcall hwaiting
    rcases eq_or_of_update_eq_some hcall with ⟨hkey, _⟩ | ⟨_, hold⟩
    · cases hkey
      exact .inl ⟨_, mem_append_left _ (mem_update_append.2 (.inr ⟨rfl, rfl⟩)), .inl rfl, rfl⟩
    · exact (hinv.served p x call hold hwaiting).transfer (sent_toBe rfl rfl)
        (fun _ _ h _ _ _ => .inl h) (fun _ _ _ h _ _ _ => .inl h)

theorem feSend_change (hstep : step dev w (.feSend pchan openId) = some w') : Change dev w w' := by
  simp only [step, bind_eq_some_iff, map_eq_some_iff] at hstep
  obtain ⟨call, hcall, ⟨phase, m⟩, hsend, rfl⟩ := hstep
  obtain ⟨hid, hcases⟩ := feSend_cases hsend
  have hnot : phase ≠ .waiting := by
    rcases hcases with ⟨_, _, rfl, _⟩ | ⟨_, _, rfl, _⟩ <;> nofun
  have hlater : Later call { call with phase } := by
    refine ⟨rfl, fun h => absurd h hnot, fun recv hopened => ?_⟩
    rcases hcases with ⟨_, hphase, _⟩ | ⟨_, hphase, _⟩ <;> exact nomatch hphase.symm.trans hopened
  have hack : ∀ recv, phase = .paired recv ∨ phase = .opened recv → recv.type = .initAck := by
    intro recv hrecv
    rcases hcases with ⟨_, _, rfl, _⟩ | ⟨recv', hphase, rfl, _⟩
    · simp at hrecv
    · obtain rfl : recv' = recv := by simpa using hrecv
      exact hinv.acked _ _ _ hcall (.inl hphase)
  refine ⟨extends_update hcall hlater rfl, counter_update hinv hcall rfl rfl,
    acked_update hinv rfl hack, ?_, fun _ _ => .inl, fun _ _ => .inl, fun _ _ => .inl, ?_⟩
  · intro p m' hm
    refine (mem_update_append.1 hm).imp_right ?_
    rintro ⟨rfl, rfl⟩
    refine ⟨{ call with phase }, by rw [hid]; exact update_self .., ?_⟩
    rcases hcases with ⟨_, _, _, htype⟩ | ⟨recv, _, hopened, htype⟩ <;> rw [htype]
    · exact hnot
    · exact ⟨recv, hopened⟩
  · intro p x new hnew hwaiting
    rcases eq_or_of_update_eq_some hnew with ⟨_, rfl⟩ | ⟨_, hold⟩
    · exact absurd hwaiting hnot
    · exact (hinv.served p x new hold hwaiting).transfer (sent_toBe rfl rfl)
        (fun _ _ h _ _ _ => .inl h) (fun _ _ _ h _ _ _ => .inl h)

theorem backendListen_change
    (hstep : step dev w (.backendListen b subId msTimeout uninterruptible) = some w') :
    Change dev w w' := by
  simp only [step, ite_none_right_eq_some, some.injEq] at hstep
  obtain ⟨hidle, rfl⟩ := hstep
  refine ⟨.of_eq rfl, hinv.counter, hinv.acked, fun _ _ => .inl, fun _ _ => .inl, fun _ _ => .inl,
    ?_, ?_⟩
  · intro b' call hcall
    rcases eq_or_of_update_eq_some hcall with ⟨_, rfl⟩ | ⟨_, hold⟩
    · exact .inr ⟨nofun, nofun⟩
    · exact .inl hold
  · intro p x call hcall hwaiting
    refine (hinv.served p x call hcall hwaiting).transfer (fun _ hm _ _ => .inl hm)
      (fun _ _ h _ _ _ => .inl h) ?_
    intro b' old s hold _ _ _
    have hb : b' ≠ b := by
      rintro rfl
      exact nomatch hidle.symm.trans hold
    exact .inl ((update_of_ne hb ..).trans hold)

theorem beSend_change (hstep : step dev w (.beSend b) = some w') : Change dev w w' := by
  simp only [step, bind_eq_some_iff, map_eq_some_iff] at hstep
  obtain ⟨call, hcall, ⟨phase, p, m⟩, hsend, rfl⟩ := hstep
  obtain ⟨s, hs, rfl, hid, hcases⟩ := beSend_cases hsend
  have hback := hinv.session b call s hcall hs
  refine ⟨.of_eq rfl, hinv.counter, hinv.acked, fun _ _ => .inl, ?_, fun _ _ => .inl, ?_, ?_⟩
  · intro p m' hm
    refine (mem_update_append.1 hm).imp_right ?_
    rintro ⟨rfl, rfl⟩
    obtain ⟨fe, hfe, _⟩ := hback
    refine ⟨hcases.imp And.right (·.2.2.2), fe, by rw [hid]; exact hfe, trivial⟩
  · intro b' new hnew
    rcases eq_or_of_update_eq_some hnew with ⟨_, rfl⟩ | ⟨_, hold⟩
    · rcases hcases with ⟨rfl, _⟩ | ⟨hnone, hret, _⟩
      · refine .inr ⟨fun s' hs' => ?_, nofun⟩
        obtain rfl : s = s' := by simpa [BePhase.session] using hs'
        exact hback
      · exact .inr ⟨fun s' hs' => (nomatch hnone.symm.trans hs'), fun s' hs' => absurd hs' (hret s')⟩
    · exact .inl hold
  · intro p x fe hfe hwaiting
    refine (hinv.served p x fe hfe hwaiting).transfer (fun m' hm _ _ => .inl ?_)
      (fun _ _ h _ _ _ => .inl h) ?_
    · rw [mem_append, mem_update_append]
      exact (mem_append.1 hm).imp_right .inl
    intro b' old s' hold hphase hp hx
    by_cases hb : b' = b
    · -- the answer moves from the back end into the channel
      subst hb
      cases hcall.symm.trans hold
      obtain rfl : s' = s := by simpa [hphase, BePhase.session] using hs
      subst hp
      rcases hcases with ⟨_, htype⟩ | ⟨_, _, hno, _⟩
      · exact .inr (.inl ⟨m, mem_append_right _ (mem_update_append.2 (.inr ⟨rfl, rfl⟩)),
          .inr htype, hid.trans hx⟩)
      · exact absurd hphase (hno s')
    · exact .inl ((update_of_ne hb ..).trans hold)

theorem feRecv_change (hok : Orderly dev w (.feRecv pchan now))
    (hstep : step dev w (.feRecv pchan now) = some w') : Change dev w w' := by
  cases hfe : w.toFe pchan with
  | nil => simp [step, hfe] at hstep
  | cons m rest =>
    simp only [step, hfe, some.injEq] at hstep
    obtain ⟨htype, call, hcall, _⟩ := hinv.toFe pchan m (by rw [hfe]; exact mem_cons_self)
    have hcond := hok m (by rw [hfe]; rfl)
    have hsupports : w.supports pchan m.type m.xdata := by
      refine ⟨call, hcall, ?_⟩
      rcases htype with hack | hcancel
      · rw [hack]
        trivial
      · rw [hcancel]
        exact (hcond hcancel).1 call hcall
    subst hstep
    refine ⟨.of_eq rfl, hinv.counter, hinv.acked, fun _ _ => .inl,
      fun p m' hm => .inl (mem_of_mem_update_tail hfe hm), recv_queued hsupports rfl,
      fun _ _ => .inl, ?_⟩
    intro p x fe hfe' hwaiting
    refine recv_awaited (hinv.served p x fe hfe' hwaiting) (.inr rfl) (fun h => (hcond h).2) ?_ rfl ?_ rfl
    · rintro hcancel ⟨⟩
      exact (hcond hcancel).1 fe hfe' hwaiting
    · intro m' hm
      rcases mem_append.1 hm with hm | hm
      · exact .inl (mem_append_left _ hm)
      · exact (mem_update_tail_or_eq hfe hm).imp_left (mem_append_right _)

theorem beRecv_change (hok : Orderly dev w (.beRecv pchan now))
    (hstep : step dev w (.beRecv pchan now) = some w') : Change dev w w' := by
  cases hbe : w.toBe pchan with
  | nil => simp [step, hbe] at hstep
  | cons m rest =>
    simp only [step, hbe, some.injEq] at hstep
    have hsupports := hinv.toBe pchan m (by rw [hbe]; exact mem_cons_self)
    have hcond := hok m (by rw [hbe]; rfl)
    subst hstep
    refine ⟨.of_eq rfl, hinv.counter, hinv.acked,
      fun p m' hm => .inl (mem_of_mem_update_tail hbe hm), fun _ _ => .inl, recv_queued hsupports rfl,
      fun _ _ => .inl, ?_⟩
    intro p x fe hfe hwaiting
    refine recv_awaited (hinv.served p x fe hfe hwaiting) (.inl rfl) hcond ?_ rfl ?_ rfl
    · rintro hcancel ⟨⟩
      obtain ⟨call, hcall, hnot⟩ := hsupports
      rw [hcancel] at hnot
      cases hcall.symm.trans hfe
      exact hnot hwaiting
    · intro m' hm
      rcases mem_append.1 hm with hm | hm
      · exact (mem_update_tail_or_eq hbe hm).imp_left (mem_append_left _)
      · exact .inl (mem_append_right _ hm)

theorem feWake_change (hok : Orderly dev w (.feWake pchan openId e))
    (hstep : step dev w (.feWake pchan openId e) = some w') : Change dev w w' := by
  simp only [step, bind_eq_some_iff, map_eq_some_iff] at hstep
  obtain ⟨call, hcall, ⟨phase, queue⟩, hwake, rfl⟩ := hstep
  have hnow : ∀ now, e = .look now → Unexpired (w.openq (dev.home pchan)) now := by
    rintro now rfl
    exact hok
  obtain ⟨hwaits, hcases⟩ := feWake_cases hnow hwake
  have hpos := (hinv.counter pchan openId call hcall).1
  have hlater : Later call { call with phase } :=
    ⟨rfl, fun _ => hwaits, fun recv hopened => nomatch hwaits.symm.trans hopened⟩
  -- a cancellation for a waiting front end is never queued
  have hfound : ∀ node, (w.openq (dev.home pchan)).find?
      (OpenNode.answers (call.listen pchan openId)) = some node →
      node.pchan = pchan ∧ node.xdata.openId = openId ∧ node.type = .initAck := by
    intro node hfind
    obtain ⟨htype, _, hid, hp⟩ := answers_iff.1 (List.find?_some hfind)
    have hid : node.xdata.openId = openId := hid.resolve_left (Nat.ne_of_gt hpos)
    have hp : node.pchan = pchan := by simpa [FeCall.listen, eq_comm] using hp
    refine ⟨hp, hid, htype.resolve_right fun hcancel => ?_⟩
    obtain ⟨fe, hfe, hnot⟩ := hinv.queued _ node (mem_of_find?_eq_some hfind)
    rw [hp, hid] at hfe
    rw [hcancel] at hnot
    cases hcall.symm.trans hfe
    exact hnot hwaits
  have hack : ∀ recv, phase = .paired recv ∨ phase = .opened recv → recv.type = .initAck := by
    intro recv hrecv
    rcases hcases with ⟨_, rfl | ⟨ret, rfl⟩⟩ | ⟨node, hfind, _, rfl⟩
    · simp at hrecv
    · simp at hrecv
    · simp only [FePhase.listened] at hrecv
      split_ifs at hrecv
      · simp at hrecv
      · obtain rfl : node = recv := by simpa using hrecv
        exact (hfound node hfind).2.2
  have hsub : queue ⊆ w.openq (dev.home pchan) := by
    rcases hcases with ⟨rfl, _⟩ | ⟨node, _, rfl, _⟩
    · exact fun _ => id
    · exact fun _ => mem_of_mem_eraseP
  refine ⟨extends_update hcall hlater rfl, counter_update hinv hcall rfl rfl,
    acked_update hinv rfl hack, fun _ _ => .inl, fun _ _ => .inl,
    fun vm node hnode => .inl (wake_queued hsub rfl vm node hnode), fun _ _ => .inl, ?_⟩
  intro p x new hnew hwaiting
  have hold : ∃ old, w.fe (p, x) = some old ∧ old.phase = .waiting := by
    rcases eq_or_of_update_eq_some hnew with ⟨hkey, _⟩ | ⟨_, hold⟩
    · exact ⟨call, hkey ▸ hcall, hwaits⟩
    · exact ⟨new, hold, hwaiting⟩
  obtain ⟨old, hold, holdwaits⟩ := hold
  refine (hinv.served p x old hold holdwaits).transfer (fun _ hm _ _ => .inl hm)
    (wake_kept ?_ rfl) (fun _ _ _ h _ _ _ => .inl h)
  intro node hnode hlead hp hx
  rcases hcases with ⟨rfl, _⟩ | ⟨node', hfind, rfl, rfl⟩
  · exact .inl hnode
  · refine .inl ((mem_eraseP_or_eq hnode).resolve_right fun hfind' => ?_)
    -- the taken request belongs to the call that has stopped waiting
    obtain ⟨hp', hx', _⟩ := hfound node hfind'
    have hkey : (p, x) = (pchan, openId) := by rw [← hp, ← hx, hp', hx']
    rcases eq_or_of_update_eq_some hnew with ⟨_, rfl⟩ | ⟨hne, _⟩
    · simp only [FePhase.listened] at hwaiting
      split_ifs at hwaiting
    · exact hne hkey

theorem beWake_change (hok : Orderly dev w (.beWake b e vchanId))
    (hstep : step dev w (.beWake b e vchanId) = some w') : Change dev w w' := by
  simp only [step, bind_eq_some_iff, map_eq_some_iff] at hstep
  obtain ⟨call, hcall, ⟨phase, queue⟩, hwake, rfl⟩ := hstep
  have hlook : ∀ now, e = .look now → Unexpired (w.openq dev.host) now ∧ call.FindsReply dev w := by
    rintro now rfl
    exact ⟨hok.1, hok.2 call hcall⟩
  have hcases := beWake_cases (fun now he => (hlook now he).1) hwake
  have hnot : ∀ s, call.phase ≠ .replying s := by
    intro s hs
    rcases hcases with ⟨hphase, _⟩ | ⟨s', hphase, _⟩ <;> exact nomatch hphase.symm.trans hs
  have hsub : queue ⊆ w.openq dev.host := by
    rcases hcases with ⟨_, ⟨rfl, _⟩ | ⟨_, _, _, rfl, _⟩⟩ | ⟨_, _, ⟨rfl, _⟩ | ⟨_, _, _, rfl, _⟩⟩
    · exact fun _ => id
    · exact fun _ => mem_of_mem_eraseP
    · exact fun _ => id
    · exact fun _ => mem_of_mem_eraseP
  refine ⟨.of_eq rfl, hinv.counter, hinv.acked, fun _ _ => .inl, fun _ _ => .inl,
    fun vm node hnode => .inl (wake_queued hsub rfl vm node hnode), ?_, ?_⟩
  · intro b' new hnew
    rcases eq_or_of_update_eq_some hnew with ⟨_, rfl⟩ | ⟨_, hold⟩
    swap
    · exact .inl hold
    refine .inr ?_
    rcases hcases with ⟨hphase, ⟨_, rfl | ⟨err, rfl⟩⟩ | ⟨node, hfind, ⟨now, he⟩, _, rfl⟩⟩ |
      ⟨s, hphase, hrest⟩
    · exact ⟨nofun, nofun⟩
    · exact ⟨nofun, nofun⟩
    · obtain ⟨s, hs, _, _, hback⟩ := finds_init vchanId hinv hphase (hlook now he).2 hfind
      rw [hs]
      exact ⟨fun s' hs' => some.inj hs' ▸ hback, nofun⟩
    · have hback : w.backs s := hinv.session b call s hcall (by rw [hphase]; rfl)
      rcases hrest with ⟨_, rfl | rfl | ⟨err, rfl⟩⟩ | ⟨node, hfind, ⟨now, he⟩, _, rfl⟩
      · exact ⟨fun s' hs' => some.inj hs' ▸ hback, nofun⟩
      · exact ⟨fun s' hs' => some.inj hs' ▸ hback, nofun⟩
      · exact ⟨nofun, nofun⟩
      · have hpaired := (finds_done hinv hphase hback (hlook now he).2 hfind).2
        exact ⟨nofun, fun s' hs' => by cases hs'; exact hpaired⟩
  · intro p x fe hfe hwaiting
    refine (hinv.served p x fe hfe hwaiting).transfer (fun _ hm _ _ => .inl hm)
      (wake_kept ?_ rfl) ?_
    · intro node hnode hlead hp hx
      rcases hcases with ⟨hphase, ⟨rfl, _⟩ | ⟨node', hfind, ⟨now, he⟩, rfl, rfl⟩⟩ |
        ⟨s, hphase, ⟨rfl, _⟩ | ⟨node', hfind, ⟨now, he⟩, rfl, rfl⟩⟩
      · exact .inl hnode
      · refine (mem_eraseP_or_eq hnode).imp_right fun hfind' => ?_
        -- the back end that has taken INIT is about to answer
        obtain ⟨s, hs, hsp, hsx, _⟩ := finds_init vchanId hinv hphase (hlook now he).2 hfind'
        cases hfind.symm.trans hfind'
        exact .inr (.inr ⟨b, _, s, update_self .., hs, hsp.trans hp, hsx.trans hx⟩)
      · exact .inl hnode
      · refine (mem_eraseP_or_eq hnode).imp_right fun hfind' => ?_
        have hback : w.backs s := hinv.session b call s hcall (by rw [hphase]; rfl)
        have hdone := (finds_done hinv hphase hback (hlook now he).2 hfind').1
        rcases hlead with hlead | hlead <;> exact nomatch hlead.symm.trans hdone
    · intro b' old s hold hphase _ _
      have hb : b' ≠ b := by
        rintro rfl
        cases hcall.symm.trans hold
        exact hnot s hphase
      exact .inl ((update_of_ne hb ..).trans hold)

theorem step_change {e : Event B P} (hok : Orderly dev w e) (hstep : step dev w e = some w') :
    Change dev w w' := by
  cases e with
  | frontendOpen => exact frontendOpen_change hinv hstep
  | feWake => exact feWake_change hinv hok hstep
  | feSend => exact feSend_change hinv hstep
  | feRecv => exact feRecv_change hinv hok hstep
  | backendListen => exact backendListen_change hinv hstep
  | beWake => exact beWake_change hinv hok hstep
  | beSend => exact beSend_change hinv hstep
  | beRecv => exact beRecv_change hinv hok hstep

end

/-- In every run in which no request expires, no cancellation reaches a front end that still waits or
removes a request of another pchan, and no back end takes a cancellation for INIT_DONE, every vchan
that a back end returns is paired with a front end that has received INIT_ACK and sent INIT_DONE, and
no front end waits for nothing. -/
theorem open_handshake_agrees (dev : Device P V) {es : List (Event B P)} {w : World B P V}
    (hok : Along (step dev) (Orderly dev) World.initial es)
    (hrun : run (step dev) World.initial es = some w) : Agreement w ∧ Served dev w := by
  have hinv : Inv dev w :=
    run_invariant (fun _ _ _ hinv hok hstep => hinv.after (step_change hinv hok hstep))
      (Inv.initial dev) hok hrun
  exact ⟨hinv.agreement, fun p x call hcall hwaiting => (hinv.served p x call hcall hwaiting).served⟩

end Step

def oneGuest : Device Unit Bool := ⟨fun _ => false, true, fun _ => 0x10000⟩

def handshake : List (Event Bool Unit) :=
  [.frontendOpen () 1 7 3 0 false, .backendListen true 3 0 false, .beRecv () 0,
    .beWake true (.look 0) 9, .beSend true, .feRecv () 0, .feWake () 1 (.look 0), .feSend () 1,
    .frontendOpen () 2 8 3 0 false, .feWake () 2 .signal, .feSend () 2, .beRecv () 0, .beRecv () 0,
    .beRecv () 0, .beWake true (.look 0) 0, .frontendOpen () 3 8 3 0 false]

theorem open_handshake_agrees_paired : ∃ w, run (step oneGuest) World.initial handshake = some w ∧
    ((w.be true).map (·.phase) = some (.returned ⟨(), 1, 9, 7, 0x10000⟩) ∧
      (w.fe ((), 2)).map (·.phase) = some (.failed EINTR) ∧
      (w.fe ((), 3)).map (·.phase) = some .waiting) ∧ Agreement w ∧ Served oneGuest w :=
  exists_run_and (by decide +kernel) fun _ hrun _ =>
    open_handshake_agrees oneGuest (by decide +kernel) hrun

def answered : List (Event Unit Unit) :=
  [.frontendOpen () 1 7 3 0 false, .backendListen () 3 0 false, .beRecv () 0, .beWake () (.look 0) 9,
    .beSend ()]

def interrupted : List (Event Unit Unit) :=
  answered ++ [.feWake () 1 .signal, .feSend () 1, .beRecv () 0, .beWake () (.look 0) 0]

def overtaken : List (Event Unit Unit) :=
  answered ++ [.feRecv () 0, .beWake () .timeout 0, .beSend (), .feRecv () 0]

/-- A back end returns a vchan for a front end that has cancelled, and the cancellation of a back end
removes the INIT_ACK that a front end waits for. -/
theorem open_handshake_cancelled :
    (∃ w, run (step oneGuest) World.initial interrupted = some w ∧ ¬ Agreement w) ∧
    ∃ w, run (step oneGuest) World.initial overtaken = some w ∧ ¬ Served oneGuest w := by
  have hinterrupted : ∃ w, run (step oneGuest) World.initial interrupted = some w ∧
      ((w.be ()).map (·.phase) = some (.returned ⟨(), 1, 9, 7, 0x10000⟩) ∧
        (w.fe ((), 1)).map (·.phase) = some (.failed EINTR)) := exists_run_of_map (by decide +kernel)
  have hovertaken : ∃ w, run (step oneGuest) World.initial overtaken = some w ∧
      ((w.fe ((), 1)).map (·.phase) = some .waiting ∧ (w.be ()).map (·.phase) = some .waitInit ∧
        w.toBe () ++ w.toFe () = [] ∧ w.openq true ++ w.openq false = []) :=
    exists_run_of_map (by decide +kernel)
  constructor
  · obtain ⟨w, hrun, hbe, hfe⟩ := hinterrupted
    refine ⟨w, hrun, fun hagree => ?_⟩
    obtain ⟨call, hcall, hphase⟩ := map_eq_some_iff.1 hbe
    obtain ⟨fe, recv, hfe', _, hopened, _⟩ := hagree () call _ hcall hphase
    rw [hfe', map_some, hopened] at hfe
    cases hfe
  · obtain ⟨w, hrun, hfe, hbe, hchannels, hqueues⟩ := hovertaken
    refine ⟨w, hrun, fun hserved => ?_⟩
    obtain ⟨call, hcall, hphase⟩ := map_eq_some_iff.1 hfe
    have hnone : ∀ type, ¬ w.carries oneGuest () 1 type := by
      rintro type (⟨m, hm, _⟩ | ⟨node, hnode, _⟩)
      · rw [hchannels] at hm
        cases hm
      · rw [show w.openq oneGuest.host ++ w.openq (oneGuest.home ()) = [] from hqueues] at hnode
        cases hnode
    rcases hserved () 1 call hcall hphase with h | h | h | ⟨b, be, s, hbe', hs, _⟩
    · exact hnone _ h
    · exact hnone _ h
    · exact hnone _ h
    · obtain ⟨be', hbe'', hwait⟩ := map_eq_some_iff.1 hbe
      cases hbe'.symm.trans hbe''
      rw [hwait] at hs
      cases hs

end MsmKernel.Hab.Open
