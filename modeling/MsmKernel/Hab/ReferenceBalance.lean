import MsmKernel.Hab.References

/-! Every step of the open and close paths changes the references of a pchan by what its holders
change, except for the reference that the step loses. -/
namespace MsmKernel.Hab.References
open Run Open List Option State
variable {P : Type} [DecidableEq P]

def one (k : Option P) (q : P) : Int := if k = some q then 1 else 0

def Call.holds (k : Option P) : Call P → Int
  | .fe c => 2 * one k c.pchan
  | .beInit _ => 0
  | .beDone _ s => 2 * one k s.pchan

def held (k : Option P) (calls : List (Call P)) : Int := (calls.map (Call.holds k)).sum

/- The references beyond the first one that no vchan of a context and no queued request holds, and
what the counter has beyond the length of the queue. -/
def slack (s : State P) : Option P → Int
  | some p => s.refcount p - 1 - s.vchans p - s.queued p
  | none => s.openqCnt - s.openq.length

def excess (s : State P) (k : Option P) : Int := slack s k - held k s.calls

def added (dev : HabDevice P) (s : State P) (e : Event P) : Option P → Nat
  | some p => if lost dev s e = some p then 1 else 0
  | none => (uncounted s e).length

section Fields
variable (s : State P) (k : Option P) (q : P)

theorem excess_get : excess (s.get q) k = excess s k + one k q := by
  cases k with
  | none => simp [excess, slack, State.get, one]
  | some p =>
    simp only [excess, slack, State.get, vchans, queued, one, some.injEq]
    split_ifs <;> omega

theorem excess_put : excess (s.put q) k = excess s k - one k q := by
  cases k with
  | none => simp [excess, slack, put, one]
  | some p =>
    simp only [excess, slack, put, vchans, queued, one, some.injEq]
    split_ifs <;> omega

theorem excess_release : excess (s.release q) k = excess s k - 2 * one k q := by
  rw [release, excess_put, excess_put]
  omega

theorem excess_opened (v : Vchan P) :
    excess { s with opened := v :: s.opened } k = excess s k - one k v.pchan := by
  cases k with
  | none => simp [excess, slack, one]
  | some p =>
    simp only [excess, slack, vchans, queued, countP_cons, decide_eq_true_eq, one,
      some.injEq, eq_comm (a := p)]
    split_ifs <;> push_cast <;> omega

theorem excess_succeed (v : Vchan P) : excess (s.succeed v) k = excess s k - 2 * one k v.pchan := by
  have hopened := excess_opened (s.put v.pchan) k v
  rw [excess_put] at hopened
  rw [show s.succeed v = { s.put v.pchan with opened := v :: (s.put v.pchan).opened } from rfl,
    hopened]
  omega

theorem excess_start (call : Call P) :
    excess { s with calls := call :: s.calls } k = excess s k - call.holds k := by
  cases k <;>
    simp only [excess, slack, held, vchans, queued, map_cons, sum_cons] <;>
    omega

theorem excess_finish_eq {call : Call P} (h : call ∈ s.calls) :
    excess (s.finish call) k = excess s k + call.holds k := by
  have hheld : held k s.calls = call.holds k + held k (s.calls.erase call) :=
    ((perm_cons_erase h).map _).sum_eq
  have hslack : slack (s.finish call) k = slack s k := by cases k <;> rfl
  rw [excess, excess, hslack, hheld]
  simp only [finish]
  omega

end Fields

variable {queue : List (OpenNode P)} {r : Errno × Option (OpenNode P)} {a : WakeArgs}

section Listen
variable {listen : Listen P}

theorem find_perm (listen : Listen P) (now : Nat) (queue : List (OpenNode P)) :
    queue.Perm ((habOpenRequestFind listen now queue).1.toList ++ expired listen now queue ++
      (habOpenRequestFind listen now queue).2) := by
  induction queue with
  | nil => exact .refl _
  | cons node queue ih =>
    unfold habOpenRequestFind expired
    by_cases hanswers : node.answers listen = true
    · simp [hanswers]
    · simp only [hanswers, Bool.false_eq_true, if_false]
      by_cases hage : node.age < now
      · simp only [if_pos hage]
        refine (ih.cons node).trans ?_
        rw [append_assoc, append_assoc]
        exact perm_middle.symm
      · simp only [if_neg hage]
        exact (ih.cons node).trans perm_middle.symm

theorem listen_perm (msTimeout : Int) (uninterruptible : Bool) (queue : List (OpenNode P)) (e : Wake) :
    queue.Perm ((taken (habOpenListen listen msTimeout uninterruptible queue e).1).toList ++
      dropped listen queue e ++ (habOpenListen listen msTimeout uninterruptible queue e).2) := by
  cases e with
  | look now =>
    have hfind := find_perm listen now queue
    simp only [habOpenListen, dropped]
    generalize habOpenRequestFind listen now queue = r at hfind ⊢
    obtain ⟨recv, rest⟩ := r
    cases recv <;> exact hfind
  | timeout | signal | pchanClosed =>
    simp only [habOpenListen, dropped]
    split_ifs <;> exact .refl _

theorem listen_ret {msTimeout : Int} {uninterruptible : Bool} {e : Wake}
    (h : (habOpenListen listen msTimeout uninterruptible queue e).1 = some r) :
    r.2 = none ∨ ∃ node, r = (0, some node) := by
  cases e with
  | look now =>
    simp only [habOpenListen] at h
    generalize habOpenRequestFind listen now queue = q at h
    obtain ⟨recv, rest⟩ := q
    cases recv with
    | none => exact absurd h (by simp)
    | some node =>
      simp only [some.injEq] at h
      exact .inr ⟨node, h.symm⟩
  | timeout | signal | pchanClosed =>
    simp only [habOpenListen] at h
    split_ifs at h
    cases h
    exact .inl rfl

end Listen

theorem Call.listened_perm (call : Call P) (queue : List (OpenNode P)) (e : Wake) :
    queue.Perm ((taken (call.listened queue e).1).toList ++ dropped call.listen queue e ++
      (call.listened queue e).2) := by
  cases call <;> exact listen_perm _ _ queue e

theorem foldl_put (l : List (OpenNode P)) (s : State P) :
    l.foldl (fun s node => s.put node.pchan) s =
      { s with refcount := fun p => s.refcount p - l.countP (·.pchan = p) } := by
  induction l generalizing s with
  | nil => simp
  | cons node l ih =>
    rw [foldl_cons, ih]
    simp only [put, countP_cons, decide_eq_true_eq, mk.injEq, and_self, and_true]
    funext p
    simp only [eq_comm (a := p) (b := node.pchan)]
    split_ifs <;> push_cast <;> omega

def ofRequest (k : Option P) : Option (OpenNode P) → Int
  | some node => one k node.pchan
  | none => 0

section Heard
variable (s : State P) (call : Call P) (e : Wake)

/-- A taken request leaves its reference to the call; an expired one stays counted. -/
theorem excess_heard (k : Option P) :
    excess (s.heard call.listen e (call.listened s.openq e)) k =
      excess s k + ofRequest k (taken (call.listened s.openq e).1) +
        if k = none then (dropped call.listen s.openq e).length else 0 := by
  have hperm := call.listened_perm s.openq e
  simp only [excess, heard, foldl_put]
  cases k with
  | none =>
    have hlength := hperm.length_eq
    rw [length_append, length_append] at hlength
    simp only [slack, hlength]
    cases taken (call.listened s.openq e).1 with
    | none =>
      simp only [isSome_none, Bool.false_eq_true, if_false, toList_none,
        length_nil, ofRequest, if_true]
      omega
    | some node =>
      simp only [isSome_some, if_true, toList_some, length_singleton, ofRequest,
        one, reduceCtorEq, if_false]
      omega
  | some p =>
    have hcount := hperm.countP_eq (fun node => decide (node.pchan = p))
    rw [countP_append, countP_append] at hcount
    simp only [slack, vchans, queued, hcount, reduceCtorEq, if_false]
    cases taken (call.listened s.openq e).1 with
    | none =>
      simp only [toList_none, countP_nil, ofRequest]
      omega
    | some node =>
      simp only [toList_some, countP_singleton, decide_eq_true_eq, ofRequest, one,
        some.injEq, eq_comm (a := p)]
      split_ifs <;> omega

end Heard

section Steps
variable (dev : HabDevice P) (s : State P) (k : Option P)

theorem excess_frontendOpen (a : OpenArgs) (domId : Int) :
    excess (frontendOpen dev s a domId) k = excess s k := by
  unfold frontendOpen
  cases habPchanFindDomid dev domId with
  | none => rfl
  | some pchan =>
    dsimp only
    split_ifs
    · rw [excess_put, excess_get]
      omega
    · rw [excess_put, excess_put, excess_get, excess_get]
      omega
    · simp only [excess_start, excess_get, Call.holds]
      omega

theorem excess_backendListen (a : OpenArgs) : excess (backendListen s a) k = excess s k := by
  rw [backendListen, excess_start, Call.holds]
  omega

theorem excess_vchanOpen (a : OpenArgs) :
    excess (habVchanOpen dev s a) k = excess s k + added dev s (.vchanOpen a) k := by
  unfold habVchanOpen
  by_cases hloop : dev.loopback = true
  · have hnone : added dev s (.vchanOpen a) k = 0 := by
      cases k <;> simp [added, lost, uncounted, hloop]
    rw [hnone]
    split_ifs
    · rw [excess_backendListen]
      simp
    · rw [excess_frontendOpen]
      simp
  · simp only [hloop, Bool.false_eq_true, if_false]
    cases hfind : habPchanFindDomid dev HABCFG_VMID_DONT_CARE with
    | none =>
      have hnone : added dev s (.vchanOpen a) k = 0 := by
        cases k <;> simp [added, lost, uncounted, hloop, hfind]
      simp [hnone]
    | some pchan =>
      have hone : (added dev s (.vchanOpen a) k : Int) = one k pchan := by
        cases k <;> simp [added, lost, uncounted, hloop, hfind, one, eq_comm]
      rw [hone, ← excess_get]
      dsimp only
      split_ifs
      · rfl
      · exact excess_backendListen _ k a
      · exact excess_frontendOpen dev _ k a _

theorem excess_requestAdd (pchan : P) (node : OpenNode P) (hnode : node.pchan = pchan) :
    excess (requestAdd s pchan node) k = excess s k := by
  have hget := excess_get s k pchan
  cases k with
  | none =>
    simp only [excess, slack, requestAdd, State.get, length_append, length_singleton]
    omega
  | some p =>
    simp only [excess, slack, requestAdd, vchans, queued, countP_append,
      countP_singleton, decide_eq_true_eq, hnode, one, some.injEq,
      eq_comm (a := p)] at hget ⊢
    have hopenq : (s.get pchan).openq = s.openq := rfl
    rw [hopenq] at hget ⊢
    split_ifs at hget ⊢ <;> push_cast <;> omega

omit [DecidableEq P] in
theorem perm_cons_eraseP {f : OpenNode P → Bool} {node : OpenNode P}
    (h : queue.find? f = some node) : queue.Perm (node :: queue.eraseP f) := by
  induction queue with
  | nil => exact absurd h (by simp)
  | cons head queue ih =>
    by_cases hf : f head = true
    · rw [List.find?_cons_of_pos hf, some.injEq] at h
      rw [eraseP_cons_of_pos hf, h]
    · rw [List.find?_cons_of_neg hf] at h
      rw [eraseP_cons_of_neg hf]
      exact ((ih h).cons head).trans (.swap node head _)

theorem excess_recv (pchan : P) (m : Message) (now : Nat) (allocated : Bool) :
    excess (habMsgRecv s pchan m now allocated) k =
      excess s k + added dev s (.recv pchan m now allocated) k := by
  by_cases hcancel : m.type = .initCancel
  · simp only [habMsgRecv, hcancel, receiveCancel]
    cases hfind : s.openq.find? (OpenNode.unserviced m.xdata) with
    | none =>
      have hany : s.openq.any (OpenNode.unserviced m.xdata) = false := by
        simpa using hfind
      have hnone : added dev s (.recv pchan m now allocated) k = 0 := by
        cases k <;> simp [added, lost, uncounted, hcancel, hfind]
      rw [hany, hnone]
      simp only [Bool.false_eq_true, if_false]
      split_ifs
      · simp
      · rw [excess_requestAdd s k pchan _ rfl]
        simp
    | some node =>
      have hany : s.openq.any (OpenNode.unserviced m.xdata) = true :=
        any_eq_true.2 ⟨node, mem_of_find?_eq_some hfind, List.find?_some hfind⟩
      have hperm := perm_cons_eraseP hfind
      simp only [hany, if_true]
      cases k with
      | none =>
        have hlength := hperm.length_eq
        simp only [excess, slack, added, uncounted, length_nil]
        rw [length_cons] at hlength
        omega
      | some p =>
        have hcount := hperm.countP_eq (fun n => decide (n.pchan = p))
        simp only [excess, slack, vchans, queued, added, lost, hcancel, if_true, hfind,
          map_some, some.injEq]
        rw [countP_cons] at hcount
        simp only [decide_eq_true_eq] at hcount
        split_ifs at hcount ⊢ <;> push_cast <;> omega
  · have hnone : added dev s (.recv pchan m now allocated) k = 0 := by
      cases k <;> simp [added, lost, uncounted, hcancel]
    rw [hnone]
    have hadd : habMsgRecv s pchan m now allocated = if allocated = false then s
        else requestAdd s pchan ⟨m.type, pchan, m.xdata, now + openReqExpireTime⟩ := by
      unfold habMsgRecv
      split
      · next h => exact absurd h hcancel
      · rfl
    rw [hadd]
    split_ifs
    · simp
    · rw [excess_requestAdd s k pchan _ rfl]
      simp

theorem excess_close (v : Vchan P) : excess (habVchanClose s v) k = excess s k := by
  unfold habVchanClose
  split_ifs with hmem
  · have hput := excess_put s k v.pchan
    have hopened := excess_opened { s.put v.pchan with opened := s.opened.erase v } k v
    have hperm : excess { s.put v.pchan with opened := v :: s.opened.erase v } k =
        excess (s.put v.pchan) k := by
      have hcount (p : P) := (perm_cons_erase hmem).countP_eq (fun w => decide (w.pchan = p))
      cases k with
      | none => rfl
      | some p => simp only [excess, slack, vchans, ← hcount p]; rfl
    rw [hperm] at hopened
    omega
  · rfl

/-- The front end gives back its two references or leaves one of them to its vchan; a request of
another version is not freed. -/
theorem excess_feListened (c : FeOpen P) (sent : Bool)
    (hr : r.2 = none ∨ ∃ node, r = (0, some node)) :
    excess (feListened s c sent (FePhase.listened r)) k =
      excess s k - 2 * one k c.pchan - ofRequest k (r.2.filter fun node =>
        major node.xdata.verFe = major node.xdata.verBe) := by
  rcases hr with hnone | ⟨node, rfl⟩
  · obtain ⟨ret, recv⟩ := r
    cases hnone
    have hphase : (FePhase.listened (ret, none) : FePhase P) = .cancelling ret := by
      cases ret <;> rfl
    rw [hphase, feListened, excess_release, filter_none, ofRequest]
    · omega
    · nofun
  · simp only [FePhase.listened]
    by_cases hver : major node.xdata.verFe = major node.xdata.verBe
    · simp only [hver, ne_eq, not_true_eq_false, if_false, feListened, filter_some,
        decide_true, if_true, ofRequest]
      split_ifs
      · simp only [excess_succeed, excess_put]
        omega
      · rw [excess_release, excess_put]
        omega
    · simp only [hver, ne_eq, not_false_eq_true, if_true, feListened, filter_some,
        decide_false, Bool.false_eq_true, if_false, ofRequest, excess_release]
      omega

/-- The back end hands the reference of the request on to itself, and its vchan takes another one. -/
theorem excess_beInitListened (b : BeListen) (allocated sent : Bool) (ver vchanId : Nat)
    (hr : r.2 = none ∨ ∃ node, r = (0, some node)) :
    excess (beInitListened s b allocated sent (BePhase.initListened ver vchanId r)) k =
      excess s k - ofRequest k (r.2.filter fun node => major node.xdata.verFe = major ver) := by
  rcases hr with hnone | ⟨node, rfl⟩
  · obtain ⟨ret, recv⟩ := r
    cases hnone
    have hphase : ∃ err, (BePhase.initListened ver vchanId (ret, none) : BePhase P) = .failed err := by
      cases ret <;> exact ⟨_, rfl⟩
    obtain ⟨err, hphase⟩ := hphase
    rw [hphase]
    simp [beInitListened, ofRequest]
  · simp only [BePhase.initListened]
    by_cases hver : major node.xdata.verFe = major ver
    · simp only [hver, ne_eq, not_true_eq_false, if_false, beInitListened, filter_some,
        decide_true, if_true, ofRequest]
      split_ifs
      · rw [excess_put, excess_put, excess_get]
        omega
      · rw [excess_release, excess_get, excess_put, excess_get]
        omega
      · simp only [excess_start, excess_get, excess_put, Call.holds]
        omega
    · simp only [hver, ne_eq, not_false_eq_true, if_true, beInitListened, filter_some,
        decide_false, Bool.false_eq_true, if_false, ofRequest]
      omega

theorem excess_beDoneListened (b : BeListen) (session : Session P)
    (hr : r.2 = none ∨ ∃ node, r = (0, some node)) :
    excess (beDoneListened s b session r.2 (BePhase.doneListened session r)) k =
      excess s k - 2 * one k session.pchan - ofRequest k r.2 := by
  rcases hr with hnone | ⟨node, rfl⟩
  · obtain ⟨ret, recv⟩ := r
    cases hnone
    have hphase : (BePhase.doneListened session (ret, none) : BePhase P) =
        if ret = EAGAIN then .retrying session else .failed EINVAL := by
      unfold BePhase.doneListened
      split_ifs <;> simp_all
    rw [hphase]
    split_ifs
    · simp only [beDoneListened, excess_start, excess_release, Call.holds, ofRequest, Int.sub_zero]
    · simp only [beDoneListened, excess_release, ofRequest, Int.sub_zero]
  · have hphase : BePhase.doneListened session (0, some node) = .returned session := by
      simp [BePhase.doneListened, EAGAIN]
    rw [hphase]
    simp only [beDoneListened, excess_succeed, excess_put, ofRequest]
    omega

omit s in
theorem ofRequest_kept (recv : Option (OpenNode P)) (same : OpenNode P → Prop)
    [DecidablePred same] :
    ofRequest k recv - ofRequest k (recv.filter fun node => decide (same node)) =
      if k ≠ none ∧ (recv.bind fun node => if ¬ same node then some node.pchan else none) = k then 1
      else 0 := by
  cases recv with
  | none => cases k <;> simp [ofRequest]
  | some node =>
    by_cases hsame : same node
    · cases k <;> simp [hsame, ofRequest, filter_some]
    · cases k <;> simp [hsame, ofRequest, filter_some, one, eq_comm]

theorem excess_wake {call : Call P} (hcall : call ∈ s.calls) (a : WakeArgs) :
    excess (wakeCall dev s call a) k = excess s k + added dev s (.wake call a) k := by
  have hheard := excess_heard s call a.wake k
  have hfinish := excess_finish_eq (s.heard call.listen a.wake (call.listened s.openq a.wake)) k
    (show call ∈ _ by simpa [heard, foldl_put] using hcall)
  have hadded : (added dev s (.wake call a) k : Int) =
      (if k = none then (dropped call.listen s.openq a.wake).length else 0) +
        if k ≠ none ∧ lost dev s (.wake call a) = k then 1 else 0 := by
    cases k <;> simp [added, uncounted]
  rw [hadded]
  cases hres : (call.listened s.openq a.wake).1 with
  | none =>
    have hlost : lost dev s (.wake call a) = none := by
      cases call <;> simp [lost, hres, taken]
    have hnot : ¬ (k ≠ none ∧ none = k) := fun h => h.1 h.2.symm
    simp only [wakeCall, hres, hheard, taken, bind_none, ofRequest, hlost, if_neg hnot]
    omega
  | some r =>
    have hr : r.2 = none ∨ ∃ node, r = (0, some node) := by cases call <;> exact listen_ret hres
    have htaken : taken (some r) = r.2 := rfl
    rw [hheard, hres, htaken] at hfinish
    cases call with
    | fe c =>
      have hkept := ofRequest_kept k r.2 fun node =>
        major node.xdata.verFe = major node.xdata.verBe
      simp only [wakeCall, lost, hres, htaken]
      rw [excess_feListened _ k c a.sent hr, hfinish, ← hkept, Call.holds]
      omega
    | beInit b =>
      have hkept := ofRequest_kept k r.2 fun node => major node.xdata.verFe = major dev.apiVer
      simp only [wakeCall, lost, hres, htaken]
      rw [excess_beInitListened _ k b a.allocated a.sent _ _ hr, hfinish, ← hkept, Call.holds]
      omega
    | beDone b session =>
      have hlost : ¬ (k ≠ none ∧ lost dev s (.wake (.beDone b session) a) = k) :=
        fun h => h.1 h.2.symm
      simp only [wakeCall, hres, if_neg hlost]
      rw [excess_beDoneListened _ k b session hr, hfinish, Call.holds]
      omega

theorem step_excess {e : Event P} {t : State P} (h : step dev s e = some t) :
    excess t k = excess s k + added dev s e k := by
  cases e with
  | vchanOpen a =>
    simp only [step, some.injEq] at h
    rw [← h, excess_vchanOpen]
  | wake call a =>
    simp only [step] at h
    split_ifs at h with hcall
    simp only [some.injEq] at h
    rw [← h, excess_wake dev s k hcall]
  | recv pchan m now allocated =>
    simp only [step, some.injEq] at h
    rw [← h, excess_recv]
  | close v =>
    simp only [step, some.injEq] at h
    rw [← h, excess_close]
    cases k <;> simp [added, lost, uncounted]

end Steps

theorem clean_iff (dev : HabDevice P) (s : State P) (e : Event P) :
    Clean dev s e ↔ ∀ k, added dev s e k = 0 := by
  constructor
  · rintro ⟨hlost, hexpired⟩ k
    cases k <;> simp [added, hlost, hexpired]
  · intro h
    refine ⟨?_, length_eq_zero_iff.1 (h none)⟩
    cases hlost : lost dev s e with
    | none => rfl
    | some p =>
      have hp := h (some p)
      simp [added, hlost] at hp

def Balanced (s : State P) : Prop :=
  (∀ p, s.refcount p = 1 + s.vchans p + s.queued p) ∧ s.openqCnt = s.openq.length

/-- For every sequence of calls, messages and wake-ups that ends with no call in progress: the
references and the counter balance exactly if every step was clean. -/
theorem pchan_references_balanced (dev : HabDevice P) (es : List (Event P)) (t : State P)
    (hrun : run (step dev) State.initial es = some t) (hidle : t.calls = []) :
    Balanced t ↔ Along (step dev) (Clean dev) State.initial es := by
  have hexact := Losses.excess_eq_iff (fun s e _ h k => step_excess dev s k (e := e) h) (clean_iff dev) hrun
  rw [← hexact]
  have hinitial : ∀ k : Option P, excess State.initial k = 0 := by
    intro k
    cases k <;> simp [excess, initial, slack, vchans, queued, held]
  have hheld (k : Option P) : held k t.calls = 0 := by rw [hidle]; rfl
  simp only [hinitial]
  simp only [excess, hheld]
  constructor
  · rintro ⟨hrefs, hcnt⟩ k
    cases k with
    | none =>
      simp only [slack]
      omega
    | some p =>
      have hp := hrefs p
      simp only [slack]
      omega
  · intro h
    refine ⟨fun p => ?_, ?_⟩
    · have hp := h (some p)
      simp only [slack] at hp
      omega
    · have hnone := h none
      simp only [slack] at hnone
      omega

def guest : HabDevice Unit := ⟨[()], fun _ => 0, fun _ => false, fun _ => false, false, 0x10000⟩
def loopback : HabDevice Unit := ⟨[()], fun _ => 0xFF, fun _ => false, fun _ => false, true, 0x10000⟩

def openArgs : OpenArgs := ⟨true, false, 0, 0, false, 1, 7, true, true⟩

def ackMessage (verBe : Nat) : Message := ⟨.initAck, ⟨9, 0, 1, 0x10000, verBe⟩⟩

def waitingCall : Call Unit := .fe ⟨(), 1, 7, 0, 0, false⟩

def openAndClose (verBe : Nat) : List (Event Unit) :=
  [.vchanOpen openArgs, .recv () (ackMessage verBe) 0 true,
    .wake waitingCall ⟨.look 0, 0, true, true⟩, .close ⟨(), 7⟩]

instance (dev : HabDevice P) (s : State P) (e : Event P) : Decidable (Clean dev s e) :=
  inferInstanceAs (Decidable (_ ∧ _))

theorem pchan_references_balanced_loopback :
    ∃ t, run (step loopback) State.initial (openAndClose 0x10000) = some t ∧ t.calls = [] ∧
      Balanced t :=
  exists_run_and (by decide) fun t hrun hidle =>
    (pchan_references_balanced loopback _ t hrun hidle).2 (by decide)

def initMessage (type : PayloadType) (subId : Nat) : Message := ⟨type, ⟨9, subId, 1, 0x10000, 0⟩⟩

def cancelled : List (Event Unit) :=
  [.recv () (initMessage .init 0) 0 true, .recv () (initMessage .initCancel 0) 0 true]

def outdated : List (Event Unit) :=
  [.recv () (initMessage .init 5) 0 true, .vchanOpen { openArgs with lbBe := true },
    .wake (.beInit ⟨0, 0, false⟩) ⟨.look 40000, 0, true, true⟩,
    .wake (.beInit ⟨0, 0, false⟩) ⟨.signal, 0, true, true⟩]

/-- An open and close keep a reference of the pchan; so do an answer of another version and a request
that is cancelled in the queue; an expired request stays counted. -/
theorem pchan_references_lost :
    (∃ t, run (step guest) State.initial (openAndClose 0x10000) = some t ∧
        t.calls = [] ∧ t.opened = [] ∧ t.openq = [] ∧ t.refcount () = 2) ∧
      (∃ t, run (step loopback) State.initial ((openAndClose 0).take 3) = some t ∧
        t.calls = [] ∧ t.opened = [] ∧ t.openq = [] ∧ t.refcount () = 2) ∧
      (∃ t, run (step loopback) State.initial cancelled = some t ∧
        t.calls = [] ∧ t.opened = [] ∧ t.openq = [] ∧ t.refcount () = 2) ∧
      ∃ t, run (step loopback) State.initial outdated = some t ∧
        t.calls = [] ∧ t.openq = [] ∧ t.openqCnt = 1 := by
  refine ⟨?_, ?_, ?_, ?_⟩
  all_goals exact exists_run_of_map (by decide)

end MsmKernel.Hab.References
