import MsmKernel.Qrtr.Observers

/-! Isolation of the name service: which entries of the server table a control packet can touch,
and that the local node's entries and the lookups are out of reach of other nodes unless a packet
names the local node as its own. -/
namespace MsmKernel.Qrtr.NameService
open Run

structure QrtrCtrlPkt where
  cmd : UInt32
  w0 : UInt32
  w1 : UInt32
  w2 : UInt32
  w3 : UInt32

/- The switch of `qrtr_ns_worker`; a command it does not know does nothing, like EXIT. -/
def QrtrCtrlPkt.decode (pkt : QrtrCtrlPkt) : Cmd :=
  if pkt.cmd = 2 then .hello
  else if pkt.cmd = 3 then .bye
  else if pkt.cmd = 6 then .delClient pkt.w0 pkt.w1
  else if pkt.cmd = 4 then .newServer pkt.w0 pkt.w1 pkt.w2 pkt.w3
  else if pkt.cmd = 5 then .delServer pkt.w0 pkt.w1 pkt.w2 pkt.w3
  else if pkt.cmd = 8 then .exit
  else if pkt.cmd = 9 then .ping
  else if pkt.cmd = 7 then .resumeTx
  else if pkt.cmd = 10 then .newLookup pkt.w0 pkt.w1
  else if pkt.cmd = 11 then .delLookup pkt.w0 pkt.w1
  else .exit

def receive (s : NsState) (e : SockaddrQrtr × QrtrCtrlPkt) : Option NsState :=
  some (qrtrNsWorker s e.1 e.2.decode).2

/- A DEL_CLIENT that is not taken for spoofed. -/
def ClientGone (s : NsState) (sq : SockaddrQrtr) (node port : UInt32) : Prop :=
  sq.node = node ∧ (sq.node = s.localNode → sq.port = port)

def TableAfter (s : NsState) (sq : SockaddrQrtr) (cmd : Cmd) (srv : Server) : Prop :=
  match cmd with
  | .bye => srv ∈ s.table ∧ srv.node ≠ sq.node
  | .delClient node port =>
    srv ∈ s.table ∧ ¬ (ClientGone s sq node port ∧ srv.node = node ∧ srv.port = port)
  | .newServer service inst node port =>
    let key := serverKey s sq node port
    if service = 0 ∨ key.2 = 0 then srv ∈ s.table
    else srv = ⟨service, inst, key.1, key.2⟩ ∨
      srv ∈ s.table ∧ ¬ (srv.node = key.1 ∧ srv.port = key.2)
  | .delServer _ _ node port =>
    let key := serverKey s sq node port
    srv ∈ s.table ∧ ¬ (srv.node = key.1 ∧ srv.port = key.2)
  | _ => srv ∈ s.table

section Table
variable (s : NsState) (sq : SockaddrQrtr)

theorem mem_table_serverDel_nodeGet (id port : UInt32) (bcast : Bool) (srv : Server) :
    srv ∈ (serverDel (nodeGet id s).1 port bcast (nodeGet id s).2).table ↔
      srv ∈ s.table ∧ ¬ (srv.node = id ∧ srv.port = port) := by
  rw [mem_table_serverDel (load_nodeGet_id id s), mem_table_nodeGet, nodeGet_id]

theorem mem_table_advertise (pkt : CtrlPkt) (srv : Server) :
    srv ∈ (advertise pkt s).table ↔ srv ∈ s.table := by
  rw [advertise_eq, table_sendAll, mem_table_nodeGet]

theorem mem_table_ctrlCmdBye (srv : Server) :
    srv ∈ (ctrlCmdBye sq s).2.table ↔ srv ∈ s.table ∧ srv.node ≠ sq.node := by
  have hload := load_nodeGet sq.node s
  obtain ⟨t, ht, -, htable⟩ := byeLoop_spec sq (nodeGet sq.node s).1.servers.values
    (nodeGet sq.node s).2 ⟨_, hload⟩
  rw [ctrlCmdBye, ht, mem_table_advertise, htable, mem_table_nodeGet]
  refine and_congr_right fun hin => not_congr ⟨fun h => h.1, fun hnode => ⟨hnode, srv, ?_, rfl⟩⟩
  have hin' := (mem_table_nodeGet s sq.node srv).2 hin
  rw [mem_table_of_load (load_nodeGet_id sq.node s) (hnode.trans (nodeGet_id ..).symm)] at hin'
  exact (XArray.mem_values_iff _ _).2 ⟨_, hin'⟩

theorem mem_table_ctrlCmdDelClient (node port : UInt32) (srv : Server) :
    srv ∈ (ctrlCmdDelClient sq node port s).2.table ↔
      srv ∈ s.table ∧ ¬ (ClientGone s sq node port ∧ srv.node = node ∧ srv.port = port) := by
  simp only [ctrlCmdDelClient]
  split_ifs with hspoof hother
  · simp [ClientGone, hspoof]
  · simp [ClientGone, hother]
  · have hgone : ClientGone s sq node port :=
      ⟨not_not.1 hspoof, fun hlocal => not_not.1 fun hport => hother ⟨hlocal, hport⟩⟩
    rw [mem_table_advertise, mem_table_serverDel_nodeGet]
    simp only [hgone, true_and]
    exact Iff.rfl

theorem mem_table_ctrlCmdNewServer (service inst node port : UInt32) (srv : Server) :
    srv ∈ (ctrlCmdNewServer sq service inst node port s).2.table ↔
      TableAfter s sq (.newServer service inst node port) srv := by
  obtain ⟨hk1, hk2⟩ := serverKey_eq s sq node port
  simp only [ctrlCmdNewServer, hk1, hk2, TableAfter]
  cases hadd : serverAdd service inst (serverKey s sq node port).1 (serverKey s sq node port).2 s with
  | none =>
    have hzero : service = 0 ∨ (serverKey s sq node port).2 = 0 := by
      by_contra hz
      simp [serverAdd, hz] at hadd
    simp only [hzero, if_true]
  | some r =>
    obtain ⟨x, t⟩ := r
    obtain ⟨rfl, -, -, -, htable⟩ := serverAdd_spec hadd
    have hnz : ¬ (service = 0 ∨ (serverKey s sq node port).2 = 0) := by
      intro hz
      simp [serverAdd, hz] at hadd
    rw [if_neg hnz, ← htable srv]
    simp only [notifyLookups_eq, table_sendAll]
    split_ifs <;> rfl

theorem mem_table_ctrlCmdDelServer (service inst node port : UInt32) (srv : Server) :
    srv ∈ (ctrlCmdDelServer sq node port s).2.table ↔
      TableAfter s sq (.delServer service inst node port) srv := by
  by_cases hlocal : sq.node = s.localNode
  · simp only [ctrlCmdDelServer, TableAfter, serverKey, hlocal, if_true, true_and, ne_eq, not_true,
      if_false]
    exact mem_table_serverDel_nodeGet s s.localNode sq.port true srv
  · simp only [ctrlCmdDelServer, TableAfter, serverKey, hlocal, if_false, false_and]
    exact mem_table_serverDel_nodeGet s node port true srv

theorem mem_table_qrtrNsWorker (cmd : Cmd) (srv : Server) :
    srv ∈ (qrtrNsWorker s sq cmd).2.table ↔ TableAfter s sq cmd srv := by
  cases cmd with
  | bye => exact mem_table_ctrlCmdBye s sq srv
  | delClient node port => exact mem_table_ctrlCmdDelClient s sq node port srv
  | newServer service inst node port => exact mem_table_ctrlCmdNewServer s sq service inst node port srv
  | delServer service inst node port => exact mem_table_ctrlCmdDelServer s sq service inst node port srv
  | hello => simp only [qrtrNsWorker, ctrlCmdHello_eq, table_sendAll, TableAfter]
  | newLookup service inst =>
    by_cases hlocal : sq.node = s.localNode
    · simp only [qrtrNsWorker, ctrlCmdNewLookup_eq hlocal, table_sendAll]
      exact Iff.rfl
    · simp [qrtrNsWorker, ctrlCmdNewLookup, hlocal, TableAfter]
  | _ => exact Iff.rfl

end Table

/-- Local entries change only for the socket that owns them, and lookups not at all for a packet
of another node. -/
structure Isolated (s : NsState) (sq : SockaddrQrtr) (s' : NsState) : Prop where
  entries : ∀ srv, srv.node = s.localNode → sq ≠ ⟨srv.node, srv.port⟩ →
    (srv ∈ s'.table ↔ srv ∈ s.table)
  lookups : sq.node ≠ s.localNode → s'.lookups = s.lookups

/- A NEW_SERVER or DEL_SERVER of another node that names the local one and changes an entry there,
or a BYE of a local socket while others have entries. -/
def Oversteps (s : NsState) (sq : SockaddrQrtr) : Cmd → Prop
  | .newServer service inst node port => sq.node ≠ s.localNode ∧ node = s.localNode ∧
    service ≠ 0 ∧ port ≠ 0 ∧ (⟨service, inst, node, port⟩ : Server) ∉ s.table
  | .delServer _ _ node port => sq.node ≠ s.localNode ∧ node = s.localNode ∧
    ∃ srv ∈ s.table, srv.node = node ∧ srv.port = port
  | .bye => sq.node = s.localNode ∧ ∃ srv ∈ s.table, srv.node = s.localNode ∧ srv.port ≠ sq.port
  | _ => False

instance decidableOversteps (s : NsState) (sq : SockaddrQrtr) (cmd : Cmd) :
    Decidable (Oversteps s sq cmd) := by
  cases cmd <;> (dsimp only [Oversteps]; infer_instance)

section Isolation
variable {s : NsState} {sq : SockaddrQrtr}

/- Lookups are local, so the commands that remove lookups of their sender find none. -/
theorem lookups_qrtrNsWorker (hreg : Registered s) (hremote : sq.node ≠ s.localNode) (cmd : Cmd) :
    (qrtrNsWorker s sq cmd).2.lookups = s.lookups := by
  have hkeep (P : Lookup → Bool) (hP : ∀ l, P l = false → l.sq.node = sq.node) :
      s.lookups.filter P = s.lookups := by
    refine List.filter_eq_self.2 fun l hl => ?_
    by_contra hout
    exact hremote ((hP l (by simpa using hout)).symm.trans (hreg l hl).2)
  cases cmd with
  | bye =>
    obtain ⟨ext, h⟩ := removal_ctrlCmdBye sq s
    exact h.lookups
  | delClient node port =>
    simp only [qrtrNsWorker, ctrlCmdDelClient]
    split_ifs with hspoof hother
    · rfl
    · rfl
    · let t : NsState := { s with
        lookups := s.lookups.filter fun l => ¬ (l.sq.node = node ∧ l.sq.port = port) }
      obtain ⟨ext, h⟩ := removal_serverDel_nodeGet t node port false
      obtain ⟨ext', h'⟩ := removal_advertise (.delClient node port)
        (serverDel (nodeGet node t).1 port false (nodeGet node t).2) fun srv => ⟨by simp, by simp⟩
      rw [h'.lookups, h.lookups]
      refine hkeep _ fun l hl => ?_
      simp only [decide_eq_false_iff_not, not_not] at hl
      rw [hl.1, not_not.1 hspoof]
  | newServer service inst node port =>
    simp only [qrtrNsWorker, ctrlCmdNewServer]
    cases hadd : serverAdd service inst (if sq.node = s.localNode then sq.node else node)
        (if sq.node = s.localNode then sq.port else port) s with
    | none => rfl
    | some r =>
      obtain ⟨-, hlookups, -⟩ := serverAdd_spec hadd
      rw [← hlookups]
      simp only [notifyLookups_eq]
      split_ifs <;> rfl
  | delServer service inst node port =>
    simp only [qrtrNsWorker, ctrlCmdDelServer, hremote, if_false, false_and]
    obtain ⟨ext, h⟩ := removal_serverDel_nodeGet s node port true
    exact h.lookups
  | hello =>
    simp only [qrtrNsWorker, ctrlCmdHello_eq]
    rfl
  | newLookup service inst => simp [qrtrNsWorker, ctrlCmdNewLookup, hremote]
  | delLookup service inst =>
    refine hkeep _ fun l hl => ?_
    simp only [decide_eq_false_iff_not, not_not] at hl
    exact hl.1
  | exit | ping | resumeTx => rfl

theorem isolated_iff (hreg : Registered s) (cmd : Cmd) :
    Isolated s sq (qrtrNsWorker s sq cmd).2 ↔ ¬ Oversteps s sq cmd := by
  have hsplit : Isolated s sq (qrtrNsWorker s sq cmd).2 ↔
      ∀ srv, srv.node = s.localNode → sq ≠ ⟨srv.node, srv.port⟩ →
        (TableAfter s sq cmd srv ↔ srv ∈ s.table) := by
    refine ⟨fun h srv hlocal howner => ?_, fun h => ⟨fun srv hlocal howner => ?_, fun hremote => ?_⟩⟩
    · rw [← mem_table_qrtrNsWorker]
      exact h.entries srv hlocal howner
    · rw [mem_table_qrtrNsWorker]
      exact h srv hlocal howner
    · exact lookups_qrtrNsWorker hreg hremote cmd
  have hkey {srv : Server} {node port : UInt32} (howner : sq ≠ ⟨srv.node, srv.port⟩)
      (hlocal : srv.node = s.localNode) (h : srv.node = (serverKey s sq node port).1 ∧
        srv.port = (serverKey s sq node port).2) :
      sq.node ≠ s.localNode ∧ srv.node = node ∧ srv.port = port := by
    by_cases hsq : sq.node = s.localNode
    · rw [serverKey, if_pos hsq] at h
      exact absurd (by rw [h.1, h.2]) howner
    · rw [serverKey, if_neg hsq] at h
      exact ⟨hsq, h⟩
  rw [hsplit]
  cases cmd with
  | bye =>
    constructor
    · rintro h ⟨hlocal, srv, hin, hnode, hport⟩
      have howner : sq ≠ ⟨srv.node, srv.port⟩ := fun he => hport (by rw [he])
      exact ((h srv hnode howner).2 hin).2 (hnode.trans hlocal.symm)
    · intro h srv hnode howner
      refine ⟨fun hin => hin.1, fun hin => ⟨hin, fun hsq => h ⟨hsq.symm.trans hnode, srv, hin, hnode, ?_⟩⟩⟩
      intro hport
      exact howner (by rw [hsq, hport])
  | delClient node port =>
    simp only [TableAfter, Oversteps, not_false_eq_true, iff_true]
    rintro srv hlocal howner
    refine ⟨fun hin => hin.1, fun hin => ⟨hin, ?_⟩⟩
    rintro ⟨⟨hsq, hport⟩, hnode, hsrv⟩
    refine howner ?_
    rw [hnode, hsrv, ← hsq, ← hport (hsq.trans (hnode.symm.trans hlocal))]
  | newServer service inst node port =>
    refine ⟨?_, fun h srv hlocal howner => ?_⟩
    · rintro h ⟨hsq, hnode, hservice, hport, hout⟩
      have howner : sq ≠ ⟨node, port⟩ := fun he => hsq (by rw [he, hnode])
      have hin := h ⟨service, inst, node, port⟩ hnode howner
      simp only [TableAfter, serverKey, if_neg hsq] at hin
      rw [if_neg (not_or.2 ⟨hservice, hport⟩)] at hin
      exact hout (hin.1 (Or.inl trivial))
    · simp only [TableAfter]
      split_ifs with hzero
      · exact Iff.rfl
      · by_cases hk : srv.node = (serverKey s sq node port).1 ∧
            srv.port = (serverKey s sq node port).2
        · obtain ⟨hsq, rfl, rfl⟩ := hkey howner hlocal hk
          have hkeys : serverKey s sq srv.node srv.port = (srv.node, srv.port) := if_neg hsq
          rw [hkeys, not_or] at hzero
          have hin : (⟨service, inst, srv.node, srv.port⟩ : Server) ∈ s.table :=
            not_not.1 fun hout => h ⟨hsq, hlocal, hzero.1, hzero.2, hout⟩
          simp only [hkeys, and_self, not_true, and_false, or_false]
          exact ⟨fun he => he ▸ hin, fun hsrv => eq_of_mem_table hsrv hin rfl rfl⟩
        · have hne : srv ≠ ⟨service, inst, (serverKey s sq node port).1,
              (serverKey s sq node port).2⟩ := fun he => hk (by rw [he]; exact ⟨rfl, rfl⟩)
          simp [hk, hne]
  | delServer service inst node port =>
    refine ⟨?_, fun h srv hlocal howner => ⟨And.left, fun hin => ⟨hin, fun hk => ?_⟩⟩⟩
    · rintro h ⟨hsq, hnode, srv, hin, rfl, rfl⟩
      have howner : sq ≠ ⟨srv.node, srv.port⟩ := fun he => hsq (by rw [he]; exact hnode)
      have hkeys : serverKey s sq srv.node srv.port = (srv.node, srv.port) := if_neg hsq
      exact ((h srv hnode howner).2 hin).2 (by simp [hkeys])
    · obtain ⟨hsq, rfl, rfl⟩ := hkey howner hlocal hk
      exact h ⟨hsq, hlocal, srv, hin, rfl, rfl⟩
  | hello | newLookup _ _ | delLookup _ _ | exit | ping | resumeTx =>
    simp [TableAfter, Oversteps]

end Isolation

/-- In every state the name service can reach, and for a packet with any contents from any socket,
the packet leaves the entries of other local sockets, and if it is not local all lookups, as they
were, exactly when it does not overstep. -/
theorem name_service_isolates {localNode : UInt32} {events : List (SockaddrQrtr × QrtrCtrlPkt)}
    {s : NsState} (h : run receive (initial localNode) events = some s) (sq : SockaddrQrtr)
    (pkt : QrtrCtrlPkt) :
    Isolated s sq (qrtrNsWorker s sq pkt.decode).2 ↔ ¬ Oversteps s sq pkt.decode := by
  have hreg : Registered s := by
    refine run_invariant (I := Registered) (fun s e t hs _ ht => ?_) ?_ (along_true _ _) h
    · exact registered_step (e := (e.1, e.2.decode)) hs ht
    · simp [Registered, initial]
  exact isolated_iff hreg pkt.decode

theorem name_service_isolates_local_server :
    let own : SockaddrQrtr × QrtrCtrlPkt := (⟨1, 100⟩, ⟨4, 5, 1, 0, 0⟩)
    ∃ s, run receive (initial 1) [own] = some s ∧
      (⟨5, 1, 1, 100⟩ : Server) ∈ (qrtrNsWorker s ⟨2, 7⟩ (.delServer 5 1 2 100)).2.table := by
  intro own
  have hrun : run receive (initial 1) [own] = some (qrtrNsWorker (initial 1) own.1 own.2.decode).2 :=
    rfl
  refine ⟨_, hrun, ?_⟩
  have hiso := (name_service_isolates hrun ⟨2, 7⟩ ⟨5, 5, 1, 2, 100⟩).2 (by decide)
  exact (hiso.entries ⟨5, 1, 1, 100⟩ rfl (by decide)).2 (by decide)

/-- Node 2 deletes the server of the local socket 1:100 by naming the local node in a DEL_SERVER,
and a BYE of the local socket 1:200 deletes it too. -/
theorem remote_packet_deletes_local_server :
    ∃ s, run receive (initial 1) [(⟨1, 100⟩, ⟨4, 5, 1, 0, 0⟩)] = some s ∧
      (⟨5, 1, 1, 100⟩ : Server) ∈ s.table ∧
      (⟨5, 1, 1, 100⟩ : Server) ∉ (qrtrNsWorker s ⟨2, 7⟩ (.delServer 5 1 1 100)).2.table ∧
      (⟨5, 1, 1, 100⟩ : Server) ∉ (qrtrNsWorker s ⟨1, 200⟩ .bye).2.table :=
  ⟨_, rfl, by decide, by decide, by decide⟩

end MsmKernel.Qrtr.NameService
