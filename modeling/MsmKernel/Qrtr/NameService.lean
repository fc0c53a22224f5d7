import Mathlib.Data.List.Basic
import Mathlib.Tactic.Common
import MsmKernel.Lib.XArray

/-! The QRTR name service of ns.c: the server table, the registered lookups and the
control packets it sends. Every send succeeds. A node and the table carry their keying as
fields: an entry stored at a node and a port belongs to that node and port. -/
namespace MsmKernel.Qrtr

structure SockaddrQrtr where
  node : UInt32
  port : UInt32
  deriving DecidableEq

def QRTR_NODE_BCAST : UInt32 := 0xffffffff
def QRTR_PORT_CTRL : UInt32 := 0xfffffffe

namespace NameService

structure Server where
  service : UInt32
  inst : UInt32
  node : UInt32
  port : UInt32
  deriving DecidableEq

structure ServerFilter where
  service : UInt32
  inst : UInt32
  ifilter : UInt32

/- `since` is not in the source: it is the number of packets sent before the registration. -/
structure Lookup where
  service : UInt32
  inst : UInt32
  sq : SockaddrQrtr
  since : Nat
  deriving DecidableEq

structure Node where
  id : UInt32
  servers : XArray Server
  keyed : ∀ p srv, servers.load p = some srv →
    srv.node = id ∧ srv.port.toNat = p ∧ srv.service ≠ 0 ∧ srv.port ≠ 0

inductive CtrlPkt where
  | hello
  | bye (node : UInt32)
  | newServer (srv : Server)
  | delServer (srv : Server)
  | delClient (node port : UInt32)
  deriving DecidableEq

structure NsState where
  localNode : UInt32
  nodes : XArray Node
  keyed : ∀ k n, nodes.load k = some n → n.id.toNat = k
  lookups : List Lookup
  sent : List (SockaddrQrtr × CtrlPkt)

def bcastSq : SockaddrQrtr := ⟨QRTR_NODE_BCAST, QRTR_PORT_CTRL⟩

def initial (localNode : UInt32) : NsState :=
  ⟨localNode, .empty, by simp, [], [(bcastSq, .hello)]⟩

def EINVAL : Int := 22

def pktSize : Int := 20

def sendmsg (dest : SockaddrQrtr) (pkt : CtrlPkt) (s : NsState) : NsState :=
  { s with sent := s.sent ++ [(dest, pkt)] }

def Node.empty (id : UInt32) : Node := ⟨id, .empty, by simp⟩

def Node.add (n : Node) (srv : Server) (hnode : srv.node = n.id) (hservice : srv.service ≠ 0)
    (hport : srv.port ≠ 0) : Node :=
  { n with
    servers := n.servers.store srv.port.toNat srv
    keyed := by
      intro p x hx
      rw [XArray.load_store] at hx
      split_ifs at hx with hp
      · cases hx
        exact ⟨hnode, hp.symm, hservice, hport⟩
      · exact n.keyed p x hx }

def Node.remove (n : Node) (port : UInt32) : Node :=
  { n with
    servers := n.servers.erase port.toNat
    keyed := by
      intro p x hx
      rw [XArray.load_erase] at hx
      split_ifs at hx
      exact n.keyed p x hx }

def NsState.putNode (s : NsState) (n : Node) : NsState :=
  { s with
    nodes := s.nodes.store n.id.toNat n
    keyed := by
      intro k m hm
      rw [XArray.load_store] at hm
      split_ifs at hm with hk
      · cases hm
        exact hk.symm
      · exact s.keyed k m hm }

def nodeGet (id : UInt32) (s : NsState) : Node × NsState :=
  match s.nodes.load id.toNat with
  | some n => (n, s)
  | none => (.empty id, s.putNode (.empty id))

theorem nodeGet_id (id : UInt32) (s : NsState) : (nodeGet id s).1.id = id := by
  cases h : s.nodes.load id.toNat with
  | none => simp [nodeGet, h, Node.empty]
  | some n =>
    have hn := s.keyed _ n h
    simpa [nodeGet, h] using UInt32.toNat_inj.1 hn

def serverMatch (srv : Server) (f : ServerFilter) : Bool :=
  if f.service ≠ 0 ∧ srv.service ≠ f.service then false
  else
    let ifilter := if f.ifilter = 0 ∧ f.inst ≠ 0 then ~~~0 else f.ifilter
    srv.inst &&& ifilter == f.inst

/- The filter the notification loops of `server_del` and `ctrl_cmd_new_server` spell out. -/
def lookupMatch (lookup : Lookup) (service inst : UInt32) : Bool :=
  if lookup.service ≠ 0 ∧ lookup.service ≠ service then false
  else if lookup.inst ≠ 0 ∧ lookup.inst ≠ inst then false
  else true

def emptyServer : Server := ⟨0, 0, 0, 0⟩

def lookupNotify (dest : SockaddrQrtr) (srv : Option Server) (new : Bool) (s : NsState) : NsState :=
  let body := srv.getD emptyServer
  sendmsg dest (if new then .newServer body else .delServer body) s

def serviceAnnounceNew (dest : SockaddrQrtr) (srv : Server) (s : NsState) : Int × NsState :=
  (pktSize, sendmsg dest (.newServer srv) s)

def serviceAnnounceDel (dest : SockaddrQrtr) (srv : Server) (s : NsState) : NsState :=
  sendmsg dest (.delServer srv) s

def notifyLookups (srv : Server) (new : Bool) (s : NsState) : NsState :=
  s.lookups.foldl (fun s lookup =>
    if lookupMatch lookup srv.service srv.inst then lookupNotify lookup.sq (some srv) new s
    else s) s

def announceServers (sq : SockaddrQrtr) (s : NsState) : NsState :=
  s.nodes.values.foldl (fun s node =>
    if node.id = sq.node then s
    else node.servers.values.foldl (fun s srv => (serviceAnnounceNew sq srv s).2) s) s

def serverAdd (service inst nodeId port : UInt32) (s : NsState) : Option (Server × NsState) :=
  if h : service = 0 ∨ port = 0 then none
  else
    let srv : Server := ⟨service, inst, nodeId, port⟩
    let r := nodeGet nodeId s
    some (srv, r.2.putNode (r.1.add srv (nodeGet_id nodeId s).symm
      (fun hs => h (Or.inl hs)) (fun hp => h (Or.inr hp))))

def serverDel (node : Node) (port : UInt32) (bcast : Bool) (s : NsState) : NsState :=
  match node.servers.load port.toNat with
  | none => s
  | some srv =>
    let s := s.putNode (node.remove port)
    let s := if srv.node = s.localNode ∧ bcast then serviceAnnounceDel bcastSq srv s else s
    notifyLookups srv false s

def sayHello (dest : SockaddrQrtr) (s : NsState) : NsState := sendmsg dest .hello s

def ctrlCmdHello (sq : SockaddrQrtr) (s : NsState) : Int × NsState :=
  (0, announceServers sq (sayHello sq s))

def advertise (pkt : CtrlPkt) (s : NsState) : NsState :=
  let r := nodeGet s.localNode s
  r.1.servers.values.foldl (fun s srv => sendmsg ⟨srv.node, srv.port⟩ pkt s) r.2

section
variable (sq : SockaddrQrtr)

def ctrlCmdBye (s : NsState) : Int × NsState :=
  let r := nodeGet sq.node s
  let s := r.1.servers.values.foldl
    (fun s srv => serverDel (nodeGet sq.node s).1 srv.port true s) r.2
  (0, advertise (.bye sq.node) s)

def ctrlCmdDelClient (nodeId port : UInt32) (s : NsState) : Int × NsState :=
  if sq.node ≠ nodeId then (-EINVAL, s)
  else if sq.node = s.localNode ∧ sq.port ≠ port then (-EINVAL, s)
  else
    let s : NsState := { s with
      lookups := s.lookups.filter fun l => ¬ (l.sq.node = nodeId ∧ l.sq.port = port) }
    let r := nodeGet nodeId s
    (0, advertise (.delClient nodeId port) (serverDel r.1 port false r.2))

def ctrlCmdNewServer (service inst nodeId port : UInt32) (s : NsState) : Int × NsState :=
  let nodeId' := if sq.node = s.localNode then sq.node else nodeId
  let port' := if sq.node = s.localNode then sq.port else port
  match serverAdd service inst nodeId' port' s with
  | none => (-EINVAL, s)
  | some (srv, s) =>
    let r := if srv.node = s.localNode then serviceAnnounceNew bcastSq srv s else (0, s)
    (r.1, notifyLookups srv true r.2)

def ctrlCmdDelServer (nodeId port : UInt32) (s : NsState) : Int × NsState :=
  let nodeId' := if sq.node = s.localNode then sq.node else nodeId
  let port' := if sq.node = s.localNode then sq.port else port
  if sq.node = s.localNode ∧ sq.port ≠ port' then (-EINVAL, s)
  else
    let r := nodeGet nodeId' s
    (0, serverDel r.1 port' true r.2)

def ctrlCmdNewLookup (service inst : UInt32) (s : NsState) : Int × NsState :=
  if sq.node ≠ s.localNode then (-EINVAL, s)
  else
    let s : NsState := { s with lookups := s.lookups ++ [⟨service, inst, sq, s.sent.length⟩] }
    let s := s.nodes.values.foldl (fun s node =>
      node.servers.values.foldl (fun s srv =>
        if serverMatch srv ⟨service, inst, 0⟩ then lookupNotify sq (some srv) true s else s) s) s
    (0, lookupNotify sq none true s)

def ctrlCmdDelLookup (service inst : UInt32) (s : NsState) : NsState :=
  { s with
    lookups := s.lookups.filter fun l =>
      ¬ (l.sq.node = sq.node ∧ l.sq.port = sq.port ∧ l.service = service ∧
        (l.inst = 0 ∨ l.inst = inst)) }

end

inductive Cmd where
  | hello
  | bye
  | delClient (node port : UInt32)
  | newServer (service inst node port : UInt32)
  | delServer (service inst node port : UInt32)
  | exit
  | ping
  | resumeTx
  | newLookup (service inst : UInt32)
  | delLookup (service inst : UInt32)

def qrtrNsWorker (s : NsState) (sq : SockaddrQrtr) : Cmd → Int × NsState
  | .hello => ctrlCmdHello sq s
  | .bye => ctrlCmdBye sq s
  | .delClient node port => ctrlCmdDelClient sq node port s
  | .newServer service inst node port => ctrlCmdNewServer sq service inst node port s
  | .delServer _ _ node port => ctrlCmdDelServer sq node port s
  | .exit => (0, s)
  | .ping => (0, s)
  | .resumeTx => (0, s)
  | .newLookup service inst => ctrlCmdNewLookup sq service inst s
  | .delLookup service inst => (0, ctrlCmdDelLookup sq service inst s)

def NsState.table (s : NsState) : List Server := s.nodes.values.flatMap fun n => n.servers.values

def NsState.sendAll (s : NsState) (msgs : List (SockaddrQrtr × CtrlPkt)) : NsState :=
  { s with sent := s.sent ++ msgs }

theorem mem_table {s : NsState} {srv : Server} :
    srv ∈ s.table ↔ ∃ n, s.nodes.load srv.node.toNat = some n ∧
      n.servers.load srv.port.toNat = some srv := by
  simp only [NsState.table, List.mem_flatMap, XArray.mem_values_iff]
  constructor
  · rintro ⟨n, ⟨k, hk⟩, p, hp⟩
    obtain ⟨hnode, hport, -⟩ := n.keyed p srv hp
    refine ⟨n, ?_, ?_⟩
    · rw [hnode, s.keyed k n hk]
      exact hk
    · rw [hport]
      exact hp
  · rintro ⟨n, hn, hp⟩
    exact ⟨n, ⟨_, hn⟩, _, hp⟩

theorem ne_empty_of_mem_table {s : NsState} {srv : Server} (h : srv ∈ s.table) :
    srv ≠ emptyServer := by
  obtain ⟨n, -, hp⟩ := mem_table.1 h
  rintro rfl
  exact (n.keyed _ _ hp).2.2.1 rfl

theorem sendAll_nil (s : NsState) : s.sendAll [] = s := by
  simp [NsState.sendAll]

theorem sendAll_sendAll (s : NsState) (xs ys : List (SockaddrQrtr × CtrlPkt)) :
    (s.sendAll xs).sendAll ys = s.sendAll (xs ++ ys) := by
  simp [NsState.sendAll, List.append_assoc]

theorem sendmsg_eq (dest : SockaddrQrtr) (pkt : CtrlPkt) (s : NsState) :
    sendmsg dest pkt s = s.sendAll [(dest, pkt)] := rfl

@[simp] theorem table_sendAll (s : NsState) (msgs : List (SockaddrQrtr × CtrlPkt)) :
    (s.sendAll msgs).table = s.table := rfl

theorem foldl_sendAll {α : Type*} {f : NsState → α → NsState}
    (g : α → List (SockaddrQrtr × CtrlPkt)) (xs : List α) (s : NsState)
    (h : ∀ s, ∀ x ∈ xs, f s x = s.sendAll (g x)) : xs.foldl f s = s.sendAll (xs.flatMap g) := by
  induction xs generalizing s with
  | nil => simp [sendAll_nil]
  | cons x xs ih =>
    rw [List.foldl_cons, h s x (by simp), ih _ fun s y hy => h s y (by simp [hy]),
      sendAll_sendAll, List.flatMap_cons]

def notification (srv : Server) (new : Bool) : CtrlPkt :=
  if new then .newServer srv else .delServer srv

theorem notifyLookups_eq (srv : Server) (new : Bool) (s : NsState) :
    notifyLookups srv new s = s.sendAll (s.lookups.flatMap fun l =>
      if lookupMatch l srv.service srv.inst then [(l.sq, notification srv new)] else []) := by
  refine foldl_sendAll _ _ _ fun s l _ => ?_
  split
  · rfl
  · rw [sendAll_nil]

theorem serverMatch_eq_lookupMatch (l : Lookup) (srv : Server) :
    serverMatch srv ⟨l.service, l.inst, 0⟩ = lookupMatch l srv.service srv.inst := by
  have hones : srv.inst &&& ~~~0 = srv.inst := by
    simp
  by_cases hs : l.service = 0 <;> by_cases hi : l.inst = 0 <;>
    simp only [serverMatch, lookupMatch, hs, hi, hones, ne_eq, eq_comm (a := srv.service),
      not_true_eq_false, not_false_eq_true, true_and, false_and, and_true, and_false, if_true,
      if_false, UInt32.and_zero, beq_self_eq_true] <;>
    grind

end NameService
end MsmKernel.Qrtr
