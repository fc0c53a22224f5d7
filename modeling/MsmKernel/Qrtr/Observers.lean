import Mathlib.Data.Finset.Basic
import MsmKernel.Lib.Run
import MsmKernel.Qrtr.NameService

/-! Observers of the name service: what each control packet does to the server table and
which notifications it sends, and the agreement between the table and the replay of the
notifications that reached a lookup's socket. -/
namespace MsmKernel.Qrtr.NameService
open Run List NsState

abbrev Message := SockaddrQrtr × CtrlPkt

abbrev Event := SockaddrQrtr × Cmd

def Lookup.Matches (l : Lookup) (srv : Server) : Prop :=
  lookupMatch l srv.service srv.inst = true

instance (l : Lookup) (srv : Server) : Decidable (l.Matches srv) :=
  inferInstanceAs (Decidable (_ = _))

/-- What the removal paths do: they shrink the table, send `ext`, and announce to every
observer exactly the entries that disappear. -/
structure Removal (s s' : NsState) (ext : List Message) : Prop where
  sent : s'.sent = s.sent ++ ext
  localNode : s'.localNode = s.localNode
  lookups : s'.lookups = s.lookups
  table : ∀ srv, srv ∈ s'.table → srv ∈ s.table
  noNew : ∀ dest srv, (dest, .newServer srv) ∉ ext
  sound : ∀ dest srv, (dest, .delServer srv) ∈ ext → srv ∉ s'.table ∧
    (dest = bcastSq ∨ ∃ l ∈ s.lookups, l.sq = dest ∧ l.Matches srv)
  complete : ∀ l ∈ s.lookups, ∀ srv, l.Matches srv → srv ∈ s.table → srv ∉ s'.table →
    (l.sq, .delServer srv) ∈ ext

variable {s s' : NsState} {ext : List Message} {srv : Server} {node : Node}
  {id service inst : UInt32} {sq : SockaddrQrtr} {l : Lookup} {e : Event}

theorem Removal.trans {s₁ s₂ : NsState} {e₁ e₂ : List Message} (h₁ : Removal s s₁ e₁)
    (h₂ : Removal s₁ s₂ e₂) : Removal s s₂ (e₁ ++ e₂) where
  sent := by rw [h₂.sent, h₁.sent, append_assoc]
  localNode := h₂.localNode.trans h₁.localNode
  lookups := h₂.lookups.trans h₁.lookups
  table srv h := h₁.table srv (h₂.table srv h)
  noNew dest srv h := by
    rcases mem_append.1 h with h | h
    · exact h₁.noNew dest srv h
    · exact h₂.noNew dest srv h
  sound dest srv h := by
    rcases mem_append.1 h with h | h
    · obtain ⟨hout, hdest⟩ := h₁.sound dest srv h
      exact ⟨fun hin => hout (h₂.table srv hin), hdest⟩
    · obtain ⟨hout, hdest⟩ := h₂.sound dest srv h
      rw [h₁.lookups] at hdest
      exact ⟨hout, hdest⟩
  complete l hl srv hm hin hout := by
    by_cases hmid : srv ∈ s₁.table
    · exact mem_append_right _ (h₂.complete l (h₁.lookups ▸ hl) srv hm hmid hout)
    · exact mem_append_left _ (h₁.complete l hl srv hm hin hmid)

theorem removal_of_quiet (hsent : s'.sent = s.sent ++ ext) (hlocal : s'.localNode = s.localNode)
    (hlookups : s'.lookups = s.lookups) (htable : ∀ srv, srv ∈ s'.table ↔ srv ∈ s.table)
    (hquiet : ∀ m ∈ ext, ∀ srv, m.2 ≠ .newServer srv ∧ m.2 ≠ .delServer srv) :
    Removal s s' ext where
  sent := hsent
  localNode := hlocal
  lookups := hlookups
  table srv := (htable srv).1
  noNew _ srv h := (hquiet _ h srv).1 rfl
  sound _ srv h := absurd rfl (hquiet _ h srv).2
  complete _ _ srv _ hin hout := absurd ((htable srv).2 hin) hout

theorem mem_table_putNode {n : Node} :
    srv ∈ (s.putNode n).table ↔
      if srv.node = n.id then n.servers.load srv.port.toNat = some srv else srv ∈ s.table := by
  rw [mem_table, mem_table]
  simp only [putNode, XArray.load_store, UInt32.toNat_inj]
  split_ifs <;> simp

theorem load_nodeGet (id : UInt32) (s : NsState) :
    (nodeGet id s).2.nodes.load id.toNat = some (nodeGet id s).1 := by
  cases h : s.nodes.load id.toNat with
  | none => simp [nodeGet, h, putNode, Node.empty]
  | some n => simp [nodeGet, h]

theorem load_nodeGet_id (id : UInt32) (s : NsState) :
    (nodeGet id s).2.nodes.load (nodeGet id s).1.id.toNat = some (nodeGet id s).1 := by
  rw [nodeGet_id]
  exact load_nodeGet id s

theorem mem_table_nodeGet (s : NsState) (id : UInt32) (srv : Server) :
    srv ∈ (nodeGet id s).2.table ↔ srv ∈ s.table := by
  cases h : s.nodes.load id.toNat with
  | some n => simp [nodeGet, h]
  | none =>
    have he : (nodeGet id s).2 = s.putNode (.empty id) := by simp [nodeGet, h]
    rw [he, mem_table_putNode]
    split_ifs with hid
    · have hid' : srv.node = id := hid
      rw [mem_table, hid']
      simp [Node.empty, h]
    · exact Iff.rfl

theorem mem_table_of_load (hnode : s.nodes.load node.id.toNat = some node)
    (h : srv.node = node.id) : srv ∈ s.table ↔ node.servers.load srv.port.toNat = some srv := by
  rw [mem_table, h, hnode]
  simp

theorem eq_of_mem_table {x y : Server} (hx : x ∈ s.table) (hy : y ∈ s.table)
    (hnode : x.node = y.node) (hport : x.port = y.port) : x = y := by
  obtain ⟨n, hn, hp⟩ := mem_table.1 hx
  obtain ⟨m, hm, hq⟩ := mem_table.1 hy
  rw [hnode, hm, Option.some.injEq] at hn
  rw [← hn, hport, hq, Option.some.injEq] at hp
  exact hp.symm

theorem removal_refl (s : NsState) : Removal s s [] :=
  removal_of_quiet (by simp) rfl rfl (fun _ => Iff.rfl) (by simp)

theorem removal_nodeGet (id : UInt32) (s : NsState) : Removal s (nodeGet id s).2 [] := by
  refine removal_of_quiet ?_ ?_ ?_ (mem_table_nodeGet s id) (by simp)
  all_goals cases h : s.nodes.load id.toNat <;> simp [nodeGet, h, putNode]

theorem advertise_eq (pkt : CtrlPkt) (s : NsState) :
    advertise pkt s = (nodeGet s.localNode s).2.sendAll
      ((nodeGet s.localNode s).1.servers.values.flatMap fun srv =>
        [(⟨srv.node, srv.port⟩, pkt)]) :=
  foldl_sendAll _ _ _ fun _ _ _ => rfl

theorem removal_advertise (pkt : CtrlPkt) (s : NsState)
    (hquiet : ∀ srv, pkt ≠ .newServer srv ∧ pkt ≠ .delServer srv) :
    ∃ ext, Removal s (advertise pkt s) ext := by
  rw [advertise_eq]
  refine ⟨_, (removal_nodeGet s.localNode s).trans
    (removal_of_quiet rfl rfl rfl (fun _ => Iff.rfl) fun m hm srv => ?_)⟩
  simp only [mem_flatMap, mem_singleton] at hm
  obtain ⟨x, -, rfl⟩ := hm
  exact hquiet srv

/- What a server's arrival or departure is announced with. -/
def announcement (s : NsState) (bcast : Prop) [Decidable bcast] (pkt : CtrlPkt) (srv : Server) :
    List Message :=
  (if bcast then [(bcastSq, pkt)] else []) ++ s.lookups.flatMap fun l =>
    if lookupMatch l srv.service srv.inst then [(l.sq, pkt)] else []

theorem mem_announcement {bcast : Prop} [Decidable bcast] {pkt : CtrlPkt} {m : Message} :
    m ∈ announcement s bcast pkt srv ↔ m.2 = pkt ∧
      (bcast ∧ m.1 = bcastSq ∨ ∃ l ∈ s.lookups, l.sq = m.1 ∧ l.Matches srv) := by
  simp only [announcement, mem_append, mem_flatMap, mem_ite_nil_right,
    mem_singleton, Prod.ext_iff, Lookup.Matches]
  grind

section
variable (hnode : s.nodes.load node.id.toNat = some node) (port : UInt32) (bcast : Bool)
include hnode port bcast

theorem mem_table_serverDel (srv : Server) : srv ∈ (serverDel node port bcast s).table ↔
      srv ∈ s.table ∧ ¬ (srv.node = node.id ∧ srv.port = port) := by
  cases hl : node.servers.load port.toNat with
  | none =>
    have heq : serverDel node port bcast s = s := by simp [serverDel, hl]
    rw [heq]
    refine ⟨fun h => ⟨h, ?_⟩, fun h => h.1⟩
    rintro ⟨h1, h2⟩
    rw [mem_table_of_load hnode h1, h2, hl] at h
    cases h
  | some x =>
    have htable : (serverDel node port bcast s).table = (s.putNode (node.remove port)).table := by
      simp only [serverDel, hl, notifyLookups_eq, table_sendAll]
      split_ifs <;> rfl
    rw [htable, mem_table_putNode]
    by_cases hid : srv.node = node.id
    · rw [if_pos (show srv.node = (node.remove port).id from hid), mem_table_of_load hnode hid]
      simp only [Node.remove, XArray.load_erase, UInt32.toNat_inj, hid, true_and]
      by_cases hp : srv.port = port <;> simp [hp]
    · rw [if_neg (show ¬ srv.node = (node.remove port).id from hid)]
      simp [hid]

theorem removal_serverDel : ∃ ext, Removal s (serverDel node port bcast s) ext := by
  have htable := mem_table_serverDel hnode port bcast
  cases hl : node.servers.load port.toNat with
  | none =>
    have heq : serverDel node port bcast s = s := by simp [serverDel, hl]
    rw [heq]
    exact ⟨[], removal_refl s⟩
  | some x =>
    obtain ⟨hxnode, hxport, -⟩ := node.keyed _ x hl
    have hxport' : x.port = port := UInt32.toNat_inj.1 hxport
    have hxin : x ∈ s.table := (mem_table_of_load hnode hxnode).2 (hxport ▸ hl)
    have heq : serverDel node port bcast s = (s.putNode (node.remove port)).sendAll
        (announcement s (x.node = s.localNode ∧ bcast = true) (.delServer x) x) := by
      simp only [serverDel, hl, announcement]
      split_ifs with hb hb' hb' <;>
        first
        | simp only [notifyLookups_eq, serviceAnnounceDel, sendmsg_eq, sendAll_sendAll]; rfl
        | exact absurd hb hb'
        | exact absurd hb' hb
    rw [heq] at htable ⊢
    refine ⟨_, rfl, rfl, rfl, fun srv h => ((htable srv).1 h).1, fun dest srv h => ?_,
      fun dest srv h => ?_, fun l hlk srv hm hin hout => ?_⟩
    · cases (mem_announcement.1 h).1
    · obtain ⟨hsrv, hdest⟩ := mem_announcement.1 h
      cases hsrv
      exact ⟨fun hin => ((htable _).1 hin).2 ⟨hxnode, hxport'⟩, hdest.imp_left And.right⟩
    · have hkey : srv.node = node.id ∧ srv.port = port := by
        by_contra hkey
        exact hout ((htable srv).2 ⟨hin, hkey⟩)
      obtain rfl := eq_of_mem_table hin hxin (hkey.1.trans hxnode.symm) (hkey.2.trans hxport'.symm)
      exact mem_announcement.2 ⟨rfl, Or.inr ⟨l, hlk, rfl, hm⟩⟩

end

/-- What one handled packet does. Completeness of the deletions is stated apart, since
`server_add` can drop an entry without announcing it. -/
structure Effect (e : Event) (s s' : NsState) (ext : List Message) : Prop where
  sent : s'.sent = s.sent ++ ext
  localNode : s'.localNode = s.localNode
  newSound : ∀ dest srv, (dest, .newServer srv) ∈ ext → srv ∈ s'.table ∨ srv = emptyServer
  delSound : ∀ dest srv, (dest, .delServer srv) ∈ ext → srv ∉ s'.table
  lookups : ∀ l ∈ s'.lookups, l ∈ s.lookups ∨ e = (l.sq, .newLookup l.service l.inst) ∧
    l.since = s.sent.length ∧ l.sq.node = s.localNode ∧
    ∀ srv ∈ s'.table, l.Matches srv → (l.sq, .newServer srv) ∈ ext
  newComplete : ∀ l ∈ s.lookups, ∀ srv, l.Matches srv → srv ∈ s'.table → srv ∉ s.table →
    (l.sq, .newServer srv) ∈ ext

def DelComplete (s s' : NsState) (ext : List Message) : Prop :=
  ∀ l ∈ s.lookups, l ∈ s'.lookups → ∀ srv, l.Matches srv → srv ∈ s.table → srv ∉ s'.table →
    (l.sq, .delServer srv) ∈ ext

def Addressed (s' : NsState) (ext : List Message) : Prop :=
  ∀ dest srv, (dest, .newServer srv) ∈ ext ∨ (dest, .delServer srv) ∈ ext → srv ≠ emptyServer →
    dest = bcastSq ∨ ∃ l ∈ s'.lookups, l.sq = dest ∧ l.Matches srv

theorem load_serverDel (t : NsState) (n : Node) (port : UInt32) (bcast : Bool)
    (hid : n.id.toNat = id.toNat) (hn : t.nodes.load id.toNat = some n) :
    ∃ m, (serverDel n port bcast t).nodes.load id.toNat = some m := by
  cases hl : n.servers.load port.toNat with
  | none => exact ⟨n, by simp [serverDel, hl, hn]⟩
  | some x =>
    refine ⟨n.remove port, ?_⟩
    have hput : (t.putNode (n.remove port)).nodes.load id.toNat = some (n.remove port) := by
      simp [putNode, Node.remove, hid]
    simp only [serverDel, hl, notifyLookups_eq]
    split_ifs <;> exact hput

theorem byeLoop_spec (sq : SockaddrQrtr) (srvs : List Server) (t : NsState)
    (hnode : ∃ n, t.nodes.load sq.node.toNat = some n) :
    ∃ t', srvs.foldl (fun s x => serverDel (nodeGet sq.node s).1 x.port true s) t = t' ∧
      (∃ ext, Removal t t' ext) ∧ ∀ srv, srv ∈ t'.table ↔
        srv ∈ t.table ∧ ¬ (srv.node = sq.node ∧ ∃ x ∈ srvs, srv.port = x.port) := by
  induction srvs generalizing t with
  | nil => exact ⟨t, rfl, ⟨[], removal_refl t⟩, by simp⟩
  | cons x srvs ih =>
    obtain ⟨n, hn⟩ := hnode
    have hget : (nodeGet sq.node t).1 = n := by simp [nodeGet, hn]
    have hid : n.id.toNat = sq.node.toNat := t.keyed _ n hn
    have hload : t.nodes.load n.id.toNat = some n := by rw [hid, hn]
    obtain ⟨e₁, h₁⟩ := removal_serverDel hload x.port true
    obtain ⟨t', ht, ⟨e₂, h₂⟩, htable⟩ := ih _ (load_serverDel t n x.port true hid hn)
    refine ⟨t', by rw [foldl_cons, hget, ht], ⟨_, h₁.trans h₂⟩, fun srv => ?_⟩
    rw [htable, mem_table_serverDel hload, UInt32.toNat_inj.1 hid]
    simp only [mem_cons, exists_eq_or_imp, and_or_left, not_or, and_assoc]

theorem removal_ctrlCmdBye (sq : SockaddrQrtr) (s : NsState) :
    ∃ ext, Removal s (ctrlCmdBye sq s).2 ext := by
  obtain ⟨t, ht, ⟨e₁, h₁⟩, -⟩ := byeLoop_spec sq (nodeGet sq.node s).1.servers.values
    (nodeGet sq.node s).2 ⟨_, load_nodeGet sq.node s⟩
  obtain ⟨e₂, h₂⟩ := removal_advertise (.bye sq.node) t fun srv => ⟨by simp, by simp⟩
  rw [ctrlCmdBye, ht]
  exact ⟨_, ((removal_nodeGet sq.node s).trans h₁).trans h₂⟩

theorem removal_serverDel_nodeGet (s : NsState) (id port : UInt32) (bcast : Bool) :
    ∃ ext, Removal s (serverDel (nodeGet id s).1 port bcast (nodeGet id s).2) ext := by
  obtain ⟨ext, h⟩ := removal_serverDel (load_nodeGet_id id s) port bcast
  exact ⟨_, (removal_nodeGet id s).trans h⟩

theorem serverAdd_spec {port : UInt32} (h : serverAdd service inst id port s = some (srv, s')) :
    srv = ⟨service, inst, id, port⟩ ∧ s'.lookups = s.lookups ∧ s'.sent = s.sent ∧
      s'.localNode = s.localNode ∧
      ∀ x, x ∈ s'.table ↔ x = srv ∨ x ∈ s.table ∧ ¬ (x.node = id ∧ x.port = port) := by
  simp only [serverAdd] at h
  split_ifs at h with hzero
  obtain ⟨rfl, rfl⟩ := h
  have hget := removal_nodeGet id s
  have hid := nodeGet_id id s
  refine ⟨rfl, hget.lookups, hget.sent.trans (by simp), hget.localNode, fun x => ?_⟩
  rw [mem_table_putNode, ← mem_table_nodeGet s id x]
  by_cases hx : x.node = id
  · rw [if_pos (show x.node = (Node.add _ _ _ _ _).id from hx.trans hid.symm),
      mem_table_of_load (load_nodeGet_id id s) (hx.trans hid.symm)]
    simp only [Node.add, XArray.load_store, UInt32.toNat_inj, hx, true_and]
    by_cases hp : x.port = port
    · simp [hp, eq_comm]
    · have hne : x ≠ ⟨service, inst, id, port⟩ := fun he => hp (by rw [he])
      simp [hp, hne]
  · rw [if_neg (show ¬ x.node = (Node.add _ _ _ _ _).id from fun he => hx (he.trans hid))]
    have hne : x ≠ ⟨service, inst, id, port⟩ := fun he => hx (by rw [he])
    simp [hx, hne]

def step (s : NsState) (e : Event) : Option NsState := some (qrtrNsWorker s e.1 e.2).2

def serverKey (s : NsState) (sq : SockaddrQrtr) (node port : UInt32) : UInt32 × UInt32 :=
  if sq.node = s.localNode then (sq.node, sq.port) else (node, port)

theorem serverKey_eq (s : NsState) (sq : SockaddrQrtr) (node port : UInt32) :
    (if sq.node = s.localNode then sq.node else node) = (serverKey s sq node port).1 ∧
      (if sq.node = s.localNode then sq.port else port) = (serverKey s sq node port).2 := by
  simp only [serverKey]
  split_ifs <;> exact ⟨rfl, rfl⟩

/-- An accepted NEW_SERVER for a node and port whose present entry has another service or
instance, while some registered lookup matches that entry. -/
def ReplacesObserved (s : NsState) (e : Event) : Prop :=
  match e.2 with
  | .newServer service inst node port =>
    service ≠ 0 ∧ (serverKey s e.1 node port).2 ≠ 0 ∧
      ∃ old ∈ s.table, (old.node, old.port) = serverKey s e.1 node port ∧
        ¬ (old.service = service ∧ old.inst = inst) ∧ ∃ l ∈ s.lookups, l.Matches old
  | _ => False

instance (s : NsState) (e : Event) : Decidable (ReplacesObserved s e) := by
  unfold ReplacesObserved
  cases e.2 <;> exact inferInstance

/-- What a handled packet comes to: its deletions are announced completely exactly when it does
not replace an observed server, and all but HELLO notify matching lookups only. -/
def Handled (e : Event) (s s' : NsState) : Prop :=
  ∃ ext, Effect e s s' ext ∧ (DelComplete s s' ext ↔ ¬ ReplacesObserved s e) ∧
    (e.2 ≠ .hello → Addressed s' ext)

theorem Removal.handled {s₀ : NsState} (h : Removal s₀ s' ext) (hsent : s₀.sent = s.sent)
    (hlocal : s₀.localNode = s.localNode) (htable : s₀.table = s.table)
    (hlookups : ∀ l ∈ s₀.lookups, l ∈ s.lookups) (hno : ¬ ReplacesObserved s e) :
    Handled e s s' := by
  refine ⟨ext, ⟨hsent ▸ h.sent, h.localNode.trans hlocal, ?_, ?_, ?_, ?_⟩, iff_of_true ?_ hno, ?_⟩
  · exact fun dest srv hm => absurd hm (h.noNew dest srv)
  · exact fun dest srv hm => (h.sound dest srv hm).1
  · exact fun l hl => Or.inl (hlookups l (h.lookups ▸ hl))
  · exact fun l _ srv _ hin hout => absurd (htable ▸ h.table srv hin) hout
  · exact fun l _ hl' srv hm hin hout => h.complete l (h.lookups ▸ hl') srv hm (htable ▸ hin) hout
  · intro _ dest srv hm _
    rcases hm with hm | hm
    · exact absurd hm (h.noNew dest srv)
    · rw [h.lookups]
      exact (h.sound dest srv hm).2

theorem handled_ctrlCmdNewServer (s : NsState) (sq : SockaddrQrtr)
    (service inst node port : UInt32) : Handled (sq, .newServer service inst node port) s
      (ctrlCmdNewServer sq service inst node port s).2 := by
  obtain ⟨hk1, hk2⟩ := serverKey_eq s sq node port
  simp only [ctrlCmdNewServer, hk1, hk2]
  cases hadd : serverAdd service inst (serverKey s sq node port).1 (serverKey s sq node port).2 s with
  | none =>
    have hno : ¬ ReplacesObserved s (sq, .newServer service inst node port) := by
      rintro ⟨h1, h2, -⟩
      simp [serverAdd, h1, h2] at hadd
    exact (removal_refl s).handled rfl rfl rfl (fun _ h => h) hno
  | some r =>
    obtain ⟨srv, t⟩ := r
    obtain ⟨hsrv, hlookups, hsent, hlocal, htable⟩ := serverAdd_spec hadd
    have hnz : service ≠ 0 ∧ (serverKey s sq node port).2 ≠ 0 := by
      by_contra hz
      have : service = 0 ∨ (serverKey s sq node port).2 = 0 := by tauto
      simp [serverAdd, this] at hadd
    have heq : (notifyLookups srv true
        (if srv.node = t.localNode then serviceAnnounceNew bcastSq srv t else (0, t)).2) =
        t.sendAll (announcement t (srv.node = t.localNode) (.newServer srv) srv) := by
      simp only [announcement]
      split_ifs with hb <;>
        simp only [notifyLookups_eq, serviceAnnounceNew, sendmsg_eq, sendAll_sendAll] <;> rfl
    have hnodel : ∀ dest x, (dest, CtrlPkt.delServer x) ∉
        announcement t (srv.node = t.localNode) (.newServer srv) srv := by
      intro dest x h
      cases (mem_announcement.1 h).1
    simp only [heq]
    refine ⟨_, ⟨?_, hlocal, fun dest x h => ?_, fun dest x h => absurd h (hnodel dest x),
      fun l hl => Or.inl (hlookups ▸ hl), fun l hl x hm hin hout => ?_⟩, ?_, ?_⟩
    · simp [sendAll, hsent]
    · cases (mem_announcement.1 h).1
      exact Or.inl ((htable srv).2 (Or.inl rfl))
    · obtain rfl : x = srv := ((htable x).1 hin).resolve_right fun hx => hout hx.1
      exact mem_announcement.2 ⟨rfl, Or.inr ⟨l, hlookups ▸ hl, rfl, hm⟩⟩
    · constructor
      · rintro hdel ⟨-, -, old, hin, hold, hne, l, hl, hm⟩
        refine hnodel _ _ (hdel l hl (by simpa [sendAll, hlookups] using hl) old hm hin ?_)
        intro hin'
        rcases (htable old).1 hin' with rfl | ⟨-, hx⟩
        · exact hne ⟨by rw [hsrv], by rw [hsrv]⟩
        · exact hx (Prod.mk.injEq _ _ _ _ ▸ hold)
      · intro hno l hl _ x hm hin hout
        refine absurd ⟨hnz.1, hnz.2, x, hin, ?_, ?_, l, hl, hm⟩ hno
        · by_contra hkx
          exact hout ((htable x).2 (Or.inr ⟨hin, fun hx => hkx (Prod.ext hx.1 hx.2)⟩))
        · rintro ⟨h1, h2⟩
          refine hout ((htable x).2 ?_)
          by_cases hkx : x.node = (serverKey s sq node port).1 ∧
              x.port = (serverKey s sq node port).2
          · left
            rw [hsrv, ← h1, ← h2, ← hkx.1, ← hkx.2]
          · exact Or.inr ⟨hin, hkx⟩
    · intro _ dest x h _
      rcases h with h | h
      · obtain ⟨hx, hdest⟩ := mem_announcement.1 h
        cases hx
        exact hdest.imp_left And.right
      · exact absurd h (hnodel dest x)

/- What NEW_LOOKUP lists: the matching servers, and the empty one at the end. -/
theorem ctrlCmdNewLookup_eq (hlocal : sq.node = s.localNode) :
    (ctrlCmdNewLookup sq service inst s).2 =
      NsState.sendAll { s with lookups := s.lookups ++ [⟨service, inst, sq, s.sent.length⟩] }
        ((s.table.flatMap fun srv =>
          if serverMatch srv ⟨service, inst, 0⟩ then [(sq, .newServer srv)] else []) ++
          [(sq, .newServer emptyServer)]) := by
  have hinner : ∀ (u : NsState), ∀ n ∈ s.nodes.values, n.servers.values.foldl (fun s srv =>
      if serverMatch srv ⟨service, inst, 0⟩ then lookupNotify sq (some srv) true s else s) u =
      u.sendAll (n.servers.values.flatMap fun srv =>
        if serverMatch srv ⟨service, inst, 0⟩ then [(sq, .newServer srv)] else []) := by
    intro u n _
    refine foldl_sendAll _ _ _ fun v srv _ => ?_
    split_ifs
    · rfl
    · exact (sendAll_nil v).symm
  have houter := foldl_sendAll _ s.nodes.values
    { s with lookups := s.lookups ++ [⟨service, inst, sq, s.sent.length⟩] } hinner
  simp only [ctrlCmdNewLookup, ne_eq, hlocal, not_true_eq_false, if_false]
  simp only [lookupNotify, sendmsg_eq, ← sendAll_sendAll, table, flatMap_assoc]
  rw [← houter]
  rfl

theorem handled_ctrlCmdNewLookup (s : NsState) (sq : SockaddrQrtr) (service inst : UInt32) :
    Handled (sq, .newLookup service inst) s (ctrlCmdNewLookup sq service inst s).2 := by
  by_cases hlocal : sq.node = s.localNode
  · let lookup : Lookup := ⟨service, inst, sq, s.sent.length⟩
    let t : NsState := { s with lookups := s.lookups ++ [lookup] }
    let listing : List Message := s.table.flatMap fun srv =>
      if serverMatch srv ⟨service, inst, 0⟩ then [(sq, .newServer srv)] else []
    have heq : (ctrlCmdNewLookup sq service inst s).2 =
        t.sendAll (listing ++ [(sq, .newServer emptyServer)]) := ctrlCmdNewLookup_eq hlocal
    have hmem : ∀ m ∈ listing ++ [(sq, .newServer emptyServer)], m.1 = sq ∧
        ∃ srv, m.2 = .newServer srv ∧ (srv = emptyServer ∨ srv ∈ s.table ∧ lookup.Matches srv) := by
      intro m hm
      simp only [listing, mem_append, mem_flatMap, mem_singleton, mem_ite_nil_right] at hm
      rcases hm with ⟨x, hx, hm, rfl⟩ | rfl
      · exact ⟨rfl, x, rfl, Or.inr ⟨hx, (serverMatch_eq_lookupMatch lookup x).symm.trans hm⟩⟩
      · exact ⟨rfl, _, rfl, Or.inl rfl⟩
    rw [heq]
    refine ⟨_, ⟨rfl, rfl, ?_, ?_, ?_, ?_⟩, iff_of_true ?_ id, ?_⟩
    · intro dest srv h
      obtain ⟨-, x, hx, h⟩ := hmem _ h
      cases hx
      exact h.symm.imp_left And.left
    · intro dest srv h
      obtain ⟨-, x, hx, -⟩ := hmem _ h
      cases hx
    · intro l hl
      rcases mem_append.1 (show l ∈ s.lookups ++ [lookup] from hl) with hl | hl
      · exact Or.inl hl
      · rw [mem_singleton.1 hl]
        refine Or.inr ⟨rfl, rfl, hlocal, fun srv hsrv hm => mem_append_left _ ?_⟩
        refine mem_flatMap.2 ⟨srv, hsrv, ?_⟩
        rw [if_pos ((serverMatch_eq_lookupMatch lookup srv).trans hm)]
        exact mem_singleton.2 rfl
    · exact fun l _ srv _ hin hout => absurd hin hout
    · exact fun l _ _ srv _ hin hout => absurd hin hout
    · intro _ dest srv h hne
      rcases h with h | h <;> obtain ⟨hdest, x, hx, h⟩ := hmem _ h <;> cases hx
      exact Or.inr ⟨lookup, mem_append_right _ (mem_singleton.2 rfl), hdest.symm,
        (h.resolve_left hne).2⟩
  · have heq : (ctrlCmdNewLookup sq service inst s).2 = s := by simp [ctrlCmdNewLookup, hlocal]
    rw [heq]
    exact (removal_refl s).handled rfl rfl rfl (fun _ h => h) id

theorem ctrlCmdHello_eq (s : NsState) (sq : SockaddrQrtr) :
    (ctrlCmdHello sq s).2 = s.sendAll ((sq, .hello) :: s.nodes.values.flatMap fun n =>
      if n.id = sq.node then [] else
        n.servers.values.flatMap fun srv => [(sq, .newServer srv)]) := by
  have hloop : announceServers sq (sayHello sq s) = (sayHello sq s).sendAll
      (s.nodes.values.flatMap fun n => if n.id = sq.node then [] else
        n.servers.values.flatMap fun srv => [(sq, .newServer srv)]) := by
    refine foldl_sendAll _ _ _ fun u n _ => ?_
    split_ifs
    · exact (sendAll_nil u).symm
    · exact foldl_sendAll _ _ _ fun _ _ _ => rfl
  rw [ctrlCmdHello, hloop, sayHello, sendmsg_eq, sendAll_sendAll, singleton_append]

theorem handled_ctrlCmdHello (s : NsState) (sq : SockaddrQrtr) :
    Handled (sq, .hello) s (ctrlCmdHello sq s).2 := by
  let listing : List Message := s.nodes.values.flatMap fun n =>
    if n.id = sq.node then [] else n.servers.values.flatMap fun srv => [(sq, .newServer srv)]
  have heq : (ctrlCmdHello sq s).2 = s.sendAll ((sq, .hello) :: listing) := ctrlCmdHello_eq s sq
  have hmem : ∀ m ∈ (sq, CtrlPkt.hello) :: listing,
      m.2 = .hello ∨ ∃ srv ∈ s.table, m.2 = .newServer srv := by
    intro m hm
    simp only [listing, mem_cons, mem_flatMap] at hm
    rcases hm with rfl | ⟨n, hn, hm⟩
    · exact Or.inl rfl
    · split_ifs at hm
      · cases hm
      · simp only [mem_flatMap, mem_singleton] at hm
        obtain ⟨srv, hsrv, rfl⟩ := hm
        exact Or.inr ⟨srv, mem_flatMap.2 ⟨n, hn, hsrv⟩, rfl⟩
  rw [heq]
  refine ⟨_, ⟨rfl, rfl, ?_, ?_, ?_, ?_⟩, iff_of_true ?_ id, fun h => absurd rfl h⟩
  · intro dest srv h
    rcases hmem _ h with h | ⟨x, hx, h⟩ <;> cases h
    exact Or.inl hx
  · intro dest srv h
    rcases hmem _ h with h | ⟨x, hx, h⟩ <;> cases h
  · exact fun l hl => Or.inl hl
  · exact fun l _ srv _ hin hout => absurd hin hout
  · exact fun l _ _ srv _ hin hout => absurd hin hout

theorem handled_qrtrNsWorker (s : NsState) (e : Event) :
    Handled e s (qrtrNsWorker s e.1 e.2).2 := by
  obtain ⟨sq, cmd⟩ := e
  cases cmd with
  | hello => exact handled_ctrlCmdHello s sq
  | bye =>
    obtain ⟨ext, h⟩ := removal_ctrlCmdBye sq s
    exact h.handled rfl rfl rfl (fun _ h => h) id
  | delClient node port =>
    by_cases hspoof : sq.node ≠ node ∨ sq.node = s.localNode ∧ sq.port ≠ port
    · have heq : (ctrlCmdDelClient sq node port s).2 = s := by
        simp only [ctrlCmdDelClient]
        split_ifs <;> first | rfl | tauto
      simp only [qrtrNsWorker, heq]
      exact (removal_refl s).handled rfl rfl rfl (fun _ h => h) id
    · let t : NsState := { s with
        lookups := s.lookups.filter fun l => ¬ (l.sq.node = node ∧ l.sq.port = port) }
      obtain ⟨e₁, h₁⟩ := removal_serverDel_nodeGet t node port false
      obtain ⟨e₂, h₂⟩ := removal_advertise (.delClient node port)
        (serverDel (nodeGet node t).1 port false (nodeGet node t).2) fun srv => ⟨by simp, by simp⟩
      have heq : (ctrlCmdDelClient sq node port s).2 = advertise (.delClient node port)
          (serverDel (nodeGet node t).1 port false (nodeGet node t).2) := by
        simp only [ctrlCmdDelClient]
        split_ifs <;> first | rfl | tauto
      simp only [qrtrNsWorker, heq]
      exact (h₁.trans h₂).handled rfl rfl rfl (fun l h => (mem_filter.1 h).1) id
  | newServer service inst node port => exact handled_ctrlCmdNewServer s sq service inst node port
  | delServer service inst node port =>
    simp only [qrtrNsWorker, ctrlCmdDelServer]
    generalize (if sq.node = s.localNode then sq.node else node) = node'
    generalize (if sq.node = s.localNode then sq.port else port) = port'
    by_cases hspoof : sq.node = s.localNode ∧ sq.port ≠ port'
    · rw [if_pos hspoof]
      exact (removal_refl s).handled rfl rfl rfl (fun _ h => h) id
    · rw [if_neg hspoof]
      obtain ⟨ext, h⟩ := removal_serverDel_nodeGet s node' port' true
      exact h.handled rfl rfl rfl (fun _ h => h) id
  | exit | ping | resumeTx => exact (removal_refl s).handled rfl rfl rfl (fun _ h => h) id
  | newLookup service inst => exact handled_ctrlCmdNewLookup s sq service inst
  | delLookup service inst =>
    exact (removal_refl (ctrlCmdDelLookup sq service inst s)).handled rfl rfl rfl
      (fun l h => (mem_filter.1 h).1) id

def learn (known : Finset Server) : CtrlPkt → Finset Server
  | .newServer srv => if srv = emptyServer then known else insert srv known
  | .delServer srv => known.erase srv
  | _ => known

/-- The servers an observer knows after the packets `pkts`; the empty NEW_SERVER only marks
the end of a listing. -/
def replay (pkts : List CtrlPkt) : Finset Server := pkts.foldl learn ∅

theorem mem_learn {known : Finset Server} {pkt : CtrlPkt} : srv ∈ learn known pkt ↔
    pkt = .newServer srv ∧ srv ≠ emptyServer ∨ srv ∈ known ∧ pkt ≠ .delServer srv := by
  cases pkt with
  | newServer x =>
    simp only [learn]
    split_ifs <;> grind
  | delServer x => simp [learn, and_comm, eq_comm]
  | _ => simp [learn]

theorem replay_concat (pkts : List CtrlPkt) (pkt : CtrlPkt) :
    replay (pkts ++ [pkt]) = learn (replay pkts) pkt := by
  simp [replay]

theorem emptyServer_notMem_replay (pkts : List CtrlPkt) : emptyServer ∉ replay pkts := by
  induction pkts using List.reverseRecOn with
  | nil => simp [replay]
  | append_singleton pkts pkt ih => simp [replay_concat, mem_learn, ih]

def sentTo (sq : SockaddrQrtr) (msgs : List Message) : List CtrlPkt :=
  (msgs.filter fun m => m.1 = sq).map Prod.snd

def received (s : NsState) (l : Lookup) : List CtrlPkt := sentTo l.sq (s.sent.drop l.since)

theorem mem_sentTo {msgs : List Message} {pkt : CtrlPkt} :
    pkt ∈ sentTo sq msgs ↔ (sq, pkt) ∈ msgs := by
  simp [sentTo]

theorem mem_replay_of_no_del (hne : srv ≠ emptyServer) (pkts ext : List CtrlPkt)
    (h : .delServer srv ∉ ext) :
    srv ∈ replay (pkts ++ ext) ↔ srv ∈ replay pkts ∨ .newServer srv ∈ ext := by
  induction ext using List.reverseRecOn with
  | nil => simp
  | append_singleton ext pkt ih =>
    simp only [mem_append, mem_singleton, not_or] at h
    rw [← append_assoc, replay_concat, mem_learn, ih h.1, mem_append, mem_singleton]
    grind

theorem mem_replay_of_no_new (pkts ext : List CtrlPkt) (h : .newServer srv ∉ ext) :
    srv ∈ replay (pkts ++ ext) ↔ srv ∈ replay pkts ∧ .delServer srv ∉ ext := by
  induction ext using List.reverseRecOn with
  | nil => simp
  | append_singleton ext pkt ih =>
    simp only [mem_append, mem_singleton, not_or] at h
    rw [← append_assoc, replay_concat, mem_learn, ih h.1, mem_append, mem_singleton]
    grind

theorem mem_of_mem_replay_append (pkts ext : List CtrlPkt) (h : srv ∈ replay (pkts ++ ext)) :
    srv ∈ replay pkts ∨ .newServer srv ∈ ext := by
  by_cases hnew : .newServer srv ∈ ext
  · exact Or.inr hnew
  · exact Or.inl ((mem_replay_of_no_new pkts ext hnew).1 h).1

/-- Every registered lookup can tell the present servers it asked for from what its socket
received since the registration. -/
def ObserversAgree (s : NsState) : Prop :=
  ∀ l ∈ s.lookups, ∀ srv, l.Matches srv → (srv ∈ replay (received s l) ↔ srv ∈ s.table)

/-- The replay of everything the socket received is exactly the set of matching servers. -/
def ObserversExact (s : NsState) : Prop :=
  ∀ l ∈ s.lookups, ∀ srv, srv ∈ replay (received s l) ↔ srv ∈ s.table ∧ l.Matches srv

def Registered (s : NsState) : Prop :=
  ∀ l ∈ s.lookups, l.since ≤ s.sent.length ∧ l.sq.node = s.localNode

theorem received_of_le (hsent : s'.sent = s.sent ++ ext) (hl : l.since ≤ s.sent.length) :
    received s' l = received s l ++ sentTo l.sq ext := by
  rw [received, hsent, drop_append_of_le_length hl]
  simp [received, sentTo]

theorem received_of_eq (hl : l.since = s.sent.length) : received s l = [] := by
  simp [received, sentTo, hl]

theorem Effect.received (h : Effect e s s' ext) (hreg : Registered s) (hl : l ∈ s'.lookups) :
    NameService.received s' l = NameService.received s l ++ sentTo l.sq ext :=
  received_of_le h.sent ((h.lookups l hl).elim (fun hl => (hreg l hl).1) fun hl => hl.2.1.le)

theorem Effect.registered (h : Effect e s s' ext) (hs : Registered s) : Registered s' := by
  intro l hl
  have hlen : s.sent.length ≤ s'.sent.length := by simp [h.sent]
  rw [h.localNode]
  rcases h.lookups l hl with hl | ⟨-, hsince, hnode, -⟩
  · exact ⟨(hs l hl).1.trans hlen, (hs l hl).2⟩
  · exact ⟨hsince.le.trans hlen, hnode⟩

/-- From an agreeing state a handled packet leads to an agreeing state exactly when it
announced every matching entry it dropped. -/
theorem Effect.observersAgree_iff (h : Effect e s s' ext) (hreg : Registered s)
    (hs : ObserversAgree s) : ObserversAgree s' ↔ DelComplete s s' ext := by
  constructor
  · intro hs' l hl hl' srv hm hin hout
    by_contra hdel
    have hold := (hs l hl srv hm).2 hin
    have hnew := (hs' l hl' srv hm).not.2 hout
    rw [h.received hreg hl', mem_replay_of_no_del (ne_empty_of_mem_table hin) _ _
      (mem_sentTo.not.2 hdel)] at hnew
    exact hnew (Or.inl hold)
  · intro hdel l hl' srv hm
    by_cases hin : srv ∈ s'.table
    · have hne := ne_empty_of_mem_table hin
      have hnodel : .delServer srv ∉ sentTo l.sq ext := fun hmem =>
        h.delSound _ _ (mem_sentTo.1 hmem) hin
      refine iff_of_true ?_ hin
      rw [h.received hreg hl', mem_replay_of_no_del hne _ _ hnodel]
      rcases h.lookups l hl' with hl | ⟨-, -, -, hcover⟩
      · by_cases hold : srv ∈ s.table
        · exact Or.inl ((hs l hl srv hm).2 hold)
        · exact Or.inr (mem_sentTo.2 (h.newComplete l hl srv hm hin hold))
      · exact Or.inr (mem_sentTo.2 (hcover srv hin hm))
    · refine iff_of_false ?_ hin
      by_cases hne : srv = emptyServer
      · rw [hne]
        exact emptyServer_notMem_replay _
      · have hnonew : .newServer srv ∉ sentTo l.sq ext := by
          intro hmem
          rcases h.newSound _ _ (mem_sentTo.1 hmem) with hin' | he
          · exact hin hin'
          · exact hne he
        rw [h.received hreg hl', mem_replay_of_no_new _ _ hnonew]
        rcases h.lookups l hl' with hl | ⟨-, hsince, -, -⟩
        · rintro ⟨hold, hnodel⟩
          exact hnodel (mem_sentTo.2 (hdel l hl hl' srv hm ((hs l hl srv hm).1 hold) hin))
        · simp [received_of_eq hsince, replay]

def OnlyMatching (s : NsState) : Prop :=
  ∀ l ∈ s.lookups, ∀ srv ∈ replay (received s l), l.Matches srv

def OneFilter (s : NsState) : Prop :=
  ∀ l ∈ s.lookups, ∀ l' ∈ s.lookups, l.sq = l'.sq → l.service = l'.service ∧ l.inst = l'.inst

theorem observersExact_iff (h : OnlyMatching s) : ObserversExact s ↔ ObserversAgree s := by
  constructor
  · intro he l hl srv hm
    rw [he l hl srv]
    exact and_iff_left hm
  · intro ha l hl srv
    constructor
    · intro hr
      have hm := h l hl srv hr
      exact ⟨(ha l hl srv hm).1 hr, hm⟩
    · exact fun hr => (ha l hl srv hr.2).2 hr.1

def KeepsOneFilter (s : NsState) (e : Event) : Prop :=
  match e.2 with
  | .hello => False
  | .newLookup service inst => ∀ l ∈ s.lookups, l.sq = e.1 → l.service = service ∧ l.inst = inst
  | _ => True

instance (s : NsState) (e : Event) : Decidable (KeepsOneFilter s e) := by
  unfold KeepsOneFilter
  cases e.2 <;> exact inferInstance

theorem Effect.oneFilter (h : Effect e s s' ext) (hs : OneFilter s) (he : KeepsOneFilter s e) :
    OneFilter s' := by
  have hfresh : ∀ {a b : Lookup}, a ∈ s.lookups → e = (b.sq, .newLookup b.service b.inst) →
      a.sq = b.sq → a.service = b.service ∧ a.inst = b.inst := by
    intro a b ha hb hsq
    rw [hb] at he
    exact he a ha hsq
  intro l hl l' hl' hsq
  rcases h.lookups l hl with hl | ⟨hl, -⟩ <;> rcases h.lookups l' hl' with hl' | ⟨hl', -⟩
  · exact hs l hl l' hl' hsq
  · exact hfresh hl hl' hsq
  · obtain ⟨h1, h2⟩ := hfresh hl' hl hsq.symm
    exact ⟨h1.symm, h2.symm⟩
  · rw [hl] at hl'
    simp only [Prod.mk.injEq, Cmd.newLookup.injEq] at hl'
    exact hl'.2

theorem Effect.onlyMatching (h : Effect e s s' ext) (haddr : Addressed s' ext)
    (hreg : Registered s) (hone : OneFilter s') (hlocal : s.localNode ≠ QRTR_NODE_BCAST)
    (hs : OnlyMatching s) : OnlyMatching s' := by
  intro l hl' srv hr
  have hreg' := (h.registered hreg l hl').2
  have hmatch : .newServer srv ∈ sentTo l.sq ext → l.Matches srv := by
    intro hmem
    have hne : srv ≠ emptyServer := by
      rintro rfl
      exact emptyServer_notMem_replay _ hr
    rcases haddr _ _ (Or.inl (mem_sentTo.1 hmem)) hne with hb | ⟨m, hm, hsq, hmm⟩
    · rw [hb, h.localNode] at hreg'
      exact absurd hreg'.symm hlocal
    · obtain ⟨h1, h2⟩ := hone l hl' m hm hsq.symm
      simpa only [Lookup.Matches, lookupMatch, h1, h2] using hmm
  rw [h.received hreg hl'] at hr
  rcases mem_of_mem_replay_append _ _ hr with hr | hr
  · rcases h.lookups l hl' with hl | ⟨-, hsince, -⟩
    · exact hs l hl srv hr
    · simp [received_of_eq hsince, replay] at hr
  · exact hmatch hr

def AgreeAfter (s : NsState) (e : Event) : Prop := ObserversAgree (qrtrNsWorker s e.1 e.2).2

def ExactAfter (s : NsState) (e : Event) : Prop := ObserversExact (qrtrNsWorker s e.1 e.2).2

theorem agreeAfter_iff (hreg : Registered s) (hs : ObserversAgree s) (e : Event) :
    AgreeAfter s e ↔ ¬ ReplacesObserved s e := by
  obtain ⟨ext, heff, hdel, -⟩ := handled_qrtrNsWorker s e
  exact (heff.observersAgree_iff hreg hs).trans hdel

theorem registered_step {t : NsState} (hs : Registered s) (ht : step s e = some t) :
    Registered t := by
  obtain ⟨ext, heff, -⟩ := handled_qrtrNsWorker s e
  cases ht
  exact heff.registered hs

/-- In every run the observers agree with the table after each packet exactly when no
packet replaces an observed server by a different one. Where each socket keeps to one filter,
the replay of all it received is moreover the exact set of matching servers. -/
theorem observers_agree_with_table (localNode : UInt32) (events : List Event) :
    (Along step AgreeAfter (initial localNode) events ↔
      Along step (fun s e => ¬ ReplacesObserved s e) (initial localNode) events) ∧
    (localNode ≠ QRTR_NODE_BCAST → Along step KeepsOneFilter (initial localNode) events →
      (Along step ExactAfter (initial localNode) events ↔
        Along step (fun s e => ¬ ReplacesObserved s e) (initial localNode) events)) := by
  let I : NsState → Prop := fun s => Registered s ∧ ObserversAgree s
  have hI : I (initial localNode) := ⟨by simp [Registered, initial], by simp [ObserversAgree, initial]⟩
  have hagree : ∀ s e, I s → (AgreeAfter s e ↔ ¬ ReplacesObserved s e) :=
    fun s e hs => agreeAfter_iff hs.1 hs.2 e
  have hstep : ∀ s e t, I s → AgreeAfter s e → step s e = some t → I t := by
    intro s e t hs he ht
    refine ⟨registered_step hs.1 ht, ?_⟩
    cases ht
    exact he
  refine ⟨along_congr hagree hstep hI events, fun hlocal hone => ?_⟩
  let J : NsState → Prop := fun s =>
    I s ∧ OneFilter s ∧ OnlyMatching s ∧ s.localNode ≠ QRTR_NODE_BCAST
  have hJ : J (initial localNode) :=
    ⟨hI, by simp [OneFilter, initial], by simp [OnlyMatching, initial], hlocal⟩
  have hafter : ∀ s e, J s → KeepsOneFilter s e → OneFilter (qrtrNsWorker s e.1 e.2).2 ∧
      OnlyMatching (qrtrNsWorker s e.1 e.2).2 ∧
      (qrtrNsWorker s e.1 e.2).2.localNode ≠ QRTR_NODE_BCAST := by
    intro s e hs he
    obtain ⟨ext, heff, -, haddr⟩ := handled_qrtrNsWorker s e
    have hhello : e.2 ≠ .hello := by
      intro h
      simp [KeepsOneFilter, h] at he
    have hof := heff.oneFilter hs.2.1 he
    exact ⟨hof, heff.onlyMatching (haddr hhello) hs.1.1 hof hs.2.2.2 hs.2.2.1,
      heff.localNode ▸ hs.2.2.2⟩
  have hexact : ∀ s e, J s → (KeepsOneFilter s e ∧ ExactAfter s e ↔
      KeepsOneFilter s e ∧ ¬ ReplacesObserved s e) := fun s e hs => and_congr_right fun he =>
    (observersExact_iff (hafter s e hs he).2.1).trans (hagree s e hs.1)
  have hJstep : ∀ s e t, J s → KeepsOneFilter s e ∧ ExactAfter s e → step s e = some t → J t := by
    intro s e t hs he ht
    refine ⟨hstep s e t hs.1 ((hagree s e hs.1).2 ((hexact s e hs).1 he).2) ht, ?_⟩
    cases ht
    exact hafter s e hs he.1
  simpa only [along_and, hone, true_and] using along_congr hexact hJstep hJ events

/-- A lookup for service 5, a remote server of that service, its move to another port and
its removal: nothing observed is replaced, so every replay is exact. -/
theorem observers_exact_on_move :
    let events : List Event := [(⟨1, 100⟩, .newLookup 5 0), (⟨2, 7⟩, .newServer 5 1 2 7),
      (⟨2, 7⟩, .newServer 5 1 2 9), (⟨2, 7⟩, .delServer 5 1 2 7), (⟨2, 7⟩, .bye)]
    Along step ExactAfter (initial 1) events :=
  ((observers_agree_with_table 1 _).2 (by decide) (by decide)).2 (by decide)

/-- Socket 1:100 looks for service 5; a server of service 5 on 2:7 is replaced by one of
service 6 on the same port. The observer still knows the first, which is gone. -/
theorem replaced_server_stays_known :
    let events : List Event := [(⟨1, 100⟩, .newLookup 5 0), (⟨2, 7⟩, .newServer 5 1 2 7),
      (⟨2, 7⟩, .newServer 6 1 2 7)]
    Along step KeepsOneFilter (initial 1) events ∧
      ¬ Along step AgreeAfter (initial 1) events ∧ ¬ Along step ExactAfter (initial 1) events := by
  refine ⟨by decide, fun h => ?_, fun h => ?_⟩
  · have hagree := h.2.2.1 ⟨5, 0, ⟨1, 100⟩, 1⟩ (by decide) ⟨5, 1, 2, 7⟩ (by decide)
    exact absurd (hagree.1 (by decide)) (by decide)
  · have hexact := h.2.2.1 ⟨5, 0, ⟨1, 100⟩, 1⟩ (by decide) ⟨5, 1, 2, 7⟩
    exact absurd (hexact.1 (by decide)).1 (by decide)

end MsmKernel.Qrtr.NameService
