import Mathlib.Data.Fintype.Basic
import MsmKernel.Hab.Mimex

/-! Revocation of exported memory: an export that is taken back is not in use on the importing VM. -/
namespace MsmKernel.Hab.Mimex
open Run Function List Option

variable {V E C T : Type*}

/- No importer has an export mapped, or keeps a kernel dma-buf of it that was in use, once
`hab_mem_unexport` has succeeded for it. -/
def RevokeSafe (w : World V C T) : Prop :=
  ∀ exportId ∈ w.unexported,
    (∀ c, ∀ d ∈ w.impWhse c, d.exportId = exportId → d.importState ≠ .imported) ∧
    ∀ buf ∈ w.refused, buf.2 ≠ exportId

def Thread.holds : Thread V → Option Nat
  | .acked _ exportId _ | .importing _ exportId _ => some exportId
  | _ => none

def ToImporter.acks (exportId : Nat) : ToImporter V → Bool
  | .importAck _ id _ => id = exportId
  | _ => false

def ToExporter.requests (exportId : Nat) : ToExporter V → Bool
  | .importReq _ id _ => id = exportId
  | _ => false

def ToExporter.unimports (exportId : Nat) : ToExporter V → Bool
  | .unimport _ id => id = exportId
  | _ => false

def World.engaged (w : World V C T) (exportId : Nat) : Prop :=
  (∃ c, ∃ d ∈ w.impWhse c, d.exportId = exportId ∧ d.importState = .imported) ∨
  (∃ t, (w.threads t).holds = some exportId) ∨
  (∃ c, ∃ ack ∈ w.impRxq c, ack.exportId = exportId ∧ ack.impWhseAdded = true) ∨
  ∃ m ∈ w.toImporter, m.acks exportId

def World.quiet (w : World V C T) (exportId : Nat) : Prop :=
  ¬ w.engaged exportId ∧ ∀ m ∈ w.toExporter, ¬ m.requests exportId

/- The importing VM sends UNIMPORT only when no other import of the export is under way, and unmaps a
kernel dma-buf only when nobody uses it. -/
def Careful (link : Link V E C) (w : World V C T) : Event V T → Prop
  | .undoSend t =>
    match w.threads t with
    | .undoing _ exportId _ => w.quiet exportId
    | _ => True
  | .notify t =>
    match w.threads t with
    | .notifying _ exportId _ => w.quiet exportId
    | _ => True
  | .unmap t inUse =>
    match w.threads t with
    | .unmapping vchan _ => ¬ (link.kernel (link.impCtx vchan) ∧ inUse)
    | _ => True
  | .recvImporter env =>
    match w.toImporter with
    | .importAck _ exportId _ :: rest =>
      env.ackRecvd = false → { w with toImporter := rest }.quiet exportId
    | _ => True
  | _ => True

instance [Fintype C] [Fintype T] (w : World V C T) (exportId : Nat) :
    Decidable (w.engaged exportId) := by
  unfold World.engaged
  infer_instance

instance [Fintype C] [Fintype T] (w : World V C T) (exportId : Nat) :
    Decidable (w.quiet exportId) :=
  inferInstanceAs (Decidable (_ ∧ _))

instance [Fintype C] [Fintype T] (link : Link V E C) (w : World V C T) (e : Event V T) :
    Decidable (Careful link w e) := by
  unfold Careful
  split <;> try split
  all_goals infer_instance

/- `remote_imported` is set for the export and nothing on its way resets it. -/
def World.guarded (w : World V C T) (exportId : Nat) : Prop :=
  (∃ exp, w.exports exportId = some exp ∧ exp.remoteImported = true) ∧
  ∀ m ∈ w.toExporter, ¬ m.unimports exportId

structure Inv (w : World V C T) : Prop where
  guarded : ∀ exportId, w.engaged exportId → w.guarded exportId
  order : w.toExporter.Pairwise fun m m' => ∀ exportId, m.requests exportId → ¬ m'.unimports exportId
  gone : ∀ exportId ∈ w.unexported, w.exports exportId = none ∧ exportId < w.nextId
  fresh : ∀ exportId, w.nextId ≤ exportId → w.exports exportId = none
  refused : w.refused = []

theorem Inv.initial : Inv (World.initial : World V C T) where
  guarded exportId h := by simp [World.engaged, World.initial, Thread.holds] at h
  order := .nil
  gone := nofun
  fresh _ _ := rfl
  refused := rfl

theorem Inv.safe {w : World V C T} (hinv : Inv w) : RevokeSafe w := by
  intro exportId hgone
  refine ⟨fun c d hd hid himported => ?_, by simp [hinv.refused]⟩
  obtain ⟨⟨exp, hexp, _⟩, _⟩ := hinv.guarded exportId (.inl ⟨c, d, hd, hid, himported⟩)
  exact nomatch (hinv.gone exportId hgone).1.symm.trans hexp

theorem Inv.local {w w' : World V C T} (hinv : Inv w)
    (hengaged : ∀ exportId, w'.engaged exportId → w.engaged exportId)
    (hexports : w'.exports = w.exports) (hsent : w'.toExporter = w.toExporter)
    (hnext : w'.nextId = w.nextId) (hgone : w'.unexported = w.unexported)
    (hrefused : w'.refused = w.refused) : Inv w' where
  guarded exportId h := by
    have hguarded := hinv.guarded exportId (hengaged exportId h)
    rwa [World.guarded, hexports, hsent]
  order := hsent ▸ hinv.order
  gone := by
    rw [hgone, hexports, hnext]
    exact hinv.gone
  fresh := by
    rw [hexports, hnext]
    exact hinv.fresh
  refused := hrefused.trans hinv.refused

theorem engaged_of {w w' : World V C T}
    (hwhse : ∀ c, ∀ d ∈ w'.impWhse c, d.importState = .imported → w.engaged d.exportId)
    (hthreads : ∀ t exportId, (w'.threads t).holds = some exportId → w.engaged exportId)
    (hrxq : ∀ c, ∀ ack ∈ w'.impRxq c, ack.impWhseAdded = true → w.engaged ack.exportId)
    (hsent : ∀ m ∈ w'.toImporter, ∀ exportId, m.acks exportId → w.engaged exportId)
    (exportId : Nat) (h : w'.engaged exportId) : w.engaged exportId := by
  rcases h with ⟨c, d, hd, rfl, himported⟩ | ⟨t, ht⟩ | ⟨c, ack, hack, rfl, hadded⟩ | ⟨m, hm, hacks⟩
  · exact hwhse c d hd himported
  · exact hthreads t exportId ht
  · exact hrxq c ack hack hadded
  · exact hsent m hm exportId hacks

variable {th : Thread V} {c : C} {whse : List ExpDesc} {d : ExpDesc} {ack : ImportAck V}
  {m : ToExporter V} {inUse mapped : Bool} {exp : Export V}

section Parts
variable {w w' : World V C T}

theorem engaged_whse (h : w'.impWhse = w.impWhse) (c : C) (d : ExpDesc) (hd : d ∈ w'.impWhse c)
    (himported : d.importState = .imported) : w.engaged d.exportId :=
  .inl ⟨c, d, h ▸ hd, rfl, himported⟩

theorem engaged_threads (h : w'.threads = w.threads) (t : T) (exportId : Nat)
    (ht : (w'.threads t).holds = some exportId) : w.engaged exportId :=
  .inr (.inl ⟨t, h ▸ ht⟩)

theorem engaged_rxq (h : w'.impRxq = w.impRxq) (c : C) (ack : ImportAck V) (hack : ack ∈ w'.impRxq c)
    (hadded : ack.impWhseAdded = true) : w.engaged ack.exportId :=
  .inr (.inr (.inl ⟨c, ack, h ▸ hack, rfl, hadded⟩))

theorem engaged_sent (h : w'.toImporter = w.toImporter) (m : ToImporter V) (hm : m ∈ w'.toImporter)
    (exportId : Nat) (hacks : m.acks exportId) : w.engaged exportId :=
  .inr (.inr (.inr ⟨m, h ▸ hm, hacks⟩))

theorem engaged_setThread [DecidableEq T] {t : T} (hthreads : w'.threads = update w.threads t th)
    (hholds : ∀ exportId, th.holds = some exportId → w.engaged exportId) (t' : T) (exportId : Nat)
    (h : (w'.threads t').holds = some exportId) : w.engaged exportId := by
  rw [hthreads, update_apply] at h
  split_ifs at h with ht
  · exact hholds exportId h
  · exact .inr (.inl ⟨t', h⟩)

theorem engaged_setWhse [DecidableEq C] (hwhse : w'.impWhse = update w.impWhse c whse)
    (hnew : ∀ d ∈ whse, d.importState = .imported → w.engaged d.exportId) (c' : C) (d : ExpDesc)
    (hd : d ∈ w'.impWhse c') (himported : d.importState = .imported) : w.engaged d.exportId := by
  rw [hwhse, update_apply] at hd
  split_ifs at hd with hc
  · exact hnew d hd himported
  · exact .inl ⟨c', d, hd, rfl, himported⟩

theorem engaged_setRxq [DecidableEq C] {rxq : List (ImportAck V)}
    (hrxq : w'.impRxq = update w.impRxq c rxq)
    (hnew : ∀ ack ∈ rxq, ack.impWhseAdded = true → w.engaged ack.exportId) (c' : C)
    (ack : ImportAck V) (hack : ack ∈ w'.impRxq c') (hadded : ack.impWhseAdded = true) :
    w.engaged ack.exportId := by
  rw [hrxq, update_apply] at hack
  split_ifs at hack with hc
  · exact hnew ack hack hadded
  · exact .inr (.inr (.inl ⟨c', ack, hack, rfl, hadded⟩))

theorem engaged_setImportState {exportId : Nat} {importState : ExpDescState}
    (hd : d ∈ setImportState exportId importState (w.impWhse c))
    (hstate : importState = .imported → w.engaged exportId)
    (himported : d.importState = .imported) : w.engaged d.exportId := by
  obtain ⟨old, hold, rfl⟩ := mem_map.1 hd
  split_ifs at himported ⊢ with hid
  · subst hid
    exact hstate himported
  · exact .inl ⟨c, old, hold, rfl, himported⟩

theorem engaged_habRbRemove {exportId : Nat} (hd : d ∈ habRbRemove exportId (w.impWhse c))
    (himported : d.importState = .imported) : w.engaged d.exportId :=
  .inl ⟨c, d, mem_of_mem_eraseP hd, rfl, himported⟩

end Parts

section Ack
variable [DecidableEq V] {exportId : Nat} {vchan : V} {queue : List (ImportAck V)}

theorem mem_habImportAckFind (hack : ack ∈ (habImportAckFind exportId vchan queue).2) :
    ∃ old ∈ queue, old.exportId = ack.exportId ∧ old.impWhseAdded = ack.impWhseAdded := by
  induction queue with
  | nil => cases hack
  | cons head queue ih =>
    have htail : ack ∈ (habImportAckFind exportId vchan queue).2 →
        ∃ old ∈ head :: queue, old.exportId = ack.exportId ∧ old.impWhseAdded = ack.impWhseAdded :=
      fun h => let ⟨old, hold, hsame⟩ := ih h; ⟨old, mem_cons_of_mem head hold, hsame⟩
    simp only [habImportAckFind] at hack
    split_ifs at hack with hmatch hold
    · exact ⟨ack, mem_cons_of_mem head hack, rfl, rfl⟩
    · exact htail hack
    · rcases mem_cons.1 hack with rfl | hack
      · exact ⟨head, mem_cons_self, rfl, rfl⟩
      · exact htail hack

theorem habImportAckFind_added (hfound : (habImportAckFind exportId vchan queue).1 = some true) :
    ∃ ack ∈ queue, ack.exportId = exportId ∧ ack.impWhseAdded = true := by
  induction queue with
  | nil => cases hfound
  | cons head queue ih =>
    simp only [habImportAckFind] at hfound
    by_cases hmatch : head.exportId = exportId ∧ head.vchan = vchan
    · rw [if_pos hmatch] at hfound
      exact ⟨head, mem_cons_self, hmatch.1, some.inj hfound⟩
    · rw [if_neg hmatch] at hfound
      obtain ⟨ack, hack, hsame⟩ := ih hfound
      exact ⟨ack, mem_cons_of_mem head hack, hsame⟩

end Ack

section Importer
variable {link : Link V E C} {w : World V C T} {t : T} {vchan : V} {exportId sizebytes : Nat}

theorem inv_setThread [DecidableEq T] (hinv : Inv w)
    (hholds : ∀ id, th.holds = some id → w.engaged id) : Inv (w.setThread t th) :=
  hinv.local (engaged_of (engaged_whse rfl) (engaged_setThread rfl hholds) (engaged_rxq rfl)
    (engaged_sent rfl)) rfl rfl rfl rfl rfl

/-- A message to the exporting VM: UNIMPORT is sent only for an export that is not engaged. -/
theorem inv_sendExporter (hinv : Inv w) (hquiet : ∀ id, m.unimports id → w.quiet id) :
    Inv (w.sendExporter m) where
  guarded id h := by
    obtain ⟨hexp, hnone⟩ := hinv.guarded id h
    refine ⟨hexp, fun m' hm' => ?_⟩
    rcases mem_append.1 hm' with hm' | hm'
    · exact hnone m' hm'
    · rw [mem_singleton.1 hm']
      exact fun hun => (hquiet id hun).1 h
  order := by
    refine pairwise_append.2 ⟨hinv.order, pairwise_singleton _ _, ?_⟩
    intro m' hm' m'' hm'' id hreq
    rw [mem_singleton.1 hm'']
    exact fun hun => (hquiet id hun).2 m' hm' hreq
  gone := hinv.gone
  fresh := hinv.fresh
  refused := hinv.refused

theorem unimport_quiet (vchan : V) (hquiet : w.quiet exportId) (id : Nat)
    (hun : (ToExporter.unimport vchan exportId).unimports id) : w.quiet id := by
  obtain rfl : exportId = id := of_decide_eq_true hun
  exact hquiet

theorem habMemImport_inv [DecidableEq T] (hinv : Inv w) : Inv (habMemImport w t vchan exportId sizebytes) := by
  unfold habMemImport
  split_ifs
  · exact inv_setThread hinv nofun
  · exact inv_setThread hinv nofun
  · exact inv_setThread (inv_sendExporter hinv nofun) nofun

theorem inv_pushAck [DecidableEq C] (hinv : Inv w)
    (hadded : ack.impWhseAdded = true → w.engaged ack.exportId) : Inv (w.pushAck c ack) := by
  refine hinv.local (engaged_of (engaged_whse rfl) (engaged_threads rfl) (engaged_setRxq rfl ?_)
    (engaged_sent rfl)) rfl rfl rfl rfl rfl
  intro ack' hack' hadded'
  rcases mem_append.1 hack' with hold | hnew
  · exact .inr (.inr (.inl ⟨c, ack', hold, rfl, hadded'⟩))
  · obtain rfl := mem_singleton.1 hnew
    exact hadded hadded'

theorem recvImporter_inv [DecidableEq V] [DecidableEq C] {env : AckEnv} {m : ToImporter V}
    {rest : List (ToImporter V)} (hinv : Inv w) (hsent : w.toImporter = m :: rest)
    (hquiet : ∀ v id n, m = .importAck v id n → env.ackRecvd = false →
      ({ w with toImporter := rest }).quiet id) :
    Inv (recvImporter link { w with toImporter := rest } env m) := by
  have htail : ∀ id, ({ w with toImporter := rest } : World V C T).engaged id → w.engaged id :=
    engaged_of (engaged_whse rfl) (engaged_threads rfl) (engaged_rxq rfl)
      fun m' hm' id hacks => .inr (.inr (.inr ⟨m', hsent ▸ mem_cons_of_mem m hm', hacks⟩))
  have hinv' : Inv { w with toImporter := rest } := hinv.local htail rfl rfl rfl rfl rfl
  cases m with
  | importAck v id n =>
    have hacked : w.engaged id :=
      .inr (.inr (.inr ⟨.importAck v id n, hsent ▸ mem_cons_self, decide_eq_true rfl⟩))
    simp only [recvImporter, habReceiveExportDesc]
    split_ifs with hclosed hack hdup hinvalid
    · exact hinv'
    · exact inv_pushAck hinv' nofun
    · refine hinv.local (engaged_of (engaged_setWhse rfl fun d hd himported => ?_)
        (engaged_threads rfl) (engaged_setRxq rfl fun ack hack hadded => ?_)
        fun m' hm' id' hacks => htail id' (.inr (.inr (.inr ⟨m', hm', hacks⟩)))) rfl rfl rfl rfl rfl
      · rcases mem_append.1 hd with hold | hnew
        · exact .inl ⟨_, d, hold, rfl, himported⟩
        · rw [mem_singleton.1 hnew] at himported
          cases himported
      · rcases mem_append.1 hack with hold | hnew
        · exact .inr (.inr (.inl ⟨_, ack, hold, rfl, hadded⟩))
        · rw [mem_singleton.1 hnew]
          exact hacked
    · have hsend :=
        inv_sendExporter hinv' (unimport_quiet v (hquiet v id n rfl (by simpa using hack)))
      exact inv_pushAck hsend nofun
    · exact inv_sendExporter hinv' (unimport_quiet v (hquiet v id n rfl (by simpa using hack)))
  | importAckFail v id =>
    simp only [recvImporter]
    split_ifs
    · exact hinv'
    · exact inv_pushAck hinv' nofun
  | close v => exact hinv'.local (fun _ => id) rfl rfl rfl rfl rfl

variable [DecidableEq C] [DecidableEq T]

variable (hinv : Inv w)
include hinv

theorem inv_setWhse (hwhse : ∀ d ∈ whse, d.importState = .imported → w.engaged d.exportId)
    (hholds : ∀ id, th.holds = some id → w.engaged id) : Inv ((w.setWhse c whse).setThread t th) :=
  hinv.local (engaged_of (engaged_setWhse rfl hwhse) (engaged_setThread rfl hholds) (engaged_rxq rfl)
    (engaged_sent rfl)) rfl rfl rfl rfl rfl

theorem importAckLook_inv [DecidableEq V] :
    Inv (importAckLook link w t vchan exportId sizebytes) := by
  cases hfind : habImportAckFind exportId vchan (w.impRxq (link.impCtx vchan)) with
  | mk found queue =>
    have hqueue : ∀ ack ∈ queue, ack.impWhseAdded = true → w.engaged ack.exportId := by
      intro ack hack hadded
      rw [show queue = (habImportAckFind exportId vchan (w.impRxq (link.impCtx vchan))).2 from
        hfind ▸ rfl] at hack
      obtain ⟨old, hold, hid, hsame⟩ := mem_habImportAckFind hack
      exact .inr (.inr (.inl ⟨_, old, hold, hid, hsame.trans hadded⟩))
    have hthread : ∀ th : Thread V, (∀ id, th.holds = some id → w.engaged id) →
        Inv (({ w with impRxq := update w.impRxq (link.impCtx vchan) queue }).setThread t th) :=
      fun th hholds => hinv.local (engaged_of (engaged_whse rfl) (engaged_setThread rfl hholds)
        (engaged_setRxq rfl hqueue) (engaged_sent rfl)) rfl rfl rfl rfl rfl
    simp only [importAckLook, hfind]
    split_ifs
    · exact hthread _ nofun
    · cases found with
      | none =>
        exact hinv.local (engaged_of (engaged_whse rfl) (engaged_threads rfl)
          (engaged_setRxq rfl hqueue) (engaged_sent rfl)) rfl rfl rfl rfl rfl
      | some added =>
        cases added with
        | false => exact hthread _ nofun
        | true =>
          refine hthread _ fun id hid => ?_
          obtain ⟨ack, hack, hsame, hadded⟩ := habImportAckFind_added (congrArg Prod.fst hfind)
          exact .inr (.inr (.inl ⟨_, ack, hack, hsame.trans (some.inj hid), hadded⟩))

theorem importLookup_inv (hthread : w.threads t = .acked vchan exportId sizebytes) :
    Inv (importLookup link w t vchan exportId sizebytes) := by
  have hheld : w.engaged exportId := .inr (.inl ⟨t, by rw [hthread]; rfl⟩)
  unfold importLookup
  dsimp only
  split
  · exact inv_setThread hinv nofun
  · split_ifs
    · exact inv_setThread hinv nofun
    · exact inv_setWhse hinv (fun d hd => engaged_setImportState hd nofun)
        fun id hid => some.inj hid ▸ hheld

theorem importMap_inv (hthread : w.threads t = .importing vchan exportId sizebytes) :
    Inv (importMap link w t vchan exportId sizebytes mapped) := by
  have hheld : w.engaged exportId := .inr (.inl ⟨t, by rw [hthread]; rfl⟩)
  unfold importMap
  dsimp only
  split_ifs
  · exact inv_setWhse hinv (fun d hd => engaged_setImportState hd fun _ => hheld) nofun
  · exact inv_setWhse hinv (fun d hd => engaged_setImportState hd nofun) nofun

theorem habMemUnimport_inv : Inv (habMemUnimport link w t vchan exportId) := by
  unfold habMemUnimport
  dsimp only
  split
  · exact inv_setThread hinv nofun
  · split_ifs
    · exact inv_setWhse hinv (fun d hd => engaged_habRbRemove hd) nofun
    · exact inv_setThread hinv nofun

end Importer

section Exporter
variable {link : Link V E C} {w : World V C T} {vchan : V} {exportId : Nat}

/-- An export is changed; `remote_imported` is reset only if the export is not engaged. -/
theorem inv_setExport {exp : Option (Export V)} (hinv : Inv w)
    (hbit : w.engaged exportId → ∃ new, exp = some new ∧ new.remoteImported = true)
    (hnone : w.exports exportId = none → exp = none) : Inv (w.setExport exportId exp) where
  guarded id h := by
    obtain ⟨hold, hnone⟩ := hinv.guarded id h
    refine ⟨?_, hnone⟩
    by_cases hid : id = exportId
    · subst hid
      obtain ⟨new, rfl, hnew⟩ := hbit h
      exact ⟨new, update_self .., hnew⟩
    · obtain ⟨old, hold, hset⟩ := hold
      exact ⟨old, (update_of_ne hid ..).trans hold, hset⟩
  order := hinv.order
  gone id hid := by
    obtain ⟨hgone, hlt⟩ := hinv.gone id hid
    refine ⟨?_, hlt⟩
    simp only [World.setExport, update_apply]
    split_ifs with heq
    · exact hnone (heq ▸ hgone)
    · exact hgone
  fresh id hid := by
    simp only [World.setExport, update_apply]
    split_ifs with heq
    · exact hnone (heq ▸ hinv.fresh id hid)
    · exact hinv.fresh id hid
  refused := hinv.refused

/-- A message to the importing VM: IMPORT_ACK is sent only for an export that is guarded. -/
theorem inv_sendImporter {m : ToImporter V} (hinv : Inv w)
    (hacks : ∀ id, m.acks id → w.guarded id) : Inv (w.sendImporter m) := by
  refine { hinv with guarded := fun id h => ?_ }
  rcases h with hwhse | hthread | hrxq | ⟨m', hm', hacks'⟩
  · exact hinv.guarded id (.inl hwhse)
  · exact hinv.guarded id (.inr (.inl hthread))
  · exact hinv.guarded id (.inr (.inr (.inl hrxq)))
  · rcases mem_append.1 hm' with hold | hnew
    · exact hinv.guarded id (.inr (.inr (.inr ⟨m', hold, hacks'⟩)))
    · rw [mem_singleton.1 hnew] at hacks'
      exact hacks id hacks'

variable (hinv : Inv w)
include hinv

theorem Inv.bit (hexp : w.exports exportId = some exp) (h : w.engaged exportId) :
    exp.remoteImported = true := by
  obtain ⟨⟨exp', hexp', hset⟩, _⟩ := hinv.guarded exportId h
  cases hexp.symm.trans hexp'
  exact hset

theorem inv_grant {payloadCount : Nat} :
    Inv { w.setExport w.nextId (some ⟨vchan, payloadCount, .exporting, false, false⟩) with
      nextId := w.nextId + 1 } := by
  have hne : ∀ id, w.exports id ≠ none → id ≠ w.nextId := by
    rintro id hsome rfl
    exact hsome (hinv.fresh _ le_rfl)
  refine ⟨fun id h => ?_, hinv.order, fun id hid => ?_, fun id hid => ?_, hinv.refused⟩
  · obtain ⟨⟨exp, hexp, hset⟩, hnone⟩ := hinv.guarded id h
    have hid := hne id (by simp [hexp])
    exact ⟨⟨exp, (update_of_ne hid ..).trans hexp, hset⟩, hnone⟩
  · obtain ⟨hgone, hlt⟩ := hinv.gone id hid
    exact ⟨(update_of_ne (Nat.ne_of_lt hlt) ..).trans hgone, Nat.lt_succ_of_lt hlt⟩
  · have hid' : w.nextId < id := hid
    exact (update_of_ne (Nat.ne_of_gt hid') ..).trans (hinv.fresh id hid'.le)

theorem inv_dropExport (hexp : w.exports exportId = some exp) (hbit : exp.remoteImported = false) :
    Inv (w.setExport exportId none) := by
  refine inv_setExport hinv (fun h => ?_) fun _ => rfl
  exact nomatch hbit.symm.trans (hinv.bit hexp h)

theorem habMemUnexport_inv [DecidableEq E] {revoke : Bool} :
    Inv (habMemUnexport link w vchan exportId revoke) := by
  unfold habMemUnexport
  split
  · exact hinv
  · next exp hexp =>
    split_ifs with hcond hrevoke
    · have hdrop := inv_dropExport hinv hexp hcond.2.2
      have hlt : exportId < w.nextId := by
        by_contra hge
        exact nomatch hexp.symm.trans (hinv.fresh exportId (Nat.le_of_not_lt hge))
      refine { hdrop with gone := fun id hid => ?_ }
      rcases mem_cons.1 hid with rfl | hid
      · exact ⟨update_self .., hlt⟩
      · exact hdrop.gone id hid
    · exact inv_dropExport hinv hexp hcond.2.2
    · exact hinv

theorem ctxFreeExport_inv [DecidableEq E] [Fintype V] {w' : World V C T}
    (hfree : ctxFreeExport link w exportId = some w') : Inv w' := by
  simp only [ctxFreeExport, bind_eq_some_iff, ite_none_right_eq_some, some.injEq] at hfree
  obtain ⟨exp, hexp, _, rfl⟩ := hfree
  split_ifs with hbit
  · exact inv_setExport hinv (fun _ => ⟨_, rfl, hbit⟩) fun hnone => nomatch hexp.symm.trans hnone
  · exact inv_dropExport hinv hexp (by simpa using hbit)

theorem recvExporter_inv [DecidableEq V] {rest : List (ToExporter V)}
    (hsent : w.toExporter = m :: rest) : Inv (recvExporter { w with toExporter := rest } m) := by
  have horder := hsent ▸ hinv.order
  have hinv' : Inv { w with toExporter := rest } := by
    refine { hinv with guarded := fun id h => ?_, order := horder.of_cons }
    obtain ⟨hexp, hnone⟩ := hinv.guarded id h
    exact ⟨hexp, fun m' hm' => hnone m' (hsent ▸ mem_cons_of_mem m hm')⟩
  cases m with
  | importReq v id n =>
    have hbehind : ∀ m' ∈ rest, ¬ m'.unimports id := fun m' hm' =>
      rel_of_pairwise_cons horder hm' id (decide_eq_true rfl)
    have hreq : Inv (habRecvImpReq { w with toExporter := rest } v id n) := by
      unfold habRecvImpReq
      split
      · exact inv_sendImporter hinv' nofun
      · next exp hexp =>
        split_ifs
        · refine inv_sendImporter (inv_setExport hinv' (fun _ => ⟨_, rfl, rfl⟩)
            fun hnone => nomatch hexp.symm.trans hnone) fun id' hacks => ?_
          obtain rfl : id = id' := of_decide_eq_true hacks
          exact ⟨⟨_, update_self .., rfl⟩, hbehind⟩
        · exact inv_sendImporter hinv' nofun
    simp only [recvExporter]
    split
    · exact hreq
    · exact hinv'
    · exact hinv'
  | unimport v id =>
    -- an UNIMPORT on its way shows that the export is not engaged
    have hidle : ¬ w.engaged id := fun h =>
      (hinv.guarded id h).2 (.unimport v id) (hsent ▸ mem_cons_self) (decide_eq_true rfl)
    have hreset : Inv (habRecvUnimportMsg { w with toExporter := rest } id) := by
      unfold habRecvUnimportMsg
      split
      · exact hinv'
      · next exp hexp =>
        exact inv_setExport hinv' (fun h => absurd h hidle) fun hnone => nomatch hexp.symm.trans hnone
    simp only [recvExporter]
    split
    · exact hreset
    · exact hreset
    · exact hinv'

end Exporter

section Step
variable [DecidableEq V] [DecidableEq E] [DecidableEq C] [DecidableEq T] [Fintype V]
  {link : Link V E C} {w w' : World V C T}

theorem step_inv {e : Event V T} (hinv : Inv w) (hok : Careful link w e)
    (hstep : step link w e = some w') : Inv w' := by
  cases e with
  | grant vchan payloadCount =>
    simp only [step, ite_none_right_eq_some, some.injEq] at hstep
    obtain ⟨_, rfl⟩ := hstep
    exact inv_grant hinv
  | exported exportId =>
    simp only [step, map_eq_some_iff] at hstep
    obtain ⟨exp, hexp, rfl⟩ := hstep
    refine inv_setExport hinv (fun h => ?_) fun hnone => nomatch hexp.symm.trans hnone
    have hset := hinv.bit hexp h
    exact ⟨_, rfl, hset⟩
  | memUnexport vchan exportId revoke =>
    simp only [step, ite_none_right_eq_some, some.injEq] at hstep
    obtain ⟨_, rfl⟩ := hstep
    exact habMemUnexport_inv hinv
  | vchanStop vchan =>
    simp only [step, ite_none_right_eq_some, some.injEq] at hstep
    obtain ⟨_, rfl⟩ := hstep
    exact inv_sendImporter (hinv.local (fun _ => id) rfl rfl rfl rfl rfl) nofun
  | vchanFree vchan =>
    simp only [step, ite_none_right_eq_some, some.injEq] at hstep
    obtain ⟨_, rfl⟩ := hstep
    exact hinv.local (fun _ => id) rfl rfl rfl rfl rfl
  | ctxFree exportId => exact ctxFreeExport_inv hinv hstep
  | reclaimCleanup exportId =>
    simp only [step, bind_eq_some_iff, ite_none_right_eq_some, some.injEq] at hstep
    obtain ⟨exp, hexp, ⟨_, hbit⟩, rfl⟩ := hstep
    exact inv_dropExport hinv hexp hbit
  | recvExporter =>
    cases hsent : w.toExporter with
    | nil => simp [step, hsent] at hstep
    | cons m rest =>
      simp only [step, hsent, some.injEq] at hstep
      exact hstep ▸ recvExporter_inv hinv hsent
  | recvImporter env =>
    cases hsent : w.toImporter with
    | nil => simp [step, hsent] at hstep
    | cons m rest =>
      simp only [step, hsent, some.injEq] at hstep
      refine hstep ▸ recvImporter_inv hinv hsent ?_
      rintro v id n rfl hack
      simp only [Careful, hsent] at hok
      exact hok hack
  -- a thread takes only the step that its state allows
  | memImport t vchan exportId sizebytes =>
    cases hthread : w.threads t <;>
      simp only [step, hthread, reduceCtorEq, some.injEq] at hstep
    exact hstep ▸ habMemImport_inv hinv
  | ackLook t =>
    cases hthread : w.threads t <;>
      simp only [step, hthread, reduceCtorEq, some.injEq] at hstep
    exact hstep ▸ importAckLook_inv hinv
  | ackGiveUp t =>
    cases hthread : w.threads t <;>
      simp only [step, hthread, reduceCtorEq, some.injEq] at hstep
    exact hstep ▸ inv_setThread hinv nofun
  | lookup t =>
    cases hthread : w.threads t <;>
      simp only [step, hthread, reduceCtorEq, some.injEq] at hstep
    exact hstep ▸ importLookup_inv hinv hthread
  | map t mapped =>
    cases hthread : w.threads t <;>
      simp only [step, hthread, reduceCtorEq, some.injEq] at hstep
    exact hstep ▸ importMap_inv hinv hthread
  | undoSend t | notify t =>
    cases hthread : w.threads t <;>
      simp only [step, hthread, reduceCtorEq, some.injEq] at hstep
    simp only [Careful, hthread] at hok
    exact hstep ▸ inv_setThread (inv_sendExporter hinv (unimport_quiet _ hok)) nofun
  | undoRemove t =>
    cases hthread : w.threads t <;>
      simp only [step, hthread, reduceCtorEq, some.injEq] at hstep
    exact hstep ▸ inv_setWhse hinv (fun d hd => engaged_habRbRemove hd) nofun
  | memUnimport t vchan exportId =>
    cases hthread : w.threads t <;>
      simp only [step, hthread, reduceCtorEq, some.injEq] at hstep
    exact hstep ▸ habMemUnimport_inv hinv
  | unmap t inUse =>
    cases hthread : w.threads t <;>
      simp only [step, hthread, reduceCtorEq, some.injEq] at hstep
    simp only [Careful, hthread] at hok
    rw [impHypUnmap, if_neg hok] at hstep
    exact hstep ▸ inv_setThread hinv nofun

/-- In every run in which UNIMPORT is sent only while no other import of the export is under way and
no dma-buf in use is unmapped, an export for which `hab_mem_unexport` has succeeded is imported
nowhere. -/
theorem revoked_memory_is_unused (link : Link V E C) {es : List (Event V T)} {w : World V C T}
    (hok : Along (step link) (Careful link) World.initial es)
    (hrun : run (step link) World.initial es = some w) : RevokeSafe w := by
  have hinv : Inv w :=
    run_invariant (fun _ _ _ hinv hok hstep => step_inv hinv hok hstep) Inv.initial hok hrun
  exact hinv.safe

end Step

def kernelLink : Link Unit Unit Unit := ⟨fun _ => (), fun _ => (), fun _ => true⟩

def exportPage : List (Event Unit Bool) := [.grant () 1, .exported 1]

def importPage (t : Bool) : List (Event Unit Bool) :=
  [.memImport t () 1 4096, .recvExporter, .recvImporter ⟨true, true⟩, .ackLook t, .lookup t,
    .map t true]

def unimportPage (t : Bool) : List (Event Unit Bool) :=
  [.memUnimport t () 1, .unmap t false, .notify t, .recvExporter]

def importTwice : List (Event Unit Bool) :=
  exportPage ++ importPage true ++ unimportPage true ++ importPage false ++
    [.memUnexport () 1 true] ++ unimportPage false ++ [.memUnexport () 1 true]

theorem revoked_after_two_imports :
    ∃ w, run (step kernelLink) World.initial importTwice = some w ∧ 1 ∈ w.unexported ∧
      RevokeSafe w :=
  exists_run_and (by decide +kernel) fun _ hrun _ =>
    revoked_memory_is_unused kernelLink (by decide +kernel) hrun

def unmapRefused : List (Event Unit Bool) :=
  exportPage ++ importPage true ++
    [.memUnimport true () 1, .unmap true true, .notify true, .recvExporter, .memUnexport () 1 true]

def importOverlaps : List (Event Unit Bool) :=
  exportPage ++ importPage true ++ [.memUnimport true () 1, .unmap true false] ++ importPage false ++
    [.notify true, .recvExporter, .memUnexport () 1 true]

/-- `hab_mem_unexport` succeeds although a dma-buf in use has not been unmapped, and although another
thread has imported the export again. -/
theorem revokes_memory_in_use :
    (∃ w, run (step kernelLink) World.initial unmapRefused = some w ∧ ¬ RevokeSafe w) ∧
    ∃ w, run (step kernelLink) World.initial importOverlaps = some w ∧ ¬ RevokeSafe w := by
  have hrefused : ∃ w, run (step kernelLink) World.initial unmapRefused = some w ∧
      (1 ∈ w.unexported ∧ w.refused = [((), 1)]) := exists_run_of_map (by decide +kernel)
  have hoverlaps : ∃ w, run (step kernelLink) World.initial importOverlaps = some w ∧
      (1 ∈ w.unexported ∧ w.impWhse () = [⟨1, 1, .imported⟩]) := exists_run_of_map (by decide +kernel)
  constructor
  · obtain ⟨w, hrun, hgone, hbuf⟩ := hrefused
    refine ⟨w, hrun, fun hsafe => (hsafe 1 hgone).2 ((), 1) ?_ rfl⟩
    rw [hbuf]
    exact mem_singleton_self _
  · obtain ⟨w, hrun, hgone, hdesc⟩ := hoverlaps
    refine ⟨w, hrun, fun hsafe => (hsafe 1 hgone).1 () ⟨1, 1, .imported⟩ ?_ rfl rfl⟩
    rw [hdesc]
    exact mem_singleton_self _

end MsmKernel.Hab.Mimex
