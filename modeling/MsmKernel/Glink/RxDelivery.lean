import Mathlib.Data.List.Basic
import MsmKernel.Glink.Rx

/-! Every message is delivered once, whole and in order, as long as no message begins on a channel
without intents whose last one went to the thread, and a channel with intents delivers in the
interrupt handler only while its thread has no message in hand. -/

namespace MsmKernel.Glink.Rx

open Run Function List Option

variable {cfg : Config} {w w' : World} {p q k left iters : Nat} {bytes : List UInt8} {txOk : Bool}

def Intent.message? (i : Intent) : Option (List UInt8) :=
  if i.hasData ∧ i.cbIrqDone = false then some i.filled else none

open Intent

def World.undelivered (w : World) : List (List UInt8) :=
  (match w.thread with
    | some (p, .deliver) => [(w.heap p).filled]
    | _ => []) ++ w.rxQueue.filterMap fun p => (w.heap p).message?

open World

/-- No freed buffer was touched, and the callbacks made and still to be made are the completed
messages in their order. -/
def DeliveredInOrder (w : World) : Prop :=
  w.fault = false ∧ w.delivered ++ w.undelivered = w.completed

instance (w : World) : Decidable (DeliveredInOrder w) := inferInstanceAs (Decidable (_ ∧ _))

/-- A message begins on a channel without intents only while no buffer is left from an earlier one;
on a channel with intents no message is delivered in the handler while the thread holds one. -/
def Orderly (cfg : Config) (w : World) : Event → Prop
  | .chunk _ _ left iters _ =>
    if cfg.intentless then w.use 0 = .free → w.buf = none
    else left = 0 → cfg.cbIrq = true → iters < GLINK_IRQ_ITERATION_LIMITS → w.rxQueue = [] →
      w.thread.map (·.2) ≠ some .deliver
  | _ => True

instance (cfg : Config) (w : World) (e : Event) : Decidable (Orderly cfg w e) := by
  cases e <;> (dsimp only [Orderly]; infer_instance)

def World.holds (w : World) : Option Nat := w.thread.map (·.1)

/-- An intent that is queued, or that the thread has in hand. -/
structure Held (w : World) (p : Nat) : Prop where
  lt : p < w.next
  live : (w.heap p).freed = false
  data : (w.heap p).hasData = true → (w.heap p).id ≠ 0 ∧
    ((w.heap p).reuse = true → w.liids (w.heap p).id = some p)
  request : (w.heap p).hasData = false → (w.heap p).id = 0 ∧ (w.heap p).filled = [] ∧
    (w.heap p).cbIrqDone = false
  thread : w.holds = some p → (w.heap p).hasData = true ∧ (w.heap p).cbIrqDone = false ∧
    p ∉ w.rxQueue

/-- An intent the remote may write to: it holds the earlier chunks of its message. -/
structure Reached (w : World) (k p size : Nat) (reuse : Bool) (sofar : List UInt8) : Prop where
  liid : w.liids k = some p
  heap : w.heap p = ⟨k, size, sofar, reuse, true, false, false⟩
  ne : k ≠ 0
  queue : p ∉ w.rxQueue
  thread : w.holds ≠ some p

def RemoteOk (w : World) (k : Nat) : Use → Prop
  | .free => ∃ p size reuse, Reached w k p size reuse []
  | .filling sofar left => ∃ p size reuse, Reached w k p size reuse sofar ∧
      sofar.length + left ≤ size
  | _ => True

structure Inv (w : World) : Prop where
  ids : ∀ p q, (w.heap p).id = (w.heap q).id → (w.heap p).id ≠ 0 → p = q
  idLt : ∀ p, (w.heap p).id < w.nextId
  unborn : ∀ p, w.next ≤ p → (w.heap p).id = 0
  nodup : w.rxQueue.Nodup
  held : ∀ p, p ∈ w.rxQueue ∨ w.holds = some p → Held w p
  remote : ∀ k, RemoteOk w k (w.use k)
  order : DeliveredInOrder w

variable {i : Intent} {w₁ : World} {u : Use} {size : Nat} {reuse : Bool} {sofar : List UInt8}

/-- A step that works on one intent, which keeps its id or gets a new one. -/
structure Puts (w w' : World) (p : Nat) : Prop where
  heap : ∀ q ≠ p, w'.heap q = w.heap q
  id : (w'.heap p).id = (w.heap p).id ∧ w'.nextId = w.nextId ∨
    (w.heap p).id = 0 ∧ (w'.heap p).id = w.nextId ∧ w'.nextId = w.nextId + 1
  liids : ∀ k ≠ (w'.heap p).id, w'.liids k = w.liids k
  use : ∀ k ≠ (w'.heap p).id, w'.use k = w.use k
  next : w.next ≤ w'.next ∧ p < w'.next
  queue : w'.rxQueue.Nodup ∧ ∀ q ≠ p, q ∈ w'.rxQueue → q ∈ w.rxQueue
  thread : ∀ q ≠ p, w'.holds = some q → w.holds = some q
  held : p ∈ w'.rxQueue ∨ w'.holds = some p → Held w' p
  remote : RemoteOk w' (w'.heap p).id (w'.use (w'.heap p).id)
  order : DeliveredInOrder w'

theorem RemoteOk.frame (h : RemoteOk w k u)
    (hreached : ∀ p size reuse sofar, Reached w k p size reuse sofar →
      Reached w' k p size reuse sofar) : RemoteOk w' k u := by
  cases u with
  | free =>
    obtain ⟨p, size, reuse, hr⟩ := h
    exact ⟨p, size, reuse, hreached _ _ _ _ hr⟩
  | filling sofar left =>
    obtain ⟨p, size, reuse, hr, hfit⟩ := h
    exact ⟨p, size, reuse, hreached _ _ _ _ hr, hfit⟩
  | absent => trivial
  | busy => trivial

theorem Inv.put (hI : Inv w) (h : Puts w w' p) : Inv w' where
  ids a b heq hne := by
    have hids := hI.ids
    have hidLt := hI.idLt
    have hheap := h.heap
    have hid := h.id
    grind
  idLt q := by
    have hidLt := hI.idLt
    have hheap := h.heap
    have hid := h.id
    grind
  unborn q hq := by
    have hnext := h.next
    rw [h.heap q (by omega)]
    exact hI.unborn q (by omega)
  nodup := h.queue.1
  held q hq := by
    by_cases hqp : q = p
    · exact hqp ▸ h.held (hqp ▸ hq)
    · have hold := hI.held q (hq.imp (h.queue.2 q hqp) (h.thread q hqp))
      refine ⟨Nat.lt_of_lt_of_le hold.lt h.next.1, ?_, fun hdata => ?_, ?_, fun hthread => ?_⟩
      · exact h.heap q hqp ▸ hold.live
      · rw [h.heap q hqp] at hdata ⊢
        obtain ⟨hne, hreuse⟩ := hold.data hdata
        refine ⟨hne, fun hr => (h.liids _ fun heq => ?_).trans (hreuse hr)⟩
        rcases h.id with hid | hid
        · exact hqp (hI.ids q p (heq.trans hid.1) hne)
        · exact Nat.ne_of_lt (hI.idLt q) (heq.trans hid.2.1)
      · exact h.heap q hqp ▸ hold.request
      · obtain ⟨hdata, hirq, hnot⟩ := hold.thread (h.thread q hqp hthread)
        rw [h.heap q hqp]
        exact ⟨hdata, hirq, fun hin => hnot (h.queue.2 q hqp hin)⟩
  remote k := by
    by_cases hk : k = (w'.heap p).id
    · exact hk ▸ h.remote
    · rw [h.use k hk]
      refine (hI.remote k).frame fun q size reuse sofar hr => ?_
      have hqp : q ≠ p := by
        rintro rfl
        have hid := h.id
        have hne := hr.ne
        simp only [hr.heap] at hid
        omega
      exact ⟨(h.liids k hk).trans hr.liid, (h.heap q hqp).trans hr.heap, hr.ne,
        fun hin => hr.queue (h.queue.2 q hqp hin), fun hin => hr.thread (h.thread q hqp hin)⟩
  order := h.order

theorem touch_eq (h : (w.heap p).freed = false) : w.touch p = w := by
  simp [touch, h]

theorem filterMap_update {l : List Nat} (heap : Nat → Intent) (hp : p ∉ l) (i : Intent) :
    l.filterMap (fun q => (update heap p i q).message?) =
      l.filterMap fun q => (heap q).message? := by
  refine filterMap_congr fun q hq => ?_
  have hqp : q ≠ p := fun heq => hp (heq ▸ hq)
  rw [update_of_ne hqp]

theorem undelivered_update (hmem : p ∉ w.rxQueue) (hholds : w.holds ≠ some p) {added : List Nat}
    (hthread : w'.thread = w.thread) (hheap : w'.heap = update w.heap p i)
    (hqueue : w'.rxQueue = w.rxQueue ++ added) :
    w'.undelivered = w.undelivered ++ added.filterMap fun q => (update w.heap p i q).message? := by
  have hhead : (match w.thread with
      | some (q, .deliver) => [(update w.heap p i q).filled]
      | _ => []) = match w.thread with
      | some (q, .deliver) => [(w.heap q).filled]
      | _ => [] := by
    split
    · rename_i q hq
      have hqp : q ≠ p := by
        rintro rfl
        simp [holds, hq] at hholds
      simp [hqp]
    · rfl
  simp only [undelivered, hthread, hheap, hqueue, hhead, filterMap_append,
    filterMap_update w.heap hmem, append_assoc]

section
variable (hI : Inv w)
include hI

/-- The remote does not use the id of an intent that is held here. -/
theorem Inv.remote_of_held (hp : p ∈ w.rxQueue ∨ w.holds = some p) :
    RemoteOk w' (w.heap p).id (w.use (w.heap p).id) := by
  refine (hI.remote _).frame fun q size reuse sofar hr => ?_
  obtain rfl : q = p := hI.ids q p (by rw [hr.heap]) (by rw [hr.heap]; exact hr.ne)
  exact (hp.elim hr.queue hr.thread).elim

theorem Inv.take (hthread : w.thread = none) (hstep : threadTake w w.rxQueue = some w') :
    Inv w' := by
  obtain ⟨p, rest, hqueue⟩ : ∃ p rest, w.rxQueue = p :: rest := by
    rw [← ne_nil_iff_exists_cons]
    rintro hnil
    simp [hnil, threadTake] at hstep
  have hin : p ∈ w.rxQueue ∨ w.holds = some p := .inl (by simp [hqueue])
  have hheld := hI.held p hin
  obtain ⟨hnot, hnodup⟩ : p ∉ rest ∧ rest.Nodup := by simpa [hqueue] using hI.nodup
  have hrest : ∀ q ≠ p, q ∈ rest → q ∈ w.rxQueue := fun q _ hq => by simp [hqueue, hq]
  have hother : ∀ q ≠ p, some p = some q → w.holds = some q := fun q hq heq =>
    absurd (some_inj.mp heq).symm hq
  obtain ⟨hfault, horder⟩ := hI.order
  simp only [undelivered, hthread, hqueue, nil_append, filterMap_cons] at horder
  simp only [threadTake, hqueue, touch_eq hheld.live] at hstep
  cases hdata : (w.heap p).hasData with
  | true =>
    cases hirq : (w.heap p).cbIrqDone with
    | false =>
      simp only [hdata, hirq, if_true, Bool.false_eq_true, if_false, some.injEq] at hstep
      subst hstep
      refine hI.put (p := p) ⟨fun _ _ => rfl, .inl ⟨rfl, rfl⟩, fun _ _ => rfl, fun _ _ => rfl,
        ⟨Nat.le_refl _, hheld.lt⟩, ⟨hnodup, hrest⟩, hother, fun _ => ?_, hI.remote_of_held hin,
        hfault, ?_⟩
      · exact ⟨hheld.lt, hheld.live, hheld.data, hheld.request, fun _ => ⟨hdata, hirq, hnot⟩⟩
      · simpa [undelivered, message?, hdata, hirq] using horder
    | true =>
      simp only [hdata, hirq, if_true, some.injEq, World.put] at hstep
      subst hstep
      have hmsg : (w.heap p).message? = none := by simp [message?, hirq]
      rw [hmsg] at horder
      refine hI.put (p := p) ⟨fun q hq => by simp [hq], .inl (by simp), fun _ _ => rfl,
        fun _ _ => rfl, ⟨Nat.le_refl _, hheld.lt⟩, ⟨hnodup, hrest⟩, hother, fun _ => ?_, ?_,
        hfault, ?_⟩
      · constructor <;> simp [hheld.lt, hheld.live, hnot]
        exact hheld.data hdata
      · simp only [update_self]
        exact hI.remote_of_held hin
      · simpa [undelivered, filterMap_update w.heap hnot] using horder
  | false =>
    obtain ⟨hid, hfilled, hirq⟩ := hheld.request hdata
    have hpos := Nat.lt_of_le_of_lt (Nat.zero_le _) (hI.idLt p)
    simp only [hdata, Bool.false_eq_true, if_false, some.injEq, World.put] at hstep
    subst hstep
    refine hI.put (p := p) ⟨fun q hq => by simp [hq], .inr (by simp [hid]), fun k hk => ?_,
      fun k hk => ?_, ⟨Nat.le_refl _, hheld.lt⟩, ⟨hnodup, hrest⟩, fun q _ hq => ?_, fun hq => ?_,
      ?_, hfault, ?_⟩
    · exact update_of_ne (by simpa using hk) ..
    · exact update_of_ne (by simpa using hk) ..
    · simp [holds, hthread] at hq
    · simp [holds, hthread, hnot] at hq
    · simp only [update_self]
      refine ⟨p, (w.heap p).size, (w.heap p).reuse, by simp, ?_, by omega, hnot, ?_⟩
      · simp [hfilled, hirq, hheld.live]
      · simp [holds, hthread]
    · have hmsg : (w.heap p).message? = none := by simp [message?, hdata]
      rw [hmsg] at horder
      simpa [undelivered, hthread, filterMap_update w.heap hnot] using horder

theorem Inv.queueIntent (size : Nat) (reuse : Bool) :
    Inv (qcomGlinkQueueRxIntentAlloc w size reuse) := by
  obtain ⟨hfault, horder⟩ := hI.order
  have hmem : w.next ∉ w.rxQueue := fun hin =>
    absurd (hI.held _ (.inl hin)).lt (Nat.lt_irrefl _)
  have hholds : w.holds ≠ some w.next := fun hin =>
    absurd (hI.held _ (.inr hin)).lt (Nat.lt_irrefl _)
  have hworld : qcomGlinkQueueRxIntentAlloc w size reuse = { w with
      heap := update w.heap w.next ⟨0, size, [], reuse, false, false, false⟩
      next := w.next + 1
      rxQueue := w.rxQueue ++ [w.next] } := by
    simp [qcomGlinkQueueRxIntentAlloc, alloc, enqueue, touch]
  rw [hworld]
  refine hI.put (p := w.next) ⟨fun q hq => by simp [hq], .inl ?_, fun _ _ => rfl, fun _ _ => rfl,
    ⟨Nat.le_succ _, Nat.lt_succ_self _⟩, ⟨?_, fun q hq hin => ?_⟩, fun _ _ => id, fun _ => ?_, ?_,
    hfault, ?_⟩
  · simp [hI.unborn]
  · exact nodup_append.mpr ⟨hI.nodup, by simp, by grind⟩
  · simpa [hq] using hin
  · constructor <;> simp
    exact fun hin => absurd hin hholds
  · simp only [update_self]
    exact (hI.remote 0).frame fun _ _ _ _ hr => absurd rfl hr.ne
  · rw [← horder]
    refine congrArg (w.delivered ++ ·)
      ((undelivered_update hmem hholds (by rfl) (by rfl) (by rfl)).trans ?_)
    simp [message?]

theorem Inv.deliver (hthread : w.thread = some (p, .deliver)) :
    Inv { w.callback p with thread := some (p, .finish) } := by
  have hin : p ∈ w.rxQueue ∨ w.holds = some p := .inr (by simp [holds, hthread])
  have hheld := hI.held p hin
  obtain ⟨hfault, horder⟩ := hI.order
  simp only [callback, touch_eq hheld.live]
  refine hI.put (p := p) ⟨fun _ _ => rfl, .inl ⟨rfl, rfl⟩, fun _ _ => rfl, fun _ _ => rfl,
    ⟨Nat.le_refl _, hheld.lt⟩, ⟨hI.nodup, fun _ _ => id⟩, fun q _ hq => ?_, fun _ => ?_,
    hI.remote_of_held hin, hfault, ?_⟩
  · simpa [holds, hthread] using hq
  · exact ⟨hheld.lt, hheld.live, hheld.data, hheld.request, fun _ =>
      hheld.thread (by simp [holds, hthread])⟩
  · rw [← horder]
    simp [undelivered, hthread]

theorem Inv.finish (hless : cfg.intentless = false) (hthread : w.thread = some (p, .finish)) :
    Inv { (qcomGlinkRxDone cfg w p true).2 with thread := none } := by
  have hholds : w.holds = some p := by simp [holds, hthread]
  have hheld := hI.held p (.inr hholds)
  obtain ⟨hdata, hirq, hnot⟩ := hheld.thread hholds
  obtain ⟨hne, hreuse⟩ := hheld.data hdata
  obtain ⟨hfault, horder⟩ := hI.order
  have hdone : (qcomGlinkRxDone cfg w p true).2 = { w with
      heap := update w.heap p { w.heap p with filled := [], freed := !(w.heap p).reuse }
      liids := if (w.heap p).reuse then w.liids else update w.liids (w.heap p).id none
      use := update w.use (w.heap p).id (if (w.heap p).reuse then .free else .busy) } := by
    cases hr : (w.heap p).reuse <;>
      simp [qcomGlinkRxDone, qcomGlinkSendRxDone, hless, touch_eq hheld.live, hr]
  rw [hdone]
  refine hI.put (p := p) ⟨fun q hq => by simp [hq], .inl (by simp), fun k hk => ?_, fun k hk => ?_,
    ⟨Nat.le_refl _, hheld.lt⟩, ⟨hI.nodup, fun _ _ => id⟩, fun q _ hq => by simp [holds] at hq,
    fun hin => by simp [holds, hnot] at hin, ?_, hfault, ?_⟩
  · simp only [update_self] at hk
    split <;> simp [hk]
  · simp only [update_self] at hk
    simp [hk]
  · cases hr : (w.heap p).reuse with
    | true =>
      simp only [update_self, if_true]
      exact ⟨p, (w.heap p).size, true, hreuse hr, by simp [hirq, hdata, hr], hne, hnot, nofun⟩
    | false => simp [RemoteOk]
  · rw [← horder]
    simp [undelivered, hthread, filterMap_update w.heap hnot]

/-- A chunk of a conforming remote goes to an intent that holds exactly the earlier chunks of its
message and has room for the rest. -/
theorem Inv.sends (hless : cfg.intentless = false)
    (hsend : remoteSends cfg w k bytes left = some w₁) : ∃ p size reuse sofar,
      Reached w k p size reuse sofar ∧ sofar.length + bytes.length + left ≤ size ∧
      w₁ = if left = 0 then
          { w with
            use := update w.use k .busy
            completed := w.completed ++ [sofar ++ bytes] }
        else { w with use := update w.use k (.filling (sofar ++ bytes) left) } := by
  have hremote := hI.remote k
  simp only [remoteSends, hless, Bool.false_eq_true, if_false, false_or] at hsend
  split at hsend
  · rename_i hfree
    rw [hfree] at hremote
    obtain ⟨p, size, reuse, hr⟩ := hremote
    obtain ⟨hfits, hsent⟩ := ite_none_right_eq_some.mp hsend
    refine ⟨p, size, reuse, [], hr, ?_, by simpa using hsent.symm⟩
    simpa [hr.liid, hr.heap] using hfits
  · rename_i sofar rem hfill
    rw [hfill] at hremote
    obtain ⟨p, size, reuse, hr, hfit⟩ := hremote
    obtain ⟨hrem, hsent⟩ := ite_none_right_eq_some.mp hsend
    exact ⟨p, size, reuse, sofar, hr, by omega, (some.inj hsent).symm⟩
  · simp at hsend

theorem Inv.put_reached (hr : Reached w k p size reuse sofar) (added : List Nat)
    (delivered completed : List (List UInt8)) (buf : Option Nat) {liids : Nat → Option Nat}
    (hid : i.id = k) (hliids : ∀ j ≠ k, liids j = w.liids j)
    (hadded : added = [] ∨ added = [p] ∧ u = .busy ∧ i.freed = false ∧ i.hasData = true ∧ (i.reuse = true → liids k = some p))
    (huse : u = .busy ∨ liids k = some p ∧ ∃ msg, i = ⟨k, size, msg, reuse, true, false, false⟩ ∧ (u = .free ∧ msg = [] ∨ ∃ left, u = .filling msg left ∧ msg.length + left ≤ size))
    (horder : delivered ++ (w.undelivered ++ added.filterMap fun q => (update w.heap p i q).message?) = completed) :
    Inv { w with
      heap := update w.heap p i
      liids := liids
      use := update w.use k u
      rxQueue := w.rxQueue ++ added
      completed := completed, delivered := delivered, buf := buf } := by
  have hlt : p < w.next := by
    by_contra hge
    exact hr.ne ((congrArg Intent.id hr.heap).symm.trans (hI.unborn p (Nat.not_lt.mp hge)))
  refine hI.put (p := p) ⟨fun q hq => by simp [hq], .inl (by simp [hid, hr.heap]), fun j hj => ?_,
    fun j hj => ?_, ⟨Nat.le_refl _, hlt⟩, ⟨?_, fun q hq hin => ?_⟩, fun _ _ => id, fun hin => ?_, ?_,
    hI.order.1, ?_⟩
  · exact hliids j (by simpa [hid] using hj)
  · exact update_of_ne (by simpa [hid] using hj) ..
  · rcases hadded with rfl | ⟨rfl, -⟩
    · simpa using hI.nodup
    · exact nodup_append.mpr ⟨hI.nodup, by simp, by grind [hr.queue]⟩
  · rcases hadded with rfl | ⟨rfl, -⟩
    · simpa using hin
    · simpa [hq] using hin
  · have hnot : ¬ w.holds = some p := hr.thread
    rcases hadded with rfl | ⟨rfl, -, hfreed, hdata, hreuse⟩
    · exact (hin.elim (by simpa using hr.queue) hnot).elim
    · refine ⟨hlt, by simpa using hfreed, fun _ => ?_, by simp [hdata], fun h => absurd h hnot⟩
      simpa [hid, hr.ne] using hreuse
  · simp only [update_self, hid]
    rcases huse with rfl | ⟨hliid, msg, rfl, huse⟩
    · trivial
    · have hnew : added = [] := hadded.resolve_right (by rintro ⟨-, rfl, -⟩; simp at huse)
      have hqueue : p ∉ w.rxQueue ++ added := by simpa [hnew] using hr.queue
      rcases huse with ⟨rfl, rfl⟩ | ⟨left, rfl, hfit⟩
      · exact ⟨p, size, reuse, hliid, update_self .., hr.ne, hqueue, hr.thread⟩
      · exact ⟨p, size, reuse, ⟨hliid, update_self .., hr.ne, hqueue, hr.thread⟩, hfit⟩
  · refine Eq.trans (congrArg (delivered ++ ·) ?_) horder
    exact undelivered_update hr.queue hr.thread rfl rfl rfl

/-- A completed message is delivered in the handler, when nothing else is undelivered. The intent
is returned at once, or queued to be returned by the thread. -/
theorem Inv.direct (hr : Reached w k p size reuse sofar) (hqueue : w.rxQueue = [])
    (hthread : w.thread.map (·.2) ≠ some .deliver) (msg : List UInt8) (txOk : Bool) : Inv { w with
      heap := update w.heap p ⟨k, size, [], reuse, true, !txOk, txOk && !reuse⟩
      liids := if reuse then w.liids else update w.liids k none
      use := update w.use k (if txOk && reuse then .free else .busy)
      rxQueue := w.rxQueue ++ if txOk then [] else [p]
      completed := w.completed ++ [msg]
      delivered := w.delivered ++ [msg]
      buf := if txOk then none else w.buf } := by
  have hnone : w.undelivered = [] := by
    unfold undelivered
    split
    · rename_i q hq
      simp [hq] at hthread
    · simp [hqueue]
  have hall : w.delivered = w.completed := by simpa [hnone] using hI.order.2
  have hliids : ∀ j ≠ k, (if reuse then w.liids else update w.liids k none) j =
      w.liids j := fun j hj => by split <;> simp [hj]
  refine hI.put_reached hr _ _ _ _ rfl hliids ?_ ?_ ?_
  · cases txOk <;> cases reuse <;> simp [hr.liid]
  · cases txOk <;> cases reuse <;> simp [hr.liid]
  · cases txOk <;> simp [hnone, hall, message?]

theorem Inv.chunk (hless : cfg.intentless = false)
    (hok : Orderly cfg w (.chunk k bytes left iters txOk))
    (hsend : remoteSends cfg w k bytes left = some w₁) :
    Inv (qcomGlinkRxData cfg w₁ k bytes left iters txOk) := by
  obtain ⟨p, size, reuse, sofar, hr, hfit, rfl⟩ := hI.sends hless hsend
  have hroom : ¬ size - sofar.length < bytes.length := by omega
  by_cases hleft : left = 0
  · have hfill : qcomGlinkRxData cfg { w with
          use := update w.use k .busy
          completed := w.completed ++ [sofar ++ bytes] } k bytes left iters txOk =
        qcomGlinkRxDataHandler cfg { w with
          heap := update w.heap p ⟨k, size, sofar ++ bytes, reuse, true, false, false⟩
          use := update w.use k .busy
          completed := w.completed ++ [sofar ++ bytes] } p iters txOk := by
      simp [qcomGlinkRxData, hless, hr.liid, fillIntent, touch, World.put, hr.heap, hroom, hleft]
    rw [if_pos hleft, hfill]
    unfold qcomGlinkRxDataHandler
    split
    · rename_i hirq
      obtain ⟨hcb, hiters, hqueue⟩ := hirq
      have hstage : w.thread.map (·.2) ≠ some .deliver := by
        simp only [Orderly, hless, Bool.false_eq_true, if_false] at hok
        exact hok hleft hcb hiters hqueue
      have hdirect := hI.direct hr hqueue hstage (sofar ++ bytes) txOk
      cases txOk <;> cases reuse <;>
        simpa [callback, touch, World.put, enqueue, qcomGlinkRxDone, hless,
          qcomGlinkSendRxDone] using hdirect
    · simp only [enqueue, touch, update_self, Bool.or_false]
      refine hI.put_reached hr [p] _ _ _ rfl (fun _ _ => rfl) (.inr ?_) (.inl rfl) ?_
      · simp [hr.liid]
      · simp [← hI.order.2, message?]
  · have hfill : qcomGlinkRxData cfg { w with
          use := update w.use k (.filling (sofar ++ bytes) left) } k bytes left iters txOk =
        { w with
          heap := update w.heap p ⟨k, size, sofar ++ bytes, reuse, true, false, false⟩
          use := update w.use k (.filling (sofar ++ bytes) left)
          rxQueue := w.rxQueue ++ [] } := by
      simp [qcomGlinkRxData, hless, hr.liid, fillIntent, touch, World.put, hr.heap, hroom, hleft]
    rw [if_neg hleft, hfill]
    refine hI.put_reached hr [] _ _ _ rfl (fun _ _ => rfl) (.inl rfl) (.inr ⟨hr.liid, _, rfl, ?_⟩) ?_
    · exact .inr ⟨left, rfl, by simpa using hfit⟩
    · simpa using hI.order.2

end

/-- The buffer of a channel without intents: none, the one a message is gathered in, or one left
from a message that went to the thread. -/
inductive Buffer (w : World) : Prop
  | none (hbuf : w.buf = none) (huse : w.use 0 = .free) (hqueue : w.rxQueue = [])
      (hthread : w.thread = none)
  | gathering {p left : Nat} {sofar : List UInt8} (hbuf : w.buf = some p)
      (huse : w.use 0 = .filling sofar left) (hqueue : w.rxQueue = []) (hthread : w.thread = none)
      (hheap : w.heap p = ⟨0xbabababa, sofar.length + left, sofar, false, true, false, false⟩)
  | queued {p : Nat} (hbuf : w.buf = some p) (huse : w.use 0 = .free) (hqueue : w.rxQueue = [p])
      (hthread : w.thread = none) (hdata : (w.heap p).hasData = true)
      (hirq : (w.heap p).cbIrqDone = false) (hlive : (w.heap p).freed = false)
  | held {p : Nat} {stage : Stage} (hbuf : w.buf = some p) (huse : w.use 0 = .free)
      (hqueue : w.rxQueue = []) (hthread : w.thread = some (p, stage))
      (hlive : (w.heap p).freed = false)
  | left {p : Nat} (hbuf : w.buf = some p) (huse : w.use 0 = .free) (hqueue : w.rxQueue = [])
      (hthread : w.thread = none)

theorem Buffer.of_thread {stage : Stage} (h : Buffer w) (hheld : w.thread = some (p, stage)) :
    w.buf = some p ∧ w.use 0 = .free ∧ w.rxQueue = [] ∧ (w.heap p).freed = false := by
  cases h with
  | none hbuf huse hqueue hthread | gathering hbuf huse hqueue hthread
  | left hbuf huse hqueue hthread | queued hbuf huse hqueue hthread => simp [hheld] at hthread
  | held hbuf huse hqueue hthread hlive =>
    obtain ⟨rfl, -⟩ : p = _ ∧ stage = _ := by simpa [hheld] using hthread
    exact ⟨hbuf, huse, hqueue, hlive⟩

structure IntentlessInv (w : World) : Prop where
  order : DeliveredInOrder w
  buffer : Buffer w

theorem IntentlessInv.fill (sofar bytes : List UInt8) (left iters : Nat) (txOk : Bool)
    (horder : DeliveredInOrder w)
    (hless : cfg.intentless = true) (hqueue : w.rxQueue = []) (hthread : w.thread = none)
    (hbuf : w.buf = some p)
    (hheap : w.heap p = ⟨0xbabababa, sofar.length + (bytes.length + left), sofar, false, true,
      false, false⟩) :
    IntentlessInv (fillIntent cfg
      (if left = 0 then
        { w with
          use := update w.use 0 .free
          completed := w.completed ++ [sofar ++ bytes] }
      else { w with use := update w.use 0 (.filling (sofar ++ bytes) left) })
      p bytes left iters txOk) := by
  have hroom : ¬ sofar.length + (bytes.length + left) - sofar.length < bytes.length := by omega
  obtain ⟨hfault, hall⟩ := horder
  simp only [undelivered, hqueue, hthread, filterMap_nil, append_nil] at hall
  by_cases hleft : left = 0
  · subst hleft
    rw [if_pos rfl]
    set w₁ : World := { w with
      use := update w.use 0 .free
      completed := w.completed ++ [sofar ++ bytes] }
    have hfree : update w.use 0 .free 0 = .free := update_self ..
    by_cases hirq : cfg.cbIrq = true ∧ iters < GLINK_IRQ_ITERATION_LIMITS
    · have hfill : fillIntent cfg w₁ p bytes 0 iters txOk = { w₁ with
          heap := update w.heap p
            ⟨0xbabababa, sofar.length + bytes.length, [], false, true, false, true⟩
          delivered := w.delivered ++ [sofar ++ bytes]
          buf := none } := by
        simp [w₁, fillIntent, qcomGlinkRxDataHandler, qcomGlinkRxDone, callback, touch,
          World.put, hheap, hirq, hless, hqueue]
      rw [hfill]
      refine ⟨⟨hfault, ?_⟩, .none rfl hfree hqueue hthread⟩
      simp [w₁, undelivered, hqueue, hthread, hall]
    · have hfill : fillIntent cfg w₁ p bytes 0 iters txOk = { w₁ with
          heap := update w.heap p ⟨0xbabababa, sofar.length + bytes.length, sofar ++ bytes,
            false, true, false, false⟩
          rxQueue := [p] } := by
        simp [w₁, fillIntent, qcomGlinkRxDataHandler, enqueue, touch, World.put, hheap,
          hqueue, hirq]
      rw [hfill]
      refine ⟨⟨hfault, ?_⟩, .queued hbuf hfree rfl hthread ?_ ?_ ?_⟩
      · simp [w₁, undelivered, hthread, hall, message?]
      all_goals simp
  · have hfill : fillIntent cfg { w with
          use := update w.use 0 (.filling (sofar ++ bytes) left) } p bytes left iters txOk =
        { w with
          heap := update w.heap p ⟨0xbabababa, sofar.length + (bytes.length + left),
            sofar ++ bytes, false, true, false, false⟩
          use := update w.use 0 (.filling (sofar ++ bytes) left) } := by
      simp only [fillIntent, touch, World.put, hheap, hroom, if_false, hleft, Bool.or_false]
    have huse : update w.use 0 (.filling (sofar ++ bytes) left) 0 =
        .filling (sofar ++ bytes) left := update_self ..
    rw [if_neg hleft, hfill]
    refine ⟨⟨hfault, ?_⟩, .gathering hbuf huse hqueue hthread ?_⟩
    · simp [undelivered, hqueue, hthread, hall]
    · simp [Nat.add_assoc]

section
variable (hI : IntentlessInv w)
include hI

theorem IntentlessInv.chunk (hless : cfg.intentless = true)
    (hok : Orderly cfg w (.chunk k bytes left iters txOk))
    (hsend : remoteSends cfg w k bytes left = some w₁) :
    IntentlessInv (qcomGlinkRxData cfg w₁ k bytes left iters txOk) := by
  simp only [Orderly, hless, if_true] at hok
  cases hI.buffer with
  | queued hbuf huse | held hbuf huse | left hbuf huse => simp [hbuf] at hok; exact absurd huse hok
  | none hbuf huse hqueue hthread =>
    simp only [remoteSends, hless, if_true, huse, true_or, some.injEq] at hsend
    subst hsend
    have hfresh : DeliveredInOrder { w with
        heap := update w.heap w.next
          ⟨0xbabababa, bytes.length + left, [], false, true, false, false⟩
        next := w.next + 1
        buf := some w.next } := by
      refine ⟨hI.order.1, ?_⟩
      rw [← hI.order.2]
      simp [undelivered, hqueue, hthread]
    have hfill := IntentlessInv.fill [] bytes left iters txOk hfresh hless hqueue hthread rfl
    by_cases hleft : left = 0
    · simpa [qcomGlinkRxData, hless, hleft, hbuf, alloc] using hfill
    · simpa [qcomGlinkRxData, hless, hleft, hbuf, alloc] using hfill
  | @gathering p left' sofar hbuf huse hqueue hthread hheap =>
    simp only [remoteSends, hless, if_true, huse] at hsend
    split at hsend
    · rename_i hrem
      obtain rfl := some.inj hsend
      rw [← hrem] at hheap
      have hstored : World.buf (if left = 0 then
          { w with
            use := update w.use 0 .free
            completed := w.completed ++ [sofar ++ bytes] }
          else { w with use := update w.use 0 (.filling (sofar ++ bytes) left) }) = some p := by
        split <;> exact hbuf
      simp only [qcomGlinkRxData, hless, if_true, hstored]
      exact IntentlessInv.fill sofar bytes left iters txOk hI.order hless hqueue hthread hbuf hheap
    · simp at hsend

theorem IntentlessInv.take (hstep : threadTake w w.rxQueue = some w') : IntentlessInv w' := by
  cases hI.buffer with
  | none hbuf huse hqueue | gathering hbuf huse hqueue | left hbuf huse hqueue
  | held hbuf huse hqueue => simp [hqueue, threadTake] at hstep
  | @queued p hbuf huse hqueue hthread hdata hirq hlive =>
    simp only [hqueue, threadTake, touch_eq hlive, hdata, hirq, if_true, Bool.false_eq_true,
      if_false, some.injEq] at hstep
    subst hstep
    refine ⟨⟨hI.order.1, ?_⟩, .held hbuf huse rfl rfl hlive⟩
    rw [← hI.order.2]
    simp [undelivered, hqueue, hthread, message?, hdata, hirq]

theorem IntentlessInv.deliver (hheld : w.thread = some (p, .deliver)) :
    IntentlessInv { w.callback p with thread := some (p, .finish) } := by
  obtain ⟨hbuf, huse, hqueue, hlive⟩ := hI.buffer.of_thread hheld
  simp only [callback, touch_eq hlive]
  refine ⟨⟨hI.order.1, ?_⟩, .held hbuf huse hqueue rfl hlive⟩
  rw [← hI.order.2]
  simp [undelivered, hqueue, hheld]

theorem IntentlessInv.finish (hless : cfg.intentless = true) (hheld : w.thread = some (p, .finish)) :
    IntentlessInv { (qcomGlinkRxDone cfg w p true).2 with thread := none } := by
  obtain ⟨hbuf, huse, hqueue, hlive⟩ := hI.buffer.of_thread hheld
  simp only [qcomGlinkRxDone, touch_eq hlive, hless, if_true, World.put]
  refine ⟨⟨hI.order.1, ?_⟩, .left hbuf huse hqueue rfl⟩
  rw [← hI.order.2]
  simp [undelivered, hqueue, hheld]

end

theorem initial_inv (hless : cfg.intentless = false) : Inv (World.initial cfg) where
  ids _ _ _ hne := absurd rfl hne
  idLt _ := Nat.one_pos
  unborn _ _ := rfl
  nodup := nodup_nil
  held p hp := by simp [initial, holds] at hp
  remote k := by simp [initial, hless, RemoteOk]
  order := ⟨rfl, rfl⟩

def CfgInv (cfg : Config) (w : World) : Prop :=
  if cfg.intentless then IntentlessInv w else Inv w

theorem CfgInv.of_cases (hwith : cfg.intentless = false → Inv w)
    (hwithout : cfg.intentless = true → IntentlessInv w) : CfgInv cfg w := by
  unfold CfgInv
  split
  · exact hwithout ‹_›
  · exact hwith (Bool.not_eq_true _ ▸ ‹_›)

theorem step_inv (cfg : Config) (w : World) (e : Event) (w' : World) (hI : CfgInv cfg w)
    (hok : Orderly cfg w e) (hstep : step cfg w e = some w') : CfgInv cfg w' := by
  have hwith (hless : cfg.intentless = false) : Inv w := by simpa [CfgInv, hless] using hI
  have hwithout (hless : cfg.intentless = true) : IntentlessInv w := by
    simpa [CfgInv, hless] using hI
  cases e with
  | queueIntent size reuse =>
    obtain ⟨hcond, hw⟩ := ite_none_right_eq_some.mp hstep
    obtain rfl := some.inj hw
    exact .of_cases (fun hless => (hwith hless).queueIntent size reuse) (by simp [hcond.1])
  | chunk liid bytes left iters txOk =>
    obtain ⟨w₁, hsend, rfl⟩ := map_eq_some_iff.mp hstep
    exact .of_cases (fun hless => (hwith hless).chunk hless hok hsend)
      fun hless => (hwithout hless).chunk hless hok hsend
  | threadTake =>
    obtain ⟨hthread, htake⟩ := ite_none_right_eq_some.mp hstep
    exact .of_cases (fun hless => (hwith hless).take hthread htake)
      fun hless => (hwithout hless).take htake
  | threadDeliver =>
    simp only [step] at hstep
    split at hstep
    · rename_i p hthread
      obtain rfl := some.inj hstep
      exact .of_cases (fun hless => (hwith hless).deliver hthread)
        fun hless => (hwithout hless).deliver hthread
    · simp at hstep
  | threadFinish =>
    simp only [step] at hstep
    split at hstep
    · rename_i p hthread
      obtain rfl := some.inj hstep
      exact .of_cases (fun hless => (hwith hless).finish hless hthread)
        fun hless => (hwithout hless).finish hless hthread
    · simp at hstep

/-- In every run whose chunks all come when `Orderly` allows them, the endpoint has seen,
and will see, exactly the completed messages in their order, and no freed buffer is touched. -/
theorem rx_delivers_in_order (cfg : Config) (es : List Event) (w : World)
    (hok : Along (step cfg) (Orderly cfg) (World.initial cfg) es)
    (hrun : run (step cfg) (World.initial cfg) es = some w) : DeliveredInOrder w := by
  have hinit : CfgInv cfg (World.initial cfg) := .of_cases initial_inv fun hless =>
    ⟨⟨rfl, rfl⟩, .none rfl (by simp [initial, hless]) rfl rfl⟩
  have hI := run_invariant (step_inv cfg) hinit hok hrun
  unfold CfgInv at hI
  split at hI
  · exact hI.order
  · exact hI.order

/-- Two messages over one reused intent: the first in two chunks and by the thread, the second in the
interrupt handler, where its return finds the ring full and is left to the thread. -/
theorem rx_delivers_over_reused_intent : ∃ w, run (step ⟨false, true⟩) (World.initial ⟨false, true⟩)
      [.queueIntent 4 true, .threadTake, .chunk 1 [1, 2] 1 0 true, .chunk 1 [3] 0 10 true, .threadTake,
        .threadDeliver, .threadFinish, .chunk 1 [4, 5, 6, 7] 0 2 false, .threadTake, .threadFinish] =
      some w ∧ w.delivered = [[1, 2, 3], [4, 5, 6, 7]] ∧ w.undelivered = [] ∧
      DeliveredInOrder w := by
  refine exists_run_and (by decide +kernel) fun w hrun _ => ?_
  have hnone : w.undelivered = [] := run_holds hrun (by decide +kernel)
  exact ⟨hnone, rx_delivers_in_order ⟨false, true⟩ _ w (by decide +kernel) hrun⟩

/-- On a channel without intents a queued message leaves its buffer in place: the next message is
written to the freed buffer and lost. On a channel with intents a message is delivered in the
interrupt handler before an earlier one that the thread holds. -/
theorem rx_loses_and_reorders :
    (∃ w, run (step ⟨true, false⟩) (World.initial ⟨true, false⟩)
        [.chunk 0 [1] 0 0 true, .threadTake, .threadDeliver, .threadFinish, .chunk 0 [2] 0 0 true] =
      some w ∧ (w.completed = [[1], [2]] ∧ w.delivered = [[1]] ∧ w.undelivered = [] ∧
        w.fault = true)) ∧
    ∃ w, run (step ⟨false, true⟩) (World.initial ⟨false, true⟩)
        [.queueIntent 1 true, .queueIntent 1 true, .threadTake, .threadTake,
          .chunk 1 [1] 0 10 true, .threadTake, .chunk 2 [2] 0 0 true, .threadDeliver] = some w ∧
      (w.completed = [[1], [2]] ∧ w.delivered = [[2], [1]]) :=
  ⟨exists_run_of_map (by decide +kernel), exists_run_of_map (by decide +kernel)⟩

end MsmKernel.Glink.Rx
