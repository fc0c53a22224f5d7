import MsmKernel.IpcLog.Messages

/-! The log refines a bounded message queue. A session is any sequence of writes, reads,
drops and extractions; an extraction that releases its lock in between is a sequence of reads. -/
namespace MsmKernel.IpcLog
open MsmKernel Function EvictingQueue List Queue

inductive Event
  | write (m : Message)
  | read
  | drop
  | extract (decoded : List UInt8 → Nat) (size : Int)
  | destroy

inductive Output
  | done
  | took (m : List UInt8)
  | extracted (ret : Int) (msgs : List (List UInt8))

structure Session where
  log : Context
  out : List Output

/- The loops get as many turns as the log has bytes. -/
def step (t : Session) : Event → Option Session
  | .write m =>
    (ipcLogWrite t.log (logSize t.log.numPages) m.encode).map fun s => ⟨s, t.out ++ [.done]⟩
  | .read => some ⟨(msgRead t.log).2, t.out ++ [.took (msgRead t.log).1]⟩
  | .drop => some ⟨(msgDrop t.log).2, t.out ++ [.took (msgDrop t.log).1]⟩
  | .extract decoded size =>
    (ipcLogExtract t.log decoded (logSize t.log.numPages) size).map fun r =>
      ⟨r.2.2, t.out ++ [.extracted r.1 r.2.1]⟩
  | .destroy => some ⟨ipcLogContextDestroy t.log, t.out ++ [.done]⟩

structure Spec where
  queue : Queue UInt8
  destroyed : Bool
  out : List Output

def Spec.create : Spec := ⟨Queue.empty, false, []⟩

def Spec.extract (a : Spec) (decoded : List UInt8 → Nat) (size : Int) : Spec :=
  if size < maxMsgDecodedSize then { a with out := a.out ++ [.extracted (- EINVAL) []] }
  else if a.destroyed then { a with out := a.out ++ [.extracted (- EIO) []] }
  else
    let r := handOver decoded size a.queue.unseen
    { a with
      queue := Queue.read^[r.2.length] a.queue
      out := a.out ++ [.extracted (size - r.1) r.2] }

def Spec.step (cap : Nat) (a : Spec) : Event → Spec
  | .write m =>
    { a with queue := a.queue.write cap m.encode.bytes, out := a.out ++ [.done] }
  | .read => { a with queue := a.queue.read, out := a.out ++ [.took (a.queue.unseen.headD [])] }
  | .drop => { a with queue := a.queue.take, out := a.out ++ [.took (a.queue.retained.headD [])] }
  | .extract decoded size => a.extract decoded size
  | .destroy => { a with destroyed := true, out := a.out ++ [.done] }

def Spec.run (n : Nat) (es : List Event) : Spec := es.foldl (Spec.step (logSize n)) Spec.create

def messages (es : List Event) : List (List UInt8) :=
  es.filterMap fun
    | .write m => some m.encode.bytes
    | _ => none

def bytesFrom (s : Context) (page off : Nat) : List UInt8 :=
  let size := logSize s.numPages
  let first := (page * logPageDataSize + off) % size
  let last := s.writePage * logPageDataSize + s.writeOffset s.writePage
  Ring.contents size (PagedRing.flat logPageDataSize s.data) first ((last + (size - first)) % size)

def logBytes (s : Context) : List UInt8 := bytesFrom s s.readPage (s.readOffset s.readPage)

def unreadBytes (s : Context) : List UInt8 :=
  bytesFrom s s.ndReadPage (s.ndReadOffset s.ndReadPage)

structure Refines (n : Nat) (t : Session) (a : Spec) : Prop where
  pages : t.log.numPages = n
  queue : Represents t.log a.queue
  destroyed : t.log.destroyed = a.destroyed
  out : t.out = a.out

variable {n : Nat} {t : Session} {a : Spec}

theorem refines_create (hn : 1 ≤ n) (hfit : logSize n < 4294967296) :
    Refines n ⟨ipcLogContextCreate n, []⟩ Spec.create :=
  ⟨rfl, ⟨⟨0, holds_create hn hfit⟩, by simp [Spec.create, empty, retained]⟩, rfl, rfl⟩

theorem Refines.extract (h : Refines n t a) (decoded : List UInt8 → Nat) (size : Int) :
    ∃ t', step t (.extract decoded size) = some t' ∧ Refines n t' (a.extract decoded size) := by
  have hlen := h.queue.length_lt
  have hcount := h.queue.length_le
  have hunseen : a.queue.unseen.length < logSize t.log.numPages := by
    rw [retained, length_append] at hcount
    exact Nat.lt_of_le_of_lt (Nat.le_add_left _ _) (Nat.lt_of_le_of_lt hcount hlen)
  simp only [step, ipcLogExtract, Spec.extract, ← h.destroyed, ← h.out]
  by_cases hsmall : size < maxMsgDecodedSize
  · simp only [if_pos hsmall, Option.map_some]
    exact ⟨_, rfl, h.pages, h.queue, rfl, rfl⟩
  · rw [if_neg hsmall, if_neg hsmall]
    by_cases hgone : t.log.destroyed = true
    · simp only [if_pos hgone, Option.map_some]
      exact ⟨_, rfl, h.pages, h.queue, rfl, rfl⟩
    · obtain ⟨s, hloop, hn, hd, hs⟩ := h.queue.extractLoop decoded size hunseen
      simp only [if_neg hgone, hloop, Option.map_some]
      exact ⟨_, rfl, hn.trans h.pages, hs, hd, rfl⟩

theorem Refines.step (h : Refines n t a) (e : Event) :
    ∃ t', step t e = some t' ∧ Refines n t' (a.step (logSize n) e) := by
  cases e with
  | write m =>
    obtain ⟨s, hrun, hn, hd, hs⟩ := h.queue.ipcLogWrite m le_rfl
    rw [h.pages] at hs
    refine ⟨⟨s, t.out ++ [.done]⟩, ?_, hn.trans h.pages, hs, hd.trans h.destroyed, ?_⟩
    · simp [IpcLog.step, hrun]
    · rw [h.out]
      rfl
  | read =>
    obtain ⟨hfirst, hs⟩ := h.queue.msgRead
    obtain ⟨hn, hd⟩ := numPages_msgRead t.log
    refine ⟨_, rfl, hn.trans h.pages, hs, hd.trans h.destroyed, ?_⟩
    rw [hfirst, h.out]
    rfl
  | drop =>
    obtain ⟨hfirst, hs⟩ := h.queue.msgDrop
    obtain ⟨hn, hd⟩ := numPages_msgDrop t.log
    refine ⟨_, rfl, hn.trans h.pages, hs, hd.trans h.destroyed, ?_⟩
    rw [hfirst, h.out]
    rfl
  | extract decoded size => exact h.extract decoded size
  | destroy =>
    obtain ⟨⟨X, hX⟩, hframed⟩ := h.queue
    refine ⟨_, rfl, h.pages, ⟨⟨X, ?_⟩, hframed⟩, rfl, ?_⟩
    · exact ⟨hX.size_lt, hX.read, hX.ndRead, hX.write, hX.bytes, hX.avail, hX.avail_pos⟩
    · rw [h.out]
      rfl

theorem Refines.run (h : Refines n t a) (es : List Event) :
    ∃ t', Run.run IpcLog.step t es = some t' ∧
      Refines n t' (es.foldl (Spec.step (logSize n)) a) := by
  induction es generalizing t a with
  | nil => exact ⟨t, rfl, h⟩
  | cons e es ih =>
    obtain ⟨t', hstep, h'⟩ := h.step e
    obtain ⟨t'', hrun, h''⟩ := ih h'
    exact ⟨t'', by rw [Run.run_cons_of_step hstep, hrun], h''⟩

theorem written_iterate_read (k : Nat) (q : Queue UInt8) :
    (Queue.read^[k] q).written = q.written := by
  induction k generalizing q with
  | zero => rfl
  | succ k ih => rw [iterate_succ_apply, ih, written_read]

theorem written_step (cap : Nat) (a : Spec) (e : Event) :
    (a.step cap e).queue.written = a.queue.written ++ messages [e] := by
  cases e with
  | write m => exact Queue.written_write cap _ _
  | read => exact (Queue.written_read _).trans (append_nil _).symm
  | drop => exact (Queue.written_take _).trans (append_nil _).symm
  | extract decoded size =>
    refine Eq.trans ?_ (append_nil _).symm
    unfold Spec.step Spec.extract
    dsimp only
    split_ifs
    · rfl
    · rfl
    · exact written_iterate_read _ _
  | destroy => exact (append_nil _).symm

/-- Everything written was taken, dropped or is still there, in the order of the writes. -/
theorem written_run (cap : Nat) (a : Spec) (es : List Event) :
    (es.foldl (Spec.step cap) a).queue.written = a.queue.written ++ messages es := by
  induction es generalizing a with
  | nil => exact (append_nil _).symm
  | cons e es ih =>
    rw [foldl_cons, ih, written_step, append_assoc]
    rw [messages, messages, messages, ← filterMap_append]
    rfl

variable {s : Context} {q : Queue UInt8}

theorem bytesFrom_eq {X c page off : Nat} {l : List UInt8}
    (h : PagedRing.At logPageDataSize s.numPages X page off)
    (hw : PagedRing.At logPageDataSize s.numPages (X + c) s.writePage (s.writeOffset s.writePage))
    (hc : c < logSize s.numPages)
    (hl : Ring.contents (logSize s.numPages) (PagedRing.flat logPageDataSize s.data)
      (X % logSize s.numPages) c = l) : bytesFrom s page off = l := by
  have hfirst : (page * logPageDataSize + off) % logSize s.numPages = X % logSize s.numPages := h.pos
  have hlast : (s.writePage * logPageDataSize + s.writeOffset s.writePage) % logSize s.numPages =
    (X + c) % logSize s.numPages := hw.pos
  have hmod : X % logSize s.numPages < logSize s.numPages := Nat.mod_lt _ (by omega)
  have hdiv := Nat.div_add_mod X (logSize s.numPages)
  have hcount : (s.writePage * logPageDataSize + s.writeOffset s.writePage +
      (logSize s.numPages - X % logSize s.numPages)) % logSize s.numPages = c := by
    rw [← Nat.mod_add_mod, hlast, Nat.mod_add_mod]
    have hsum : X + c + (logSize s.numPages - X % logSize s.numPages) =
        c + logSize s.numPages * (X / logSize s.numPages + 1) := by
      rw [Nat.mul_add]
      omega
    rw [hsum, Nat.add_mul_mod_self_left, Nat.mod_eq_of_lt hc]
  simp only [bytesFrom, hfirst, hcount]
  exact hl

theorem Represents.logBytes (h : Represents s q) : logBytes s = q.retained.flatten := by
  obtain ⟨⟨X, hX⟩, -⟩ := h
  rw [retained, flatten_append]
  exact bytesFrom_eq hX.read.here hX.write hX.length_lt hX.bytes

theorem Represents.unreadBytes (h : Represents s q) : unreadBytes s = q.unseen.flatten := by
  obtain ⟨⟨X, hX⟩, -⟩ := h
  have hw := hX.write
  have hlt := hX.length_lt
  rw [length_append] at hw hlt
  rw [← Nat.add_assoc] at hw
  refine bytesFrom_eq hX.ndRead.here hw (by omega) ?_
  rw [← Nat.mod_add_mod, contents_take_append le_rfl hX.bytes, take_length]

/-- A log of pages whose bytes `write_avail` can count, in particular of the documented ten
at most, refines a bounded queue of messages: same outputs, the bytes between the positions
are whole messages, those written last, and the non-destructive position lies between two of
them. A write drops exactly the oldest messages that keep it from fitting. -/
theorem ipc_log_refines_queue (n : Nat) (hn : 1 ≤ n) (hfit : n * logPageDataSize < 4294967296)
    (es : List Event) : ∃ t, Run.run step ⟨ipcLogContextCreate n, []⟩ es = some t ∧
      t.out = (Spec.run n es).out ∧
      logBytes t.log = (Spec.run n es).queue.retained.flatten ∧
      (Spec.run n es).queue.gone ++ (Spec.run n es).queue.retained = messages es ∧
      t.log.writeAvail + (logBytes t.log).length = n * logPageDataSize ∧
      logBytes t.log = (Spec.run n es).queue.seen.flatten ++ unreadBytes t.log ∧
      unreadBytes t.log = (Spec.run n es).queue.unseen.flatten ∧
      ∀ m, ∃ kept, (Spec.run n (es ++ [.write m])).queue.retained = kept ++ [m.encode.bytes] ∧
        kept <:+ (Spec.run n es).queue.retained ∧
        kept.flatten.length + m.encode.bytes.length < n * logPageDataSize ∧
        ∀ l, l <:+ (Spec.run n es).queue.retained →
          l.flatten.length + m.encode.bytes.length < n * logPageDataSize → l <:+ kept := by
  obtain ⟨t, hrun, hrefines⟩ := (refines_create hn hfit).run es
  change Refines n t (Spec.run n es) at hrefines
  have hbytes := hrefines.queue.logBytes
  have hunread := hrefines.queue.unreadBytes
  have havail := hrefines.queue.avail
  refine ⟨t, hrun, hrefines.out, hbytes, ?_, ?_, ?_, hunread, ?_⟩
  · exact written_run (logSize n) Spec.create es
  · rw [hbytes, havail, hrefines.pages, logSize]
  · rw [hbytes, hunread, retained, flatten_append]
  · intro m
    have hsmall : m.encode.bytes.length < logSize n := by
      have hmax : m.encode.bytes.length ≤ 255 := (framed_encode m).length_le
      have hpage : logPageDataSize ≤ logSize n := Nat.le_mul_of_pos_left _ hn
      exact Nat.lt_of_le_of_lt hmax (Nat.lt_of_lt_of_le (by decide) hpage)
    obtain ⟨hend, hroom, hlongest⟩ :=
      Queue.evict_longest hsmall _ (Spec.run n es).queue le_rfl
    refine ⟨_, ?_, hend, hroom, hlongest⟩
    rw [Spec.run, foldl_append]
    exact (append_assoc _ _ _).symm

def intMessage : Message := .tsv ⟨0, 0, fun _ => 0, 0⟩ 7 [.int32 5]

/-- One page, a message, a read and a destructive read. -/
theorem ipc_log_refines_queue_one_page :
    ∃ t, Run.run step ⟨ipcLogContextCreate 1, []⟩ [.write intMessage, .read, .drop] = some t ∧
      t.out = [.done, .took intMessage.encode.bytes, .took intMessage.encode.bytes] := by
  obtain ⟨t, hrun, hout, -⟩ :=
    ipc_log_refines_queue 1 le_rfl (by decide) [.write intMessage, .read, .drop]
  exact ⟨t, hrun, hout⟩

theorem dropLoop_stuck (len : Nat) (h : (ipcLogContextCreate n).writeAvail ≤ len) (fuel : Nat) :
    dropLoop len fuel (ipcLogContextCreate n) = none := by
  induction fuel with
  | zero => rfl
  | succ fuel ih =>
    rw [dropLoop, if_pos h]
    exact ih

/-- More pages than `write_avail` can count: the first number of pages beyond 2^32 bytes counts
816 free bytes of an empty log, and 2^29 pages count none, so that the dropping loop of the
first write never ends. -/
theorem ipc_log_avail_truncated :
    (ipcLogContextCreate 1067338).writeAvail = 816 ∧
      logBytes (ipcLogContextCreate 1067338) = [] ∧ 1067338 * logPageDataSize = 4294968112 ∧
      ∀ (m : Message) (fuel : Nat),
        ipcLogWrite (ipcLogContextCreate 536870912) fuel m.encode = none := by
  refine ⟨by decide +kernel, by decide +kernel, by decide +kernel, ?_⟩
  intro m fuel
  have hzero : (ipcLogContextCreate 536870912).writeAvail = 0 := by decide +kernel
  rw [ipcLogWrite, dropLoop_stuck _ (by rw [hzero]; exact Nat.zero_le _), Option.map_none]

end MsmKernel.IpcLog
