import MsmKernel.Lib.EvictingQueue
import MsmKernel.IpcLog.Positions

/-! Messages in the log: every encoded message carries its own length, so header and body
reads stay on message boundaries. `Represents s q` relates the pages to a message queue. -/
namespace MsmKernel.IpcLog
open MsmKernel Function EvictingQueue List IpcLog Queue
variable {s : Context} {q : Queue UInt8} {m : List UInt8}

structure Framed (m : List UInt8) : Prop where
  two_le : 2 ≤ m.length
  length_le : m.length ≤ maxMsgSize
  size : hdrSize m = m.length - 2

def Open (e : EncodeContext) : Prop := 2 ≤ e.offset ∧ e.offset ≤ maxMsgSize

theorem open_start (e : EncodeContext) (type : Nat) : Open (msgEncodeStart e type) :=
  ⟨le_rfl, show 2 ≤ 255 by decide⟩

variable {e : EncodeContext} {fuel : Nat}

theorem Open.tsvWriteData (h : Open e) (data : List UInt8) : Open (tsvWriteData e data).1 := by
  unfold IpcLog.tsvWriteData
  split_ifs with hfull
  · exact h
  · exact ⟨h.1.trans (Nat.le_add_right _ _), Nat.le_of_not_gt hfull⟩

theorem Open.tsvWrite (h : Open e) (type : Nat) (data : List UInt8) :
    Open (tsvWrite type e data).1 := by
  have hheader := h.tsvWriteData [UInt8.ofNat type, UInt8.ofNat data.length]
  unfold IpcLog.tsvWrite
  dsimp only
  split_ifs
  · exact hheader
  · exact hheader.tsvWriteData data

theorem Open.writers (h : Open e) (writers : List Writer) :
    Open (writers.foldl Writer.apply e) := by
  induction writers generalizing e with
  | nil => exact h
  | cons w ws ih =>
    refine ih ?_
    cases w <;> exact h.tsvWrite _ _

theorem open_encodeText (hroom : e.offset + 3 ≤ maxMsgSize) (text : List UInt8) :
    Open (encodeText e text) := by
  have hcut : (text.take (maxMsgSize - (e.offset + 2) - 1)).length ≤
      maxMsgSize - (e.offset + 2) - 1 := length_take_le _ _
  have hfits : ¬ e.offset + 2 > maxMsgSize := by omega
  simp only [Open, encodeText, tsvWriteHeader, IpcLog.tsvWriteData, length_cons,
    length_nil, Nat.zero_add, Nat.reduceAdd, hfits, if_false]
  omega

theorem framed_encodeEnd (h : Open e) : Framed (msgEncodeEnd e).bytes := by
  obtain ⟨hlow, hhigh⟩ := h
  have hlen : (msgEncodeEnd e).bytes.length = e.offset := by
    simp [EncodeContext.bytes, msgEncodeEnd]
  have hbyte : (UInt8.ofNat (e.offset - 2)).toNat = e.offset - 2 := by
    rw [UInt8.toNat_ofNat_of_lt']
    simp only [maxMsgSize] at hhigh
    change e.offset - 2 < 256
    omega
  refine ⟨by rw [hlen]; exact hlow, by rw [hlen]; exact hhigh, ?_⟩
  have hsecond : (msgEncodeEnd e).bytes.getD 1 0 = UInt8.ofNat (e.offset - 2) := by
    simp only [EncodeContext.bytes, msgEncodeEnd, Ring.copyFrom, getD_eq_getElem?_getD]
    rw [List.getElem?_map, List.getElem?_range (by omega)]
    rfl
  rw [hdrSize, hsecond, hbyte, hlen]

theorem framed_encode (m : Message) : Framed m.encode.bytes := by
  cases m with
  | tsv e type writers => exact framed_encodeEnd ((open_start e type).writers writers)
  | string e now qtimer text =>
    refine framed_encodeEnd (open_encodeText ?_ text)
    simp [tsvQtimerWrite, tsvTimestampWrite, tsvWrite, tsvWriteHeader, tsvWriteData, msgEncodeStart,
      maxMsgSize, leBytes]

def Represents (s : Context) (q : Queue UInt8) : Prop :=
  (∃ X, Holds s X q.seen.flatten q.unseen.flatten) ∧ ∀ m ∈ q.retained, Framed m

theorem Framed.size_take (h : Framed m) (rest : List UInt8) :
    hdrSize ((m ++ rest).take 2) = m.length - 2 := by
  rw [← h.size, take_append_of_le_length h.two_le]
  obtain ⟨a, b, l, rfl⟩ : ∃ a b l, m = a :: b :: l := by
    match m, h.two_le with
    | a :: b :: l, _ => exact ⟨a, b, l, rfl⟩
  rfl

theorem take_two_append (h : 2 ≤ m.length) (rest : List UInt8) :
    (m ++ rest).take 2 ++ ((m ++ rest).drop 2).take (m.length - 2) = m := by
  rw [← take_add, Nat.add_sub_cancel' h, take_left]

theorem drop_two_drop (h : 2 ≤ m.length) (rest : List UInt8) :
    ((m ++ rest).drop 2).drop (m.length - 2) = rest := by
  rw [drop_drop, Nat.add_sub_cancel' h, drop_left]

theorem Framed.append_ne_nil (h : Framed m) (rest : List UInt8) : m ++ rest ≠ [] := by
  intro hnil
  have hlen := congrArg List.length hnil
  have htwo := h.two_le
  rw [length_append, length_nil] at hlen
  omega

theorem Represents.msgRead (h : Represents s q) :
    (msgRead s).1 = q.unseen.headD [] ∧ Represents (msgRead s).2 q.read := by
  obtain ⟨⟨X, hX⟩, hframed⟩ := h
  obtain ⟨g, r, u⟩ := q
  cases u with
  | nil =>
    have hempty : isNdReadEmpty s = true := hX.isNdReadEmpty_iff.2 rfl
    simp only [msgRead, hempty, if_true]
    exact ⟨rfl, ⟨X, hX⟩, hframed⟩
  | cons m u =>
    have hm : Framed m := hframed m (by simp [retained])
    have htwo := hm.two_le
    have hmax : m.length ≤ 255 := hm.length_le
    have hempty : isNdReadEmpty s = false := by
      rw [Bool.eq_false_iff, ne_eq, hX.isNdReadEmpty_iff]
      exact hm.append_ne_nil _
    simp only [flatten_cons] at hX
    obtain ⟨hhdr, hX'⟩ := hX.after_read (d := 2) (by rw [length_append]; omega) (by decide)
    have hsize : hdrSize (ipcLogRead s 2).1 = m.length - 2 := by
      rw [hhdr, hm.size_take]
    obtain ⟨hbody, hX''⟩ := hX'.after_read (d := m.length - 2)
      (by rw [length_drop, length_append]; omega) (by change _ ≤ 4024; omega)
    simp only [msgRead, hempty, hsize]
    refine ⟨?_, ⟨X, ?_⟩, ?_⟩
    · rw [if_neg (by simp), hhdr, hbody, take_two_append htwo]
      rfl
    · rw [if_neg (by simp)]
      rw [append_assoc, take_two_append htwo, drop_two_drop htwo] at hX''
      simpa [Queue.read] using hX''
    · simpa using hframed

theorem Holds.msgDrop {X : Nat} {u v : List UInt8} (h : Holds s X u v) (hm : Framed m)
    (hfront : (∃ r, u = m ++ r) ∨ u = [] ∧ ∃ r, v = m ++ r) :
    (msgDrop s).1 = m ∧
      Holds (msgDrop s).2 (X + m.length) (u.drop m.length) (v.drop (m.length - u.length)) := by
  have htwo := hm.two_le
  have hmax : m.length ≤ 255 := hm.length_le
  obtain ⟨⟨r, hall⟩, hlen⟩ : (∃ r, u ++ v = m ++ r) ∧
      (m.length ≤ u.length ∨ u.length = 0 ∧ u = [] ∧ m.length ≤ v.length) := by
    rcases hfront with ⟨r, rfl⟩ | ⟨rfl, r, rfl⟩
    · exact ⟨⟨r ++ v, append_assoc ..⟩, .inl (by simp)⟩
    · exact ⟨⟨r, rfl⟩, .inr ⟨rfl, rfl, by simp⟩⟩
  have hempty : isReadEmpty s = false := by
    rw [Bool.eq_false_iff, ne_eq, h.isReadEmpty_iff, hall]
    exact hm.append_ne_nil _
  obtain ⟨hhdr, h'⟩ := h.after_drop (d := 2)
    (hlen.imp (fun _ => by omega) fun h => ⟨h.2.1, by omega⟩) (by decide)
  have hsize : hdrSize (ipcLogDrop s 2).1 = m.length - 2 := by rw [hhdr, hall, hm.size_take]
  obtain ⟨hbody, h''⟩ := h'.after_drop (d := m.length - 2)
    (hlen.imp (fun _ => by rw [length_drop]; omega)
      fun h => ⟨by rw [h.2.1, drop_nil], by rw [length_drop]; omega⟩)
    (by change _ ≤ 4024; omega)
  rw [← drop_append, hall] at hbody
  have hdrop : 2 - u.length + (m.length - 2 - (u.length - 2)) = m.length - u.length := by omega
  rw [drop_drop, drop_drop, length_drop, hdrop, Nat.add_assoc, Nat.add_sub_cancel' htwo] at h''
  simp only [IpcLog.msgDrop, hempty, hsize, Bool.not_false, if_true]
  exact ⟨by rw [hhdr, hbody, hall, take_two_append htwo], h''⟩

theorem Represents.msgDrop (h : Represents s q) :
    (msgDrop s).1 = q.retained.headD [] ∧ Represents (msgDrop s).2 q.take := by
  obtain ⟨⟨X, hX⟩, hframed⟩ := h
  obtain ⟨g, r, u⟩ := q
  cases r with
  | cons m r =>
    obtain ⟨hfirst, h'⟩ := hX.msgDrop (hframed m (by simp [retained])) (.inl ⟨r.flatten, rfl⟩)
    refine ⟨hfirst, ⟨_, by simpa [Queue.take] using h'⟩, fun m' hm' => ?_⟩
    exact hframed m' (mem_cons_of_mem m hm')
  | nil =>
    cases u with
    | cons m u =>
      obtain ⟨hfirst, h'⟩ := hX.msgDrop (hframed m (by simp [retained]))
        (.inr ⟨rfl, u.flatten, rfl⟩)
      refine ⟨hfirst, ⟨_, by simpa [Queue.take] using h'⟩, fun m' hm' => ?_⟩
      exact hframed m' (mem_cons_of_mem m hm')
    | nil =>
      have hempty : isReadEmpty s = true := hX.isReadEmpty_iff.2 rfl
      simp only [IpcLog.msgDrop, hempty]
      exact ⟨rfl, ⟨X, hX⟩, hframed⟩

theorem numPages_dropBytes (s : Context) (a b : Nat) :
    (dropBytes s a b).numPages = s.numPages ∧ (dropBytes s a b).destroyed = s.destroyed := by
  unfold dropBytes
  split_ifs <;> exact ⟨rfl, rfl⟩

theorem numPages_ipcLogDrop (s : Context) (d : Nat) :
    (ipcLogDrop s d).2.numPages = s.numPages ∧ (ipcLogDrop s d).2.destroyed = s.destroyed := by
  have hpage : (dropPage s).numPages = s.numPages ∧ (dropPage s).destroyed = s.destroyed := by
    unfold dropPage
    split_ifs <;> exact ⟨rfl, rfl⟩
  unfold ipcLogDrop
  dsimp only
  split_ifs
  · exact ⟨(numPages_dropBytes _ _ _).1.trans hpage.1, (numPages_dropBytes _ _ _).2.trans hpage.2⟩
  · exact numPages_dropBytes s _ _

theorem numPages_msgDrop (s : Context) :
    (IpcLog.msgDrop s).2.numPages = s.numPages ∧ (IpcLog.msgDrop s).2.destroyed = s.destroyed := by
  obtain ⟨hn, hd⟩ := numPages_ipcLogDrop s 2
  unfold IpcLog.msgDrop
  split_ifs
  · exact ⟨(numPages_ipcLogDrop _ _).1.trans hn, (numPages_ipcLogDrop _ _).2.trans hd⟩
  · exact ⟨rfl, rfl⟩

section
variable (h : Represents s q)
include h

theorem Represents.avail : s.writeAvail + q.retained.flatten.length = logSize s.numPages := by
  obtain ⟨⟨X, hX⟩, -⟩ := h
  rw [retained, flatten_append]
  exact hX.avail

/-- The dropping loop ends, in the queue that lost its oldest messages. -/
theorem Represents.dropLoop {len k : Nat} (hlen : len < logSize s.numPages)
    (hk : q.retained.length ≤ k) (hfuel : k < fuel) :
    ∃ t, dropLoop len fuel s = some t ∧ len < t.writeAvail ∧ t.numPages = s.numPages ∧
      t.destroyed = s.destroyed ∧ Represents t (q.evict (logSize s.numPages) len k) := by
  induction k generalizing s q fuel with
  | zero =>
    obtain ⟨fuel, rfl⟩ := Nat.exists_eq_add_of_lt hfuel
    have hnil : q.retained = [] := length_eq_zero_iff.1 (Nat.le_zero.1 hk)
    have havail := h.avail
    rw [hnil, flatten_nil, length_nil] at havail
    have hroom : len < s.writeAvail := by omega
    refine ⟨s, ?_, hroom, rfl, rfl, h⟩
    simp [dropLoop, hroom]
  | succ k ih =>
    obtain ⟨fuel, rfl⟩ := Nat.exists_eq_add_of_lt hfuel
    have havail := h.avail
    by_cases hfull : s.writeAvail ≤ len
    · obtain ⟨-, hdrop⟩ := h.msgDrop
      obtain ⟨hn, hd⟩ := numPages_msgDrop s
      have hshort : q.take.retained.length ≤ k := by
        rw [retained_take, length_tail]
        omega
      obtain ⟨t, hrun, hroom, htn, htd, ht⟩ := ih hdrop (by rw [hn]; exact hlen)
        hshort (show k < k + 1 + fuel by omega)
      refine ⟨t, ?_, hroom, htn.trans hn, htd.trans hd, ?_⟩
      · simpa [dropLoop, hfull] using hrun
      · rw [evict, if_pos (by omega), ← hn]
        exact ht
    · refine ⟨s, ?_, by omega, rfl, rfl, ?_⟩
      · simp [dropLoop, hfull]
      · rw [evict, if_neg (by omega)]
        exact h

theorem Represents.length_le : q.retained.length ≤ q.retained.flatten.length := by
  obtain ⟨-, hframed⟩ := h
  generalize q.retained = l at hframed
  induction l with
  | nil => exact le_rfl
  | cons m l ih =>
    have htwo := (hframed m (mem_cons_self ..)).two_le
    have hrest := ih fun m' hm' => hframed m' (mem_cons_of_mem m hm')
    rw [flatten_cons, length_append, length_cons]
    omega

theorem Represents.length_lt : q.retained.flatten.length < logSize s.numPages := by
  obtain ⟨⟨X, hX⟩, -⟩ := h
  rw [retained, flatten_append]
  exact hX.length_lt

theorem Represents.ipcLogWrite (m : Message) (hfuel : logSize s.numPages ≤ fuel) :
    ∃ t, ipcLogWrite s fuel m.encode = some t ∧ t.numPages = s.numPages ∧
      t.destroyed = s.destroyed ∧
      Represents t (q.write (logSize s.numPages) m.encode.bytes) := by
  have hm := framed_encode m
  have hmax : m.encode.bytes.length ≤ 255 := hm.length_le
  have hoff : m.encode.bytes.length = m.encode.offset := by simp [EncodeContext.bytes]
  have hpages : logPageDataSize ≤ logSize s.numPages := by
    have hlt := h.length_lt
    rcases Nat.eq_zero_or_pos s.numPages with hzero | hpos
    · rw [hzero, logSize, Nat.zero_mul] at hlt
      omega
    · exact Nat.le_mul_of_pos_left _ hpos
  have hsmall : m.encode.bytes.length < logSize s.numPages :=
    Nat.lt_of_le_of_lt hmax (Nat.lt_of_lt_of_le (by decide) hpages)
  have hcount := h.length_le
  have hlt := h.length_lt
  obtain ⟨t, hrun, hroom, hn, hd, ⟨X, hX⟩, hframed⟩ := h.dropLoop hsmall le_rfl
    (show q.retained.length < fuel by omega)
  obtain ⟨hcn, -, -, -, hcd⟩ := commit_frame t m.encode.bytes
  refine ⟨commit t m.encode.bytes, ?_, hcn.trans hn, hcd.trans hd, ⟨X, ?_⟩, ?_⟩
  · rw [IpcLog.ipcLogWrite, ← hoff, hrun, Option.map_some]
  · have hcommit := hX.after_commit (hmax.trans (by decide)) hroom
    simpa [write, makeRoom] using hcommit
  · intro m' hm'
    simp only [write, retained, ← append_assoc] at hm'
    rcases mem_append.1 hm' with hold | hnew
    · exact hframed m' hold
    · rw [mem_singleton.1 hnew]
      exact hm

end

def handOver (decoded : List UInt8 → Nat) : Int → List (List UInt8) → Int × List (List UInt8)
  | size, [] => (size, [])
  | size, m :: u =>
    if maxMsgDecodedSize ≤ size then
      let r := handOver decoded (size - decoded m) u
      (r.1, m :: r.2)
    else (size, [])

theorem numPages_msgRead (s : Context) :
    (IpcLog.msgRead s).2.numPages = s.numPages ∧ (IpcLog.msgRead s).2.destroyed = s.destroyed := by
  have hread : ∀ (s : Context) (d : Nat), (ipcLogRead s d).2.numPages = s.numPages ∧
      (ipcLogRead s d).2.destroyed = s.destroyed := by
    intro s d
    unfold ipcLogRead
    dsimp only
    split_ifs <;> exact ⟨rfl, rfl⟩
  unfold msgRead
  split_ifs
  · exact ⟨rfl, rfl⟩
  · exact ⟨(hread _ _).1.trans (hread s 2).1, (hread _ _).2.trans (hread s 2).2⟩

theorem Represents.extractLoop (decoded : List UInt8 → Nat) (size : Int) (h : Represents s q)
    (hfuel : q.unseen.length < fuel) :
    ∃ t, extractLoop decoded fuel size s =
        some ((handOver decoded size q.unseen).1, (handOver decoded size q.unseen).2, t) ∧
      t.numPages = s.numPages ∧ t.destroyed = s.destroyed ∧
      Represents t (Queue.read^[(handOver decoded size q.unseen).2.length] q) := by
  induction fuel generalizing s q size with
  | zero => omega
  | succ fuel ih =>
    obtain ⟨hfirst, hread⟩ := h.msgRead
    obtain ⟨hn, hd⟩ := numPages_msgRead s
    obtain ⟨⟨X, hX⟩, hframed⟩ := h
    obtain ⟨g, r, u⟩ := q
    cases u with
    | nil =>
      have hempty : isNdReadEmpty s = true := hX.isNdReadEmpty_iff.2 rfl
      refine ⟨s, ?_, rfl, rfl, ⟨X, hX⟩, hframed⟩
      simp [extractLoop, hempty, handOver]
    | cons m u =>
      have hm : Framed m := hframed m (by simp [retained])
      have hempty : isNdReadEmpty s = false := by
        rw [Bool.eq_false_iff, ne_eq, hX.isNdReadEmpty_iff]
        exact hm.append_ne_nil _
      by_cases hroom : maxMsgDecodedSize ≤ size
      · obtain ⟨t, hloop, htn, htd, ht⟩ := ih (size - decoded m) hread
          (by simpa [Queue.read] using hfuel)
        have hhead : (IpcLog.msgRead s).1 = m := hfirst
        refine ⟨t, ?_, htn.trans hn, htd.trans hd, ?_⟩
        · simp only [extractLoop, hempty, hroom, hhead, hloop, handOver]
          rfl
        · simp only [handOver, if_pos hroom, length_cons, iterate_succ_apply]
          exact ht
      · refine ⟨s, ?_, rfl, rfl, ?_⟩
        · simp [extractLoop, hroom, handOver]
        · simp only [handOver, if_neg hroom]
          exact ⟨⟨X, hX⟩, hframed⟩

end MsmKernel.IpcLog
