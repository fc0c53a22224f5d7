import MsmKernel.IpcLog.Log

/-! The pages as one byte queue: `Holds s X u v` says that the read position stands behind `X`
bytes of everything ever written, that the bytes `u` follow up to the non-destructive read
position and the bytes `v` from there to the write position. -/
namespace MsmKernel.IpcLog
open MsmKernel Function PagedRing List
variable {s : Context} {X d : Nat} {u v : List UInt8}

def logSize (n : Nat) : Nat := n * logPageDataSize

def Context.readCursor (s : Context) : Cursor := ⟨s.readPage, s.readOffset⟩

open Context

def Context.ndReadCursor (s : Context) : Cursor := ⟨s.ndReadPage, s.ndReadOffset⟩

structure Holds (s : Context) (X : Nat) (u v : List UInt8) : Prop where
  size_lt : logSize s.numPages < 4294967296
  read : Parked logPageDataSize s.numPages X s.readCursor
  ndRead : Parked logPageDataSize s.numPages (X + u.length) s.ndReadCursor
  write : At logPageDataSize s.numPages (X + (u ++ v).length) s.writePage
    (s.writeOffset s.writePage)
  bytes : Ring.contents (logSize s.numPages) (flat logPageDataSize s.data)
    (X % logSize s.numPages) (u ++ v).length = u ++ v
  avail : s.writeAvail + (u ++ v).length = logSize s.numPages
  avail_pos : 0 < s.writeAvail

theorem holds_create {n : Nat} (hn : 1 ≤ n) (hfit : logSize n < 4294967296) :
    Holds (ipcLogContextCreate n) 0 [] [] := by
  have hsize : 0 < logSize n := Nat.mul_pos hn (by decide)
  have hat : At logPageDataSize n 0 0 0 := at_start hn
  refine ⟨hfit, ⟨hat, fun _ _ => rfl⟩, ⟨hat, fun _ _ => rfl⟩, hat, rfl, ?_, ?_⟩
  · exact Nat.mod_eq_of_lt hfit
  · exact lt_of_lt_of_eq hsize (Nat.mod_eq_of_lt hfit).symm

section
variable (h : Holds s X u v)
include h

theorem Holds.length_lt : (u ++ v).length < logSize s.numPages := by
  have havail := h.avail
  have hpos := h.avail_pos
  omega

theorem Holds.isNdReadEmpty_iff : isNdReadEmpty s = true ↔ v = [] := by
  have hlen := h.length_lt
  rw [length_append] at hlen
  have hiff := h.ndRead.here.eq_iff h.write (by simp) (by
    rw [length_append]; change _ < _ + logSize _; omega)
  simp only [isNdReadEmpty, Bool.and_eq_true, decide_eq_true_eq]
  refine hiff.trans ?_
  rw [length_append, ← length_eq_zero_iff]
  omega

theorem Holds.isReadEmpty_iff : isReadEmpty s = true ↔ u ++ v = [] := by
  have hlen := h.length_lt
  have hiff := h.read.here.eq_iff h.write (by simp) (by change _ < _ + logSize _; omega)
  simp only [isReadEmpty, Bool.and_eq_true, decide_eq_true_eq]
  refine hiff.trans ?_
  rw [← length_eq_zero_iff]
  omega

theorem Holds.isNdReadEqualRead_iff : isNdReadEqualRead s = true ↔ u = [] := by
  have hlen := h.length_lt
  rw [length_append] at hlen
  have hiff := h.read.here.eq_iff h.ndRead.here (by omega) (by change _ < _ + logSize _; omega)
  simp only [isNdReadEqualRead, Bool.and_eq_true, decide_eq_true_eq]
  rw [eq_comm (b := s.readPage)]
  refine hiff.trans ?_
  rw [← length_eq_zero_iff]
  omega

end

theorem off_next_eq_zero {off : Nat → Nat} {page : Nat} (h : ∀ k, k ≠ page → off k = 0) (k : Nat) :
    update off page 0 k = 0 := by
  by_cases hk : k = page
  · rw [hk, update_self]
  · rw [update_of_ne hk, h k hk]

theorem Holds.ipcLogRead_eq (h : Holds s X u v) (d : Nat) :
    ipcLogRead s d =
      (fetch logPageDataSize s.numPages s.data s.ndReadPage (s.ndReadOffset s.ndReadPage) d,
        { s with
          ndReadPage := (s.ndReadCursor.advance logPageDataSize s.numPages d).page
          ndReadOffset := (s.ndReadCursor.advance logPageDataSize s.numPages d).off }) := by
  have hoff : s.ndReadOffset s.ndReadPage ≤ logPageDataSize := h.ndRead.here.off_le
  have hnext := off_next_eq_zero h.ndRead.others
  simp only [ndReadCursor] at hnext
  simp only [ipcLogRead, fetch, Cursor.advance, ndReadCursor, getNextPage]
  by_cases hd : s.ndReadOffset s.ndReadPage + d ≤ logPageDataSize
  · have hmin : min (logPageDataSize - s.ndReadOffset s.ndReadPage) d = d := by omega
    simp [hd, hmin]
  · have hmin : min (logPageDataSize - s.ndReadOffset s.ndReadPage) d =
        logPageDataSize - s.ndReadOffset s.ndReadPage := by omega
    have hrest : d - (logPageDataSize - s.ndReadOffset s.ndReadPage) =
        s.ndReadOffset s.ndReadPage + d - logPageDataSize := by omega
    have hne : logPageDataSize - s.ndReadOffset s.ndReadPage ≠ d := by omega
    simp [hmin, hne, hd, hnext, hrest]

theorem contents_take_append {mem : Nat → UInt8} {size tail : Nat} (hd : d ≤ v.length)
    (h : Ring.contents size mem tail (u ++ v).length = u ++ v) :
    Ring.contents size mem ((tail + u.length) % size) d = v.take d := by
  have hdrop := congrArg (List.drop u.length) h
  rw [Ring.contents_drop, drop_left, length_append, Nat.add_sub_cancel_left] at hdrop
  rw [← hdrop, Ring.contents_take mem hd]

theorem Holds.after_read (h : Holds s X u v) (hd : d ≤ v.length) (hsize : d ≤ logPageDataSize) :
    (ipcLogRead s d).1 = v.take d ∧ Holds (ipcLogRead s d).2 X (u ++ v.take d) (v.drop d) := by
  rw [h.ipcLogRead_eq]
  constructor
  · have hfetch := h.ndRead.here.fetch_eq s.data hsize
    refine hfetch.trans ?_
    rw [← Nat.mod_add_mod]
    exact contents_take_append hd h.bytes
  · have hall : u ++ v.take d ++ v.drop d = u ++ v := by
      rw [append_assoc, take_append_drop]
    refine ⟨h.size_lt, h.read, ?_, ?_, ?_, ?_, h.avail_pos⟩
    · rw [length_append, length_take, Nat.min_eq_left hd, ← Nat.add_assoc]
      exact h.ndRead.advance hsize
    · rw [hall]
      exact h.write
    · rw [hall]
      exact h.bytes
    · rw [hall]
      exact h.avail

/-- The non-destructive position is left alone while bytes were read ahead; otherwise both positions
move together, also over a page end. -/
theorem Holds.ipcLogDrop_eq (h : Holds s X u v) (d : Nat) :
    ipcLogDrop s d =
      let nd := if u = [] then s.ndReadCursor.advance logPageDataSize s.numPages d
        else s.ndReadCursor
      (fetch logPageDataSize s.numPages s.data s.readPage (s.readOffset s.readPage) d,
        { s with
          readPage := (s.readCursor.advance logPageDataSize s.numPages d).page
          readOffset := (s.readCursor.advance logPageDataSize s.numPages d).off
          ndReadPage := nd.page
          ndReadOffset := nd.off
          writeAvail := u32 (s.writeAvail + d) }) := by
  have hoff : s.readOffset s.readPage ≤ logPageDataSize := h.read.here.off_le
  have hnext := off_next_eq_zero h.read.others
  have hndNext := off_next_eq_zero h.ndRead.others
  have hpush : isNdReadEqualRead s = decide (u = []) := by
    rw [Bool.eq_iff_iff, h.isNdReadEqualRead_iff, decide_eq_true_iff]
  have hsame : u = [] → s.ndReadPage = s.readPage ∧
      s.readOffset s.readPage = s.ndReadOffset s.ndReadPage := by
    intro hu
    simpa [isNdReadEqualRead, hu] using hpush
  have hahead : u ≠ [] → s.ndReadOffset s.ndReadPage ≠ 0 := by
    intro hu
    have hpos := length_pos_of_ne_nil hu
    have hzero := h.ndRead.here.off_zero
    simp only [ndReadCursor] at hzero
    omega
  simp only [readCursor] at hnext
  simp only [ndReadCursor] at hndNext
  simp only [ipcLogDrop, fetch, Cursor.advance, readCursor, ndReadCursor]
  by_cases hd : s.readOffset s.readPage + d ≤ logPageDataSize
  · have hmin : min (logPageDataSize - s.readOffset s.readPage) d = d := by omega
    by_cases hu : u = []
    · obtain ⟨hpage, hoffs⟩ := hsame hu
      rw [hpage] at hoffs
      simp [hd, hmin, dropBytes, hpush, hu, hpage, ← hoffs]
    · simp [hd, hmin, dropBytes, hpush, hu]
  · have hmin : min (logPageDataSize - s.readOffset s.readPage) d =
        logPageDataSize - s.readOffset s.readPage := by omega
    have hrest : d - (logPageDataSize - s.readOffset s.readPage) =
        s.readOffset s.readPage + d - logPageDataSize := by omega
    have hne : logPageDataSize - s.readOffset s.readPage ≠ d := by omega
    by_cases hu : u = []
    · obtain ⟨hpage, hoffs⟩ := hsame hu
      rw [hpage] at hoffs hndNext
      have hpush' : isNdReadEqualRead (dropPage s) = true := by
        rw [dropPage, if_pos (by simp [hpush, hu])]
        simp [isNdReadEqualRead, getNextPage, hnext, hndNext]
      simp only [hmin, dropBytes, hpush', hrest]
      simp [dropPage, hpush, hu, getNextPage, hne, hd, hnext, hndNext, hpage, ← hoffs]
    · have hpush' : isNdReadEqualRead (dropPage s) = false := by
        rw [dropPage, if_neg (by simp [hpush, hu])]
        simp [isNdReadEqualRead, getNextPage, hnext, (hahead hu).symm]
      simp only [hmin, dropBytes, hpush', hrest]
      simp [dropPage, hpush, hu, getNextPage, hne, hd, hnext]

theorem Holds.after_drop (h : Holds s X u v) (hd : d ≤ u.length ∨ u = [] ∧ d ≤ v.length)
    (hsize : d ≤ logPageDataSize) :
    (ipcLogDrop s d).1 = (u ++ v).take d ∧
      Holds (ipcLogDrop s d).2 (X + d) (u.drop d) (v.drop (d - u.length)) := by
  have hle : d ≤ (u ++ v).length := by
    rw [length_append]
    omega
  have hall : u.drop d ++ v.drop (d - u.length) = (u ++ v).drop d := drop_append.symm
  have havail := h.avail
  have hlt := h.size_lt
  have hpos := h.avail_pos
  rw [h.ipcLogDrop_eq]
  constructor
  · refine (h.read.here.fetch_eq s.data hsize).trans ?_
    have hbytes := contents_take_append (u := []) (v := u ++ v) hle h.bytes
    rwa [length_nil, Nat.add_zero, Nat.mod_mod] at hbytes
  · have hu32 : u32 (s.writeAvail + d) = s.writeAvail + d := Nat.mod_eq_of_lt (by omega)
    refine ⟨h.size_lt, h.read.advance hsize, ?_, ?_, ?_, ?_, ?_⟩
    · by_cases hu : u = []
      · subst hu
        simp only [if_true, drop_nil]
        exact h.ndRead.advance hsize
      · have hnd : X + d + (u.drop d).length = X + u.length := by
          rw [length_drop]
          have hdu := hd.resolve_right fun h => hu h.1
          omega
        simp only [hu, if_false]
        rw [hnd]
        exact h.ndRead
    · have hend : X + d + ((u ++ v).drop d).length = X + (u ++ v).length := by
        rw [length_drop]
        omega
      rw [hall, hend]
      exact h.write
    · rw [hall]
      have hdrop := congrArg (List.drop d) h.bytes
      rwa [Ring.contents_drop, Nat.mod_add_mod, ← length_drop] at hdrop
    · change u32 (s.writeAvail + d) + _ = logSize s.numPages
      rw [hu32, hall, length_drop]
      omega
    · change 0 < u32 (s.writeAvail + d)
      omega

theorem copyTo_nil (mem : Nat → UInt8) (pos : Nat) : Ring.copyTo mem pos [] = mem := by
  funext i
  simp [Ring.copyTo]

theorem commit_data (s : Context) (buff : List UInt8) :
    (commit s buff).data = store logPageDataSize s.numPages s.data s.writePage
      (s.writeOffset s.writePage) buff := by
  by_cases hb : min (logPageDataSize - s.writeOffset s.writePage) buff.length = buff.length
  · simp [commit, store, hb, copyTo_nil]
  · simp [commit, store, hb, getNextPage]

theorem commit_write {x : Nat} (s : Context) (buff : List UInt8)
    (h : At logPageDataSize s.numPages x s.writePage (s.writeOffset s.writePage))
    (hlen : buff.length ≤ logPageDataSize) :
    At logPageDataSize s.numPages (x + buff.length) (commit s buff).writePage
      ((commit s buff).writeOffset (commit s buff).writePage) := by
  have hoff := h.off_le
  by_cases hb : min (logPageDataSize - s.writeOffset s.writePage) buff.length = buff.length
  · have hstay := h.stay (d := buff.length) (by omega)
    simpa [commit, hb] using hstay
  · have hturn := h.turn (d := buff.length) (by omega) hlen
    have hrest : buff.length - min (logPageDataSize - s.writeOffset s.writePage) buff.length =
        s.writeOffset s.writePage + buff.length - logPageDataSize := by omega
    simpa [commit, hb, getNextPage, hrest] using hturn

theorem commit_frame (s : Context) (buff : List UInt8) :
    (commit s buff).numPages = s.numPages ∧ (commit s buff).readCursor = s.readCursor ∧
      (commit s buff).ndReadCursor = s.ndReadCursor ∧
      (commit s buff).writeAvail = u32 (s.writeAvail + 4294967296 - buff.length) ∧
      (commit s buff).destroyed = s.destroyed := by
  unfold commit
  dsimp only
  split_ifs <;> exact ⟨rfl, rfl, rfl, rfl, rfl⟩

theorem Holds.after_commit {buff : List UInt8} (h : Holds s X u v) (hlen : buff.length ≤ logPageDataSize)
    (hroom : buff.length < s.writeAvail) : Holds (commit s buff) X u (v ++ buff) := by
  obtain ⟨hn, hread, hnd, havail', -⟩ := commit_frame s buff
  have havail := h.avail
  have hlt := h.size_lt
  have hend : (u ++ (v ++ buff)).length = (u ++ v).length + buff.length := by
    rw [← append_assoc, length_append]
  have hu32 : (commit s buff).writeAvail = s.writeAvail - buff.length := by
    rw [havail', u32, Nat.add_comm, Nat.add_sub_assoc hroom.le, Nat.add_mod_left,
      Nat.mod_eq_of_lt (by omega)]
  refine ⟨by rw [hn]; exact hlt, by rw [hn, hread]; exact h.read, by rw [hn, hnd]; exact h.ndRead,
    ?_, ?_, ?_, by omega⟩
  · rw [hn, hend, ← Nat.add_assoc]
    exact commit_write s buff h.write hlen
  · rw [hn, commit_data, hend]
    have hstore := h.write.contents_store s.data buff hlen (by change _ ≤ logSize _; omega)
    refine hstore.trans ?_
    rw [← append_assoc]
    congr 1
    exact h.bytes
  · rw [hn, hu32, hend]
    omega

end MsmKernel.IpcLog
