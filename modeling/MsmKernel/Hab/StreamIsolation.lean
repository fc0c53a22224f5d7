import MsmKernel.Hab.Stream

/-! A pipe that the others leave undisturbed returns what it would return alone, and with a writer
and a reader that keep to the framing it is a queue of the committed bytes. -/
namespace MsmKernel.Hab.Stream
open MsmKernel SharedRegister List
open Pipe (firstCount wrapIndex headSignature habHeadSignature sizeofHeader
  wrapIndex_zero firstCount_pos)

structure Fifo where
  queue : List Byte
  staged : List Byte
  deriving DecidableEq

open Fifo

def Fifo.length (f : Fifo) : Nat := f.queue.length + f.staged.length

def Fifo.call (bufSize : Nat) (f : Fifo) : Op → Out × Fifo
  | .write (some p) =>
    if p ≠ [] ∧ f.length + p.length ≤ bufSize then
      ((BitVec.ofNat 32 p.length, []), { f with staged := f.staged ++ p })
    else ((0, []), f)
  | .commit => ((0, []), ⟨f.queue ++ f.staged, []⟩)
  | .read (some _) size _ =>
    ((BitVec.ofNat 32 (min f.queue.length size.toNat), f.queue.take size.toNat),
      { f with queue := f.queue.drop size.toNat })
  | _ => ((0, []), f)

def Fifo.trace (bufSize : Nat) : Fifo → List Op → List Out
  | _, [] => []
  | f, o :: os => (f.call bufSize o).1 :: Fifo.trace bufSize (f.call bufSize o).2 os

def Fifo.after (bufSize : Nat) : Fifo → List Op → Fifo
  | f, [] => f
  | f, o :: os => Fifo.after bufSize (f.call bufSize o).2 os

def Fifo.committed (bufSize : Nat) : Fifo → List Op → List Byte
  | _, [] => []
  | f, .commit :: os => f.staged ++ Fifo.committed bufSize (f.call bufSize .commit).2 os
  | f, o :: os => Fifo.committed bufSize (f.call bufSize o).2 os

/- Nobody tampers with the region, a length is a 32-bit number, and a header is read where the writer
put one. -/
def Fifo.Framed (f : Fifo) : Op → Prop
  | .write (some p) => p.length < 2 ^ 32
  | .read (some p) size clear =>
    clear = true → size = sizeofHeader → f.queue ≠ [] →
      headSignature (f.queue.take size.toNat ++ p.drop (f.queue.take size.toNat).length) =
        habHeadSignature
  | .tamper _ => False
  | _ => True

def Fifo.FramedRun (bufSize : Nat) : Fifo → List Op → Prop
  | _, [] => True
  | f, o :: os => f.Framed o ∧ Fifo.FramedRun bufSize (f.call bufSize o).2 os

/- The counts may start anywhere and wrap. -/
structure Represents (bufSize : BitVec 32) (s : HabPipe) (f : Fifo) : Prop where
  size : s.size = bufSize
  rxIndex : s.rxIndex.toNat < bufSize.toNat
  txIndex : s.txIndex.toNat = (s.rxIndex.toNat + f.length) % bufSize.toNat
  wrCount : s.wrCount = s.rdCount + BitVec.ofNat 32 f.queue.length
  txWrCount : s.txWrCount = s.rdCount + BitVec.ofNat 32 f.length
  fits : f.length ≤ bufSize.toNat
  bytes : Ring.contents bufSize.toNat s.data s.rxIndex.toNat f.length = f.queue ++ f.staged

section Refinement
variable {bufSize : BitVec 32} {s : HabPipe} {f : Fifo}

theorem toNat_ofNat_of_le {n : Nat} (h : n ≤ bufSize.toNat) : (BitVec.ofNat 32 n).toNat = n := by
  rw [BitVec.toNat_ofNat, Nat.mod_eq_of_lt (by omega)]

section
variable {index n : BitVec 32} (hindex : index.toNat < bufSize.toNat)
include hindex

theorem firstCount_toNat :
    (firstCount bufSize index n).toNat = min n.toNat (bufSize.toNat - index.toNat) := by
  unfold firstCount
  split_ifs <;> bv_omega

theorem secondCount_toNat :
    (n - firstCount bufSize index n).toNat = n.toNat - (bufSize.toNat - index.toNat) := by
  unfold firstCount
  split_ifs <;> bv_omega

end

theorem wrapIndex_toNat {index : BitVec 32} (hindex : index.toNat ≤ bufSize.toNat) :
    (wrapIndex bufSize index).toNat = index.toNat % bufSize.toNat := by
  unfold wrapIndex
  split_ifs with h
  · have heq : index.toNat = bufSize.toNat := Nat.le_antisymm hindex h
    rw [heq, Nat.mod_self]
    rfl
  · exact (Nat.mod_eq_of_lt (by bv_omega)).symm

theorem index_add_toNat {index count : BitVec 32}
    (h : index.toNat + count.toNat ≤ bufSize.toNat) :
    (index + count).toNat = index.toNat + count.toNat := by
  rw [BitVec.toNat_add, Nat.mod_eq_of_lt (by omega)]

def behind (bufSize index n : BitVec 32) : BitVec 32 :=
  if n ≤ bufSize - index then wrapIndex bufSize (index + n) else n - (bufSize - index)

theorem behind_toNat {index n : BitVec 32} (hindex : index.toNat < bufSize.toNat)
    (hn : n.toNat ≤ bufSize.toNat) :
    (behind bufSize index n).toNat = (index.toNat + n.toNat) % bufSize.toNat := by
  unfold behind
  split_ifs with hfit
  · have hle : index.toNat + n.toNat ≤ bufSize.toNat := by bv_omega
    rw [wrapIndex_toNat ((index_add_toNat hle).trans_le hle), index_add_toNat hle]
  · rw [Ring.mod_of_lt_two_mul (by omega), if_neg (by bv_omega)]
    bv_omega

theorem put_put {index n : BitVec 32} {p : List Byte} (mem : Nat → Byte) (hp : p.length = n.toNat)
    (hindex : index.toNat < bufSize.toNat) (hpos : n ≠ 0) (hn : n.toNat ≤ bufSize.toNat) :
    put bufSize (n - firstCount bufSize index n)
        ((p.drop (firstCount bufSize index n).toNat).take (n - firstCount bufSize index n).toNat)
        (put bufSize (firstCount bufSize index n) (p.take (firstCount bufSize index n).toNat)
          (index, mem)) =
      (behind bufSize index n, Ring.write bufSize.toNat mem index.toNat p) := by
  have hfirst : 0 < firstCount bufSize index n := firstCount_pos hindex hpos
  have hlen : min p.length (bufSize.toNat - index.toNat) = (firstCount bufSize index n).toNat := by
    rw [firstCount_toNat hindex, hp]
  have hrest : (p.drop (firstCount bufSize index n).toNat).take
      (n - firstCount bufSize index n).toNat = p.drop (firstCount bufSize index n).toNat := by
    refine take_of_length_le ?_
    rw [length_drop, hp, secondCount_toNat hindex, firstCount_toNat hindex]
    omega
  simp only [Ring.write, hlen, hrest]
  rw [put, put, if_pos hfirst]
  by_cases hfit : n ≤ bufSize - index
  · have hall : firstCount bufSize index n = n := if_pos hfit
    have hnone : p.drop n.toNat = [] := drop_eq_nil_of_le hp.le
    rw [hall, BitVec.sub_self, if_neg (by decide), behind, if_pos hfit, hnone]
    refine Prod.ext rfl ?_
    funext j
    simp [Ring.copyTo]
  · have hcut : firstCount bufSize index n = bufSize - index := if_neg hfit
    have hleft : 0 < n - firstCount bufSize index n := by
      bv_omega
    have hzero := wrapIndex_zero hleft
    have hlt : ¬ bufSize ≤ n - (bufSize - index) := by bv_omega
    have hsum : (0 : BitVec 32) + (n - firstCount bufSize index n) = n - (bufSize - index) := by
      bv_omega
    rw [if_pos hleft, hzero]
    rw [hsum, behind, if_neg hfit, wrapIndex, if_neg hlt]
    rfl

section Counts
variable (h : Represents bufSize s f)
include h

theorem Represents.queue_le : f.queue.length ≤ bufSize.toNat :=
  (Nat.le_add_right ..).trans h.fits

theorem Represents.avail : s.avail.toNat = f.queue.length := by
  have hcount : s.avail = BitVec.ofNat 32 f.queue.length := by
    rw [HabPipe.avail, h.wrCount]
    bv_omega
  rw [hcount, toNat_ofNat_of_le h.queue_le]

theorem Represents.toRead (size : BitVec 32) :
    (s.toRead size).toNat = min f.queue.length size.toNat := by
  have havail := h.avail
  unfold HabPipe.toRead
  split_ifs with hlt
  · rw [havail]
    bv_omega
  · bv_omega

theorem Represents.idle_iff (p : Option (List Byte)) (size : BitVec 32) :
    s.Idle bufSize p size ↔ p = none ∨ f.queue = [] ∨ size = 0 := by
  have hindex : ¬ bufSize < s.rxIndex := by
    have hlt := h.rxIndex
    bv_omega
  have hempty : s.avail = 0 ↔ f.queue = [] := by
    rw [← BitVec.toNat_inj, h.avail]
    exact length_eq_zero_iff
  simp only [HabPipe.Idle, hindex, or_false, hempty]

theorem Represents.copied (size : BitVec 32) :
    s.copied bufSize size (s.index1 bufSize size) = f.queue.take size.toNat := by
  have htoRead := h.toRead size
  have hfits := h.fits
  have hle : (s.toRead size).toNat ≤ f.length := by
    rw [htoRead, Fifo.length]
    omega
  have hread : s.copied bufSize size (s.index1 bufSize size) =
      Ring.read bufSize.toNat s.data s.rxIndex.toNat (s.toRead size).toNat := by
    simp only [HabPipe.copied, Ring.read, firstCount_toNat h.rxIndex, secondCount_toNat h.rxIndex]
    congr 1
    by_cases hleft : 0 < s.toRead size - firstCount bufSize s.rxIndex (s.toRead size)
    · have hpos : s.toRead size ≠ 0 := by
        rintro hzero
        rw [hzero, BitVec.lt_def, secondCount_toNat h.rxIndex] at hleft
        exact absurd hleft (by simp)
      have hfirst := firstCount_pos h.rxIndex hpos
      rw [HabPipe.index1]
      simp only [if_pos hfirst, wrapIndex_zero hleft]
      congr 1
      omega
    · have hnone : (s.toRead size).toNat - (bufSize.toNat - s.rxIndex.toNat) = 0 := by
        rw [← secondCount_toNat h.rxIndex]
        bv_omega
      have hnone' : (s.toRead size).toNat -
          min (s.toRead size).toNat (bufSize.toNat - s.rxIndex.toNat) = 0 := by omega
      rw [hnone, hnone', Ring.copyFrom_zero, Ring.copyFrom_zero]
  rw [hread, Ring.read_eq_contents _ h.rxIndex (hle.trans hfits), ← Ring.contents_take _ hle, h.bytes,
    htoRead, take_append_of_le_length (by omega), take_eq_take_iff]
  omega

theorem Represents.index (size : BitVec 32) (hpos : s.toRead size ≠ 0) :
    s.index1 bufSize size + (s.toRead size - firstCount bufSize s.rxIndex (s.toRead size)) =
      behind bufSize s.rxIndex (s.toRead size) := by
  have hfirst := firstCount_pos h.rxIndex hpos
  rw [HabPipe.index1]
  simp only [if_pos hfirst]
  by_cases hfit : s.toRead size ≤ bufSize - s.rxIndex
  · have hall : firstCount bufSize s.rxIndex (s.toRead size) = s.toRead size := if_pos hfit
    rw [hall, behind, if_pos hfit]
    bv_omega
  · have hcut : firstCount bufSize s.rxIndex (s.toRead size) = bufSize - s.rxIndex := if_neg hfit
    have hleft : 0 < s.toRead size - firstCount bufSize s.rxIndex (s.toRead size) := by
      bv_omega
    rw [wrapIndex_zero hleft, hcut, behind, if_neg hfit]
    bv_omega

theorem Represents.used : (s.txWrCount - s.rdCount).toNat = f.length := by
  have hused : s.txWrCount - s.rdCount = BitVec.ofNat 32 f.length := by
    rw [h.txWrCount]
    bv_omega
  rw [hused, toNat_ofNat_of_le h.fits]

theorem Represents.write {p : List Byte} (hlen : p.length < 2 ^ 32) :
    (habPipeWrite bufSize (some p) s).1 = (f.call bufSize.toNat (.write (some p))).1.1 ∧
      Represents bufSize (habPipeWrite bufSize (some p) s).2
        (f.call bufSize.toNat (.write (some p))).2 := by
  have hused := h.used
  have hfits := h.fits
  have hn : (BitVec.ofNat 32 p.length).toNat = p.length := by
    rw [BitVec.toNat_ofNat, Nat.mod_eq_of_lt hlen]
  have hok : ¬ bufSize < s.txWrCount - s.rdCount := by
    rw [BitVec.lt_def, hused]
    omega
  have hspace : (bufSize - (s.txWrCount - s.rdCount)).toNat = bufSize.toNat - f.length := by
    bv_omega
  simp only [habPipeWrite, Fifo.call, if_neg hok]
  by_cases hput : p ≠ [] ∧ f.length + p.length ≤ bufSize.toNat
  · have hne : BitVec.ofNat 32 p.length ≠ 0 := by
      rintro hzero
      rw [hzero] at hn
      exact hput.1 (length_eq_zero_iff.1 hn.symm)
    have hroom : ¬ (bufSize - (s.txWrCount - s.rdCount) < BitVec.ofNat 32 p.length ∨
        BitVec.ofNat 32 p.length = 0) := by
      rw [not_or, BitVec.lt_def, hspace, hn]
      exact ⟨by omega, hne⟩
    have htx : s.txIndex.toNat < bufSize.toNat := by
      rw [h.txIndex]
      exact Nat.mod_lt _ (Nat.zero_lt_of_lt h.rxIndex)
    have hle : (BitVec.ofNat 32 p.length).toNat ≤ bufSize.toNat := by omega
    have hbounds : ¬ (bufSize < s.txIndex ∨ bufSize < BitVec.ofNat 32 p.length) := by
      rw [not_or, BitVec.lt_def, BitVec.lt_def]
      omega
    have hpos : 0 < p.length := length_pos_iff.2 hput.1
    rw [if_pos hput, if_neg hroom, if_neg hbounds, put_put s.data hn.symm htx hne hle,
      BitVec.add_assoc, firstCount_add]
    refine ⟨rfl, ?_⟩
    have hlength : f.queue.length + (f.staged ++ p).length = f.length + p.length := by
      rw [length_append, Fifo.length, Nat.add_assoc]
    refine ⟨h.size, h.rxIndex, ?_, h.wrCount, ?_, ?_, ?_⟩
    · dsimp only [Fifo.length]
      rw [behind_toNat htx hle, hn, hlength, h.txIndex, Nat.mod_add_mod, Nat.add_assoc]
    · dsimp only [Fifo.length]
      rw [hlength, h.txWrCount, BitVec.add_assoc, BitVec.ofNat_add]
    · dsimp only [Fifo.length]
      rw [hlength]
      exact hput.2
    · dsimp only [Fifo.length]
      rw [hlength, h.txIndex, Ring.contents_write s.data p h.rxIndex hput.2 (by omega), h.bytes,
        append_assoc]
  · have hkeep : bufSize - (s.txWrCount - s.rdCount) < BitVec.ofNat 32 p.length ∨
        BitVec.ofNat 32 p.length = 0 := by
      rw [BitVec.lt_def, hspace, hn]
      by_cases hnil : p = []
      · exact Or.inr (by rw [hnil]; rfl)
      · have hfull : ¬ f.length + p.length ≤ bufSize.toNat := fun hle => hput ⟨hnil, hle⟩
        exact Or.inl (by omega)
    rw [if_neg hput, if_pos hkeep]
    exact ⟨rfl, h⟩

theorem Represents.commit :
    Represents bufSize (habPipeWriteCommit s) (f.call bufSize.toNat .commit).2 := by
  have hlength : (f.queue ++ f.staged).length + ([] : List Byte).length = f.length := by
    rw [length_append, length_nil, Nat.add_zero, Fifo.length]
  have hqueue : (f.queue ++ f.staged).length = f.length := length_append
  refine ⟨h.size, h.rxIndex, ?_, ?_, ?_, ?_, ?_⟩
  all_goals dsimp only [Fifo.call, Fifo.length, habPipeWriteCommit]
  · rw [hlength, h.txIndex]
  · rw [hqueue, h.txWrCount]
  · rw [hlength, h.txWrCount]
  · rw [hlength]
    exact h.fits
  · rw [hlength, h.bytes, append_nil]

theorem Represents.read {p : List Byte} {size : BitVec 32} {clear : Bool}
    (hframed : f.Framed (.read (some p) size clear)) :
    (habPipeRead bufSize (some p) size clear s false).1 =
        (f.call bufSize.toNat (.read (some p) size clear)).1 ∧
      Represents bufSize (habPipeRead bufSize (some p) size clear s false).2.1
        (f.call bufSize.toNat (.read (some p) size clear)).2 ∧
      (habPipeRead bufSize (some p) size clear s false).2.2 = false := by
  by_cases hidle : s.Idle bufSize (some p) size
  · have hstay : f.queue.take size.toNat = [] ∧ f.queue.drop size.toNat = f.queue ∧
        min f.queue.length size.toNat = 0 := by
      rcases (h.idle_iff _ _).1 hidle with hp | hq | hsize
      · exact absurd hp (by simp)
      · simp [hq]
      · simp [hsize]
    rw [habPipeRead, if_pos hidle, Fifo.call, hstay.1, hstay.2.1, hstay.2.2]
    exact ⟨rfl, h, rfl⟩
  · have hqueue : f.queue ≠ [] := fun hq => hidle ((h.idle_iff _ _).2 (Or.inr (Or.inl hq)))
    have hpos := toRead_ne_zero hidle
    have htoRead := h.toRead size
    have hret : s.toRead size = BitVec.ofNat 32 (min f.queue.length size.toNat) := by
      rw [← BitVec.toNat_inj, htoRead, toNat_ofNat_of_le ((Nat.min_le_left ..).trans h.queue_le)]
    have htaken : habPipeRead bufSize (some p) size clear s false =
        ((s.toRead size, f.queue.take size.toNat),
          { s with
            rxIndex := behind bufSize s.rxIndex (s.toRead size)
            rdCount := s.rdCount + s.toRead size }, false) := by
      rw [habPipeRead_eq hidle, h.copied, h.index size hpos]
      by_cases hhead : clear = true ∧ size = sizeofHeader
      · have hgood : headSignature (s.head bufSize size (some p)) = habHeadSignature := by
          rw [HabPipe.head, h.copied]
          exact hframed hhead.1 hhead.2 hqueue
        simp only [if_pos hhead, if_pos hgood]
      · simp only [if_neg hhead, Bool.false_eq_true, if_false]
    have hn : (s.toRead size).toNat ≤ f.queue.length := htoRead.trans_le (Nat.min_le_left ..)
    have hdrop : f.queue.drop size.toNat = f.queue.drop (s.toRead size).toNat := by
      rcases Nat.le_total f.queue.length size.toNat with hle | hle
      · rw [htoRead, Nat.min_eq_left hle, drop_eq_nil_of_le hle, drop_length]
      · rw [htoRead, Nat.min_eq_right hle]
    rw [htaken, Fifo.call, hdrop, ← hret]
    refine ⟨rfl, ⟨h.size, ?_, ?_, ?_, ?_, ?_, ?_⟩, rfl⟩
    all_goals
      have hlength : (f.queue.drop (s.toRead size).toNat).length + f.staged.length =
          f.length - (s.toRead size).toNat := by
        rw [length_drop, Fifo.length]
        omega
      have hbehind := behind_toNat h.rxIndex (hn.trans h.queue_le)
      have hlen : (s.toRead size).toNat ≤ f.length := hn.trans (Nat.le_add_right ..)
      dsimp only [Fifo.length]
    · rw [hbehind]
      exact Nat.mod_lt _ (Nat.zero_lt_of_lt h.rxIndex)
    · rw [hlength, hbehind, h.txIndex, Nat.mod_add_mod, Nat.add_assoc, Nat.add_sub_cancel' hlen]
    · have hcount : BitVec.ofNat 32 f.queue.length =
          s.toRead size + BitVec.ofNat 32 (f.queue.length - (s.toRead size).toNat) := by
        rw [← Nat.add_sub_cancel' hn, BitVec.ofNat_add, Nat.add_sub_cancel_left, BitVec.ofNat_toNat,
          BitVec.setWidth_eq]
      rw [h.wrCount, length_drop, hcount, BitVec.add_assoc]
    · have hcount : BitVec.ofNat 32 f.length =
          s.toRead size + BitVec.ofNat 32 (f.length - (s.toRead size).toNat) := by
        rw [← Nat.add_sub_cancel' hlen, BitVec.ofNat_add, Nat.add_sub_cancel_left,
          BitVec.ofNat_toNat, BitVec.setWidth_eq]
      rw [h.txWrCount, hlength, hcount, BitVec.add_assoc]
    · rw [hlength]
      exact (Nat.sub_le ..).trans h.fits
    · rw [hlength, hbehind, ← Ring.contents_drop, h.bytes, drop_append_of_le_length hn]

end Counts

theorem Represents.call (h : Represents bufSize s f) (o : Op) (hframed : f.Framed o) :
    (Stream.call bufSize s false o).1 = (f.call bufSize.toNat o).1 ∧
      Represents bufSize (Stream.call bufSize s false o).2.1 (f.call bufSize.toNat o).2 ∧
      (Stream.call bufSize s false o).2.2 = false := by
  cases o with
  | write p =>
    cases p with
    | none =>
      have hnone : habPipeWrite bufSize none s = (0, s) := by
        unfold habPipeWrite
        split_ifs <;> rfl
      rw [Stream.call, hnone]
      exact ⟨rfl, h, rfl⟩
    | some p =>
      obtain ⟨hret, hrep⟩ := h.write hframed
      refine ⟨Prod.ext hret ?_, hrep, rfl⟩
      simp only [Stream.call, Fifo.call]
      split_ifs <;> rfl
  | commit => exact ⟨rfl, h.commit, rfl⟩
  | read p size clear =>
    cases p with
    | none =>
      exact ⟨rfl, h, rfl⟩
    | some p => exact h.read hframed
  | tamper region => exact absurd hframed id

theorem Represents.solo_eq (h : Represents bufSize s f) {os : List Op}
    (hframed : f.FramedRun bufSize.toNat os) :
    solo (Stream.call bufSize) s false os = f.trace bufSize.toNat os := by
  induction os generalizing s f with
  | nil => rfl
  | cons o os ih =>
    obtain ⟨hout, hrep, hclear⟩ := h.call o hframed.1
    rw [solo, hclear, hout, ih hrep hframed.2, Fifo.trace]

end Refinement

theorem Fifo.delivered (bufSize : Nat) (f : Fifo) (os : List Op) :
    (f.trace bufSize os).flatMap Prod.snd ++ (f.after bufSize os).queue =
      f.queue ++ f.committed bufSize os := by
  induction os generalizing f with
  | nil => simp [Fifo.trace, after, committed]
  | cons o os ih =>
    have htail := ih (f.call bufSize o).2
    rw [Fifo.trace, flatMap_cons, after, append_assoc, htail]
    cases o with
    | write p =>
      cases p with
      | none => rfl
      | some p =>
        simp only [committed, Fifo.call]
        split_ifs <;> rfl
    | commit => simp [committed, Fifo.call]
    | read p size clear =>
      cases p with
      | none => rfl
      | some p =>
        simp only [committed, Fifo.call]
        rw [← append_assoc, take_append_drop]
    | tamper region => rfl

abbrev Pipes (ι : Type) := System ι HabPipe Bool

/-- For any number of pipes and any calls on them in any order: a pipe returns what it would return
alone exactly if each of its reads that looks at `signature_mismatch` finds there what the pipe itself
left; it then delivers the committed bytes in order if its two sides keep to the framing. -/
theorem pipes_isolated {ι : Type} [DecidableEq ι] (bufSize : BitVec 32) (i : ι) (s : Pipes ι)
    (es : List (ι × Op)) :
    (Undisturbed (call bufSize) (Blind bufSize) i s s.reg es →
        trace (call bufSize) i s es = solo (call bufSize) (s.part i) s.reg (ops i es)) ∧
      ((∀ o ∈ ops i es, Sized o) →
        trace (call bufSize) i s es = solo (call bufSize) (s.part i) s.reg (ops i es) →
          Undisturbed (call bufSize) (Blind bufSize) i s s.reg es) ∧
      (∀ f, Represents bufSize (s.part i) f → s.reg = false → f.FramedRun bufSize.toNat (ops i es) →
        Undisturbed (call bufSize) (Blind bufSize) i s s.reg es →
          trace (call bufSize) i s es = f.trace bufSize.toNat (ops i es) ∧
            (trace (call bufSize) i s es).flatMap Prod.snd ++
                (f.after bufSize.toNat (ops i es)).queue =
              f.queue ++ f.committed bufSize.toNat (ops i es)) := by
  have halone : Undisturbed (call bufSize) (Blind bufSize) i s s.reg es →
      trace (call bufSize) i s es = solo (call bufSize) (s.part i) s.reg (ops i es) :=
    trace_eq_solo fun _ => call_blind
  refine ⟨halone, ?_, ?_⟩
  · exact undisturbed_of_trace_eq (fun _ => call_blind) (fun _ => call_tells)
  · intro f hrep hclear hframed hundisturbed
    have hqueue : trace (call bufSize) i s es = f.trace bufSize.toNat (ops i es) := by
      rw [halone hundisturbed, hclear, hrep.solo_eq hframed]
    exact ⟨hqueue, by rw [hqueue, delivered]⟩

def emptyPipe : HabPipe := ⟨0, 0, 0, 0, 0, MsmKernel.Hab.Pipe.pipeShmemSize, fun _ => 0⟩

def someHeader : List Byte := List.replicate 12 0 ++ [0xE1, 0xBE, 0xE1, 0xBE] ++ List.replicate 4 0

def badHeaderElsewhere : List (Bool × Op) :=
  [(true, .write (some someHeader)), (true, .write (some [1, 2, 3, 4])), (true, .commit),
    (false, .write (some (List.replicate 20 0))), (false, .commit),
    (true, .read (some []) 20 true), (false, .read (some []) 20 true),
    (true, .read (some []) 4 false)]

/-- A bad header on one pipe makes the next read of a payload on another pipe fail and skip a byte. -/
theorem payload_lost_to_other_pipe :
    (trace (call MsmKernel.Hab.Pipe.pipeShmemSize) true ⟨fun _ => emptyPipe, false⟩
        badHeaderElsewhere).getLast? = some (0xFFFFFFFE, [1, 2, 3, 4]) ∧
      (solo (call MsmKernel.Hab.Pipe.pipeShmemSize) emptyPipe false
        (ops true badHeaderElsewhere)).getLast? = some (4, [1, 2, 3, 4]) := by
  constructor <;> decide +kernel

end MsmKernel.Hab.Stream
