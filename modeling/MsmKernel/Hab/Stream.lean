import Mathlib
import MsmKernel.Hab.PipeSafety
import MsmKernel.Lib.Ring
import MsmKernel.Lib.SharedRegister

/-! Several pipes of hab_pipe.c with the bytes that pass through them. Each pipe has a ring, a writer
and a reader; `signature_mismatch` of `hab_pipe_read` is one variable for all of them. -/
namespace MsmKernel.Hab.Stream
open MsmKernel
open Pipe (firstCount wrapIndex headSignature habHeadSignature sizeofHeader)

abbrev Byte := BitVec 8

structure HabPipe where
  txIndex : BitVec 32
  txWrCount : BitVec 32
  rxIndex : BitVec 32
  rdCount : BitVec 32
  wrCount : BitVec 32
  size : BitVec 32
  data : Nat → Byte

/- The pointer of the caller is `none` or the bytes behind it. `tamper` is the other side writing to
the shared region. -/
inductive Op where
  | write (p : Option (List Byte))
  | commit
  | read (p : Option (List Byte)) (size : BitVec 32) (clear : Bool)
  | tamper (region : HabPipe)

abbrev Out := BitVec 32 × List Byte

def put (bufSize count : BitVec 32) (bytes : List Byte) (r : BitVec 32 × (Nat → Byte)) :
    BitVec 32 × (Nat → Byte) :=
  if 0 < count then (wrapIndex bufSize (r.1 + count), Ring.copyTo r.2 r.1.toNat bytes) else r

def habPipeWrite (bufSize : BitVec 32) (p : Option (List Byte)) (s : HabPipe) :
    BitVec 32 × HabPipe :=
  if bufSize < s.txWrCount - s.rdCount then (0, s)
  else
    let space := bufSize - (s.txWrCount - s.rdCount)
    match p with
    | none => (0, s)
    | some p =>
      let numBytes := BitVec.ofNat 32 p.length
      if space < numBytes ∨ numBytes = 0 then (0, s)
      else if bufSize < s.txIndex ∨ bufSize < numBytes then (0, s)
      else
        let count1 := firstCount bufSize s.txIndex numBytes
        let count2 := numBytes - count1
        let first := put bufSize count1 (p.take count1.toNat) (s.txIndex, s.data)
        let second := put bufSize count2 ((p.drop count1.toNat).take count2.toNat) first
        (numBytes, { s with
          txWrCount := s.txWrCount + count1 + count2
          txIndex := second.1
          data := second.2 })

def habPipeWriteCommit (s : HabPipe) : HabPipe := { s with wrCount := s.txWrCount }

/- The retry loop with the number of retries left. `copy` is what the two copies find again. The
result is the number of retries counted and the flag. -/
def retry (copy : List Byte) (mismatch : Bool) : Nat → List Byte → Nat × Bool
  | 0, head => if headSignature head ≠ habHeadSignature then (1002, true) else (1001, false)
  | left + 1, head =>
    if headSignature head ≠ habHeadSignature then
      if mismatch = false then retry copy mismatch left (copy ++ head.drop copy.length)
      else (1001 - left, true)
    else (1000 - left, false)

def HabPipe.avail (s : HabPipe) : BitVec 32 := s.wrCount - s.rdCount

def HabPipe.Idle (bufSize : BitVec 32) (p : Option (List Byte)) (size : BitVec 32) (s : HabPipe) :
    Prop :=
  p = none ∨ s.avail = 0 ∨ size = 0 ∨ bufSize < s.rxIndex

instance (bufSize : BitVec 32) (p : Option (List Byte)) (size : BitVec 32) (s : HabPipe) :
    Decidable (s.Idle bufSize p size) :=
  inferInstanceAs (Decidable (_ ∨ _))

def HabPipe.toRead (s : HabPipe) (size : BitVec 32) : BitVec 32 :=
  if s.avail < size then s.avail else size

def HabPipe.index1 (bufSize size : BitVec 32) (s : HabPipe) : BitVec 32 :=
  let count1 := firstCount bufSize s.rxIndex (s.toRead size)
  if 0 < count1 then wrapIndex bufSize (s.rxIndex + count1) else s.rxIndex

def HabPipe.copied (bufSize size index1 : BitVec 32) (s : HabPipe) : List Byte :=
  let count1 := firstCount bufSize s.rxIndex (s.toRead size)
  Ring.copyFrom s.data s.rxIndex.toNat count1.toNat ++
    Ring.copyFrom s.data index1.toNat (s.toRead size - count1).toNat

def habPipeRead (bufSize : BitVec 32) (p : Option (List Byte)) (size : BitVec 32) (clear : Bool)
    (s : HabPipe) (signatureMismatch : Bool) : Out × HabPipe × Bool :=
  if s.Idle bufSize p size then ((0, []), s, signatureMismatch)
  else
    let toRead := s.toRead size
    let count1 := firstCount bufSize s.rxIndex toRead
    let count2 := toRead - count1
    let index1 := s.index1 bufSize size
    let copied := s.copied bufSize size index1
    let epRxIndex := index1 + count2
    if count1 + count2 = 0 then ((toRead, copied), { s with rxIndex := epRxIndex }, signatureMismatch)
    else
      let checked :=
        if clear ∧ size = sizeofHeader then
          retry (s.copied bufSize size (epRxIndex - count2)) signatureMismatch 1001
            (copied ++ (p.getD []).drop copied.length)
        else (0, signatureMismatch)
      if checked.2 then
        ((if checked.1 < 1000 then 0xFFFFFFFE else 0xFFFFFFFF, copied),
          { s with rxIndex := wrapIndex s.size (s.rxIndex + 1), rdCount := s.rdCount + 1 }, true)
      else
        ((toRead, copied),
          { s with rxIndex := epRxIndex, rdCount := s.rdCount + (count1 + count2) }, false)

def call (bufSize : BitVec 32) (s : HabPipe) (signatureMismatch : Bool) : Op → Out × HabPipe × Bool
  | .write p =>
    (((habPipeWrite bufSize p s).1, []), (habPipeWrite bufSize p s).2, signatureMismatch)
  | .commit => ((0, []), habPipeWriteCommit s, signatureMismatch)
  | .read p size clear => habPipeRead bufSize p size clear s signatureMismatch
  | .tamper region => ((0, []), region, signatureMismatch)

def HabPipe.head (bufSize size : BitVec 32) (p : Option (List Byte)) (s : HabPipe) : List Byte :=
  s.copied bufSize size (s.index1 bufSize size) ++
    (p.getD []).drop (s.copied bufSize size (s.index1 bufSize size)).length

/- A read that finds nothing, and a read of a header with its signature, do not look at the variable. -/
def Blind (bufSize : BitVec 32) (s : HabPipe) : Op → Prop
  | .read p size clear =>
    s.Idle bufSize p size ∨
      (clear = true ∧ size = sizeofHeader ∧ headSignature (s.head bufSize size p) = habHeadSignature)
  | _ => True

section Flag
variable {bufSize size : BitVec 32} {p : Option (List Byte)} {clear : Bool} {s : HabPipe}

theorem retry_bad {copy rest : List Byte} (hbad : headSignature (copy ++ rest) ≠ habHeadSignature)
    (left : Nat) : retry copy false left (copy ++ rest) = (1002, true) := by
  induction left with
  | zero => rw [retry, if_pos hbad]
  | succ left ih => rw [retry, if_pos hbad, if_pos rfl, List.drop_left, ih]

theorem retry_eq (copy rest : List Byte) (mismatch : Bool) :
    retry copy mismatch 1001 (copy ++ rest) =
      if headSignature (copy ++ rest) = habHeadSignature then (0, false)
      else (if mismatch then 1 else 1002, true) := by
  by_cases hgood : headSignature (copy ++ rest) = habHeadSignature
  · simp [retry, hgood]
  · rw [if_neg hgood]
    cases mismatch with
    | false => exact retry_bad hgood 1001
    | true => simp [retry, hgood]

theorem toRead_ne_zero (h : ¬ s.Idle bufSize p size) : s.toRead size ≠ 0 := by
  simp only [HabPipe.Idle, not_or] at h
  unfold HabPipe.toRead
  split_ifs
  · exact h.2.1
  · exact h.2.2.1

theorem firstCount_add (bufSize index n : BitVec 32) :
    firstCount bufSize index n + (n - firstCount bufSize index n) = n := by
  bv_omega

theorem habPipeRead_eq (h : ¬ s.Idle bufSize p size) (mismatch : Bool) :
    habPipeRead bufSize p size clear s mismatch =
      let out := s.copied bufSize size (s.index1 bufSize size)
      let skipped :=
        { s with rxIndex := wrapIndex s.size (s.rxIndex + 1), rdCount := s.rdCount + 1 }
      let taken :=
        { s with
          rxIndex := s.index1 bufSize size +
            (s.toRead size - firstCount bufSize s.rxIndex (s.toRead size))
          rdCount := s.rdCount + s.toRead size }
      if clear = true ∧ size = sizeofHeader then
        if headSignature (s.head bufSize size p) = habHeadSignature then
          ((s.toRead size, out), taken, false)
        else ((if mismatch then 0xFFFFFFFE else 0xFFFFFFFF, out), skipped, true)
      else if mismatch then ((0xFFFFFFFE, out), skipped, true)
      else ((s.toRead size, out), taken, false) := by
  have hsome := toRead_ne_zero h
  have hback : s.index1 bufSize size +
      (s.toRead size - firstCount bufSize s.rxIndex (s.toRead size)) -
      (s.toRead size - firstCount bufSize s.rxIndex (s.toRead size)) = s.index1 bufSize size := by
    bv_omega
  unfold habPipeRead
  rw [if_neg h]
  simp only [firstCount_add, if_neg hsome, hback, retry_eq, HabPipe.head]
  by_cases hhead : clear = true ∧ size = sizeofHeader
  · simp only [if_pos hhead]
    split_ifs <;> simp_all
  · simp only [if_neg hhead]
    cases mismatch <;> rfl

theorem call_blind (o : Op) (h : Blind bufSize s o) (f g : Bool) :
    (call bufSize s f o).1 = (call bufSize s g o).1 ∧
      (call bufSize s f o).2.1 = (call bufSize s g o).2.1 := by
  cases o with
  | read p size clear =>
    rw [call, call]
    by_cases hidle : s.Idle bufSize p size
    · simp only [habPipeRead, if_pos hidle, and_self]
    · obtain ⟨hclear, hsize, hgood⟩ := h.resolve_left hidle
      simp only [habPipeRead_eq hidle, if_pos (And.intro hclear hsize), if_pos hgood, and_self]
  | _ => exact ⟨rfl, rfl⟩

def Sized : Op → Prop
  | .read _ size _ => size < 0xFFFFFFFE
  | _ => True

theorem call_tells (o : Op) (hsize : Sized o) (h : ¬ Blind bufSize s o) (f g : Bool)
    (hsame : (call bufSize s f o).1 = (call bufSize s g o).1) : f = g := by
  cases o with
  | read p size clear =>
    simp only [Blind, not_or] at h
    have hsmall : s.toRead size < 0xFFFFFFFE := by
      unfold HabPipe.toRead
      simp only [Sized] at hsize
      split_ifs with hlt <;> bv_omega
    simp only [call, habPipeRead_eq h.1] at hsame
    by_cases hhead : clear = true ∧ size = sizeofHeader
    · have hbad : headSignature (s.head bufSize size p) ≠ habHeadSignature :=
        fun hgood => h.2 ⟨hhead.1, hhead.2, hgood⟩
      cases f <;> cases g <;> simp_all
    · simp only [if_neg hhead] at hsame
      cases f <;> cases g <;> simp_all
  | _ => exact absurd trivial h

end Flag

end MsmKernel.Hab.Stream
