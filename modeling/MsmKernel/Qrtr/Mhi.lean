import Mathlib.Data.List.TakeWhile

/-! Sending over MHI (mhi.c): `qcom_mhi_qrtr_send` retries while the ring is full, and the
socket that owns the skb is referenced until the transfer is over. -/
namespace MsmKernel.Qrtr.Mhi

def EAGAIN : Int := 11
def ENOMEM : Int := 12
def ERESTARTSYS : Int := 512

structure Attempt where
  interrupted : Bool
  linearizeFails : Bool
  queueSkb : Int

structure Refs where
  holds : Nat
  puts : Nat
  frees : Nat
  deriving DecidableEq

def sockHold (owned : Bool) (s : Refs) : Refs := if owned then { s with holds := s.holds + 1 } else s

def sockPut (owned : Bool) (s : Refs) : Refs := if owned then { s with puts := s.puts + 1 } else s

def freeSkb (owned : Bool) (s : Refs) : Refs :=
  let s := sockPut owned s
  { s with frees := s.frees + 1 }

def qcomMhiQrtrSendOnce (owned : Bool) (a : Attempt) (s : Refs) : Int × Refs :=
  let s := sockHold owned s
  if a.interrupted then (- ERESTARTSYS, freeSkb owned s)
  else if a.linearizeFails then (- ENOMEM, freeSkb owned s)
  else if a.queueSkb ≠ 0 ∧ a.queueSkb ≠ - EAGAIN then (a.queueSkb, freeSkb owned s)
  else (a.queueSkb, s)

/- `none` is a call that still waits for the ring. -/
def qcomMhiQrtrSend (owned : Bool) : List Attempt → Refs → Option (Int × Refs)
  | [], _ => none
  | a :: as, s =>
    let r := qcomMhiQrtrSendOnce owned a s
    if r.1 = - EAGAIN then qcomMhiQrtrSend owned as r.2 else some r

def qcomMhiQrtrUlCallback (owned : Bool) (s : Refs) : Refs := freeSkb owned s

/- The skb is finished by the completion of a queued transfer or by the error. -/
def finish (owned : Bool) (r : Int × Refs) : Refs :=
  if r.1 = 0 then qcomMhiQrtrUlCallback owned r.2 else r.2

def Attempt.retried (a : Attempt) : Bool :=
  !a.interrupted && !a.linearizeFails && a.queueSkb = - EAGAIN

def retries (as : List Attempt) : Nat := (as.takeWhile Attempt.retried).length

theorem sendOnce_retried {a : Attempt} (owned : Bool) (s : Refs) (h : a.retried = true) :
    qcomMhiQrtrSendOnce owned a s = (- EAGAIN, sockHold owned s) := by
  simp only [Attempt.retried, Bool.and_eq_true, Bool.not_eq_true', decide_eq_true_eq] at h
  simp [qcomMhiQrtrSendOnce, h.1.1, h.1.2, h.2]

theorem sendOnce_final {a : Attempt} (owned : Bool) (s : Refs) (h : a.retried = false) :
    (qcomMhiQrtrSendOnce owned a s).1 ≠ - EAGAIN ∧
      finish owned (qcomMhiQrtrSendOnce owned a s) = freeSkb owned (sockHold owned s) := by
  unfold qcomMhiQrtrSendOnce
  split_ifs with hint hlin hqueue
  · exact ⟨show - ERESTARTSYS ≠ - EAGAIN by decide, rfl⟩
  · exact ⟨show - ENOMEM ≠ - EAGAIN by decide, rfl⟩
  · exact ⟨hqueue.2, if_neg hqueue.1⟩
  · simp only [Attempt.retried, hint, hlin, Bool.not_false, Bool.true_and,
      decide_eq_false_iff_not] at h
    have hzero : a.queueSkb = 0 := by
      by_contra hne
      exact hqueue ⟨hne, h⟩
    exact ⟨h, by rw [hzero]; rfl⟩

/-- For every finished send of an owned skb: each retry left one reference behind. -/
theorem send_refs (as : List Attempt) (s : Refs) (r : Int × Refs)
    (h : qcomMhiQrtrSend true as s = some r) :
    (finish true r).holds = s.holds + retries as + 1 ∧ (finish true r).puts = s.puts + 1 ∧
      (finish true r).frees = s.frees + 1 := by
  induction as generalizing s with
  | nil => simp [qcomMhiQrtrSend] at h
  | cons a as ih =>
    cases hretry : a.retried with
    | true =>
      simp only [qcomMhiQrtrSend, sendOnce_retried true s hretry, if_true] at h
      obtain ⟨hholds, hputs, hfrees⟩ := ih _ h
      have hcount : retries (a :: as) = retries as + 1 := by
        simp [retries, hretry]
      refine ⟨?_, hputs, hfrees⟩
      rw [hholds, hcount]
      simp only [sockHold, if_true]
      omega
    | false =>
      obtain ⟨hne, hfinish⟩ := sendOnce_final true s hretry
      simp only [qcomMhiQrtrSend, if_neg hne, Option.some.injEq] at h
      have hcount : retries (a :: as) = 0 := by
        simp [retries, hretry]
      rw [← h, hfinish, hcount]
      exact ⟨rfl, rfl, rfl⟩

/-- The references to the socket balance exactly if the ring was never full. -/
theorem mhi_send_balanced (as : List Attempt) (r : Int × Refs)
    (h : qcomMhiQrtrSend true as ⟨0, 0, 0⟩ = some r) :
    (finish true r).holds = (finish true r).puts ↔ retries as = 0 := by
  obtain ⟨hholds, hputs, -⟩ := send_refs as _ r h
  rw [hholds, hputs]
  dsimp only
  omega

theorem mhi_send_balanced_at_once :
    (finish true (0, ⟨1, 0, 0⟩)).holds = (finish true (0, ⟨1, 0, 0⟩)).puts :=
  (mhi_send_balanced [⟨false, false, 0⟩] (0, ⟨1, 0, 0⟩) rfl).2 rfl

/-- One full ring before the transfer leaves a reference to the socket behind. -/
theorem mhi_send_leaks :
    (qcomMhiQrtrSend true [⟨false, false, - EAGAIN⟩, ⟨false, false, 0⟩] ⟨0, 0, 0⟩).map (finish true) =
      some ⟨2, 1, 1⟩ := by
  decide

end MsmKernel.Qrtr.Mhi
