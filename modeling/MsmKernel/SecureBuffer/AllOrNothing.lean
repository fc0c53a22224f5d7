import MsmKernel.SecureBuffer.HypAssign

/-! When `hyp_assign_table` is all or nothing: where the batches end, what the loop has done when it
stops, and what the rollback takes back. -/
namespace MsmKernel.SecureBuffer
open MemBuf
variable {table : List Nat} {calls : Nat → Call} {src : List Vmid} {dest : Owners}
  {own own₀ : Nat → Owners} {nents : Nat}

def boundary (table : List Nat) : Nat → Nat
  | 0 => 0
  | k + 1 => boundary table k + getBatchesFromSgl (table.drop (boundary table k))

theorem getBatchesFromSgl_pos (sgl : List Nat) : 0 < getBatchesFromSgl sgl := by
  cases sgl with
  | nil => exact Nat.one_pos
  | cons len sgl => exact Nat.succ_pos _

theorem boundary_lt_succ (table : List Nat) (k : Nat) : boundary table k < boundary table (k + 1) :=
  Nat.lt_add_of_pos_right (getBatchesFromSgl_pos _)

theorem boundary_mono (table : List Nat) {j k : Nat} (h : j ≤ k) :
    boundary table j ≤ boundary table k := by
  induction h with
  | refl => exact Nat.le_refl _
  | step _ ih => exact Nat.le_trans ih (Nat.le_of_lt (boundary_lt_succ table _))

theorem boundary_pos (table : List Nat) {k : Nat} (h : 0 < k) : 0 < boundary table k :=
  Nat.lt_of_lt_of_le (boundary_lt_succ table 0) (boundary_mono table h)

theorem assignEntries_append (own : Nat → Owners) (b n : Nat) (dest : Owners) :
    assignEntries (assignEntries own 0 b dest) b n dest = assignEntries own 0 (b + n) dest := by
  funext e
  unfold assignEntries
  split_ifs with h₁ h₂ h₃ h₄ h₅ <;> first | rfl | omega

structure Stopped (table : List Nat) (calls : Nat → Call) (dest : Owners) (nents : Nat)
    (own₀ : Nat → Owners) (r : LoopEnd) : Prop where
  start : r.batchStart = boundary table r.i
  own : r.own = assignEntries own₀ 0 (boundary table r.i) dest
  before : ∀ j < r.i, boundary table j < nents ∧ calls j = .ok
  stop : match r.stop with
    | .done => nents ≤ boundary table r.i
    | .mapError => boundary table r.i < nents ∧ calls r.i = .mapError
    | .scmError e => boundary table r.i < nents ∧ calls r.i = .scmError e

theorem stopped_batchLoop (fuel k : Nat) (hown : own = assignEntries own₀ 0 (boundary table k) dest)
    (hfuel : nents ≤ boundary table k + fuel)
    (hbefore : ∀ j < k, boundary table j < nents ∧ calls j = .ok) :
    Stopped table calls dest nents own₀
      (batchLoop calls dest nents fuel (table.drop (boundary table k)) (boundary table k) k own) := by
  induction fuel generalizing k own with
  | zero => exact ⟨rfl, hown, hbefore, hfuel⟩
  | succ fuel ih =>
    unfold batchLoop
    split_ifs with hlt
    · cases hcall : calls k with
      | mapError | scmError => exact ⟨rfl, hown, hbefore, hlt, hcall⟩
      | ok =>
        have hown' : assignEntries own (boundary table k)
            (getBatchesFromSgl (table.drop (boundary table k))) dest =
            assignEntries own₀ 0 (boundary table (k + 1)) dest := by
          rw [hown, assignEntries_append]
          rfl
        have hfuel' : nents ≤ boundary table (k + 1) + fuel := by
          have := boundary_lt_succ table k
          omega
        have hbefore' : ∀ j < k + 1, boundary table j < nents ∧ calls j = .ok := by
          intro j hj
          rcases Nat.lt_succ_iff_lt_or_eq.1 hj with hj | rfl
          · exact hbefore j hj
          · exact ⟨hlt, hcall⟩
        have hnext := ih (k + 1) hown' hfuel' hbefore'
        rw [boundary, ← List.drop_drop] at hnext
        exact hnext
    · exact ⟨rfl, hown, hbefore, Nat.le_of_not_lt hlt⟩

theorem stopped_whole (table : List Nat) (calls : Nat → Call) (dest : Owners) (nents : Nat)
    (own : Nat → Owners) :
    Stopped table calls dest nents own (batchLoop calls dest nents nents table 0 0 own) := by
  refine stopped_batchLoop nents 0 ?_ (Nat.le_add_left _ _) fun j hj => absurd hj (Nat.not_lt_zero j)
  funext e
  simp [assignEntries, boundary]

theorem Stopped.pos {r : LoopEnd} (hr : Stopped table calls dest nents own₀ r)
    (hfirst : calls 0 = .ok) (hnents : 0 < nents) : 0 < r.i := by
  rw [Nat.pos_iff_ne_zero]
  intro h0
  have hstop := hr.stop
  rw [h0] at hstop
  cases hs : r.stop with
  | done =>
    rw [hs] at hstop
    exact absurd hstop (Nat.not_le.2 hnents)
  | _ => simp [hs, hfirst] at hstop

/-- The rollback of whole batches stops where they end, if the last of them has a second entry. -/
theorem Stopped.boundary_eq {k : Nat} {r : LoopEnd}
    (hr : Stopped table calls dest (boundary table k - 1) own₀ r) (hdone : r.stop = .done)
    (hk : 0 < k) (hlast : boundary table (k - 1) + 1 < boundary table k) : r.i = k := by
  have hstop := hr.stop
  rw [hdone] at hstop
  have hle : r.i ≤ k := by
    by_contra hlt
    have := (hr.before k (Nat.lt_of_not_le hlt)).1
    omega
  by_contra hne
  have := boundary_mono table (show r.i ≤ k - 1 by omega)
  omega

theorem hypAssignTableWith_cases (table : List Nat) (nents : Nat) (src : List Vmid) (dest : Owners)
    (env : TableEnv) (own : Nat → Owners) (onFail : Nat → Errno → (Nat → Owners) → Result) :
    (∃ err, hypAssignTableWith table nents src dest env own onFail = ⟨some err, own, false⟩) ∨
      (src ≠ [] ∧ dest ≠ [] ∧ table ≠ []) ∧ ∃ r, Stopped table env.calls dest nents own r ∧
        hypAssignTableWith table nents src dest env own onFail =
          match r.stop with
          | .done => ⟨none, r.own, r.i == 0⟩
          | .mapError => ⟨some EADDRNOTAVAIL, r.own, r.i == 0⟩
          | .scmError e => ⟨(onFail r.batchStart e r.own).ret, (onFail r.batchStart e r.own).own,
              (onFail r.batchStart e r.own).divByZero || r.i == 0⟩ := by
  unfold hypAssignTableWith batchedHypAssign
  split_ifs with h₁ harg
  all_goals try exact .inl ⟨_, rfl⟩
  push Not at harg
  exact .inr ⟨harg, _, stopped_whole table env.calls dest nents own, rfl⟩

/-- The condition: the monitor is asked, it takes the first batch of either invocation, and a batch
that is refused and rolled back follows one of at least two entries. -/
structure Orderly (table : List Nat) (src : List Vmid) (dest : Owners) (needs : Bool)
    (env env' : TableEnv) : Prop where
  needs : needs = true
  first : env.calls 0 = .ok
  refused : ∀ k e, 0 < k → boundary table k < table.length → (∀ j < k, env.calls j = .ok) →
    env.calls k = .scmError e → src = [vmidHlos] → dest.length = 1 →
    boundary table (k - 1) + 1 < boundary table k ∧ env'.calls 0 = .ok

/-- The outcome that the callers rely on. -/
structure AllOrNothing (table : List Nat) (dest : Owners) (own : Nat → Owners) (r : Result) :
    Prop where
  all : r.ret = none → ∀ e < table.length, r.own e = dest
  nothing : ∀ err, r.ret = some err → err ≠ EADDRNOTAVAIL →
    ∀ e < table.length, (r.own e).map Prod.fst = (own e).map Prod.fst
  division : r.divByZero = false

theorem AllOrNothing.early (err : Errno) : AllOrNothing table dest own ⟨some err, own, false⟩ :=
  ⟨fun h => (by cases h), fun _ _ _ _ _ => rfl, rfl⟩

theorem AllOrNothing.lost (own' : Nat → Owners) :
    AllOrNothing table dest own ⟨some EADDRNOTAVAIL, own', false⟩ :=
  ⟨fun h => (by cases h), fun err h hne => absurd (Option.some.inj h).symm hne, rfl⟩

/-- After `k` batches went through and the next was refused, the rollback of an orderly call takes
exactly those back, or says that the memory is lost. -/
theorem allOrNothing_rollback {needs : Bool} {env env' : TableEnv} {k : Nat} {err : Errno}
    (kmallocArray : Bool) (h : Orderly table src dest needs env env')
    (hown : ∀ e < table.length, (own e).map Prod.fst = src) (hk : 0 < k)
    (hlt : boundary table k < table.length) (hbefore : ∀ j < k, env.calls j = .ok)
    (hcall : env.calls k = .scmError err) :
    AllOrNothing table dest own (rollback table src dest kmallocArray env' (boundary table k) err
      (assignEntries own 0 (boundary table k) dest)) := by
  have hpos : boundary table k ≠ 0 := Nat.ne_of_gt (boundary_pos table hk)
  unfold rollback
  rw [if_neg hpos]
  split_ifs with hsrc
  · exact .lost _
  push Not at hsrc
  have hhlos : src = [vmidHlos] := by
    cases src with
    | nil => simp at hsrc
    | cons v vs =>
      have hvs : vs = [] := by simpa using hsrc.1
      simpa [hvs] using hsrc.2
  unfold rollbackBatchedAssign
  split_ifs
  · exact .lost _
  rcases hypAssignTableWith_cases table (boundary table k - 1)
    ((dest.map Prod.fst).take (sizeofPermInfo / (dest.length * sizeofPermInfo))) [(vmidHlos, 7)] env'
    (assignEntries own 0 (boundary table k) dest) giveUp with ⟨e, he⟩ | ⟨⟨hne, -, -⟩, r, hr, he⟩
  · simp only [he]
    exact .lost _
  · -- a source list that is not empty means that there was one destination
    have hone : dest.length = 1 := by
      by_contra hlen
      have hzero : sizeofPermInfo / (dest.length * sizeofPermInfo) = 0 := by
        rw [Nat.div_eq_zero_iff]
        unfold sizeofPermInfo
        omega
      simp [hzero] at hne
    obtain ⟨hlast, hfirst⟩ := h.refused k err hk hlt hbefore hcall hhlos hone
    have hi : 0 < r.i := hr.pos hfirst (by omega)
    have hcount : (r.i == 0) = false := by simp [Nat.ne_of_gt hi]
    simp only [he, hcount]
    cases hs : r.stop with
    | mapError | scmError => exact .lost _
    | done =>
      have hik := hr.boundary_eq hs hk hlast
      refine ⟨fun h => (by cases h), fun _ _ _ e hlen => ?_, rfl⟩
      simp only [hr.own, hik, assignEntries, hown e hlen]
      split_ifs
      · simp [hhlos]
      · exact hown e hlen

/-! Memory of the host that goes to the secure pixel VM, with no failure but in the calls. -/
section Calls

def quietEnv (calls : Nat → Call) : TableEnv := ⟨true, true, true, true, true, true, true, calls⟩

def refuse (k : Nat) (j : Nat) : Call := if j = k then .scmError 5 else .ok

def hostOwned (_ : Nat) : Owners := [(vmidHlos, 7)]

end Calls

end MsmKernel.SecureBuffer
