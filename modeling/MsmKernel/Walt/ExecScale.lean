import MsmKernel.Walt.State

/-! The execution scale of a runqueue (`update_task_rq_cpu_cycles`): capacity times the ratio
of the cycles counted to the cycles of the highest frequency, in 64-bit arithmetic. -/
namespace MsmKernel.Walt

def nsecPerMsec : Nat := 1000000

structure CycleRead where
  useCycleCounter : Bool
  curFreq : Nat
  capacity : Nat
  maxPossibleFreq : Nat
  currIdle : Bool
  taskIdle : Bool
  event : TaskEvent
  wallclock : Nat
  irqtime : Nat
  curCycles : Nat
  markStart : Nat

structure CycleState where
  taskExecScale : Nat
  cpuCycles : Nat

def div64U64Roundup (x y : Nat) : Nat := u64 (x + u64 (y + (2 ^ 64 - 1))) / y

section
variable (r : CycleRead)

def cyclesDelta (cpuCycles : Nat) : Nat :=
  if r.curCycles < cpuCycles then u64 (r.curCycles + (2 ^ 64 - 1 - cpuCycles))
  else r.curCycles - cpuCycles

/- For an idle task the counter stands still until the interrupt begins. -/
def timeDelta : Nat :=
  if r.event = .irqUpdate ∧ r.taskIdle then r.irqtime else elapsed r.wallclock r.markStart

/- `none` is the panic on a clock that runs backwards. -/
def updateTaskRqCpuCycles (s : CycleState) : Option CycleState :=
  if r.useCycleCounter = false then
    some { s with
      taskExecScale := div64U64Roundup (u64 (r.curFreq * r.capacity)) r.maxPossibleFreq }
  else if r.currIdle = false ∨ r.irqtime ≠ 0 then
    if 2 ^ 63 ≤ timeDelta r then none
    else
      some
        { taskExecScale :=
            div64U64Roundup (u64 (u64 (cyclesDelta r s.cpuCycles * nsecPerMsec) * r.capacity))
              (u64 (timeDelta r * r.maxPossibleFreq))
          cpuCycles := r.curCycles }
  else some { s with cpuCycles := r.curCycles }

def scaledCycles (cpuCycles : Nat) : Nat :=
  elapsed r.curCycles cpuCycles * nsecPerMsec * r.capacity

def possibleCycles : Nat := timeDelta r * r.maxPossibleFreq

def exactScale (cpuCycles : Nat) : Nat :=
  (scaledCycles r cpuCycles + possibleCycles r - 1) / possibleCycles r

end

theorem roundup_exact_iff {n d : Nat} (hd : 0 < d) (hfits : d < 2 ^ 64) :
    div64U64Roundup (u64 n) d = (n + d - 1) / d ↔ n + d ≤ 2 ^ 64 := by
  have hpred : u64 (d + (2 ^ 64 - 1)) = d - 1 := by
    have hsum : d + (2 ^ 64 - 1) = d - 1 + 2 ^ 64 := by omega
    rw [u64, hsum, Nat.add_mod_right, Nat.mod_eq_of_lt (by omega)]
  have hsub : n + d - 1 = n + (d - 1) := by omega
  have hsplit := Nat.div_add_mod n (2 ^ 64)
  change 2 ^ 64 * (n / 2 ^ 64) + u64 n = n at hsplit
  rw [div64U64Roundup, hpred, hsub]
  constructor
  · intro heq
    by_contra hlarge
    by_cases hcarry : u64 n + (d - 1) < 2 ^ 64
    · -- the wrapped numerator is short by at least one denominator
      rw [show u64 (u64 n + (d - 1)) = u64 n + (d - 1) from Nat.mod_eq_of_lt hcarry] at heq
      have hmore : u64 n + (d - 1) + d ≤ n + (d - 1) := by omega
      have hstep : (u64 n + (d - 1) + d) / d ≤ (n + (d - 1)) / d := Nat.div_le_div_right hmore
      rw [Nat.add_div_right _ hd] at hstep
      omega
    · -- the carry is lost and the quotient is zero
      have hsmall : u64 (u64 n + (d - 1)) < d := by
        rw [u64, Nat.mod_eq_sub_mod (by omega), Nat.mod_eq_of_lt (by omega)]
        omega
      rw [Nat.div_eq_of_lt hsmall] at heq
      have hpos : 0 < (n + (d - 1)) / d := Nat.div_pos (by omega) hd
      omega
  · intro hle
    have hn : u64 n = n := Nat.mod_eq_of_lt (by omega)
    rw [hn, show u64 (n + (d - 1)) = n + (d - 1) from Nat.mod_eq_of_lt (by omega)]

/-- The scale is the exact ceiling while the two products together fit 64 bits; when the
denominator fits by itself, this is also necessary. -/
theorem exec_scale_exact (r : CycleRead) (s : CycleState) (hcounter : r.useCycleCounter = true)
    (hbusy : r.currIdle = false ∨ r.irqtime ≠ 0) (htime : 0 < timeDelta r)
    (hclock : timeDelta r < 2 ^ 63) (hfreq : 0 < r.maxPossibleFreq) (hcycles : r.curCycles < 2 ^ 64)
    (hforward : s.cpuCycles ≤ r.curCycles) :
    ∃ t, updateTaskRqCpuCycles r s = some t ∧ t.cpuCycles = r.curCycles ∧
      (scaledCycles r s.cpuCycles + possibleCycles r ≤ 2 ^ 64 →
        t.taskExecScale = exactScale r s.cpuCycles) ∧
      (possibleCycles r < 2 ^ 64 → t.taskExecScale = exactScale r s.cpuCycles →
        scaledCycles r s.cpuCycles + possibleCycles r ≤ 2 ^ 64) := by
  have hdelta : cyclesDelta r s.cpuCycles = elapsed r.curCycles s.cpuCycles := by
    rw [cyclesDelta, if_neg (by omega), elapsed_eq hforward hcycles]
  have hscaled : u64 (u64 (cyclesDelta r s.cpuCycles * nsecPerMsec) * r.capacity) =
      u64 (scaledCycles r s.cpuCycles) := by
    rw [hdelta, scaledCycles, u64, u64, u64, Nat.mod_mul_mod]
  have hpos : 0 < possibleCycles r := Nat.mul_pos htime hfreq
  refine ⟨⟨div64U64Roundup (u64 (scaledCycles r s.cpuCycles)) (u64 (possibleCycles r)),
    r.curCycles⟩, ?_, rfl, ?_, ?_⟩
  · rw [updateTaskRqCpuCycles, if_neg (by simp [hcounter]), if_pos hbusy, if_neg (by omega),
      hscaled]
    rfl
  · intro hle
    rcases Nat.lt_or_ge (possibleCycles r) (2 ^ 64) with hfits | hfull
    · rw [show u64 (possibleCycles r) = possibleCycles r from Nat.mod_eq_of_lt hfits]
      exact (roundup_exact_iff hpos hfits).2 hle
    · -- only the empty numerator leaves room for a denominator of 2^64
      have hzero : scaledCycles r s.cpuCycles = 0 := by omega
      have hden : possibleCycles r = 2 ^ 64 := by omega
      dsimp only
      rw [exactScale, hzero, hden]
      decide +kernel
  · intro hfits heq
    rw [show u64 (possibleCycles r) = possibleCycles r from Nat.mod_eq_of_lt hfits] at heq
    exact (roundup_exact_iff hpos hfits).1 heq

def afterSleep (wallclock curCycles : Nat) : CycleRead where
  useCycleCounter := true
  curFreq := 4000000
  capacity := 1024
  maxPossibleFreq := 4000000
  currIdle := false
  taskIdle := false
  event := .pickNextTask
  wallclock := wallclock
  irqtime := 0
  curCycles := curCycles
  markStart := 0

/-- One second of sleep. -/
theorem exec_scale_exact_one_second :
    ∃ t, updateTaskRqCpuCycles (afterSleep 1000000000 4000000000) ⟨0, 0⟩ = some t ∧
      t.taskExecScale = 1024 := by
  obtain ⟨t, hrun, -, hexact, -⟩ :=
    exec_scale_exact (afterSleep 1000000000 4000000000) ⟨0, 0⟩ rfl (.inl rfl) (by decide +kernel)
      (by decide +kernel) (by decide) (by decide +kernel) (by decide +kernel)
  exact ⟨t, hrun, (hexact (by decide +kernel)).trans (by decide +kernel)⟩

/-- After ten seconds of sleep the numerator has wrapped twice and the scale is a tenth of what
it should be; a counter that wrapped counts one cycle less than it made. -/
theorem exec_scale_wraps :
    ((updateTaskRqCpuCycles (afterSleep 10000000000 40000000000) ⟨0, 0⟩).map
        CycleState.taskExecScale = some 102 ∧
      exactScale (afterSleep 10000000000 40000000000) 0 = 1024) ∧
    ((updateTaskRqCpuCycles (afterSleep 1 0) ⟨0, 2 ^ 64 - 1⟩).map
        CycleState.taskExecScale = some 0 ∧
      exactScale (afterSleep 1 0) (2 ^ 64 - 1) = 256) := by
  decide +kernel

end MsmKernel.Walt
