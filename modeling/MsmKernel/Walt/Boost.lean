import Mathlib.Logic.Function.Basic
import MsmKernel.Lib.Run

/-! Aggregation of scheduler boosts (boost.c): requests are counted per boost, the enabled
boost of highest priority is effective, and changes of the effective boost run the exit and
enter callbacks. -/
namespace MsmKernel.Walt.Boost
open Run Function List

def EAGAIN : Int := 11
def EINVAL : Int := 22
def INT_MAX : Int := 2147483647

/- In descending order of priority behind `none`. -/
inductive BoostType where
  | none | fullThrottle | conservative | restrained | storage | balance
  deriving DecidableEq

def BoostType.byIndex : Nat → BoostType
  | 1 => .fullThrottle
  | 2 => .conservative
  | 3 => .restrained
  | 4 => .storage
  | 5 => .balance
  | _ => .none

def BoostType.index : BoostType → Nat
  | .none => 0
  | .fullThrottle => 1
  | .conservative => 2
  | .restrained => 3
  | .storage => 4
  | .balance => 5

inductive Policy where
  | none | onBig | onAll
  deriving DecidableEq

inductive Effect where
  | coreCtlSetBoost (boost : Bool)
  | waltEnableFrequencyAggregation (enable : Bool)
  deriving DecidableEq

structure State where
  refcount : BoostType → Int
  schedBoostType : BoostType
  sysctlSchedBoost : BoostType
  boostPolicy : Policy
  effects : List Effect

def initial : State := ⟨fun _ => 0, .none, .none, .none, []⟩

def int32 (n : Int) : Int := n.bmod 4294967296

def BoostType.enter : BoostType → List Effect
  | .none => []
  | .fullThrottle => [.coreCtlSetBoost true, .waltEnableFrequencyAggregation true]
  | .conservative => []
  | .restrained => [.waltEnableFrequencyAggregation true]
  | .storage => [.coreCtlSetBoost true]
  | .balance => [.coreCtlSetBoost true]

def BoostType.exit : BoostType → List Effect
  | .none => []
  | .fullThrottle => [.coreCtlSetBoost false, .waltEnableFrequencyAggregation false]
  | .conservative => []
  | .restrained => [.waltEnableFrequencyAggregation false]
  | .storage => [.coreCtlSetBoost false]
  | .balance => [.coreCtlSetBoost false]

def setBoostPolicy (hmpCapable : Bool) (type : BoostType) : Policy :=
  if type = .none ∨ type = .restrained then .none else if hmpCapable then .onBig else .onAll

def verifyBoostParams (type : Int) : Bool := -5 ≤ type && type ≤ 5

def schedEffectiveBoost (refcount : BoostType → Int) : BoostType :=
  (([.fullThrottle, .conservative, .restrained, .storage, .balance] : List BoostType).find?
    fun b => 1 ≤ refcount b).getD .none

def change (prev next : BoostType) : List Effect :=
  if next = prev then [] else prev.exit ++ next.enter

def schedBoostDisable (type : BoostType) (s : State) : State :=
  if s.refcount type ≤ 0 then s
  else
    let s' := { s with refcount := update s.refcount type (int32 (s.refcount type - 1)) }
    if s'.refcount type ≠ 0 then s'
    else
      { s' with
        effects := s.effects ++ change s.schedBoostType (schedEffectiveBoost s'.refcount) }

def schedBoostEnable (type : BoostType) (s : State) : State :=
  let s' := { s with refcount := update s.refcount type (int32 (s.refcount type + 1)) }
  if s'.refcount type ≠ 1 then s'
  else
    { s' with
      effects := s.effects ++ change s.schedBoostType (schedEffectiveBoost s'.refcount) }

def schedBoostDisableAll (s : State) : State :=
  if s.schedBoostType ≠ .none then
    { s with
      effects := s.effects ++ s.schedBoostType.exit
      refcount := fun b => if b = .none then s.refcount b else 0 }
  else s

def schedSetBoostLocked (hmpCapable : Bool) (type : Int) (s : State) : State :=
  let s :=
    if type = 0 then schedBoostDisableAll s
    else if 0 < type then schedBoostEnable (.byIndex type.toNat) s
    else schedBoostDisable (.byIndex (-type).toNat) s
  let effective := schedEffectiveBoost s.refcount
  { s with
    schedBoostType := effective
    sysctlSchedBoost := effective
    boostPolicy := setBoostPolicy hmpCapable effective }

structure Call where
  waltDisabled : Bool
  hmpCapable : Bool
  type : Int

def schedSetBoost (c : Call) (s : State) : Int × State :=
  if c.waltDisabled then (- EAGAIN, s)
  else if verifyBoostParams c.type then (0, schedSetBoostLocked c.hmpCapable c.type s)
  else (- EINVAL, s)

def step (s : State) (c : Call) : Option State := some (schedSetBoost c s).2

def Highest (refcount : BoostType → Int) (type : BoostType) : Prop :=
  (type = .none ∨ 0 < refcount type) ∧
    ∀ b, b ≠ .none → 0 < refcount b → type ≠ .none ∧ type.index ≤ b.index

def coreCtlCalls (boost : Bool) (effects : List Effect) : Nat :=
  effects.count (.coreCtlSetBoost boost)

/- Aggregation is off until it is first enabled. -/
def lastAggregation (effects : List Effect) : Bool :=
  effects.foldl (fun last e =>
    match e with
    | .waltEnableFrequencyAggregation enable => enable
    | .coreCtlSetBoost _ => last) false

def BoostType.usesCoreCtl (b : BoostType) : Bool := b = .fullThrottle || b = .storage || b = .balance

def BoostType.usesAggregation (b : BoostType) : Bool := b = .fullThrottle || b = .restrained

structure Consistent (s : State) : Prop where
  refcount_range : ∀ b, 0 ≤ s.refcount b ∧ s.refcount b ≤ INT_MAX
  highest : Highest s.refcount s.schedBoostType
  coreCtl : coreCtlCalls true s.effects =
    coreCtlCalls false s.effects + if s.schedBoostType.usesCoreCtl then 1 else 0
  aggregation : lastAggregation s.effects = s.schedBoostType.usesAggregation

variable {b a : BoostType} {refcount : BoostType → Int} {s t : State} {hmp : Bool} {n : Int}

theorem find?_least {p : BoostType → Bool} {l : List BoostType}
    (hl : l.Pairwise fun a b => a.index < b.index) (h : l.find? p = some b) :
    ∀ a ∈ l, p a = true → b.index ≤ a.index := by
  induction l with
  | nil => simp
  | cons c l ih =>
    obtain ⟨hc, hl⟩ := pairwise_cons.1 hl
    intro a ha hpa
    by_cases hpc : p c = true
    · rw [List.find?_cons_of_pos hpc, Option.some.injEq] at h
      rcases mem_cons.1 ha with hac | hal
      · exact Nat.le_of_eq (by rw [hac, h])
      · rw [← h]
        exact Nat.le_of_lt (hc a hal)
    · rw [List.find?_cons_of_neg hpc] at h
      rcases mem_cons.1 ha with hac | hal
      · exact absurd (hac ▸ hpa) hpc
      · exact ih hl h a hal hpa

theorem highest_schedEffectiveBoost (refcount : BoostType → Int) :
    Highest refcount (schedEffectiveBoost refcount) := by
  unfold schedEffectiveBoost
  have hall : ∀ b, b ≠ BoostType.none →
      b ∈ ([.fullThrottle, .conservative, .restrained, .storage, .balance] : List BoostType) := by
    intro b hb
    cases b <;> simp at hb ⊢
  cases h : ([.fullThrottle, .conservative, .restrained, .storage, .balance] :
      List BoostType).find? fun b => 1 ≤ refcount b with
  | none =>
    refine ⟨.inl rfl, fun b hb hpos => absurd ?_ (List.find?_eq_none.1 h b (hall b hb))⟩
    exact decide_eq_true hpos
  | some type =>
    have hpos : 1 ≤ refcount type := by simpa using List.find?_some h
    refine ⟨.inr hpos, fun b hb hb' => ⟨?_, ?_⟩⟩
    · rintro rfl
      simpa using mem_of_find?_eq_some h
    · exact find?_least (by decide) h b (hall b hb) (decide_eq_true hb')

theorem index_injective (h : a.index = b.index) : a = b := by
  cases a <;> cases b <;> simp [BoostType.index] at h ⊢

theorem highest_unique (ha : Highest refcount a) (hb : Highest refcount b) : a = b := by
  by_cases hna : a = .none
  · by_contra hne
    have hnb : b ≠ .none := fun h => hne (hna.trans h.symm)
    exact (ha.2 b hnb (hb.1.resolve_left hnb)).1 hna
  · have hpos : 0 < refcount a := ha.1.resolve_left hna
    obtain ⟨hnb, hle⟩ := hb.2 a hna hpos
    exact index_injective (Nat.le_antisymm (ha.2 b hnb (hb.1.resolve_left hnb)).2 hle)

theorem schedEffectiveBoost_congr {r r' : BoostType → Int} (h : ∀ b, 0 < r b ↔ 0 < r' b) :
    schedEffectiveBoost r = schedEffectiveBoost r' := by
  have hsame : (fun b => decide (1 ≤ r b)) = fun b => decide (1 ≤ r' b) := by
    funext b
    exact decide_eq_decide.2 (h b)
  unfold schedEffectiveBoost
  rw [hsame]

theorem coreCtl_change (effects : List Effect) (prev next : BoostType)
    (h : coreCtlCalls true effects =
      coreCtlCalls false effects + if prev.usesCoreCtl then 1 else 0) :
    coreCtlCalls true (effects ++ change prev next) =
      coreCtlCalls false (effects ++ change prev next) + if next.usesCoreCtl then 1 else 0 := by
  have hchange : coreCtlCalls true (change prev next) + (if prev.usesCoreCtl then 1 else 0) =
      coreCtlCalls false (change prev next) + if next.usesCoreCtl then 1 else 0 := by
    cases prev <;> cases next <;> decide
  simp only [coreCtlCalls, count_append] at h hchange ⊢
  omega

theorem aggregation_change (effects : List Effect) (prev next : BoostType)
    (h : lastAggregation effects = prev.usesAggregation) :
    lastAggregation (effects ++ change prev next) = next.usesAggregation := by
  unfold lastAggregation at h ⊢
  rw [foldl_append, h]
  cases prev <;> cases next <;> rfl

structure Updated (s s' : State) : Prop where
  highest : s'.schedBoostType = schedEffectiveBoost s'.refcount
  effects : s'.effects = s.effects ++ change s.schedBoostType s'.schedBoostType

theorem Consistent.of_updated {s' : State} (h : Consistent s) (hu : Updated s s')
    (hrange : ∀ b, 0 ≤ s'.refcount b ∧ s'.refcount b ≤ INT_MAX) : Consistent s' := by
  refine ⟨hrange, ?_, ?_, ?_⟩
  · rw [hu.highest]
    exact highest_schedEffectiveBoost _
  · rw [hu.effects]
    exact coreCtl_change _ _ _ h.coreCtl
  · rw [hu.effects]
    exact aggregation_change _ _ _ h.aggregation

theorem change_self (b : BoostType) : change b b = [] := if_pos rfl

theorem Consistent.type_eq (h : Consistent s) : s.schedBoostType = schedEffectiveBoost s.refcount :=
  highest_unique h.highest (highest_schedEffectiveBoost _)

def refresh (hmpCapable : Bool) (s : State) : State :=
  { s with
    schedBoostType := schedEffectiveBoost s.refcount
    sysctlSchedBoost := schedEffectiveBoost s.refcount
    boostPolicy := setBoostPolicy hmpCapable (schedEffectiveBoost s.refcount) }

theorem Consistent.updated_quiet (h : Consistent s) (heffects : t.effects = s.effects)
    (hsame : ∀ b, 0 < s.refcount b ↔ 0 < t.refcount b) : Updated s (refresh hmp t) := by
  refine ⟨rfl, ?_⟩
  have htype : schedEffectiveBoost t.refcount = s.schedBoostType := by
    rw [h.type_eq, schedEffectiveBoost_congr hsame]
  simp only [refresh, htype, change_self, heffects, append_nil]

theorem int32_eq (hlow : -2147483648 ≤ n) (hhigh : n < 2147483648) : int32 n = n := by
  unfold int32
  rw [Int.bmod_eq_of_le] <;> omega

theorem Consistent.range_update (h : Consistent s) (hn : 0 ≤ n ∧ n ≤ INT_MAX) (c : BoostType) :
    0 ≤ update s.refcount b n c ∧ update s.refcount b n c ≤ INT_MAX := by
  by_cases hc : c = b
  · rw [hc, update_self]
    exact hn
  · rw [update_of_ne hc]
    exact h.refcount_range c

theorem requested_update (hn : 0 < refcount b ↔ 0 < n) (c : BoostType) :
    0 < refcount c ↔ 0 < update refcount b n c := by
  by_cases hc : c = b
  · rw [hc, update_self]
    exact hn
  · rw [update_of_ne hc]

theorem Consistent.enable (h : Consistent s) (hmax : s.refcount b ≠ INT_MAX) :
    Consistent (refresh hmp (schedBoostEnable b s)) := by
  obtain ⟨hlow, hhigh⟩ := h.refcount_range b
  unfold INT_MAX at hhigh hmax
  have hcount : int32 (s.refcount b + 1) = s.refcount b + 1 := int32_eq (by omega) (by omega)
  have hrange := h.range_update (b := b) (n := s.refcount b + 1) ⟨by omega, by unfold INT_MAX; omega⟩
  unfold schedBoostEnable
  simp only [hcount, update_self]
  split_ifs with hone
  · exact h.of_updated (h.updated_quiet rfl (requested_update (by omega))) hrange
  · exact h.of_updated ⟨rfl, rfl⟩ hrange

theorem Consistent.disable (h : Consistent s) :
    Consistent (refresh hmp (schedBoostDisable b s)) := by
  obtain ⟨hlow, hhigh⟩ := h.refcount_range b
  unfold INT_MAX at hhigh
  unfold schedBoostDisable
  split_ifs with hzero
  · exact h.of_updated (h.updated_quiet rfl fun _ => Iff.rfl) h.refcount_range
  · have hcount : int32 (s.refcount b - 1) = s.refcount b - 1 := int32_eq (by omega) (by omega)
    have hrange := h.range_update (b := b) (n := s.refcount b - 1)
      ⟨by omega, by unfold INT_MAX; omega⟩
    simp only [hcount, update_self]
    split_ifs with hlast
    · exact h.of_updated (h.updated_quiet rfl (requested_update (by omega))) hrange
    · exact h.of_updated ⟨rfl, rfl⟩ hrange

theorem Consistent.disableAll (h : Consistent s) :
    Consistent (refresh hmp (schedBoostDisableAll s)) := by
  unfold schedBoostDisableAll
  split_ifs with hnone
  · have heffective : schedEffectiveBoost (fun b => if b = .none then s.refcount b else 0) = .none := by
      rfl
    refine h.of_updated ⟨rfl, ?_⟩ ?_
    · simp only [refresh, heffective]
      rw [change, if_neg hnone.symm, BoostType.enter, append_nil]
    · intro b
      simp only [refresh]
      split_ifs
      · exact h.refcount_range b
      · exact ⟨by omega, by unfold INT_MAX; omega⟩
  · exact h.of_updated (h.updated_quiet rfl fun _ => Iff.rfl) h.refcount_range

def Overflows (s : State) (c : Call) : Prop :=
  c.waltDisabled = false ∧ verifyBoostParams c.type = true ∧ 0 < c.type ∧
    s.refcount (.byIndex c.type.toNat) = INT_MAX

theorem refcount_overflow (hmp : Bool) (h : s.refcount b = INT_MAX) :
    (refresh hmp (schedBoostEnable b s)).refcount b = -2147483648 := by
  have hcount : int32 (INT_MAX + 1) = -2147483648 := by decide
  unfold schedBoostEnable
  simp only [h, hcount, update_self]
  simp [refresh]

theorem step_consistent_iff {c : Call} (h : Consistent s) (hstep : step s c = some t) :
    Consistent t ↔ ¬ Overflows s c := by
  simp only [step, Option.some.injEq] at hstep
  subst hstep
  unfold schedSetBoost
  split_ifs with hdisabled haccepted
  · exact iff_of_true h fun hover => by simp [hover.1] at hdisabled
  · by_cases hzero : c.type = 0
    · have hall : schedSetBoostLocked c.hmpCapable c.type s =
          refresh c.hmpCapable (schedBoostDisableAll s) := by
        simp [schedSetBoostLocked, hzero, refresh]
      rw [hall]
      exact iff_of_true h.disableAll fun hover => by
        have hpos := hover.2.2.1
        omega
    · by_cases hpos : 0 < c.type
      · have henable : schedSetBoostLocked c.hmpCapable c.type s =
            refresh c.hmpCapable (schedBoostEnable (.byIndex c.type.toNat) s) := by
          simp [schedSetBoostLocked, hzero, hpos, refresh]
        rw [henable]
        by_cases hmax : s.refcount (.byIndex c.type.toNat) = INT_MAX
        · refine iff_of_false (fun hc => ?_) (not_not.2 ⟨by simpa using hdisabled, haccepted, hpos, hmax⟩)
          have hnonneg := (hc.refcount_range (.byIndex c.type.toNat)).1
          rw [refcount_overflow c.hmpCapable hmax] at hnonneg
          omega
        · exact iff_of_true (h.enable hmax) fun hover => hmax hover.2.2.2
      · have hdisable : schedSetBoostLocked c.hmpCapable c.type s =
            refresh c.hmpCapable (schedBoostDisable (.byIndex (-c.type).toNat) s) := by
          simp [schedSetBoostLocked, hzero, hpos, refresh]
        rw [hdisable]
        exact iff_of_true h.disable fun hover => hpos hover.2.2.1
  · exact iff_of_true h fun hover => haccepted hover.2.1

theorem consistent_initial : Consistent initial := by
  refine ⟨fun _ => ⟨Int.le_refl 0, show 0 ≤ INT_MAX by decide⟩, ⟨.inl rfl, fun _ _ hb => ?_⟩, rfl, rfl⟩
  exact absurd hb (Int.lt_irrefl 0)

/-- For every sequence of calls: after each of them the effective boost is the requested boost
of highest priority, the callbacks are balanced with it and no count is negative, exactly if no
accepted request comes when its count has reached the largest int. -/
theorem boosts_aggregated (calls : List Call) :
    (∀ done s, done <+: calls → run step initial done = some s → Consistent s) ↔
      Along step (fun s c => ¬ Overflows s c) initial calls :=
  (along_iff_throughout (fun _ _ => ⟨_, rfl⟩)
    (fun _ _ _ hs hstep => step_consistent_iff hs hstep) consistent_initial).symm

def enableFullThrottle : Call := ⟨false, true, 1⟩

theorem refcount_enableFullThrottle (s : State) :
    (schedSetBoost enableFullThrottle s).2.refcount .fullThrottle =
      int32 (s.refcount .fullThrottle + 1) := by
  change (refresh true (schedBoostEnable .fullThrottle s)).refcount .fullThrottle = _
  unfold schedBoostEnable
  dsimp only
  split_ifs <;> simp [refresh]

theorem run_enableFullThrottle (k : Nat) (s : State)
    (h : int32 (s.refcount .fullThrottle) = s.refcount .fullThrottle) :
    ∃ t, run step s (List.replicate k enableFullThrottle) = some t ∧
      t.refcount .fullThrottle = int32 (s.refcount .fullThrottle + k) := by
  induction k generalizing s with
  | zero => exact ⟨s, rfl, by simpa using h.symm⟩
  | succ k ih =>
    have hcount := refcount_enableFullThrottle s
    obtain ⟨t, hrun, ht⟩ := ih (schedSetBoost enableFullThrottle s).2 (by
      rw [hcount]
      exact Int.bmod_bmod ..)
    refine ⟨t, hrun, ?_⟩
    rw [ht, hcount, int32, int32, Int.bmod_add_bmod, int32]
    congr 1
    omega

/-- The request number 2^31 makes a count negative. -/
theorem boost_refcount_overflows :
    ∃ s, run step initial (List.replicate 2147483648 enableFullThrottle) = some s ∧
      s.refcount .fullThrottle = -2147483648 ∧ ¬ Consistent s := by
  obtain ⟨s, hrun, hs⟩ := run_enableFullThrottle 2147483648 initial (by decide)
  have hcount : s.refcount .fullThrottle = -2147483648 := hs.trans (by decide)
  refine ⟨s, hrun, hcount, fun hc => ?_⟩
  have hnonneg := (hc.refcount_range .fullThrottle).1
  omega

end MsmKernel.Walt.Boost
