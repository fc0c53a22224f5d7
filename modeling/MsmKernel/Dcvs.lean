import Mathlib
import MsmKernel.Lib.Run

/-! Frequency votes on the slow DCVS paths (dcvs.c). A vote and a boost write aggregate the votes
of a path and commit what differs from the last commit; joining and leaving do not. -/
namespace MsmKernel.Dcvs
open Run List Function

def EPERM : Int := 1
def ENOMEM : Int := 12
def ENODEV : Int := 19
def EINVAL : Int := 22
def NUM_DCVS_HW_TYPES : Nat := 5

inductive HwType
  | ddr | llcc | l3 | ddrqos | ubwcp
  deriving DecidableEq

instance : Fintype HwType where
  elems := {.ddr, .llcc, .l3, .ddrqos, .ubwcp}
  complete := by rintro ⟨⟩ <;> decide

structure DcvsFreq where
  ib : Nat
  ab : Nat
  deriving DecidableEq

structure DcvsVoter where
  name : List Char
  freq : DcvsFreq

structure DcvsHw where
  freqTable : List Nat
  nonempty : freqTable ≠ []
  ascending : freqTable.Pairwise (· ≤ ·)
  hwMinFreq : Nat
  hwMaxFreq : Nat

/- The slow path of a hardware; `voted` remembers that a vote has been counted. -/
structure DcvsPath extends DcvsHw where
  boostFreq : Nat
  voterList : List DcvsVoter
  curFreq : DcvsFreq
  voted : Bool

open DcvsPath

def qcomDcvsPathProbe (hw : DcvsHw) : DcvsPath :=
  { hw with
    boostFreq := hw.hwMaxFreq, voterList := [], curFreq := ⟨hw.hwMaxFreq, 0⟩, voted := false }

/- One round of the loop over the voters; the sum is a u32. -/
def tally (new : DcvsFreq) (voter : DcvsVoter) : DcvsFreq :=
  ⟨max voter.freq.ib new.ib, (new.ab + voter.freq.ab) % 2 ^ 32⟩

namespace DcvsPath

section
variable (p : DcvsPath)

def getTargetFreq (freq : Nat) : Nat :=
  (p.freqTable.find? (max freq p.boostFreq ≤ ·)).getD (p.freqTable.getLast p.nonempty)

def newFreq : DcvsFreq :=
  let new := p.voterList.foldl tally ⟨0, 0⟩
  ⟨p.getTargetFreq new.ib, new.ab⟩

def has (name : List Char) : Bool := p.voterList.any (·.name = name)

def setVote (name : List Char) (freq : DcvsFreq) : DcvsPath :=
  { p with
    voterList := p.voterList.map fun v => if v.name = name then { v with freq } else v
    voted := true }

def commitVote : DcvsPath :=
  if p.newFreq.ib ≠ p.curFreq.ib ∨ p.newFreq.ab ≠ p.curFreq.ab then { p with curFreq := p.newFreq }
  else p

def commitBoost : DcvsPath :=
  if p.newFreq.ib ≠ p.curFreq.ib then { p with curFreq := p.newFreq } else p

def setBoost (val : Nat) : DcvsPath := { p with boostFreq := max val p.hwMinFreq }

def join (name : List Char) : DcvsPath :=
  { p with voterList := p.voterList ++ [⟨name, ⟨0, 0⟩⟩] }

def leave (name : List Char) : DcvsPath :=
  { p with voterList := p.voterList.eraseP (·.name = name) }

def abSum : Nat := (p.voterList.map (·.freq.ab)).sum

end

end DcvsPath

/- The hardware that has a slow path. -/
abbrev State := HwType → Option DcvsPath

def spUpdateVotes (name : List Char) : State → List (HwType × DcvsFreq) → Int × State
  | s, [] => (0, s)
  | s, (hwType, freq) :: votes =>
    match s hwType with
    | none => (- EINVAL, s)
    | some p =>
      if p.has name then spUpdateVotes name (update s hwType (some (p.setVote name freq).commitVote)) votes
      else (- EINVAL, s)

def qcomDcvsSpUpdate (s : State) (name : List Char)
    (votes : Fin NUM_DCVS_HW_TYPES → HwType × DcvsFreq) (updateMask : Nat) : Int × State :=
  if updateMask = 0 then (- EINVAL, s)
  else
    let selected := (finRange NUM_DCVS_HW_TYPES).filter fun i : Fin _ => updateMask.testBit i
    spUpdateVotes name s (selected.map votes)

def storeBoostFreq (s : State) (hwType : HwType) (buf : Except Int Nat) (count : Int) :
    Int × State :=
  match buf, s hwType with
  | .error ret, _ => (ret, s)
  | .ok _, none => (- EPERM, s)
  | .ok val, some p =>
    if p.hwMaxFreq < val then (- EINVAL, s)
    else (count, update s hwType (some (p.setBoost val).commitBoost))

def qcomDcvsRegisterVoter (s : State) (name : List Char) (hwType : HwType) (alloc : Bool) :
    Int × State :=
  match s hwType with
  | none => (- ENODEV, s)
  | some p =>
    if p.has name then (- EINVAL, s)
    else if alloc then (0, update s hwType (some (p.join name)))
    else (- ENOMEM, s)

def qcomDcvsUnregisterVoter (s : State) (name : List Char) (hwType : HwType) : Int × State :=
  match s hwType with
  | none => (- ENODEV, s)
  | some p =>
    if p.has name then (0, update s hwType (some (p.leave name))) else (- EINVAL, s)

inductive Call
  | register (name : List Char) (hwType : HwType) (alloc : Bool)
  | unregister (name : List Char) (hwType : HwType)
  | update (name : List Char) (votes : Fin NUM_DCVS_HW_TYPES → HwType × DcvsFreq)
    (updateMask : Nat)
  | boost (hwType : HwType) (buf : Except Int Nat) (count : Int)

def exec (s : State) : Call → Int × State
  | .register name hwType alloc => qcomDcvsRegisterVoter s name hwType alloc
  | .unregister name hwType => qcomDcvsUnregisterVoter s name hwType
  | .update name votes updateMask => qcomDcvsSpUpdate s name votes updateMask
  | .boost hwType buf count => storeBoostFreq s hwType buf count

def step (s : State) (c : Call) : Option State := some (exec s c).2

def started (hws : HwType → Option DcvsHw) : State := fun t => (hws t).map qcomDcvsPathProbe

/- The smallest entry not below `freq`, or the largest entry if there is none. -/
structure IsTarget (table : List Nat) (freq target : Nat) : Prop where
  mem : target ∈ table
  least : ∀ f ∈ table, freq ≤ f → freq ≤ target ∧ target ≤ f
  largest : (∀ f ∈ table, f < freq) → ∀ f ∈ table, f ≤ target

structure Faithful (p : DcvsPath) : Prop where
  ib : IsTarget p.freqTable ((p.voterList.map (·.freq.ib)).foldl max p.boostFreq) p.curFreq.ib
  ab : p.curFreq.ab = p.abSum

/- A voter leaves without changing the aggregate, and the ab votes never sum past a u32. -/
def Settled (s : State) : Call → Prop
  | .unregister name hwType =>
    ∀ p ∈ s hwType, p.voted = true → (p.leave name).newFreq = p.newFreq
  | .update name votes updateMask =>
    ∀ hwType, ∀ p ∈ (qcomDcvsSpUpdate s name votes updateMask).2 hwType, p.abSum < 2 ^ 32
  | _ => True

instance (s : State) : ∀ c, Decidable (Settled s c)
  | .unregister .. => Option.decidableForallMem _
  | .update .. => inferInstanceAs (Decidable (∀ _, _))
  | .register .. | .boost .. => isTrue trivial

theorem foldl_tally_ib (voters : List DcvsVoter) (new : DcvsFreq) (b : Nat) :
    max (voters.foldl tally new).ib b = (voters.map (·.freq.ib)).foldl max (max new.ib b) := by
  induction voters generalizing new with
  | nil => rfl
  | cons v voters ih =>
    have hswap : max (max v.freq.ib new.ib) b = max (max new.ib b) v.freq.ib := by omega
    rw [foldl_cons, ih, map_cons, foldl_cons, tally, hswap]

theorem foldl_tally_ab (voters : List DcvsVoter) {new : DcvsFreq} (h : new.ab < 2 ^ 32) :
    (voters.foldl tally new).ab = (new.ab + (voters.map (·.freq.ab)).sum) % 2 ^ 32 := by
  induction voters generalizing new with
  | nil => simpa using (Nat.mod_eq_of_lt h).symm
  | cons v voters ih =>
    rw [foldl_cons, ih (Nat.mod_lt _ (by decide))]
    simp [tally, Nat.add_assoc]

section
variable {p q : DcvsPath} {s t : State}

theorem isTarget_getTargetFreq (p : DcvsPath) (freq : Nat) :
    IsTarget p.freqTable (max freq p.boostFreq) (p.getTargetFreq freq) := by
  unfold getTargetFreq
  generalize max freq p.boostFreq = m
  cases hfind : p.freqTable.find? (m ≤ ·) with
  | none =>
    have hbelow : ∀ f ∈ p.freqTable, f < m := by simpa using hfind
    refine ⟨getLast_mem _, fun f hf hm => ?_, fun _ f hf => ?_⟩
    · exact absurd (hbelow f hf) (Nat.not_lt.2 hm)
    · exact p.ascending.rel_getLast hf
  | some target =>
    obtain ⟨hm, before, after, htable, hbefore⟩ := find?_eq_some_iff_append.1 hfind
    have hm : m ≤ target := by simpa using hm
    have hmem : target ∈ p.freqTable := by simp [htable]
    refine ⟨hmem, fun f hf hle => ⟨hm, ?_⟩, fun hlt => absurd (hlt _ hmem) (Nat.not_lt.2 hm)⟩
    -- an entry before the one found is below `freq`, one after it is not smaller
    have hsorted := htable ▸ p.ascending
    rcases mem_append.1 (htable ▸ hf) with hf | hf
    · exact absurd hle (by simpa using hbefore f hf)
    · rcases mem_cons.1 hf with rfl | hf
      · exact Nat.le_refl _
      · exact rel_of_pairwise_cons (pairwise_append.1 hsorted).2.1 hf

theorem faithful_of_newFreq (hcur : p.curFreq = p.newFreq) (hsum : p.abSum < 2 ^ 32) :
    Faithful p := by
  constructor
  · have htarget := isTarget_getTargetFreq p (p.voterList.foldl tally ⟨0, 0⟩).ib
    rw [foldl_tally_ib, Nat.zero_max] at htarget
    rwa [hcur]
  · have hab := @foldl_tally_ab p.voterList ⟨0, 0⟩ (by decide)
    rw [Nat.zero_add] at hab
    rw [hcur]
    exact hab.trans (Nat.mod_eq_of_lt hsum)

theorem newFreq_join (p : DcvsPath) (name : List Char) : (p.join name).newFreq = p.newFreq := by
  have hab := @foldl_tally_ab p.voterList ⟨0, 0⟩ (by decide)
  simp [newFreq, join, getTargetFreq, tally, hab]

theorem curFreq_commitVote (p : DcvsPath) : p.commitVote.curFreq = p.commitVote.newFreq := by
  unfold commitVote
  split_ifs with hdiff
  · rfl
  · obtain ⟨hib, hab⟩ := not_or.1 hdiff
    exact (congrArg₂ DcvsFreq.mk (not_not.1 hib) (not_not.1 hab)).symm

/-- A boost write tests the ib value only, so the ab value has to be right before. -/
theorem curFreq_commitBoost (hab : p.curFreq.ab = p.newFreq.ab) :
    p.commitBoost.curFreq = p.commitBoost.newFreq := by
  unfold commitBoost
  split_ifs with hdiff
  · rfl
  · exact congrArg₂ DcvsFreq.mk (not_not.1 hdiff).symm hab

theorem abSum_leave_le (p : DcvsPath) (name : List Char) : (p.leave name).abSum ≤ p.abSum :=
  ((eraseP_sublist ..).map _).sum_le_sum fun _ _ => Nat.zero_le _

def Current (p : DcvsPath) : Prop := p.voted = true → p.curFreq = p.newFreq

def Fits (p : DcvsPath) : Prop := p.voted = true → p.abSum < 2 ^ 32

def All (P : DcvsPath → Prop) (s : State) : Prop := ∀ hwType, ∀ p ∈ s hwType, P p

theorem All.put {P : DcvsPath → Prop} (h : All P s) (hwType : HwType) (hq : P q) :
    All P (update s hwType (some q)) := by
  intro other p hp
  by_cases hne : other = hwType
  · subst hne
    rw [update_self] at hp
    exact Option.some.inj hp ▸ hq
  · rw [update_of_ne hne] at hp
    exact h other p hp

theorem current_spUpdateVotes (name : List Char) (votes : List (HwType × DcvsFreq))
    (h : All Current s) : All Current (spUpdateVotes name s votes).2 := by
  induction votes generalizing s with
  | nil => exact h
  | cons v votes ih =>
    unfold spUpdateVotes
    split
    · exact h
    · next p hp =>
      split_ifs
      · exact ih (h.put v.1 fun _ => curFreq_commitVote _)
      · exact h

theorem step_inv {c : Call} (h : All Current s ∧ All Fits s) (hok : Settled s c)
    (hstep : step s c = some t) : All Current t ∧ All Fits t := by
  obtain rfl := Option.some.inj hstep
  cases c with
  | register name hwType alloc =>
    simp only [exec, qcomDcvsRegisterVoter]
    split
    · exact h
    · next p hp =>
      split_ifs
      · exact h
      · refine ⟨h.1.put hwType fun hv => ?_, h.2.put hwType fun hv => ?_⟩
        · exact (h.1 _ p hp hv).trans (newFreq_join p name).symm
        · simpa [abSum, join] using h.2 _ p hp hv
      · exact h
  | unregister name hwType =>
    simp only [exec, qcomDcvsUnregisterVoter]
    split
    · exact h
    · next p hp =>
      split_ifs
      · refine ⟨h.1.put hwType fun hv => ?_, h.2.put hwType fun hv => ?_⟩
        · exact (h.1 _ p hp hv).trans (hok p hp hv).symm
        · exact Nat.lt_of_le_of_lt (abSum_leave_le p name) (h.2 _ p hp hv)
      · exact h
  | update name votes updateMask =>
    refine ⟨?_, fun hwType p hp _ => hok hwType p hp⟩
    simp only [exec, qcomDcvsSpUpdate]
    split_ifs
    · exact h.1
    · exact current_spUpdateVotes name _ h.1
  | boost hwType buf count =>
    simp only [exec, storeBoostFreq]
    split
    · exact h
    · exact h
    · next val p hp =>
      split_ifs
      · exact h
      · have hsame : (p.setBoost val).commitBoost.voted = p.voted ∧
            (p.setBoost val).commitBoost.abSum = p.abSum := by
          unfold commitBoost
          split_ifs <;> exact ⟨rfl, rfl⟩
        refine ⟨h.1.put hwType fun hv => ?_, h.2.put hwType fun hv => ?_⟩
        · exact curFreq_commitBoost (congrArg DcvsFreq.ab (h.1 _ p hp (hsame.1 ▸ hv)) :)
        · exact hsame.2 ▸ h.2 _ p hp (hsame.1 ▸ hv)

end

/-- Along every settled run, a path with a counted vote has committed the aggregate of the votes
of its voters and the boost frequency. -/
theorem committed_faithful {hws : HwType → Option DcvsHw} {calls : List Call} {t : State}
    (hok : Along step Settled (started hws) calls) (hrun : run step (started hws) calls = some t)
    {hwType : HwType} {p : DcvsPath} (hp : t hwType = some p) (hvoted : p.voted = true) :
    Faithful p := by
  have hstart : All Current (started hws) ∧ All Fits (started hws) := by
    constructor <;> intro hwType p hp hv <;> obtain ⟨hw, -, rfl⟩ := Option.map_eq_some_iff.1 hp <;>
      cases hv
  obtain ⟨hcurrent, hfits⟩ :=
    run_invariant (fun _ _ _ h hok hstep => step_inv h hok hstep) hstart hok hrun
  exact faithful_of_newFreq (hcurrent _ p hp hvoted) (hfits _ p hp hvoted)

def ddrHw : DcvsHw := ⟨[200, 400, 800], by decide, by decide, 200, 800⟩

def ddrOnly : HwType → Option DcvsHw
  | .ddr => some ddrHw
  | _ => none

def votesOf (ib ab : Nat) : Fin NUM_DCVS_HW_TYPES → HwType × DcvsFreq := fun _ => (.ddr, ⟨ib, ab⟩)

def withdrawn : List Call :=
  [.register ['a'] .ddr true, .register ['b'] .ddr true, .boost .ddr (.ok 100) 3,
    .update ['a'] (votesOf 700 5) 1, .update ['b'] (votesOf 300 2) 1, .update ['a'] (votesOf 0 0) 1,
    .unregister ['a'] .ddr]

theorem committed_faithful_withdrawn : ∃ t, run step (started ddrOnly) withdrawn = some t ∧
    (t .ddr).map (fun p => (p.voted, p.curFreq)) = some (true, ⟨400, 2⟩) ∧
      ∀ p ∈ t .ddr, Faithful p := by
  refine exists_run_and (by decide +kernel) fun t hrun hddr p hp =>
    committed_faithful (by decide +kernel) hrun hp ?_
  rw [Option.mem_def.1 hp] at hddr
  exact congrArg Prod.fst (Option.some.inj hddr)

/-- A voter leaves with its vote standing: the path stays at that vote, with no voter left. -/
theorem left_vote_stays : ∃ t p, run step (started ddrOnly)
    [.register ['a'] .ddr true, .boost .ddr (.ok 100) 3, .update ['a'] (votesOf 700 5) 1,
      .unregister ['a'] .ddr] = some t ∧ t .ddr = some p ∧ p.voted = true ∧ p.voterList = [] ∧
      p.curFreq = ⟨800, 5⟩ ∧ ¬ Faithful p :=
  ⟨_, { ddrHw with boostFreq := 200, voterList := [], curFreq := ⟨800, 5⟩, voted := true }, rfl, rfl,
    rfl, rfl, rfl, fun h => absurd h.ab (by decide)⟩

end MsmKernel.Dcvs
