import Mathlib.Data.List.FinRange
import Mathlib.Logic.Function.Basic
import MsmKernel.Lib.Run

/-! Elections of voter.c: clients vote for a value, the smallest or largest enabled value is
effective, and a callback reports changes. -/
namespace MsmKernel.Walt.Voter
open Run Function List

def EINVAL : Int := 22
def INT_MAX : Int := 2147483647
def INT_MIN : Int := -2147483648
def NUM_MAX_CLIENTS : Nat := 8

inductive VotableType where
  | min | max | setAny
  deriving DecidableEq

structure ClientVote where
  enabled : Bool
  value : Int
  deriving DecidableEq

structure Votable where
  votes : Fin NUM_MAX_CLIENTS → ClientVote
  type : VotableType
  effectiveClientId : Int
  effectiveResult : Int
  callback : Option (Int → Int → Int)
  votedOn : Bool
  calls : List (Int × Int)

def createVotable (type : VotableType) (callback : Option (Int → Int → Int)) : Votable where
  votes _ := ⟨false, 0⟩
  type := type
  effectiveClientId := - EINVAL
  effectiveResult := if type = .setAny then 0 else - EINVAL
  callback := callback
  votedOn := false
  calls := []

abbrev Votes := Fin NUM_MAX_CLIENTS → ClientVote

/- One turn of the loops of `vote_min` and `vote_max`: the result and the client so far. -/
def visit (better : Int → Int → Bool) (votes : Votes) (eff : Int × Int)
    (i : Fin NUM_MAX_CLIENTS) : Int × Int :=
  if (votes i).enabled && better (votes i).value eff.1 then ((votes i).value, i.val) else eff

def elect (better : Int → Int → Bool) (start : Int) (votes : Votes) : Int × Int :=
  let eff := (List.finRange NUM_MAX_CLIENTS).foldl (visit better votes) (start, - EINVAL)
  if eff.2 = - EINVAL then (- EINVAL, eff.2) else eff

def voteMin (votes : Votes) : Int × Int := elect (fun value res => res > value) INT_MAX votes

def voteMax (votes : Votes) : Int × Int := elect (fun value res => res < value) INT_MIN votes

def voteSetAny (clientId : Int) (votes : Votes) : Int × Int :=
  (if (List.finRange NUM_MAX_CLIENTS).any fun i => (votes i).enabled then 1 else 0, clientId)

def election (type : VotableType) (clientId : Int) (votes : Votes) : Int × Int :=
  match type with
  | .min => voteMin votes
  | .max => voteMax votes
  | .setAny => voteSetAny clientId votes

structure Call where
  clientId : Option (Fin NUM_MAX_CLIENTS)
  enabled : Bool
  val : Int
  int : INT_MIN ≤ val ∧ val ≤ INT_MAX

def vote (c : Call) (v : Votable) : Int × Votable :=
  match c.clientId with
  | none => (- EINVAL, v)
  | some id =>
    let val := if v.type = .setAny then (if c.enabled then 1 else 0) else c.val
    let votes := update v.votes id ⟨c.enabled, val⟩
    if v.votes id = ⟨c.enabled, val⟩ ∧ v.votedOn then (0, v)
    else
      let eff := election v.type id.val votes
      if v.votedOn = false ∨ eff.1 ≠ v.effectiveResult then
        let t :=
          { v with
            votes := votes
            effectiveClientId := eff.2
            effectiveResult := eff.1
            votedOn := true }
        match v.callback with
        | none => (0, t)
        | some callback => (callback eff.1 eff.2, { t with calls := v.calls ++ [(eff.1, eff.2)] })
      else (0, { v with votes := votes, votedOn := true })

def step (v : Votable) (c : Call) : Option Votable := some (vote c v).2

def key : VotableType → Int → Int
  | .max, value => - value
  | _, value => value

/- The result no enabled vote can beat, and the one the loops start from. -/
def sentinel : VotableType → Int
  | .max => INT_MIN
  | _ => INT_MAX

def Best (type : VotableType) (votes : Votes) (res : Int) : Prop :=
  (∃ i, (votes i).enabled = true ∧ (votes i).value = res) ∧
    ∀ i, (votes i).enabled = true → key type res ≤ key type (votes i).value

def StandsFor (votes : Votes) (id res : Int) : Prop :=
  ∃ i : Fin NUM_MAX_CLIENTS, id = i.val ∧ (votes i).enabled = true ∧ (votes i).value = res

def Justified (v : Votable) : Prop :=
  ((∀ i, (v.votes i).enabled = false) ∧ v.effectiveResult = - EINVAL) ∨
    Best v.type v.votes v.effectiveResult ∧ StandsFor v.votes v.effectiveClientId v.effectiveResult

def votesAfter (c : Call) (v : Votable) : Votes :=
  match c.clientId with
  | none => v.votes
  | some id => update v.votes id ⟨c.enabled, c.val⟩

/- After the vote some client is below the sentinel, or nobody votes; and where the result stays
the same, the client that stands for it still does. -/
def KeepsElection (v : Votable) (c : Call) : Prop :=
  (∀ i, (votesAfter c v i).enabled = false) ∨
    ∃ res, Best v.type (votesAfter c v) res ∧ res ≠ sentinel v.type ∧
      (v.votedOn = true → res = v.effectiveResult → StandsFor (votesAfter c v) v.effectiveClientId res)

variable {type : VotableType} {votes : Votes}

variable {better : Int → Int → Bool} {v t : Votable} {c : Call}

theorem foldl_visit (votes : Votes) (hbetter : ∀ a b, better a b = true ↔ key type a < key type b)
    (l : List (Fin NUM_MAX_CLIENTS)) (eff : Int × Int) :
    (l.foldl (visit better votes) eff = eff ∧
        ∀ i ∈ l, (votes i).enabled = true → key type eff.1 ≤ key type (votes i).value) ∨
      ∃ i ∈ l, l.foldl (visit better votes) eff = ((votes i).value, (i.val : Int)) ∧
        (votes i).enabled = true ∧ key type (votes i).value < key type eff.1 ∧
        ∀ j ∈ l, (votes j).enabled = true → key type (votes i).value ≤ key type (votes j).value := by
  induction l generalizing eff with
  | nil => exact .inl ⟨rfl, by simp⟩
  | cons c l ih =>
    rw [foldl_cons]
    by_cases htake : (votes c).enabled = true ∧ key type (votes c).value < key type eff.1
    · have hvisit : visit better votes eff c = ((votes c).value, (c.val : Int)) := by
        rw [visit, if_pos (by simp [htake.1, (hbetter _ _).2 htake.2])]
      rw [hvisit]
      refine .inr ?_
      rcases ih ((votes c).value, (c.val : Int)) with ⟨hsame, hleast⟩ | ⟨i, hi, hend, hon, hlt, hleast⟩
      · exact ⟨c, mem_cons_self .., hsame, htake.1, htake.2,
          forall_mem_cons.2 ⟨fun _ => le_rfl, hleast⟩⟩
      · exact ⟨i, mem_cons_of_mem c hi, hend, hon, hlt.trans htake.2,
          forall_mem_cons.2 ⟨fun _ => hlt.le, hleast⟩⟩
    · have hvisit : visit better votes eff c = eff := by
        rw [visit, if_neg]
        simpa [hbetter] using htake
      have hhead : (votes c).enabled = true → key type eff.1 ≤ key type (votes c).value :=
        fun hon => Int.not_lt.1 fun hlt => htake ⟨hon, hlt⟩
      rw [hvisit]
      rcases ih eff with ⟨hsame, hleast⟩ | ⟨i, hi, hend, hon, hlt, hleast⟩
      · exact .inl ⟨hsame, forall_mem_cons.2 ⟨hhead, hleast⟩⟩
      · exact .inr ⟨i, mem_cons_of_mem c hi, hend, hon, hlt,
          forall_mem_cons.2 ⟨fun hon => hlt.le.trans (hhead hon), hleast⟩⟩

def InRange (votes : Votes) : Prop := ∀ i, INT_MIN ≤ (votes i).value ∧ (votes i).value ≤ INT_MAX

/-- An election finds a best vote with a client that stands for it, unless every enabled vote
is the sentinel. -/
theorem elect_spec (votes : Votes) (hbetter : ∀ a b, better a b = true ↔ key type a < key type b)
    (start : Int) :
    (elect better start votes = (- EINVAL, - EINVAL) ∧
        ∀ i, (votes i).enabled = true → key type start ≤ key type (votes i).value) ∨
      Best type votes (elect better start votes).1 ∧
        StandsFor votes (elect better start votes).2 (elect better start votes).1 ∧
        (elect better start votes).1 ≠ start := by
  unfold elect
  rcases foldl_visit votes hbetter (List.finRange NUM_MAX_CLIENTS) (start, - EINVAL) with
    ⟨hsame, hleast⟩ | ⟨i, -, hend, hon, hlt, hleast⟩
  · rw [hsame, if_pos rfl]
    exact .inl ⟨rfl, fun i hi => hleast i (mem_finRange i) hi⟩
  · have hid : ¬ ((votes i).value, (i.val : Int)).2 = - EINVAL := by
      simp only [EINVAL]
      omega
    rw [hend, if_neg hid]
    refine .inr ⟨⟨⟨i, hon, rfl⟩, fun j hj => hleast j (mem_finRange j) hj⟩, ⟨i, rfl, hon, rfl⟩, ?_⟩
    rintro hstart
    dsimp only at hstart hlt
    rw [hstart] at hlt
    exact absurd hlt (lt_irrefl _)

theorem election_spec (htype : type ≠ .setAny) (id : Int) (hrange : InRange votes) :
    (election type id votes = (- EINVAL, - EINVAL) ∧
        ∀ i, (votes i).enabled = true → (votes i).value = sentinel type) ∨
      Best type votes (election type id votes).1 ∧
        StandsFor votes (election type id votes).2 (election type id votes).1 ∧
        (election type id votes).1 ≠ sentinel type := by
  cases type with
  | min =>
    have hbetter : ∀ a b : Int, (decide (b > a)) = true ↔ key .min a < key .min b := by simp [key]
    rcases elect_spec votes hbetter INT_MAX with ⟨hnone, hall⟩ | hbest
    · exact .inl ⟨hnone, fun i hi => le_antisymm (hrange i).2 (hall i hi)⟩
    · exact .inr hbest
  | max =>
    have hbetter : ∀ a b : Int, (decide (b < a)) = true ↔ key .max a < key .max b := by simp [key]
    rcases elect_spec votes hbetter INT_MIN with ⟨hnone, hall⟩ | hbest
    · exact .inl ⟨hnone, fun i hi => le_antisymm (Int.neg_le_neg_iff.1 (hall i hi)) (hrange i).1⟩
    · exact .inr hbest
  | setAny => exact absurd rfl htype

theorem Best.unique {a b : Int} (ha : Best type votes a) (hb : Best type votes b) : a = b := by
  obtain ⟨⟨i, hi, rfl⟩, hleast⟩ := ha
  obtain ⟨⟨j, hj, rfl⟩, hleast'⟩ := hb
  have h₁ := hleast j hj
  have h₂ := hleast' i hi
  cases type <;> simp only [key] at h₁ h₂ <;> omega

theorem Best.not_disabled {res : Int} (h : Best type votes res) :
    ¬ ∀ i, (votes i).enabled = false := by
  obtain ⟨⟨i, hi, -⟩, -⟩ := h
  exact fun hall => Bool.noConfusion ((hall i).symm.trans hi)

structure Sane (v : Votable) : Prop where
  type : v.type ≠ .setAny
  range : InRange v.votes
  unvoted : v.votedOn = false → ∀ i, (v.votes i).enabled = false
  result : v.effectiveResult ≠ sentinel v.type

theorem einval_ne_sentinel (type : VotableType) : - EINVAL ≠ sentinel type := by
  cases type <;> decide

theorem vote_counted {id : Fin NUM_MAX_CLIENTS} (htype : v.type ≠ .setAny)
    (hid : c.clientId = some id) (hnew : ¬ (v.votes id = ⟨c.enabled, c.val⟩ ∧ v.votedOn = true)) :
    (vote c v).2.votes = votesAfter c v ∧ (vote c v).2.type = v.type ∧
      (vote c v).2.votedOn = true ∧ (vote c v).2.callback = v.callback ∧
      ((v.votedOn = false ∨ (election v.type id.val (votesAfter c v)).1 ≠ v.effectiveResult) ∧
          (vote c v).2.effectiveResult = (election v.type id.val (votesAfter c v)).1 ∧
          (vote c v).2.effectiveClientId = (election v.type id.val (votesAfter c v)).2 ∧
          (v.callback.isSome → (vote c v).2.calls =
            v.calls ++ [(election v.type id.val (votesAfter c v))]) ∨
        v.votedOn = true ∧ (election v.type id.val (votesAfter c v)).1 = v.effectiveResult ∧
          (vote c v).2.effectiveResult = v.effectiveResult ∧
          (vote c v).2.effectiveClientId = v.effectiveClientId ∧
          (vote c v).2.calls = v.calls) := by
  have hafter : votesAfter c v = update v.votes id ⟨c.enabled, c.val⟩ := by
    simp only [votesAfter, hid]
  rw [hafter]
  simp only [vote, hid, if_neg htype, if_neg hnew]
  generalize election v.type id.val (update v.votes id ⟨c.enabled, c.val⟩) = eff
  by_cases hchange : v.votedOn = false ∨ eff.1 ≠ v.effectiveResult
  · rw [if_pos hchange]
    cases v.callback with
    | none => exact ⟨rfl, rfl, rfl, rfl, .inl ⟨hchange, rfl, rfl, by simp⟩⟩
    | some callback => exact ⟨rfl, rfl, rfl, rfl, .inl ⟨hchange, rfl, rfl, fun _ => rfl⟩⟩
  · rw [if_neg hchange]
    simp only [not_or, Bool.not_eq_false, not_not] at hchange
    exact ⟨rfl, rfl, rfl, rfl, .inr ⟨hchange.1, hchange.2, rfl, rfl, rfl⟩⟩

theorem vote_uncounted (htype : v.type ≠ .setAny)
    (h : ∀ id, c.clientId = some id → v.votes id = ⟨c.enabled, c.val⟩ ∧ v.votedOn = true) :
    (vote c v).2 = v ∧ votesAfter c v = v.votes := by
  cases hid : c.clientId with
  | none => simp only [vote, votesAfter, hid, and_self]
  | some id =>
    have hsame := h id hid
    simp only [vote, votesAfter, hid, if_neg htype, if_pos hsame, true_and]
    rw [← hsame.1, update_eq_self]

theorem keepsElection_of_justified (hs : Sane v) (hj : Justified v)
    (hvotes : votesAfter c v = v.votes) : KeepsElection v c := by
  unfold KeepsElection
  rw [hvotes]
  rcases hj with ⟨hnone, -⟩ | ⟨hbest, hstands⟩
  · exact .inl hnone
  · exact .inr ⟨v.effectiveResult, hbest, hs.result, fun _ _ => hstands⟩

theorem Sane.votesAfter (hs : Sane v) (c : Call) : InRange (votesAfter c v) := by
  unfold Voter.votesAfter
  cases hid : c.clientId with
  | none => exact hs.range
  | some id =>
    intro i
    dsimp only
    by_cases hi : i = id
    · rw [hi, update_self]
      exact c.int
    · rw [update_of_ne hi]
      exact hs.range i

theorem counted_or_uncounted (v : Votable) (c : Call) :
    (∀ id, c.clientId = some id → v.votes id = ⟨c.enabled, c.val⟩ ∧ v.votedOn = true) ∨
      ∃ id, c.clientId = some id ∧ ¬ (v.votes id = ⟨c.enabled, c.val⟩ ∧ v.votedOn = true) := by
  rcases Classical.em (∀ id, c.clientId = some id →
      v.votes id = ⟨c.enabled, c.val⟩ ∧ v.votedOn = true) with h | h
  · exact .inl h
  · obtain ⟨id, hid⟩ := not_forall.1 h
    exact .inr ⟨id, Classical.not_imp.1 hid⟩

theorem step_sane (hs : Sane v) (hstep : step v c = some t) : Sane t := by
  simp only [step, Option.some.injEq] at hstep
  subst hstep
  rcases counted_or_uncounted v c with hsame | ⟨id, hid, hnew⟩
  · rw [(vote_uncounted hs.type hsame).1]
    exact hs
  · obtain ⟨hvotes, htype, hon, -, hresult⟩ := vote_counted hs.type hid hnew
    refine ⟨by rw [htype]; exact hs.type, by rw [hvotes]; exact hs.votesAfter c,
      fun hoff => Bool.noConfusion (hoff.symm.trans hon), ?_⟩
    rw [htype]
    rcases hresult with ⟨-, hres, -⟩ | ⟨-, -, hres, -⟩
    · rw [hres]
      rcases election_spec hs.type id.val (hs.votesAfter c) with ⟨hnone, -⟩ | ⟨-, -, hne⟩
      · rw [hnone]
        exact einval_ne_sentinel _
      · exact hne
    · rw [hres]
      exact hs.result

theorem step_justified_iff (hs : Sane v) (hj : Justified v) (hstep : step v c = some t) :
    Justified t ↔ KeepsElection v c := by
  simp only [step, Option.some.injEq] at hstep
  subst hstep
  rcases counted_or_uncounted v c with hsame | ⟨id, hid, hnew⟩
  · obtain ⟨hv, hvotes⟩ := vote_uncounted hs.type hsame
    rw [hv]
    exact iff_of_true hj (keepsElection_of_justified hs hj hvotes)
  · obtain ⟨hvotes, htype, -, -, hresult⟩ := vote_counted hs.type hid hnew
    unfold Justified KeepsElection
    rw [hvotes, htype]
    rcases election_spec hs.type id.val (hs.votesAfter c) with ⟨hnone, hall⟩ | ⟨hbest, hstands, hne⟩
    · -- nobody is below the sentinel: justified only if nobody votes
      have hres : (vote c v).2.effectiveResult = - EINVAL := by
        rcases hresult with ⟨-, hres, -⟩ | ⟨-, heq, hres, -⟩
        · rw [hres, hnone]
        · rw [hres, ← heq, hnone]
      have hsentinel : ∀ res, Best v.type (votesAfter c v) res → res = sentinel v.type := by
        rintro res ⟨⟨i, hi, rfl⟩, -⟩
        exact hall i hi
      rw [hres]
      constructor
      · rintro (⟨hoff, -⟩ | ⟨hb, -⟩)
        · exact .inl hoff
        · exact absurd (hsentinel _ hb) (einval_ne_sentinel _)
      · rintro (hoff | ⟨res, hb, hne, -⟩)
        · exact .inl ⟨hoff, rfl⟩
        · exact absurd (hsentinel res hb) hne
    · rcases hresult with ⟨hchange, hres, hclient, -⟩ | ⟨hon, heq, hres, hclient, -⟩
      · rw [hres, hclient]
        refine iff_of_true (.inr ⟨hbest, hstands⟩) (.inr ⟨_, hbest, hne, fun hon heq => ?_⟩)
        rcases hchange with hoff | hdiff
        · exact Bool.noConfusion (hoff.symm.trans hon)
        · exact absurd heq hdiff
      · rw [hres, hclient]
        rw [heq] at hbest hne
        constructor
        · rintro (⟨hoff, -⟩ | ⟨-, hstill⟩)
          · exact absurd hoff hbest.not_disabled
          · exact .inr ⟨_, hbest, hne, fun _ _ => hstill⟩
        · rintro (hoff | ⟨res, hb, -, hstill⟩)
          · exact absurd hoff hbest.not_disabled
          · have hsame : res = v.effectiveResult := hb.unique hbest
            subst hsame
            exact .inr ⟨hbest, hstill hon rfl⟩

section
variable (htype : type ≠ .setAny) (callback : Option (Int → Int → Int))
include htype callback

theorem sane_create : Sane (createVotable type callback) := by
  refine ⟨htype, fun _ => ⟨show INT_MIN ≤ 0 by decide, show 0 ≤ INT_MAX by decide⟩,
    fun _ _ => rfl, ?_⟩
  rw [createVotable, if_neg htype]
  exact einval_ne_sentinel type

theorem justified_create : Justified (createVotable type callback) :=
  .inl ⟨fun _ => rfl, if_neg htype⟩

end

theorem vote_calls (htype : v.type ≠ .setAny) (hid : c.clientId.isSome)
    (hcallback : v.callback.isSome) :
    (vote c v).2.calls = v.calls ++
      if v.votedOn = false ∨ (vote c v).2.effectiveResult ≠ v.effectiveResult then
        [((vote c v).2.effectiveResult, (vote c v).2.effectiveClientId)]
      else [] := by
  rcases counted_or_uncounted v c with hsame | ⟨id, hid', hnew⟩
  · obtain ⟨id, hid'⟩ := Option.isSome_iff_exists.1 hid
    have hon := (hsame id hid').2
    rw [(vote_uncounted htype hsame).1, if_neg (by simp [hon]), append_nil]
  · obtain ⟨-, -, -, -, hresult⟩ := vote_counted htype hid' hnew
    rcases hresult with ⟨hchange, hres, hclient, hcalls⟩ | ⟨hon, -, hres, -, hcalls⟩
    · rw [hres, hclient, if_pos hchange, hcalls hcallback]
    · rw [hcalls, hres, if_neg (by simp [hon]), append_nil]

/-- For every sequence of votes on a minimum or maximum votable: after each of them the result is
the best enabled value and the effective client is enabled and votes for it, exactly if every
vote meets the condition; and the callback runs on the first vote and on every change. -/
theorem election_justified (htype : type ≠ .setAny) (callback : Option (Int → Int → Int))
    (calls : List Call) :
    ((∀ done v, done <+: calls → run step (createVotable type callback) done = some v → Justified v) ↔
      Along step KeepsElection (createVotable type callback) calls) ∧
    ∀ done c v t, done ++ [c] <+: calls → run step (createVotable type callback) done = some v →
      step v c = some t → c.clientId.isSome → callback.isSome →
      t.calls = v.calls ++
        if v.votedOn = false ∨ t.effectiveResult ≠ v.effectiveResult then
          [(t.effectiveResult, t.effectiveClientId)]
        else [] := by
  have hcreate := sane_create htype callback
  have hkept : ∀ v c t, Sane v ∧ v.callback = callback → True → step v c = some t →
      Sane t ∧ t.callback = callback := by
    rintro v c t ⟨hs, hcall⟩ - hstep
    refine ⟨step_sane hs hstep, ?_⟩
    simp only [step, Option.some.injEq] at hstep
    subst hstep
    rcases counted_or_uncounted v c with hsame | ⟨id, hid, hnew⟩
    · rw [(vote_uncounted hs.type hsame).1, hcall]
    · rw [(vote_counted hs.type hid hnew).2.2.2.1, hcall]
  have hsane : ∀ done v, run step (createVotable type callback) done = some v →
      Sane v ∧ v.callback = callback := fun done v hrun =>
    run_invariant hkept ⟨hcreate, rfl⟩ (along_true _ _) hrun
  constructor
  · have hiff : Along step KeepsElection (createVotable type callback) calls ↔
        ∀ done v, done <+: calls → run step (createVotable type callback) done = some v →
          Sane v ∧ Justified v := by
      refine along_iff_throughout (fun _ _ => ⟨_, rfl⟩) ?_ ⟨hcreate, justified_create htype callback⟩
      rintro v c t ⟨hs, hj⟩ hstep
      rw [← step_justified_iff hs hj hstep]
      exact and_iff_right (step_sane hs hstep)
    rw [hiff]
    exact ⟨fun h done v hdone hrun => ⟨(hsane done v hrun).1, h done v hdone hrun⟩,
      fun h done v hdone hrun => (h done v hdone hrun).2⟩
  · rintro done c v t - hrun hstep hid hcallback
    obtain ⟨hs, hcall⟩ := hsane done v hrun
    simp only [step, Option.some.injEq] at hstep
    subst hstep
    exact vote_calls hs.type hid (hcall ▸ hcallback)

def clientCall (id val : Nat) (enabled : Bool) (hid : id < 8) (hval : val ≤ 2147483647) : Call :=
  ⟨some ⟨id, hid⟩, enabled, val, by unfold INT_MIN; omega, by unfold INT_MAX; omega⟩

/-- Two clients, the second below the first. -/
theorem election_justified_two_clients :
    (∀ done v, done <+: [clientCall 0 5 true (by decide) (by decide),
        clientCall 1 3 true (by decide) (by decide)] →
      run step (createVotable .min none) done = some v → Justified v) ↔
    Along step KeepsElection (createVotable .min none)
      [clientCall 0 5 true (by decide) (by decide), clientCall 1 3 true (by decide) (by decide)] :=
  (election_justified (by decide) none _).1

/-- The client that stands for a shared result withdraws: the result stays and so does the
client. And a vote for the largest int is taken for no vote at all. -/
theorem election_client_stale :
    (run step (createVotable .min none) [clientCall 0 5 true (by decide) (by decide),
        clientCall 1 5 true (by decide) (by decide), clientCall 0 5 false (by decide) (by decide)]).map
        (fun v => (v.effectiveResult, v.effectiveClientId, (v.votes ⟨0, by decide⟩).enabled)) =
      some (5, 0, false) ∧
    (run step (createVotable .min none) [clientCall 0 2147483647 true (by decide) (by decide)]).map
        (fun v => (v.effectiveResult, v.effectiveClientId, (v.votes ⟨0, by decide⟩).enabled)) =
      some (- EINVAL, - EINVAL, true) := by
  decide +kernel

end MsmKernel.Walt.Voter
