import Mathlib.Data.Finset.Card

/-! A walk over a linked list whose visits may move the current entry to the tail. The successor is
fetched before the visit, so a moved entry is met again unless it was the last one. -/
namespace MsmKernel.TailMoves
open List
variable {σ α : Type*}

inductive Visit (σ : Type*)
  | stop
  | skip
  | move (s : σ)

/- `kept` has been passed, the walk goes on with the list that follows; it ends when the first
argument is used up. -/
def walk (visit : σ → α → Visit σ) : Nat → List α → List α → σ → List α × σ
  | 0, kept, rest, s => (kept ++ rest, s)
  | _ + 1, kept, [], s => (kept, s)
  | n + 1, kept, c :: rest, s =>
    match visit s c with
    | .stop => (kept ++ c :: rest, s)
    | .skip => walk visit n (kept ++ [c]) rest s
    | .move s =>
      match rest with
      | [] => (kept ++ [c], s)
      | d :: rest => walk visit n kept (d :: rest ++ [c]) s

theorem walk_invariant {visit : σ → α → Visit σ} {I : σ → Prop}
    (hmove : ∀ s c t, I s → visit s c = .move t → I t) (n : Nat) (kept rest : List α) (s : σ)
    (hs : I s) : I (walk visit n kept rest s).2 := by
  induction n generalizing kept rest s with
  | zero => exact hs
  | succ n ih =>
    cases rest with
    | nil => exact hs
    | cons c rest =>
      simp only [walk]
      split
      · exact hs
      · exact ih _ _ _ hs
      · rename_i t hvisit
        cases rest with
        | nil => exact hmove s c t hs hvisit
        | cons d rest => exact ih _ _ _ (hmove s c t hs hvisit)

/-- A walk whose moves use up a measure ends by itself. -/
theorem walk_fuel {visit : σ → α → Visit σ} {μ : σ → Nat}
    (hμ : ∀ s c t, visit s c = .move t → μ t < μ s) {n n' : Nat} (kept : List α) {rest : List α}
    {s : σ} (hn : rest.length + μ s ≤ n) (hn' : rest.length + μ s ≤ n') :
    walk visit n kept rest s = walk visit n' kept rest s := by
  induction n generalizing n' kept rest s with
  | zero =>
    have hrest : rest = [] := eq_nil_of_length_eq_zero (by omega)
    cases n' <;> simp [walk, hrest]
  | succ n ih =>
    cases rest with
    | nil => cases n' <;> simp [walk]
    | cons c rest =>
      cases n' with
      | zero =>
        rw [length_cons] at hn'
        omega
      | succ n' =>
        rw [length_cons] at hn hn'
        simp only [walk]
        cases hvisit : visit s c with
        | stop => rfl
        | skip => exact ih _ (by omega) (by omega)
        | move t =>
          have hlt := hμ s c t hvisit
          cases rest with
          | nil => rfl
          | cons d rest =>
            have hlen : (d :: rest ++ [c]).length = (d :: rest).length + 1 := by simp
            exact ih _ (by omega) (by omega)

variable {k : Nat} {l S : List α} {c : α}

section Selects
variable {q : α → Bool} {m : Nat}

/-- The entries taken from the front of `l` when `k` are taken already. -/
def chosen (q : α → Bool) (m k : Nat) (l : List α) : List α := (l.filter q).take (m - k)

theorem mem_of_mem_chosen (h : c ∈ chosen q m k l) :
    c ∈ l ∧ q c = true := mem_filter.mp (mem_of_mem_take h)

theorem chosen_nodup (hl : l.Nodup) : (chosen q m k l).Nodup :=
  (hl.filter _).sublist (take_sublist _ _)

theorem length_chosen (k : Nat) (l : List α) :
    (chosen q m k l).length = min (m - k) (l.filter q).length := by
  simp [chosen]

theorem chosen_full (l : List α) : chosen q m m l = [] := by simp [chosen]

theorem chosen_cons_of_take (hk : k < m) (hq : q c = true) (l : List α) :
    chosen q m k (c :: l) = c :: chosen q m (k + 1) l := by
  have hrest : m - k = m - (k + 1) + 1 := by omega
  simp [chosen, hq, hrest]

theorem chosen_cons_of_pass (hq : q c = false) (l : List α) :
    chosen q m k (c :: l) = chosen q m k l := by
  simp [chosen, hq]

variable [DecidableEq α] {visit : Finset α × Nat → α → Visit (Finset α × Nat)}

/-- The visits take entries that satisfy `q` into a set, and count them, until `m` are taken. -/
structure Selects (visit : Finset α × Nat → α → Visit (Finset α × Nat)) (q : α → Bool) (m : Nat) :
    Prop where
  take : ∀ mask k c, k < m → q c = true → visit (mask, k) c = .move (insert c mask, k + 1)
  pass : ∀ mask k c, k < m → q c = false → visit (mask, k) c = .skip
  full : ∀ mask c, visit (mask, m) c = .skip ∨ visit (mask, m) c = .stop

theorem walk_selects_from (hsel : Selects visit q m) (l kept moved : List α) (mask : Finset α)
    (k : Nat) (hk : k ≤ m) (hl : l.Nodup) :
    walk visit l.length kept (l ++ moved) (mask, k) =
      (kept ++ l.filter (fun c => c ∉ chosen q m k l) ++ moved ++ chosen q m k l,
        mask ∪ (chosen q m k l).toFinset, k + (chosen q m k l).length) := by
  induction l generalizing kept moved mask k with
  | nil => simp [walk, chosen]
  | cons c l ih =>
    obtain ⟨hc, hl⟩ := nodup_cons.mp hl
    rcases Nat.lt_or_eq_of_le hk with hlt | rfl
    · cases hq : q c with
      | true =>
        rw [chosen_cons_of_take hlt hq]
        have hrest : ∀ ch : List α, (c :: l).filter (fun d => d ∉ c :: ch) =
            l.filter fun d => d ∉ ch := by
          intro ch
          rw [filter_cons_of_neg (by simp)]
          refine filter_congr fun d hd => ?_
          have hdc : d ≠ c := fun heq => hc (heq ▸ hd)
          simp [hdc]
        have hnext := ih kept (moved ++ [c]) (insert c mask) (k + 1) hlt hl
        rw [hrest]
        simp only [length_cons, cons_append, walk, hsel.take mask k c hlt hq]
        cases hl' : l ++ moved with
        | nil =>
          obtain ⟨rfl, rfl⟩ := append_eq_nil_iff.mp hl'
          simp [chosen]
        | cons d rest =>
          rw [← append_assoc, hl'] at hnext
          change walk visit l.length kept (d :: rest ++ [c]) (insert c mask, k + 1) = _
          rw [hnext]
          simp [Finset.insert_union, Finset.union_insert, Nat.add_assoc, Nat.add_comm]
      | false =>
        rw [chosen_cons_of_pass hq]
        have hnot : c ∉ chosen q m k l := fun hin => hc (mem_of_mem_chosen hin).1
        simp only [length_cons, cons_append, walk, hsel.pass mask k c hlt hq]
        rw [ih _ moved mask k hk hl, filter_cons_of_pos (by simpa using hnot)]
        simp
    · simp only [chosen_full, length_cons, cons_append, walk]
      rcases hsel.full mask c with hskip | hstop
      · rw [hskip]
        simp only [ih _ moved mask k hk hl, chosen_full]
        simp
      · rw [hstop]
        simp

def movedBehind (S l : List α) : List α := l.filter (fun c => c ∉ S) ++ S

/-- One walk over the whole list takes the first entries that satisfy `q` and leaves them, in the
order they were taken, behind the others. -/
theorem walk_selects (hsel : Selects visit q m) {mask : Finset α} (hk : k ≤ m) (hl : l.Nodup) :
    walk visit l.length [] l (mask, k) =
      (movedBehind (chosen q m k l) l, mask ∪ (chosen q m k l).toFinset,
        k + (chosen q m k l).length) := by
  simpa [movedBehind] using walk_selects_from hsel l [] [] mask k hk hl

theorem movedBehind_perm (hl : l.Nodup) (hS : S.Nodup) (hsub : ∀ c ∈ S, c ∈ l) :
    (movedBehind S l).Perm l := by
  have hmem : (l.filter fun c => c ∈ S).Perm S := by
    refine (perm_ext_iff_of_nodup (hl.filter _) hS).mpr fun c => ?_
    simp only [mem_filter, decide_eq_true_eq]
    exact ⟨fun h => h.2, fun h => ⟨hsub c h, h⟩⟩
  have hsplit := filter_append_perm (fun c => decide (c ∈ S)) l
  have hcomm : ((l.filter fun c => !decide (c ∈ S)) ++ l.filter fun c => decide (c ∈ S)).Perm l :=
    perm_append_comm.trans hsplit
  simp only [← decide_not] at hcomm
  exact ((List.Perm.refl _).append hmem.symm).trans hcomm

theorem length_filter_outside (hl : l.Nodup) (hS : S.Nodup) (hsub : ∀ c ∈ S, c ∈ l ∧ q c = true) :
    ((l.filter fun c => c ∉ S).filter q).length + S.length = (l.filter q).length := by
  have hperm := (movedBehind_perm hl hS fun c hc => (hsub c hc).1).filter q
  have hall : S.filter q = S := filter_eq_self.mpr fun c hc => (hsub c hc).2
  rw [movedBehind, filter_append, hall] at hperm
  rw [← hperm.length_eq, length_append]

/-- A second walk meets what the first has left before it meets again what the first has taken. -/
theorem chosen_movedBehind (hall : ∀ c ∈ S, q c = true) :
    chosen q m k (movedBehind S l) =
      ((l.filter fun c => c ∉ S).filter q).take (m - k) ++
        S.take (m - k - ((l.filter fun c => c ∉ S).filter q).length) := by
  have hself : S.filter q = S := filter_eq_self.mpr hall
  rw [chosen, movedBehind, filter_append, hself, take_append]

/-- While enough is left, a second walk takes entries that are all new. -/
theorem card_union_chosen (hl : l.Nodup) (hS : S.Nodup) (hsub : ∀ c ∈ S, c ∈ l ∧ q c = true)
    (henough : m - k + S.length ≤ (l.filter q).length) :
    (S.toFinset ∪ (chosen q m k (movedBehind S l)).toFinset).card = S.length + (m - k) ∧
      (chosen q m k (movedBehind S l)).length = m - k := by
  have hlen := length_filter_outside hl hS hsub
  have hfresh : chosen q m k (movedBehind S l) =
      ((l.filter fun c => c ∉ S).filter q).take (m - k) := by
    have hzero : m - k - ((l.filter fun c => c ∉ S).filter q).length = 0 := by omega
    rw [chosen_movedBehind fun c hc => (hsub c hc).2, hzero, take_zero, append_nil]
  have hdis : Disjoint S.toFinset (((l.filter fun c => c ∉ S).filter q).take (m - k)).toFinset := by
    rw [Finset.disjoint_left]
    intro c hc hin
    have hrest := mem_of_mem_take (mem_toFinset.mp hin)
    simp only [mem_filter, decide_eq_true_eq] at hrest
    exact hrest.1.2 (mem_toFinset.mp hc)
  have hnodup : (((l.filter fun c => c ∉ S).filter q).take (m - k)).Nodup :=
    ((hl.filter _).filter _).sublist (take_sublist _ _)
  rw [hfresh, Finset.card_union_of_disjoint hdis, toFinset_card_of_nodup hS,
    toFinset_card_of_nodup hnodup, length_take]
  omega

end Selects
end MsmKernel.TailMoves
