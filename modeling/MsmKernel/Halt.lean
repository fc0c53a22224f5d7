import Mathlib.Data.Finset.Sort
import Mathlib.Data.Fintype.Pi
import Mathlib.Data.List.TakeWhile
import MsmKernel.Lib.Run

/-! CPU halt masks and client votes of walt_halt.c. Every public call takes the halt
lock, so a run is a sequence of whole calls; the 32-bit capable CPUs and walt_disabled
belong to other code and are read anew by each call. -/
namespace MsmKernel.Halt
open Run List

variable {n : Nat}

inductive PauseType where
  | halt | partialHalt
  deriving DecidableEq

instance : Fintype PauseType :=
  ⟨{.halt, .partialHalt}, fun type => by cases type <;> decide⟩

inductive PauseClient where
  | coreCtl | thermal | hyp | sbt
  deriving DecidableEq

instance : Fintype PauseClient :=
  ⟨{.coreCtl, .thermal, .hyp, .sbt}, fun client => by cases client <;> decide⟩

def PauseClient.bit : PauseClient → BitVec 8
  | .coreCtl => 0x01
  | .thermal => 0x02
  | .hyp => 0x04
  | .sbt => 0x08

structure HaltState (n : Nat) where
  cpuHaltMask : Finset (Fin n)
  cpuPartialHaltMask : Finset (Fin n)
  clientVoteMask : Fin n → PauseType → BitVec 8
  cpusToDrain : Finset (Fin n)
  deriving DecidableEq

def initial : HaltState n := ⟨∅, ∅, fun _ _ => 0, ∅⟩

def HaltState.mask (s : HaltState n) : PauseType → Finset (Fin n)
  | .halt => s.cpuHaltMask
  | .partialHalt => s.cpuPartialHaltMask

def HaltState.setMask (s : HaltState n) (m : Finset (Fin n)) : PauseType → HaltState n
  | .halt => { s with cpuHaltMask := m }
  | .partialHalt => { s with cpuPartialHaltMask := m }

def forEachCpu (cpus : Finset (Fin n)) : List (Fin n) :=
  (List.finRange n).filter (· ∈ cpus)

def cpumaskFirst (cpus : Finset (Fin n)) : Option (Fin n) := (forEachCpu cpus).head?

def EINVAL : Int := 22
def EAGAIN : Int := 11

/- The loop of `halt_cpus`: it leaves the bits it has set when it meets the first
32-bit capable CPU. -/
def haltLoop (first : Option (Fin n)) (type : PauseType) :
    List (Fin n) → HaltState n → Int × HaltState n
  | [], s => (0, s)
  | cpu :: cpus, s =>
    if some cpu = first then (-EINVAL, s)
    else haltLoop first type cpus (s.setMask (insert cpu (s.mask type)) type)

def haltCpus (el0 : Finset (Fin n)) (cpus : Finset (Fin n)) (type : PauseType)
    (s : HaltState n) : Int × HaltState n :=
  let r := haltLoop (cpumaskFirst el0) type (forEachCpu cpus) s
  if r.1 < 0 then r
  else
    match type with
    | .halt => (r.1, { r.2 with cpusToDrain := r.2.cpusToDrain ∪ cpus })
    | .partialHalt => r

def startCpus (cpus : Finset (Fin n)) (type : PauseType) (s : HaltState n) : Int × HaltState n :=
  (0, s.setMask (s.mask type \ cpus) type)

def updateClients (cpus : Finset (Fin n)) (halt : Bool) (client : PauseClient)
    (type : PauseType) (s : HaltState n) : HaltState n :=
  { s with
    clientVoteMask := fun cpu t =>
      if cpu ∈ cpus ∧ t = type then
        if halt then s.clientVoteMask cpu t ||| client.bit
        else s.clientVoteMask cpu t &&& ~~~client.bit
      else s.clientVoteMask cpu t }

def updateHaltCpus (cpus : Finset (Fin n)) (type : PauseType) (s : HaltState n) : Finset (Fin n) :=
  cpus.filter fun cpu => s.clientVoteMask cpu type = 0

def waltHaltCpus (el0 cpus : Finset (Fin n)) (client : PauseClient) (type : PauseType)
    (s : HaltState n) : Int × HaltState n :=
  let remaining := updateHaltCpus cpus type s
  if remaining = ∅ then (0, updateClients cpus true client type s)
  else
    let r := haltCpus el0 remaining type s
    if r.1 < 0 then r else (r.1, updateClients cpus true client type r.2)

def waltStartCpus (cpus : Finset (Fin n)) (client : PauseClient) (type : PauseType)
    (s : HaltState n) : Int × HaltState n :=
  let s' := updateClients cpus false client type s
  let r := startCpus (updateHaltCpus cpus type s') type s'
  if r.1 < 0 then (r.1, updateClients cpus true client type r.2) else r

inductive Request where
  | pauseCpus | partialPauseCpus | resumeCpus | partialResumeCpus
  deriving DecidableEq

structure Call (n : Nat) where
  request : Request
  cpus : Finset (Fin n)
  client : PauseClient
  waltDisabled : Bool
  el0 : Finset (Fin n)

def call (s : HaltState n) (c : Call n) : Int × HaltState n :=
  if c.waltDisabled then (-EAGAIN, s)
  else
    match c.request with
    | .pauseCpus => waltHaltCpus c.el0 c.cpus c.client .halt s
    | .partialPauseCpus => waltHaltCpus c.el0 c.cpus c.client .partialHalt s
    | .resumeCpus => waltStartCpus c.cpus c.client .halt s
    | .partialResumeCpus => waltStartCpus c.cpus c.client .partialHalt s

def step (s : HaltState n) (c : Call n) : Option (HaltState n) := some (call s c).2

def Voted (s : HaltState n) (type : PauseType) (cpu : Fin n) (client : PauseClient) : Prop :=
  s.clientVoteMask cpu type &&& client.bit ≠ 0

instance (s : HaltState n) (type : PauseType) (cpu : Fin n) (client : PauseClient) :
    Decidable (Voted s type cpu client) := inferInstanceAs (Decidable (_ ≠ _))

/-- A CPU is in the halt mask of a type exactly when some client's vote is recorded. -/
def MaskMatchesVotes (s : HaltState n) : Prop :=
  ∀ type cpu, cpu ∈ s.mask type ↔ ∃ client, Voted s type cpu client

instance (s : HaltState n) : Decidable (MaskMatchesVotes s) :=
  inferInstanceAs (Decidable (∀ _ _, _))

/-- What a call has to guarantee: matching masks afterwards, and no change on error. -/
def CallSound (s : HaltState n) (c : Call n) : Prop :=
  MaskMatchesVotes (call s c).2 ∧ ((call s c).1 < 0 → (call s c).2 = s)

instance (s : HaltState n) (c : Call n) : Decidable (CallSound s c) :=
  inferInstanceAs (Decidable (_ ∧ _))

/-- The pause does not reach the 32-bit capable CPU after a lower CPU without votes. -/
def NoCpuBeforeFirst (s : HaltState n) (c : Call n) : Prop :=
  ∀ type, c.waltDisabled = false →
    (c.request = .pauseCpus ∧ type = .halt ∨ c.request = .partialPauseCpus ∧ type = .partialHalt) →
    ∀ first, cpumaskFirst c.el0 = some first → first ∈ updateHaltCpus c.cpus type s →
      ∀ cpu ∈ updateHaltCpus c.cpus type s, first ≤ cpu

@[simp] theorem mask_setMask_self (s : HaltState n) (m : Finset (Fin n)) (type : PauseType) :
    (s.setMask m type).mask type = m := by
  cases type <;> rfl

variable {type : PauseType} {cpus el0 : Finset (Fin n)} {cpu first : Fin n} {s : HaltState n}

theorem mask_setMask_of_ne (s : HaltState n) (m : Finset (Fin n)) {t : PauseType} (h : t ≠ type) :
    (s.setMask m type).mask t = s.mask t := by
  cases type <;> cases t <;> first | rfl | exact absurd rfl h

@[simp] theorem clientVoteMask_setMask (s : HaltState n) (m : Finset (Fin n))
    (type : PauseType) : (s.setMask m type).clientVoteMask = s.clientVoteMask := by
  cases type <;> rfl

@[simp] theorem setMask_setMask (s : HaltState n) (m m' : Finset (Fin n)) (type : PauseType) :
    (s.setMask m type).setMask m' type = s.setMask m' type := by
  cases type <;> rfl

@[simp] theorem setMask_mask (s : HaltState n) (type : PauseType) :
    s.setMask (s.mask type) type = s := by
  cases type <;> rfl

@[simp] theorem mask_updateClients (cpus : Finset (Fin n)) (halt : Bool) (client : PauseClient)
    (type : PauseType) (s : HaltState n) : (updateClients cpus halt client type s).mask = s.mask := by
  funext t
  cases t <;> rfl

theorem mem_forEachCpu : cpu ∈ forEachCpu cpus ↔ cpu ∈ cpus := by
  simp [forEachCpu]

theorem forEachCpu_pairwise (cpus : Finset (Fin n)) : (forEachCpu cpus).Pairwise (· < ·) :=
  (pairwise_lt_finRange n).filter _

theorem haltLoop_eq (type : PauseType) (first : Option (Fin n)) (cpus : List (Fin n))
    (s : HaltState n) : haltLoop first type cpus s =
      (if ∃ cpu ∈ cpus, some cpu = first then -EINVAL else 0,
        s.setMask (s.mask type ∪ (cpus.takeWhile fun cpu => some cpu ≠ first).toFinset) type) := by
  induction cpus generalizing s with
  | nil => simp [haltLoop]
  | cons cpu cpus ih =>
    by_cases hcpu : some cpu = first
    · simp [haltLoop, hcpu]
    · rw [haltLoop, if_neg hcpu, ih]
      simp [hcpu, Finset.insert_union, Finset.union_insert]

theorem haltCpus_of_notMem (type : PauseType) (s : HaltState n)
    (h : ∀ first, cpumaskFirst el0 = some first → first ∉ cpus) :
    ∃ drain, haltCpus el0 cpus type s =
      (0, { s.setMask (s.mask type ∪ cpus) type with cpusToDrain := drain }) := by
  have hnot : ∀ cpu ∈ forEachCpu cpus, some cpu ≠ cpumaskFirst el0 := fun cpu hc he =>
    h cpu he.symm (mem_forEachCpu.1 hc)
  have hset : (forEachCpu cpus).toFinset = cpus := by
    ext cpu
    simp [mem_forEachCpu]
  have hloop := haltLoop_eq type (cpumaskFirst el0) (forEachCpu cpus) s
  rw [if_neg (by simpa using hnot), takeWhile_eq_self_iff.2 (by simpa using hnot), hset] at hloop
  cases type with
  | halt => exact ⟨s.cpusToDrain ∪ cpus, by simp [haltCpus, hloop, HaltState.setMask]⟩
  | partialHalt => exact ⟨s.cpusToDrain, by simp [haltCpus, hloop, HaltState.setMask]⟩

theorem mem_takeWhile_ne {cpus : List (Fin n)} (h : cpus.Pairwise (· < ·)) (hmem : first ∈ cpus) :
    cpu ∈ cpus.takeWhile (fun c => some c ≠ some first) ↔ cpu ∈ cpus ∧ cpu < first := by
  induction cpus with
  | nil => cases hmem
  | cons c cpus ih =>
    rw [pairwise_cons] at h
    by_cases hc : c = first
    · subst hc
      simp only [ne_eq, not_true_eq_false, decide_false, takeWhile_cons, Bool.false_eq_true,
        if_false, not_mem_nil, mem_cons, false_iff, not_and, not_lt]
      rintro (rfl | hin)
      · exact le_rfl
      · exact (h.1 cpu hin).le
    · have hin : first ∈ cpus := (mem_cons.1 hmem).resolve_left (Ne.symm hc)
      have hlt := h.1 first hin
      simp only [takeWhile_cons, ne_eq, Option.some.injEq, hc, not_false_eq_true, decide_true,
        if_true, mem_cons]
      grind

/-- The failing loop leaves the bits of exactly the requested CPUs below the first
32-bit capable one. -/
theorem haltCpus_of_mem (type : PauseType) (s : HaltState n)
    (hfirst : cpumaskFirst el0 = some first) (hmem : first ∈ cpus) :
    haltCpus el0 cpus type s =
      (-EINVAL, s.setMask (s.mask type ∪ cpus.filter (· < first)) type) := by
  have hin := mem_forEachCpu.2 hmem
  have hpre : ((forEachCpu cpus).takeWhile fun cpu => some cpu ≠ some first).toFinset =
      cpus.filter (· < first) := by
    ext cpu
    rw [mem_toFinset, mem_takeWhile_ne (forEachCpu_pairwise cpus) hin, mem_forEachCpu,
      Finset.mem_filter]
  simp only [haltCpus, hfirst, haltLoop_eq, if_pos (show ∃ cpu ∈ forEachCpu cpus,
    some cpu = some first from ⟨first, hin, rfl⟩), hpre]
  exact if_pos (by decide)

def KnownClients (m : BitVec 8) : Prop := m &&& 0xF0 = 0

instance (m : BitVec 8) : Decidable (KnownClients m) := inferInstanceAs (Decidable (_ = _))

theorem knownClients_bit : ∀ (m : BitVec 8) (client : PauseClient), KnownClients m →
    KnownClients (m ||| client.bit) ∧ KnownClients (m &&& ~~~client.bit) := by
  decide

theorem or_bit_ne_zero : ∀ (m : BitVec 8) (client : PauseClient), m ||| client.bit ≠ 0 := by
  decide

theorem ne_zero_iff_voted : ∀ m : BitVec 8, KnownClients m →
    (m ≠ 0 ↔ ∃ client : PauseClient, m &&& client.bit ≠ 0) := by
  decide

def KnownVotes (s : HaltState n) : Prop := ∀ type cpu, KnownClients (s.clientVoteMask cpu type)

/- With only known client bits recorded, the masks match the votes when they match the
nonzero vote words the code tests. -/
theorem maskMatchesVotes_iff (hk : KnownVotes s) :
    MaskMatchesVotes s ↔ ∀ type cpu, cpu ∈ s.mask type ↔ s.clientVoteMask cpu type ≠ 0 := by
  have hv : ∀ type cpu, (∃ client, Voted s type cpu client) ↔ s.clientVoteMask cpu type ≠ 0 :=
    fun type cpu => (ne_zero_iff_voted _ (hk type cpu)).symm
  simp only [MaskMatchesVotes, hv]

theorem knownVotes_updateClients (hk : KnownVotes s) (cpus : Finset (Fin n)) (halt : Bool)
    (client : PauseClient) (type : PauseType) :
    KnownVotes (updateClients cpus halt client type s) := by
  intro t cpu
  simp only [updateClients]
  split
  · cases halt with
    | true => exact (knownClients_bit _ _ (hk t cpu)).1
    | false => exact (knownClients_bit _ _ (hk t cpu)).2
  · exact hk t cpu

section
variable (client : PauseClient) (hk : KnownVotes s) (hm : MaskMatchesVotes s)
include client hk hm

theorem maskMatchesVotes_vote {s' : HaltState n} (hv : s'.clientVoteMask = s.clientVoteMask)
    (hself : s'.mask type = s.mask type ∪ updateHaltCpus cpus type s)
    (hother : ∀ t, t ≠ type → s'.mask t = s.mask t) :
    MaskMatchesVotes (updateClients cpus true client type s') := by
  have hk' : KnownVotes s' := by
    intro t cpu
    rw [hv]
    exact hk t cpu
  rw [maskMatchesVotes_iff hk] at hm
  rw [maskMatchesVotes_iff (knownVotes_updateClients hk' cpus true client type)]
  intro t cpu
  rw [mask_updateClients]
  by_cases ht : t = type
  · subst ht
    rw [hself, Finset.mem_union, hm t cpu]
    by_cases hc : cpu ∈ cpus
    · simp only [updateClients, hv, hc, and_self, if_true, updateHaltCpus, Finset.mem_filter,
        true_and, ne_eq, or_bit_ne_zero, not_false_eq_true, iff_true]
      exact (em _).symm
    · simp [updateClients, hv, hc, updateHaltCpus]
  · rw [hother t ht, hm t cpu]
    simp [updateClients, hv, ht]

theorem waltHaltCpus_sound
    (hfirst : ∀ first, cpumaskFirst el0 = some first → first ∈ updateHaltCpus cpus type s → ∀ cpu ∈ updateHaltCpus cpus type s, first ≤ cpu) :
    MaskMatchesVotes (waltHaltCpus el0 cpus client type s).2 ∧
      ((waltHaltCpus el0 cpus client type s).1 < 0 →
        (waltHaltCpus el0 cpus client type s).2 = s) := by
  by_cases hempty : updateHaltCpus cpus type s = ∅
  · simp only [waltHaltCpus, hempty, if_true]
    refine ⟨maskMatchesVotes_vote client hk hm rfl ?_ fun _ _ => rfl, by simp⟩
    simp [hempty]
  · by_cases hmem : ∃ first, cpumaskFirst el0 = some first ∧ first ∈ updateHaltCpus cpus type s
    · obtain ⟨first, hf, hin⟩ := hmem
      have hnone : (updateHaltCpus cpus type s).filter (· < first) = ∅ :=
        Finset.filter_eq_empty_iff.2 fun cpu hc => not_lt.2 (hfirst first hf hin cpu hc)
      have hr := haltCpus_of_mem type s hf hin
      simp only [hnone, Finset.union_empty, setMask_mask] at hr
      simp only [waltHaltCpus, hempty, if_false, hr, EINVAL]
      exact ⟨hm, fun _ => rfl⟩
    · have hnot : ∀ first, cpumaskFirst el0 = some first → first ∉ updateHaltCpus cpus type s :=
        fun first hf hin => hmem ⟨first, hf, hin⟩
      obtain ⟨drain, hr⟩ := haltCpus_of_notMem type s hnot
      simp only [waltHaltCpus, hempty, if_false, hr, lt_irrefl]
      refine ⟨maskMatchesVotes_vote client hk hm ?_ ?_ ?_, False.elim⟩
      · exact clientVoteMask_setMask s _ type
      · cases type <;> rfl
      · intro t ht
        cases type <;> cases t <;> first | rfl | exact absurd rfl ht

theorem waltHaltCpus_unsound (hfirst : cpumaskFirst el0 = some first)
    (hin : first ∈ updateHaltCpus cpus type s) (hcpu : cpu ∈ updateHaltCpus cpus type s)
    (hlt : cpu < first) : (waltHaltCpus el0 cpus client type s).1 < 0 ∧
      (waltHaltCpus el0 cpus client type s).2 ≠ s := by
  have hne : updateHaltCpus cpus type s ≠ ∅ := Finset.ne_empty_of_mem hin
  have hr := haltCpus_of_mem type s hfirst hin
  have hneg : -EINVAL < 0 := by decide
  simp only [waltHaltCpus, hne, if_false, hr, hneg, if_true, true_and]
  intro heq
  have hmask := congrArg (fun t => cpu ∈ t.mask type) heq
  simp only [mask_setMask_self, Finset.mem_union, Finset.mem_filter, hcpu, hlt, and_self, or_true,
    eq_iff_iff, true_iff] at hmask
  have hvote := (maskMatchesVotes_iff hk).1 hm type cpu |>.1 hmask
  exact hvote (Finset.mem_filter.1 hcpu).2

end

theorem waltStartCpus_sound (cpus : Finset (Fin n)) (type : PauseType) (client : PauseClient)
    (hk : KnownVotes s) (hm : MaskMatchesVotes s) :
    (waltStartCpus cpus client type s).1 = 0 ∧
      MaskMatchesVotes (waltStartCpus cpus client type s).2 := by
  have hk' := knownVotes_updateClients hk cpus false client type
  refine ⟨rfl, ?_⟩
  rw [maskMatchesVotes_iff hk] at hm
  simp only [waltStartCpus, startCpus, lt_irrefl, if_false]
  rw [maskMatchesVotes_iff (by intro t cpu; simpa using hk' t cpu)]
  intro t cpu
  rw [clientVoteMask_setMask]
  by_cases ht : t = type
  · subst ht
    rw [mask_setMask_self, mask_updateClients, Finset.mem_sdiff, hm t cpu]
    by_cases hc : cpu ∈ cpus
    · simp only [updateHaltCpus, Finset.mem_filter, hc, true_and]
      refine ⟨fun h => h.2, fun h => ⟨fun h0 => h ?_, h⟩⟩
      simp [updateClients, hc, h0]
    · simp [updateHaltCpus, updateClients, hc]
  · rw [mask_setMask_of_ne _ _ ht, mask_updateClients, hm t cpu]
    simp [updateClients, ht]

section
variable (hk : KnownVotes s)
include hk

theorem knownVotes_waltHaltCpus (el0 cpus : Finset (Fin n)) (client : PauseClient)
    (type : PauseType) : KnownVotes (waltHaltCpus el0 cpus client type s).2 := by
  have hloop : KnownVotes (haltCpus el0 (updateHaltCpus cpus type s) type s).2 := by
    simp only [haltCpus, haltLoop_eq]
    intro t cpu
    split <;> cases type <;> exact hk t cpu
  simp only [waltHaltCpus]
  split
  · exact knownVotes_updateClients hk _ _ _ _
  · split
    · exact hloop
    · exact knownVotes_updateClients hloop _ _ _ _

theorem knownVotes_waltStartCpus (cpus : Finset (Fin n)) (client : PauseClient) (type : PauseType) :
    KnownVotes (waltStartCpus cpus client type s).2 := by
  intro t cpu
  simpa [waltStartCpus, startCpus] using knownVotes_updateClients hk cpus false client type t cpu

theorem knownVotes_call (c : Call n) : KnownVotes (call s c).2 := by
  simp only [call]
  split
  · exact hk
  · cases c.request with
    | pauseCpus | partialPauseCpus => exact knownVotes_waltHaltCpus hk _ _ _ _
    | _ => exact knownVotes_waltStartCpus hk _ _ _

/-- From a matching state one call is sound exactly when its pause does not meet the
32-bit capable CPU after a lower CPU without votes. -/
theorem callSound_iff (hm : MaskMatchesVotes s) (c : Call n) :
    CallSound s c ↔ NoCpuBeforeFirst s c := by
  have hstart : ∀ type, MaskMatchesVotes (waltStartCpus c.cpus c.client type s).2 ∧
      ((waltStartCpus c.cpus c.client type s).1 < 0 →
        (waltStartCpus c.cpus c.client type s).2 = s) := by
    intro type
    obtain ⟨hret, hmatch⟩ := waltStartCpus_sound c.cpus type c.client hk hm
    exact ⟨hmatch, fun h => absurd h (by simp [hret])⟩
  have hpause : ∀ type, (MaskMatchesVotes (waltHaltCpus c.el0 c.cpus c.client type s).2 ∧
      ((waltHaltCpus c.el0 c.cpus c.client type s).1 < 0 →
        (waltHaltCpus c.el0 c.cpus c.client type s).2 = s)) ↔
      ∀ first, cpumaskFirst c.el0 = some first → first ∈ updateHaltCpus c.cpus type s →
        ∀ cpu ∈ updateHaltCpus c.cpus type s, first ≤ cpu := by
    intro type
    refine ⟨fun h first hf hin cpu hcpu => ?_, waltHaltCpus_sound c.client hk hm⟩
    by_contra hlt
    obtain ⟨hneg, hne⟩ := waltHaltCpus_unsound c.client hk hm hf hin hcpu (not_le.1 hlt)
    exact hne (h.2 hneg)
  cases hd : c.waltDisabled with
  | true => simp [CallSound, NoCpuBeforeFirst, call, hd, hm]
  | false =>
    cases hreq : c.request with
    | pauseCpus | partialPauseCpus => simp [CallSound, NoCpuBeforeFirst, call, hd, hreq, hpause]
    | resumeCpus => simpa [CallSound, NoCpuBeforeFirst, call, hd, hreq] using hstart .halt
    | partialResumeCpus =>
      simpa [CallSound, NoCpuBeforeFirst, call, hd, hreq] using hstart .partialHalt

end

theorem maskMatchesVotes_initial : MaskMatchesVotes (initial : HaltState n) := by
  intro type cpu
  cases type <;> simp [initial, HaltState.mask, Voted]

/-- Every call of a run is sound exactly when no pause of the run meets the 32-bit capable
CPU after a lower CPU without votes. -/
theorem halt_masks_match_votes (calls : List (Call n)) :
    Along step CallSound initial calls ↔ Along step NoCpuBeforeFirst initial calls := by
  let I : HaltState n → Prop := fun s => KnownVotes s ∧ MaskMatchesVotes s
  have hstep : ∀ (s : HaltState n) (c : Call n) (t : HaltState n), I s → CallSound s c →
      step s c = some t → I t := by
    intro s c t hs hc ht
    simp only [step, Option.some.injEq] at ht
    subst ht
    exact ⟨knownVotes_call hs.1 c, hc.1⟩
  have hinit : I initial := ⟨fun _ _ => by simp [KnownClients, initial], maskMatchesVotes_initial⟩
  exact along_congr (fun s c hs => callSound_iff hs.1 hs.2 c) hstep hinit calls

/-- A core-control pause of CPUs 0 and 1 where CPU 1 is the first 32-bit capable CPU
fails and leaves CPU 0 halted without any vote. -/
theorem pause_failure_leaves_cpu_halted :
    let c : Call 2 := ⟨.pauseCpus, {0, 1}, .coreCtl, false, {1}⟩
    (call initial c).1 = -EINVAL ∧ (0 : Fin 2) ∈ (call initial c).2.mask .halt ∧
      (∀ client, ¬ Voted (call initial c).2 .halt 0 client) ∧
      ¬ Along step CallSound initial [c] := by
  decide

end MsmKernel.Halt
