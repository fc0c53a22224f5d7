import Mathlib.Data.List.Nodup
import Mathlib.Logic.Function.Basic
import MsmKernel.Lib.Run

/-! Out buffers of the virtio transport of HAB (hab_virtio.c): a send takes a buffer out of the pool
for its size and gives it to the virtqueue, and a completion brings it back to its pool. -/
namespace MsmKernel.Hab.Virtio
open Run Function List

def EINVAL : Int := 22
def EAGAIN : Int := 11
def ENODEV : Int := 19

inductive PoolType
  | outSmall
  | outMedium
  | outLarge
deriving DecidableEq

def PoolType.bufSize : PoolType → Nat
  | .outSmall => 512
  | .outMedium => 5120
  | .outLarge => 64 * 1024

def PoolType.bufNum : PoolType → Nat
  | .outSmall => 200
  | .outMedium => 100
  | .outLarge => 10

structure VhBufHeader where
  poolType : PoolType
  index : Nat
deriving DecidableEq

/- `waiting` are the calls in `wait_event`, by the pool they wait for. `results` records what each
call returned and whether its message was given to the virtqueue. -/
structure VqPchan where
  pchanReady : Bool
  list : PoolType → List VhBufHeader
  cnt : PoolType → Int
  vq : List VhBufHeader
  waiting : List PoolType
  results : List (Int × Bool)

def initPoolList (p : PoolType) : List VhBufHeader := (List.range p.bufNum).map fun i => ⟨p, i⟩

def init (ready : Bool) : VqPchan := ⟨ready, initPoolList, fun p => p.bufNum, [], [], []⟩

def VqPchan.returns (s : VqPchan) (rc : Int) (handed : Bool) : VqPchan :=
  { s with results := (rc, handed) :: s.results }

/- `get_vh_buf_header` on a list with the first entry `hd`, and the rest of the send: the result of
`virtqueue_add_outbuf` is not passed on. -/
def VqPchan.submit (s : VqPchan) (p : PoolType) (hd : VhBufHeader) (rest : List VhBufHeader)
    (added : Bool) : VqPchan :=
  VqPchan.returns
    { s with
      list := update s.list p rest
      cnt := update s.cnt p (s.cnt p - 1)
      vq := if added then hd :: s.vq else s.vq }
    0 added

def poolFor (sizebytes : Nat) : PoolType :=
  if sizebytes ≤ PoolType.bufSize .outSmall then .outSmall
  else if sizebytes ≤ PoolType.bufSize .outMedium then .outMedium
  else .outLarge

/- `linked` says whether `link->vpc` is set. -/
def virtioPhysicalChannelSend (s : VqPchan) (linked : Bool) (sizebytes : Nat)
    (nonblocking added : Bool) : VqPchan :=
  if linked = false then s.returns (- ENODEV) false
  else if PoolType.bufSize .outLarge < sizebytes then s.returns (- EINVAL) false
  else if s.pchanReady then
    match s.list (poolFor sizebytes) with
    | hd :: rest => s.submit (poolFor sizebytes) hd rest added
    | [] =>
      if nonblocking then s.returns (- EAGAIN) false
      else { s with waiting := poolFor sizebytes :: s.waiting }
  else s.returns 0 false

/- A blocked call looks at its list again. -/
def wake (s : VqPchan) (i : Nat) (added : Bool) : VqPchan :=
  match s.waiting[i]? with
  | none => s
  | some p =>
    match s.list p with
    | [] => s
    | hd :: rest => VqPchan.submit { s with waiting := s.waiting.eraseIdx i } p hd rest added

/- One turn for each buffer that the device has used. -/
def recvTxqLoop (s : VqPchan) : List VhBufHeader → VqPchan
  | [] => s
  | hd :: used =>
    recvTxqLoop
      (if hd ∈ s.vq then
        { s with
          list := update s.list hd.poolType (s.list hd.poolType ++ [hd])
          cnt := update s.cnt hd.poolType (s.cnt hd.poolType + 1)
          vq := s.vq.erase hd }
      else s)
      used

def virthabRecvTxq (s : VqPchan) (used : List VhBufHeader) : VqPchan :=
  if s.pchanReady then recvTxqLoop s used else s

inductive Event
  | send (linked : Bool) (sizebytes : Nat) (nonblocking added : Bool)
  | wake (i : Nat) (added : Bool)
  | recvTxq (used : List VhBufHeader)
  | ready (b : Bool)

def step (s : VqPchan) : Event → Option VqPchan
  | .send linked sizebytes nonblocking added =>
    some (virtioPhysicalChannelSend s linked sizebytes nonblocking added)
  | .wake i added => some (wake s i added)
  | .recvTxq used => some (virthabRecvTxq s used)
  | .ready b => some { s with pchanReady := b }

/- Every buffer is in its own pool or with the virtqueue, once, the counters are right, and 0 was
returned only for messages that were given to the virtqueue. -/
structure Conserved (s : VqPchan) : Prop where
  own : ∀ p, ∀ hd ∈ s.list p, hd.poolType = p
  once : ∀ hd, (s.list hd.poolType).count hd + s.vq.count hd =
    if hd.index < hd.poolType.bufNum then 1 else 0
  cnt : ∀ p, s.cnt p = (s.list p).length
  truthful : ∀ r ∈ s.results, r.1 = 0 → r.2 = true

/- A send that passes the checks of link and size finds the channel ready, and a buffer that was
taken is accepted by the virtqueue. -/
def Accepted (s : VqPchan) : Event → Prop
  | .send linked sizebytes _ added =>
    linked = true → sizebytes ≤ PoolType.bufSize .outLarge →
      s.pchanReady = true ∧ (s.list (poolFor sizebytes) ≠ [] → added = true)
  | .wake i added => ∀ p, s.waiting[i]? = some p → s.list p ≠ [] → added = true
  | _ => True

theorem conserved_init (ready : Bool) : Conserved (init ready) where
  own p hd h := by
    obtain ⟨i, -, rfl⟩ := mem_map.1 h
    rfl
  once hd := by
    have hnodup : (initPoolList hd.poolType).Nodup :=
      nodup_range.map fun i j h => congrArg VhBufHeader.index h
    have hmem : hd ∈ initPoolList hd.poolType ↔ hd.index < hd.poolType.bufNum := by
      simp only [initPoolList, mem_map, mem_range]
      exact ⟨fun ⟨i, hi, h⟩ => h ▸ hi, fun h => ⟨hd.index, h, rfl⟩⟩
    simp [init, hnodup.count, hmem]
  cnt p := by simp [init, initPoolList]
  truthful r h := absurd h not_mem_nil

section Steps
variable {s : VqPchan}

theorem conserved_returns (rc : Int) (handed : Bool) :
    Conserved (s.returns rc handed) ↔ Conserved s ∧ (rc = 0 → handed = true) := by
  constructor
  · intro h
    exact ⟨⟨h.own, h.once, h.cnt, fun r hr => h.truthful r (mem_cons_of_mem _ hr)⟩,
      h.truthful _ (mem_cons_self ..)⟩
  · rintro ⟨h, hrc⟩
    refine ⟨h.own, h.once, h.cnt, fun r hr => ?_⟩
    rcases mem_cons.1 hr with rfl | hr
    · exact hrc
    · exact h.truthful r hr

theorem Conserved.idle (h : Conserved s) (ready : Bool) (waiting : List PoolType) :
    Conserved { s with pchanReady := ready, waiting := waiting } :=
  ⟨h.own, h.once, h.cnt, h.truthful⟩

theorem Conserved.setPool {p : PoolType} {l v : List VhBufHeader} {n : Int} (h : Conserved s)
    (hown : ∀ hd ∈ l, hd.poolType = p) (hcnt : n = l.length) (hperm : (l ++ v).Perm (s.list p ++ s.vq)) :
    Conserved { s with list := update s.list p l, cnt := update s.cnt p n, vq := v } where
  own q hd hmem := by
    by_cases hq : q = p
    · subst hq
      exact hown hd (by simpa using hmem)
    · exact h.own q hd (by simpa [hq] using hmem)
  once hd := by
    have honce := h.once hd
    have hcount := hperm.count_eq hd
    rw [count_append, count_append] at hcount
    by_cases hp : hd.poolType = p
    · subst hp
      simp only [update_self]
      omega
    · have hl : l.count hd = 0 := count_eq_zero.2 fun hmem => hp (hown hd hmem)
      have hs : (s.list p).count hd = 0 := count_eq_zero.2 fun hmem => hp (h.own p hd hmem)
      simp only [update_of_ne hp]
      omega
  cnt q := by
    by_cases hq : q = p
    · subst hq
      simpa using hcnt
    · simpa [hq] using h.cnt q
  truthful := h.truthful

/-- A buffer that is taken stays in one place exactly if the virtqueue accepts it. -/
theorem conserved_submit {p : PoolType} {hd : VhBufHeader} {rest : List VhBufHeader}
    (h : Conserved s) (hlist : s.list p = hd :: rest) (added : Bool) :
    Conserved (s.submit p hd rest added) ↔ added = true := by
  unfold VqPchan.submit
  rw [conserved_returns]
  refine ⟨fun h' => h'.2 rfl, fun hadded => ⟨?_, fun _ => hadded⟩⟩
  subst hadded
  refine h.setPool (fun x hx => h.own p x (hlist ▸ mem_cons_of_mem hd hx)) ?_ ?_
  · rw [h.cnt p, hlist, length_cons]
    omega
  · rw [hlist]
    exact perm_middle

theorem conserved_recvTxqLoop (used : List VhBufHeader) (h : Conserved s) :
    Conserved (recvTxqLoop s used) := by
  induction used generalizing s with
  | nil => exact h
  | cons hd used ih =>
    refine ih ?_
    split_ifs with hmem
    · refine h.setPool (fun x hx => ?_) ?_ ?_
      · rcases mem_append.1 hx with hx | hx
        · exact h.own _ x hx
        · rw [mem_singleton.1 hx]
      · rw [h.cnt, length_append]
        rfl
      · rw [append_assoc]
        exact (perm_cons_erase hmem).symm.append_left _
    · exact h

theorem conserved_send (h : Conserved s) (linked : Bool) (sizebytes : Nat)
    (nonblocking added : Bool) :
    Conserved (virtioPhysicalChannelSend s linked sizebytes nonblocking added) ↔
      Accepted s (.send linked sizebytes nonblocking added) := by
  unfold virtioPhysicalChannelSend Accepted
  cases linked with
  | false => simp [conserved_returns, h, ENODEV]
  | true =>
    by_cases hsize : PoolType.bufSize .outLarge < sizebytes
    · simp [conserved_returns, h, hsize, EINVAL, Nat.not_le.2 hsize]
    · by_cases hready : s.pchanReady = true
      · cases hlist : s.list (poolFor sizebytes) with
        | cons hd rest => simp [conserved_submit h hlist, hsize, hready, hlist, Nat.le_of_not_lt hsize]
        | nil =>
          cases nonblocking with
          | true => simp [conserved_returns, h, hsize, hready, hlist, EAGAIN]
          | false => simp [h.idle true, hsize, hready, hlist]
      · simp [conserved_returns, hsize, hready, Nat.le_of_not_lt hsize]

theorem conserved_wake (h : Conserved s) (i : Nat) (added : Bool) :
    Conserved (wake s i added) ↔ Accepted s (.wake i added) := by
  unfold wake Accepted
  cases hi : s.waiting[i]? with
  | none => simp [h, hi]
  | some p =>
    cases hlist : s.list p with
    | nil => simp [h, hi, hlist]
    | cons hd rest =>
      have hsubmit := conserved_submit (h.idle s.pchanReady (s.waiting.eraseIdx i)) hlist added
      simp [hi, hlist, hsubmit]

theorem step_conserved_iff {e : Event} {t : VqPchan} (h : Conserved s) (hstep : step s e = some t) :
    Conserved t ↔ Accepted s e := by
  cases e with
  | send linked sizebytes nonblocking added =>
    exact Option.some.inj hstep ▸ conserved_send h linked sizebytes nonblocking added
  | wake i added => exact Option.some.inj hstep ▸ conserved_wake h i added
  | recvTxq used =>
    refine Option.some.inj hstep ▸ iff_of_true ?_ trivial
    unfold virthabRecvTxq
    split_ifs
    · exact conserved_recvTxqLoop used h
    · exact h
  | ready b => exact Option.some.inj hstep ▸ iff_of_true (h.idle b s.waiting) trivial

end Steps

/-- For every sequence of sends, wake-ups and completions: the buffers are conserved and the results
truthful in every state exactly if no send meets a channel that is not ready and no buffer that was
taken is refused by the virtqueue. -/
theorem tx_buffers_conserved (ready : Bool) (es : List Event) :
    Along step Accepted (init ready) es ↔
      ∀ xs t, xs <+: es → run step (init ready) xs = some t → Conserved t :=
  along_iff_throughout (fun s e => by cases e <;> exact ⟨_, rfl⟩)
    (fun _ _ _ h hstep => step_conserved_iff h hstep) (conserved_init ready)

/-- A buffer that the virtqueue refuses is lost, and so is a message on a channel that is not ready;
both sends return 0. -/
theorem tx_buffer_lost :
    (let s := virtioPhysicalChannelSend (init true) true 4 true false;
      s.results = [(0, false)] ∧ ⟨.outSmall, 0⟩ ∉ s.list .outSmall ∧ s.vq = []) ∧
      (virtioPhysicalChannelSend (init false) true 4 true true).results = [(0, false)] := by
  decide

end MsmKernel.Hab.Virtio
