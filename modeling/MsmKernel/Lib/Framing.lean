import Mathlib.Data.List.Basic
import Mathlib.Tactic.Common
import MsmKernel.Lib.Ring

/-! Framed streams: packets are cut into bytes by `frame`, pushed through a byte queue and
put together again. `part` are the bytes of the current frame the receiver already took,
`bytes` the queue and `pending` what the sender has still to publish. -/
namespace MsmKernel.Framing
open List
variable {α β : Type*}

structure Framed (frame : β → List α) (sent posted : List β) (part bytes pending : List α) :
    Prop where
  nonempty : ∀ p ∈ sent, frame p ≠ []
  stream : ∃ rest, sent = posted ++ rest ∧ part ++ bytes ++ pending = rest.flatMap frame ∧
    ∀ p rest', rest = p :: rest' → part.length < (frame p).length

variable {frame : β → List α} {sent posted rest : List β} {part bytes pending : List α} {p : β}

theorem framed_nil : Framed frame ([] : List β) [] [] [] [] :=
  ⟨by simp, [], by simp⟩

theorem append_split {xs ys zs ws : List α} (h : xs ++ ys = zs ++ ws)
    (hle : zs.length ≤ xs.length) : xs.take zs.length = zs ∧ xs.drop zs.length ++ ys = ws := by
  constructor
  · have ht := congrArg (List.take zs.length) h
    rwa [take_append_of_le_length hle, take_left] at ht
  · have hd := congrArg (List.drop zs.length) h
    rwa [drop_append_of_le_length hle, drop_left] at hd

section
variable (h : Framed frame sent posted part bytes pending)
include h

theorem Framed.send (hp : frame p ≠ []) :
    Framed frame (sent ++ [p]) posted part bytes (pending ++ frame p) := by
  obtain ⟨rest, hsent, hstream, hpart⟩ := h.stream
  refine ⟨?_, rest ++ [p], ?_, ?_, ?_⟩
  · intro q hq
    rcases mem_append.1 hq with hq | hq
    · exact h.nonempty q hq
    · rw [mem_singleton.1 hq]
      exact hp
  · rw [hsent, append_assoc]
  · rw [← append_assoc, hstream]
    simp
  · intro q rest' hq
    cases rest with
    | nil =>
      simp only [flatMap_nil, append_eq_nil_iff] at hstream
      simp only [nil_append, List.cons.injEq] at hq
      rw [hstream.1.1, ← hq.1]
      exact length_pos_of_ne_nil hp
    | cons r rs =>
      simp only [cons_append, List.cons.injEq] at hq
      exact hpart q rs (by rw [hq.1])

theorem Framed.publish (k : Nat) :
    Framed frame sent posted part (bytes ++ pending.take k) (pending.drop k) := by
  obtain ⟨rest, hsent, hstream, hpart⟩ := h.stream
  refine ⟨h.nonempty, rest, hsent, ?_, hpart⟩
  rw [← hstream]
  simp [append_assoc]

theorem Framed.current (hne : bytes ≠ []) : ∃ p rest, sent = posted ++ p :: rest := by
  obtain ⟨rest, hsent, hstream, -⟩ := h.stream
  cases rest with
  | nil => simp [hne] at hstream
  | cons p rest => exact ⟨p, rest, hsent⟩

variable (hsent : sent = posted ++ p :: rest)
include hsent

theorem Framed.stream_of :
    part ++ bytes ++ pending = frame p ++ rest.flatMap frame ∧ part.length < (frame p).length := by
  obtain ⟨rest', hsent', hstream, hpart⟩ := h.stream
  obtain rfl : rest' = p :: rest := append_cancel_left (hsent'.symm.trans hsent)
  exact ⟨by rw [hstream, flatMap_cons], hpart p rest rfl⟩

theorem Framed.consume {k : Nat} (hk : part.length + (bytes.take k).length < (frame p).length) :
    Framed frame sent posted (part ++ bytes.take k) (bytes.drop k) pending := by
  refine ⟨h.nonempty, p :: rest, hsent, ?_, ?_⟩
  · rw [flatMap_cons, ← (h.stream_of hsent).1, append_assoc part, take_append_drop]
  · intro q rest' hq
    simp only [List.cons.injEq] at hq
    rw [← hq.1, length_append]
    exact hk

theorem Framed.complete {k : Nat} (hk : part.length + k = (frame p).length) (hle : k ≤ bytes.length) :
    part ++ bytes.take k = frame p ∧
      Framed frame sent (posted ++ [p]) [] (bytes.drop k) pending := by
  obtain ⟨htake, hdrop⟩ := append_split (h.stream_of hsent).1 (by rw [length_append]; omega)
  have htake' : part ++ bytes.take k = frame p := by
    rw [← hk, take_length_add_append] at htake
    exact htake
  refine ⟨htake', h.nonempty, rest, by rw [hsent]; simp, ?_, ?_⟩
  · rw [nil_append, ← hdrop, ← hk, drop_length_add_append]
  · intro q rest' hq
    have hmem : q ∈ sent := by
      rw [hsent, hq]
      simp
    exact length_pos_of_ne_nil (h.nonempty q hmem)

end

/-- A receiver that keeps the header `hdr` and gathers the packet in `buf` takes `k` bytes, of which
`data` goes to the buffer: the packet is complete or is still being gathered. -/
theorem Framed.gather {frame : List α → List α} {sent posted rest : List (List α)} {p : List α}
    {k : Nat} (buf : Nat → α) (off : Nat) (hdr data : List α)
    (h : Framed frame sent posted part bytes pending) (hsent : sent = posted ++ p :: rest)
    (hframe : frame p = hdr ++ p) (hk : k ≤ bytes.length)
    (hdata : part ++ bytes.take k = hdr ++ (Ring.copyFrom buf 0 off ++ data)) :
    (off + data.length = p.length →
      Ring.copyFrom (Ring.copyTo buf off data) 0 p.length = p ∧
        Framed frame sent (posted ++ [p]) [] (bytes.drop k) pending) ∧
    (off + data.length < p.length → Framed frame sent posted
      (hdr ++ Ring.copyFrom (Ring.copyTo buf off data) 0 (off + data.length)) (bytes.drop k)
        pending) := by
  have hlen := congrArg List.length hdata
  simp only [length_append, length_take_of_le hk, Ring.length_copyFrom] at hlen
  have hbuf := Ring.copyFrom_copyTo buf off data
  refine ⟨fun hfull => ?_, fun hlt => ?_⟩
  · obtain ⟨hwhole, hdone⟩ := h.complete (k := k) hsent (by rw [hframe, length_append]; omega) hk
    rw [hdata, hframe, append_cancel_left_eq] at hwhole
    exact ⟨by rw [← hfull, hbuf, hwhole], hdone⟩
  · have hpart := h.consume (k := k) hsent
      (by rw [hframe, length_take_of_le hk, length_append]; omega)
    rwa [hdata, ← hbuf] at hpart

theorem Framed.posted_prefix (h : Framed frame sent posted part bytes pending) :
    posted <+: sent := by
  obtain ⟨rest, hsent, -⟩ := h.stream
  exact ⟨rest, hsent.symm⟩

/-- When the queue is drained and nothing is pending, everything was delivered. -/
theorem Framed.posted_eq (h : Framed frame sent posted part [] []) : posted = sent := by
  obtain ⟨rest, hsent, hstream, hpart⟩ := h.stream
  cases rest with
  | nil => simpa using hsent.symm
  | cons p rest =>
    have hlt := hpart p rest rfl
    have hlen := congrArg List.length hstream
    simp only [append_nil, flatMap_cons, length_append] at hlen
    omega

end MsmKernel.Framing
