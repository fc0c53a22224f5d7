import MsmKernel.Lib.Ring

/-! The shared-memory pipe of the FIFO transports, seen as the byte queue it holds. The
writer's view and the reader's view are one pipe: head moves after the data it publishes. -/
namespace MsmKernel.Qrtr

structure Pipe where
  length : Nat
  head : Nat
  tail : Nat
  fifo : Nat → UInt8

namespace Pipe

def FIFO_FULL_RESERVE : Nat := 8

def rxAvail (pipe : Pipe) : Nat :=
  let len := if pipe.head < pipe.tail then pipe.length - pipe.tail + pipe.head
    else pipe.head - pipe.tail
  if len > pipe.length then 0 else len

def txAvail (pipe : Pipe) : Nat :=
  let avail := if pipe.tail ≤ pipe.head then pipe.length - pipe.head + pipe.tail
    else pipe.tail - pipe.head
  if avail < FIFO_FULL_RESERVE then 0 else avail - FIFO_FULL_RESERVE

def rxAdvance (pipe : Pipe) (count : Nat) : Pipe :=
  let tail := pipe.tail + count
  { pipe with tail := if tail ≥ pipe.length then tail % pipe.length else tail }

structure Holds (pipe : Pipe) (bytes : List UInt8) : Prop where
  tail_lt : pipe.tail < pipe.length
  room : bytes.length < pipe.length
  head : pipe.head = (pipe.tail + bytes.length) % pipe.length
  contents : Ring.contents pipe.length pipe.fifo pipe.tail bytes.length = bytes

variable {pipe : Pipe} {bytes : List UInt8}

section
variable (h : pipe.Holds bytes)
include h

theorem Holds.head_cases : pipe.head = pipe.tail + bytes.length ∧ pipe.head < pipe.length ∨
      pipe.head + pipe.length = pipe.tail + bytes.length ∧ pipe.head < pipe.tail := by
  have hmod := Ring.mod_of_lt_two_mul (x := pipe.tail + bytes.length) (n := pipe.length)
    (by have := h.tail_lt; have := h.room; omega)
  have hhead := h.head
  have hroom := h.room
  rw [hmod] at hhead
  split_ifs at hhead <;> omega

theorem Holds.head_lt : pipe.head < pipe.length := by
  have htail := h.tail_lt
  rcases h.head_cases with hc | hc <;> omega

theorem Holds.rxAvail_eq : pipe.rxAvail = bytes.length := by
  have htail := h.tail_lt
  simp only [rxAvail]
  rcases h.head_cases with hc | hc <;> split_ifs <;> omega

theorem Holds.txAvail_eq : pipe.txAvail = pipe.length - bytes.length - FIFO_FULL_RESERVE := by
  simp only [txAvail, FIFO_FULL_RESERVE]
  rcases h.head_cases with hc | hc <;> split_ifs <;> omega

theorem Holds.append {data : List UInt8} {head : Nat} (hfit : data.length ≤ pipe.txAvail)
    (hhead : head = (pipe.head + data.length) % pipe.length) :
    Holds { pipe with fifo := Ring.write pipe.length pipe.fifo pipe.head data, head }
      (bytes ++ data) := by
  rw [h.txAvail_eq, FIFO_FULL_RESERVE] at hfit
  have hroom := h.room
  refine ⟨h.tail_lt, ?_, ?_, ?_⟩
  · rcases data with _ | ⟨b, data⟩
    · simpa using hroom
    · simp only [List.length_append, List.length_cons] at hfit ⊢
      omega
  · simp only [hhead, h.head, List.length_append, Nat.mod_add_mod, Nat.add_assoc]
  · simp only [List.length_append, h.head]
    rw [Ring.contents_write _ _ h.tail_lt (by omega) hroom, h.contents]

theorem Holds.rxAdvance {count : Nat} (hcount : count ≤ bytes.length) :
    (pipe.rxAdvance count).Holds (bytes.drop count) := by
  have htail : (pipe.rxAdvance count).tail = (pipe.tail + count) % pipe.length := by
    simp only [Pipe.rxAdvance]
    split_ifs with hge
    · rfl
    · exact (Nat.mod_eq_of_lt (by omega)).symm
  have hroom := h.room
  have hlength : (pipe.rxAdvance count).length = pipe.length := rfl
  have hfifo : (pipe.rxAdvance count).fifo = pipe.fifo := rfl
  have hhead : (pipe.rxAdvance count).head = pipe.head := rfl
  refine ⟨?_, ?_, ?_, ?_⟩
  · rw [htail, hlength]
    exact Nat.mod_lt _ (by omega)
  · rw [List.length_drop, hlength]
    omega
  · rw [htail, hlength, hhead, h.head, List.length_drop, Nat.mod_add_mod]
    congr 1
    omega
  · rw [htail, hlength, hfifo, List.length_drop, ← Ring.contents_drop, h.contents]

theorem Holds.read_take {count k : Nat} (hcount : count ≤ pipe.length) (hk : k ≤ count)
    (hkb : k ≤ bytes.length) :
    (Ring.read pipe.length pipe.fifo pipe.tail count).take k = bytes.take k := by
  rw [Ring.read_eq_contents _ h.tail_lt hcount, Ring.contents_take _ hk, ← Ring.contents_take _ hkb,
    h.contents]

theorem Holds.read {count : Nat} (hcount : count ≤ bytes.length) :
    Ring.read pipe.length pipe.fifo pipe.tail count = bytes.take count := by
  have hroom := h.room
  rw [Ring.read_eq_contents _ h.tail_lt (by omega), ← Ring.contents_take _ hcount, h.contents]

end

theorem Holds.fifo_tail {b : UInt8} {rest : List UInt8} (h : pipe.Holds (b :: rest)) :
    pipe.fifo pipe.tail = b := by
  have hc := congrArg (fun l => l[0]?) h.contents
  simpa [Ring.contents, Nat.mod_eq_of_lt h.tail_lt] using hc

theorem holds_nil (fifo : Nat → UInt8) {n : Nat} (hn : 0 < n) : Holds ⟨n, 0, 0, fifo⟩ [] :=
  ⟨hn, hn, by simp, rfl⟩

end Pipe
end MsmKernel.Qrtr
