import Mathlib.Data.List.Basic
import Mathlib.Tactic.Common

/-!
# Cutting a stream into messages of one size

The complete messages at the front of a stream, and what follows for a reader that has handed on
some messages and holds a part of the next.
-/

namespace MatrixTransposer.Lib

variable {α : Type*} {n : Nat} {stream message rest : List α} {messages : List (List α)}

/-- The consecutive segments of length `n`. What is left over at the end is not a segment. -/
def chunks (n : Nat) (stream : List α) : List (List α) :=
  (List.range (stream.length / n)).map fun i => (stream.drop (i * n)).take n

theorem chunks_of_length_lt (h : stream.length < n) : chunks n stream = [] := by
  rw [chunks, Nat.div_eq_of_lt h, List.range_zero, List.map_nil]

theorem chunks_eq_nil_iff (hn : 0 < n) : chunks n stream = [] ↔ stream.length < n := by
  rw [chunks, List.map_eq_nil_iff, List.range_eq_nil, Nat.div_eq_zero_iff]
  omega

theorem chunks_append (hn : 0 < n) (hmessage : message.length = n) :
    chunks n (message ++ rest) = message :: chunks n rest := by
  have hlength : (message ++ rest).length / n = rest.length / n + 1 := by
    rw [List.length_append, hmessage, Nat.add_div_left _ hn]
  rw [chunks, hlength, List.range_succ_eq_map, List.map_cons, List.map_map]
  congr 1
  · rw [Nat.zero_mul, List.drop_zero, List.take_left' hmessage]
  · apply List.map_congr_left
    intro i _
    have hdrop : (message ++ rest).drop ((i + 1) * n) = rest.drop (i * n) := by
      rw [Nat.add_mul, Nat.one_mul, Nat.add_comm, ← List.drop_drop, List.drop_left' hmessage]
    simp only [Function.comp_apply, hdrop]

theorem chunks_of_length_eq (hn : 0 < n) (h : stream.length = n) : chunks n stream = [stream] := by
  rw [← List.append_nil stream, chunks_append hn h, chunks_of_length_lt hn, List.append_nil]

theorem chunks_flatten_append (hn : 0 < n) (hmessages : ∀ m ∈ messages, m.length = n) :
    chunks n (messages.flatten ++ rest) = messages ++ chunks n rest := by
  induction messages with
  | nil => rfl
  | cons m messages ih =>
      rw [List.flatten_cons, List.append_assoc, chunks_append hn (hmessages m List.mem_cons_self),
        ih fun m' hm' => hmessages m' (List.mem_cons_of_mem _ hm'), List.cons_append]

theorem length_of_mem_chunks (h : message ∈ chunks n stream) : message.length = n := by
  obtain ⟨i, hi, rfl⟩ := List.mem_map.mp h
  have hle : (i + 1) * n ≤ stream.length :=
    Nat.le_trans (Nat.mul_le_mul_right n (List.mem_range.mp hi)) (Nat.div_mul_le_self _ _)
  rw [Nat.add_mul, Nat.one_mul] at hle
  rw [List.length_take, List.length_drop]
  omega

/-- Nothing is left over when the length is a multiple of `n`. -/
theorem flatten_chunks (h : n ∣ stream.length) : (chunks n stream).flatten = stream := by
  obtain ⟨count, hcount⟩ := h
  rcases Nat.eq_zero_or_pos n with rfl | hn
  · rw [Nat.zero_mul] at hcount
    rw [List.eq_nil_of_length_eq_zero hcount]
    simp [chunks]
  induction count generalizing stream with
  | zero =>
      rw [List.eq_nil_of_length_eq_zero hcount, chunks_of_length_lt (by simpa using hn)]
      rfl
  | succ count ih =>
      rw [Nat.mul_succ] at hcount
      have hfirst : (stream.take n).length = n := by
        rw [List.length_take]
        omega
      have hrest : (stream.drop n).length = n * count := by
        rw [List.length_drop]
        omega
      calc
        (chunks n stream).flatten = (chunks n (stream.take n ++ stream.drop n)).flatten := by
          rw [List.take_append_drop]
        _ = stream.take n ++ stream.drop n := by
          rw [chunks_append hn hfirst, List.flatten_cons, ih hrest]
        _ = stream := List.take_append_drop n stream

/-- What is complete of a part of a stream of messages. -/
theorem chunks_part (hn : 0 < n) (hmessages : ∀ m ∈ messages, m.length = n)
    (h : stream <+: messages.flatten) : chunks n stream = messages.take (stream.length / n) := by
  induction messages generalizing stream with
  | nil =>
      rw [List.flatten_nil, List.prefix_nil] at h
      rw [h, chunks_of_length_lt (by simpa using hn), List.take_nil]
  | cons m messages ih =>
      have hm := hmessages m List.mem_cons_self
      rw [List.flatten_cons] at h
      by_cases hlt : stream.length < n
      · rw [chunks_of_length_lt hlt, Nat.div_eq_of_lt hlt, List.take_zero]
      · obtain ⟨rest, rfl⟩ : m <+: stream :=
          List.prefix_of_prefix_length_le (List.prefix_append m _) h (by omega)
        rw [List.prefix_append_right_inj] at h
        have hcount : (m ++ rest).length / n = rest.length / n + 1 := by
          rw [List.length_append, hm, Nat.add_div_left _ hn]
        rw [chunks_append hn hm, hcount, List.take_succ_cons,
          ih (fun m' hm' => hmessages m' (List.mem_cons_of_mem _ hm')) h]

end MatrixTransposer.Lib
