import Mathlib.Data.List.Basic
import Mathlib.Tactic.Common

/-!
# The ring between two indices

A ring of `cap` slots holds, between the reader's index `tail` and the writer's index `head`, the
items not yet read, oldest first. One slot always stays unused, so equal indices mean an empty ring
and the ring is full one step before they would meet again.

Everything a queue over such a ring needs is how the contents move: a write into the writer's own
slot is invisible until the head moves past it, moving the head appends that slot, and moving the
tail drops the oldest item.
-/

namespace MatrixTransposer.Lib.Ring

variable {α : Type*} {cap head tail : Nat}

def next (cap i : Nat) : Nat := (i + 1) % cap

def used (cap head tail : Nat) : Nat :=
  if tail ≤ head then head - tail else head + cap - tail

/-- The slot `k` places after the reader's. -/
def slotAt (cap tail k : Nat) : Nat := (tail + k) % cap

def contents (cap head tail : Nat) (slots : Nat → α) : List α :=
  (List.range (used cap head tail)).map fun k => slots (slotAt cap tail k)

theorem next_lt (hcap : 0 < cap) (i : Nat) : next cap i < cap :=
  Nat.mod_lt _ hcap

/-- The only case split a proof about indices has to make. -/
theorem next_cases (h : head < cap) :
    (head + 1 < cap ∧ next cap head = head + 1) ∨ (head + 1 = cap ∧ next cap head = 0) := by
  by_cases hlast : head + 1 < cap
  · exact Or.inl ⟨hlast, Nat.mod_eq_of_lt hlast⟩
  · have heq : head + 1 = cap := by omega
    exact Or.inr ⟨heq, by rw [next, heq, Nat.mod_self]⟩

theorem next_inj (hhead : head < cap) (htail : tail < cap) (h : next cap head = next cap tail) :
    head = tail := by
  rcases next_cases hhead with ⟨_, hnext⟩ | ⟨_, hnext⟩ <;>
    rcases next_cases htail with ⟨_, hnext'⟩ | ⟨_, hnext'⟩ <;> omega

theorem slotAt_cases (htail : tail < cap) {k : Nat} (hk : k < cap) :
    (tail + k < cap ∧ slotAt cap tail k = tail + k) ∨
      (cap ≤ tail + k ∧ slotAt cap tail k = tail + k - cap) := by
  by_cases hwrap : tail + k < cap
  · exact Or.inl ⟨hwrap, Nat.mod_eq_of_lt hwrap⟩
  · refine Or.inr ⟨by omega, ?_⟩
    rw [slotAt, Nat.mod_eq_sub_mod (by omega), Nat.mod_eq_of_lt (by omega)]

@[simp] theorem length_contents (slots : Nat → α) :
    (contents cap head tail slots).length = used cap head tail := by
  simp [contents]

theorem used_cases (cap head tail : Nat) :
    (tail ≤ head ∧ used cap head tail = head - tail) ∨
      (head < tail ∧ used cap head tail = head + cap - tail) := by
  unfold used
  split <;> omega

theorem used_lt (hhead : head < cap) : used cap head tail < cap := by
  rcases used_cases cap head tail with ⟨_, hused⟩ | ⟨_, hused⟩ <;> omega

theorem used_eq_zero_iff (htail : tail < cap) : used cap head tail = 0 ↔ tail = head := by
  rcases used_cases cap head tail with ⟨_, hused⟩ | ⟨_, hused⟩ <;> omega

theorem contents_eq_nil_iff (htail : tail < cap) (slots : Nat → α) :
    contents cap head tail slots = [] ↔ tail = head := by
  rw [← List.length_eq_zero_iff, length_contents, used_eq_zero_iff htail]

/-- The writer would catch up with the reader exactly when one slot is left. -/
theorem next_eq_tail_iff (hhead : head < cap) (htail : tail < cap) :
    next cap head = tail ↔ used cap head tail = cap - 1 := by
  rcases used_cases cap head tail with ⟨_, hused⟩ | ⟨_, hused⟩ <;>
    rcases next_cases hhead with ⟨_, hnext⟩ | ⟨_, hnext⟩ <;> omega

theorem used_next_head (hhead : head < cap) (htail : tail < cap)
    (hroom : next cap head ≠ tail) :
    used cap (next cap head) tail = used cap head tail + 1 := by
  rcases used_cases cap head tail with ⟨_, hused⟩ | ⟨_, hused⟩ <;>
    rcases used_cases cap (next cap head) tail with ⟨_, hused'⟩ | ⟨_, hused'⟩ <;>
    rcases next_cases hhead with ⟨_, hnext⟩ | ⟨_, hnext⟩ <;> omega

theorem used_next_tail (hhead : head < cap) (htail : tail < cap) (hne : tail ≠ head) :
    used cap head tail = used cap head (next cap tail) + 1 := by
  rcases used_cases cap head tail with ⟨_, hused⟩ | ⟨_, hused⟩ <;>
    rcases used_cases cap head (next cap tail) with ⟨_, hused'⟩ | ⟨_, hused'⟩ <;>
    rcases next_cases htail with ⟨_, hnext⟩ | ⟨_, hnext⟩ <;> omega

theorem slotAt_ne_head (hhead : head < cap) (htail : tail < cap) {k : Nat}
    (hk : k < used cap head tail) : slotAt cap tail k ≠ head := by
  have hlt : used cap head tail < cap := used_lt hhead
  rcases slotAt_cases htail (k := k) (by omega) with ⟨_, hslot⟩ | ⟨_, hslot⟩ <;>
    rcases used_cases cap head tail with ⟨_, hused⟩ | ⟨_, hused⟩ <;> omega

theorem slotAt_used (hhead : head < cap) (htail : tail < cap) :
    slotAt cap tail (used cap head tail) = head := by
  have hused : used cap head tail < cap := used_lt hhead
  rcases slotAt_cases htail hused with ⟨_, hslot⟩ | ⟨_, hslot⟩ <;>
    rcases used_cases cap head tail with ⟨_, hused⟩ | ⟨_, hused⟩ <;> omega

theorem slotAt_succ (htail : tail < cap) {k : Nat} :
    slotAt cap tail (k + 1) = slotAt cap (next cap tail) k := by
  unfold slotAt
  rcases next_cases htail with ⟨_, hnext⟩ | ⟨hlast, hnext⟩
  · rw [hnext]
    congr 1
    omega
  · rw [hnext, show tail + (k + 1) = k + cap by omega, Nat.add_mod_right, Nat.zero_add]

theorem contents_update_head (hhead : head < cap) (htail : tail < cap) (slots : Nat → α) (a : α) :
    contents cap head tail (Function.update slots head a) = contents cap head tail slots := by
  unfold contents
  refine List.map_congr_left fun k hk => ?_
  exact Function.update_of_ne (slotAt_ne_head hhead htail (List.mem_range.mp hk)) _ _

theorem contents_next_head (hhead : head < cap) (htail : tail < cap)
    (hroom : next cap head ≠ tail) (slots : Nat → α) :
    contents cap (next cap head) tail slots = contents cap head tail slots ++ [slots head] := by
  unfold contents
  rw [used_next_head hhead htail hroom, List.range_succ, List.map_append, List.map_singleton,
    slotAt_used hhead htail]

theorem contents_next_tail (hhead : head < cap) (htail : tail < cap) (hne : tail ≠ head)
    (slots : Nat → α) :
    contents cap head tail slots = slots tail :: contents cap head (next cap tail) slots := by
  unfold contents
  rw [used_next_tail hhead htail hne, List.range_succ_eq_map, List.map_cons, List.map_map]
  congr 1
  · rw [slotAt, Nat.add_zero, Nat.mod_eq_of_lt htail]
  · exact List.map_congr_left fun k _ => by rw [Function.comp_apply, slotAt_succ htail]

end MatrixTransposer.Lib.Ring
