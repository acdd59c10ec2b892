import Mathlib.Data.List.Basic

/-!
# Numbers in a text

A decimal number ends at the first character that is not a digit. A text that writes one such
character after a number determines the number and all that follows the character, whatever that is.
-/

namespace MatrixTransposer.Lib

theorem append_cons_inj {α : Type*} {p : α → Bool} {xs xs' rest rest' : List α} {d : α}
    (hxs : ∀ a ∈ xs, p a = true) (hxs' : ∀ a ∈ xs', p a = true) (hd : p d = false) :
    xs ++ d :: rest = xs' ++ d :: rest' ↔ xs = xs' ∧ rest = rest' := by
  constructor
  · intro heq
    have hfront := congrArg (List.takeWhile p) heq
    rw [List.takeWhile_append_of_pos hxs, List.takeWhile_append_of_pos hxs'] at hfront
    simp only [List.takeWhile_cons, hd, Bool.false_eq_true, if_false, List.append_nil] at hfront
    subst hfront
    exact ⟨rfl, (List.cons.inj (List.append_cancel_left heq)).2⟩
  · rintro ⟨rfl, rfl⟩
    rfl

theorem toDigits_inj {m n : Nat} : Nat.toDigits 10 m = Nat.toDigits 10 n ↔ m = n := by
  constructor
  · intro heq
    have hvalue := congrArg (fun digits => Nat.ofDigitChars 10 digits 0) heq
    simpa only [Nat.ofDigitChars_ten_toDigits] using hvalue
  · rintro rfl
    rfl

theorem toDigits_append_cons_inj {c : Char} (hc : c.isDigit = false) {m n : Nat}
    {rest rest' : List Char} :
    Nat.toDigits 10 m ++ c :: rest = Nat.toDigits 10 n ++ c :: rest' ↔ m = n ∧ rest = rest' := by
  have hdigits : ∀ n, ∀ a ∈ Nat.toDigits 10 n, a.isDigit = true :=
    fun n a ha => Nat.isDigit_of_mem_toDigits (by decide) (by decide) ha
  rw [append_cons_inj (hdigits m) (hdigits n) hc, toDigits_inj]

end MatrixTransposer.Lib
