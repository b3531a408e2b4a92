import Mathlib

/-!
# Decimal numerals

Facts about `Nat.toDigits 10` that a printer and a reader of numbers need.
-/

namespace Solusek.Decimal

theorem toDigits_injective : Function.Injective (Nat.toDigits 10) := by
  intro m n same
  have read := congrArg (Nat.ofDigitChars 10 · 0) same
  simpa only [Nat.ofDigitChars_ten_toDigits] using read

theorem isDigit_of_mem {n : Nat} {c : Char} (member : c ∈ Nat.toDigits 10 n) : c.isDigit = true :=
  Nat.isDigit_of_mem_toDigits (by decide) (by decide) member

theorem not_mem_toDigits {n : Nat} {c : Char} (other : c.isDigit = false) :
    c ∉ Nat.toDigits 10 n := by
  intro member
  rw [isDigit_of_mem member] at other
  exact Bool.noConfusion other

theorem length_toDigits {n k : Nat} (low : 10 ^ k ≤ n) (high : n < 10 ^ (k + 1)) :
    (Nat.toDigits 10 n).length = k + 1 := by
  have upper : (Nat.toDigits 10 n).length ≤ k + 1 :=
    (Nat.length_toDigits_le_iff (by decide) (Nat.succ_pos k)).mpr high
  cases k with
  | zero =>
    have positive := Nat.length_toDigits_pos (b := 10) (n := n)
    omega
  | succ k =>
    have lower : ¬ (Nat.toDigits 10 n).length ≤ k + 1 := by
      rw [Nat.length_toDigits_le_iff (by decide) (Nat.succ_pos k)]
      omega
    omega

theorem takeWhile_toDigits (n : Nat) {rest : List Char}
    (stop : ∀ c ∈ rest.head?, c.isDigit = false) :
    (Nat.toDigits 10 n ++ rest).takeWhile Char.isDigit = Nat.toDigits 10 n := by
  rw [List.takeWhile_append_of_pos fun c member => isDigit_of_mem member]
  cases rest with
  | nil => simp
  | cons c rest => simp [stop c rfl]

end Solusek.Decimal
