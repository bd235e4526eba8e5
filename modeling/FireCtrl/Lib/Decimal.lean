import Mathlib.Data.List.TakeWhile
import Mathlib.Tactic.Common

/-!
# Decimal numerals

* `decimal`: an integer as it is written. `readDecimal`: digits, with or without a sign.
* **`readDecimal_decimal`**: an integer is read back. `mem_decimal`: what it is written with.
-/

namespace Text

def decimal (n : ℤ) : List Char :=
  if n < 0 then '-' :: Nat.toDigits 10 n.natAbs else Nat.toDigits 10 n.natAbs

def readDigits (t : List Char) : Option ℕ :=
  if t ≠ [] ∧ t.all Char.isDigit then some (Nat.ofDigitChars 10 t 0) else none

def readDecimal : List Char → Option ℤ
  | [] => none
  | c :: t =>
    if c = '-' then (readDigits t).map fun n : ℕ => -(n : ℤ)
    else if c = '+' then (readDigits t).map fun n : ℕ => (n : ℤ)
    else (readDigits (c :: t)).map fun n : ℕ => (n : ℤ)

variable {c : Char}

theorem isDigit_of_mem_toDigits {n : ℕ} (hc : c ∈ Nat.toDigits 10 n) : c.isDigit :=
  Nat.isDigit_of_mem_toDigits (by decide) (by decide) hc

theorem mem_decimal {n : ℤ} (hc : c ∈ decimal n) : c = '-' ∨ c.isDigit := by
  unfold decimal at hc
  split_ifs at hc
  · exact (List.mem_cons.mp hc).imp_right isDigit_of_mem_toDigits
  · exact .inr (isDigit_of_mem_toDigits hc)

theorem decimal_ne_nil (n : ℤ) : decimal n ≠ [] := by
  unfold decimal
  split_ifs
  · exact List.cons_ne_nil _ _
  · exact Nat.toDigits_ne_nil

theorem readDigits_toDigits (n : ℕ) : readDigits (Nat.toDigits 10 n) = some n := by
  have hall : (Nat.toDigits 10 n).all Char.isDigit :=
    List.all_eq_true.mpr fun c hc => isDigit_of_mem_toDigits hc
  rw [readDigits, if_pos ⟨Nat.toDigits_ne_nil, hall⟩, Nat.ofDigitChars_ten_toDigits]

theorem readDecimal_of_isDigit (hc : c.isDigit) (t : List Char) :
    readDecimal (c :: t) = (readDigits (c :: t)).map fun n : ℕ => (n : ℤ) := by
  have hsign : c ≠ '-' ∧ c ≠ '+' := by
    constructor
    all_goals
      rintro rfl
      revert hc
      decide
  rw [readDecimal, if_neg hsign.1, if_neg hsign.2]

theorem readDecimal_decimal (n : ℤ) : readDecimal (decimal n) = some n := by
  unfold decimal
  split_ifs with hn
  · have habs : -(n.natAbs : ℤ) = n := by omega
    rw [readDecimal, if_pos rfl, readDigits_toDigits, Option.map_some, habs]
  · have habs : (n.natAbs : ℤ) = n := by omega
    obtain ⟨c, t, h⟩ := List.exists_cons_of_ne_nil (Nat.toDigits_ne_nil (b := 10) (n := n.natAbs))
    have hc : c.isDigit := isDigit_of_mem_toDigits (h ▸ List.mem_cons_self)
    rw [h, readDecimal_of_isDigit hc, ← h, readDigits_toDigits, Option.map_some, habs]

end Text
