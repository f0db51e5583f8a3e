import Mathlib.Data.List.Basic
import Mathlib.Data.List.TakeWhile
import Mathlib.Data.Nat.Digits.Defs

/-!
# Numbers in big-endian bytes

The bytes of a number are its digits in base 256, the most significant first. They are unique up to
leading zeros (`dropWhile_zero_eq`).
-/

namespace BigEndian

/-- The number that the bytes write. -/
def value (bytes : List UInt8) : Nat := bytes.foldl (fun acc b => 256 * acc + b.toNat) 0

/-- The bytes as digits, the least significant first. -/
def digits (bytes : List UInt8) : List Nat := bytes.reverse.map UInt8.toNat

theorem digits_lt (bytes : List UInt8) : ∀ d ∈ digits bytes, d < 256 := by
  intro d hd
  obtain ⟨b, -, rfl⟩ := List.mem_map.mp hd
  exact b.toNat_lt

theorem digits_injective {a b : List UInt8} (h : digits a = digits b) : a = b := by
  have hreverse : a.reverse = b.reverse :=
    List.map_injective_iff.mpr (fun _ _ => UInt8.toNat_inj.mp) h
  exact List.reverse_injective hreverse

theorem value_eq_ofDigits (bytes : List UInt8) : value bytes = Nat.ofDigits 256 (digits bytes) := by
  unfold value digits
  rw [Nat.ofDigits_eq_foldr, List.foldr_map, ← List.foldl_eq_foldr_reverse]
  congr 1
  funext acc b
  simp [Nat.add_comm]

theorem value_lt (bytes : List UInt8) : value bytes < 256 ^ bytes.length := by
  have h := Nat.ofDigits_lt_base_pow_length (by decide) (digits_lt bytes)
  rw [value_eq_ofDigits]
  simpa [digits] using h

/-- Leading zeros do not count. -/
theorem value_dropWhile_zero (bytes : List UInt8) :
    value (bytes.dropWhile (· == 0)) = value bytes := by
  induction bytes with
  | nil => rfl
  | cons b bytes ih =>
    by_cases hb : b = 0
    · subst hb
      exact ih
    · rw [List.dropWhile_cons_of_neg (by simpa using hb)]

/-- Bytes that do not start with a zero are the digits of their number. -/
theorem digits_value {bytes : List UInt8} (h : bytes.head? ≠ some 0) :
    Nat.digits 256 (value bytes) = digits bytes := by
  rw [value_eq_ofDigits]
  apply Nat.digits_ofDigits 256 (by decide) _ (digits_lt _)
  cases bytes with
  | nil => simp [digits]
  | cons b rest =>
    intro hne hzero
    simp only [digits, List.reverse_cons, List.map_append, List.map_cons, List.map_nil,
      List.getLast_append_singleton] at hzero
    have hb : b = 0 := UInt8.toNat_inj.mp hzero
    exact h (congrArg some hb)

theorem head?_dropWhile_zero (bytes : List UInt8) :
    (bytes.dropWhile (· == 0)).head? ≠ some 0 := by
  intro hzero
  have hnot := List.head?_dropWhile_not (· == 0) bytes
  rw [hzero] at hnot
  cases hnot

/-- Bytes of the same number differ in leading zeros only. -/
theorem dropWhile_zero_eq {a b : List UInt8} (h : value a = value b) :
    a.dropWhile (· == 0) = b.dropWhile (· == 0) := by
  apply digits_injective
  rw [← digits_value (head?_dropWhile_zero a), ← digits_value (head?_dropWhile_zero b),
    value_dropWhile_zero, value_dropWhile_zero, h]

end BigEndian
