/-!
# Hexadecimal numbers

Lower-case hexadecimal digits, filled up with zeros on the left to a least width.
-/

namespace Brainfuck

/-- A number in lower-case hexadecimal with at least `width` digits. -/
def hex (width n : Nat) : List Char :=
  let digits := Nat.toDigits 16 n
  List.replicate (width - digits.length) '0' ++ digits

/-- The value of a hexadecimal digit in either case. -/
def hexDigit? (c : Char) : Option Nat :=
  if '0' ≤ c ∧ c ≤ '9' then some (c.toNat - '0'.toNat)
  else if 'a' ≤ c ∧ c ≤ 'f' then some (c.toNat - 'a'.toNat + 10)
  else if 'A' ≤ c ∧ c ≤ 'F' then some (c.toNat - 'A'.toNat + 10)
  else none

/-- The value of hexadecimal digits read from the left. -/
def hexValue (digits : List Char) : Nat := digits.foldl (fun n c => 16 * n + (hexDigit? c).getD 0) 0

theorem hexDigit?_digitChar : ∀ d, d < 16 → hexDigit? d.digitChar = some d := by decide

theorem hexValue_append_singleton (digits : List Char) (c : Char) :
    hexValue (digits ++ [c]) = 16 * hexValue digits + (hexDigit? c).getD 0 := by
  simp [hexValue]

theorem hexValue_toDigits (n : Nat) : hexValue (Nat.toDigits 16 n) = n := by
  induction n using Nat.strongRecOn with
  | ind n ih =>
    by_cases h : n < 16
    · rw [Nat.toDigits_of_lt_base h]
      simp [hexValue, hexDigit?_digitChar n h]
    · rw [Nat.toDigits_of_base_le (by decide) (by omega), hexValue_append_singleton, ih _ (by omega),
        hexDigit?_digitChar _ (Nat.mod_lt _ (by decide))]
      simp
      omega

/-- A number in hexadecimal reads back as the number, whatever its width. -/
theorem hexValue_hex (width n : Nat) : hexValue (hex width n) = n := by
  have h : ∀ k, hexValue (List.replicate k '0' ++ Nat.toDigits 16 n) = n := by
    intro k
    induction k with
    | zero => simpa using hexValue_toDigits n
    | succ k ih =>
      rw [List.replicate_succ, List.cons_append]
      simpa [hexValue, show hexDigit? '0' = some 0 from rfl] using ih
  exact h _

end Brainfuck
