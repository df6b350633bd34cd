/-!
Decimal numerals as the time switch writes them. Numerals are lists of characters; `padded` fills
a numeral up to a least width with zeros, and never cuts one.
-/

namespace TimeSwitch.Decimal

/-- The plain numeral of `n`, without leading zeros. -/
def numeral (n : Nat) : List Char :=
  Nat.toDigits 10 n

/-- The numeral of `n`, with zeros in front up to `width` digits. -/
def padded (width n : Nat) : List Char :=
  List.replicate (width - (numeral n).length) '0' ++ numeral n

theorem numeral_of_lt_ten {n : Nat} (h : n < 10) : numeral n = [Nat.digitChar n] :=
  Nat.toDigits_of_lt_base h

theorem numeral_of_ten_le {n : Nat} (h : 10 ≤ n) :
    numeral n = numeral (n / 10) ++ [Nat.digitChar (n % 10)] :=
  Nat.toDigits_of_base_le (by omega) h

theorem isDigit_of_mem_numeral {n : Nat} {c : Char} (h : c ∈ numeral n) : c.isDigit :=
  Nat.isDigit_of_mem_toDigits (by omega) (by omega) h

theorem isDigit_of_mem_padded {width n : Nat} {c : Char} (h : c ∈ padded width n) :
    c.isDigit := by
  rcases List.mem_append.1 h with h | h
  · rw [List.eq_of_mem_replicate h]; decide
  · exact isDigit_of_mem_numeral h

/-- Below a hundred, two places show the tens and the units. -/
theorem padded_two_of_lt {n : Nat} (h : n < 100) :
    padded 2 n = [Nat.digitChar (n / 10), Nat.digitChar (n % 10)] := by
  by_cases h' : n < 10
  · rw [padded, numeral_of_lt_ten h', Nat.div_eq_of_lt h', Nat.mod_eq_of_lt h']; rfl
  · rw [padded, numeral_of_ten_le (by omega), numeral_of_lt_ten (by omega)]; rfl

end TimeSwitch.Decimal
