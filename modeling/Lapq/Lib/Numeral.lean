import Mathlib.Data.Nat.Digits.Defs

/-!
Decimal numerals as bytes. A numeral is written from the digits of a number, the
most significant one first, and read by scanning digits from the left.
-/

namespace Numeral

def isDigit (c : UInt8) : Bool := 48 ≤ c && c ≤ 57

def digit (d : Nat) : UInt8 := UInt8.ofNat (48 + d)

/-- The value of a string of digits. -/
def value (s : List UInt8) : Nat := s.foldl (fun n c => 10 * n + (c.toNat - 48)) 0

/-- A number without leading zeros. -/
def ofNat (n : Nat) : List UInt8 :=
  if n = 0 then [digit 0] else (Nat.digits 10 n).reverse.map digit

/-- A negative number has a minus sign. -/
def ofInt (n : Int) : List UInt8 :=
  if n < 0 then 45 :: ofNat n.natAbs else ofNat n.natAbs

theorem digit_toNat {d : Nat} (hd : d < 10) : (digit d).toNat = 48 + d := by
  unfold digit
  rw [UInt8.toNat_ofNat']
  omega

theorem isDigit_digit {d : Nat} (hd : d < 10) : isDigit (digit d) = true := by
  have hvalue := digit_toNat hd
  simp only [isDigit, Bool.and_eq_true, decide_eq_true_eq, UInt8.le_iff_toNat_le, hvalue]
  constructor
  · exact Nat.le_add_right 48 d
  · change 48 + d ≤ 57
    omega

theorem isDigit_ofNat (n : Nat) : ∀ c ∈ ofNat n, isDigit c = true := by
  unfold ofNat
  split
  · intro c hc
    rw [List.mem_singleton.mp hc]
    exact isDigit_digit (by omega)
  · intro c hc
    obtain ⟨d, hd, rfl⟩ := List.mem_map.mp hc
    exact isDigit_digit (Nat.digits_lt_base (by omega) (List.mem_reverse.mp hd))

theorem takeWhile_ofNat (n : Nat) : (ofNat n).takeWhile isDigit = ofNat n := by
  have htake : (ofNat n ++ []).takeWhile isDigit = ofNat n ++ [] :=
    List.takeWhile_append_of_pos (isDigit_ofNat n)
  rwa [List.append_nil] at htake

theorem ofNat_ne_nil (n : Nat) : ofNat n ≠ [] := by
  unfold ofNat
  split
  · simp
  · rename_i hn
    simp [Nat.digits_ne_nil_iff_ne_zero.mpr hn]

/-- The digits of a number, from the least significant one, have its value. -/
theorem value_digits (ds : List Nat) (hds : ∀ d ∈ ds, d < 10) :
    value (ds.reverse.map digit) = Nat.ofDigits 10 ds := by
  unfold value
  rw [List.foldl_map, List.foldl_reverse, Nat.ofDigits_eq_foldr]
  induction ds with
  | nil => rfl
  | cons d ds ih =>
      have hd := digit_toNat (hds d List.mem_cons_self)
      rw [List.foldr_cons, List.foldr_cons, ih fun d hd => hds d (List.mem_cons_of_mem _ hd), hd]
      simp only [Nat.cast_id]
      omega

theorem value_ofNat (n : Nat) : value (ofNat n) = n := by
  unfold ofNat
  split
  · rename_i hn
    rw [hn]
    rfl
  · rw [value_digits _ fun d hd => Nat.digits_lt_base (by omega) hd, Nat.ofDigits_digits]

end Numeral
