import PanelTester.Library.Decimal

/-!
Doubles as the rational numbers they stand for. An operation of C on doubles gives the double
nearest to the exact result (`toDouble`), so that integers below 2^53 are computed exactly
(`toDouble_int`), and the digits of a decimal number read one after the other too, as long as the
number stays below (`readDouble_eq`). Infinities are left out: the exponent has no upper end.
-/

namespace PanelTester.Library

/-- The exponent of the last place of the double nearest to `q`. -/
def lastPlace (q : ℚ) : ℤ := max (Int.log 2 |q| - 52) (-1074)

/-- The double nearest to `q`, between two of them the one with an even last place. -/
def toDouble (q : ℚ) : ℚ := roundEven (q / 2 ^ lastPlace q) * 2 ^ lastPlace q

/-- The digits of a number read into a double. -/
def readDouble (n : ℚ) (digits : Str) : ℚ :=
  digits.foldl
    (fun n c => toDouble (toDouble (n * 10) + (((c.toNat : ℤ) - '0'.toNat : ℤ) : ℚ))) n

theorem roundEven_int (n : ℤ) : roundEven (n : ℚ) = n := by
  rw [roundEven, if_pos (by simp)]
  exact Int.floor_intCast n

/-- An integer below 2^53 is a double. -/
theorem toDouble_int {n : ℤ} (hn : |n| < 2 ^ 53) : toDouble n = n := by
  rcases eq_or_ne n 0 with rfl | hne
  · rw [toDouble, Int.cast_zero, zero_div]
    simp [roundEven]
  · have hpos : (0 : ℚ) < |(n : ℚ)| := abs_pos.mpr (by exact_mod_cast hne)
    have hone : (1 : ℚ) ≤ |(n : ℚ)| := by exact_mod_cast Int.one_le_abs hne
    have hlow : 0 ≤ Int.log 2 |(n : ℚ)| := by
      rw [← Int.zpow_le_iff_le_log (by decide) hpos]
      simpa using hone
    have hhigh : Int.log 2 |(n : ℚ)| < 53 := by
      rw [← Int.lt_zpow_iff_log_lt (by decide) hpos]
      exact_mod_cast hn
    -- the last place is not above the ones
    obtain ⟨k, hk⟩ : ∃ k : ℕ, lastPlace n = -(k : ℤ) := by
      refine ⟨(-lastPlace n).toNat, ?_⟩
      rw [lastPlace]
      omega
    have hscale : (n : ℚ) / 2 ^ lastPlace n = ((n * 2 ^ k : ℤ) : ℚ) := by
      rw [hk, zpow_neg, div_inv_eq_mul]
      push_cast
      rfl
    rw [toDouble, hscale, roundEven_int, hk, zpow_neg, zpow_natCast]
    push_cast
    field_simp

/-- Rounding does not move a number further than by its size. -/
theorem abs_toDouble_sub_le {q : ℚ} (hq : 1 ≤ |q|) : |toDouble q - q| ≤ |q| := by
  have hpos : (0 : ℚ) < |q| := by linarith
  have hplace : (2 : ℚ) ^ lastPlace q ≤ |q| := by
    have hlow : 0 ≤ Int.log 2 |q| := by
      rw [← Int.zpow_le_iff_le_log (by decide) hpos]
      simpa using hq
    have hle : lastPlace q ≤ Int.log 2 |q| := by
      rw [lastPlace]
      omega
    calc (2 : ℚ) ^ lastPlace q ≤ 2 ^ Int.log 2 |q| := zpow_le_zpow_right₀ (by norm_num) hle
      _ ≤ |q| := by exact_mod_cast Int.zpow_log_le_self (b := 2) (by decide) hpos
  have hunit : (0 : ℚ) < 2 ^ lastPlace q := by positivity
  have heq : toDouble q - q =
      (roundEven (q / 2 ^ lastPlace q) - q / 2 ^ lastPlace q) * 2 ^ lastPlace q := by
    rw [toDouble, sub_mul, div_mul_cancel₀ _ hunit.ne']
  rw [heq, abs_mul, abs_of_pos hunit]
  have hround := abs_roundEven_sub_le (q / 2 ^ lastPlace q)
  nlinarith

/-- Digits that make a number below 2^53 are read exactly. -/
theorem readDouble_eq {digits : Str} (hdigits : AllDigits digits) {n : ℕ}
    (hread : readDigits 10 n digits < 2 ^ 53) :
    readDouble n digits = readDigits 10 n digits := by
  induction digits generalizing n with
  | nil => rfl
  | cons c digits ih =>
      have hc := hdigits c List.mem_cons_self
      have htail : AllDigits digits := fun d hd => hdigits d (List.mem_cons_of_mem _ hd)
      rw [readDigits_cons hc] at hread ⊢
      have hle := le_readDigits htail (n * 10 + (c.toNat - '0'.toNat))
      have hzero : '0'.toNat ≤ c.toNat := by
        rw [isDigitChar, Bool.and_eq_true, decide_eq_true_eq] at hc
        exact hc.1
      have hten : toDouble ((n : ℚ) * 10) = ((n * 10 : ℤ) : ℚ) := by
        rw [← toDouble_int (by rw [abs_of_nonneg (by positivity)]; omega)]
        push_cast
        rfl
      have hsum : toDouble (((n * 10 : ℤ) : ℚ) + (((c.toNat : ℤ) - '0'.toNat : ℤ) : ℚ)) =
          ((n * 10 + (c.toNat - '0'.toNat) : ℕ) : ℚ) := by
        have hcast : ((n * 10 : ℤ) : ℚ) + (((c.toNat : ℤ) - '0'.toNat : ℤ) : ℚ) =
            (((n * 10 + (c.toNat - '0'.toNat) : ℕ) : ℤ) : ℚ) := by
          rw [Nat.cast_add, Nat.cast_sub hzero]
          push_cast
          ring
        rw [hcast, toDouble_int (by rw [abs_of_nonneg (by positivity)]; omega)]
        exact Int.cast_natCast _
      have hstep : readDouble n (c :: digits) =
          readDouble ((n * 10 + (c.toNat - '0'.toNat) : ℕ) : ℚ) digits := by
        rw [readDouble, List.foldl_cons, hten, hsum]
        rfl
      rw [hstep, ih htail hread]

end PanelTester.Library
