import PanelTester.Library.CString
import Mathlib.Data.Int.Log

/-!
Decimal numbers as `printf` writes them: `%f` and `%e` beside `%d`. What is printed is digits that
are read back with whatever stands behind them, as long as it begins with no digit
(`takeWhile_digits`), and the number that is read is the one that was printed, rounded to the
places that there are (`abs_roundEven_sub_le`).
-/

namespace PanelTester.Library

/-- `'0' <= c && c <= '9'` -/
def isDigitChar (c : Char) : Bool := '0' ≤ c && c ≤ '9'

/-- The character of a digit. -/
def digitChar (d : ℕ) : Char := lowerDigits.getD d '0'

/-- A number printed with `k` digits, with zeros in front. -/
def fixedDigits : ℕ → ℕ → Str
  | 0, _ => []
  | k + 1, n => fixedDigits k (n / 10) ++ [digitChar (n % 10)]

/-- A number rounded to an integer as `printf` does it, between two of them to the even one. -/
def roundEven (q : ℚ) : ℤ :=
  if q - ⌊q⌋ < 1 / 2 then ⌊q⌋
  else if 1 / 2 < q - ⌊q⌋ then ⌊q⌋ + 1
  else if ⌊q⌋ % 2 = 0 then ⌊q⌋
  else ⌊q⌋ + 1

/-- The sign of a printed number. -/
def printSign (d : ℚ) : Str := if d < 0 then ['-'] else []

/-- The places that `%f` prints: millionths. -/
def millionths (d : ℚ) : ℕ := (roundEven (|d| * 10 ^ 6)).toNat

/-- `%f` -/
def printFixed (d : ℚ) : Str :=
  printSign d ++ printDecimal ((millionths d / 10 ^ 6 : ℕ) : ℤ) ++
    '.' :: fixedDigits 6 (millionths d % 10 ^ 6)

/-- The digits that `%e` prints, as a number of seven digits, and the exponent of the first one.
When the digits are rounded up to the next power of ten, the exponent is one more. -/
def scientific (d : ℚ) : ℕ × ℤ :=
  let e := Int.log 10 |d|
  let m := (roundEven (|d| / 10 ^ e * 10 ^ 6)).toNat
  if m = 10 ^ 7 then (10 ^ 6, e + 1) else (m, e)

/-- The exponent of `%e`, in two digits or more. -/
def printExponent (e : ℤ) : Str :=
  (if e < 0 then '-' else '+') ::
    if e.natAbs < 100 then fixedDigits 2 e.natAbs else printDecimal e.natAbs

/-- `%e` -/
def printScientific (d : ℚ) : Str :=
  printSign d ++ fixedDigits 1 ((scientific d).1 / 10 ^ 6) ++
    '.' :: fixedDigits 6 ((scientific d).1 % 10 ^ 6) ++ 'e' :: printExponent (scientific d).2

/-! ### Digits -/

theorem isDigitChar_digitChar {d : ℕ} (hd : d < 10) : isDigitChar (digitChar d) := by
  have hall : ∀ e ∈ List.range 10, isDigitChar (digitChar e) := by decide
  exact hall d (List.mem_range.mpr hd)

theorem digitValue_digitChar {d : ℕ} (hd : d < 10) : digitValue (digitChar d) = some d :=
  isDigits_lower.value d (by omega)

/-- All of a string are digits. -/
def AllDigits (s : Str) : Prop := ∀ c ∈ s, isDigitChar c

theorem allDigits_nil : AllDigits [] := fun _ hc => absurd hc List.not_mem_nil

theorem AllDigits.append {s t : Str} (hs : AllDigits s) (ht : AllDigits t) : AllDigits (s ++ t) :=
  fun c hc => (List.mem_append.mp hc).elim (hs c) (ht c)

theorem allDigits_fixedDigits (k n : ℕ) : AllDigits (fixedDigits k n) := by
  induction k generalizing n with
  | zero => exact allDigits_nil
  | succ k ih =>
      rw [fixedDigits]
      apply (ih (n / 10)).append
      intro c hc
      obtain rfl := List.mem_singleton.mp hc
      exact isDigitChar_digitChar (Nat.mod_lt n (by decide))

@[simp] theorem length_fixedDigits (k n : ℕ) : (fixedDigits k n).length = k := by
  induction k generalizing n with
  | zero => rfl
  | succ k ih => rw [fixedDigits, List.length_append, ih, List.length_singleton]

/-- The digits of `printDecimal`, the first one last. -/
theorem printDecimal_natCast {n : ℕ} (hn : n ≠ 0) :
    printDecimal (n : ℤ) = ((Nat.digits 10 n).map digitChar).reverse := by
  rw [printDecimal, if_neg (by omega), if_neg (by omega), Int.natAbs_natCast]
  rfl

theorem allDigits_printDecimal (n : ℕ) : AllDigits (printDecimal (n : ℤ)) := by
  rcases eq_or_ne n 0 with rfl | hn
  · intro c hc
    obtain rfl : c = '0' := by simpa [printDecimal] using hc
    rfl
  · rw [printDecimal_natCast hn]
    intro c hc
    obtain ⟨d, hd, rfl⟩ := List.mem_map.mp (List.mem_reverse.mp hc)
    exact isDigitChar_digitChar (Nat.digits_lt_base (by decide) hd)

theorem printDecimal_ne_nil (n : ℕ) : printDecimal (n : ℤ) ≠ [] := by
  rcases eq_or_ne n 0 with rfl | hn
  · decide
  · rw [printDecimal_natCast hn]
    simpa using Nat.digits_ne_nil_iff_ne_zero.mpr hn

/-- A printed number that is not 0 begins with no 0. -/
theorem head_printDecimal {n : ℕ} (hn : n ≠ 0) :
    ∃ c s, printDecimal (n : ℤ) = c :: s ∧ c ≠ '0' ∧ isDigitChar c := by
  have hne : Nat.digits 10 n ≠ [] := Nat.digits_ne_nil_iff_ne_zero.mpr hn
  have hlast := Nat.getLast_digit_ne_zero 10 hn
  have hlt : (Nat.digits 10 n).getLast hne < 10 :=
    Nat.digits_lt_base (by decide) (List.getLast_mem hne)
  refine ⟨digitChar ((Nat.digits 10 n).getLast hne),
    ((Nat.digits 10 n).dropLast.map digitChar).reverse, ?_, ?_, isDigitChar_digitChar hlt⟩
  · rw [printDecimal_natCast hn]
    conv_lhs => rw [← List.dropLast_append_getLast hne]
    rw [List.map_append, List.reverse_append]
    rfl
  · have hzero : ∀ d < 10, d ≠ 0 → digitChar d ≠ '0' := by decide
    exact hzero _ hlt hlast

/-- The sign of an integer, and its digits. -/
theorem printDecimal_eq (i : ℤ) :
    printDecimal i = (if i < 0 then ['-'] else []) ++ printDecimal (i.natAbs : ℤ) := by
  rw [printDecimal, printDecimal, if_neg (by omega : ¬ ((i.natAbs : ℤ) < 0)), List.nil_append,
    Int.natAbs_natCast]
  congr 1
  simp only [Int.natCast_natAbs, abs_eq_zero]

/-- As many digits as the number has. -/
theorem length_printDecimal_le {n k : ℕ} (hk : 0 < k) (h : n < 10 ^ k) :
    (printDecimal (n : ℤ)).length ≤ k := by
  rcases eq_or_ne n 0 with rfl | hn
  · exact hk
  · rw [printDecimal_natCast hn, List.length_reverse, List.length_map]
    exact (Nat.digits_length_le_iff (by decide) n).mpr h

/-- And a sign. -/
theorem length_printDecimal_int_le {i : ℤ} {k : ℕ} (hk : 0 < k) (hi : i.natAbs < 10 ^ k) :
    (printDecimal i).length ≤ k + 1 := by
  have hdigits := length_printDecimal_le hk hi
  rw [printDecimal_eq, List.length_append]
  split_ifs
  · rw [List.length_singleton]
    omega
  · rw [List.length_nil]
    omega

theorem length_printDecimal_int32 (i : Int32) : (printDecimal i.toInt).length ≤ 11 := by
  have hlow := i.le_toInt
  have hhigh := i.toInt_lt
  exact length_printDecimal_int_le (k := 10) (by decide) (by omega)

/-! ### Numbers read back -/

theorem readDigits_cons {c : Char} (hc : isDigitChar c) (n : ℕ) (s : Str) :
    readDigits 10 n (c :: s) = readDigits 10 (n * 10 + (c.toNat - '0'.toNat)) s := by
  rw [isDigitChar, Bool.and_eq_true, decide_eq_true_eq, decide_eq_true_eq] at hc
  have hvalue : digitValue c = some (c.toNat - '0'.toNat) := by rw [digitValue, if_pos hc]
  have hlt : c.toNat - '0'.toNat < 10 := by
    have hle : c.toNat ≤ '9'.toNat := hc.2
    have h9 : '9'.toNat = 57 := rfl
    have h0 : '0'.toNat = 48 := rfl
    omega
  rw [readDigits]
  simp only [hvalue, if_pos hlt]

theorem readDigits_append_digits {s t : Str} (hs : AllDigits s) (n : ℕ) :
    readDigits 10 n (s ++ t) = readDigits 10 (readDigits 10 n s) t := by
  induction s generalizing n with
  | nil => rfl
  | cons c s ih =>
      have hc := hs c List.mem_cons_self
      rw [List.cons_append, readDigits_cons hc, readDigits_cons hc]
      exact ih (fun c hmem => hs c (List.mem_cons_of_mem _ hmem)) _

theorem le_readDigits {s : Str} (hs : AllDigits s) (n : ℕ) : n ≤ readDigits 10 n s := by
  induction s generalizing n with
  | nil => exact le_rfl
  | cons c s ih =>
      have hrest := ih (fun c hmem => hs c (List.mem_cons_of_mem _ hmem))
        (n * 10 + (c.toNat - '0'.toNat))
      rw [readDigits_cons (hs c List.mem_cons_self)]
      omega

theorem readDigits_fixedDigits (k m n : ℕ) :
    readDigits 10 n (fixedDigits k m) = n * 10 ^ k + m % 10 ^ k := by
  induction k generalizing m with
  | zero => simp [fixedDigits, readDigits, Nat.mod_one]
  | succ k ih =>
      have hlt : m % 10 < 10 := Nat.mod_lt m (by decide)
      have hmod : m % 10 ^ (k + 1) = m / 10 % 10 ^ k * 10 + m % 10 := by
        rw [Nat.pow_succ, Nat.mul_comm, Nat.mod_mul]
        omega
      rw [fixedDigits, readDigits_append_digits (allDigits_fixedDigits k _), ih]
      simp only [readDigits, digitValue_digitChar hlt, if_pos hlt]
      rw [hmod, Nat.pow_succ]
      ring

theorem readDigits_printDecimal (n : ℕ) : readDigits 10 0 (printDecimal (n : ℤ)) = n := by
  rcases eq_or_ne n 0 with rfl | hn
  · decide
  · rw [printDecimal_natCast hn]
    exact (readDigits_decimal _ fun d hd => Nat.digits_lt_base (by decide) hd).trans
      (Nat.ofDigits_digits 10 n)

/-- No digit stands at the front of a string. -/
def NoDigit (s : Str) : Prop := ∀ c ∈ s.head?, ¬ isDigitChar c

theorem takeWhile_digits {s t : Str} (hs : AllDigits s) (ht : NoDigit t) :
    (s ++ t).takeWhile isDigitChar = s ∧ (s ++ t).dropWhile isDigitChar = t := by
  have hend : t.takeWhile isDigitChar = [] ∧ t.dropWhile isDigitChar = t := by
    cases t with
    | nil => exact ⟨rfl, rfl⟩
    | cons c t =>
        have hc := ht c rfl
        exact ⟨List.takeWhile_cons_of_neg hc, List.dropWhile_cons_of_neg hc⟩
  rw [List.takeWhile_append_of_pos hs, List.dropWhile_append_of_pos hs, hend.1, hend.2,
    List.append_nil]
  exact ⟨rfl, rfl⟩

/-! ### Rounding -/

theorem abs_roundEven_sub_le (q : ℚ) : |(roundEven q : ℚ) - q| ≤ 1 / 2 := by
  have hfloor := Int.floor_le q
  have hlt := Int.lt_floor_add_one q
  rw [roundEven, abs_le]
  split_ifs with h1 h2 h3
  · constructor <;> linarith
  · constructor <;> push_cast <;> linarith
  · constructor <;> linarith
  · constructor <;> push_cast <;> linarith

theorem roundEven_nonneg {q : ℚ} (hq : 0 ≤ q) : 0 ≤ roundEven q := by
  have hfloor : 0 ≤ ⌊q⌋ := Int.floor_nonneg.mpr hq
  rw [roundEven]
  split_ifs <;> omega

/-- The millionths of a number are the number, up to half of one. -/
theorem abs_millionths_sub_le (d : ℚ) : |(millionths d : ℚ) - |d| * 10 ^ 6| ≤ 1 / 2 := by
  have hnonneg : 0 ≤ roundEven (|d| * 10 ^ 6) := roundEven_nonneg (by positivity)
  have hcast : ((millionths d : ℕ) : ℚ) = (roundEven (|d| * 10 ^ 6) : ℚ) := by
    rw [millionths]
    exact_mod_cast congrArg (Int.cast : ℤ → ℚ) (Int.toNat_of_nonneg hnonneg)
  rw [hcast]
  exact abs_roundEven_sub_le _

/-- A number between two integers is rounded to one between them. -/
theorem roundEven_mem {q : ℚ} {a b : ℤ} (ha : (a : ℚ) ≤ q) (hb : q < b) :
    a ≤ roundEven q ∧ roundEven q ≤ b := by
  have hlow : a ≤ ⌊q⌋ := Int.le_floor.mpr ha
  have hhigh : ⌊q⌋ < b := Int.floor_lt.mpr hb
  rw [roundEven]
  split_ifs <;> omega

/-- What `%e` prints of a number has seven digits, and is the number up to half a unit of the last
one. -/
theorem scientific_spec {d : ℚ} (hd : d ≠ 0) :
    (scientific d).1 / 10 ^ 6 < 10 ∧
      |((scientific d).1 : ℚ) * 10 ^ ((scientific d).2 - 6) - abs d| ≤ |d| / (2 * 10 ^ 6) := by
  have hpos : (0 : ℚ) < |d| := abs_pos.mpr hd
  have hlow : (10 : ℚ) ^ Int.log 10 |d| ≤ |d| := by
    exact_mod_cast Int.zpow_log_le_self (b := 10) (by decide) hpos
  have hhigh : |d| < (10 : ℚ) ^ (Int.log 10 |d| + 1) := by
    exact_mod_cast Int.lt_zpow_succ_log_self (b := 10) (by decide) |d|
  rw [scientific]
  generalize Int.log 10 |d| = e at hlow hhigh ⊢
  have hten : (0 : ℚ) < 10 ^ e := by positivity
  rw [zpow_add_one₀ (by norm_num)] at hhigh
  have hmem := roundEven_mem (q := |d| / 10 ^ e * 10 ^ 6) (a := 10 ^ 6) (b := 10 ^ 7)
    (by
      push_cast
      have h := (one_le_div hten).mpr hlow
      linarith)
    (by
      push_cast
      have h := (div_lt_iff₀ hten).mpr (by linarith : |d| < 10 * 10 ^ e)
      linarith)
  have herror := abs_roundEven_sub_le (|d| / 10 ^ e * 10 ^ 6)
  generalize roundEven (|d| / 10 ^ e * 10 ^ 6) = r at hmem herror ⊢
  -- the value of the digits, in both cases
  have hclose : |(r : ℚ) * 10 ^ (e - 6) - abs d| ≤ |d| / (2 * 10 ^ 6) := by
    have hsplit : (10 : ℚ) ^ (e - 6) = 10 ^ e / 10 ^ 6 := by
      rw [zpow_sub₀ (by norm_num)]
      norm_num
    have heq : (r : ℚ) * 10 ^ (e - 6) - |d| =
        (r - |d| / 10 ^ e * 10 ^ 6) * (10 ^ e / 10 ^ 6) := by
      rw [hsplit]
      field_simp
    rw [heq, abs_mul, abs_of_pos (show (0 : ℚ) < 10 ^ e / 10 ^ 6 by positivity)]
    calc |(r : ℚ) - |d| / 10 ^ e * 10 ^ 6| * (10 ^ e / 10 ^ 6)
        ≤ 1 / 2 * (10 ^ e / 10 ^ 6) := by gcongr
      _ ≤ 1 / 2 * (|d| / 10 ^ 6) := by gcongr
      _ = |d| / (2 * 10 ^ 6) := by ring
  have hcast : ((r.toNat : ℕ) : ℚ) = (r : ℚ) := by
    exact_mod_cast congrArg (Int.cast : ℤ → ℚ) (Int.toNat_of_nonneg (by omega : 0 ≤ r))
  split_ifs with hcarry
  · refine ⟨by norm_num, ?_⟩
    have hr : (r : ℚ) = 10 ^ 7 := by
      rw [← hcast, hcarry]
      norm_num
    rw [hr] at hclose
    have heq : ((10 ^ 6 : ℕ) : ℚ) * 10 ^ (e + 1 - 6) = 10 ^ 7 * 10 ^ (e - 6) := by
      rw [show e + 1 - 6 = e - 6 + 1 by ring, zpow_add_one₀ (by norm_num)]
      push_cast
      ring
    rw [heq]
    exact hclose
  · refine ⟨?_, ?_⟩
    · show r.toNat / 10 ^ 6 < 10
      omega
    · rw [hcast]
      exact hclose

/-- One digit is printed alike with and without places. -/
theorem fixedDigits_one {k : ℕ} (hk : k < 10) : fixedDigits 1 k = printDecimal (k : ℤ) := by
  rcases eq_or_ne k 0 with rfl | hne
  · rfl
  · rw [printDecimal_natCast hne, Nat.digits_of_lt 10 k hne hk, fixedDigits, fixedDigits,
      Nat.mod_eq_of_lt hk]
    rfl

end PanelTester.Library
