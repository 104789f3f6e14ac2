import PanelTester.Library.CString

/-!
`strstr` and `atoi` of C, on texts that go on behind what they are asked about. What `strstr` finds
in a text in front of a separator it also finds in the whole, in the same place, when the separator
is no part of what it looks for. `atoi` does not look behind the character that it stops at.
-/

namespace PanelTester.Library

/-- `strstr`: the text from the first occurrence of `lit` on. -/
def strstr (lit : Str) : Str → Option Str
  | [] => if lit = [] then some [] else none
  | c :: s => if lit <+: c :: s then some (c :: s) else strstr lit s

/-- The text behind the first occurrence of `lit`. -/
def behind (lit s : Str) : Option Str := (strstr lit s).map fun p => p.drop lit.length

/-- `atoi` -/
def atoi (s : Str) : Int32 := Int32.ofInt (strtol s 10)

def isDecimal (c : Char) : Bool := (digitValue c).any (· < 10)

/-- What is behind the sign of a number. -/
def behindSign : Str → Str
  | [] => []
  | c :: s => if c = '-' ∨ c = '+' then s else c :: s

/-- `atoi` comes to the end of the text, and does not stop before it. -/
def atoiReadsAll (s : Str) : Bool := (behindSign (s.dropWhile isSpace)).all isDecimal

/-! ### Finding -/

section

variable {lit s : Str}

theorem strstr_isPrefix {p : Str} (h : strstr lit s = some p) : lit <+: p := by
  induction s with
  | nil =>
      rw [strstr, Option.ite_none_right_eq_some] at h
      obtain ⟨rfl, -⟩ := h
      exact List.nil_prefix
  | cons c s ih =>
      rw [strstr] at h
      split_ifs at h with hlit
      · obtain rfl := Option.some.inj h
        exact hlit
      · exact ih h

theorem strstr_isSuffix {p : Str} (h : strstr lit s = some p) : p <:+ s := by
  induction s with
  | nil =>
      rw [strstr, Option.ite_none_right_eq_some] at h
      obtain ⟨-, h⟩ := h
      obtain rfl := Option.some.inj h
      exact List.suffix_rfl
  | cons c s ih =>
      rw [strstr] at h
      split_ifs at h
      · obtain rfl := Option.some.inj h
        exact List.suffix_rfl
      · exact (ih h).trans (List.suffix_cons c s)

/-- A prefix without the separator ends in front of it. -/
theorem prefix_append_iff {x : Char} (hx : x ∉ lit) (rest : Str) :
    lit <+: s ++ x :: rest ↔ lit <+: s := by
  constructor
  · rintro ⟨t, ht⟩
    rcases List.append_eq_append_iff.mp ht with ⟨u, rfl, -⟩ | ⟨u, rfl, hu⟩
    · exact List.prefix_append lit u
    · cases u with
      | nil =>
          rw [List.append_nil]
      | cons y u =>
          obtain ⟨rfl, -⟩ := List.cons.inj hu
          exact absurd (List.mem_append_right s List.mem_cons_self) hx
  · exact fun h => h.trans (List.prefix_append s _)

/-- The first occurrence is in front of the separator, or behind it. -/
theorem strstr_append {x : Char} (hx : x ∉ lit) (hlit : lit ≠ []) (rest : Str) :
    strstr lit (s ++ x :: rest) =
      ((strstr lit s).map fun p => p ++ x :: rest).or (strstr lit rest) := by
  induction s with
  | nil =>
      have hno : ¬ lit <+: x :: rest := by
        rw [← List.nil_append (x :: rest), prefix_append_iff hx, List.prefix_nil]
        exact hlit
      have hrest : strstr lit (x :: rest) = strstr lit rest := by
        rw [strstr, if_neg hno]
      rw [List.nil_append, hrest, strstr, if_neg hlit]
      rfl
  | cons c s ih =>
      have hiff : lit <+: c :: (s ++ x :: rest) ↔ lit <+: c :: s :=
        @prefix_append_iff lit (c :: s) x hx rest
      rw [List.cons_append, strstr, strstr, ih]
      simp only [hiff]
      split_ifs <;> rfl

theorem behind_append {x : Char} (hx : x ∉ lit) (hlit : lit ≠ []) (rest : Str) :
    behind lit (s ++ x :: rest) =
      ((behind lit s).map fun t => t ++ x :: rest).or (behind lit rest) := by
  rw [behind, strstr_append hx hlit, behind]
  cases hs : strstr lit s with
  | none => rfl
  | some p =>
      have hle := (strstr_isPrefix hs).length_le
      show some ((p ++ x :: rest).drop lit.length) = some (p.drop lit.length ++ x :: rest)
      rw [List.drop_append_of_le_length hle]

/-- Looking for one character. -/
theorem strstr_singleton (c : Char) (s : Str) :
    strstr [c] s = if c ∈ s then some (s.dropWhile (· ≠ c)) else none := by
  induction s with
  | nil => rfl
  | cons d s ih =>
      rw [strstr, List.dropWhile_cons, ih]
      rcases eq_or_ne d c with rfl | hne
      · simp
      · simp [hne, hne.symm]

/-- What begins where a character is found. -/
theorem dropWhile_ne_cons {c x : Char} {t : Str} (h : s.dropWhile (· ≠ c) = x :: t) :
    x = c ∧ c ∈ s := by
  have hx : x = c := by
    have hnot := List.head?_dropWhile_not (· ≠ c) s
    rw [h] at hnot
    simpa using hnot
  refine ⟨hx, ?_⟩
  rw [← hx]
  exact (List.dropWhile_suffix _).subset (h ▸ List.mem_cons_self)

theorem not_mem_of_dropWhile_nil {c : Char} (h : s.dropWhile (· ≠ c) = []) : c ∉ s := by
  intro hc
  have hall := List.dropWhile_eq_nil_iff.mp h c hc
  exact absurd hall (by simp)

theorem not_mem_takeWhile_ne (c : Char) (s : Str) : c ∉ s.takeWhile (· ≠ c) := by
  intro hc
  exact absurd (List.mem_takeWhile_imp hc) (by simp)

/-- Behind a character that is there nothing is taken. -/
theorem takeWhile_ne_append_of_mem {c : Char} (h : c ∈ s) (rest : Str) :
    (s ++ rest).takeWhile (· ≠ c) = s.takeWhile (· ≠ c) := by
  rw [List.takeWhile_append, if_neg]
  intro hlen
  have hall := List.takeWhile_eq_self_iff.mp ((List.takeWhile_prefix _).eq_of_length hlen)
  exact absurd (hall c h) (by simp)

theorem takeWhile_ne_of_not_mem {c : Char} (h : c ∉ s) : s.takeWhile (· ≠ c) = s := by
  rw [List.takeWhile_eq_self_iff]
  intro d hd
  exact decide_eq_true fun heq => h (heq ▸ hd)

end

/-! ### Numbers -/

theorem dropWhile_append_of_ne_nil {p : Char → Bool} {s : Str} (h : s.dropWhile p ≠ [])
    (rest : Str) : (s ++ rest).dropWhile p = s.dropWhile p ++ rest := by
  rw [List.dropWhile_append, if_neg]
  rwa [List.isEmpty_iff]

/-- A number ends in front of a character that is no digit. -/
theorem readDigits_append_stop {x : Char} (hx : digitValue x = none) (base n : ℕ) (s rest : Str) :
    readDigits base n (s ++ x :: rest) = readDigits base n s := by
  induction s generalizing n with
  | nil =>
      show readDigits base n (x :: rest) = n
      rw [readDigits, hx]
  | cons c s ih =>
      rw [List.cons_append, readDigits, readDigits]
      cases digitValue c with
      | none => rfl
      | some d =>
          show (if _ then _ else _) = if _ then _ else _
          rw [ih]

/-- A number that ends inside of a text is the same whatever follows the text. -/
theorem readDigits_append_rest {s : Str} (h : s.all isDecimal = false) (n : ℕ) (rest : Str) :
    readDigits 10 n (s ++ rest) = readDigits 10 n s := by
  induction s generalizing n with
  | nil => exact absurd h (by decide)
  | cons c s ih =>
      rw [List.cons_append, readDigits, readDigits]
      rw [List.all_cons, isDecimal] at h
      cases hc : digitValue c with
      | none => rfl
      | some d =>
          rw [hc, Option.any_some] at h
          by_cases hd : d < 10
          · rw [decide_eq_true hd, Bool.true_and] at h
            show (if _ then _ else _) = if _ then _ else _
            rw [ih h]
          · show (if _ then _ else _) = if _ then _ else _
            rw [if_neg hd, if_neg hd]

/-- The value of a number with its sign. -/
def signedValue (base : ℕ) (t : Str) : ℤ :=
  if t.head? = some '-' then max (-2 ^ 31) (-(readNumber base t.tail : ℤ))
  else if t.head? = some '+' then min (2 ^ 31 - 1) (readNumber base t.tail : ℤ)
  else min (2 ^ 31 - 1) (readNumber base t : ℤ)

theorem strtol_eq_signedValue (s : Str) (base : ℕ) :
    strtol s base = signedValue base (s.dropWhile isSpace) := by
  rw [strtol]
  split
  · next t ht => rw [ht]; rfl
  · next t ht => rw [ht]; rfl
  · next hminus hplus =>
      have hhead : ∀ c t, s.dropWhile isSpace = c :: t → c ≠ '-' ∧ c ≠ '+' := by
        intro c t ht
        exact ⟨fun hc => hminus t (hc ▸ ht), fun hc => hplus t (hc ▸ ht)⟩
      cases ht : s.dropWhile isSpace with
      | nil => rfl
      | cons c t =>
          obtain ⟨hm, hp⟩ := hhead c t ht
          rw [signedValue, List.head?_cons, if_neg fun h => hm (Option.some.inj h),
            if_neg fun h => hp (Option.some.inj h)]

/-- The digits of a number are read behind its sign. -/
theorem signedValue_congr {base : ℕ} {c : Char} {t t' : Str}
    (htail : readNumber base t = readNumber base t')
    (hall : ¬ (c = '-' ∨ c = '+') → readNumber base (c :: t) = readNumber base (c :: t')) :
    signedValue base (c :: t) = signedValue base (c :: t') := by
  simp only [signedValue, List.head?_cons, List.tail_cons, htail, Option.some.injEq]
  split_ifs with hm hp
  · rfl
  · rfl
  · rw [hall fun h => h.elim hm hp]

theorem two_le_of_hexMarked {s : Str} (h : hexMarked s = true) : 2 ≤ s.length := by
  match s with
  | [] => exact absurd h (by decide)
  | [a] => simp [hexMarked] at h
  | a :: b :: s => exact Nat.le_add_left 2 s.length

/-- `strtol` stops in front of a character that is no part of a number. -/
theorem strtol_append_stop {x : Char} (hspace : isSpace x = false) (hdigit : digitValue x = none)
    (hsign : ¬ (x = '-' ∨ x = '+')) (hmark : ¬ (x = 'x' ∨ x = 'X')) (s rest : Str) (base : ℕ) :
    strtol (s ++ x :: rest) base = strtol s base := by
  have hzero : x ≠ '0' := by
    rintro rfl
    exact absurd hdigit (by decide)
  have hmarked : ∀ t, hexMarked (t ++ x :: rest) = hexMarked t := by
    intro t
    match t with
    | [] => simp [hexMarked, hzero]
    | [a] =>
        cases rest with
        | nil => simp [hexMarked]
        | cons d rest =>
            rcases eq_or_ne a '0' with rfl | ha
            · simp [hexMarked, not_or.mp hmark]
            · simp [hexMarked, ha]
    | [a, b] =>
        rcases eq_or_ne a '0' with rfl | ha
        · simp [hexMarked, hdigit]
        · simp [hexMarked, ha]
    | a :: b :: c :: t =>
        rcases eq_or_ne a '0' with rfl | ha
        · rfl
        · simp [hexMarked, ha]
  have hnumber : ∀ t, readNumber base (t ++ x :: rest) = readNumber base t := by
    intro t
    have hhead : (t ++ x :: rest).head? = some '0' ↔ t.head? = some '0' := by
      cases t with
      | nil => simp [hzero]
      | cons a t => rfl
    simp only [readNumber, hmarked, hhead, readDigits_append_stop hdigit]
    split_ifs with hhex
    · rw [List.drop_append_of_le_length (two_le_of_hexMarked hhex.2),
        readDigits_append_stop hdigit]
    all_goals rfl
  have hdrop : (s ++ x :: rest).dropWhile isSpace = s.dropWhile isSpace ++ x :: rest := by
    rw [List.dropWhile_append]
    split_ifs with hnil
    · rw [List.isEmpty_iff.mp hnil, List.nil_append, List.dropWhile_cons, hspace]
      rfl
    · rfl
  rw [strtol_eq_signedValue, strtol_eq_signedValue, hdrop]
  cases s.dropWhile isSpace with
  | nil =>
      obtain ⟨hm, hp⟩ := not_or.mp hsign
      have hnil := hnumber []
      rw [List.nil_append] at hnil ⊢
      rw [signedValue, List.head?_cons, if_neg fun h => hm (Option.some.inj h),
        if_neg fun h => hp (Option.some.inj h), hnil]
      rfl
  | cons c t => exact signedValue_congr (hnumber t) fun _ => hnumber (c :: t)

/-- `atoi` is the same of a text that goes on, when it stops inside of it. -/
theorem atoi_append {s : Str} (h : atoiReadsAll s = false) (rest : Str) :
    atoi (s ++ rest) = atoi s := by
  have hne : s.dropWhile isSpace ≠ [] := by
    intro hnil
    rw [atoiReadsAll, hnil] at h
    exact absurd h (by decide)
  have hnumber : ∀ t, t.all isDecimal = false → readNumber 10 (t ++ rest) = readNumber 10 t :=
    fun t ht => readDigits_append_rest ht 0 rest
  rw [atoi, atoi, strtol_eq_signedValue, strtol_eq_signedValue, dropWhile_append_of_ne_nil hne]
  rw [atoiReadsAll] at h
  cases ht : s.dropWhile isSpace with
  | nil => exact absurd ht hne
  | cons c t =>
      rw [ht, behindSign] at h
      split_ifs at h with hsign
      · rw [List.cons_append]
        congr 1
        exact signedValue_congr (hnumber t h) fun hno => absurd hsign hno
      · have hall := hnumber (c :: t) h
        simp only [not_or] at hsign
        rw [List.cons_append] at hall ⊢
        rw [signedValue, signedValue, List.head?_cons, List.head?_cons,
          if_neg fun h => hsign.1 (Option.some.inj h), if_neg fun h => hsign.2 (Option.some.inj h),
          if_neg fun h => hsign.1 (Option.some.inj h), if_neg fun h => hsign.2 (Option.some.inj h),
          hall]

end PanelTester.Library
