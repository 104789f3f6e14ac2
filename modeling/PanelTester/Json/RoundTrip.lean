import PanelTester.Json.Literal

/-!
What `print_value` prints is read back by `parse_value`, formatted or not, at any depth and with
anything behind it that does not go on with a number: first the strings, then the numbers, whose
text is read to its end (`parseNumber_print`), then the values by induction on the item. Only the
numbers can differ, and integers do not (`cJSONParse_print`).
-/

namespace PanelTester.Json

open Library

/-! ### Strings -/

theorem isHex4_printHex4 {n : ℕ} (hn : n < 65536) : IsHex4 (printHex4 n) n where
  length := rfl
  digits c hc := by
    obtain ⟨d, hd, rfl⟩ := List.mem_map.mp hc
    have hlt : d < 16 := by
      simp only [List.mem_cons, List.not_mem_nil, or_false] at hd
      omega
    exact ⟨d, hlt, isDigits_lower.value d hlt⟩
  value := by
    have hvalue : ∀ m, digitValue (lowerDigits.getD (m % 16) '0') = some (m % 16) := fun m =>
      isDigits_lower.value _ (Nat.mod_lt m (by decide))
    have hlt : ∀ m, m % 16 < 16 := fun m => Nat.mod_lt m (by decide)
    simp only [printHex4, List.map_cons, List.map_nil, readDigits, hvalue, hlt, if_true]
    omega

/-- What is written for a character is a unit that stands for it. -/
theorem isUnit_escape {c : Char} (hc : c ≠ nul) : IsUnit (escape c) [c] := by
  rw [escape]
  split_ifs with hplain
  · exact isUnit_plain hplain.2.1 hplain.2.2
  · rcases hletter : letterOf c with _ | letter
    · have hne : c ≠ '"' ∧ c ≠ '\\' := by
        constructor
        · rintro rfl
          exact Option.some_ne_none _ hletter
        · rintro rfl
          exact Option.some_ne_none _ hletter
      have hlow : c.toNat < 32 := by
        by_contra hge
        exact hplain ⟨by omega, hne.1, hne.2⟩
      have hzero : c.toNat ≠ 0 := fun h => hc (Char.toNat_inj.mp h)
      have hput : putUtf8 c.toNat = [c] := by
        rw [putUtf8_bytes (toNat_lt_max c), if_pos (by omega)]
        exact congrArg (fun c => [c]) (Char.ofNat_toNat c)
      have hunit := isUnit_basic (isHex4_printHex4 (n := c.toNat) (by omega)) hzero (by omega)
      rwa [hput] at hunit
    · have hall : ∀ p : Char × Char, p ∈ jsonEscapes → p.1 ≠ 'u' ∧ unescaped p.1 = p.2 := by
        decide
      have hmem : (letter, c) ∈ jsonEscapes := by
        rw [letterOf] at hletter
        split_ifs at hletter <;> obtain rfl := Option.some.inj hletter <;> subst_vars <;> decide
      obtain ⟨hu, hvalue⟩ := hall _ hmem
      have hunit := isUnit_letter hu
      rwa [hvalue] at hunit

theorem units_flatMap_escape {str : Str} (h : nul ∉ str) : Units (str.flatMap escape) str := by
  induction str with
  | nil => exact .nil
  | cons c str ih =>
      obtain ⟨hc, hstr⟩ := not_or.mp (mt List.mem_cons.mpr h)
      rw [List.flatMap_cons]
      exact .cons (isUnit_escape (Ne.symm hc)) (ih hstr)

/-- A string that is copied as it is has nothing to be escaped. -/
theorem flatMap_escape_eq_self {str : Str} (hnul : nul ∉ str) (h : ¬ str.any flagged) :
    str.flatMap escape = str := by
  induction str with
  | nil => rfl
  | cons c str ih =>
      obtain ⟨hc, hstr⟩ := not_or.mp (mt List.mem_cons.mpr hnul)
      rw [List.any_cons, Bool.or_eq_true, not_or] at h
      have hzero : c.toNat ≠ 0 := fun h => hc (Char.toNat_inj.mp h.symm)
      have hflag := h.1
      simp only [flagged, Bool.or_eq_true, Bool.and_eq_true, decide_eq_true_eq, not_or] at hflag
      rw [List.flatMap_cons, ih hstr h.2, escape, if_pos ⟨by omega, hflag.1.2, hflag.2⟩]
      rfl

theorem printStringPtr_text {str : Str} (h : nul ∉ str) :
    (printStringPtr str).text = '"' :: (str.flatMap escape ++ ['"']) := by
  rw [printStringPtr]
  split_ifs with hflag
  · rfl
  · rw [flatMap_escape_eq_self h hflag]

/-- A printed string is read back, whatever stands behind it. -/
theorem parseString_print {str : Str} (h : nul ∉ str) (rest : Str) :
    parseString ((printStringPtr str).text ++ rest) = .ok str rest := by
  rw [printStringPtr_text h, List.cons_append, List.append_assoc]
  exact parseString_units (units_flatMap_escape h) h rest

/-! ### Numbers -/

/-- A number ends in front of this text. -/
def NumberEnd (s : Str) : Prop :=
  ∀ c ∈ s.head?, ¬ isDigitChar c ∧ c ≠ '.' ∧ c ≠ 'e' ∧ c ≠ 'E'

theorem NumberEnd.noDigit {s : Str} (h : NumberEnd s) : NoDigit s := fun c hc => (h c hc).1

theorem NumberEnd.head_ne {s : Str} (h : NumberEnd s) {c : Char}
    (hc : c ∈ ['.', 'e', 'E']) : s.head? ≠ some c := by
  intro hhead
  obtain ⟨-, hdot, he, hE⟩ := h c hhead
  simp only [List.mem_cons, List.not_mem_nil, or_false] at hc
  rcases hc with rfl | rfl | rfl
  · exact hdot rfl
  · exact he rfl
  · exact hE rfl

theorem isDigitChar_iff {c : Char} : isDigitChar c ↔ '0'.toNat ≤ c.toNat ∧ c.toNat ≤ '9'.toNat := by
  rw [isDigitChar, Bool.and_eq_true, decide_eq_true_eq, decide_eq_true_eq]
  exact Iff.rfl

theorem parseInteger_print (n : ℕ) {s : Str} (hs : NoDigit s) :
    parseInteger (printDecimal (n : ℤ) ++ s) = (readDouble 0 (printDecimal (n : ℤ)), s) := by
  obtain ⟨htake, hdrop⟩ := takeWhile_digits (allDigits_printDecimal n) hs
  rcases eq_or_ne n 0 with rfl | hn
  · -- the zero is passed over, and what follows is no digit
    have hnone : ¬ s.head?.any fun c => '1' ≤ c && c ≤ '9' := by
      cases s with
      | nil => decide
      | cons c s =>
          intro hdigit
          apply hs c rfl
          simp only [List.head?_cons, Option.any_some, Bool.and_eq_true,
            decide_eq_true_eq] at hdigit
          have hone : '1'.toNat ≤ c.toNat := hdigit.1
          have hnine : c.toNat ≤ '9'.toNat := hdigit.2
          have h0 : '0'.toNat = 48 := rfl
          have h1 : '1'.toNat = 49 := rfl
          exact isDigitChar_iff.mpr ⟨by omega, hnine⟩
    have hzero : readDouble 0 ['0'] = 0 := by
      exact_mod_cast readDouble_eq (n := 0) (allDigits_printDecimal 0) (by decide)
    show parseInteger ('0' :: s) = (readDouble 0 ['0'], s)
    simp only [parseInteger, List.head?_cons, if_true, List.tail_cons, if_neg hnone, hzero]
  · obtain ⟨c, t, hprint, hc, hdigit⟩ := head_printDecimal hn
    have hhead : (printDecimal (n : ℤ) ++ s).head? = some c := by rw [hprint]; rfl
    have hany : (printDecimal (n : ℤ) ++ s).head?.any fun c => '1' ≤ c && c ≤ '9' := by
      rw [hhead, Option.any_some, Bool.and_eq_true, decide_eq_true_eq, decide_eq_true_eq]
      obtain ⟨hzero, hnine⟩ := isDigitChar_iff.mp hdigit
      refine ⟨show '1'.toNat ≤ c.toNat from ?_, hnine⟩
      have hne : c.toNat ≠ '0'.toNat := fun h => hc (Char.toNat_inj.mp h)
      have h0 : '0'.toNat = 48 := rfl
      have h1 : '1'.toNat = 49 := rfl
      omega
    have hskip : (printDecimal (n : ℤ) ++ s).head? ≠ some '0' := by
      rw [hhead]
      exact fun h => hc (Option.some.inj h)
    simp only [parseInteger, if_neg hskip, if_pos hany, htake, hdrop]

theorem parseFraction_print (n : ℚ) (k : ℕ) {s : Str} (hs : NoDigit s) :
    parseFraction n ('.' :: (fixedDigits 6 k ++ s)) = (readDouble n (fixedDigits 6 k), 6, s) := by
  obtain ⟨htake, hdrop⟩ := takeWhile_digits (allDigits_fixedDigits 6 k) hs
  have hany : (fixedDigits 6 k ++ s).head?.any isDigitChar := by
    obtain ⟨c, t, hct⟩ := List.exists_cons_of_length_pos
      (show 0 < (fixedDigits 6 k).length by rw [length_fixedDigits]; decide)
    rw [hct, List.cons_append, List.head?_cons, Option.any_some]
    exact allDigits_fixedDigits 6 k c (hct ▸ List.mem_cons_self)
  rw [parseFraction, if_pos ⟨rfl, hany⟩, List.tail_cons]
  dsimp only
  rw [htake, hdrop, length_fixedDigits]

theorem parseFraction_end (n : ℚ) {s : Str} (hs : s.head? ≠ some '.') :
    parseFraction n s = (n, 0, s) := by
  rw [parseFraction, if_neg fun h => hs h.1]

theorem parseExponent_end {s : Str} (hs : NumberEnd s) : parseExponent s = (0, s) := by
  rw [parseExponent, if_neg]
  exact not_or.mpr ⟨hs.head_ne (by decide), hs.head_ne (by decide)⟩

theorem parseExponent_print (e : ℤ) {s : Str} (hs : NoDigit s) :
    parseExponent ('e' :: (printExponent e ++ s)) = (e, s) := by
  obtain ⟨digits, hdigits, hread, hprint⟩ : ∃ digits, AllDigits digits ∧
      readDigits 10 0 digits = e.natAbs ∧
        printExponent e = (if e < 0 then '-' else '+') :: digits := by
    rw [printExponent]
    split_ifs with hshort
    · refine ⟨_, allDigits_fixedDigits 2 e.natAbs, ?_, rfl⟩
      rw [readDigits_fixedDigits]
      omega
    · exact ⟨_, allDigits_printDecimal _, readDigits_printDecimal _, by simp⟩
    · refine ⟨_, allDigits_fixedDigits 2 e.natAbs, ?_, rfl⟩
      rw [readDigits_fixedDigits]
      omega
    · exact ⟨_, allDigits_printDecimal _, readDigits_printDecimal _, by simp⟩
  obtain ⟨htake, hdrop⟩ := takeWhile_digits hdigits hs
  rw [hprint, parseExponent, if_pos (.inl rfl)]
  rcases lt_or_ge e 0 with hneg | hpos
  · rw [if_pos hneg]
    simp only [List.tail_cons, List.cons_append, List.head?_cons, or_true, if_true, htake, hdrop,
      hread]
    rw [show -(e.natAbs : ℤ) = e by omega]
  · rw [if_neg (by omega)]
    simp only [List.tail_cons, List.cons_append, List.head?_cons, true_or, if_true, htake, hdrop,
      hread, Option.some.injEq, Char.reduceEq, if_false]
    rw [show (e.natAbs : ℤ) = e by omega]

section

variable (pow : ℤ → ℚ)

/-- The parts of a number are read one after the other. -/
theorem parseNumber_parts {p : Prop} [Decidable p] {s t u rest : Str} {n m : ℚ} {k : ℕ} {e : ℤ}
    (hs : s.head? ≠ some '-') (hint : parseInteger s = (n, t))
    (hfrac : parseFraction n t = (m, k, u)) (hexp : parseExponent u = (e, rest)) :
    parseNumber pow ((if p then ['-'] else []) ++ s) =
      ((toInt ((if p then -1 else 1) * m),
        toDouble ((if p then -1 else 1) * m * pow (e - (k : ℤ)))), rest) := by
  split_ifs with hp
  · simp only [parseNumber, List.cons_append, List.nil_append, List.head?_cons, if_true,
      List.tail_cons, hint, hfrac, hexp]
  · simp only [parseNumber, List.nil_append, if_neg hs, hint, hfrac, hexp]

theorem head_printDecimal_append (n : ℕ) (s : Str) :
    (printDecimal (n : ℤ) ++ s).head? ≠ some '-' := by
  obtain ⟨c, t, hct⟩ := List.exists_cons_of_ne_nil (printDecimal_ne_nil n)
  rw [hct, List.cons_append, List.head?_cons]
  intro heq
  have hc := allDigits_printDecimal n c (hct ▸ List.mem_cons_self)
  obtain rfl := Option.some.inj heq
  exact absurd hc (by decide)

/-- A printed integer is read to its end. -/
theorem parseNumber_printDecimal (i : ℤ) : ∃ v, ∀ rest, NumberEnd rest →
    parseNumber pow (printDecimal i ++ rest) = (v, rest) := by
  apply Exists.intro
  intro rest hrest
  rw [printDecimal_eq, List.append_assoc]
  exact parseNumber_parts pow (head_printDecimal_append _ rest)
    (parseInteger_print _ hrest.noDigit)
    (parseFraction_end _ (hrest.head_ne (by decide))) (parseExponent_end hrest)

theorem toInt_int {i : ℤ} (hlow : -2 ^ 31 ≤ i) (hhigh : i < 2 ^ 31) : toInt i = i := by
  rw [toInt, Int.ceil_intCast, Int.floor_intCast]
  split_ifs <;> omega

/-- An integer of type `int` is read back, whatever stands behind it. -/
theorem parseNumber_int (hpow : pow 0 = 1) {i : ℤ} (hlow : -2 ^ 31 ≤ i) (hhigh : i < 2 ^ 31)
    {rest : Str} (hrest : NumberEnd rest) :
    parseNumber pow (printDecimal i ++ rest) = ((i, (i : ℚ)), rest) := by
  have hdigits : readDouble 0 (printDecimal (i.natAbs : ℤ)) = (i.natAbs : ℚ) := by
    have hread := readDigits_printDecimal i.natAbs
    have hexact := readDouble_eq (n := 0) (allDigits_printDecimal i.natAbs)
      (by rw [hread]; omega)
    rw [hread] at hexact
    exact_mod_cast hexact
  have hvalue : (if i < 0 then -1 else 1) * (i.natAbs : ℚ) = i := by
    rw [Nat.cast_natAbs]
    rcases lt_or_ge i 0 with hneg | hpos
    · rw [if_pos hneg, abs_of_neg hneg]
      push_cast
      ring
    · rw [if_neg (not_lt.mpr hpos), abs_of_nonneg hpos, one_mul]
  have hdouble : toDouble (i : ℚ) = i := toDouble_int (abs_lt.mpr ⟨by omega, by omega⟩)
  rw [printDecimal_eq, List.append_assoc,
    parseNumber_parts pow (head_printDecimal_append _ rest) (parseInteger_print _ hrest.noDigit)
      (parseFraction_end _ (hrest.head_ne (by decide))) (parseExponent_end hrest),
    hdigits, hvalue, toInt_int hlow hhigh]
  simp [hpow, hdouble]

theorem noDigit_dot (s : Str) : NoDigit ('.' :: s) := by
  intro c hc
  obtain rfl := Option.some.inj hc
  decide

/-- A number that `print_number` prints is read to its end, whatever stands behind it. -/
theorem parseNumber_print (valueint : ℤ) (d : ℚ) : ∃ v, ∀ rest, NumberEnd rest →
    parseNumber pow ((printNumber valueint d).text ++ rest) = (v, rest) := by
  rw [printNumber]
  split_ifs with hzero hint hwhole hexp
  · exact parseNumber_printDecimal pow 0
  · exact parseNumber_printDecimal pow valueint
  · exact parseNumber_printDecimal pow (roundEven d)
  · apply Exists.intro
    intro rest hrest
    obtain ⟨hten, -⟩ := scientific_spec hzero
    have hend : NoDigit ('e' :: (printExponent (scientific d).2 ++ rest)) := by
      intro c hc
      obtain rfl := Option.some.inj hc
      decide
    show parseNumber pow (printScientific d ++ rest) = _
    rw [printScientific, printSign, fixedDigits_one hten]
    simp only [List.append_assoc, List.cons_append]
    exact parseNumber_parts pow (head_printDecimal_append _ _)
      (parseInteger_print _ (noDigit_dot _)) (parseFraction_print _ _ hend)
      (parseExponent_print _ hrest.noDigit)
  · apply Exists.intro
    intro rest hrest
    show parseNumber pow (printFixed d ++ rest) = _
    rw [printFixed, printSign]
    simp only [List.append_assoc, List.cons_append]
    exact parseNumber_parts pow (head_printDecimal_append _ _)
      (parseInteger_print _ (noDigit_dot _)) (parseFraction_print _ _ hrest.noDigit)
      (parseExponent_end hrest)

/-- A number as it is read once it was printed. -/
def reread (valueint : ℤ) (d : ℚ) : ℤ × ℚ := (parseNumber pow (printNumber valueint d).text).1

theorem parseNumber_reread (valueint : ℤ) (d : ℚ) {rest : Str} (hrest : NumberEnd rest) :
    parseNumber pow ((printNumber valueint d).text ++ rest) = (reread pow valueint d, rest) := by
  obtain ⟨v, hv⟩ := parseNumber_print pow valueint d
  have halone := hv [] fun c hc => by cases hc
  rw [List.append_nil] at halone
  rw [hv rest hrest, reread, halone]

/-! ### Values -/

mutual

/-- An item as it is read once it was printed. -/
def rereadItem : Item → Item
  | .number valueint valuedouble =>
      .number (reread pow valueint valuedouble).1 (reread pow valueint valuedouble).2
  | .array child => .array (rereadItems child)
  | .object child => .object (rereadMembers child)
  | item => item

def rereadItems : List Item → List Item
  | [] => []
  | item :: items => rereadItem item :: rereadItems items

def rereadMembers : List (Str × Item) → List (Str × Item)
  | [] => []
  | (string, item) :: members => (string, rereadItem item) :: rereadMembers members

end

/-- All of a text is passed over by `skip`. -/
def AllBlank (s : Str) : Prop := ∀ c ∈ s, c.toNat ≤ 32

theorem skip_blank {s : Str} (hs : AllBlank s) (t : Str) : skip (s ++ t) = skip t :=
  List.dropWhile_append_of_pos fun c hc => decide_eq_true (hs c hc)

theorem skip_cons {c : Char} (hc : 32 < c.toNat) (s : Str) : skip (c :: s) = c :: s :=
  List.dropWhile_cons_of_neg (by simpa using hc)

theorem allBlank_tabs (fmt : Bool) (n : ℕ) : AllBlank (tabs fmt n) := by
  intro c hc
  rw [tabs] at hc
  split_ifs at hc
  · obtain rfl := List.eq_of_mem_replicate hc
    decide
  · exact absurd hc List.not_mem_nil

/-- What stands behind a character when a text is formatted. -/
def blankIf (fmt : Bool) (blank : Char) : Str := if fmt then [blank] else []

theorem spaced_eq (fmt : Bool) (c blank : Char) : spaced fmt c blank = c :: blankIf fmt blank := by
  cases fmt <;> rfl

theorem allBlank_blankIf (fmt : Bool) {blank : Char} (h : blank.toNat ≤ 32) :
    AllBlank (blankIf fmt blank) := by
  intro c hc
  rw [blankIf] at hc
  split_ifs at hc
  · obtain rfl := List.mem_singleton.mp hc
    exact h
  · exact absurd hc List.not_mem_nil

/-- Blanks in front of the children of an array are passed over. -/
theorem parseItems_blank {s : Str} (hs : AllBlank s) (fuel : ℕ) (t : Str) :
    parseItems pow fuel (s ++ t) = parseItems pow fuel t := by
  cases fuel with
  | zero => rw [parseItems, parseItems]
  | succ fuel => rw [parseItems, parseItems, skip_blank hs]

theorem parseMembers_blank {s : Str} (hs : AllBlank s) (fuel : ℕ) (t : Str) :
    parseMembers pow fuel (s ++ t) = parseMembers pow fuel t := by
  cases fuel with
  | zero => rw [parseMembers, parseMembers]
  | succ fuel => rw [parseMembers, parseMembers, skip_blank hs]

/-- A printed number begins with a sign or a digit. -/
theorem printNumber_head (valueint : ℤ) (d : ℚ) :
    ∃ c s, (printNumber valueint d).text = c :: s ∧ (c = '-' ∨ isDigitChar c) := by
  have hdigits : ∀ n : ℕ, ∀ s : Str, ∃ c t, printDecimal (n : ℤ) ++ s = c :: t ∧
      (c = '-' ∨ isDigitChar c) := by
    intro n s
    obtain ⟨c, t, hct⟩ := List.exists_cons_of_ne_nil (printDecimal_ne_nil n)
    exact ⟨c, t ++ s, by rw [hct]; rfl,
      .inr (allDigits_printDecimal n c (hct ▸ List.mem_cons_self))⟩
  have hsign : ∀ (p : Prop) [Decidable p] (s : Str), (∃ c t, s = c :: t ∧
      (c = '-' ∨ isDigitChar c)) → ∃ c t, (if p then ['-'] else []) ++ s = c :: t ∧
        (c = '-' ∨ isDigitChar c) := by
    intro p _ s hs
    split_ifs
    · exact ⟨'-', s, rfl, .inl rfl⟩
    · exact hs
  have hint : ∀ i : ℤ, ∃ c t, printDecimal i = c :: t ∧ (c = '-' ∨ isDigitChar c) := by
    intro i
    rw [printDecimal_eq, ← List.append_nil (printDecimal (i.natAbs : ℤ))]
    exact hsign _ _ (hdigits _ _)
  rw [printNumber]
  split_ifs with hzero hnear hwhole hexp
  · exact ⟨'0', [], rfl, .inr rfl⟩
  · exact hint valueint
  · exact hint (roundEven d)
  · show ∃ c s, printScientific d = c :: s ∧ _
    rw [printScientific, printSign, fixedDigits_one (scientific_spec hzero).1, List.append_assoc,
      List.append_assoc]
    exact hsign _ _ (hdigits _ _)
  · show ∃ c s, printFixed d = c :: s ∧ _
    rw [printFixed, printSign, List.append_assoc]
    exact hsign _ _ (hdigits _ _)

theorem printArray_text (fmt : Bool) (entries : List Block) :
    (printArray fmt entries).text = '[' :: (composeItems fmt entries ++ [']']) := by
  rcases eq_or_ne entries [] with rfl | hne
  · rfl
  · rw [printArray, if_neg hne]

theorem printObject_text (fmt : Bool) (depth : ℕ) {entries : List (Block × Block)}
    (hne : entries ≠ []) :
    (printObject fmt depth entries).text =
      '{' :: (blankIf fmt '\n' ++ composeMembers fmt (depth + 1) entries ++ tabs fmt depth ++
        ['}']) := by
  rw [printObject, if_neg hne, spaced_eq]
  rfl

theorem printObject_nil_text (fmt : Bool) (depth : ℕ) :
    (printObject fmt depth []).text =
      '{' :: (blankIf fmt '\n' ++ tabs fmt (depth - 1) ++ ['}']) := by
  rw [printObject, if_pos rfl, spaced_eq]
  rfl

theorem printObject_head (fmt : Bool) (depth : ℕ) (entries : List (Block × Block)) :
    ∃ s, (printObject fmt depth entries).text = '{' :: s := by
  rcases eq_or_ne entries [] with rfl | hne
  · exact ⟨_, printObject_nil_text fmt depth⟩
  · exact ⟨_, printObject_text fmt depth hne⟩

/-- The first character of a printed value is no blank, and closes nothing. -/
theorem printValue_head (fmt : Bool) (depth : ℕ) (item : Item) :
    ∃ c s, (printValue fmt depth item).text = c :: s ∧ 32 < c.toNat ∧ c ≠ ']' := by
  cases item with
  | null => exact ⟨'n', "ull".toList, rfl, by decide⟩
  | false => exact ⟨'f', "alse".toList, rfl, by decide⟩
  | true => exact ⟨'t', "rue".toList, rfl, by decide⟩
  | number i d =>
      obtain ⟨c, s, htext, hc⟩ := printNumber_head i d
      refine ⟨c, s, htext, ?_⟩
      rcases hc with rfl | hc
      · decide
      · obtain ⟨hlow, hhigh⟩ := isDigitChar_iff.mp hc
        have h0 : '0'.toNat = 48 := rfl
        refine ⟨by omega, ?_⟩
        rintro rfl
        exact absurd hc (by decide)
  | string str =>
      rw [printValue, printStringPtr]
      split_ifs
      · exact ⟨'"', _, rfl, by decide⟩
      · exact ⟨'"', _, rfl, by decide⟩
  | array child =>
      rw [printValue, printArray_text]
      exact ⟨'[', _, rfl, by decide⟩
  | object child =>
      obtain ⟨s, hs⟩ := printObject_head fmt depth (printMembers fmt (depth + 1) child)
      exact ⟨'{', s, by rw [printValue, hs], by decide⟩

theorem numberEnd_cons {c : Char} (hc : ¬ isDigitChar c ∧ c ≠ '.' ∧ c ≠ 'e' ∧ c ≠ 'E') (s : Str) :
    NumberEnd (c :: s) := by
  intro d hd
  obtain rfl := Option.some.inj hd
  exact hc

/-- A text that begins with none of the words is read by its first character. -/
theorem parseValue_number {c : Char} (hc : c = '-' ∨ isDigitChar c) (s : Str) (fuel : ℕ) :
    parseValue pow (fuel + 1) (c :: s) =
      .ok (.number (parseNumber pow (c :: s)).1.1 (parseNumber pow (c :: s)).1.2)
        (parseNumber pow (c :: s)).2 := by
  have hne : ∀ d : Char, ¬ (d = '-' ∨ isDigitChar d) → c ≠ d := by
    rintro d hd rfl
    exact hd hc
  have hstart : ∀ d : Char, ∀ lit : List Char, c ≠ d →
      List.isPrefixOf (d :: lit) (c :: s) = false := by
    intro d lit hd
    rw [List.isPrefixOf, beq_false_of_ne hd.symm, Bool.false_and]
  have hn : startsWith "null" (c :: s) = false := hstart 'n' _ (hne 'n' (by decide))
  have hf : startsWith "false" (c :: s) = false := hstart 'f' _ (hne 'f' (by decide))
  have ht : startsWith "true" (c :: s) = false := hstart 't' _ (hne 't' (by decide))
  rw [parseValue, hn, hf, ht]
  simp only [Bool.false_eq_true, if_false, if_neg (hne '"' (by decide)), if_pos hc]

theorem parseValue_string (s : Str) (fuel : ℕ) :
    parseValue pow (fuel + 1) ('"' :: s) =
      (parseString ('"' :: s)).bind fun str rest => .ok (.string str) rest := rfl

theorem parseValue_array (s : Str) (fuel : ℕ) :
    parseValue pow (fuel + 1) ('[' :: s) =
      if (skip s).head? = some ']' then .ok (.array []) (skip s).tail
      else (parseItems pow fuel (skip s)).bind fun child rest => .ok (.array child) rest := rfl

theorem parseValue_object (s : Str) (fuel : ℕ) :
    parseValue pow (fuel + 1) ('{' :: s) =
      if (skip s).head? = some '}' then .ok (.object []) (skip s).tail
      else (parseMembers pow fuel (skip s)).bind fun child rest => .ok (.object child) rest := rfl

/-- What `parse_object` does behind the value of a member. -/
def afterMember (fuel : ℕ) (name : Str) (child : Item) (t : Str) : Outcome (List (Str × Item)) :=
  match skip t with
  | [] => .fail
  | c :: s =>
      if c = ',' then
        (parseMembers pow fuel s).bind fun children rest => .ok ((name, child) :: children) rest
      else if c = '}' then .ok [(name, child)] s
      else .fail

/-- A name and its value are read, and what stands behind them decides how it goes on. -/
theorem parseMembers_member (fmt : Bool) (depth : ℕ) {name : Str} (hname : nul ∉ name)
    {value : Block} {child : Item} {fuel : ℕ} {t : Str}
    (hhead : ∃ c s, value.text = c :: s ∧ 32 < c.toNat)
    (hvalue : parseValue pow fuel (value.text ++ t) = .ok child t) :
    parseMembers pow (fuel + 1) (composeMember fmt depth (printStringPtr name, value) ++ t) =
      afterMember pow fuel name child t := by
  obtain ⟨c, s, hc, hblank⟩ := hhead
  have hparse := parseString_print hname
    (':' :: (blankIf fmt '\t' ++ (value.text ++ t)))
  have hskip : skip (blankIf fmt '\t' ++ (value.text ++ t)) = value.text ++ t := by
    rw [skip_blank (allBlank_blankIf fmt (by decide)), hc, List.cons_append, skip_cons hblank]
  rw [composeMember, spaced_eq]
  simp only [List.append_assoc, List.cons_append]
  rw [parseMembers_blank pow (allBlank_tabs fmt depth)]
  rw [printStringPtr_text hname, List.cons_append] at hparse ⊢
  rw [parseMembers, skip_cons (by decide), hparse]
  simp only [Outcome.bind, skip_cons (show 32 < ':'.toNat by decide), hskip, hvalue, ne_eq,
    not_true_eq_false, if_false]
  rfl

/-- The strings and names of an item are strings of C. -/
def IsString (s : Str) : Prop := nul ∉ s

instance (s : Str) : Decidable (IsString s) := inferInstanceAs (Decidable (nul ∉ s))

mutual

/-- What `print_value` prints is read back, whatever stands behind it. -/
theorem parseValue_print (fmt : Bool) (depth : ℕ) : ∀ (item : Item) (fuel : ℕ) (rest : Str),
    item.All (fun _ _ => True) IsString → NumberEnd rest →
      (printValue fmt depth item).text.length ≤ fuel →
        parseValue pow fuel ((printValue fmt depth item).text ++ rest) =
          .ok (rereadItem pow item) rest
  | .null, fuel + 1, rest, _, _, _ => rfl
  | .false, fuel + 1, rest, _, _, _ => rfl
  | .true, fuel + 1, rest, _, _, _ => rfl
  | .number i d, fuel + 1, rest, _, hrest, _ => by
      obtain ⟨c, s, htext, hc⟩ := printNumber_head i d
      have hparse := parseNumber_reread pow i d hrest
      rw [printValue]
      rw [htext, List.cons_append] at hparse ⊢
      rw [parseValue_number pow hc, hparse, rereadItem]
  | .string str, fuel + 1, rest, hall, _, _ => by
      have hparse := parseString_print hall rest
      rw [printValue]
      rw [printStringPtr_text hall, List.cons_append] at hparse ⊢
      rw [parseValue_string, hparse]
      rfl
  | .array [], fuel + 1, rest, _, _, _ => rfl
  | .array (item :: items), fuel + 1, rest, hall, _, hfuel => by
      rw [printValue, printArray_text] at hfuel ⊢
      rw [List.length_cons, List.length_append, List.length_singleton] at hfuel
      -- the first child is no `]`
      have hskip : skip (composeItems fmt (printItems fmt (depth + 1) (item :: items)) ++
            ']' :: rest) =
          composeItems fmt (printItems fmt (depth + 1) (item :: items)) ++ ']' :: rest ∧
          (composeItems fmt (printItems fmt (depth + 1) (item :: items)) ++
            ']' :: rest).head? ≠ some ']' := by
        obtain ⟨c, s, htext, hc, hclose⟩ := printValue_head fmt (depth + 1) item
        obtain ⟨t, ht⟩ : ∃ t, composeItems fmt (printItems fmt (depth + 1) (item :: items)) =
            c :: t := by
          rw [printItems]
          cases items with
          | nil => exact ⟨s, htext⟩
          | cons item' items =>
              rw [printItems, composeItems, htext]
              exact ⟨_, rfl⟩
        rw [ht, List.cons_append]
        exact ⟨skip_cons hc _, fun h => hclose (Option.some.inj h)⟩
      rw [List.cons_append, List.append_assoc, List.singleton_append, parseValue_array, hskip.1,
        if_neg hskip.2, parseItems_print fmt (depth + 1) (item :: items) fuel rest
          (List.cons_ne_nil item items) hall (by omega)]
      rfl
  | .object [], fuel + 1, rest, _, _, _ => by
      have hblank : AllBlank (blankIf fmt '\n' ++ tabs fmt (depth - 1)) := fun c hc =>
        (List.mem_append.mp hc).elim (allBlank_blankIf fmt (by decide) c) (allBlank_tabs fmt _ c)
      rw [printValue, printMembers, printObject_nil_text, List.cons_append, List.append_assoc,
        parseValue_object, skip_blank hblank, List.singleton_append, skip_cons (by decide)]
      rfl
  | .object (member :: members), fuel + 1, rest, hall, _, hfuel => by
      have hne : printMembers fmt (depth + 1) (member :: members) ≠ [] := by
        rw [printMembers]
        exact List.cons_ne_nil _ _
      rw [printValue, printObject_text fmt depth hne] at hfuel ⊢
      simp only [List.length_cons, List.length_append, List.length_nil] at hfuel
      have hparse := parseMembers_print fmt (depth + 1) depth (member :: members) fuel rest
        (List.cons_ne_nil member members) hall (by omega)
      -- the blanks in front of the first name are passed over twice
      obtain ⟨t, ht⟩ : ∃ t, composeMembers fmt (depth + 1)
          (printMembers fmt (depth + 1) (member :: members)) ++ (tabs fmt depth ++ '}' :: rest) =
            tabs fmt (depth + 1) ++ '"' :: t := by
        rw [printMembers]
        have hname := printStringPtr_text hall.1
        cases members with
        | nil =>
            simp only [printMembers, composeMembers, composeMember, hname, List.append_assoc,
              List.cons_append]
            exact ⟨_, rfl⟩
        | cons member' members =>
            simp only [printMembers, composeMembers, composeMember, hname, List.append_assoc,
              List.cons_append]
            exact ⟨_, rfl⟩
      rw [List.cons_append, List.append_assoc, List.append_assoc, List.append_assoc,
        List.singleton_append, parseValue_object, skip_blank (allBlank_blankIf fmt (by decide))]
      rw [ht] at hparse ⊢
      rw [parseMembers_blank pow (allBlank_tabs fmt _)] at hparse
      rw [skip_blank (allBlank_tabs fmt _), skip_cons (by decide),
        if_neg (show ('"' :: t).head? ≠ some '}' by simp), hparse]
      rfl
  | item, 0, rest, _, _, hfuel => by
      obtain ⟨c, s, htext, -⟩ := printValue_head fmt depth item
      rw [htext] at hfuel
      exact absurd hfuel (Nat.not_succ_le_zero _)

theorem parseItems_print (fmt : Bool) (depth : ℕ) : ∀ (items : List Item) (fuel : ℕ) (rest : Str),
    items ≠ [] → AllItems (fun _ _ => True) IsString items →
      (composeItems fmt (printItems fmt depth items)).length + 1 ≤ fuel →
        parseItems pow fuel (composeItems fmt (printItems fmt depth items) ++ ']' :: rest) =
          .ok (rereadItems pow items) rest
  | [item], fuel + 1, rest, _, hall, hfuel => by
      have hfuel : (printValue fmt depth item).text.length + 1 ≤ fuel + 1 := hfuel
      obtain ⟨c, s, htext, hc, -⟩ := printValue_head fmt depth item
      show parseItems pow (fuel + 1) ((printValue fmt depth item).text ++ ']' :: rest) = _
      have hparse := parseValue_print fmt depth item fuel (']' :: rest) hall.1
        (numberEnd_cons (by decide) rest) (by omega)
      rw [htext, List.cons_append] at hparse ⊢
      rw [parseItems, skip_cons hc, hparse]
      rfl
  | item :: item' :: items, fuel + 1, rest, _, hall, hfuel => by
      obtain ⟨c, s, htext, hc, -⟩ := printValue_head fmt depth item
      have htail := parseItems_print fmt depth (item' :: items) fuel rest
        (List.cons_ne_nil item' items) hall.2
      rw [items_cons, spaced_eq] at hfuel ⊢
      simp only [List.length_append, List.length_cons] at hfuel
      have htail := htail (by omega)
      have hparse := parseValue_print fmt depth item fuel
        (',' :: (blankIf fmt ' ' ++ (composeItems fmt (printItems fmt depth (item' :: items)) ++
          ']' :: rest))) hall.1 (numberEnd_cons (by decide) _) (by omega)
      simp only [List.append_assoc, List.cons_append]
      rw [htext, List.cons_append] at hparse ⊢
      rw [parseItems, skip_cons hc, hparse]
      show (parseItems pow fuel _).bind _ = _
      rw [parseItems_blank pow (allBlank_blankIf fmt (by decide)), htail]
      rfl
  | [], _, _, hne, _, _ => absurd rfl hne
  | _ :: _, 0, _, _, _, hfuel => absurd hfuel (Nat.not_succ_le_zero _)

theorem parseMembers_print (fmt : Bool) (depth outer : ℕ) :
    ∀ (members : List (Str × Item)) (fuel : ℕ) (rest : Str),
      members ≠ [] → AllMembers (fun _ _ => True) IsString members →
        (composeMembers fmt depth (printMembers fmt depth members)).length + 1 ≤ fuel →
          parseMembers pow fuel (composeMembers fmt depth (printMembers fmt depth members) ++
              (tabs fmt outer ++ '}' :: rest)) =
            .ok (rereadMembers pow members) rest
  | [(name, item)], fuel + 1, rest, _, hall, hfuel => by
      obtain ⟨c, s, htext, hc, -⟩ := printValue_head fmt depth item
      rw [members_single] at hfuel ⊢
      simp only [composeMember, List.length_append] at hfuel
      have hend : NumberEnd (blankIf fmt '\n' ++ (tabs fmt outer ++ '}' :: rest)) := by
        cases fmt with
        | false => exact numberEnd_cons (by decide) rest
        | true => exact numberEnd_cons (by decide) _
      have hparse := parseValue_print fmt depth item fuel _ hall.2.1 hend (by omega)
      rw [List.append_assoc]
      show parseMembers pow (fuel + 1) (_ ++ (blankIf fmt '\n' ++ _)) = _
      rw [parseMembers_member pow fmt depth hall.1 ⟨c, s, htext, hc⟩ hparse, afterMember,
        skip_blank (allBlank_blankIf fmt (by decide)), skip_blank (allBlank_tabs fmt outer),
        skip_cons (by decide)]
      rfl
  | (name, item) :: (name', item') :: members, fuel + 1, rest, _, hall, hfuel => by
      obtain ⟨c, s, htext, hc, -⟩ := printValue_head fmt depth item
      have htail := parseMembers_print fmt depth outer ((name', item') :: members) fuel rest
        (List.cons_ne_nil _ members) hall.2.2
      rw [members_cons, spaced_eq] at hfuel ⊢
      simp only [composeMember, List.length_append, List.length_cons] at hfuel
      have htail := htail (by omega)
      have hparse := parseValue_print fmt depth item fuel
        (',' :: (blankIf fmt '\n' ++ (composeMembers fmt depth
          (printMembers fmt depth ((name', item') :: members)) ++ (tabs fmt outer ++ '}' :: rest))))
        hall.2.1 (numberEnd_cons (by decide) _) (by omega)
      simp only [List.append_assoc, List.cons_append]
      rw [parseMembers_member pow fmt depth hall.1 ⟨c, s, htext, hc⟩ hparse, afterMember,
        skip_cons (by decide)]
      show (parseMembers pow fuel _).bind _ = _
      rw [parseMembers_blank pow (allBlank_blankIf fmt (by decide)), htail]
      rfl
  | [], _, _, hne, _, _ => absurd rfl hne
  | _ :: _, 0, _, _, _, hfuel => absurd hfuel (Nat.not_succ_le_zero _)

end

/-! ### Items read back -/

/-- A number whose `valuedouble` is its `valueint`. -/
def IsIntNumber (valueint : ℤ) (valuedouble : ℚ) : Prop := valuedouble = valueint ∧ IsInt valueint

mutual

/-- Two items that differ in their numbers only, and in none that is an integer. -/
def Item.Like : Item → Item → Prop
  | .null, .null => True
  | .false, .false => True
  | .true, .true => True
  | .number i d, .number i' d' => IsIntNumber i d → i' = i ∧ d' = d
  | .string s, .string s' => s' = s
  | .array child, .array child' => LikeItems child child'
  | .object child, .object child' => LikeMembers child child'
  | _, _ => False

def LikeItems : List Item → List Item → Prop
  | [], [] => True
  | item :: items, item' :: items' => item.Like item' ∧ LikeItems items items'
  | _, _ => False

def LikeMembers : List (Str × Item) → List (Str × Item) → Prop
  | [], [] => True
  | (s, item) :: members, (s', item') :: members' =>
      s' = s ∧ item.Like item' ∧ LikeMembers members members'
  | _, _ => False

end

mutual

/-- Where all numbers are integers, it is the same item. -/
theorem Item.Like.eq {q : Str → Prop} : ∀ {item item' : Item},
    item.Like item' → item.All IsIntNumber q → item' = item
  | .null, .null, _, _ => rfl
  | .false, .false, _, _ => rfl
  | .true, .true, _, _ => rfl
  | .number i d, .number i' d', h, hall => by rw [(h hall).1, (h hall).2]
  | .string s, .string s', h, _ => congrArg Item.string h
  | .array child, .array child', h, hall => congrArg Item.array (LikeItems.eq h hall)
  | .object child, .object child', h, hall => congrArg Item.object (LikeMembers.eq h hall)

theorem LikeItems.eq {q : Str → Prop} : ∀ {items items' : List Item},
    LikeItems items items' → AllItems IsIntNumber q items → items' = items
  | [], [], _, _ => rfl
  | item :: items, item' :: items', h, hall => by
      rw [h.1.eq hall.1, LikeItems.eq h.2 hall.2]

theorem LikeMembers.eq {q : Str → Prop} : ∀ {members members' : List (Str × Item)},
    LikeMembers members members' → AllMembers IsIntNumber q members → members' = members
  | [], [], _, _ => rfl
  | (s, item) :: members, (s', item') :: members', h, hall => by
      rw [h.1, h.2.1.eq hall.2.1, LikeMembers.eq h.2.2 hall.2.2]

end

theorem reread_int (hpow : pow 0 = 1) {i : ℤ} {d : ℚ} (h : IsIntNumber i d) :
    reread pow i d = (i, d) := by
  obtain ⟨rfl, hlow, hhigh⟩ := h
  have hend : NumberEnd [] := fun c hc => by cases hc
  have htext : (printNumber i i).text = printDecimal i := by
    rw [printNumber]
    rcases eq_or_ne i 0 with rfl | hi
    · rw [if_pos (by simp)]
      rfl
    · have hlow' : ((-2 ^ 31 : ℤ) : ℚ) ≤ i := Int.cast_le.mpr hlow
      have hhigh' : (i : ℚ) ≤ ((2 ^ 31 - 1 : ℤ) : ℚ) := Int.cast_le.mpr (by omega)
      push_cast at hlow' hhigh'
      have hsame : toDouble ((i : ℚ) - i) = 0 := by
        rw [sub_self]
        rw [← Int.cast_zero, toDouble_int (by decide)]
      have hnear : |toDouble ((i : ℚ) - i)| ≤ dblEpsilon ∧ (i : ℚ) ≤ 2 ^ 31 - 1 ∧
          -2 ^ 31 ≤ (i : ℚ) := by
        refine ⟨?_, by linarith, hlow'⟩
        rw [hsame, abs_zero, dblEpsilon]
        positivity
      rw [if_neg (by exact_mod_cast hi), if_pos hnear]
  have hparse := parseNumber_int pow hpow hlow hhigh hend
  rw [List.append_nil] at hparse
  rw [reread, htext, hparse]

mutual

theorem like_reread (hpow : pow 0 = 1) : ∀ item : Item, item.Like (rereadItem pow item)
  | .null => trivial
  | .false => trivial
  | .true => trivial
  | .number i d => fun h => by
      rw [reread_int pow hpow h]
      exact ⟨rfl, rfl⟩
  | .string _ => rfl
  | .array child => likeItems_reread hpow child
  | .object child => likeMembers_reread hpow child

theorem likeItems_reread (hpow : pow 0 = 1) : ∀ items : List Item,
    LikeItems items (rereadItems pow items)
  | [] => trivial
  | item :: items => ⟨like_reread hpow item, likeItems_reread hpow items⟩

theorem likeMembers_reread (hpow : pow 0 = 1) : ∀ members : List (Str × Item),
    LikeMembers members (rereadMembers pow members)
  | [] => trivial
  | (_, item) :: members => ⟨rfl, like_reread hpow item, likeMembers_reread hpow members⟩

end

/-- What `cJSON_Print` or `cJSON_PrintUnformatted` makes of an item, `cJSON_Parse` makes the item
of it again, whatever stands behind it: the same tree with the same strings and the same integers,
and the item itself where all its numbers are integers. -/
theorem cJSONParse_print (hpow : pow 0 = 1) (fmt : Bool) {item : Item}
    (h : item.All (fun _ _ => True) IsString) {rest : Str} (hrest : NumberEnd rest) :
    ∃ item', cJSONParse pow ((printValue fmt 0 item).text ++ rest) = .ok item' rest ∧
      item.Like item' ∧ (item.All IsIntNumber IsString → item' = item) := by
  have hlike := like_reread pow hpow item
  refine ⟨rereadItem pow item, ?_, hlike, hlike.eq⟩
  obtain ⟨c, s, htext, hc, -⟩ := printValue_head fmt 0 item
  have hdepth : (printValue fmt 0 item).text.length ≤
      callDepth ((printValue fmt 0 item).text ++ rest) := by
    rw [callDepth, List.length_append]
    omega
  have hparse := parseValue_print pow fmt 0 item _ rest h hrest hdepth
  have hskip : skip ((printValue fmt 0 item).text ++ rest) =
      (printValue fmt 0 item).text ++ rest := by
    rw [htext, List.cons_append, skip_cons hc]
  rw [cJSONParse, cJSONParseWithOpts, hskip, hparse]
  rfl

end

/-- A message with an array of numbers, one of them a fraction. -/
def sampleItem : Item :=
  .object [("id".toList, .array [.number (-7) (-7), .number 0 (1 / 4)]),
    ("tag".toList, .string "\"\n".toList)]

/-- It stands in front of a line break. -/
theorem cJSONParse_print_message :
    ∃ item', cJSONParse (fun k => toDouble (10 ^ k))
        ((printValue true 0 sampleItem).text ++ ['\n']) = .ok item' ['\n'] ∧
      sampleItem.Like item' := by
  have hpow : toDouble (10 ^ (0 : ℤ)) = 1 := by
    rw [zpow_zero, ← Int.cast_one, toDouble_int (by decide)]
  have hall : sampleItem.All (fun _ _ => True) IsString :=
    ⟨by decide, ⟨trivial, trivial, trivial⟩, by decide,
      show IsString "\"\n".toList by decide, trivial⟩
  have hend : NumberEnd ['\n'] := numberEnd_cons (by decide) []
  obtain ⟨item', hparse, hlike, -⟩ :=
    cJSONParse_print (fun k => toDouble (10 ^ k)) hpow true hall hend
  exact ⟨item', hparse, hlike⟩

end PanelTester.Json
