import Mathlib.Tactic
import Mathlib.Data.List.DropRight
import Mathlib.Data.Bool.AllAny

/-!
The string functions of C on lists of characters. A string is what stands before the
terminating zero. `readLines` is a loop of `fgets` over a file, `textLines` the lines of
the file; they agree when the lines fit the buffer (`readLines_eq_textLines`).
-/

namespace PanelTester.Library

abbrev Str := List Char

/-- What stands before the terminating zero. -/
def untilNul (s : Str) : Str := s.takeWhile fun c => c ≠ Char.ofNat 0

/-- `strncmp` with the whole of `lit` is zero. -/
def startsWith (lit : String) (s : Str) : Bool := lit.toList.isPrefixOf s

/-- `strcmp` with `lit` is zero. -/
def equals (lit : String) (s : Str) : Bool := s = lit.toList

/-- `strstr` finds `lit`. -/
def contains (lit : String) (s : Str) : Bool := decide (lit.toList <:+: s)

/-- The string once a zero was written where `strstr` finds `lit`, if it does. -/
def before (lit : String) : Str → Str
  | [] => []
  | c :: s => if lit.toList.isPrefixOf (c :: s) then [] else c :: before lit s

/-- `strcpy` to an array of `size` characters, which has no result when it leaves the array. -/
def strcpy (size : ℕ) (s : Str) : Option Str := if s.length < size then some s else none

theorem strcpy_eq {size : ℕ} {s : Str} (h : s.length < size) : strcpy size s = some s := if_pos h

theorem strcpy_eq_none {size : ℕ} {s : Str} (h : ¬ s.length < size) : strcpy size s = none :=
  if_neg h

/-- `strcat` to an array of `size` characters, which has no result when it leaves the array. -/
def strcat (size : ℕ) (s t : Str) : Option Str :=
  if (s ++ t).length < size then some (s ++ t) else none

/-- What `strtok` gives one after the other. -/
def strtok (sep : Char) (s : Str) : List Str := (s.splitOn sep).filter fun t => !t.isEmpty

/-! ### Reading lines -/

/-- At most `n` characters, up to and with the first newline, and the rest. -/
def takeLine : ℕ → Str → Str × Str
  | 0, s => ([], s)
  | _ + 1, [] => ([], [])
  | n + 1, c :: s =>
      if c = '\n' then ([c], s)
      else
        let r := takeLine n s
        (c :: r.1, r.2)

/-- `fgets` with a buffer of `size` characters; nothing is read at the end of the file. -/
def fgets (size : ℕ) (file : Str) : Option (Str × Str) :=
  if file = [] then none else some (takeLine (size - 1) file)

/-- `n` calls of `fgets` at most. -/
def readLinesLoop (size : ℕ) : ℕ → Str → List Str
  | 0, _ => []
  | n + 1, file =>
      match fgets size file with
      | none => []
      | some (line, rest) => line :: readLinesLoop size n rest

/-- What `fgets` reads until the end of the file; every call takes a character. -/
def readLines (size : ℕ) (file : Str) : List Str := readLinesLoop size file.length file

/-- The lines of a file, each with its newline. -/
def textLines : Str → List Str
  | [] => []
  | c :: s =>
      if c = '\n' then [c] :: textLines s
      else
        match textLines s with
        | [] => [[c]]
        | line :: lines => (c :: line) :: lines

/-! ### Numbers -/

/-- `isspace` -/
def isSpace (c : Char) : Bool :=
  c = ' ' || c = '\t' || c = '\n' || c = Char.ofNat 11 || c = Char.ofNat 12 || c = '\r'

def digitValue (c : Char) : Option ℕ :=
  if '0' ≤ c ∧ c ≤ '9' then some (c.toNat - '0'.toNat)
  else if 'a' ≤ c ∧ c ≤ 'z' then some (c.toNat - 'a'.toNat + 10)
  else if 'A' ≤ c ∧ c ≤ 'Z' then some (c.toNat - 'A'.toNat + 10)
  else none

/-- The digits of a base at the front of a string, behind those read already. -/
def readDigits (base : ℕ) : ℕ → Str → ℕ
  | n, [] => n
  | n, c :: s =>
      match digitValue c with
      | none => n
      | some d => if d < base then readDigits base (n * base + d) s else n

/-- The digits of a number begin with `0x`. -/
def hexMarked (s : Str) : Bool :=
  match s with
  | '0' :: x :: d :: _ => (x = 'x' || x = 'X') && (digitValue d).any (· < 16)
  | _ => false

/-- The number behind the sign. -/
def readNumber (base : ℕ) (s : Str) : ℕ :=
  if (base = 0 ∨ base = 16) ∧ hexMarked s then readDigits 16 0 (s.drop 2)
  else if base = 0 then if s.head? = some '0' then readDigits 8 0 s else readDigits 10 0 s
  else readDigits base 0 s

/-- `strtol` with a `long` of 32 bits. -/
def strtol (s : Str) (base : ℕ) : ℤ :=
  match s.dropWhile isSpace with
  | '-' :: t => max (-2 ^ 31) (-(readNumber base t : ℤ))
  | '+' :: t => min (2 ^ 31 - 1) (readNumber base t : ℤ)
  | t => min (2 ^ 31 - 1) (readNumber base t : ℤ)

/-- The digits of `%x` and of `%X`. -/
def lowerDigits : Str := "0123456789abcdef".toList

def upperDigits : Str := "0123456789ABCDEF".toList

/-- A byte printed by `%02x` or `%02X`. -/
def printHex (digits : Str) (b : UInt8) : Str :=
  [digits.getD (b.toNat / 16) '0', digits.getD (b.toNat % 16) '0']

/-- A number printed by `%d`. -/
def printDecimal (i : ℤ) : Str :=
  (if i < 0 then ['-'] else []) ++
    if i = 0 then ['0'] else ((Nat.digits 10 i.natAbs).map fun d => lowerDigits.getD d '0').reverse

/-! ### Lines -/

theorem takeLine_append_rest (n : ℕ) (s : Str) : (takeLine n s).1 ++ (takeLine n s).2 = s := by
  induction n generalizing s with
  | zero => rfl
  | succ n ih =>
      cases s with
      | nil => rfl
      | cons c s =>
          rw [takeLine]
          split
          · rfl
          · simp [ih s]

theorem length_takeLine_le (n : ℕ) (s : Str) : (takeLine n s).1.length ≤ n := by
  induction n generalizing s with
  | zero => simp [takeLine]
  | succ n ih =>
      cases s with
      | nil => simp [takeLine]
      | cons c s =>
          rw [takeLine]
          split
          · simp
          · simpa using ih s

/-- Without a newline the buffer is what ends the line. -/
theorem takeLine_of_not_mem {s : Str} (h : '\n' ∉ s) (n : ℕ) :
    takeLine n s = (s.take n, s.drop n) := by
  induction n generalizing s with
  | zero => rfl
  | succ n ih =>
      cases s with
      | nil => rfl
      | cons c s =>
          obtain ⟨hc, hs⟩ := not_or.mp (mt List.mem_cons.mpr h)
          rw [takeLine, if_neg fun heq => hc heq.symm, ih hs]
          rfl

/-- A call of `fgets` takes a character. -/
theorem takeLine_rest_lt {n : ℕ} (hn : 0 < n) {s : Str} (hs : s ≠ []) :
    (takeLine n s).2.length < s.length := by
  obtain ⟨n, rfl⟩ := Nat.exists_eq_succ_of_ne_zero hn.ne'
  obtain ⟨c, s, rfl⟩ := List.exists_cons_of_ne_nil hs
  have hlen := congrArg List.length (takeLine_append_rest n s)
  rw [List.length_append] at hlen
  rw [takeLine]
  split
  · simp
  · simp only [List.length_cons]
    omega

theorem readLinesLoop_fuel {size : ℕ} (hsize : 2 ≤ size) (n : ℕ) :
    ∀ {s : Str}, s.length ≤ n → readLinesLoop size n s = readLinesLoop size s.length s := by
  induction n using Nat.strong_induction_on with
  | _ n ih =>
      intro s hs
      cases n with
      | zero =>
          obtain rfl : s = [] := List.eq_nil_of_length_eq_zero (by omega)
          rfl
      | succ n =>
          by_cases hnil : s = []
          · subst hnil
            rfl
          · obtain ⟨m, hm⟩ := Nat.exists_eq_succ_of_ne_zero
              (show s.length ≠ 0 by simpa using hnil)
            have hlt := takeLine_rest_lt (n := size - 1) (by omega) hnil
            rw [hm, readLinesLoop, readLinesLoop, fgets, if_neg hnil]
            simp only
            rw [ih n (by omega) (by omega)]
            by_cases hmn : m < n + 1
            · rw [ih m hmn (by omega)]
            · omega

theorem readLines_nil (size : ℕ) : readLines size [] = [] := rfl

/-- A loop of `fgets` reads a line and goes on behind it. -/
theorem readLines_of_ne_nil {size : ℕ} (hsize : 2 ≤ size) {s : Str} (hs : s ≠ []) :
    readLines size s = (takeLine (size - 1) s).1 :: readLines size (takeLine (size - 1) s).2 := by
  have hlt := takeLine_rest_lt (n := size - 1) (by omega) hs
  rw [readLines]
  obtain ⟨m, hm⟩ := Nat.exists_eq_succ_of_ne_zero (show s.length ≠ 0 by simpa using hs)
  rw [hm, readLinesLoop, fgets, if_neg hs]
  simp only
  rw [readLinesLoop_fuel hsize m (by omega), readLines]

/-- The first line of a file, when it fits. -/
theorem takeLine_of_textLines {n : ℕ} {s line : Str} {lines : List Str}
    (h : textLines s = line :: lines) (hfit : line.length ≤ n) :
    (takeLine n s).1 = line ∧ textLines (takeLine n s).2 = lines := by
  induction n generalizing s line lines with
  | zero =>
      cases s with
      | nil => simp [textLines] at h
      | cons c s =>
          rw [textLines] at h
          split at h
          · obtain ⟨rfl, -⟩ := List.cons.inj h
            simp at hfit
          · split at h
            · obtain ⟨rfl, -⟩ := List.cons.inj h
              simp at hfit
            · obtain ⟨rfl, -⟩ := List.cons.inj h
              simp at hfit
  | succ n ih =>
      cases s with
      | nil => simp [textLines] at h
      | cons c s =>
          rw [textLines] at h
          rw [takeLine]
          split at h
          · rename_i hc
            obtain ⟨rfl, rfl⟩ := List.cons.inj h
            rw [if_pos hc]
            exact ⟨rfl, rfl⟩
          · rename_i hc
            rw [if_neg hc]
            split at h
            · rename_i hnil
              obtain ⟨rfl, rfl⟩ := List.cons.inj h
              have hs : s = [] := by
                cases s with
                | nil => rfl
                | cons d t =>
                    rw [textLines] at hnil
                    split at hnil
                    · simp at hnil
                    · split at hnil <;> simp at hnil
              subst hs
              cases n <;> exact ⟨rfl, rfl⟩
            · rename_i line' lines' hlines
              obtain ⟨rfl, rfl⟩ := List.cons.inj h
              obtain ⟨hfirst, hrest⟩ := ih hlines (by simpa using hfit)
              exact ⟨congrArg (c :: ·) hfirst, hrest⟩

theorem textLines_eq_nil {s : Str} (h : textLines s = []) : s = [] := by
  cases s with
  | nil => rfl
  | cons c s =>
      rw [textLines] at h
      split at h
      · simp at h
      · split at h <;> simp at h

/-- Lines that fit the buffer are read one by one. -/
theorem readLines_eq_textLines {size : ℕ} (hsize : 2 ≤ size) {s : Str}
    (hfit : ∀ line ∈ textLines s, line.length ≤ size - 1) : readLines size s = textLines s := by
  generalize hlines : textLines s = lines at hfit
  induction lines generalizing s with
  | nil => rw [textLines_eq_nil hlines, readLines_nil]
  | cons line lines ih =>
      obtain ⟨hline, hrest⟩ := takeLine_of_textLines hlines (hfit line List.mem_cons_self)
      have hs : s ≠ [] := by
        rintro rfl
        simp [textLines] at hlines
      rw [readLines_of_ne_nil hsize hs, hline,
        ih hrest fun l hl => hfit l (List.mem_cons_of_mem line hl)]

/-! ### Tokens -/

theorem before_isPrefix (lit : String) (s : Str) : before lit s <+: s := by
  induction s with
  | nil => exact List.prefix_refl _
  | cons c s ih =>
      rw [before]
      split
      · exact List.nil_prefix
      · exact (List.prefix_cons_inj c).mpr ih

/-- No zero is left in a string. -/
theorem nul_not_mem_untilNul (s : Str) : Char.ofNat 0 ∉ untilNul s := fun h => by
  simpa using List.mem_takeWhile_imp h

theorem before_eq_self {lit : String} {s : Str} {c : Char} (hc : c ∈ lit.toList) (hs : c ∉ s) :
    before lit s = s := by
  induction s with
  | nil => rfl
  | cons d s ih =>
      rw [before, if_neg, ih fun h => hs (List.mem_cons_of_mem _ h)]
      intro hprefix
      exact hs ((List.isPrefixOf_iff_prefix.mp hprefix).subset hc)

/-- A string has at most one token for each character, and one more. -/
theorem length_strtok_le (sep : Char) (s : Str) : (strtok sep s).length ≤ s.length + 1 := by
  apply (List.length_filter_le _ _).trans
  rw [List.splitOn]
  induction s with
  | nil => simp [List.splitOnP_nil]
  | cons c s ih =>
      rw [List.splitOnP_cons_eq_if_modifyHead]
      split
      · simpa using ih
      · rw [List.length_modifyHead]
        exact ih.trans (Nat.le_succ _)

/-- Tokens are made of the characters of the string, in their order. -/
theorem sublist_of_mem_strtok {sep : Char} {s t : Str} (h : t ∈ strtok sep s) : t.Sublist s := by
  replace h := List.mem_of_mem_filter h
  rw [List.splitOn] at h
  induction s generalizing t with
  | nil =>
      rw [List.splitOnP_nil, List.mem_singleton] at h
      exact h ▸ List.Sublist.refl _
  | cons c s ih =>
      obtain ⟨first, rest, hsplit⟩ := List.exists_cons_of_ne_nil
        (List.splitOnP_ne_nil (· == sep) s)
      rw [List.splitOnP_cons_eq_if_modifyHead] at h
      rw [hsplit] at h ih
      split at h
      · rcases List.mem_cons.mp h with rfl | h
        · exact List.nil_sublist _
        · exact (ih h).cons c
      · rcases List.mem_cons.mp h with rfl | h
        · exact (ih List.mem_cons_self).cons_cons c
        · exact (ih (List.mem_cons_of_mem first h)).cons c

/-- The tokens behind the first. -/
theorem strtok_append (sep : Char) {t s : Str} (ht : sep ∉ t) (hne : t ≠ []) :
    strtok sep (t ++ sep :: s) = t :: strtok sep s := by
  have hsplit : (t ++ sep :: s).splitOn sep = t :: s.splitOn sep :=
    List.splitOnP_append_cons_of_forall_mem
      (fun c hc => by simpa using fun h : c = sep => ht (h ▸ hc)) sep (by simp) s
  rw [strtok, hsplit, List.filter_cons_of_pos (by simpa using hne), strtok]

theorem strtok_single (sep : Char) {t : Str} (ht : sep ∉ t) (hne : t ≠ []) :
    strtok sep t = [t] := by
  have hsplit : t.splitOn sep = [t] :=
    List.splitOnP_eq_singleton fun c hc => by simpa using fun h : c = sep => ht (h ▸ hc)
  rw [strtok, hsplit, List.filter_cons_of_pos (by simpa using hne)]
  rfl

/-! ### Printed numbers -/

/-- The digits of both cases. -/
def hexChars : Str := lowerDigits ++ upperDigits

/-- What both tables of digits have in common. -/
structure IsDigits (digits : Str) : Prop where
  value : ∀ n < 16, digitValue (digits.getD n '0') = some n
  mem : ∀ n < 16, digits.getD n '0' ∈ hexChars

theorem isDigits_lower : IsDigits lowerDigits := ⟨by decide, by decide⟩

theorem isDigits_upper : IsDigits upperDigits := ⟨by decide, by decide⟩

theorem mem_printHex {digits : Str} (h : IsDigits digits) {b : UInt8} {c : Char}
    (hc : c ∈ printHex digits b) : c ∈ hexChars := by
  have hlt := b.toNat_lt
  rcases List.mem_pair.mp hc with rfl | rfl
  · exact h.mem _ (by omega)
  · exact h.mem _ (Nat.mod_lt _ (by decide))

/-- A printed byte is read back. -/
theorem strtol_printHex {digits : Str} (h : IsDigits digits) (b : UInt8) :
    strtol (printHex digits b) 16 = b.toNat := by
  have hlt := b.toNat_lt
  have hhigh : b.toNat / 16 < 16 := by omega
  have hlow : b.toNat % 16 < 16 := Nat.mod_lt _ (by decide)
  have hvisible : ∀ c ∈ hexChars, ¬ isSpace c ∧ c ≠ '-' ∧ c ≠ '+' :=
    List.all_iff_forall_prop.mp (by decide)
  obtain ⟨hspace, hminus, hplus⟩ := hvisible _ (h.mem _ hhigh)
  have hmark : hexMarked (printHex digits b) = false := by
    rw [printHex, hexMarked]
    simp
  have hnumber : readNumber 16 (printHex digits b) = b.toNat := by
    rw [readNumber, if_neg (by simp [hmark]), if_neg (by decide), printHex]
    simp only [readDigits, h.value _ hhigh, h.value _ hlow, hhigh, hlow, if_true]
    omega
  have hdrop : (printHex digits b).dropWhile isSpace = printHex digits b := by
    rw [printHex, List.dropWhile_cons_of_neg hspace]
  rw [strtol, hdrop]
  split
  · rename_i t ht
    rw [printHex, List.cons.injEq] at ht
    exact absurd ht.1 hminus
  · rename_i t ht
    rw [printHex, List.cons.injEq] at ht
    exact absurd ht.1 hplus
  · rw [hnumber]
    omega

theorem readDigits_append {base d : ℕ} {c : Char} (hbase : d < base) (hc : digitValue c = some d)
    {s : Str} (hs : ∀ c ∈ s, ∃ d < base, digitValue c = some d) (n : ℕ) :
    readDigits base n (s ++ [c]) = readDigits base n s * base + d := by
  induction s generalizing n with
  | nil => simp [readDigits, hc, hbase]
  | cons c' s ih =>
      obtain ⟨d', hd', hc'⟩ := hs c' List.mem_cons_self
      simp only [List.cons_append, readDigits, hc', if_pos hd']
      exact ih (fun c hmem => hs c (List.mem_cons_of_mem _ hmem)) _

/-- The digits of a number, the first one last, are read back. -/
theorem readDigits_decimal (ds : List ℕ) (hds : ∀ d ∈ ds, d < 10) :
    readDigits 10 0 (ds.map fun d => lowerDigits.getD d '0').reverse = Nat.ofDigits 10 ds := by
  have hvalue : ∀ d < 10, digitValue (lowerDigits.getD d '0') = some d := fun d hd =>
    isDigits_lower.value d (by omega)
  induction ds with
  | nil => rfl
  | cons d ds ih =>
      have hd := hds d List.mem_cons_self
      have hrest : ∀ d ∈ ds, d < 10 := fun d hmem => hds d (List.mem_cons_of_mem _ hmem)
      rw [List.map_cons, List.reverse_cons, readDigits_append hd (hvalue d hd), ih hrest,
        Nat.ofDigits_cons]
      · exact Nat.add_comm _ _ |>.trans (by rw [Nat.mul_comm])
      · intro c hc
        obtain ⟨d', hmem, rfl⟩ := List.mem_map.mp (List.mem_reverse.mp hc)
        exact ⟨d', hrest d' hmem, hvalue d' (hrest d' hmem)⟩

/-- The digits of a number that is not 0 do not look like anything else. -/
theorem readNumber_decimal {n : ℕ} (hn : n ≠ 0) :
    ∃ c s, ((Nat.digits 10 n).map fun d => lowerDigits.getD d '0').reverse = c :: s ∧
      ¬ isSpace c ∧ c ≠ '-' ∧ c ≠ '+' ∧ readNumber 0 (c :: s) = n := by
  have hne : Nat.digits 10 n ≠ [] := Nat.digits_ne_nil_iff_ne_zero.mpr hn
  have hlast := Nat.getLast_digit_ne_zero 10 hn
  have hlt : (Nat.digits 10 n).getLast hne < 10 :=
    Nat.digits_lt_base (by decide) (List.getLast_mem hne)
  obtain ⟨s, hs⟩ : ∃ s, ((Nat.digits 10 n).map fun d => lowerDigits.getD d '0').reverse =
      lowerDigits.getD ((Nat.digits 10 n).getLast hne) '0' :: s := by
    refine ⟨((Nat.digits 10 n).dropLast.map fun d => lowerDigits.getD d '0').reverse, ?_⟩
    conv_lhs => rw [← List.dropLast_append_getLast hne]
    rw [List.map_append, List.reverse_append]
    rfl
  have hchar : ∀ d < 10, d ≠ 0 → ¬ isSpace (lowerDigits.getD d '0') ∧
      lowerDigits.getD d '0' ≠ '-' ∧ lowerDigits.getD d '0' ≠ '+' ∧
        lowerDigits.getD d '0' ≠ '0' := by
    decide
  obtain ⟨hspace, hminus, hplus, hzero⟩ := hchar _ hlt hlast
  generalize lowerDigits.getD ((Nat.digits 10 n).getLast hne) '0' = c at *
  refine ⟨c, s, hs, hspace, hminus, hplus, ?_⟩
  have hmark : hexMarked (c :: s) = false := by
    rw [hexMarked]
    intro x d tail heq
    exact hzero (List.cons.inj heq).1
  have hhead : ¬ (c :: s).head? = some '0' := fun heq => hzero (Option.some.inj heq)
  rw [readNumber, if_neg (fun hmarked => Bool.false_ne_true (hmark.symm.trans hmarked.2)),
    if_pos rfl,
    if_neg hhead, ← hs, readDigits_decimal _ fun d hd => Nat.digits_lt_base (by decide) hd,
    Nat.ofDigits_digits]

/-- A number printed in decimal is read back, whatever its notation is to be. -/
theorem strtol_printDecimal {i : ℤ} (hlow : -2 ^ 31 ≤ i) (hhigh : i < 2 ^ 31) :
    strtol (printDecimal i) 0 = i := by
  rcases eq_or_ne i 0 with rfl | hi
  · decide
  · obtain ⟨c, s, hs, hspace, hminus, hplus, hread⟩ :=
      readNumber_decimal (Int.natAbs_ne_zero.mpr hi)
    rw [printDecimal, if_neg hi, hs]
    by_cases hneg : i < 0
    · rw [if_pos hneg, strtol, List.cons_append, List.nil_append,
        List.dropWhile_cons_of_neg (by decide)]
      show max (-2 ^ 31) (-(readNumber 0 (c :: s) : ℤ)) = i
      rw [hread]
      omega
    · rw [if_neg hneg, List.nil_append, strtol, List.dropWhile_cons_of_neg hspace]
      split
      · rename_i heq
        exact absurd (List.cons.inj heq).1 hminus
      · rename_i heq
        exact absurd (List.cons.inj heq).1 hplus
      · rw [hread]
        omega

end PanelTester.Library
