import PanelTester.Json.RoundTrip

/-!
`cJSON_Minify` removes blanks and comments. The model reads one text and gives another: every turn
writes no more characters than it reads, so that the two can share their memory. On what
`cJSON_Print` makes of an item it gives what `cJSON_PrintUnformatted` makes of it
(`cJSONMinify_print`): the blanks are those of the format, and what stands in strings is kept.
-/

namespace PanelTester.Json

open Library

/-- Which loop of `cJSON_Minify` goes on. -/
inductive Scan
  | text
  | line
  | block
  | string

/-- `cJSON_Minify`, from one of its loops on. A comment or a string that is not closed leads over
the terminating zero. -/
def minifyLoop : Scan → Str → Option Str
  | .text, [] => some []
  | .text, c :: json =>
      if c = ' ' ∨ c = '\t' ∨ c = '\r' ∨ c = '\n' then minifyLoop .text json
      else if c = '/' ∧ json.head? = some '/' then minifyLoop .line json
      else if c = '/' ∧ json.head? = some '*' then minifyLoop .block json
      else if c = '"' then (minifyLoop .string json).map (c :: ·)
      else (minifyLoop .text json).map (c :: ·)
  | .line, [] => some []
  | .line, c :: json => if c = '\n' then minifyLoop .text json else minifyLoop .line json
  | .block, [] => none
  | .block, [_] => none
  | .block, c :: d :: json =>
      if c = '*' ∧ d = '/' then minifyLoop .text json else minifyLoop .block (d :: json)
  | .string, [] => none
  | .string, c :: json =>
      if c = '"' then (minifyLoop .text json).map (c :: ·)
      else if c = '\\' then
        match json with
        | [] => none
        | d :: json => (minifyLoop .string json).map fun s => c :: d :: s
      else (minifyLoop .string json).map (c :: ·)

/-- `cJSON_Minify` -/
def cJSONMinify (json : Str) : Option Str := minifyLoop .text json

/-- Of this text `u` is left, whatever stands behind it. -/
def Leaves (t u : Str) : Prop :=
  ∀ json, minifyLoop .text (t ++ json) = (minifyLoop .text json).map (u ++ ·)

theorem leaves_nil : Leaves [] [] := by
  intro json
  simp

theorem Leaves.append {t u t' u' : Str} (h : Leaves t u) (h' : Leaves t' u') :
    Leaves (t ++ t') (u ++ u') := by
  intro json
  rw [List.append_assoc, h, h', Option.map_map]
  congr 1
  funext s
  exact (List.append_assoc u u' s).symm

/-- A character that `cJSON_Minify` copies. -/
def Copied (c : Char) : Prop := c ∉ [' ', '\t', '\r', '\n', '/', '"']

theorem leaves_copied {t : Str} (h : ∀ c ∈ t, Copied c) : Leaves t t := by
  induction t with
  | nil => exact leaves_nil
  | cons c t ih =>
      intro json
      have hc := h c List.mem_cons_self
      simp only [Copied, List.mem_cons, List.not_mem_nil, or_false, not_or] at hc
      obtain ⟨hspace, htab, hreturn, hnewline, hslash, hquote⟩ := hc
      rw [List.cons_append, minifyLoop, if_neg (by simp [hspace, htab, hreturn, hnewline]),
        if_neg (by simp [hslash]), if_neg (by simp [hslash]), if_neg hquote,
        ih (fun c hc => h c (List.mem_cons_of_mem _ hc)), Option.map_map]
      rfl

theorem leaves_blank {t : Str} (h : ∀ c ∈ t, c = '\t' ∨ c = '\n' ∨ c = ' ') : Leaves t [] := by
  induction t with
  | nil => exact leaves_nil
  | cons c t ih =>
      intro json
      have hblank : c = ' ' ∨ c = '\t' ∨ c = '\r' ∨ c = '\n' := by
        rcases h c List.mem_cons_self with rfl | rfl | rfl <;> simp
      rw [List.cons_append, minifyLoop, if_pos hblank]
      exact ih (fun c hc => h c (List.mem_cons_of_mem _ hc)) json

theorem leaves_tabs (fmt : Bool) (n : ℕ) : Leaves (tabs fmt n) [] := by
  apply leaves_blank
  intro c hc
  rw [tabs] at hc
  split_ifs at hc
  · exact .inl (List.eq_of_mem_replicate hc)
  · exact absurd hc List.not_mem_nil

/-- Of a character and the blank behind it the character is left. -/
theorem leaves_spaced (fmt : Bool) {c blank : Char} (hc : Copied c)
    (hblank : blank = '\t' ∨ blank = '\n' ∨ blank = ' ') : Leaves (spaced fmt c blank) [c] := by
  have hfirst : Leaves [c] [c] := leaves_copied (by simpa using hc)
  cases fmt with
  | false => exact hfirst
  | true => exact hfirst.append (leaves_blank (by simpa using hblank))

/-! ### Strings and numbers -/

/-- Inside of a string this text stays, whatever stands behind it. -/
def Kept (t : Str) : Prop :=
  ∀ json, minifyLoop .string (t ++ json) = (minifyLoop .string json).map (t ++ ·)

theorem kept_nil : Kept [] := by
  intro json
  simp

theorem Kept.append {t u : Str} (h : Kept t) (h' : Kept u) : Kept (t ++ u) := by
  intro json
  rw [List.append_assoc, h, h', Option.map_map]
  congr 1
  funext s
  exact (List.append_assoc t u s).symm

theorem kept_plain {c : Char} (hc : c ≠ '"' ∧ c ≠ '\\') : Kept [c] := by
  intro json
  rw [List.singleton_append, minifyLoop.eq_def]
  dsimp only
  rw [if_neg hc.1, if_neg hc.2]
  rfl

/-- A backslash keeps the character behind it. -/
theorem kept_pair (d : Char) : Kept ['\\', d] := by
  intro json
  show minifyLoop .string ('\\' :: d :: json) = _
  rw [minifyLoop.eq_def]
  rfl

theorem kept_all {t : Str} (h : ∀ c ∈ t, c ≠ '"' ∧ c ≠ '\\') : Kept t := by
  induction t with
  | nil => exact kept_nil
  | cons c t ih =>
      exact (kept_plain (h c List.mem_cons_self)).append
        (ih fun c hc => h c (List.mem_cons_of_mem _ hc))

theorem kept_escape (c : Char) : Kept (escape c) := by
  rw [escape]
  split_ifs with hplain
  · exact kept_plain hplain.2
  · cases letterOf c with
    | some letter => exact kept_pair letter
    | none =>
        apply (kept_pair 'u').append (kept_all _)
        intro d hd
        obtain ⟨m, hm, rfl⟩ := List.mem_map.mp hd
        have hlt : m < 16 := by
          simp only [List.mem_cons, List.not_mem_nil, or_false] at hm
          omega
        exact ne_of_digitValue ⟨m, hlt, isDigits_lower.value m hlt⟩

theorem kept_flatMap_escape (str : Str) : Kept (str.flatMap escape) := by
  induction str with
  | nil => exact kept_nil
  | cons c str ih =>
      rw [List.flatMap_cons]
      exact (kept_escape c).append ih

/-- A string of what stays is left as it is. -/
theorem leaves_quoted {t : Str} (h : Kept t) :
    Leaves ('"' :: (t ++ ['"'])) ('"' :: (t ++ ['"'])) := by
  intro json
  have hopen : minifyLoop .text ('"' :: (t ++ '"' :: json)) =
      (minifyLoop .string (t ++ '"' :: json)).map ('"' :: ·) := rfl
  have hend : minifyLoop .string ('"' :: json) = (minifyLoop .text json).map ('"' :: ·) := by
    rw [minifyLoop.eq_def]
    rfl
  rw [List.cons_append, List.append_assoc, List.singleton_append, hopen, h, hend,
    Option.map_map, Option.map_map]
  congr 1
  funext s
  simp

theorem leaves_string (str : Str) :
    Leaves (printStringPtr str).text (printStringPtr str).text := by
  rw [printStringPtr]
  split_ifs with hflag
  · exact leaves_quoted (kept_flatMap_escape str)
  · apply leaves_quoted (kept_all _)
    intro c hc
    have hnot : ¬ flagged c := fun h => hflag (List.any_eq_true.mpr ⟨c, hc, h⟩)
    simp only [flagged, Bool.or_eq_true, decide_eq_true_eq, not_or] at hnot
    exact ⟨hnot.1.2, hnot.2⟩

/-- The characters of numbers. -/
def InNumber (c : Char) : Prop := isDigitChar c ∨ c ∈ ['-', '+', '.', 'e']

theorem copied_of_inNumber {c : Char} (h : InNumber c) : Copied c := by
  rcases h with h | h
  · intro hmem
    have hall : [' ', '\t', '\r', '\n', '/', '"'].all (fun d => !isDigitChar d) := rfl
    simpa [h] using List.all_eq_true.mp hall c hmem
  · intro hmem
    have hall : ['-', '+', '.', 'e'].all fun d =>
      !decide (d ∈ [' ', '\t', '\r', '\n', '/', '"']) := rfl
    simpa [hmem] using List.all_eq_true.mp hall c h

theorem inNumber_printNumber (valueint : ℤ) (d : ℚ) :
    ∀ c ∈ (printNumber valueint d).text, InNumber c := by
  have hsign : ∀ (p : Prop) [Decidable p], ∀ c ∈ (if p then ['-'] else []), InNumber c := by
    intro p _ c hc
    split_ifs at hc
    · obtain rfl := List.mem_singleton.mp hc
      exact .inr (by decide)
    · exact absurd hc List.not_mem_nil
  have hnat : ∀ n : ℕ, ∀ c ∈ printDecimal (n : ℤ), InNumber c := fun n c hc =>
    .inl (allDigits_printDecimal n c hc)
  have hfixed : ∀ k n : ℕ, ∀ c ∈ fixedDigits k n, InNumber c := fun k n c hc =>
    .inl (allDigits_fixedDigits k n c hc)
  have hint : ∀ i : ℤ, ∀ c ∈ printDecimal i, InNumber c := by
    intro i c hc
    rw [printDecimal_eq] at hc
    exact (List.mem_append.mp hc).elim (hsign _ c) (hnat _ c)
  have hexponent : ∀ e : ℤ, ∀ c ∈ printExponent e, InNumber c := by
    intro e c hc
    rw [printExponent] at hc
    rcases List.mem_cons.mp hc with rfl | hc
    · split_ifs
      · exact .inr (by decide)
      · exact .inr (by decide)
    · split_ifs at hc
      · exact hfixed _ _ c hc
      · exact hint _ c hc
  have hdot : InNumber '.' := .inr (by decide)
  have he : InNumber 'e' := .inr (by decide)
  intro c hc
  rw [printNumber] at hc
  split_ifs at hc
  · obtain rfl := List.mem_singleton.mp hc
    exact .inl rfl
  · exact hint _ c hc
  · exact hint _ c hc
  · simp only [printScientific, printSign, List.mem_append, List.mem_cons] at hc
    rcases hc with ((hc | hc) | hc | hc) | hc | hc
    · exact hsign _ c hc
    · exact hfixed _ _ c hc
    · exact hc ▸ hdot
    · exact hfixed _ _ c hc
    · exact hc ▸ he
    · exact hexponent _ c hc
  · simp only [printFixed, printSign, List.mem_append, List.mem_cons] at hc
    rcases hc with (hc | hc) | hc | hc
    · exact hsign _ c hc
    · exact hnat _ c hc
    · exact hc ▸ hdot
    · exact hfixed _ _ c hc

/-! ### Items -/

/-- Of a name and its value those of the unformatted text are left. -/
theorem leaves_member (fmt : Bool) (depth depth' : ℕ) (name : Str) {value value' : Block}
    (h : Leaves value.text value'.text) :
    Leaves (composeMember fmt depth (printStringPtr name, value))
      (composeMember false depth' (printStringPtr name, value')) :=
  (((leaves_tabs fmt depth).append (leaves_string name)).append
    (leaves_spaced fmt (by simp [Copied]) (by simp))).append h

mutual

/-- Of a formatted value the unformatted one is left. -/
theorem leaves_value (fmt : Bool) : ∀ (item : Item) (depth depth' : ℕ),
    Leaves (printValue fmt depth item).text (printValue false depth' item).text
  | .null, _, _ => leaves_copied (by simp [printValue, cJSONStrdup, Copied])
  | .false, _, _ => leaves_copied (by simp [printValue, cJSONStrdup, Copied])
  | .true, _, _ => leaves_copied (by simp [printValue, cJSONStrdup, Copied])
  | .number i d, _, _ =>
      leaves_copied fun c hc => copied_of_inNumber (inNumber_printNumber i d c hc)
  | .string str, _, _ => leaves_string str
  | .array child, depth, depth' => by
      rw [printValue, printValue, printArray_text, printArray_text]
      have hopen : Leaves ['['] ['['] := leaves_copied (by simp [Copied])
      have hclose : Leaves [']'] [']'] := leaves_copied (by simp [Copied])
      exact (hopen.append (leaves_items fmt child (depth + 1) (depth' + 1))).append hclose
  | .object [], depth, depth' => by
      rw [printValue, printValue, printMembers, printMembers, printObject, printObject, if_pos rfl,
        if_pos rfl]
      have hclose : Leaves ['}'] ['}'] := leaves_copied (by simp [Copied])
      exact ((leaves_spaced fmt (by simp [Copied]) (by simp)).append (leaves_tabs fmt _)).append
        hclose
  | .object ((name, item) :: members), depth, depth' => by
      have hne : ∀ fmt depth, printMembers fmt depth ((name, item) :: members) ≠ [] := by
        intro fmt depth
        rw [printMembers]
        exact List.cons_ne_nil _ _
      rw [printValue, printValue, printObject, printObject, if_neg (hne _ _), if_neg (hne _ _)]
      have hclose : Leaves ['}'] ['}'] := leaves_copied (by simp [Copied])
      exact (((leaves_spaced fmt (by simp [Copied]) (by simp)).append
        (leaves_members fmt ((name, item) :: members) (depth + 1) (depth' + 1))).append
          (leaves_tabs fmt depth)).append hclose

theorem leaves_items (fmt : Bool) : ∀ (items : List Item) (depth depth' : ℕ),
    Leaves (composeItems fmt (printItems fmt depth items))
      (composeItems false (printItems false depth' items))
  | [], _, _ => leaves_nil
  | [item], depth, depth' => leaves_value fmt item depth depth'
  | item :: item' :: items, depth, depth' => by
      have htail := leaves_items fmt (item' :: items) depth depth'
      rw [items_cons, items_cons]
      exact ((leaves_value fmt item depth depth').append
        (leaves_spaced fmt (by simp [Copied]) (by simp))).append htail

theorem leaves_members (fmt : Bool) : ∀ (members : List (Str × Item)) (depth depth' : ℕ),
    Leaves (composeMembers fmt depth (printMembers fmt depth members))
      (composeMembers false depth' (printMembers false depth' members))
  | [], _, _ => leaves_nil
  | [(name, item)], depth, depth' => by
      have hmember := leaves_member fmt depth depth' name (leaves_value fmt item depth depth')
      rw [members_single, members_single]
      cases fmt with
      | false => exact hmember.append leaves_nil
      | true => exact hmember.append (leaves_blank (by simp))
  | (name, item) :: (name', item') :: members, depth, depth' => by
      have htail := leaves_members fmt ((name', item') :: members) depth depth'
      have hmember := leaves_member fmt depth depth' name (leaves_value fmt item depth depth')
      rw [members_cons, members_cons]
      exact (hmember.append (leaves_spaced fmt (by simp [Copied]) (by simp))).append htail

end

/-- `cJSON_Minify` makes the unformatted text of the formatted one. -/
theorem cJSONMinify_print (item : Item) :
    cJSONMinify (cJSONPrint item) = some (cJSONPrintUnformatted item) := by
  have h := leaves_value true item 0 0 []
  rw [List.append_nil] at h
  rw [cJSONMinify, cJSONPrint, h, minifyLoop, Option.map_some, List.append_nil]
  rfl

end PanelTester.Json
