import PanelTester.Ini.Parser

/-!
What `iniparser_load` makes of any file whose lines are not too long, those that go on in the next
one included. Each line is classified, and only what it is counts: no array is left, but for the
byte in front of `line` that a blank line makes it look at, the dictionary holds what the sections
and values set one after the other, and there is no dictionary exactly where the file ends without
a newline or its last line that is neither blank nor a comment is a syntax error
(`iniparserLoad_spec`). An error in front of a line that is good is forgotten, since `errs` is set
again there.
-/

namespace PanelTester.Ini

open Library

/-! ### The names are not longer than the line -/

theorem length_rdropWhile_le {α : Type*} (p : α → Bool) (s : List α) :
    (s.rdropWhile p).length ≤ s.length :=
  (List.rdropWhile_prefix p s).length_le

theorem length_strip_le (s : Str) : (strip s).length ≤ s.length :=
  (length_rdropWhile_le _ _).trans (List.dropWhile_suffix _).length_le

theorem length_strlwc_le (s : Str) : (strlwc s).length ≤ s.length := by
  rw [strlwc, List.length_map, List.length_take]
  exact min_le_right _ _

theorem length_scanset_le {p : Char → Bool} {s : Str} {r : Str × Str}
    (h : scanset p s = some r) : r.1.length ≤ s.length := by
  rw [scanset_eq_some h, List.length_append]
  exact Nat.le_add_right _ _

theorem length_scanKey_le {line : Str} {r : Str × Str} (h : scanKey line = some r) :
    r.1.length ≤ line.length := by
  obtain ⟨q, hq, hr⟩ := Option.bind_eq_some_iff.mp h
  split at hr
  · obtain rfl := Option.some.inj hr
    show q.1.length ≤ line.length
    exact length_scanset_le hq
  · exact absurd hr (by simp)

theorem length_scanQuoted_le {quote : Char} {line : Str} {r : Str × Str}
    (h : scanQuoted quote line = some r) : r.1.length ≤ line.length := by
  obtain ⟨q, hq, hr⟩ := Option.bind_eq_some_iff.mp h
  split at hr
  · exact absurd hr (by simp)
  · obtain ⟨-, hr⟩ := Option.ite_none_right_eq_some.mp hr
    obtain ⟨v, -, rfl⟩ := Option.map_eq_some_iff.mp hr
    show q.1.length ≤ line.length
    exact length_scanKey_le hq

theorem length_scanPlain_le {line : Str} {r : Str × Str} (h : scanPlain line = some r) :
    r.1.length ≤ line.length := by
  obtain ⟨q, hq, hr⟩ := Option.bind_eq_some_iff.mp h
  obtain ⟨v, -, rfl⟩ := Option.map_eq_some_iff.mp hr
  show q.1.length ≤ line.length
  exact length_scanKey_le hq

theorem length_scanComment_le {line key : Str} (h : scanComment line = some key) :
    key.length ≤ line.length := by
  obtain ⟨q, hq, hr⟩ := Option.bind_eq_some_iff.mp h
  obtain ⟨v, -, rfl⟩ := Option.map_eq_some_iff.mp hr
  exact length_scanKey_le hq

theorem length_scanBare_le {line key : Str} (h : scanBare line = some key) :
    key.length ≤ line.length := by
  obtain ⟨q, hq, hr⟩ := Option.bind_eq_some_iff.mp h
  obtain ⟨v, -, rfl⟩ := Option.map_eq_some_iff.mp hr
  exact length_scanset_le hq

/-- The name of a section or of a key is not longer than `n`. -/
def LineStatus.Short (n : ℕ) : LineStatus → Prop
  | .lineSection name => name.length ≤ n
  | .lineValue key _ => key.length ≤ n
  | _ => True

theorem iniparserLine_short {sectionName line : Str} {n : ℕ} (hsection : sectionName.length ≤ n)
    (hline : line.length ≤ n) : (iniparserLine sectionName line).Short n := by
  have hstrip : (strstrip line).length ≤ n := (length_strip_le line).trans hline
  have hname : ∀ s : Str, s.length ≤ n → (strlwc (strstrip s)).length ≤ n := fun s hs =>
    (length_strlwc_le _).trans ((length_strip_le s).trans hs)
  rw [iniparserLine]
  generalize strstrip line = line at hstrip
  split_ifs with hnil hsharp hbracket
  · trivial
  · trivial
  · apply hname
    cases hscan : scanset (· ≠ ']') line.tail with
    | none => exact hsection
    | some r =>
        have htail : line.tail.length ≤ line.length := by
          rw [List.length_tail]
          exact Nat.sub_le _ _
        exact (length_scanset_le hscan).trans (htail.trans hstrip)
  · dsimp only
    split
    · rename_i key value hvalue
      apply hname
      rcases Option.or_eq_some_iff.mp hvalue with hquoted | ⟨-, hplain⟩
      · rcases Option.or_eq_some_iff.mp hquoted with hdouble | ⟨-, hsingle⟩
        · exact (length_scanQuoted_le hdouble).trans hstrip
        · exact (length_scanQuoted_le hsingle).trans hstrip
      · exact (length_scanPlain_le hplain).trans hstrip
    · split
      · rename_i key hkey
        apply hname
        rcases Option.or_eq_some_iff.mp hkey with hcomment | ⟨-, hbare⟩
        · exact (length_scanComment_le hcomment).trans hstrip
        · exact (length_scanBare_le hbare).trans hstrip
      · trivial

/-! ### What a file says -/

/-- The last section, what was set, and whether a syntax error is left. -/
structure Reading where
  sectionName : Str
  entries : Entries
  failed : Bool

/-- What a line adds: a section or a value hides the errors before it. -/
def Reading.add (r : Reading) : LineStatus → Reading
  | .lineEmpty => r
  | .lineComment => r
  | .lineSection name => ⟨name, Function.update r.entries name (some none), false⟩
  | .lineValue key val =>
      ⟨r.sectionName,
        Function.update r.entries (r.sectionName ++ ':' :: key) (some (some val)), false⟩
  | .lineError => { r with failed := true }

def Reading.addLine (r : Reading) (line : Str) : Reading :=
  r.add (iniparserLine r.sectionName line)

/-- A line of the file behind the characters kept, without the blanks at its end. -/
def lineOf (kept w : Str) : Str := (kept ++ w).rdropWhile isSpace

/-- The lines put together: one that ends with a backslash goes on in the next, and is lost where
the file ends. -/
def joinLines : Str → List Str → List Str
  | _, [] => []
  | kept, w :: ws =>
      if (lineOf kept w).getLast? = some '\\' then joinLines (lineOf kept w).dropLast ws
      else lineOf kept w :: joinLines [] ws

/-- What the lines of a file say. -/
def Reading.ofLines (ws : List Str) : Reading :=
  (joinLines [] ws).foldl Reading.addLine ⟨[], fun _ => none, false⟩

/-- The longest line of which the name fits the array `tmp` behind another one. -/
def longestLine : ℕ := 2047

/-- No line gets longer, with those that go on in it. -/
def Fits : Str → List Str → Prop
  | _, [] => True
  | kept, w :: ws =>
      kept.length + w.length ≤ longestLine ∧
        if (lineOf kept w).getLast? = some '\\' then Fits (lineOf kept w).dropLast ws
        else Fits [] ws

theorem length_lineOf_le (kept w : Str) : (lineOf kept w).length ≤ kept.length + w.length :=
  (length_rdropWhile_le _ _).trans List.length_append.le

theorem mem_of_mem_lineOf {kept w : Str} {c : Char} (h : c ∈ lineOf kept w) : c ∈ kept ∨ c ∈ w :=
  List.mem_append.mp ((List.rdropWhile_prefix _ _).subset h)

/-- The variables of `iniparser_load` are what the lines say, of which there were `n`. -/
structure Load.Follows (l : Load) (r : Reading) (n : ℕ) : Prop where
  section_eq : l.sectionName = r.sectionName
  short : r.sectionName.length ≤ longestLine
  ok : l.dict.Ok
  map : l.dict.map = r.entries
  errs : 0 ≤ l.errs
  failed : r.failed = true ↔ l.errs ≠ 0
  few : l.dict.n ≤ n

theorem Load.follows_start : Load.start.Follows ⟨[], fun _ => none, false⟩ 0 where
  section_eq := rfl
  short := Nat.zero_le _
  ok := dictionaryNew_ok 0
  map := dictionaryNew_map 0
  errs := le_rfl
  failed := by simp [Load.start]
  few := le_rfl

variable {l : Load} {r : Reading} {n : ℕ}

/-- A key is stored, in a section whose name is short. -/
theorem Load.Follows.store (h : l.Follows r n) (hn : n < 2 ^ 28) {name : Str}
    (hname : name.length ≤ longestLine) (key : Str) (val : Option Str) :
    ∃ l', l.store name key val = .next l' ∧
      l'.Follows ⟨name, Function.update r.entries key (some val), false⟩ (n + 1) := by
  have hfew := h.few
  have hroom : l.dict.n < 2 ^ 28 := by
    have hcast : (n : ℤ) < 2 ^ 28 := by exact_mod_cast hn
    omega
  obtain ⟨d, hset, hok, hmap, hcount⟩ := dictionarySet_spec h.ok key val fun _ => hroom
  refine ⟨⟨d, name, [], 0⟩, ?_, ?_⟩
  · rw [Load.store, hset]
  · rw [← h.map]
    refine ⟨rfl, hname, hok, hmap, le_rfl, by simp, ?_⟩
    rw [hcount, Nat.cast_succ]
    split_ifs <;> omega

/-- One line. -/
theorem Load.Follows.put (h : l.Follows r n) (hn : n < 2 ^ 28) {status : LineStatus}
    (hstatus : status.Short longestLine) :
    ∃ l', l.put status = .next l' ∧ l'.Follows (r.add status) (n + 1) := by
  have hfew : l.dict.n ≤ (n + 1 : ℕ) := h.few.trans (by simp)
  cases status with
  | lineEmpty =>
      exact ⟨_, rfl, h.section_eq, h.short, h.ok, h.map, h.errs, h.failed, hfew⟩
  | lineComment =>
      exact ⟨_, rfl, h.section_eq, h.short, h.ok, h.map, h.errs, h.failed, hfew⟩
  | lineSection name => exact h.store hn hstatus name none
  | lineValue key val =>
      have hshort := h.short
      have hfits : (l.sectionName ++ ':' :: key).length < asciiLineSz + 1 := by
        have hkey : key.length ≤ longestLine := hstatus
        rw [h.section_eq, List.length_append, List.length_cons, asciiLineSz]
        rw [longestLine] at hshort hkey
        omega
      rw [Load.put, strcpy, if_pos hfits, h.section_eq]
      exact h.store hn h.short _ (some val)
  | lineError =>
      refine ⟨_, rfl, h.section_eq, h.short, h.ok, h.map, ?_, ?_, hfew⟩
      · exact Int.add_nonneg h.errs (by decide)
      · have herrs := h.errs
        simp only [Reading.add, true_iff]
        omega

/-- To look at the byte in front of `line` goes wrong: it counts as leaving the array, or a
backslash stands there. -/
def frontBad (front : Option Char) : Bool := front.all (· == '\\')

/-- A turn for a line of the file. -/
theorem loadTurn_piece (front : Option Char) {w : Str} (hw : nul ∉ w) (hkept : nul ∉ l.kept) :
    loadTurn front l (w ++ ['\n']) =
      if (lineOf l.kept w).getLast? = some '\\' then
        .next { l with kept := (lineOf l.kept w).dropLast }
      else if lineOf l.kept w = [] ∧ frontBad front then .outside
      else l.put (iniparserLine l.sectionName (lineOf l.kept w)) := by
  have huntil : untilNul (l.kept ++ (w ++ ['\n'])) = l.kept ++ w ++ ['\n'] := by
    rw [← List.append_assoc, untilNul_append (by simp [hkept, hw])]
    rfl
  have hstrip : (l.kept ++ w ++ ['\n']).rdropWhile isSpace = lineOf l.kept w :=
    List.rdropWhile_concat_pos _ _ _ rfl
  rw [loadTurn, huntil, List.getLast?_concat, Option.some_or]
  simp only [hstrip, ne_eq, not_true_eq_false, if_false]
  rcases eq_or_ne (lineOf l.kept w) [] with hnil | hne
  · cases front with
    | none => simp [hnil, frontBad]
    | some c =>
        by_cases hc : c = '\\'
        · simp [hnil, frontBad, hc]
        · simp [hnil, frontBad, hc]
  · obtain ⟨c, hc⟩ : ∃ c, (lineOf l.kept w).getLast? = some c :=
      ⟨_, List.getLast?_eq_some_getLast hne⟩
    simp [hc, hne]

theorem takeLine_ne_nil {n : ℕ} {s : Str} (hn : 0 < n) (hs : s ≠ []) : (takeLine n s).1 ≠ [] := by
  obtain ⟨c, s, rfl⟩ := List.exists_cons_of_ne_nil hs
  obtain ⟨n, rfl⟩ := Nat.exists_eq_succ_of_ne_zero hn.ne'
  rw [takeLine]
  split_ifs <;> exact List.cons_ne_nil _ _

/-- A last line without a newline. -/
theorem loadLoop_unended {front : Option Char} {tail : Str} (hne : tail ≠ [])
    (hnewline : '\n' ∉ tail) (hnul : nul ∉ tail) (hkept : nul ∉ l.kept)
    (hlen : l.kept.length ≤ longestLine) {fuel : ℕ} (hfuel : tail.length < fuel) :
    loadLoop front fuel l tail = some none := by
  obtain ⟨fuel, rfl⟩ := Nat.exists_eq_add_of_lt (Nat.zero_lt_of_lt hfuel)
  have hsize : 0 < asciiLineSz - l.kept.length - 1 := by
    rw [longestLine] at hlen
    rw [asciiLineSz]
    omega
  obtain ⟨got, hgot⟩ : ∃ got, takeLine (asciiLineSz - l.kept.length - 1) tail = got := ⟨_, rfl⟩
  have hsub : ∀ c ∈ got.1, c ∈ tail := by
    intro c hc
    rw [← takeLine_append_rest (asciiLineSz - l.kept.length - 1) tail, hgot]
    exact List.mem_append_left _ hc
  have hread : got.1 ≠ [] := hgot ▸ takeLine_ne_nil hsize hne
  have hline : untilNul (l.kept ++ got.1) = l.kept ++ got.1 := by
    apply untilNul_eq_self
    simpa [hkept] using fun hmem => hnul (hsub _ hmem)
  have hturn : loadTurn front l got.1 = .null := by
    rw [loadTurn, hline, List.getLast?_append_of_ne_nil _ hread,
      List.getLast?_eq_some_getLast hread, Option.some_or]
    have hmem := hsub _ (List.getLast_mem hread)
    exact if_pos fun heq : got.1.getLast hread = '\n' => hnewline (heq ▸ hmem)
  rw [Nat.zero_add, loadLoop, fgets, if_neg hne, hgot]
  simp only [hturn]

/-- What the loop gives, when the lines `ws` are put together behind what `r` says: no result where
it has to look in front of `line` and that goes wrong, no dictionary where the file ends without a
newline or an error is left, and else what the lines say. -/
def Gives (front : Option Char) (kept : Str) (r : Reading) (ws : List Str) (tail : Str)
    (out : Option (Option Dictionary)) : Prop :=
  (out = none ↔ [] ∈ joinLines kept ws ∧ frontBad front = true) ∧
    ∀ ini, out = some ini →
      (ini = none ↔ tail ≠ [] ∨ ((joinLines kept ws).foldl Reading.addLine r).failed = true) ∧
      ∀ d, ini = some d → d.Ok ∧ d.map = ((joinLines kept ws).foldl Reading.addLine r).entries

/-- The loop, from any state that follows the lines before. -/
theorem Load.Follows.loop (front : Option Char) (ws : List Str)
    (hws : ∀ w ∈ ws, '\n' ∉ w ∧ nul ∉ w) {tail : Str} (hnewline : '\n' ∉ tail) (hnul : nul ∉ tail)
    (h : l.Follows r n) (hfits : Fits l.kept ws) (hkept : nul ∉ l.kept)
    (hlen : l.kept.length ≤ longestLine) (hn : n + ws.length ≤ 2 ^ 28) {fuel : ℕ}
    (hfuel : (fileOf ws ++ tail).length < fuel) :
    Gives front l.kept r ws tail (loadLoop front fuel l (fileOf ws ++ tail)) := by
  induction ws generalizing l r n fuel with
  | nil =>
      rcases eq_or_ne tail [] with rfl | hne
      · obtain ⟨fuel, rfl⟩ := Nat.exists_eq_add_of_lt hfuel
        have hout : loadLoop front ((fileOf [] ++ []).length + fuel + 1) l (fileOf [] ++ []) =
            some (if l.errs ≠ 0 then none else some l.dict) := rfl
        rw [hout]
        refine ⟨by simp [joinLines], ?_⟩
        rintro ini ⟨rfl⟩
        refine ⟨?_, ?_⟩
        · show _ ↔ _ ∨ r.failed = true
          rw [h.failed]
          simp
        · intro d hd
          obtain ⟨-, hd⟩ := Option.ite_none_left_eq_some.mp hd
          obtain rfl := Option.some.inj hd
          exact ⟨h.ok, h.map⟩
      · have hout : loadLoop front fuel l (fileOf [] ++ tail) = some none :=
          loadLoop_unended hne hnewline hnul hkept hlen hfuel
        rw [hout]
        refine ⟨by simp [joinLines], ?_⟩
        rintro ini ⟨rfl⟩
        simp [hne]
  | cons w ws ih =>
      obtain ⟨⟨hline, hw⟩, hws⟩ := List.forall_mem_cons.mp hws
      obtain ⟨hsum, hfits⟩ := hfits
      rw [fileOf_cons, List.append_assoc, List.length_append, List.cons_append,
        List.length_cons] at hfuel
      rw [List.length_cons] at hn
      obtain ⟨fuel, rfl⟩ := Nat.exists_eq_add_of_lt (Nat.zero_lt_of_lt hfuel)
      have hleft : (fileOf ws ++ tail).length < fuel := by omega
      have hsize : w.length + 2 ≤ asciiLineSz - l.kept.length := by
        rw [longestLine] at hsum
        rw [asciiLineSz]
        omega
      rw [fileOf_cons, List.append_assoc, List.cons_append, Nat.zero_add, loadLoop,
        fgets_line hline hsize]
      simp only [loadTurn_piece front hw hkept]
      have hlong := (length_lineOf_le l.kept w).trans hsum
      have hnul' : nul ∉ lineOf l.kept w := fun hmem =>
        (mem_of_mem_lineOf hmem).elim hkept hw
      rw [Gives, joinLines]
      split_ifs at hfits ⊢ with hend hblank
      · show Gives front _ r ws tail (if l.errs < 0 then _ else _)
        rw [if_neg (Int.not_lt.mpr h.errs)]
        have hlen' : (lineOf l.kept w).dropLast.length ≤ longestLine :=
          (List.dropLast_prefix _).length_le.trans hlong
        have hkept' : nul ∉ (lineOf l.kept w).dropLast := fun hmem =>
          hnul' ((List.dropLast_prefix _).subset hmem)
        have hnext : Load.Follows { l with kept := (lineOf l.kept w).dropLast } r n :=
          ⟨h.section_eq, h.short, h.ok, h.map, h.errs, h.failed, h.few⟩
        exact ih hws hnext hfits hkept' hlen' (by omega) hleft
      · exact ⟨by simp [hblank], by simp⟩
      · have hshort : (iniparserLine l.sectionName (lineOf l.kept w)).Short longestLine := by
          rw [h.section_eq]
          exact iniparserLine_short h.short hlong
        obtain ⟨l', hput, hnext⟩ := h.put (by omega) hshort
        have hempty := (Load.put_next hput h.errs).1
        rw [h.section_eq] at hnext
        simp only [hput]
        rw [if_neg (Int.not_lt.mpr hnext.errs)]
        have hloop := ih hws hnext (by rwa [hempty]) (by simp [hempty]) (by simp [hempty])
          (by omega) hleft
        rw [hempty] at hloop
        obtain ⟨hnone, hsome⟩ := hloop
        refine ⟨?_, hsome⟩
        rw [hnone, List.mem_cons, or_and_right, or_iff_right]
        exact fun hboth => hblank ⟨hboth.1.symm, hboth.2⟩

/-- What `iniparser_load` makes of a file: it leaves its arrays exactly where a line is blank and
the byte in front of `line` is not one to be read, or a backslash. -/
theorem iniparserLoad_spec (front : Option Char) {ws : List Str} {tail : Str}
    (hws : ∀ w ∈ ws, '\n' ∉ w ∧ nul ∉ w) (hfits : Fits [] ws) (hfew : ws.length ≤ 2 ^ 28)
    (hnewline : '\n' ∉ tail) (hnul : nul ∉ tail) :
    (iniparserLoad front (some (fileOf ws ++ tail)) = none ↔
      [] ∈ joinLines [] ws ∧ ∀ c ∈ front, c = '\\') ∧
    ∀ ini, iniparserLoad front (some (fileOf ws ++ tail)) = some ini →
      (ini = none ↔ tail ≠ [] ∨ (Reading.ofLines ws).failed = true) ∧
      ∀ d, ini = some d → ∀ key, dictionaryGet d key = (Reading.ofLines ws).entries key := by
  obtain ⟨hnone, hsome⟩ := Load.follows_start.loop front ws hws hnewline hnul hfits
    (by simp [Load.start]) (Nat.zero_le _) (by omega) (Nat.lt_succ_self _)
  have hbad : frontBad front = true ↔ ∀ c ∈ front, c = '\\' := by
    simp [frontBad, Option.all_eq_true]
  rw [hbad] at hnone
  refine ⟨hnone, fun ini hini => ?_⟩
  obtain ⟨hnull, hentries⟩ := hsome ini hini
  refine ⟨hnull, fun d hd key => ?_⟩
  obtain ⟨hok, hmap⟩ := hentries d hd
  rw [dictionaryGet_eq hok, hmap]
  rfl

/-- An error is forgotten behind a value, which goes on in a second line here; the byte in front of
`line` is not looked at, as no line is blank. -/
theorem iniparserLoad_spec_hidden :
    ∃ d, iniparserLoad none (some "[a]\nbad\nK = \\\n1 # note\n".toList) = some (some d) ∧
      dictionaryGet d ['a', ':', 'k'] = some (some ['1']) := by
  have hws : ∀ w ∈ ["[a]".toList, "bad".toList, "K = \\".toList, "1 # note".toList],
      '\n' ∉ w ∧ nul ∉ w := by
    simp [nul]
  have hfits : Fits [] ["[a]".toList, "bad".toList, "K = \\".toList, "1 # note".toList] := by
    simp [Fits, lineOf, longestLine, isSpace, List.rdropWhile]
  obtain ⟨hnone, hsome⟩ := iniparserLoad_spec none hws hfits (by decide)
    List.not_mem_nil List.not_mem_nil
  have hblank : [] ∉ joinLines []
      ["[a]".toList, "bad".toList, "K = \\".toList, "1 # note".toList] := by
    simp [joinLines, lineOf, isSpace, List.rdropWhile]
  obtain ⟨ini, hload⟩ := Option.ne_none_iff_exists'.mp fun h => hblank (hnone.mp h).1
  obtain ⟨hnull, hget⟩ := hsome ini hload
  have hne : ini ≠ none := by
    intro h
    rcases hnull.mp h with hne | hfailed
    · exact hne rfl
    · exact Bool.false_ne_true hfailed
  obtain ⟨d, rfl⟩ := Option.ne_none_iff_exists'.mp hne
  exact ⟨d, hload, by rw [hget d rfl]; rfl⟩

end PanelTester.Ini
