import PanelTester.Library.Double

/-!
The items of `cJSON.c` and the text that `print_value` makes of them without a buffer: it prints
the children first, adds up what they need, and then composes them in one block of that many
characters (`printValue_fits`). Failing allocations are left out.
-/

namespace PanelTester.Json

open Library

/-- `cJSON`, by its `type`. The items of an object are its children with their `string`. A double
is the rational number that it stands for; infinities are left out. -/
inductive Item
  | null
  | false
  | true
  | number (valueint : ℤ) (valuedouble : ℚ)
  | string (valuestring : Str)
  | array (child : List Item)
  | object (child : List (Str × Item))

/-- What `cJSON_malloc` was asked for, and the string that was written there. -/
structure Block where
  size : ℕ
  text : Str

/-- The string has room in its block, with the terminating zero. -/
def Block.Fits (b : Block) : Prop := b.text.length < b.size

/-- `cJSON_strdup` -/
def cJSONStrdup (str : Str) : Block := ⟨str.length + 1, str⟩

/-! ### Numbers and strings -/

/-- `DBL_EPSILON` -/
def dblEpsilon : ℚ := 1 / 2 ^ 52

/-- `print_number`. The differences and the constants are doubles. -/
def printNumber (valueint : ℤ) (d : ℚ) : Block :=
  if d = 0 then ⟨2, "0".toList⟩
  else if |toDouble (valueint - d)| ≤ dblEpsilon ∧ d ≤ 2 ^ 31 - 1 ∧ -2 ^ 31 ≤ d then
    ⟨21, printDecimal valueint⟩
  else if |toDouble (⌊d⌋ - d)| ≤ dblEpsilon ∧ |d| < toDouble (10 ^ 60) then
    ⟨64, printDecimal (roundEven d)⟩
  else if |d| < toDouble (1 / 10 ^ 6) ∨ toDouble (10 ^ 9) < |d| then ⟨64, printScientific d⟩
  else ⟨64, printFixed d⟩

/-- The characters that `print_string_ptr` escapes by a letter, and the letters. -/
def letterOf (token : Char) : Option Char :=
  if token = '\\' then some '\\'
  else if token = '"' then some '"'
  else if token = Char.ofNat 8 then some 'b'
  else if token = Char.ofNat 12 then some 'f'
  else if token = '\n' then some 'n'
  else if token = '\r' then some 'r'
  else if token = '\t' then some 't'
  else none

/-- `%04x` -/
def printHex4 (n : ℕ) : Str :=
  [n / 4096 % 16, n / 256 % 16, n / 16 % 16, n % 16].map fun d => lowerDigits.getD d '0'

/-- What `print_string_ptr` writes for a character. -/
def escape (token : Char) : Str :=
  if 31 < token.toNat ∧ token ≠ '"' ∧ token ≠ '\\' then [token]
  else
    match letterOf token with
    | some letter => ['\\', letter]
    | none => '\\' :: 'u' :: printHex4 token.toNat

/-- What `print_string_ptr` counts for a character. -/
def escapedLen (token : Char) : ℕ :=
  if (letterOf token).isSome then 2 else if token.toNat < 32 then 6 else 1

/-- A string that has this character is written with escapes. -/
def flagged (c : Char) : Bool := (0 < c.toNat && c.toNat < 32) || c = '"' || c = '\\'

/-- `print_string_ptr` -/
def printStringPtr (str : Str) : Block :=
  if str.any flagged then
    ⟨(str.map escapedLen).sum + 3, '"' :: (str.flatMap escape ++ ['"'])⟩
  else ⟨str.length + 3, '"' :: (str ++ ['"'])⟩

/-! ### Arrays and objects -/

/-- A text of one or two characters, the second one only when the text is formatted. -/
def spaced (fmt : Bool) (c blank : Char) : Str := if fmt then [c, blank] else [c]

/-- The entries of an array one after the other. -/
def composeItems (fmt : Bool) : List Block → Str
  | [] => []
  | [e] => e.text
  | e :: f :: es => e.text ++ spaced fmt ',' ' ' ++ composeItems fmt (f :: es)

/-- `print_array`, once its entries are printed. -/
def printArray (fmt : Bool) (entries : List Block) : Block :=
  if entries = [] then ⟨3, "[]".toList⟩
  else
    ⟨5 + (entries.map fun ret => ret.text.length + 2 + if fmt then 1 else 0).sum,
      '[' :: (composeItems fmt entries ++ [']'])⟩

def tabs (fmt : Bool) (n : ℕ) : Str := if fmt then List.replicate n '\t' else []

/-- One entry of an object: its name and its value. -/
def composeMember (fmt : Bool) (depth : ℕ) (e : Block × Block) : Str :=
  tabs fmt depth ++ e.1.text ++ spaced fmt ':' '\t' ++ e.2.text

/-- The entries of an object one after the other. -/
def composeMembers (fmt : Bool) (depth : ℕ) : List (Block × Block) → Str
  | [] => []
  | [e] => composeMember fmt depth e ++ if fmt then ['\n'] else []
  | e :: f :: es =>
      composeMember fmt depth e ++ spaced fmt ',' '\n' ++ composeMembers fmt depth (f :: es)

/-- `print_object`, once its entries are printed. -/
def printObject (fmt : Bool) (depth : ℕ) (entries : List (Block × Block)) : Block :=
  if entries = [] then
    ⟨if fmt then depth + 4 else 3, spaced fmt '{' '\n' ++ tabs fmt (depth - 1) ++ ['}']⟩
  else
    ⟨7 + (if fmt then depth + 1 else 0) +
        (entries.map fun e => e.2.text.length + e.1.text.length + 2 +
          if fmt then 2 + (depth + 1) else 0).sum,
      spaced fmt '{' '\n' ++ composeMembers fmt (depth + 1) entries ++ tabs fmt depth ++ ['}']⟩

mutual

/-- `print_value` without a buffer. -/
def printValue (fmt : Bool) (depth : ℕ) : Item → Block
  | .null => cJSONStrdup "null".toList
  | .false => cJSONStrdup "false".toList
  | .true => cJSONStrdup "true".toList
  | .number valueint valuedouble => printNumber valueint valuedouble
  | .string valuestring => printStringPtr valuestring
  | .array child => printArray fmt (printItems fmt (depth + 1) child)
  | .object child => printObject fmt depth (printMembers fmt (depth + 1) child)

/-- The entries of an array. -/
def printItems (fmt : Bool) (depth : ℕ) : List Item → List Block
  | [] => []
  | item :: items => printValue fmt depth item :: printItems fmt depth items

/-- The names and entries of an object. -/
def printMembers (fmt : Bool) (depth : ℕ) : List (Str × Item) → List (Block × Block)
  | [] => []
  | (string, item) :: members =>
      (printStringPtr string, printValue fmt depth item) :: printMembers fmt depth members

end

theorem items_cons (fmt : Bool) (depth : ℕ) (item item' : Item) (items : List Item) :
    composeItems fmt (printItems fmt depth (item :: item' :: items)) =
      (printValue fmt depth item).text ++ spaced fmt ',' ' ' ++
        composeItems fmt (printItems fmt depth (item' :: items)) := rfl

theorem members_single (fmt : Bool) (depth : ℕ) (name : Str) (item : Item) :
    composeMembers fmt depth (printMembers fmt depth [(name, item)]) =
      composeMember fmt depth (printStringPtr name, printValue fmt depth item) ++
        if fmt then ['\n'] else [] := rfl

theorem members_cons (fmt : Bool) (depth : ℕ) (name name' : Str) (item item' : Item)
    (members : List (Str × Item)) :
    composeMembers fmt depth (printMembers fmt depth ((name, item) :: (name', item') :: members)) =
      composeMember fmt depth (printStringPtr name, printValue fmt depth item) ++
        spaced fmt ',' '\n' ++
          composeMembers fmt depth (printMembers fmt depth ((name', item') :: members)) := rfl

/-- `cJSON_Print` -/
def cJSONPrint (item : Item) : Str := (printValue true 0 item).text

/-- `cJSON_PrintUnformatted` -/
def cJSONPrintUnformatted (item : Item) : Str := (printValue false 0 item).text

/-! ### What all numbers and strings of an item meet -/

mutual

/-- All numbers of an item meet `p`, and all its strings and names meet `q`. -/
def Item.All (p : ℤ → ℚ → Prop) (q : Str → Prop) : Item → Prop
  | .number valueint valuedouble => p valueint valuedouble
  | .string valuestring => q valuestring
  | .array child => AllItems p q child
  | .object child => AllMembers p q child
  | _ => True

def AllItems (p : ℤ → ℚ → Prop) (q : Str → Prop) : List Item → Prop
  | [] => True
  | item :: items => item.All p q ∧ AllItems p q items

def AllMembers (p : ℤ → ℚ → Prop) (q : Str → Prop) : List (Str × Item) → Prop
  | [] => True
  | (string, item) :: members => q string ∧ item.All p q ∧ AllMembers p q members

end

/-- A value of type `int`. -/
def IsInt (i : ℤ) : Prop := -2 ^ 31 ≤ i ∧ i < 2 ^ 31

instance (i : ℤ) : Decidable (IsInt i) := inferInstanceAs (Decidable (_ ∧ _))

/-- A finite value of type `double`, as far as its exponent goes. -/
def IsDouble (d : ℚ) : Prop := d = 0 ∨ 1 / 2 ^ 1074 ≤ |d| ∧ |d| < 2 ^ 1024

/-- `valueint` and `valuedouble` of an item as C can hold them. -/
def IsNumber (valueint : ℤ) (valuedouble : ℚ) : Prop := IsInt valueint ∧ IsDouble valuedouble

/-- An `int` and the `double` that it is converted to. -/
theorem isNumber_int {i : ℤ} (h : IsInt i) : IsNumber i (i : ℚ) := by
  refine ⟨h, ?_⟩
  rcases eq_or_ne i 0 with rfl | hi
  · exact .inl (by simp)
  · have hone : (1 : ℚ) ≤ |(i : ℚ)| := by exact_mod_cast Int.one_le_abs hi
    have hmax : |(i : ℚ)| < 2 ^ 32 := by
      have habs : |i| < 2 ^ 32 := abs_lt.mpr ⟨by linarith [h.1], by linarith [h.2]⟩
      exact_mod_cast habs
    refine .inr ⟨?_, lt_of_lt_of_le hmax (pow_le_pow_right₀ (by norm_num) (by decide))⟩
    refine le_trans ?_ hone
    rw [div_le_one (by positivity)]
    exact one_le_pow₀ (by norm_num)

/-! ### Every text fits its block -/

theorem length_printSign_le (d : ℚ) : (printSign d).length ≤ 1 := by
  rw [printSign]
  split_ifs <;> decide

/-- The exponent of a double has three digits at most. -/
theorem natAbs_scientific_lt {d : ℚ} (hd : IsDouble d) (hne : d ≠ 0) :
    (scientific d).2.natAbs < 10 ^ 3 := by
  obtain ⟨hlow, hhigh⟩ := hd.resolve_left hne
  have hpos : (0 : ℚ) < |d| := abs_pos.mpr hne
  have hnat : 2 ^ 1024 ≤ 10 ^ 400 ∧ 2 ^ 1074 ≤ 10 ^ 400 := by decide +kernel
  have hlower : (-400 : ℤ) ≤ Int.log 10 |d| := by
    rw [← Int.zpow_le_iff_le_log (by decide) hpos]
    refine le_trans ?_ hlow
    rw [zpow_neg, one_div]
    exact inv_anti₀ (by positivity) (by exact_mod_cast hnat.2)
  have hupper : Int.log 10 |d| < 400 := by
    rw [← Int.lt_zpow_iff_log_lt (by decide) hpos]
    exact lt_of_lt_of_le hhigh (by exact_mod_cast hnat.1)
  rw [scientific]
  split_ifs
  · omega
  · omega

theorem length_printExponent_le {e : ℤ} (he : e.natAbs < 10 ^ 3) :
    (printExponent e).length ≤ 4 := by
  have hlen := length_printDecimal_le (by decide) he
  rw [printExponent, List.length_cons]
  split_ifs
  · rw [length_fixedDigits]
    decide
  · omega

/-- The bounds of `print_number`: the first is no power of ten as a double. -/
theorem toDouble_bounds : toDouble (10 ^ 60) ≤ 2 * 10 ^ 60 ∧ toDouble (10 ^ 9) = 10 ^ 9 := by
  constructor
  · have hround := (abs_le.mp (abs_toDouble_sub_le (q := 10 ^ 60) (by norm_num))).2
    rw [abs_of_pos (by norm_num)] at hround
    linarith
  · have hcast : ((10 ^ 9 : ℤ) : ℚ) = 10 ^ 9 := by push_cast; rfl
    rw [← hcast]
    exact toDouble_int (by norm_num)

theorem printNumber_fits {i : ℤ} {d : ℚ} (h : IsNumber i d) : (printNumber i d).Fits := by
  obtain ⟨⟨hlow, hhigh⟩, hdouble⟩ := h
  obtain ⟨hlarge, hlimit⟩ := toDouble_bounds
  rw [printNumber, Block.Fits]
  split_ifs with hzero hint hwhole hexp
  · decide
  · have hlen := length_printDecimal_int_le (i := i) (k := 10) (by decide) (by omega)
    simp only
    omega
  · -- the number is rounded down, so that it has at most one digit more
    have hround := abs_le.mp (abs_roundEven_sub_le d)
    obtain ⟨hneg, hpos⟩ := abs_lt.mp (hwhole.2.trans_le hlarge)
    have hbound : (roundEven d).natAbs < 10 ^ 61 := by
      have h1 : (roundEven d : ℚ) < (10 ^ 61 : ℤ) := by push_cast; linarith
      have h2 : ((-(10 ^ 61) : ℤ) : ℚ) < roundEven d := by push_cast; linarith
      have h1' : roundEven d < 10 ^ 61 := by exact_mod_cast h1
      have h2' : -(10 ^ 61) < roundEven d := by exact_mod_cast h2
      omega
    have hlen := length_printDecimal_int_le (by decide) hbound
    simp only
    omega
  · have hsign := length_printSign_le d
    have hlen := length_printExponent_le (natAbs_scientific_lt hdouble hzero)
    simp only [printScientific, List.length_append, List.length_cons, length_fixedDigits]
    omega
  · have hsign := length_printSign_le d
    have habs : |d| ≤ 10 ^ 9 := hlimit ▸ not_lt.mp (not_or.mp hexp).2
    have hmillionths : millionths d / 10 ^ 6 < 10 ^ 10 := by
      have hround := (abs_le.mp (abs_millionths_sub_le d)).2
      have h1 : (millionths d : ℚ) < (10 ^ 16 : ℕ) := by push_cast; linarith
      have h1' : millionths d < 10 ^ 16 := by exact_mod_cast h1
      omega
    have hlen := length_printDecimal_le (by decide) hmillionths
    simp only [printFixed, List.length_append, List.length_cons, length_fixedDigits]
    omega

/-- No more is written for a character than was counted. -/
theorem length_escape (c : Char) : (escape c).length ≤ escapedLen c := by
  rw [escape, escapedLen]
  rcases hletter : letterOf c with _ | letter
  · -- the quotes and the backslash have letters, so that the others are below 32
    have hquote : c ≠ '"' := by
      rintro rfl
      exact Option.some_ne_none _ hletter
    have hslash : c ≠ '\\' := by
      rintro rfl
      exact Option.some_ne_none _ hletter
    rw [if_neg (show ¬ (none : Option Char).isSome by decide)]
    rcases Nat.lt_or_ge 31 c.toNat with hc | hc
    · rw [if_pos ⟨hc, hquote, hslash⟩, if_neg (by omega)]
      exact le_rfl
    · rw [if_neg (by omega), if_pos (by omega)]
      exact le_rfl
  · rw [if_pos (show (some letter).isSome by rfl)]
    split_ifs
    · exact Nat.le_succ 1
    · exact le_rfl

theorem printStringPtr_fits (str : Str) : (printStringPtr str).Fits := by
  rw [printStringPtr, Block.Fits]
  split_ifs
  · have hlen : (str.flatMap escape).length ≤ (str.map escapedLen).sum := by
      rw [List.length_flatMap]
      exact List.sum_le_sum fun c _ => length_escape c
    simp only [List.length_cons, List.length_append, List.length_nil]
    omega
  · simp only [List.length_cons, List.length_append, List.length_nil]
    omega

@[simp] theorem length_spaced (fmt : Bool) (c blank : Char) :
    (spaced fmt c blank).length = 1 + if fmt then 1 else 0 := by
  rw [spaced]
  split_ifs <;> rfl

@[simp] theorem length_tabs (fmt : Bool) (n : ℕ) :
    (tabs fmt n).length = if fmt then n else 0 := by
  rw [tabs]
  split_ifs
  · exact List.length_replicate
  · rfl

theorem length_composeItems_le (fmt : Bool) (entries : List Block) :
    (composeItems fmt entries).length ≤
      (entries.map fun ret => ret.text.length + 2 + if fmt then 1 else 0).sum := by
  induction entries using composeItems.induct with
  | case1 => simp [composeItems]
  | case2 e =>
      simp only [composeItems, List.map_cons, List.map_nil, List.sum_cons, List.sum_nil]
      omega
  | case3 e f es ih =>
      rw [composeItems, List.map_cons, List.sum_cons, List.length_append, List.length_append,
        length_spaced]
      omega

theorem printArray_fits (fmt : Bool) (entries : List Block) : (printArray fmt entries).Fits := by
  rw [printArray, Block.Fits]
  rcases eq_or_ne entries [] with rfl | hne
  · rw [if_pos rfl]
    decide
  · have hlen := length_composeItems_le fmt entries
    rw [if_neg hne]
    simp only [List.length_cons, List.length_append, List.length_nil]
    omega

theorem length_composeMembers_le (fmt : Bool) (depth : ℕ) (entries : List (Block × Block)) :
    (composeMembers fmt depth entries).length ≤
      (entries.map fun e => e.2.text.length + e.1.text.length + 2 +
        if fmt then 2 + depth else 0).sum := by
  have hmember : ∀ e : Block × Block, (composeMember fmt depth e).length =
      e.2.text.length + e.1.text.length + 1 + if fmt then 1 + depth else 0 := by
    intro e
    simp only [composeMember, List.length_append, length_spaced, length_tabs]
    split_ifs <;> omega
  induction entries using composeMembers.induct with
  | case1 => simp [composeMembers]
  | case2 e =>
      rw [composeMembers, List.length_append, hmember, List.map_singleton, List.sum_singleton]
      split_ifs
      · simp only [List.length_cons, List.length_nil]
        omega
      · simp only [List.length_nil]
        omega
  | case3 e f es ih =>
      rw [composeMembers, List.map_cons, List.sum_cons, List.length_append, List.length_append,
        hmember, length_spaced]
      split_ifs at ih ⊢ <;> omega

theorem printObject_fits (fmt : Bool) (depth : ℕ) (entries : List (Block × Block)) :
    (printObject fmt depth entries).Fits := by
  rw [printObject, Block.Fits]
  rcases eq_or_ne entries [] with rfl | hne
  · rw [if_pos rfl]
    simp only [List.length_append, length_spaced, length_tabs, List.length_cons, List.length_nil]
    split_ifs <;> omega
  · have hlen := length_composeMembers_le fmt (depth + 1) entries
    rw [if_neg hne]
    simp only [List.length_append, length_spaced, length_tabs, List.length_cons, List.length_nil]
    rcases hfmt : fmt with _ | _
    · simp only [hfmt] at hlen ⊢
      simp only [Bool.false_eq_true, if_false] at hlen ⊢
      omega
    · simp only [hfmt, if_true] at hlen ⊢
      omega

/-- Whatever an item is made of, however deep it stands: no text that `print_value` composes is
longer than what was allocated for it. -/
theorem printValue_fits (fmt : Bool) (depth : ℕ) {item : Item}
    {q : Str → Prop} (h : item.All IsNumber q) :
    (printValue fmt depth item).Fits := by
  cases item with
  | null => exact Nat.lt_succ_self _
  | false => exact Nat.lt_succ_self _
  | true => exact Nat.lt_succ_self _
  | number i d => exact printNumber_fits h
  | string s => exact printStringPtr_fits s
  | array child => exact printArray_fits fmt _
  | object child => exact printObject_fits fmt depth _

/-- An object in an object, printed with tabs. -/
theorem printValue_fits_nested :
    (printValue true 1 (.object [("a".toList, .object [("b".toList, .number 7 7)])])).Fits := by
  apply printValue_fits (q := fun _ => True) true 1
  exact ⟨trivial, ⟨trivial, by exact_mod_cast isNumber_int (i := 7) (by decide), trivial⟩, trivial⟩

end PanelTester.Json
