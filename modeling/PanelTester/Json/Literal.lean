import PanelTester.Json.Parse
import PanelTester.Library.StringArray

/-!
The string literals that `parse_string` is made for. A literal is units one after the other, each of
which a turn of the second loop replaces by its value, and the first loop counts no less than the
value is long; so the string that is read fits its block, and both loops end at the same quotes
(`parseString_units`). The literals of JSON are such units, and a `\u` becomes the bytes of its
character in UTF-8 (`parseString_literal`).
-/

namespace PanelTester.Json

open Library

/-- A part of a literal that the loops of `parse_string` take at once, and its value. -/
structure IsUnit (text value : Str) : Prop where
  next : ∀ s, nextUnit (text ++ s) = some (value, s)
  count : ∃ k, value.length ≤ k ∧ ∀ len s, stringLen len (text ++ s) = stringLen (len + k) s
  head : ∃ c t, text = c :: t ∧ c ≠ '"'

/-- Units one after the other, and their values. -/
inductive Units : Str → Str → Prop
  | nil : Units [] []
  | cons {t v ts vs : Str} (unit : IsUnit t v) (units : Units ts vs) : Units (t ++ ts) (v ++ vs)

theorem Units.append {t v t' v' : Str} (h : Units t v) (h' : Units t' v') :
    Units (t ++ t') (v ++ v') := by
  induction h with
  | nil => exact h'
  | cons unit _ ih =>
      rw [List.append_assoc, List.append_assoc]
      exact .cons unit ih

/-- The first loop counts enough, and ends at the quotes behind the units. -/
theorem stringLen_units {text value : Str} (h : Units text value) (rest : Str) (len : ℕ) :
    ∃ k, value.length ≤ k ∧ stringLen len (text ++ '"' :: rest) = some (len + k) := by
  induction h generalizing len with
  | nil =>
      refine ⟨0, le_rfl, ?_⟩
      rw [List.nil_append, stringLen.eq_def]
      rfl
  | cons unit _ ih =>
      obtain ⟨k, hk, hcount⟩ := unit.count
      obtain ⟨k', hk', hcount'⟩ := ih (len + k)
      refine ⟨k + k', ?_, ?_⟩
      · rw [List.length_append]
        omega
      · rw [List.append_assoc, hcount, hcount', Nat.add_assoc]

/-- The second loop ends there too, and writes the values. -/
theorem unescape_units {text value : Str} (h : Units text value) (rest : Str) {fuel : ℕ}
    (hfuel : text.length ≤ fuel) :
    unescape fuel (text ++ '"' :: rest) = some (value, '"' :: rest) := by
  induction h generalizing fuel with
  | nil => cases fuel <;> rfl
  | cons unit _ ih =>
      obtain ⟨c, t, rfl, hc⟩ := unit.head
      rw [List.length_append, List.length_cons] at hfuel
      obtain ⟨fuel, rfl⟩ := Nat.exists_eq_add_of_lt (show 0 < fuel by omega)
      have hnext := unit.next
      simp only [List.cons_append] at hnext
      rw [List.append_assoc, List.cons_append, Nat.zero_add, unescape, if_neg hc, hnext,
        Option.bind_some, ih (by omega)]
      rfl

/-- A literal of units is read as their values, within its block and up to its quotes. -/
theorem parseString_units {text value : Str} (h : Units text value) (hnul : nul ∉ value)
    (rest : Str) : parseString ('"' :: (text ++ '"' :: rest)) = .ok value rest := by
  obtain ⟨k, hk, hcount⟩ := stringLen_units h rest 0
  have hlen : text.length ≤ (text ++ '"' :: rest).length := by
    rw [List.length_append]
    omega
  rw [parseString, if_neg (not_not.mpr rfl), hcount, unescape_units h rest hlen]
  dsimp only
  rw [if_pos (by omega), untilNul_eq_self hnul]
  rfl

/-! ### Units of one and two characters -/

theorem isUnit_plain {c : Char} (hquote : c ≠ '"') (hslash : c ≠ '\\') : IsUnit [c] [c] where
  next s := by
    rw [List.singleton_append, nextUnit.eq_def]
    exact if_pos hslash
  count := by
    refine ⟨1, le_rfl, ?_⟩
    intro len s
    rw [List.singleton_append, stringLen.eq_def]
    dsimp only
    rw [if_neg hquote, if_neg hslash]
  head := ⟨c, [], rfl, hquote⟩

theorem stringLen_backslash (len : ℕ) (d : Char) (s : Str) :
    stringLen len ('\\' :: d :: s) = stringLen (len + 1) s := by
  rw [stringLen.eq_def]
  rfl

theorem isUnit_letter {d : Char} (hd : d ≠ 'u') : IsUnit ['\\', d] [unescaped d] where
  next s := by
    show nextUnit ('\\' :: d :: s) = _
    rw [nextUnit, if_neg (not_not.mpr rfl)]
    exact if_neg hd
  count := ⟨1, le_rfl, fun len s => stringLen_backslash len d s⟩
  head := ⟨'\\', [d], rfl, by decide⟩

/-! ### Characters by their number -/

/-- Four hexadecimal digits, and their number. -/
structure IsHex4 (h : Str) (n : ℕ) : Prop where
  length : h.length = 4
  digits : ∀ c ∈ h, ∃ d < 16, digitValue c = some d
  value : readDigits 16 0 h = n

theorem hexDigit_of_digitValue {c : Char} {d : ℕ} (hd : d < 16) (h : digitValue c = some d) :
    hexDigit c = some d := by
  have hlow : 'a'.toNat = 97 := rfl
  have hupp : 'A'.toNat = 65 := rfl
  rw [digitValue] at h
  split_ifs at h with h1 h2 h3
  · rw [hexDigit, if_pos h1, h]
  · obtain rfl := Option.some.inj h
    have hle : 'a'.toNat ≤ c.toNat := h2.1
    have hf : c ≤ 'f' := show c.toNat ≤ 'f'.toNat by
      have : 'f'.toNat = 102 := rfl
      omega
    have hF : ¬ ('A' ≤ c ∧ c ≤ 'F') := by
      rintro ⟨-, hle'⟩
      have hle' : c.toNat ≤ 'F'.toNat := hle'
      have : 'F'.toNat = 70 := rfl
      omega
    rw [hexDigit, if_neg h1, if_neg hF, if_pos ⟨h2.1, hf⟩]
    congr 1
    omega
  · obtain rfl := Option.some.inj h
    have hle : 'A'.toNat ≤ c.toNat := h3.1
    have hF : c ≤ 'F' := show c.toNat ≤ 'F'.toNat by
      have : 'F'.toNat = 70 := rfl
      omega
    rw [hexDigit, if_neg h1, if_pos ⟨h3.1, hF⟩]
    congr 1
    omega

theorem IsHex4.parseHex4 {h : Str} {n : ℕ} (hh : IsHex4 h n) (s : Str) :
    parseHex4 (h ++ s) = n := by
  obtain ⟨a, b, c, d, rfl⟩ := List.length_eq_four.mp hh.length
  obtain ⟨va, hva, ha⟩ := hh.digits a (by simp)
  obtain ⟨vb, hvb, hb⟩ := hh.digits b (by simp)
  obtain ⟨vc, hvc, hc⟩ := hh.digits c (by simp)
  obtain ⟨vd, hvd, hd⟩ := hh.digits d (by simp)
  have hvalue := hh.value
  simp only [readDigits, ha, hb, hc, hd, hva, hvb, hvc, hvd, if_true] at hvalue
  simp only [Json.parseHex4, List.cons_append, List.nil_append, List.take_succ_cons, List.take_zero,
    List.map_cons, List.map_nil, hexDigit_of_digitValue hva ha, hexDigit_of_digitValue hvb hb,
    hexDigit_of_digitValue hvc hc, hexDigit_of_digitValue hvd hd]
  omega

/-- A hexadecimal digit closes no literal, and opens no escape. -/
theorem ne_of_digitValue {c : Char} (h : ∃ d < 16, digitValue c = some d) :
    c ≠ '"' ∧ c ≠ '\\' := by
  obtain ⟨d, -, hd⟩ := h
  constructor
  · rintro rfl
    exact Option.some_ne_none d hd.symm
  · rintro rfl
    exact Option.some_ne_none d hd.symm

/-- The first loop counts the digits one by one. -/
theorem stringLen_digits {h : Str} (hh : ∀ c ∈ h, ∃ d < 16, digitValue c = some d) (len : ℕ)
    (s : Str) :
    stringLen len (h ++ s) = stringLen (len + h.length) s := by
  induction h generalizing len with
  | nil => rfl
  | cons c h ih =>
      obtain ⟨hquote, hslash⟩ := ne_of_digitValue (hh c List.mem_cons_self)
      rw [List.cons_append, stringLen.eq_def]
      dsimp only
      rw [if_neg hquote, if_neg hslash, ih (fun c hc => hh c (List.mem_cons_of_mem _ hc)),
        List.length_cons, Nat.add_assoc, Nat.add_comm 1]

theorem length_utf8Tail (n uc : ℕ) : (utf8Tail n uc).length = n := by
  induction n generalizing uc with
  | zero => rfl
  | succ n ih => rw [utf8Tail, List.length_append, ih, List.length_singleton]

theorem length_putUtf8_le (uc : ℕ) : (putUtf8 uc).length ≤ 4 := by
  rw [putUtf8]
  simp only [List.length_cons, length_utf8Tail]
  split_ifs <;> decide

/-- The text of `\u` with its digits. -/
def unicodeText (h : Str) : Str := '\\' :: 'u' :: h

theorem stringLen_unicodeText {h : Str} {n : ℕ} (hh : IsHex4 h n) (len : ℕ) (s : Str) :
    stringLen len (unicodeText h ++ s) = stringLen (len + 5) s := by
  show stringLen len ('\\' :: 'u' :: (h ++ s)) = _
  rw [stringLen_backslash, stringLen_digits hh.digits, hh.length]

theorem nextUnit_unicodeText (h s : Str) : nextUnit (unicodeText h ++ s) = transcode (h ++ s) := rfl

/-- A character that UTF-16 has in one word. -/
theorem isUnit_basic {h : Str} {n : ℕ} (hh : IsHex4 h n) (hzero : n ≠ 0)
    (hsurrogate : n < 0xD800 ∨ 0xDFFF < n) : IsUnit (unicodeText h) (putUtf8 n) where
  next s := by
    have hlen := hh.length
    rw [nextUnit_unicodeText, transcode]
    dsimp only
    rw [hh.parseHex4, if_neg (by rw [List.length_append]; omega), if_neg (by omega),
      if_neg (by omega), List.drop_left' hlen]
  count := by
    refine ⟨5, (length_putUtf8_le n).trans (by decide), ?_⟩
    exact stringLen_unicodeText hh
  head := ⟨'\\', 'u' :: h, rfl, by decide⟩

/-- A number that `parse_string` leaves out: 0, or the second word of a character without the first
one. -/
theorem isUnit_dropped {h : Str} {n : ℕ} (hh : IsHex4 h n)
    (hn : n = 0 ∨ 0xDC00 ≤ n ∧ n ≤ 0xDFFF) : IsUnit (unicodeText h) [] where
  next s := by
    have hlen := hh.length
    rw [nextUnit_unicodeText, transcode]
    dsimp only
    rw [hh.parseHex4, if_neg (by rw [List.length_append]; omega), if_pos (by omega),
      List.drop_left' hlen]
  count := ⟨5, Nat.zero_le 5, stringLen_unicodeText hh⟩
  head := ⟨'\\', 'u' :: h, rfl, by decide⟩

/-- A character that UTF-16 has in two words. -/
theorem isUnit_pair {h l : Str} {m n : ℕ} (hh : IsHex4 h (0xD800 + m)) (hl : IsHex4 l (0xDC00 + n))
    (hm : m < 0x400) (hn : n < 0x400) :
    IsUnit (unicodeText h ++ unicodeText l) (putUtf8 (0x10000 + (m * 0x400 + n))) where
  next s := by
    have hlen := hh.length
    have hlen' := hl.length
    have hhigh : (0xD800 + m) &&& 0x3FF = m := by
      rw [show (0x3FF : ℕ) = 2 ^ 10 - 1 by rfl, Nat.and_two_pow_sub_one_eq_mod]
      omega
    have hlow : (0xDC00 + n) &&& 0x3FF = n := by
      rw [show (0x3FF : ℕ) = 2 ^ 10 - 1 by rfl, Nat.and_two_pow_sub_one_eq_mod]
      omega
    have hpair : (m <<< 10) ||| n = m * 0x400 + n := by
      rw [Nat.shiftLeft_eq, Nat.mul_comm m, ← Nat.two_pow_add_eq_or_of_lt hn m]
    rw [List.append_assoc, nextUnit_unicodeText, transcode]
    dsimp only
    rw [hh.parseHex4, if_neg (by rw [List.length_append]; omega), if_neg (by omega),
      if_pos (by omega), List.drop_left' hlen,
      if_neg (not_not.mpr (show (unicodeText l ++ s).take 2 = ['\\', 'u'] by rfl)),
      show (unicodeText l ++ s).drop 2 = l ++ s by rfl, hl.parseHex4,
      if_neg (by rw [List.length_append, unicodeText, List.length_cons, List.length_cons]; omega),
      if_neg (by omega), hhigh, hlow, hpair, List.drop_left' (show (unicodeText l).length = 6 by
        rw [unicodeText, List.length_cons, List.length_cons, hlen'])]
  count := by
    refine ⟨10, (length_putUtf8_le _).trans (by decide), ?_⟩
    intro len s
    rw [List.append_assoc, stringLen_unicodeText hh, stringLen_unicodeText hl]
  head := ⟨'\\', 'u' :: (h ++ unicodeText l), rfl, by decide⟩

/-! ### The literals of JSON -/

/-- The bytes of a character in UTF-8. -/
def utf8 (c : Char) : Str := (String.utf8EncodeChar c).map fun b => Char.ofNat b.toNat

/-- The letters behind a backslash, and the characters they stand for. -/
def jsonEscapes : List (Char × Char) :=
  [('"', '"'), ('\\', '\\'), ('/', '/'), ('b', Char.ofNat 8), ('f', Char.ofNat 12), ('n', '\n'),
    ('r', '\r'), ('t', '\t')]

/-- A character of a literal: as it is, escaped by a letter, or by its number in UTF-16. The number
0, which no C string can hold, stands for nothing, and so does the second half of a pair alone. -/
inductive LiteralUnit : Str → Str → Prop
  | plain {c : Char} (hc : c ∉ ['"', '\\', nul]) : LiteralUnit [c] [c]
  | letter {d c : Char} (hd : (d, c) ∈ jsonEscapes) : LiteralUnit ['\\', d] [c]
  | basic {h : Str} {c : Char} (hh : IsHex4 h c.toNat) (hc : c ≠ nul) :
      LiteralUnit (unicodeText h) (utf8 c)
  | dropped {h : Str} {n : ℕ} (hh : IsHex4 h n) (hn : n = 0 ∨ 0xDC00 ≤ n ∧ n ≤ 0xDFFF) :
      LiteralUnit (unicodeText h) []
  | pair {h l : Str} {c : Char} (hh : IsHex4 h (0xD800 + (c.toNat - 0x10000) / 0x400))
      (hl : IsHex4 l (0xDC00 + (c.toNat - 0x10000) % 0x400)) (hc : 0x10000 ≤ c.toNat) :
      LiteralUnit (unicodeText h ++ unicodeText l) (utf8 c)

/-- What stands between the quotes of a string, and the bytes that it stands for. -/
inductive Literal : Str → Str → Prop
  | nil : Literal [] []
  | cons {t v ts vs : Str} (unit : LiteralUnit t v) (literal : Literal ts vs) :
      Literal (t ++ ts) (v ++ vs)

theorem tailByte (uc : ℕ) : (uc ||| 0x80) &&& 0xBF = uc % 0x40 + 0x80 := by
  have hall : ∀ b < 256, (b ||| 0x80) &&& 0xBF = b % 0x40 + 0x80 := by decide +kernel
  have hmask : (uc ||| 0x80) &&& 0xBF = ((uc ||| 0x80) % 2 ^ 8) &&& 0xBF := by
    rw [← Nat.and_two_pow_sub_one_eq_mod, Nat.and_assoc]
    rfl
  rw [hmask, Nat.or_mod_two_pow]
  exact (hall (uc % 256) (Nat.mod_lt _ (by decide))).trans (by omega)

/-- The bytes that `parse_string` writes, as sums. -/
theorem putUtf8_bytes {uc : ℕ} (huc : uc < 0x110000) :
    putUtf8 uc =
      (if uc ≤ 0x7f then [uc]
        else if uc ≤ 0x7ff then [uc / 0x40 % 0x20 + 0xc0, uc % 0x40 + 0x80]
        else if uc ≤ 0xffff then
          [uc / 0x1000 % 0x10 + 0xe0, uc / 0x40 % 0x40 + 0x80, uc % 0x40 + 0x80]
        else
          [uc / 0x40000 % 0x08 + 0xf0, uc / 0x1000 % 0x40 + 0x80, uc / 0x40 % 0x40 + 0x80,
            uc % 0x40 + 0x80]).map Char.ofNat := by
  have htwo : ∀ b < 0x20, b ||| 0xC0 = b % 0x20 + 0xC0 := by decide
  have hthree : ∀ b < 0x10, b ||| 0xE0 = b % 0x10 + 0xE0 := by decide
  have hfour : ∀ b < 8, b ||| 0xF0 = b % 8 + 0xF0 := by decide
  rw [putUtf8]
  rcases Nat.lt_or_ge uc 0x80 with h1 | h1
  · rw [if_pos h1, if_pos (by omega)]
    simp [utf8Tail, firstByteMark]
  rcases Nat.lt_or_ge uc 0x800 with h2 | h2
  · rw [if_neg (by omega), if_pos h2, if_neg (by omega), if_pos (by omega),
      ← htwo (uc / 0x40) (by omega)]
    simp [utf8Tail, tailByte, firstByteMark, Nat.shiftRight_eq_div_pow]
  rcases Nat.lt_or_ge uc 0x10000 with h3 | h3
  · rw [if_neg (by omega), if_neg (by omega), if_pos h3, if_neg (by omega), if_neg (by omega),
      if_pos (by omega), ← hthree (uc / 0x1000) (by omega)]
    simp [utf8Tail, tailByte, firstByteMark, Nat.shiftRight_eq_div_pow]
  · rw [if_neg (by omega), if_neg (by omega), if_neg (by omega), if_neg (by omega),
      if_neg (by omega), if_neg (by omega), ← hfour (uc / 0x40000) (by omega)]
    simp [utf8Tail, tailByte, firstByteMark, Nat.shiftRight_eq_div_pow, Nat.div_div_eq_div_mul]

theorem toNat_lt_max (c : Char) : c.toNat < 0x110000 := by
  rcases c.valid with h | ⟨-, h⟩
  · exact lt_trans h (by decide)
  · exact h

/-- They are those of UTF-8. -/
theorem putUtf8_eq (c : Char) : putUtf8 c.toNat = utf8 c := by
  have hbyte : ∀ ns : List ℕ, (∀ n ∈ ns, n < 256) →
      (ns.map UInt8.ofNat).map (fun b => Char.ofNat b.toNat) = ns.map Char.ofNat := by
    intro ns hns
    rw [List.map_map]
    apply List.map_congr_left
    intro n hn
    simp only [Function.comp_apply, UInt8.toNat_ofNat', Nat.mod_eq_of_lt (hns n hn)]
  have hmax := toNat_lt_max c
  have hval : c.toNat = c.val.toNat := rfl
  rw [putUtf8_bytes hmax, utf8, String.utf8EncodeChar, hval]
  rw [hval] at hmax
  generalize c.val.toNat = uc at hmax ⊢
  split_ifs
  · exact (hbyte [uc] (by simp; omega)).symm
  · exact (hbyte [_, _] (by simp; omega)).symm
  · exact (hbyte [_, _, _] (by simp; omega)).symm
  · exact (hbyte [_, _, _, _] (by simp; omega)).symm

theorem nul_not_mem_utf8 {c : Char} (hc : c ≠ nul) : nul ∉ utf8 c := by
  have hne : c.toNat ≠ 0 := fun h => hc (Char.toNat_inj.mp h)
  have hofNat : ∀ n < 256, n ≠ 0 → Char.ofNat n ≠ nul := by decide +kernel
  rw [← putUtf8_eq, putUtf8_bytes (toNat_lt_max c)]
  intro hmem
  obtain ⟨n, hn, heq⟩ := List.mem_map.mp hmem
  have hbyte : n < 256 ∧ n ≠ 0 := by
    split_ifs at hn <;> simp only [List.mem_cons, List.not_mem_nil, or_false] at hn <;> omega
  exact hofNat n hbyte.1 hbyte.2 heq

theorem LiteralUnit.isUnit {text value : Str} (h : LiteralUnit text value) :
    IsUnit text value ∧ nul ∉ value := by
  cases h with
  | @plain c hc =>
      simp only [List.mem_cons, List.not_mem_nil, or_false, not_or] at hc
      exact ⟨isUnit_plain hc.1 hc.2.1, by simpa using Ne.symm hc.2.2⟩
  | @letter d c hd =>
      have hall : ∀ p ∈ jsonEscapes, p.1 ≠ 'u' ∧ unescaped p.1 = p.2 ∧ nul ≠ p.2 := by decide
      obtain ⟨hu, hvalue, hnul⟩ := hall _ hd
      refine ⟨?_, by simpa using hnul⟩
      have hunit := isUnit_letter hu
      rwa [hvalue] at hunit
  | @basic h c hh hc =>
      refine ⟨?_, nul_not_mem_utf8 hc⟩
      rw [← putUtf8_eq]
      apply isUnit_basic hh fun h => hc (Char.toNat_inj.mp h)
      rcases c.valid with h | ⟨h, -⟩
      · exact .inl h
      · exact .inr h
  | dropped hh hn => exact ⟨isUnit_dropped hh hn, List.not_mem_nil⟩
  | @pair h l c hh hl hc =>
      have hmax := toNat_lt_max c
      have hne : c ≠ nul := by
        rintro rfl
        exact absurd hc (by decide)
      refine ⟨?_, nul_not_mem_utf8 hne⟩
      have hunit := isUnit_pair hh hl (by omega) (by omega)
      rwa [show 0x10000 + ((c.toNat - 0x10000) / 0x400 * 0x400 + (c.toNat - 0x10000) % 0x400) =
        c.toNat by omega, putUtf8_eq] at hunit

theorem Literal.units {text value : Str} (h : Literal text value) :
    Units text value ∧ nul ∉ value := by
  induction h with
  | nil => exact ⟨.nil, List.not_mem_nil⟩
  | cons unit _ ih =>
      obtain ⟨hunit, hnul⟩ := unit.isUnit
      exact ⟨.cons hunit ih.1, fun hmem => (List.mem_append.mp hmem).elim hnul ih.2⟩

/-- Every string literal of JSON is read as the bytes that it stands for, less the characters 0,
whatever stands behind it; nothing is written behind its block, and the parser goes on behind its
closing quotes. -/
theorem parseString_literal {text value : Str} (h : Literal text value) (rest : Str) :
    parseString ('"' :: (text ++ '"' :: rest)) = .ok value rest :=
  parseString_units h.units.1 h.units.2 rest

/-- A line break, a letter of Latin-1, a zero and a character behind the first plane. -/
theorem parseString_literal_escapes :
    parseString ('"' :: ("\\n\\u00E9\\u0000\\ud83d\\ude00".toList ++ '"' :: ['}'])) =
      .ok ('\n' :: (utf8 'é' ++ utf8 (Char.ofNat 0x1F600))) ['}'] := by
  have hnewline : LiteralUnit ['\\', 'n'] ['\n'] := .letter (by decide)
  have hbasic : LiteralUnit (unicodeText "00E9".toList) (utf8 'é') :=
    .basic ⟨rfl, by simp [digitValue], rfl⟩ (by decide)
  have hzero : LiteralUnit (unicodeText "0000".toList) [] :=
    .dropped ⟨rfl, by simp [digitValue], rfl⟩ (.inl rfl)
  have hpair : LiteralUnit (unicodeText "d83d".toList ++ unicodeText "de00".toList)
      (utf8 (Char.ofNat 0x1F600)) :=
    .pair ⟨rfl, by simp [digitValue], rfl⟩ ⟨rfl, by simp [digitValue], rfl⟩ (by decide)
  exact parseString_literal (.cons hnewline (.cons hbasic (.cons hzero (.cons hpair .nil)))) ['}']

end PanelTester.Json
