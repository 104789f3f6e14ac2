import PanelTester.Json.Item

/-!
The parser of `cJSON.c`. A text is what stands before its terminating zero, so that the end of the
list is the zero. Only `parse_string` can go over it, behind a backslash or in a `\u` that is cut
off, and only its second pass can write more than the first one counted; then there is no result
but `outside`. Failing allocations and the error pointer, which is passed by value, are left out.
-/

namespace PanelTester.Json

open Library

/-- What a function of the parser returns: null, or what it read and the rest of the text. It has
no result when it leaves the text or its block. -/
inductive Outcome (α : Type)
  | outside
  | fail
  | ok (a : α) (rest : Str)

def Outcome.bind {α β : Type} (o : Outcome α) (f : α → Str → Outcome β) : Outcome β :=
  match o with
  | outside => outside
  | fail => fail
  | ok a rest => f a rest

/-- `skip` -/
def skip (value : Str) : Str := value.dropWhile fun c => c.toNat ≤ 32

/-! ### Numbers -/

/-- A double converted to `int`, towards zero; what does not fit is cut off at the ends. -/
def toInt (d : ℚ) : ℤ := max (-2 ^ 31) (min (2 ^ 31 - 1) (if d < 0 then ⌈d⌉ else ⌊d⌋))

/-- The fraction of a number: its digits behind those read already, and how many there are. -/
def parseFraction (n : ℚ) (num : Str) : ℚ × ℕ × Str :=
  if num.head? = some '.' ∧ num.tail.head?.any isDigitChar then
    let digits := num.tail.takeWhile isDigitChar
    (readDouble n digits, digits.length, num.tail.dropWhile isDigitChar)
  else (n, 0, num)

/-- The exponent of a number; the digits of one that is no `int` are not in question. -/
def parseExponent (num : Str) : ℤ × Str :=
  if num.head? = some 'e' ∨ num.head? = some 'E' then
    let negative := num.tail.head? = some '-'
    let num := if num.tail.head? = some '+' ∨ negative then num.tail.tail else num.tail
    let subscale : ℤ := readDigits 10 0 (num.takeWhile isDigitChar)
    (if negative then -subscale else subscale, num.dropWhile isDigitChar)
  else (0, num)

/-- The integer part of a number. -/
def parseInteger (num : Str) : ℚ × Str :=
  let num := if num.head? = some '0' then num.tail else num
  if num.head?.any fun c => '1' ≤ c && c ≤ '9' then
    (readDouble 0 (num.takeWhile isDigitChar), num.dropWhile isDigitChar)
  else (0, num)

/-- `parse_number`: `valueint` and `valuedouble`, where `pow` is `pow(10.0, …)` of the C library.
What becomes `valueint` are all digits, those of the fraction too. -/
def parseNumber (pow : ℤ → ℚ) (num : Str) : (ℤ × ℚ) × Str :=
  let sign : ℚ := if num.head? = some '-' then -1 else 1
  let integer := parseInteger (if num.head? = some '-' then num.tail else num)
  let fraction := parseFraction integer.1 integer.2
  let exponent := parseExponent fraction.2.2
  let n := sign * fraction.1
  ((toInt n, toDouble (n * pow (exponent.1 - (fraction.2.1 : ℤ)))), exponent.2)

/-! ### Strings -/

/-- A digit as `parse_hex4` takes it. -/
def hexDigit (c : Char) : Option ℕ :=
  if '0' ≤ c ∧ c ≤ '9' then some (c.toNat - '0'.toNat)
  else if 'A' ≤ c ∧ c ≤ 'F' then some (10 + c.toNat - 'A'.toNat)
  else if 'a' ≤ c ∧ c ≤ 'f' then some (10 + c.toNat - 'a'.toNat)
  else none

/-- `parse_hex4` -/
def parseHex4 (str : Str) : ℕ :=
  match (str.take 4).map hexDigit with
  | [some a, some b, some c, some d] => ((a * 16 + b) * 16 + c) * 16 + d
  | _ => 0

def firstByteMark : List ℕ := [0x00, 0x00, 0xC0, 0xE0, 0xF0, 0xF8, 0xFC]

/-- The last `n` bytes of a character in UTF-8. -/
def utf8Tail : ℕ → ℕ → Str
  | 0, _ => []
  | n + 1, uc => utf8Tail n (uc >>> 6) ++ [Char.ofNat ((uc ||| 0x80) &&& 0xBF)]

/-- What `parse_string` writes for a character. -/
def putUtf8 (uc : ℕ) : Str :=
  let len := if uc < 0x80 then 1 else if uc < 0x800 then 2 else if uc < 0x10000 then 3 else 4
  Char.ofNat (uc >>> (6 * (len - 1)) ||| firstByteMark.getD len 0) :: utf8Tail (len - 1) uc

/-- `transcode utf16 to utf8`: what is written for a `\u`, and the rest behind it. -/
def transcode (str : Str) : Option (Str × Str) :=
  let uc := parseHex4 str
  if str.length < 4 then none
  else
    let ptr := str.drop 4
    if (0xDC00 ≤ uc ∧ uc ≤ 0xDFFF) ∨ uc = 0 then some ([], ptr)
    else if 0xD800 ≤ uc ∧ uc ≤ 0xDBFF then
      if ptr.take 2 ≠ ['\\', 'u'] then some ([], ptr)
      else
        let uc2 := parseHex4 (ptr.drop 2)
        if ptr.length < 6 then none
        else if uc2 < 0xDC00 ∨ 0xDFFF < uc2 then some ([], ptr.drop 6)
        else some (putUtf8 (0x10000 + (((uc &&& 0x3FF) <<< 10) ||| (uc2 &&& 0x3FF))), ptr.drop 6)
    else some (putUtf8 uc, ptr)

/-- The character for the one behind a backslash. -/
def unescaped (c : Char) : Char :=
  if c = 'b' then Char.ofNat 8
  else if c = 'f' then Char.ofNat 12
  else if c = 'n' then '\n'
  else if c = 'r' then '\r'
  else if c = 't' then '\t'
  else c

/-- One turn of the second loop of `parse_string`. -/
def nextUnit : Str → Option (Str × Str)
  | [] => none
  | c :: s =>
      if c ≠ '\\' then some ([c], s)
      else
        match s with
        | [] => none
        | d :: t => if d = 'u' then transcode t else some ([unescaped d], t)

/-- The second loop of `parse_string`; each turn takes a character. -/
def unescape : ℕ → Str → Option (Str × Str)
  | _, [] => some ([], [])
  | 0, c :: s => if c = '"' then some ([], c :: s) else none
  | fuel + 1, c :: s =>
      if c = '"' then some ([], c :: s)
      else
        (nextUnit (c :: s)).bind fun u =>
          (unescape fuel u.2).map fun r => (u.1 ++ r.1, r.2)

/-- The first loop of `parse_string`, which counts what is needed for the string. -/
def stringLen : ℕ → Str → Option ℕ
  | len, [] => some len
  | len, c :: s =>
      if c = '"' then some len
      else if c = '\\' then
        match s with
        | [] => none
        | _ :: t => stringLen (len + 1) t
      else stringLen (len + 1) s

/-- `parse_string`. A string that is not closed ends where the text does. -/
def parseString : Str → Outcome Str
  | [] => .fail
  | c :: str =>
      if c ≠ '"' then .fail
      else
        match stringLen 0 str, unescape str.length str with
        | some len, some (out, ptr) =>
            if out.length < len + 1 then
              .ok (untilNul out) (if ptr.head? = some '"' then ptr.tail else ptr)
            else .outside
        | _, _ => .outside

/-! ### Values -/

section

variable (pow : ℤ → ℚ)

mutual

/-- `parse_value`, with `parse_array` and `parse_object` up to their first child. -/
def parseValue : ℕ → Str → Outcome Item
  | 0, _ => .outside
  | fuel + 1, value =>
      if startsWith "null" value then .ok .null (value.drop 4)
      else if startsWith "false" value then .ok .false (value.drop 5)
      else if startsWith "true" value then .ok .true (value.drop 4)
      else
        match value with
        | [] => .fail
        | c :: s =>
            if c = '"' then (parseString (c :: s)).bind fun str rest => .ok (.string str) rest
            else if c = '-' ∨ isDigitChar c then
              .ok (.number (parseNumber pow (c :: s)).1.1 (parseNumber pow (c :: s)).1.2)
                (parseNumber pow (c :: s)).2
            else if c = '[' then
              if (skip s).head? = some ']' then .ok (.array []) (skip s).tail
              else (parseItems fuel (skip s)).bind fun child rest => .ok (.array child) rest
            else if c = '{' then
              if (skip s).head? = some '}' then .ok (.object []) (skip s).tail
              else (parseMembers fuel (skip s)).bind fun child rest => .ok (.object child) rest
            else .fail

/-- The children of an array, from the first one on. -/
def parseItems : ℕ → Str → Outcome (List Item)
  | 0, _ => .outside
  | fuel + 1, value =>
      (parseValue fuel (skip value)).bind fun child rest =>
        match skip rest with
        | [] => .fail
        | c :: s =>
            if c = ',' then
              (parseItems fuel s).bind fun children rest => .ok (child :: children) rest
            else if c = ']' then .ok [child] s
            else .fail

/-- The children of an object, from the first one on. -/
def parseMembers : ℕ → Str → Outcome (List (Str × Item))
  | 0, _ => .outside
  | fuel + 1, value =>
      (parseString (skip value)).bind fun string rest =>
        match skip rest with
        | [] => .fail
        | c :: s =>
            if c ≠ ':' then .fail
            else
              (parseValue fuel (skip s)).bind fun child rest =>
                match skip rest with
                | [] => .fail
                | c :: s =>
                    if c = ',' then
                      (parseMembers fuel s).bind fun children rest =>
                        .ok ((string, child) :: children) rest
                    else if c = '}' then .ok [(string, child)] s
                    else .fail

end

/-- How often the functions of the parser call each other at most: twice for each character. -/
def callDepth (value : Str) : ℕ := 2 * value.length + 2

/-- `cJSON_ParseWithOpts`, which also returns where it stopped. -/
def cJSONParseWithOpts (value : Str) (requireNullTerminated : Bool) : Outcome Item :=
  (parseValue pow (callDepth value) (skip value)).bind fun c rest =>
    if requireNullTerminated ∧ skip rest ≠ [] then .fail else .ok c rest

/-- `cJSON_Parse` -/
def cJSONParse (value : Str) : Outcome Item := cJSONParseWithOpts pow value false

end

end PanelTester.Json
