import PanelTester.Library.CString

/-!
The compiler of init-code texts, `mipi_parse_init_code` of `pubmipi.c`. A line is read
into a buffer, freed of comments and split into the array `dst`, whose entries behind the
tokens of the line keep what earlier lines left there. The kind of the line is decided by
its first entry, and what it compiles to is put into the buffer of the caller. There is no
result when something is written outside of `dst` or of the caller's buffer.
-/

namespace PanelTester.Mipi

open Library

/-- The fields of `vcom_info_t` that are read here. -/
structure VcomInfo where
  vcomBurner : ℤ
  idBurner : ℤ
  gammaBurner : ℤ
  codeBurner : ℤ

/-- The sections of the text that are left out. -/
structure Filters where
  idFilter : Bool
  vcomFilter : Bool
  gammaFilter : Bool
  codeFilter : Bool

/-- A line that begins with a semicolon, with the section marks in it. -/
def scanComment (vcomInfo : Option VcomInfo) (buf : Str) (f : Filters) : Filters :=
  if contains "**GAMMA**" buf then
    if vcomInfo.any (·.gammaBurner > 0) then { f with gammaFilter := true } else f
  else if contains "**GAMMA END**" buf then { f with gammaFilter := false }
  else if contains "**ID**" buf then
    if vcomInfo.any (·.idBurner > 0) then { f with idFilter := true } else f
  else if contains "**ID END**" buf then { f with idFilter := false }
  else if contains "**VCOM**" buf then
    if vcomInfo.any (·.vcomBurner > 0) then { f with vcomFilter := true } else f
  else if contains "**VCOM END**" buf then { f with vcomFilter := false }
  else if contains "**CODE**" buf then
    if vcomInfo.any (·.codeBurner > 0) then { f with codeFilter := true } else f
  else if contains "**CODE END**" buf then { f with codeFilter := false }
  else f

/-- The line without comments and without blanks at its end. -/
def stripLine (buf : Str) : Str :=
  (before "#" (before "//" (before ";" buf))).rdropWhile
    fun c => c = ' ' || c = '\r' || c = '\n'

/-- The loop body up to `split`: the filters, and the line if it is to be compiled. -/
def scanLine (vcomInfo : Option VcomInfo) (f : Filters) (line : Str) : Filters × Option Str :=
  let buf := untilNul line
  if buf.head? = some ';' then (scanComment vcomInfo buf f, none)
  else if buf.head? = some '\r' ∨ buf.head? = some '\n' then (f, none)
  else if buf.head? = some '/' ∨ buf[1]? = some '/' then (f, none)
  else if buf.head? = some '#' then (f, none)
  else if f.idFilter ∨ f.vcomFilter ∨ f.gammaFilter ∨ f.codeFilter then (f, none)
  else if stripLine buf = [] then (f, none)
  else (f, some (stripLine buf))

/-- The tokens that `split` keeps. -/
def split (str : Str) : List Str :=
  (strtok ' ' str).filter fun t => t.head? != some '\r' && t.head? != some '\n'

/-- The entries of `dst` once `split` wrote the tokens: 256 of them, of 16 characters with
the zero. -/
def storeTokens (tokens : List Str) (dst : List Str) : Option (List Str) :=
  if tokens.length ≤ 256 ∧ tokens.all (·.length < 16) then some (tokens ++ dst.drop tokens.length)
  else none

/-- What the comparisons of the first entry tell apart. -/
inductive LineKind
  | channel
  | chiptype
  | read2828
  | write2828
  | vcomIli9881
  | otpIli9881
  | otpCheck
  | hs
  | mtp
  | reset
  | rgb
  | delay
  | dcsread
  | genread
  | direct (opcode : UInt8)
  | r
  deriving DecidableEq, Repr

/-- The chain of comparisons. Its last condition is an assignment, so that every other line
is an `R` line. -/
def lineKind (first : Str) : LineKind :=
  if startsWith "channel" first then .channel
  else if startsWith "chiptype" first then .chiptype
  else if startsWith "2828read" first then .read2828
  else if startsWith "2828write" first then .write2828
  else if startsWith "vcom_ili9881" first then .vcomIli9881
  else if startsWith "otp_ili988" first then .otpIli9881
  else if startsWith "otp_check" first then .otpCheck
  else if startsWith "hs" first then .hs
  else if startsWith "mtp" first then .mtp
  else if startsWith "reset" first then .reset
  else if startsWith "RGB" first then .rgb
  else if startsWith "delay" first then .delay
  else if startsWith "dcsread" first then .dcsread
  else if startsWith "genread" first then .genread
  else if equals "05" first then .direct 0x05
  else if equals "29" first then .direct 0x29
  else if equals "39" first then .direct 0x39
  else if equals "15" first then .direct 0x15
  else if equals "23" first then .direct 0x23
  else .r

/-- A number stored into a byte. -/
def byte (z : ℤ) : UInt8 := UInt8.ofInt z

/-- An entry of `dst`. -/
def entry (dst : List Str) (i : ℕ) : Str := dst.getD i []

/-- An entry of `dst` as a number. -/
def number (dst : List Str) (i base : ℕ) : ℤ := strtol (entry dst i) base

/-- The bytes that a read line reserves for the answer; the first may be a mark. -/
def answerBytes (mark : Option UInt8) (readLen : ℕ) : List UInt8 :=
  match readLen with
  | 0 => []
  | n + 1 => mark.getD 0 :: List.replicate n 0

/-- The mark of a `dcsread` line. -/
def answerMark (s : Str) : Option UInt8 :=
  if startsWith "curpolar" s then some 0xab else if startsWith "curflick" s then some 0xaa else none

/-- What a line of each kind writes behind `codeByte`, and by how much it then moves
`codeByte`; `count` is the number of its tokens. -/
def compileKind (kind : LineKind) (dst : List Str) (count : ℕ) : List UInt8 × ℕ :=
  match kind with
  | .channel => ([0x00, 0xFE, 1, byte (number dst 1 0)], 4)
  | .chiptype => ([], 0)
  | .read2828 => ([0x00, 0xFD, 3, byte (number dst 1 16), 0, 0], 6)
  | .write2828 =>
      ([0x00, 0xFC, 3, byte (number dst 1 16), byte (number dst 2 16 >>> (8 : ℕ)),
        byte (number dst 2 16)], 6)
  | .vcomIli9881 => ([0x00, 0xE0, 0], 3)
  | .otpIli9881 => ([0x00, 0xE1, 0], 3)
  | .otpCheck => ([0x00, 0xE2, 0], 3)
  | .hs =>
      if count = 3 ∧ startsWith "mode" (entry dst 1) then
        if startsWith "on" (entry dst 2) then ([0x00, 0xFB, 0], 3)
        else if startsWith "off" (entry dst 2) then ([0x00, 0xFA, 0], 3)
        else ([], 0)
      else ([], 0)
  | .mtp =>
      if count = 3 ∧ startsWith "power" (entry dst 1) then
        if startsWith "on" (entry dst 2) then ([0x00, 0xF9, 0], 3)
        else if startsWith "off" (entry dst 2) then ([0x00, 0xF8, 0], 3)
        else ([], 0)
      else ([], 0)
  | .reset => ([0x00, 0xF7, 0], 3)
  | .rgb =>
      ([0x00, 0xF6, 3, byte (number dst 1 10), byte (number dst 2 10), byte (number dst 3 10)], 6)
  | .delay => ([0x00, 0x00, 2, byte (number dst 1 0), byte (number dst 1 0 >>> (8 : ℕ))], 5)
  | .dcsread =>
      let readLen := byte (number dst 2 16)
      ([0x06, byte (number dst 1 16), 1 + readLen, readLen] ++
        answerBytes (answerMark (entry dst 3)) readLen.toNat, 4 + readLen.toNat)
  | .genread =>
      let readLen := byte (number dst 2 16)
      ([0x14, byte (number dst 1 16), 1 + readLen, readLen] ++ answerBytes none readLen.toNat,
        4 + readLen.toNat)
  | .direct opcode =>
      ([opcode, byte (number dst 1 16), byte ((count : ℤ) - 2)] ++
        (List.range (count - 2)).map fun i => byte (number dst (i + 2) 16), 3 + count - 2)
  | .r =>
      ([if count = 1 then 0x05 else 0x39, byte (strtol (entry dst 0).tail 16),
          byte ((count : ℤ) - 1)] ++
        (List.range (count - 1)).map fun i => byte (number dst (i + 1) 16), 3 + count - 1)

def compileLine (dst : List Str) (count : ℕ) : List UInt8 × ℕ :=
  compileKind (lineKind (entry dst 0)) dst count

/-- The assignment in the last condition. -/
def assignFirst (dst : List Str) : List Str :=
  if lineKind (entry dst 0) = .r then dst.set 0 ('R' :: (entry dst 0).tail) else dst

/-- Bytes are written into the buffer of the caller. -/
def put (code : List UInt8) (i : ℕ) (bytes : List UInt8) : Option (List UInt8) :=
  if i + bytes.length ≤ code.length then
    some (code.take i ++ bytes ++ code.drop (i + bytes.length))
  else none

/-- The variables of `mipi_parse_init_code`. -/
structure Compiler where
  code : List UInt8
  codeByte : ℕ
  dst : List Str
  filters : Filters

/-- A line without comments is split and compiled. -/
def compileTokens (tokens : List Str) (c : Compiler) : Option Compiler := do
  let dst ← storeTokens tokens c.dst
  let out := compileLine dst tokens.length
  let code ← put c.code c.codeByte out.1
  some { c with code := code, codeByte := c.codeByte + out.2, dst := assignFirst dst }

/-- The loop body. -/
def parseLine (vcomInfo : Option VcomInfo) (c : Compiler) (line : Str) : Option Compiler :=
  let scan := scanLine vcomInfo c.filters line
  match scan.2 with
  | none => some { c with filters := scan.1 }
  | some str => compileTokens (split str) { c with filters := scan.1 }

/-- No section is left out. -/
def noFilters : Filters := ⟨false, false, false, false⟩

/-- `mipi_parse_init_code` of an open file: the buffer of the caller, and how much of it was
compiled into. `dst` is what the array holds at the start. -/
def mipiParseInitCode (vcomInfo : Option VcomInfo) (dst : List Str) (file : Str)
    (code : List UInt8) : Option (List UInt8 × ℕ) := do
  let c ← (readLines 200 file).foldlM (parseLine vcomInfo) ⟨code, 0, dst, noFilters⟩
  some (c.code, c.codeByte)

end PanelTester.Mipi
