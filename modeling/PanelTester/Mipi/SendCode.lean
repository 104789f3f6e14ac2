import Mathlib.Tactic

/-!
The interpreter of compiled init codes, `SendCode` of `mipi2828.c`. It walks over the array
by the length bytes it finds, and calls the functions that drive the panel; what it calls
is kept as a list of actions for each place it visits. There is no result when it reads or
writes outside of the array or of `MipiData`. What the panel answers is arbitrary.
-/

namespace PanelTester.Mipi

/-- The calls that `SendCode` makes, and its writes of `HsSignalOnFlag`. The data of a long
write are the bytes of `MipiData` that its count says. -/
inductive Action
  | timeDelay (delaytime : ℕ)
  | readSSD2828Reg (regAddr : UInt8)
  | writeSSD2828 (regAddr : UInt8) (regVal : ℕ)
  | setHsSignalOnFlag (on : Bool)
  | mipiGpioReset (value : Bool)
  | showRgb (r g b : UInt8)
  | dcsShortWriteNoPara (command : UInt8)
  | dcsShortWriteOnePara (command para : UInt8)
  | generalShortWriteTwoPara (command para : UInt8)
  | gerneralLongWriteWithPara (regAddr : UInt8) (para : List UInt8) (count : ℕ)
  | dcsLongWriteWithPara (regAddr : UInt8) (para : List UInt8) (count : ℕ)
  | readModReg (type : ℕ) (regAddr len : UInt8)
  | delayI2C (delay : ℕ)
  deriving DecidableEq, Repr

/-- `MAX_MIPI_CODE_LEN` -/
def maxMipiCodeLen : ℕ := 8192

/-- What the panel answers in one round of the loop: to `ReadSSD2828Reg`, and to
`ReadModReg`, where it may give no answer. -/
structure Answer where
  regVal : UInt16
  modReg : Option (ℕ → UInt8)

/-- The variables of `SendCode`, with the two that it keeps for the report of a read. -/
structure Sender where
  initCode : List UInt8
  codePoint : ℕ
  mipiData : List UInt8
  curflick : UInt8
  curpolar : UInt8

/-- Bytes are written into the array. -/
def writeCode (initCode : List UInt8) (i : ℕ) (bytes : List UInt8) : Option (List UInt8) :=
  if i + bytes.length ≤ initCode.length then
    some (initCode.take i ++ bytes ++ initCode.drop (i + bytes.length))
  else none

/-- `ReadModReg` into the array. -/
def readModReg (answer : Option (ℕ → UInt8)) (len : UInt8) (i : ℕ) (initCode : List UInt8) :
    Option (List UInt8) :=
  match answer with
  | none => some initCode
  | some f => writeCode initCode i ((List.range len.toNat).map f)

/-- A long write pads its data in `MipiData` when the count is odd. -/
def padData (len : ℕ) (mipiData : List UInt8) : Option (List UInt8) :=
  if len % 2 = 0 ∧ 2 ≤ len then if len < mipiData.length then some (mipiData.set len 0) else none
  else some mipiData

/-- The conditions on the first bytes of a record: the calls, and the variables changed. -/
def execute (answer : Answer) (op reg len : UInt8) (s : Sender) : Option (List Action × Sender) :=
  let codeAt := fun k => s.initCode[s.codePoint + k]?
  let dataAt := fun k => s.mipiData.getD k 0
  let para := s.mipiData.take len.toNat
  if op = 0x00 then
    if reg = 0x00 then
      some ([.timeDelay (((dataAt 0).toNat + (dataAt 1).toNat * 256) % 65536)], s)
    else if reg = 0xFD then do
      let initCode ← writeCode s.initCode (s.codePoint + 4)
        [(answer.regVal >>> 8).toUInt8, answer.regVal.toUInt8]
      some ([.readSSD2828Reg (dataAt 0)], { s with initCode := initCode })
    else if reg = 0xFC then
      some ([.writeSSD2828 (dataAt 0) ((dataAt 1).toNat * 256 + (dataAt 2).toNat)], s)
    else if reg = 0xFB then some ([.writeSSD2828 0xB7 0x030b, .setHsSignalOnFlag true], s)
    else if reg = 0xFA then some ([.writeSSD2828 0xB7 0x030a, .setHsSignalOnFlag false], s)
    else if reg = 0xF7 then some ([.mipiGpioReset false, .mipiGpioReset true], s)
    else if reg = 0xF6 then do
      let r ← codeAt 3
      let g ← codeAt 4
      let b ← codeAt 5
      some ([.showRgb r g b], s)
    else if reg = 0x03 then some ([.writeSSD2828 0xB7 0x030b, .setHsSignalOnFlag true], s)
    else some ([], s)
  else if op = 0x05 then some ([.dcsShortWriteNoPara reg, .delayI2C 20], s)
  else if op = 0x06 then do
    -- the plain `char` of the mark is unsigned
    let flag ← codeAt 4
    let readLen ← codeAt 3
    let initCode ← readModReg answer.modReg readLen (s.codePoint + 4) s.initCode
    let value ← initCode[s.codePoint + 4]?
    some ([.readModReg 1 reg readLen],
      { s with
        initCode := initCode
        curflick := if flag = 0xaa then value else s.curflick
        curpolar := if flag = 0xab then value else s.curpolar })
  else if op = 0x14 then do
    let readLen ← codeAt 3
    let initCode ← readModReg answer.modReg readLen (s.codePoint + 4) s.initCode
    some ([.readModReg 0 reg readLen], { s with initCode := initCode })
  else if op = 0x15 then do
    let p ← codeAt 3
    some ([.dcsShortWriteOnePara reg p, .delayI2C 20], s)
  else if op = 0x23 then do
    let p ← codeAt 3
    some ([.generalShortWriteTwoPara reg p, .delayI2C 20], s)
  else if op = 0x29 then do
    let mipiData ← padData len.toNat s.mipiData
    some ([.gerneralLongWriteWithPara reg para (len.toNat + 1), .delayI2C 20],
      { s with mipiData := mipiData })
  else if op = 0x39 then do
    let mipiData ← padData len.toNat s.mipiData
    some ([.dcsLongWriteWithPara reg para (len.toNat + 1)], { s with mipiData := mipiData })
  else some ([], s)

/-- The copy of the parameters to the front of `MipiData`. -/
def copyData (len : ℕ) (s : Sender) : Option Sender :=
  let bytes := (s.initCode.drop (s.codePoint + 3)).take len
  if bytes.length = len then some { s with mipiData := bytes ++ s.mipiData.drop len } else none

/-- One round of the loop: nothing when it breaks off, or the calls. -/
def sendStep (answer : Answer) (s : Sender) : Option (Option (List Action × Sender)) := do
  let len ← s.initCode[s.codePoint + 2]?
  if len ≤ 250 then
    let s ← copyData len.toNat s
    let op ← s.initCode[s.codePoint]?
    let reg ← s.initCode[s.codePoint + 1]?
    let (actions, s) ← execute answer op reg len s
    let len ← s.initCode[s.codePoint + 2]?
    some (some (actions, { s with codePoint := (s.codePoint + (len.toNat + 3)) % 65536 }))
  else some none

/-- `n` rounds at most: the places visited with the calls made there, and the variables at
the end. -/
def sendLoop (answers : ℕ → Answer) : ℕ → Sender → Option (List (ℕ × List Action) × Sender)
  | 0, s => some ([], s)
  | n + 1, s => do
      match ← sendStep (answers n) s with
      | none => some ([], s)
      | some (actions, s') =>
          let (visits, s'') ← sendLoop answers n s'
          some ((s.codePoint, actions) :: visits, s'')

/-- `SendCode`. `mipiData`, `curflick` and `curpolar` are what it finds at the start; the
report of the latter two to the PC at its end is left out. -/
def sendCode (answers : ℕ → Answer) (mipiData : List UInt8) (curflick curpolar : UInt8)
    (initCode : List UInt8) : Option (List (ℕ × List Action) × Sender) :=
  sendLoop answers maxMipiCodeLen ⟨initCode, 0, mipiData, curflick, curpolar⟩

end PanelTester.Mipi
