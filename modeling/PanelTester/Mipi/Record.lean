import PanelTester.Mipi.InitCode
import PanelTester.Mipi.SendCode

/-!
Records, and what lines and records stand for. A `Meaning` is an opcode with a register, the
number of parameter bytes and the operands as numbers. `lineMeaning` reads it off the tokens
of a line, `Record.meaning` off the bytes of a record, and `Record.actions` are the calls
that a record stands for.
-/

namespace PanelTester.Mipi

open Library

/-- A record: its third byte is the number of its parameters, which no terminator is. -/
structure Record where
  opcode : UInt8
  register : UInt8
  params : List UInt8
  fits : params.length ≤ 250

namespace Record

/-- The bytes of a record. -/
def encode (r : Record) : List UInt8 :=
  r.opcode :: r.register :: UInt8.ofNat r.params.length :: r.params

@[simp] theorem length_encode (r : Record) : r.encode.length = r.params.length + 3 := rfl

theorem toNat_length (r : Record) : (UInt8.ofNat r.params.length).toNat = r.params.length := by
  have hfits := r.fits
  rw [UInt8.toNat_ofNat', Nat.mod_eq_of_lt (by omega)]

/-- A record can be told from what follows it. -/
theorem encode_append_inj {r r' : Record} {s s' : List UInt8}
    (h : r.encode ++ s = r'.encode ++ s') : r = r' ∧ s = s' := by
  obtain ⟨op, reg, params, hfits⟩ := r
  obtain ⟨op', reg', params', hfits'⟩ := r'
  simp only [encode, List.cons_append, List.cons.injEq] at h
  obtain ⟨rfl, rfl, hlen, hbytes⟩ := h
  have hlen' : params.length = params'.length := by
    have hnat := congrArg UInt8.toNat hlen
    rw [UInt8.toNat_ofNat', UInt8.toNat_ofNat', Nat.mod_eq_of_lt (by omega),
      Nat.mod_eq_of_lt (by omega)] at hnat
    exact hnat
  obtain ⟨rfl, rfl⟩ := List.append_inj hbytes hlen'
  exact ⟨rfl, rfl⟩

/-- The bytes of a list of records say which records they are. -/
theorem flatMap_encode_inj {rs rs' : List Record} (h : rs.flatMap encode = rs'.flatMap encode) :
    rs = rs' := by
  induction rs generalizing rs' with
  | nil =>
      cases rs' with
      | nil => rfl
      | cons r' rs' => simp [encode] at h
  | cons r rs ih =>
      cases rs' with
      | nil => simp [encode] at h
      | cons r' rs' =>
          rw [List.flatMap_cons, List.flatMap_cons] at h
          obtain ⟨rfl, hrest⟩ := encode_append_inj h
          rw [ih hrest]

theorem length_le_length_flatMap_encode (rs : List Record) :
    3 * rs.length ≤ (rs.flatMap encode).length := by
  induction rs with
  | nil => exact Nat.zero_le _
  | cons r rs ih =>
      rw [List.flatMap_cons, List.length_append, List.length_cons, length_encode]
      omega

end Record

/-! ### Actions -/

/-- How many parameters are read for the opcode and the register. -/
def neededParams (opcode register : UInt8) : ℕ :=
  if opcode = 0x00 then
    if register = 0x00 then 2
    else if register = 0xFD ∨ register = 0xFC ∨ register = 0xF6 then 3
    else 0
  else if opcode = 0x06 ∨ opcode = 0x14 ∨ opcode = 0x15 ∨ opcode = 0x23 then 1
  else 0

/-- A record with all parameters that are read, with room for the answer of a read, and for
the padding of a long write in `MipiData`. -/
structure Record.Complete (r : Record) : Prop where
  needed : neededParams r.opcode r.register ≤ r.params.length
  answer : r.opcode = 0x06 ∨ r.opcode = 0x14 → r.params.length = (r.params.getD 0 0).toNat + 1
  padding : r.opcode = 0x29 ∨ r.opcode = 0x39 → r.params.length < 250

/-- The calls a record stands for. -/
def Record.actions (r : Record) : List Action :=
  let p := fun k => r.params.getD k 0
  if r.opcode = 0x00 then
    if r.register = 0x00 then [.timeDelay ((p 0).toNat + (p 1).toNat * 256)]
    else if r.register = 0xFD then [.readSSD2828Reg (p 0)]
    else if r.register = 0xFC then [.writeSSD2828 (p 0) ((p 1).toNat * 256 + (p 2).toNat)]
    else if r.register = 0xFB then [.writeSSD2828 0xB7 0x030b, .setHsSignalOnFlag true]
    else if r.register = 0xFA then [.writeSSD2828 0xB7 0x030a, .setHsSignalOnFlag false]
    else if r.register = 0xF7 then [.mipiGpioReset false, .mipiGpioReset true]
    else if r.register = 0xF6 then [.showRgb (p 0) (p 1) (p 2)]
    else if r.register = 0x03 then [.writeSSD2828 0xB7 0x030b, .setHsSignalOnFlag true]
    else []
  else if r.opcode = 0x05 then [.dcsShortWriteNoPara r.register, .delayI2C 20]
  else if r.opcode = 0x06 then [.readModReg 1 r.register (p 0)]
  else if r.opcode = 0x14 then [.readModReg 0 r.register (p 0)]
  else if r.opcode = 0x15 then [.dcsShortWriteOnePara r.register (p 0), .delayI2C 20]
  else if r.opcode = 0x23 then [.generalShortWriteTwoPara r.register (p 0), .delayI2C 20]
  else if r.opcode = 0x29 then
    [.gerneralLongWriteWithPara r.register r.params (r.params.length + 1), .delayI2C 20]
  else if r.opcode = 0x39 then
    [.dcsLongWriteWithPara r.register r.params (r.params.length + 1)]
  else []

/-- The places of records that follow one another, with their calls. -/
def visits : ℕ → List Record → List (ℕ × List Action)
  | _, [] => []
  | i, r :: rs => (i, r.actions) :: visits (i + r.encode.length) rs

@[simp] theorem length_visits (i : ℕ) (rs : List Record) : (visits i rs).length = rs.length := by
  induction rs generalizing i with
  | nil => rfl
  | cons r rs ih => simp [visits, ih]

/-! ### Meanings -/

/-- An operand with the number of bytes of its field. -/
structure Operand where
  size : ℕ
  value : ℤ
  deriving DecidableEq, Repr

/-- The operand can be stored in its field. -/
def Operand.Fits (o : Operand) : Prop := 0 ≤ o.value ∧ o.value < 256 ^ o.size

instance (o : Operand) : Decidable o.Fits := inferInstanceAs (Decidable (_ ∧ _))

structure Meaning where
  opcode : UInt8
  register : ℤ
  count : ℕ
  operands : List Operand
  deriving DecidableEq, Repr

/-- All numbers can be stored in their fields. -/
def Meaning.Fits (m : Meaning) : Prop :=
  (⟨1, m.register⟩ : Operand).Fits ∧ ∀ o ∈ m.operands, o.Fits

instance (m : Meaning) : Decidable m.Fits := inferInstanceAs (Decidable (_ ∧ ∀ o ∈ _, _))

/-- An operand of one byte. -/
def byteOperand (z : ℤ) : Operand := ⟨1, z⟩

/-- The operands in the parameters of a record. The bytes of an answer are none, but in front of
those of a `dcsread` stands its mark. -/
def Record.operands (r : Record) : List Operand :=
  if r.opcode = 0x06 then (r.params.take 2).map fun b => byteOperand b.toNat
  else if r.opcode = 0x14 then (r.params.take 1).map fun b => byteOperand b.toNat
  else if r.opcode = 0x00 ∧ r.register = 0x00 then
    [⟨2, (r.params.getD 0 0).toNat + (r.params.getD 1 0).toNat * 256⟩]
  else if r.opcode = 0x00 ∧ r.register = 0xFD then
    (r.params.take 1).map fun b => byteOperand b.toNat
  else if r.opcode = 0x00 ∧ r.register = 0xFC then
    [byteOperand (r.params.getD 0 0).toNat,
      ⟨2, (r.params.getD 1 0).toNat * 256 + (r.params.getD 2 0).toNat⟩]
  else r.params.map fun b => byteOperand b.toNat

def Record.meaning (r : Record) : Meaning :=
  ⟨r.opcode, r.register.toNat, r.params.length, r.operands⟩

/-- The lines of `hs` and `mtp`: the register, if there is one. -/
def switchMeaning (word : String) (on off : UInt8) (args : List Str) : Option Meaning :=
  match args with
  | [a, b] =>
      if startsWith word a then
        if startsWith "on" b then some ⟨0x00, on.toNat, 0, []⟩
        else if startsWith "off" b then some ⟨0x00, off.toNat, 0, []⟩
        else none
      else none
  | _ => none

/-- The mark of a `dcsread` line that reads some bytes, by its own token; 0 is none. -/
def markOperand (len mark : Str) : List Operand :=
  if byte (strtol len 16) = 0 then [] else [byteOperand ((answerMark mark).getD 0).toNat]

/-- A read of at most 249 bytes, of which the length byte of the record can tell. -/
def readMeaning (opcode : UInt8) (reg len : Str) (mark : List Operand) :
    Option (Option Meaning) :=
  if (byte (strtol len 16)).toNat ≤ 249 then
    some (some ⟨opcode, strtol reg 16, (byte (strtol len 16)).toNat + 1,
      byteOperand (strtol len 16) :: mark⟩)
  else none

/-- What a line of each kind stands for by its own tokens: a record, or none; a line that lacks
an operand or reads too much is to be rejected. -/
def kindMeaning (kind : LineKind) (first : Str) (args : List Str) : Option (Option Meaning) :=
  match kind, args with
  | .channel, a :: _ => some (some ⟨0x00, 0xFE, 1, [byteOperand (strtol a 0)]⟩)
  | .chiptype, _ => some none
  | .read2828, a :: _ => some (some ⟨0x00, 0xFD, 3, [byteOperand (strtol a 16)]⟩)
  | .write2828, a :: b :: _ =>
      some (some ⟨0x00, 0xFC, 3, [byteOperand (strtol a 16), ⟨2, strtol b 16⟩]⟩)
  | .vcomIli9881, _ => some (some ⟨0x00, 0xE0, 0, []⟩)
  | .otpIli9881, _ => some (some ⟨0x00, 0xE1, 0, []⟩)
  | .otpCheck, _ => some (some ⟨0x00, 0xE2, 0, []⟩)
  | .hs, args => some (switchMeaning "mode" 0xFB 0xFA args)
  | .mtp, args => some (switchMeaning "power" 0xF9 0xF8 args)
  | .reset, _ => some (some ⟨0x00, 0xF7, 0, []⟩)
  | .rgb, r :: g :: b :: _ =>
      some (some ⟨0x00, 0xF6, 3, [r, g, b].map fun t => byteOperand (strtol t 10)⟩)
  | .delay, a :: _ => some (some ⟨0x00, 0x00, 2, [⟨2, strtol a 0⟩]⟩)
  | .dcsread, reg :: len :: rest => readMeaning 0x06 reg len (markOperand len (rest.headD []))
  | .genread, reg :: len :: _ => readMeaning 0x14 reg len []
  | .direct opcode, reg :: ps =>
      if (opcode = 0x15 ∨ opcode = 0x23) ∧ ps = [] then none
      else some (some ⟨opcode, strtol reg 16, ps.length,
        ps.map fun t => byteOperand (strtol t 16)⟩)
  | .r, ps =>
      some (some ⟨if ps = [] then 0x05 else 0x39, strtol first.tail 16, ps.length,
        ps.map fun t => byteOperand (strtol t 16)⟩)
  | _, _ => none

def lineMeaning : List Str → Option (Option Meaning)
  | [] => some none
  | first :: args => kindMeaning (lineKind first) first args

end PanelTester.Mipi
