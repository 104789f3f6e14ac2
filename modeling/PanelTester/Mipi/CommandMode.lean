import PanelTester.Mipi.Walk
import PanelTester.Library.Words

/-!
The two senders of command mode, `SendCodeCMD` of `mipi2828.c` and `mipi_cmd_send_code` of
`spi_sp6.c`, which is to replace it, down to the transfers on the SPI bus. They walk over the
array in the same way and differ in the functions they call (`Helpers`).
`sameTransfers_iff`: the transfers are the same exactly if nothing is written without
parameters, which the one sends as a command and the other as data.
-/

namespace PanelTester.Mipi

open Library

/-- A transfer of three bytes, a delay by `_time_delay` or `Delay_I2C`, or a `usleep` between
two transfers. -/
inductive Event
  | transfer (header high low : UInt8)
  | delay (ms : ℕ)
  | usleep (us : ℕ)
  deriving DecidableEq, Repr

/-- Two bytes put together by an addition. -/
def addBytes (high low : UInt8) : UInt16 := (high.toUInt16 <<< 8) + low.toUInt16

/-! ### Transfers -/

/-- `WriteFPGATo2828_8bit` -/
def writeFPGATo2828 (addr : UInt8) (data : UInt16) : List Event :=
  [.transfer 0x70 0x00 addr, .transfer 0x72 (data >>> 8).toUInt8 data.toUInt8]

/-- `WriteCMDFPGATo2828_8bit` -/
def writeCMDFPGATo2828 (command : UInt8) : List Event := [.transfer 0x70 0x00 command]

/-- `WriteDATAFPGATo2828_8bit` -/
def writeDATAFPGATo2828 (data : UInt16) : List Event :=
  [.transfer 0x72 (data >>> 8).toUInt8 data.toUInt8]

/-- `mipi_cmd_write_data` -/
def mipiCmdWriteData (data : UInt16) : List Event :=
  [.transfer 0x72 (data >>> 8).toUInt8 data.toUInt8]

/-- `mipi_cmd_write_reg_data` -/
def mipiCmdWriteRegData (addr : UInt8) (data : UInt16) : List Event :=
  [.transfer 0x70 0x00 addr, .usleep 1, .transfer 0x72 (data >>> 8).toUInt8 data.toUInt8]

/-! ### Packets -/

/-- A short write of two bytes. -/
def shortWrite (writeReg : UInt8 → UInt16 → List Event) (mode data : UInt16) : List Event :=
  writeReg 0xB7 mode ++ writeReg 0xB8 0x0000 ++ writeReg 0xBC 0x0002 ++ writeReg 0xBF data

/-- The loop of a long write from `ii` on, `n` rounds at most: the transfers, and `para`. An odd
byte at the end is padded in `para`. -/
def longWriteLoop (writeData : UInt16 → List Event) (count : ℕ) :
    ℕ → ℕ → List UInt8 → Option (List Event × List UInt8)
  | 0, _, para => some ([], para)
  | n + 1, ii, para =>
      if count > 2 * ii then do
        let para ← if count = 2 * ii + 1 then
            if 2 * ii < para.length then some (para.set (2 * ii) 0) else none
          else some para
        let high ← para[2 * ii]?
        let low ← para[2 * ii - 1]?
        let (events, para) ← longWriteLoop writeData count n (ii + 1) para
        some (writeData (addBytes high low) ++ events, para)
      else some ([], para)

/-- A long write; `first` puts the first parameter and the register together. -/
def longWrite (writeReg : UInt8 → UInt16 → List Event) (writeData : UInt16 → List Event)
    (first : UInt8 → UInt8 → UInt16) (mode : UInt16) (regAddr : UInt8) (para : List UInt8)
    (count : ℕ) : Option (List Event × List UInt8) := do
  let high ← para[0]?
  let (events, para) ← longWriteLoop writeData count 255 1 para
  some (writeReg 0xB7 mode ++ writeReg 0xB8 0x0000 ++ writeReg 0xBC (UInt16.ofNat count) ++
    writeReg 0xBF (first high regAddr) ++ events, para)

/-- `CMDDCSShortWriteNoPara` -/
def cmdDCSShortWriteNoPara (command : UInt8) : List Event :=
  writeFPGATo2828 0xB7 0x0340 ++ writeFPGATo2828 0xB8 0x0000 ++ writeFPGATo2828 0xBC 0x0000 ++
    writeCMDFPGATo2828 command

/-- `CMDDCSShortWriteOnePara` -/
def cmdDCSShortWriteOnePara (command para : UInt8) : List Event :=
  shortWrite writeFPGATo2828 0x0340 (addBytes para command)

/-- `CMDGeneralShortWriteTwoPara` -/
def cmdGeneralShortWriteTwoPara (command para : UInt8) : List Event :=
  shortWrite writeFPGATo2828 0x0300 (addBytes para command)

/-- `CMDDCSLongWriteWithPara` -/
def cmdDCSLongWriteWithPara : UInt8 → List UInt8 → ℕ → Option (List Event × List UInt8) :=
  longWrite writeFPGATo2828 writeDATAFPGATo2828 addBytes 0x0340

/-- `CMDGerneralLongWriteWithPara` -/
def cmdGerneralLongWriteWithPara : UInt8 → List UInt8 → ℕ → Option (List Event × List UInt8) :=
  longWrite writeFPGATo2828 writeDATAFPGATo2828 addBytes 0x0300

/-- `mipi_cmd_dcs_short_write_no_param`; the command goes out by `mipi_cmd_write_data`. -/
def mipiCmdDcsShortWriteNoParam (command : UInt8) : List Event :=
  mipiCmdWriteRegData 0xB7 0x0340 ++ mipiCmdWriteRegData 0xB8 0x0000 ++
    mipiCmdWriteRegData 0xBC 0 ++
    mipiCmdWriteData command.toUInt16

/-- `mipi_cmd_dcs_short_write_1_param` -/
def mipiCmdDcsShortWrite1Param (command para : UInt8) : List Event :=
  shortWrite mipiCmdWriteRegData 0x0340 (wordBE16 para command)

/-- `mipi_cmd_gen_short_write_2_params` -/
def mipiCmdGenShortWrite2Params (command para : UInt8) : List Event :=
  shortWrite mipiCmdWriteRegData 0x0300 (wordBE16 para command)

/-- `mipi_cmd_dcs_long_write_n_params` -/
def mipiCmdDcsLongWriteNParams : UInt8 → List UInt8 → ℕ → Option (List Event × List UInt8) :=
  longWrite mipiCmdWriteRegData mipiCmdWriteData wordBE16 0x0340

/-- `mipi_cmd_gen_long_write_n_params` -/
def mipiCmdGenLongWriteNParams : UInt8 → List UInt8 → ℕ → Option (List Event × List UInt8) :=
  longWrite mipiCmdWriteRegData mipiCmdWriteData wordBE16 0x0300

/-! ### The walks -/

/-- The functions that a walk calls. -/
structure Helpers where
  shortNoPara : UInt8 → List Event
  shortOnePara : UInt8 → UInt8 → List Event
  generalTwoPara : UInt8 → UInt8 → List Event
  dcsLong : UInt8 → List UInt8 → ℕ → Option (List Event × List UInt8)
  generalLong : UInt8 → List UInt8 → ℕ → Option (List Event × List UInt8)

/-- The conditions on the first bytes of a record; `param` is the byte behind its length. -/
def cmdExecute (h : Helpers) (hsSignalOnFlag op reg len : UInt8) (param : Option UInt8)
    (mipiData : List UInt8) : Option (List Event × List UInt8) :=
  if op = 0x00 ∧ reg = 0x00 then
    some ([.delay (((mipiData.getD 0 0).toNat + (mipiData.getD 1 0).toNat * 256) % 65536)],
      mipiData)
  else if op = 0x05 then some (h.shortNoPara reg ++ [.delay 30], mipiData)
  else if op = 0x15 then do
    let p ← param
    some (h.shortOnePara reg p ++ [.delay 30], mipiData)
  else if op = 0x23 then do
    let p ← param
    some (h.generalTwoPara reg p ++ [.delay 30], mipiData)
  else if op = 0x29 then do
    let (events, mipiData) ← h.generalLong reg mipiData (len.toNat + 1)
    some (events ++ [.delay 30], mipiData)
  else if op = 0x39 then
    if hsSignalOnFlag = 0 then do
      let (events, mipiData) ← h.dcsLong reg mipiData (len.toNat + 1)
      some (events ++ [.delay 30], mipiData)
    else some ([], mipiData)
  else some ([], mipiData)

/-- `n` rounds of the loop at most. There is no result when it reads or writes outside of the
array or of `MipiData`. -/
def cmdLoop (h : Helpers) (hsSignalOnFlag : UInt8) (initCode : List UInt8) :
    ℕ → ℕ → List UInt8 → Option (List Event)
  | 0, _, _ => some []
  | n + 1, codePoint, mipiData => do
      let len ← initCode[codePoint + 2]?
      if len ≤ 250 then
        let bytes := (initCode.drop (codePoint + 3)).take len.toNat
        if bytes.length = len.toNat ∧ len.toNat ≤ mipiData.length then
          let mipiData := bytes ++ mipiData.drop len.toNat
          let op ← initCode[codePoint]?
          let reg ← initCode[codePoint + 1]?
          let (events, mipiData) ←
            cmdExecute h hsSignalOnFlag op reg len initCode[codePoint + 3]? mipiData
          let rest ← cmdLoop h hsSignalOnFlag initCode n
            ((codePoint + (len.toNat + 3)) % 65536) mipiData
          some (events ++ rest)
        else none
      else some []

def cmdHelpers : Helpers where
  shortNoPara := cmdDCSShortWriteNoPara
  shortOnePara := cmdDCSShortWriteOnePara
  generalTwoPara := cmdGeneralShortWriteTwoPara
  dcsLong := cmdDCSLongWriteWithPara
  generalLong := cmdGerneralLongWriteWithPara

/-- `SendCodeCMD`. `mipiData` is what its array holds at the start. -/
def sendCodeCMD (hsSignalOnFlag : UInt8) (mipiData initCode : List UInt8) : Option (List Event) :=
  cmdLoop cmdHelpers hsSignalOnFlag initCode maxMipiCodeLen 0 mipiData

def sp6Helpers : Helpers where
  shortNoPara := mipiCmdDcsShortWriteNoParam
  shortOnePara := mipiCmdDcsShortWrite1Param
  generalTwoPara := mipiCmdGenShortWrite2Params
  dcsLong := mipiCmdDcsLongWriteNParams
  generalLong := mipiCmdGenLongWriteNParams

/-- `mipi_cmd_send_code`. Its `MipiData` is zero at the start. -/
def mipiCmdSendCode (hsSignalOnFlag : UInt8) (initCode : List UInt8) : Option (List Event) :=
  cmdLoop sp6Helpers hsSignalOnFlag initCode maxMipiCodeLen 0 (List.replicate 250 0)

/-! ### What a record is sent as -/

/-- The words of a long write behind the first; an odd byte is padded. -/
def longWords : List UInt8 → List UInt16
  | [] => []
  | [a] => [addBytes 0 a]
  | a :: b :: rest => addBytes b a :: longWords rest

/-- The events of a long write. -/
def longEvents (writeReg : UInt8 → UInt16 → List Event) (mode : UInt16) (reg : UInt8)
    (params : List UInt8) : List Event :=
  writeReg 0xB7 mode ++ writeReg 0xB8 0x0000 ++ writeReg 0xBC (UInt16.ofNat (params.length + 1)) ++
    writeReg 0xBF (addBytes (params.getD 0 0) reg) ++
    (longWords params.tail).flatMap writeDATAFPGATo2828

/-- The events of a record, by the functions that write a register and that write without
parameters. -/
def Record.cmdEvents (writeReg : UInt8 → UInt16 → List Event) (noPara : UInt8 → List Event)
    (hsSignalOnFlag : UInt8) (r : Record) : List Event :=
  let p := fun k => r.params.getD k 0
  if r.opcode = 0x00 ∧ r.register = 0x00 then
    [.delay ((p 0).toNat + (p 1).toNat * 256)]
  else if r.opcode = 0x05 then noPara r.register ++ [.delay 30]
  else if r.opcode = 0x15 then
    shortWrite writeReg 0x0340 (addBytes (p 0) r.register) ++ [.delay 30]
  else if r.opcode = 0x23 then
    shortWrite writeReg 0x0300 (addBytes (p 0) r.register) ++ [.delay 30]
  else if r.opcode = 0x29 then
    longEvents writeReg 0x0300 r.register r.params ++ [.delay 30]
  else if r.opcode = 0x39 then
    if hsSignalOnFlag = 0 then
      longEvents writeReg 0x0340 r.register r.params ++ [.delay 30]
    else []
  else []

/-- A record with the parameters that command mode reads. -/
structure Record.WellFormed (r : Record) : Prop where
  delay : r.opcode = 0x00 ∧ r.register = 0x00 → 2 ≤ r.params.length
  short : r.opcode = 0x15 ∨ r.opcode = 0x23 → 1 ≤ r.params.length
  long : r.opcode = 0x29 ∨ r.opcode = 0x39 → 1 ≤ r.params.length

/-- A long write that is executed is padded inside of `MipiData`. -/
def Record.PadsInside (hsSignalOnFlag : UInt8) (r : Record) : Prop :=
  r.opcode = 0x29 ∨ r.opcode = 0x39 ∧ hsSignalOnFlag = 0 → r.params.length < 250

/-- Both senders call functions of this kind. -/
def helpersOf (writeReg : UInt8 → UInt16 → List Event) (noPara : UInt8 → List Event) : Helpers where
  shortNoPara := noPara
  shortOnePara := fun command para => shortWrite writeReg 0x0340 (addBytes para command)
  generalTwoPara := fun command para => shortWrite writeReg 0x0300 (addBytes para command)
  dcsLong := longWrite writeReg writeDATAFPGATo2828 addBytes 0x0340
  generalLong := longWrite writeReg writeDATAFPGATo2828 addBytes 0x0300

theorem wordBE16_eq_addBytes : wordBE16 = addBytes := by
  funext high low
  apply UInt16.toNat_inj.mp
  have hhigh := high.toNat_lt
  have hlow := low.toNat_lt
  rw [wordBE16_toNat, addBytes, UInt16.toNat_add, UInt16.toNat_shiftLeft, UInt8.toNat_toUInt16,
    UInt8.toNat_toUInt16]
  simp only [UInt16.reduceToNat, Nat.reduceMod, Nat.shiftLeft_eq, Nat.reducePow]
  omega

theorem cmdHelpers_eq : cmdHelpers = helpersOf writeFPGATo2828 cmdDCSShortWriteNoPara := rfl

theorem sp6Helpers_eq :
    sp6Helpers = helpersOf mipiCmdWriteRegData mipiCmdDcsShortWriteNoParam := by
  have hdata : mipiCmdWriteData = writeDATAFPGATo2828 := rfl
  have hshort : mipiCmdDcsShortWrite1Param = fun command para =>
      shortWrite mipiCmdWriteRegData 0x0340 (wordBE16 para command) := rfl
  have hgeneral : mipiCmdGenShortWrite2Params = fun command para =>
      shortWrite mipiCmdWriteRegData 0x0300 (wordBE16 para command) := rfl
  rw [sp6Helpers, helpersOf, mipiCmdDcsLongWriteNParams, mipiCmdGenLongWriteNParams,
    hshort, hgeneral,
    hdata, wordBE16_eq_addBytes]

/-! ### The walk -/

/-- The loop of a long write sends the words that are left; an odd last byte is padded by a byte
that does not belong to the record. -/
theorem longWriteLoop_eq (writeData : UInt16 → List Event) :
    ∀ (rest done junk : List UInt8) {n ii : ℕ}, done.length + 1 = 2 * ii →
      rest.length ≤ 2 * n → (rest.length % 2 = 1 → junk ≠ []) →
      ∃ para, longWriteLoop writeData (done.length + rest.length + 1) n ii (done ++ rest ++ junk) =
          some ((longWords rest).flatMap writeData, para) ∧
        para.length = (done ++ rest ++ junk).length
  | [], done, junk, n, ii, hdone, _, _ => by
      refine ⟨_, ?_, rfl⟩
      cases n with
      | zero => rfl
      | succ n =>
          rw [longWriteLoop, if_neg (by simp; omega)]
          rfl
  | [a], done, junk, n, ii, hdone, hn, hjunk => by
      -- the byte behind the last one is cleared and sent as the high byte of its word
      obtain ⟨j, junk, rfl⟩ := List.exists_cons_of_ne_nil (hjunk rfl)
      obtain ⟨n, rfl⟩ := Nat.exists_eq_add_of_le' (show 1 ≤ n by simp at hn; omega)
      have hlen : (done ++ [a] ++ j :: junk).length = 2 * ii + junk.length + 1 := by simp; omega
      have hset : (done ++ [a] ++ j :: junk).set (2 * ii) 0 = done ++ [a] ++ 0 :: junk := by
        rw [← hdone, List.set_append_right _ _ (by simp)]
        simp
      have hlow : (done ++ [a] ++ (0 : UInt8) :: junk)[2 * ii - 1]? = some a := by
        rw [← hdone]
        simp
      have hhigh : (done ++ [a] ++ (0 : UInt8) :: junk)[2 * ii]? = some 0 := by
        rw [← hdone]
        simp
      have hend : longWriteLoop writeData (done.length + [a].length + 1) n (ii + 1)
          (done ++ [a] ++ 0 :: junk) = some ([], done ++ [a] ++ 0 :: junk) := by
        cases n with
        | zero => rfl
        | succ n =>
            rw [longWriteLoop, if_neg (by simp; omega)]
      refine ⟨done ++ [a] ++ 0 :: junk, ?_, by simp⟩
      rw [longWriteLoop, if_pos (by simp; omega), if_pos (by simp; omega), if_pos (by omega), hset]
      simp only [Option.bind_eq_bind, Option.bind_some, hlow, hhigh, hend]
      rfl
  | a :: b :: rest, done, junk, n, ii, hdone, hn, hjunk => by
      -- a whole word, behind which the loop goes on
      obtain ⟨n, rfl⟩ := Nat.exists_eq_add_of_le' (show 1 ≤ n by simp at hn; omega)
      obtain ⟨para, hloop, hpara⟩ := longWriteLoop_eq writeData rest (done ++ [a, b]) junk
        (show (done ++ [a, b]).length + 1 = 2 * (ii + 1) by simp; omega)
        (show rest.length ≤ 2 * n by simp at hn; omega)
        (fun hodd => hjunk (by simp; omega))
      have hcount : (done ++ [a, b]).length + rest.length + 1 =
          done.length + (a :: b :: rest).length + 1 := by simp; omega
      have hbytes : done ++ [a, b] ++ rest ++ junk = done ++ a :: b :: rest ++ junk := by simp
      rw [hcount, hbytes] at hloop
      rw [hbytes] at hpara
      have hlow : (done ++ a :: b :: rest ++ junk)[2 * ii - 1]? = some a := by
        rw [← hdone]
        simp
      have hhigh : (done ++ a :: b :: rest ++ junk)[2 * ii]? = some b := by
        rw [← hdone]
        simp
      refine ⟨para, ?_, hpara⟩
      rw [longWriteLoop, if_pos (by simp; omega), if_neg (by simp; omega)]
      simp only [Option.bind_eq_bind, Option.bind_some, hlow, hhigh, hloop]
      rfl

theorem longWrite_eq (writeReg : UInt8 → UInt16 → List Event) (mode : UInt16) (reg : UInt8)
    {params junk : List UInt8} (hpos : 1 ≤ params.length) (hmax : params.length < 250)
    (hjunk : junk ≠ []) :
    ∃ para, longWrite writeReg writeDATAFPGATo2828 addBytes mode reg (params ++ junk)
          (params.length + 1) = some (longEvents writeReg mode reg params, para) ∧
        para.length = (params ++ junk).length := by
  obtain ⟨p, rest, rfl⟩ := List.exists_cons_of_length_pos hpos
  obtain ⟨para, hloop, hpara⟩ := longWriteLoop_eq writeDATAFPGATo2828 rest [p] junk
    (show [p].length + 1 = 2 * 1 from rfl) (show rest.length ≤ 2 * 255 by simp at hmax; omega)
    (fun _ => hjunk)
  have hcount : [p].length + rest.length + 1 = (p :: rest).length + 1 := by
    simp only [List.length_cons, List.length_nil]
    omega
  rw [hcount] at hloop
  refine ⟨para, ?_, hpara⟩
  rw [longWrite]
  simp only [List.cons_append, List.nil_append, List.getElem?_cons_zero, Option.bind_eq_bind,
    Option.bind_some] at hloop ⊢
  rw [hloop]
  rfl

section

variable {r : Record} {junk : List UInt8} {param : Option UInt8}

/-- The conditions on the first bytes of a well-formed record. -/
theorem cmdExecute_record (writeReg : UInt8 → UInt16 → List Event) (noPara : UInt8 → List Event)
    (hsSignalOnFlag : UInt8) (hr : r.WellFormed) (hpads : r.PadsInside hsSignalOnFlag)
    (hjunk : (r.params ++ junk).length = 250)
    (hparam : 1 ≤ r.params.length → param = some (r.params.getD 0 0)) :
    ∃ mipiData, cmdExecute (helpersOf writeReg noPara) hsSignalOnFlag r.opcode r.register
        (UInt8.ofNat r.params.length) param (r.params ++ junk) =
          some (r.cmdEvents writeReg noPara hsSignalOnFlag, mipiData) ∧
      mipiData.length = 250 := by
  have hjunk_ne : r.params.length < 250 → junk ≠ [] := by
    rintro hlt rfl
    rw [List.append_nil] at hjunk
    omega
  rw [cmdExecute, Record.cmdEvents]
  by_cases hdelay : r.opcode = 0x00 ∧ r.register = 0x00
  · have hlen := hr.delay hdelay
    rw [if_pos hdelay, if_pos hdelay, getD_param r junk (by omega), getD_param r junk (by omega),
      Nat.mod_eq_of_lt]
    · exact ⟨_, rfl, hjunk⟩
    · have h0 := (r.params.getD 0 0).toNat_lt
      have h1 := (r.params.getD 1 0).toNat_lt
      omega
  rw [if_neg hdelay, if_neg hdelay]
  by_cases h05 : r.opcode = 0x05
  · rw [if_pos h05, if_pos h05]
    exact ⟨_, rfl, hjunk⟩
  rw [if_neg h05, if_neg h05]
  by_cases h15 : r.opcode = 0x15
  · rw [if_pos h15, if_pos h15, hparam (hr.short (.inl h15))]
    exact ⟨_, rfl, hjunk⟩
  rw [if_neg h15, if_neg h15]
  by_cases h23 : r.opcode = 0x23
  · rw [if_pos h23, if_pos h23, hparam (hr.short (.inr h23))]
    exact ⟨_, rfl, hjunk⟩
  rw [if_neg h23, if_neg h23, r.toNat_length]
  by_cases h29 : r.opcode = 0x29
  · have hmax := hpads (.inl h29)
    obtain ⟨para, hlong, hpara⟩ := longWrite_eq writeReg 0x0300 r.register (hr.long (.inl h29)) hmax
      (hjunk_ne hmax)
    have hcall : (helpersOf writeReg noPara).generalLong r.register (r.params ++ junk)
        (r.params.length + 1) = some (longEvents writeReg 0x0300 r.register r.params, para) := hlong
    rw [if_pos h29, if_pos h29, hcall]
    exact ⟨para, rfl, hpara.trans hjunk⟩
  rw [if_neg h29, if_neg h29]
  by_cases h39 : r.opcode = 0x39
  · rw [if_pos h39, if_pos h39]
    by_cases hflag : hsSignalOnFlag = 0
    · have hmax := hpads (.inr ⟨h39, hflag⟩)
      obtain ⟨para, hlong, hpara⟩ := longWrite_eq writeReg 0x0340 r.register
        (hr.long (.inr h39)) hmax
        (hjunk_ne hmax)
      have hcall : (helpersOf writeReg noPara).dcsLong r.register (r.params ++ junk)
          (r.params.length + 1) = some (longEvents writeReg 0x0340 r.register r.params, para) :=
            hlong
      rw [if_pos hflag, if_pos hflag, hcall]
      exact ⟨para, rfl, hpara.trans hjunk⟩
    · rw [if_neg hflag, if_neg hflag]
      exact ⟨_, rfl, hjunk⟩
  · rw [if_neg h39, if_neg h39]
    exact ⟨_, rfl, hjunk⟩

end

/-- The walk over well-formed records up to a terminator. -/
theorem cmdLoop_records (writeReg : UInt8 → UInt16 → List Event) (noPara : UInt8 → List Event)
    (hsSignalOnFlag : UInt8) {b : UInt8} {rest : List UInt8} (hb : ¬ b ≤ 250) (rs : List Record)
    (hterm : rest[2]? = some b) (hrs : ∀ r ∈ rs, r.WellFormed)
    (hpads : ∀ r ∈ rs, r.PadsInside hsSignalOnFlag) :
    ∀ (n : ℕ) (front m : List UInt8), rs.length < n → m.length = 250 →
      front.length + (rs.flatMap Record.encode).length < 65536 →
      cmdLoop (helpersOf writeReg noPara) hsSignalOnFlag
          (front ++ rs.flatMap Record.encode ++ rest) n front.length m =
        some (rs.flatMap (Record.cmdEvents writeReg noPara hsSignalOnFlag)) := by
  induction rs with
  | nil =>
      intro n front m hn _ _
      obtain ⟨n, rfl⟩ := Nat.exists_eq_add_of_le' (Nat.one_le_of_lt hn)
      have hplace : (front ++ [] ++ rest)[front.length + 2]? = some b := by
        rw [List.append_nil, List.getElem?_append_right (by omega), Nat.add_sub_cancel_left, hterm]
      rw [List.flatMap_nil, cmdLoop, hplace]
      simp only [Option.bind_eq_bind, Option.bind_some, hb, if_false]
      rfl
  | cons r rs ih =>
      intro n front m hn hm hlen
      obtain ⟨n, rfl⟩ := Nat.exists_eq_add_of_le' (Nat.one_le_of_lt hn)
      obtain ⟨hr, hrs⟩ := List.forall_mem_cons.mp hrs
      obtain ⟨hpad, hpads⟩ := List.forall_mem_cons.mp hpads
      have hfits := r.fits
      rw [List.flatMap_cons, List.length_append, Record.length_encode] at hlen
      have hcode : front ++ (r.encode ++ rs.flatMap Record.encode) ++ rest =
          front ++ r.encode ++ (rs.flatMap Record.encode ++ rest) := by
        simp only [List.append_assoc]
      -- what the walk reads of the record it stands at
      have hat := getElem?_record front (rs.flatMap Record.encode ++ rest) r
      have hop : (front ++ r.encode ++ (rs.flatMap Record.encode ++ rest))[front.length]? =
          some r.opcode := by
        have h := hat 0
        rw [Nat.add_zero] at h
        exact h
      have hparams : ((front ++ r.encode ++ (rs.flatMap Record.encode ++ rest)).drop
          (front.length + 3)).take r.params.length = r.params := by
        rw [List.append_assoc, List.drop_length_add_append]
        exact List.take_left
      have hle : UInt8.ofNat r.params.length ≤ 250 := by
        rw [UInt8.le_iff_toNat_le, r.toNat_length]
        exact hfits
      have hparam : 1 ≤ r.params.length →
          (front ++ r.encode ++ (rs.flatMap Record.encode ++ rest))[front.length + 3]? =
            some (r.params.getD 0 0) :=
        fun hpos => getElem?_param front (rs.flatMap Record.encode ++ rest) r 0 hpos
      have hjunk : (r.params ++ m.drop r.params.length).length = 250 := by
        rw [List.length_append, List.length_drop]
        omega
      -- the record is executed, and the walk stands at the next one
      obtain ⟨mipiData, hexecute, hdata⟩ := cmdExecute_record writeReg noPara hsSignalOnFlag hr hpad
        hjunk hparam
      have hnext := ih hrs hpads n (front ++ r.encode) mipiData
        (by rw [List.length_cons] at hn; omega) hdata
        (by rw [List.length_append, Record.length_encode]; omega)
      rw [List.length_append, Record.length_encode, List.append_assoc (front ++ r.encode)] at hnext
      have hlen2 : (front ++ r.encode ++ (rs.flatMap Record.encode ++ rest))[front.length + 2]? =
        some (UInt8.ofNat r.params.length) := hat 2
      have hreg : (front ++ r.encode ++ (rs.flatMap Record.encode ++ rest))[front.length + 1]? =
        some r.register := hat 1
      have hroom : r.params.length ≤ m.length := by omega
      rw [List.flatMap_cons, hcode, cmdLoop, hlen2, hop, hreg]
      simp only [Option.bind_eq_bind, Option.bind_some, hle, if_true,
        r.toNat_length, hparams, hroom,
        and_self, hexecute]
      rw [Nat.mod_eq_of_lt (by omega), hnext]
      rfl

/-! ### The two senders -/

/-- Lists of pieces, of which those on the left are not shorter, are the same only if all pieces
are. -/
theorem flatMap_eq_flatMap_iff {α β : Type} {f g : α → List β} {l : List α}
    (hle : ∀ a ∈ l, (g a).length ≤ (f a).length) :
    l.flatMap f = l.flatMap g ↔ ∀ a ∈ l, f a = g a := by
  refine ⟨fun h => ?_, fun h => List.flatMap_congr h⟩
  have hlength : ∀ l : List α, (∀ a ∈ l, (g a).length ≤ (f a).length) →
      (l.flatMap g).length ≤ (l.flatMap f).length := by
    intro l hle
    rw [List.length_flatMap, List.length_flatMap]
    exact List.sum_le_sum hle
  induction l with
  | nil => simp
  | cons a l ih =>
      obtain ⟨ha, hl⟩ := List.forall_mem_cons.mp hle
      rw [List.flatMap_cons, List.flatMap_cons] at h
      have hsum := congrArg List.length h
      have hrest := hlength l hl
      rw [List.length_append, List.length_append] at hsum
      obtain ⟨hhead, htail⟩ := List.append_inj h (by omega)
      exact List.forall_mem_cons.mpr ⟨hhead, ih hl htail⟩

/-- The transfers and the delays, without the pauses between two transfers. -/
def packets (events : List Event) : List Event :=
  events.filter fun
    | .usleep _ => false
    | _ => true

@[simp] theorem packets_append (events events' : List Event) :
    packets (events ++ events') = packets events ++ packets events' := List.filter_append ..

theorem packets_flatMap {α : Type} (f : α → List Event) (l : List α) :
    packets (l.flatMap f) = l.flatMap fun a => packets (f a) := by
  rw [packets, List.filter_flatMap]
  rfl

@[simp] theorem packets_writeReg (addr : UInt8) (data : UInt16) :
    packets (mipiCmdWriteRegData addr data) = writeFPGATo2828 addr data := rfl

@[simp] theorem packets_writeFPGATo2828 (addr : UInt8) (data : UInt16) :
    packets (writeFPGATo2828 addr data) = writeFPGATo2828 addr data := rfl

@[simp] theorem packets_transfer (header high low : UInt8) (events : List Event) :
    packets (.transfer header high low :: events) =
      .transfer header high low :: packets events := rfl

@[simp] theorem packets_delay (ms : ℕ) : packets [.delay ms] = [.delay ms] := rfl

@[simp] theorem packets_words (words : List UInt16) :
    packets (words.flatMap writeDATAFPGATo2828) = words.flatMap writeDATAFPGATo2828 := by
  rw [packets_flatMap]
  rfl

/-- The record is executed and writes to the chip. -/
def Record.Writes (hsSignalOnFlag : UInt8) (r : Record) : Prop :=
  r.opcode = 0x05 ∨ r.opcode = 0x15 ∨ r.opcode = 0x23 ∨ r.opcode = 0x29 ∨
    r.opcode = 0x39 ∧ hsSignalOnFlag = 0

instance (hsSignalOnFlag : UInt8) (r : Record) : Decidable (r.Writes hsSignalOnFlag) :=
  inferInstanceAs (Decidable (_ ∨ _ ∨ _ ∨ _ ∨ _))

section

variable (hsSignalOnFlag : UInt8) (r : Record)

/-- What the senders make of a record. -/
def Record.sp6Events : List Event :=
  r.cmdEvents mipiCmdWriteRegData mipiCmdDcsShortWriteNoParam hsSignalOnFlag

def Record.cmd2828Events : List Event :=
  r.cmdEvents writeFPGATo2828 cmdDCSShortWriteNoPara hsSignalOnFlag

/-- A record that writes takes pauses more; any other is sent as the same. -/
theorem cmdEvents_writes :
    if r.Writes hsSignalOnFlag then
      (r.cmd2828Events hsSignalOnFlag).length < (r.sp6Events hsSignalOnFlag).length
    else r.sp6Events hsSignalOnFlag = r.cmd2828Events hsSignalOnFlag := by
  have hreg : ∀ addr data, (mipiCmdWriteRegData addr data).length = 3 := fun _ _ => rfl
  have hreg' : ∀ addr data, (writeFPGATo2828 addr data).length = 2 := fun _ _ => rfl
  simp only [Record.sp6Events, Record.cmd2828Events, Record.cmdEvents, Record.Writes]
  by_cases h00 : r.opcode = 0x00
  · simp [h00]
  by_cases h05 : r.opcode = 0x05
  · simp [h05, mipiCmdDcsShortWriteNoParam, cmdDCSShortWriteNoPara, hreg, hreg', mipiCmdWriteData,
      writeCMDFPGATo2828]
  by_cases h15 : r.opcode = 0x15
  · simp [h15, shortWrite, hreg, hreg']
  by_cases h23 : r.opcode = 0x23
  · simp [h23, shortWrite, hreg, hreg']
  by_cases h29 : r.opcode = 0x29
  · simp [h29, longEvents, hreg, hreg']
    omega
  by_cases h39 : r.opcode = 0x39
  · by_cases hflag : hsSignalOnFlag = 0
    · simp [h39, hflag, longEvents, hreg, hreg']
      omega
    · simp [h39, hflag]
  · simp [h00, h05, h15, h23, h29, h39]

/-- Only a command without parameters is sent as something else, of the same length. -/
theorem packets_cmdEvents :
    if r.opcode = 0x05 then
      packets (r.sp6Events hsSignalOnFlag) ≠ packets (r.cmd2828Events hsSignalOnFlag) ∧
        (packets (r.cmd2828Events hsSignalOnFlag)).length =
          (packets (r.sp6Events hsSignalOnFlag)).length
    else packets (r.sp6Events hsSignalOnFlag) = packets (r.cmd2828Events hsSignalOnFlag) := by
  rw [Record.sp6Events, Record.cmd2828Events, Record.cmdEvents, Record.cmdEvents]
  by_cases h05 : r.opcode = 0x05
  · simp [h05, mipiCmdDcsShortWriteNoParam, cmdDCSShortWriteNoPara, mipiCmdWriteData,
      writeCMDFPGATo2828]
  · simp only [h05, if_false]
    split_ifs <;> simp [shortWrite, longEvents]

end

section

variable {rs : List Record} {hsSignalOnFlag : UInt8} {fill : ℕ}

/-- A walk over an array of records with the filling behind. -/
theorem cmdLoop_array (writeReg : UInt8 → UInt16 → List Event) (noPara : UInt8 → List Event)
    {m : List UInt8} (hm : m.length = 250) (hrs : ∀ r ∈ rs, r.WellFormed)
    (hpads : ∀ r ∈ rs, r.PadsInside hsSignalOnFlag) (hfill : 3 ≤ fill)
    (hcap : (rs.flatMap Record.encode ++ List.replicate fill (0xff : UInt8)).length ≤
      maxMipiCodeLen) :
    cmdLoop (helpersOf writeReg noPara) hsSignalOnFlag
        (rs.flatMap Record.encode ++ List.replicate fill 0xff) maxMipiCodeLen 0 m =
      some (rs.flatMap (Record.cmdEvents writeReg noPara hsSignalOnFlag)) := by
  have hmax : maxMipiCodeLen = 8192 := rfl
  have hrounds := Record.length_le_length_flatMap_encode rs
  rw [List.length_append, List.length_replicate] at hcap
  have hterm : (List.replicate fill (0xff : UInt8))[2]? = some 0xff := by
    rw [List.getElem?_replicate, if_pos (by omega)]
  exact cmdLoop_records writeReg noPara hsSignalOnFlag (by decide) rs hterm hrs hpads
    maxMipiCodeLen []
    m (by omega) hm (by rw [List.length_nil]; omega)

theorem mipiCmdSendCode_array (hrs : ∀ r ∈ rs, r.WellFormed)
    (hpads : ∀ r ∈ rs, r.PadsInside hsSignalOnFlag) (hfill : 3 ≤ fill)
    (hcap : (rs.flatMap Record.encode ++ List.replicate fill (0xff : UInt8)).length ≤
      maxMipiCodeLen) :
    mipiCmdSendCode hsSignalOnFlag (rs.flatMap Record.encode ++ List.replicate fill 0xff) =
      some (rs.flatMap (Record.sp6Events hsSignalOnFlag)) := by
  rw [mipiCmdSendCode, sp6Helpers_eq]
  exact cmdLoop_array _ _ List.length_replicate hrs hpads hfill hcap

theorem sendCodeCMD_array {mipiData : List UInt8} (hm : mipiData.length = 250)
    (hrs : ∀ r ∈ rs, r.WellFormed) (hpads : ∀ r ∈ rs, r.PadsInside hsSignalOnFlag)
    (hfill : 3 ≤ fill)
    (hcap : (rs.flatMap Record.encode ++ List.replicate fill (0xff : UInt8)).length ≤
      maxMipiCodeLen) :
    sendCodeCMD hsSignalOnFlag mipiData (rs.flatMap Record.encode ++ List.replicate fill 0xff) =
      some (rs.flatMap (Record.cmd2828Events hsSignalOnFlag)) := by
  rw [sendCodeCMD, cmdHelpers_eq]
  exact cmdLoop_array _ _ hm hrs hpads hfill hcap

/-- On every well-formed array the two senders make the same transfers and delays, if and only if
no record writes without parameters; pauses included, if and only if no record writes at all. -/
theorem sameTransfers_iff (mipiData : List UInt8) (hm : mipiData.length = 250)
    (hrs : ∀ r ∈ rs, r.WellFormed) (hpads : ∀ r ∈ rs, r.PadsInside hsSignalOnFlag)
    (hfill : 3 ≤ fill)
    (hcap : (rs.flatMap Record.encode ++ List.replicate fill (0xff : UInt8)).length ≤
      maxMipiCodeLen) :
    ∃ sp6 cmd,
      mipiCmdSendCode hsSignalOnFlag (rs.flatMap Record.encode ++ List.replicate fill 0xff) =
          some sp6 ∧
        sendCodeCMD hsSignalOnFlag mipiData
            (rs.flatMap Record.encode ++ List.replicate fill 0xff) = some cmd ∧
          (packets sp6 = packets cmd ↔ ∀ r ∈ rs, r.opcode ≠ 0x05) ∧
          (sp6 = cmd ↔ ∀ r ∈ rs, ¬ r.Writes hsSignalOnFlag) := by
  refine ⟨rs.flatMap (Record.sp6Events hsSignalOnFlag),
    rs.flatMap (Record.cmd2828Events hsSignalOnFlag),
    mipiCmdSendCode_array hrs hpads hfill hcap, sendCodeCMD_array hm hrs hpads hfill hcap, ?_, ?_⟩
  · have hpackets := packets_cmdEvents hsSignalOnFlag
    rw [packets_flatMap, packets_flatMap, flatMap_eq_flatMap_iff]
    · apply forall₂_congr
      intro r _
      specialize hpackets r
      split at hpackets
      · exact iff_of_false hpackets.1 (not_not.mpr ‹_›)
      · exact iff_of_true hpackets ‹_›
    · intro r _
      specialize hpackets r
      split at hpackets
      · exact hpackets.2.le
      · exact (congrArg List.length hpackets).ge
  · have hwrites := cmdEvents_writes hsSignalOnFlag
    rw [flatMap_eq_flatMap_iff]
    · apply forall₂_congr
      intro r _
      specialize hwrites r
      split at hwrites
      · exact iff_of_false (fun h => hwrites.ne' (congrArg List.length h)) (not_not.mpr ‹_›)
      · exact iff_of_true hwrites ‹_›
    · intro r _
      specialize hwrites r
      split at hwrites
      · exact hwrites.le
      · exact (congrArg List.length hwrites).ge

/-- A short write with a parameter, a delay and a long write of an odd number of bytes. -/
def threeRecords : List Record :=
  [⟨0x15, 0x11, [0x22], by decide⟩, ⟨0x00, 0x00, [120, 0], by decide⟩,
    ⟨0x39, 0xE0, [1, 2], by decide⟩]

theorem sameTransfers_threeRecords : ∃ sp6 cmd,
    mipiCmdSendCode 0 (threeRecords.flatMap Record.encode ++ List.replicate 3 0xff) = some sp6 ∧
      sendCodeCMD 0 (List.replicate 250 7)
        (threeRecords.flatMap Record.encode ++ List.replicate 3 0xff) = some cmd ∧
        packets sp6 = packets cmd := by
  have hwell : ∀ r ∈ threeRecords, r.WellFormed := by
    refine List.forall_mem_cons.mpr ⟨⟨by decide, by decide, by decide⟩, List.forall_mem_cons.mpr
      ⟨⟨by decide, by decide, by decide⟩, List.forall_mem_singleton.mpr
        ⟨by decide, by decide, by decide⟩⟩⟩
  have hpads : ∀ r ∈ threeRecords, r.PadsInside 0 := by
    refine List.forall_mem_cons.mpr ⟨fun _ => by decide, List.forall_mem_cons.mpr
      ⟨fun _ => by decide, List.forall_mem_singleton.mpr fun _ => by decide⟩⟩
  obtain ⟨sp6, cmd, hsp6, hcmd, hsame, -⟩ := sameTransfers_iff (List.replicate 250 7)
    List.length_replicate hwell hpads (show 3 ≤ 3 from le_rfl) (by decide)
  refine ⟨sp6, cmd, hsp6, hcmd, hsame.mpr ?_⟩
  exact List.forall_mem_cons.mpr ⟨by decide, List.forall_mem_cons.mpr
    ⟨by decide, List.forall_mem_singleton.mpr (by decide)⟩⟩

/-- `05 29` is sent as a command by the one and as data by the other. -/
theorem not_sameTransfers_short_write :
    (mipiCmdSendCode 0 [0x05, 0x29, 0, 0xff, 0xff, 0xff]).map packets ≠
      (sendCodeCMD 0 (List.replicate 250 0) [0x05, 0x29, 0, 0xff, 0xff, 0xff]).map packets := by
  have hwell : ∀ r ∈ ([⟨0x05, 0x29, [], by decide⟩] : List Record), r.WellFormed :=
    List.forall_mem_singleton.mpr ⟨by decide, by decide, by decide⟩
  have hpads : ∀ r ∈ ([⟨0x05, 0x29, [], by decide⟩] : List Record), r.PadsInside 0 :=
    List.forall_mem_singleton.mpr fun _ => by decide
  have hsp6 := mipiCmdSendCode_array hwell hpads (show 3 ≤ 3 from le_rfl) (by decide)
  have hcmd := sendCodeCMD_array (List.length_replicate (a := (0 : UInt8))) hwell hpads
    (show 3 ≤ 3 from le_rfl) (by decide)
  intro h
  have heq := (congrArg (Option.map packets) hsp6).symm.trans
    (h.trans (congrArg (Option.map packets) hcmd))
  rw [Option.map_some, Option.map_some, List.flatMap_singleton, List.flatMap_singleton] at heq
  exact absurd (Option.some.inj heq) (by decide)

end

end PanelTester.Mipi
