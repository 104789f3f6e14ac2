import PanelTester.Icm.Dispatch
import PanelTester.Mipi.Callers

/-!
The drivers of the chips JD9367 and NT35521S behind the IC manager, `chip_jd9367.c` and
`chip_nt_35521s.c`, as far as they check a chip and write and read its vcom. Both test a flag
that their private data of a channel hold, `id_ok`, before they write or read. The check of the
one passes and never sets it; the check of the other sets it, and then sets a page with an array
that has no end for `SendCode`. So no check that passes is worth anything.
-/

namespace PanelTester.Icm

open Library

/-! ### Panels -/

/-- What the drivers send to a panel. `SendCode` of a record that sets a page is one command; a long
write is the register and its parameters, which are one less than the `count` of the call. -/
inductive Command
  | setPage (pageNo : UInt8)
  | dcsLongWriteWithPara (regAddr : UInt8) (para : List UInt8)

/-- What a call of `SendCode` finds: the answers of the panel, what its array of 250 bytes holds,
and the two values that it keeps. -/
structure SendCodeCall where
  answers : ℕ → Mipi.Answer
  mipiData : List UInt8
  mipiData_length : mipiData.length = 250
  curflick : UInt8
  curpolar : UInt8

/-- The panels on the mipi channels: what a command makes of them, what `ReadModReg` leaves in its
buffer, and what `SendCode` finds when it is called. -/
structure Panel (π : Type) where
  send : π → ℤ → Command → π
  readModReg : π → ℤ → UInt8 → ℕ → List UInt8 × π
  sendCodeCall : π → ℤ → SendCodeCall

/-- `jd_9367_info_t` -/
structure Jd9367Info where
  id : List UInt8
  idOk : UInt8
  vcom1 : ℕ
  vcom1OtpTimes : ℕ
  vcom2 : ℕ
  vcom2OtpTimes : ℕ

/-- `nt_35521s_info_t` -/
structure Nt35521sInfo where
  id : List UInt8
  idOk : UInt8
  vcom : ℕ
  vcomOtpTimes : ℕ

/-- The variables of the IC manager and of the drivers, with the panels, and what was sent to
them so far. -/
structure System (π : Type) where
  manager : IcManager
  jd9367 : ℕ → Jd9367Info
  nt35521s : ℕ → Nt35521sInfo
  panel : π
  sent : List (ℤ × Command)

/-- The variables before any call. -/
def System.start {π : Type} (panel : π) : System π where
  manager := .start
  jd9367 := fun _ => ⟨[0, 0, 0], 0, 0, 0, 0, 0⟩
  nt35521s := fun _ => ⟨[0, 0, 0], 0, 0, 0⟩
  panel := panel
  sent := []

section

variable {π : Type} (P : Panel π) (compiled : ChipId → Bool)

namespace System

def send (s : System π) (mipiChannel : ℤ) (command : Command) : System π :=
  { s with panel := P.send s.panel mipiChannel command, sent := s.sent ++ [(mipiChannel, command)] }

def readModReg (s : System π) (mipiChannel : ℤ) (regAddr : UInt8) (len : ℕ) :
    List UInt8 × System π :=
  let r := P.readModReg s.panel mipiChannel regAddr len
  (r.1, { s with panel := r.2 })

/-! ### JD9367 -/

/-- `jd_9367_read_vcom` -/
def jd9367ReadVcom (s : System π) (mipiChannel : ℤ) : ℤ × System π :=
  let s := s.send P mipiChannel (.setPage 0)
  let s := s.send P mipiChannel (.setPage 1)
  let (reg0, s) := s.readModReg P mipiChannel 0x52 1
  let (reg1, s) := s.readModReg P mipiChannel 0x53 1
  (((reg0.headD 0).toNat * 256 + (reg1.headD 0).toNat : ℕ), s)

/-- `jd_9367_write_vcom` -/
def jd9367WriteVcom (s : System π) (mipiChannel : ℤ) (vcom : ℤ) (otpBurned : Bool) : System π :=
  let s := s.send P mipiChannel (.setPage 0)
  let s := s.send P mipiChannel (.setPage 1)
  let s := s.send P mipiChannel
    (.dcsLongWriteWithPara 0x56 [if otpBurned then 0x11 else 0x00])
  let s := s.send P mipiChannel
    (.dcsLongWriteWithPara 0x52 [UInt8.ofInt ((vcom >>> (8 : ℕ)) % 2)])
  s.send P mipiChannel (.dcsLongWriteWithPara 0x53 [UInt8.ofInt vcom])

/-- `chip_jd_9367_check_chip_ok` -/
def chipJd9367CheckChipOk (s : System π) : ℤ × System π := (0, s)

/-- `chip_jd_9367_get_and_reset_private_data` -/
def chipJd9367GetAndResetPrivateData (s : System π) (chipChannel : ℕ) : System π :=
  { s with jd9367 := Function.update s.jd9367 chipChannel ⟨[0, 0, 0], 0, 0, 0, 0, 0⟩ }

/-- `chip_jd_9367_read_vcom` -/
def chipJd9367ReadVcom (s : System π) (chipChannel : ℕ) (mipiChannel : ℤ) :
    (ℤ × Option ℤ) × System π :=
  if (s.jd9367 chipChannel).idOk = 1 then
    let (vcom, s) := s.jd9367ReadVcom P mipiChannel
    ((0, some vcom), s)
  else ((-1, none), s)

/-- `chip_jd_9367_write_vcom` -/
def chipJd9367WriteVcom (s : System π) (chipChannel : ℕ) (mipiChannel : ℤ) (vcomValue : ℤ) :
    ℤ × System π :=
  if (s.jd9367 chipChannel).idOk = 1 then
    if (s.jd9367 chipChannel).vcom1OtpTimes = 0 then
      (0, s.jd9367WriteVcom P mipiChannel vcomValue false)
    else (0, s.jd9367WriteVcom P mipiChannel vcomValue true)
  else (-1, s)

/-! ### NT35521S -/

/-- `nt_35521s_get_vcom_otp_times` -/
def nt35521sGetVcomOtpTimes (s : System π) (mipiChannel : ℤ) : ℕ × System π :=
  let (reg, s) := s.readModReg P mipiChannel 0xB6 3
  let otpTimes :=
    match (reg.getD 2 0).toNat / 2 ^ 5 with
    | 7 => 0
    | 3 => 1
    | 1 => 2
    | 0 => 3
    | _ => 3
  (otpTimes, s)

/-- `nt_35521s_set_page`, which has no result when `SendCode` leaves its array. -/
def nt35521sSetPage (s : System π) (mipiChannel : ℤ) (pageNo : UInt8) : Option (System π) :=
  let call := P.sendCodeCall s.panel mipiChannel
  ((Mipi.Caller.nt35521sSetPage pageNo).sendCode call.answers call.mipiData call.curflick
    call.curpolar).map fun _ => s.send P mipiChannel (.setPage pageNo)

/-- `nt_35521s_read_vcom` -/
def nt35521sReadVcom (s : System π) (mipiChannel : ℤ) : Option (ℕ × System π) := do
  let s ← s.nt35521sSetPage P mipiChannel 1
  let (reg, s) := s.readModReg P mipiChannel 0xBE 1
  return ((reg.headD 0).toNat, s)

/-- `nt_35521s_write_vcom` -/
def nt35521sWriteVcom (s : System π) (mipiChannel : ℤ) (vcomValue : ℤ) : Option (System π) := do
  let s ← s.nt35521sSetPage P mipiChannel 1
  return s.send P mipiChannel (.dcsLongWriteWithPara 0xBE [UInt8.ofInt vcomValue, 0])

/-- `chip_nt_35521s_get_chip_id`: the ID, unless it is another chip. -/
def chipNt35521sGetChipId (s : System π) (mipiChannel : ℤ) : Option (List UInt8) × System π :=
  let (reg, s) := s.readModReg P mipiChannel 0x04 3
  (if reg = [0x00, 0x80, 0x00] then some reg else none, s)

/-- The private data of a channel are changed. -/
def modifyNt35521s (s : System π) (chipChannel : ℕ) (f : Nt35521sInfo → Nt35521sInfo) : System π :=
  { s with nt35521s := Function.update s.nt35521s chipChannel (f (s.nt35521s chipChannel)) }

/-- `chip_nt_35521s_check_chip_ok`. The ID that is tested is an earlier one if none was read. -/
def chipNt35521sCheckChipOk (s : System π) (chipChannel : ℕ) (mipiChannel : ℤ) :
    Option (ℤ × System π) :=
  let (idData, s) := s.chipNt35521sGetChipId P mipiChannel
  let s := s.modifyNt35521s chipChannel fun info => { info with id := idData.getD info.id }
  if (s.nt35521s chipChannel).id ≠ [0x00, 0x80, 0x00] then
    some (-1, s.modifyNt35521s chipChannel fun info => { info with idOk := 0 })
  else
    let s := s.modifyNt35521s chipChannel fun info => { info with idOk := 1 }
    let (vcomOtpTimes, s) := s.nt35521sGetVcomOtpTimes P mipiChannel
    let s := s.modifyNt35521s chipChannel fun info => { info with vcomOtpTimes := vcomOtpTimes }
    (s.nt35521sReadVcom P mipiChannel).map fun (vcom, s) =>
      (0, s.modifyNt35521s chipChannel fun info => { info with vcom := vcom })

/-- `chip_nt_35521s_get_and_reset_private_data` -/
def chipNt35521sGetAndResetPrivateData (s : System π) (chipChannel : ℕ) : System π :=
  s.modifyNt35521s chipChannel fun _ => ⟨[0, 0, 0], 0, 0, 0⟩

/-- `chip_nt_35521s_read_vcom` -/
def chipNt35521sReadVcom (s : System π) (chipChannel : ℕ) (mipiChannel : ℤ) :
    Option ((ℤ × Option ℤ) × System π) :=
  if (s.nt35521s chipChannel).idOk = 1 then
    (s.nt35521sReadVcom P mipiChannel).map fun (vcom, s) => ((0, some (vcom : ℤ)), s)
  else some ((-1, none), s)

/-- `chip_nt_35521s_write_vcom`; both of its branches do the same. -/
def chipNt35521sWriteVcom (s : System π) (chipChannel : ℕ) (mipiChannel : ℤ) (vcomValue : ℤ) :
    Option (ℤ × System π) :=
  if (s.nt35521s chipChannel).idOk = 1 then
    if (s.nt35521s chipChannel).vcomOtpTimes = 0 then
      (s.nt35521sWriteVcom P mipiChannel vcomValue).map fun s => (0, s)
    else (s.nt35521sWriteVcom P mipiChannel vcomValue).map fun s => (0, s)
  else some (-1, s)

/-! ### The calls of the IC manager -/

/-- The callbacks of these chips that are called here are there. -/
def callbacks : ChipId → Callback → Bool := fun _ _ => true

/-- An operation calls `driver` for the chip and the channel that the manager finds, or returns
`idle`. -/
def operate {β : Type} (operation : Operation) (idle : β)
    (driver : ChipId → ℕ → ℤ → System π → Option (β × System π)) (s : System π) (mipiChannel : ℤ) :
    Option (β × System π) :=
  match operation.function callbacks s.manager mipiChannel () 0 with
  | some (_, [.operation chip _ channel mipiChannel _ _]) =>
      driver chip channel.toNat mipiChannel s
  | some _ => some (idle, s)
  | none => none

/-- `ic_mgr_check_chip_ok`. The default chip fails, and no other chip is selected here. -/
def checkChipOk : System π → ℤ → Option (ℤ × System π) :=
  operate .checkChipOk (-1) fun chip channel mipiChannel s =>
    match chip with
    | .jd9367 => some s.chipJd9367CheckChipOk
    | .nt35521s => s.chipNt35521sCheckChipOk P channel mipiChannel
    | _ => some (-1, s)

/-- `ic_mgr_write_vcom` -/
def writeVcom (s : System π) (mipiChannel : ℤ) (vcomValue : ℤ) : Option (ℤ × System π) :=
  operate .writeVcom (-1) (fun chip channel mipiChannel s =>
    match chip with
    | .jd9367 => some (s.chipJd9367WriteVcom P channel mipiChannel vcomValue)
    | .nt35521s => s.chipNt35521sWriteVcom P channel mipiChannel vcomValue
    | _ => some (-1, s)) s mipiChannel

/-- `ic_mgr_read_vcom`: what it returns, and the value if it stored one. -/
def readVcom : System π → ℤ → Option ((ℤ × Option ℤ) × System π) :=
  operate .readVcom (-1, none) fun chip channel mipiChannel s =>
    match chip with
    | .jd9367 => some (s.chipJd9367ReadVcom P channel mipiChannel)
    | .nt35521s => s.chipNt35521sReadVcom P channel mipiChannel
    | _ => some ((-1, none), s)

/-- The callback that a channel is set with. -/
def getAndResetPrivateData (s : System π) : Call Unit → System π
  | .getAndResetPrivateData .jd9367 channel => s.chipJd9367GetAndResetPrivateData channel.toNat
  | .getAndResetPrivateData .nt35521s channel => s.chipNt35521sGetAndResetPrivateData channel.toNat
  | _ => s

/-- `ic_mgr_set_mipi_channel` -/
def setMipiChannel (s : System π) (channel mipiChannel : ℤ) : Option (System π) :=
  (icMgrSetMipiChannel callbacks s.manager channel mipiChannel).map fun (calls, manager) =>
    calls.foldl getAndResetPrivateData { s with manager := manager }

/-- `ic_mgr_reset_mipi_channel` -/
def resetMipiChannel (s : System π) (channel : ℤ) : Option (System π) :=
  (icMgrResetMipiChannel s.manager channel).map fun manager => { s with manager := manager }

end System

/-- The names of the two chips. -/
inductive ChipName
  | jd9367
  | nt35521s

def ChipName.str : ChipName → Str
  | jd9367 => "jd9367".toList
  | nt35521s => "nt35521s".toList

/-- The calls of the IC manager that are made on the two chips. -/
inductive Request
  | init
  | setMyChipId (name : ChipName)
  | setMipiChannel (channel mipiChannel : ℤ)
  | resetMipiChannel (channel : ℤ)
  | checkChipOk (mipiChannel : ℤ)
  | writeVcom (mipiChannel : ℤ) (vcomValue : ℤ)
  | readVcom (mipiChannel : ℤ)

/-- The state behind a call; none if it leaves the table of channels, or `SendCode` its array. -/
def System.perform (s : System π) : Request → Option (System π)
  | .init => some { s with manager := icMgrInit s.manager }
  | .setMyChipId name =>
      some { s with manager := (icMgrSetMyChipId compiled s.manager name.str).2 }
  | .setMipiChannel channel mipiChannel => s.setMipiChannel channel mipiChannel
  | .resetMipiChannel channel => s.resetMipiChannel channel
  | .checkChipOk mipiChannel => (s.checkChipOk P mipiChannel).map Prod.snd
  | .writeVcom mipiChannel vcomValue => (s.writeVcom P mipiChannel vcomValue).map Prod.snd
  | .readVcom mipiChannel => (s.readVcom P mipiChannel).map Prod.snd

/-- The state behind a history of calls. -/
def System.performAll (s : System π) (requests : List Request) : Option (System π) :=
  requests.foldlM (fun s request => s.perform P compiled request) s

/-! ### What is promised of a check -/

/-- The values of vcom that a chip knows: nine bits, or eight. -/
def vcomRange : ChipId → ℤ
  | .jd9367 => 512
  | _ => 256

/-- The commands carry a value to the register of the chip. -/
def Carries (mipiChannel : ℤ) (vcomValue : ℤ) (commands : List (ℤ × Command)) : ChipId → Prop
  | .jd9367 =>
      (mipiChannel, .dcsLongWriteWithPara 0x52 [UInt8.ofInt (vcomValue / 256)]) ∈ commands ∧
        (mipiChannel, .dcsLongWriteWithPara 0x53 [UInt8.ofInt vcomValue]) ∈ commands
  | _ => (mipiChannel, .dcsLongWriteWithPara 0xBE [UInt8.ofInt vcomValue, 0]) ∈ commands

/-- A write of a vcom goes to the panel, and a read behind it gives it back. -/
def System.WritesVcom (s : System π) (mipiChannel v : ℤ) : Prop :=
  ∃ chip, s.manager.currentChip = some chip ∧
    ∃ s₁ commands, s.writeVcom P mipiChannel v = some (0, s₁) ∧
      s₁.sent = s.sent ++ commands ∧ Carries mipiChannel v commands chip ∧
      ∃ s₂, s₁.readVcom P mipiChannel = some ((0, some v), s₂)

/-- A vcom that the chip that is selected knows. -/
def System.InRange (s : System π) (v : ℤ) : Prop :=
  0 ≤ v ∧ ∀ chip, s.manager.currentChip = some chip → v < vcomRange chip

/-- The panel returns the vcom that was written: that of NT35521S, and the two bytes of JD9367. -/
def Panel.ReturnsWritten : Prop := ∀ (p : π) (mipiChannel : ℤ),
  let send p command := P.send p mipiChannel command
  let read p regAddr := P.readModReg p mipiChannel regAddr 1
  (∀ b, (read (send (send (send p (.setPage 1)) (.dcsLongWriteWithPara 0xBE [b, 0]))
    (.setPage 1)) 0xBE).1 = [b]) ∧
  ∀ b b₀ b₁,
    let p := send (send (send (send (send (send (send p (.setPage 0)) (.setPage 1))
      (.dcsLongWriteWithPara 0x56 [b])) (.dcsLongWriteWithPara 0x52 [b₀]))
      (.dcsLongWriteWithPara 0x53 [b₁])) (.setPage 0)) (.setPage 1)
    (read p 0x52).1 = [b₀] ∧ (read (read p 0x52).2 0x53).1 = [b₁]

end

section

variable {π : Type} {P : Panel π} {compiled : ChipId → Bool} {s s' : System π}
  {mipiChannel : ℤ} {channel : ℕ} {chip : ChipId}

/-! ### Operations -/

section

variable {β : Type} {operation : Operation} {idle : β}
  {driver : ChipId → ℕ → ℤ → System π → Option (β × System π)}

theorem System.operate_eq
    (hchannel : getChipChannelByMipiChannel s.manager mipiChannel = some channel)
    (hchip : s.manager.currentChip = some chip) :
    operate operation idle driver s mipiChannel = driver chip channel mipiChannel s := by
  rw [operate, operation.function_eq, passOn_eq hchannel hchip]
  rfl

theorem System.operate_idle
    (h : getChipChannelByMipiChannel s.manager mipiChannel = none ∨ s.manager.currentChip = none) :
    operate operation idle driver s mipiChannel = some (idle, s) := by
  rw [operate, operation.function_eq, passOn_idle h]

/-- What every driver leaves alone stays as it is. -/
theorem System.operate_keeps {γ : Type} {f : System π → γ} {b : β}
    (hdriver : ∀ chip channel m s r, driver chip channel m s = some r → f r.2 = f s)
    (h : operate operation idle driver s mipiChannel = some (b, s')) : f s' = f s := by
  rw [operate] at h
  split at h
  · exact hdriver _ _ _ s _ h
  · rw [(Prod.mk.inj (Option.some.inj h)).2]
  · exact absurd h (by simp)

end

/-! ### The page of NT35521S -/

/-- The array of a page has no end for `SendCode`. -/
theorem System.nt35521sSetPage_eq_none (s : System π) (pageNo : UInt8) :
    s.nt35521sSetPage P mipiChannel pageNo = none := by
  rw [nt35521sSetPage, Mipi.Caller.sendCode, Mipi.Caller.array, Option.bind_eq_bind,
    Option.bind_some, Mipi.sendCode_nt35521sSetPage pageNo (P.sendCodeCall _ _).mipiData_length]
  rfl

theorem System.nt35521sReadVcom_eq_none (s : System π) :
    s.nt35521sReadVcom P mipiChannel = none := by
  rw [nt35521sReadVcom, nt35521sSetPage_eq_none]
  rfl

theorem System.nt35521sWriteVcom_eq_none (s : System π) (v : ℤ) :
    s.nt35521sWriteVcom P mipiChannel v = none := by
  rw [nt35521sWriteVcom, nt35521sSetPage_eq_none]
  rfl

/-- A check of NT35521S that comes to its end did not find the chip. -/
theorem System.of_chipNt35521sCheckChipOk {r : ℤ × System π}
    (h : s.chipNt35521sCheckChipOk P channel mipiChannel = some r) :
    r.1 = -1 ∧ r.2.jd9367 = s.jd9367 := by
  simp only [chipNt35521sCheckChipOk] at h
  split_ifs at h
  · rw [← Option.some.inj h]
    exact ⟨rfl, rfl⟩
  · rw [nt35521sReadVcom_eq_none] at h
    exact absurd h.symm (Option.some_ne_none r)

/-! ### The flag of JD9367 -/

/-- No channel of JD9367 was ever identified. -/
def System.Unidentified (s : System π) : Prop := ∀ i, (s.jd9367 i).idOk = 0

theorem System.Unidentified.getAndResetPrivateData (h : s.Unidentified) (call : Call Unit) :
    (s.getAndResetPrivateData call).Unidentified := by
  have hreset : ∀ i, (s.chipJd9367GetAndResetPrivateData i).Unidentified := by
    intro i j
    simp only [System.chipJd9367GetAndResetPrivateData, Function.update_apply]
    split
    · rfl
    · exact h j
  cases call with
  | operation chip callback c m args privateData => exact h
  | getAndResetPrivateData chip c =>
      cases chip with
      | jd9367 => exact hreset c.toNat
      | _ => exact h

theorem System.Unidentified.foldl (h : s.Unidentified) (calls : List (Call Unit)) :
    (calls.foldl System.getAndResetPrivateData s).Unidentified := by
  induction calls generalizing s with
  | nil => exact h
  | cons call calls ih => exact ih (h.getAndResetPrivateData call)

/-- No call sets the flag. -/
theorem System.Unidentified.perform (h : s.Unidentified) {request : Request}
    (hperform : s.perform P compiled request = some s') : s'.Unidentified := by
  have hsame : s'.jd9367 = s.jd9367 → s'.Unidentified := fun heq i => heq ▸ h i
  cases request with
  | init =>
      obtain rfl := Option.some.inj hperform
      exact h
  | setMyChipId name =>
      obtain rfl := Option.some.inj hperform
      exact h
  | setMipiChannel channel m =>
      obtain ⟨⟨calls, manager⟩, -, rfl⟩ := Option.map_eq_some_iff.mp hperform
      exact System.Unidentified.foldl (s := { s with manager := manager }) h calls
  | resetMipiChannel channel =>
      obtain ⟨manager, -, rfl⟩ := Option.map_eq_some_iff.mp hperform
      exact h
  | checkChipOk m =>
      obtain ⟨⟨b, s₁⟩, hcheck, rfl⟩ := Option.map_eq_some_iff.mp hperform
      refine hsame (operate_keeps (f := System.jd9367) (fun chip channel m s r hr => ?_) hcheck)
      cases chip with
      | nt35521s => exact (of_chipNt35521sCheckChipOk hr).2
      | _ => exact (congrArg (System.jd9367 ∘ Prod.snd) (Option.some.inj hr)).symm
  | writeVcom m v =>
      obtain ⟨⟨b, s₁⟩, hwrite, rfl⟩ := Option.map_eq_some_iff.mp hperform
      refine hsame (operate_keeps (f := System.jd9367) (fun chip channel m s r hr => ?_) hwrite)
      cases chip with
      | jd9367 =>
          rw [← Option.some.inj hr, chipJd9367WriteVcom]
          split_ifs <;> rfl
      | nt35521s =>
          simp only [chipNt35521sWriteVcom, nt35521sWriteVcom_eq_none, Option.map_none,
            ite_self] at hr
          rw [Option.ite_none_left_eq_some] at hr
          rw [← Option.some.inj hr.2]
      | _ => exact (congrArg (System.jd9367 ∘ Prod.snd) (Option.some.inj hr)).symm
  | readVcom m =>
      obtain ⟨⟨b, s₁⟩, hread, rfl⟩ := Option.map_eq_some_iff.mp hperform
      refine hsame (operate_keeps (f := System.jd9367) (fun chip channel m s r hr => ?_) hread)
      cases chip with
      | jd9367 =>
          rw [← Option.some.inj hr, chipJd9367ReadVcom]
          split_ifs <;> rfl
      | nt35521s =>
          simp only [chipNt35521sReadVcom, nt35521sReadVcom_eq_none, Option.map_none] at hr
          rw [Option.ite_none_left_eq_some] at hr
          rw [← Option.some.inj hr.2]
      | _ => exact (congrArg (System.jd9367 ∘ Prod.snd) (Option.some.inj hr)).symm

theorem System.Unidentified.performAll (h : s.Unidentified) {requests : List Request}
    (hrun : s.performAll P compiled requests = some s') : s'.Unidentified := by
  induction requests generalizing s with
  | nil =>
      obtain rfl := Option.some.inj hrun
      exact h
  | cons request requests ih =>
      obtain ⟨s₁, hperform, hrun⟩ := Option.bind_eq_some_iff.mp hrun
      exact ih (h.perform hperform) hrun

/-! ### Checks -/

/-- A check that passes found a channel and JD9367, and did nothing. -/
theorem System.of_checkChipOk (h : s.checkChipOk P mipiChannel = some (0, s')) :
    s' = s ∧ s.manager.currentChip = some .jd9367 ∧
      ∃ channel, getChipChannelByMipiChannel s.manager mipiChannel = some channel := by
  rw [checkChipOk] at h
  cases hchannel : getChipChannelByMipiChannel s.manager mipiChannel with
  | none =>
      rw [operate_idle (.inl hchannel)] at h
      exact absurd (congrArg Prod.fst (Option.some.inj h)) (by simp)
  | some channel =>
      cases hchip : s.manager.currentChip with
      | none =>
          rw [operate_idle (.inr hchip)] at h
          exact absurd (congrArg Prod.fst (Option.some.inj h)) (by simp)
      | some chip =>
          rw [operate_eq hchannel hchip] at h
          cases chip with
          | jd9367 => exact ⟨(congrArg Prod.snd (Option.some.inj h)).symm, rfl, channel, rfl⟩
          | nt35521s => exact absurd (of_chipNt35521sCheckChipOk h).1 (by simp)
          | _ => exact absurd (congrArg Prod.fst (Option.some.inj h)) (by simp)

/-- A write fails when JD9367 was never identified. -/
theorem System.Unidentified.writeVcom_eq (h : s.Unidentified)
    (hchannel : getChipChannelByMipiChannel s.manager mipiChannel = some channel)
    (hchip : s.manager.currentChip = some .jd9367) (v : ℤ) :
    s.writeVcom P mipiChannel v = some (-1, s) := by
  have hflag : ¬ (s.jd9367 channel).idOk = 1 := by
    rw [h channel]
    decide
  rw [writeVcom, operate_eq hchannel hchip]
  simp only [chipJd9367WriteVcom, if_neg hflag]

theorem System.Unidentified.not_writesVcom (h : s.Unidentified)
    (hcheck : s.checkChipOk P mipiChannel = some (0, s')) (v : ℤ) :
    ¬ s'.WritesVcom P mipiChannel v := by
  obtain ⟨rfl, hchip, channel, hchannel⟩ := System.of_checkChipOk hcheck
  rintro ⟨chip, -, s₁, commands, hwrite, -⟩
  rw [h.writeVcom_eq hchannel hchip] at hwrite
  exact absurd (congrArg Prod.fst (Option.some.inj hwrite)) (by simp)

end

/-- After any history of calls, no write behind a check that passes goes to the panel: the chip that
is selected is JD9367, and it was never identified. -/
theorem not_writesVcom_of_checkChipOk {π : Type} (P : Panel π) (compiled : ChipId → Bool)
    (panel : π) (requests : List Request) {s s' : System π} {mipiChannel : ℤ}
    (hrun : (System.start panel).performAll P compiled requests = some s)
    (hcheck : s.checkChipOk P mipiChannel = some (0, s')) (v : ℤ) :
    ¬ s'.WritesVcom P mipiChannel v := by
  have hstart : (System.start panel).Unidentified := fun _ => rfl
  exact (hstart.performAll hrun).not_writesVcom hcheck v

/-- A panel that is a file of registers in pages. -/
structure RegisterFile where
  page : UInt8
  registers : UInt8 → UInt8 → List UInt8

def RegisterFile.write (p : RegisterFile) (regAddr : UInt8) (para : List UInt8) : RegisterFile where
  page := p.page
  registers :=
    Function.update p.registers p.page (Function.update (p.registers p.page) regAddr para)

/-- A call that gets no answers. -/
def SendCodeCall.unanswered : SendCodeCall :=
  ⟨fun _ => ⟨0, none⟩, List.replicate 250 0, List.length_replicate, 0, 0⟩

def registerPanel : Panel RegisterFile where
  send p _ command :=
    match command with
    | .setPage pageNo => ⟨pageNo, p.registers⟩
    | .dcsLongWriteWithPara regAddr para => p.write regAddr para
  readModReg p _ regAddr len := ((p.registers p.page regAddr).take len, p)
  sendCodeCall _ _ := .unanswered

theorem registerPanel_returnsWritten : registerPanel.ReturnsWritten := by
  intro p mipiChannel
  refine ⟨?_, ?_⟩
  · intro b
    simp [registerPanel, RegisterFile.write]
  · intro b b₀ b₁
    simp [registerPanel, RegisterFile.write]

/-- A panel with the ID of NT35521S. -/
def nt35521sFile : RegisterFile :=
  ⟨0, fun _ regAddr => if regAddr = 0x04 then [0x00, 0x80, 0x00] else [0, 0, 0]⟩

/-- JD9367 is selected and checked on two channels, one of them set anew. -/
theorem not_writesVcom_second_channel : ∃ s s' : System RegisterFile,
    (System.start nt35521sFile).performAll registerPanel (fun _ => true)
      [.init, .setMyChipId .jd9367, .setMipiChannel 0 1, .checkChipOk 1, .setMipiChannel 1 4,
        .resetMipiChannel 0, .writeVcom 4 3] = some s ∧
    s.checkChipOk registerPanel 4 = some (0, s') ∧ ¬ s'.WritesVcom registerPanel 4 3 :=
  ⟨_, _, rfl, rfl, not_writesVcom_of_checkChipOk registerPanel (fun _ => true) nt35521sFile
    [.init, .setMyChipId .jd9367, .setMipiChannel 0 1, .checkChipOk 1, .setMipiChannel 1 4,
      .resetMipiChannel 0, .writeVcom 4 3] rfl rfl 3⟩

/-- The check of JD9367 passes, and a vcom of zero cannot be written. -/
theorem not_writesVcom_jd9367 : ¬ ∀ (P : Panel RegisterFile) (requests : List Request)
    (s s' : System RegisterFile) (v : ℤ), P.ReturnsWritten →
      (System.start nt35521sFile).performAll P (fun _ => true) requests = some s →
        s.checkChipOk P 1 = some (0, s') → s'.InRange v → s'.WritesVcom P 1 v := by
  intro hall
  have hstart : (System.start nt35521sFile).Unidentified := fun _ => rfl
  obtain ⟨s, hrun, hcheck, hrange⟩ : ∃ s, (System.start nt35521sFile).performAll registerPanel
      (fun _ => true) [.init, .setMyChipId .jd9367, .setMipiChannel 0 1] = some s ∧
        s.checkChipOk registerPanel 1 = some (0, s) ∧ s.InRange 0 := by
    refine ⟨_, rfl, rfl, le_rfl, ?_⟩
    intro chip hchip
    obtain rfl := Option.some.inj hchip
    decide
  exact (hstart.performAll hrun).not_writesVcom hcheck 0
    (hall registerPanel _ s s 0 registerPanel_returnsWritten hrun hcheck hrange)

end PanelTester.Icm
