import PanelTester.Library.CString
import PanelTester.Library.Steps

/-!
The IC manager, `ic_manager.c`: it passes the operations on a panel to the callbacks of the chip
that is selected, with the private data of the channel. The private data are fetched when a
channel is set and not when a chip is selected, and one of the twenty operations tests another
callback than the one it calls. `icMgr_safeRun_iff` says in which runs neither shows.
-/

namespace PanelTester.Icm

open Library

/-- `e_my_chip_id` -/
inductive ChipId
  | default
  | ili9806e
  | ili9881c
  | otm8019a
  | icn9706
  | hi8394
  | jd9367
  | nt35521s
  deriving DecidableEq, Repr

/-- The callbacks of `icm_chip_t`. -/
inductive Callback
  | fnGetAndResetPrivateData
  | fnGetChipId
  | fnCheckChipOk
  | fnReadChipVcomOptTimes
  | fnReadChipVcomOptInfo
  | fnWriteChipVcomOtpValue
  | fnReadVcom
  | fnWriteVcom
  | fnCheckVcomOtpBurnOk
  | fnWriteChipAnalogGammaRegData
  | fnReadChipAnalogGammaRegData
  | fnWriteChipFixAnalogGammaRegData
  | fnWriteChipDigitalGammaRegData
  | fnWriteChipFixDigitalGammaRegData
  | fnChipD3gControl
  | fnChipBurnGammaOtpValues
  | fnChipCheckGammaOtpValues
  | fnChipGetAnalogGammaRegData
  | fnChipGetDigitalGammaRegData
  | fnGetChipIdOtpInfo
  | fnBurnChipId
  deriving DecidableEq, Repr

/-- What `fn_get_and_reset_private_data` of a chip returned for a channel. -/
structure PrivateData where
  chip : ChipId
  channel : ℤ
  deriving DecidableEq

/-- `icm_channel_t`; the private data are `NULL` or were fetched. -/
structure IcmChannel where
  channel : ℤ
  mipiChannel : ℤ
  myChipId : ChipId
  chipPrivateData : Option PrivateData
  deriving DecidableEq

/-- The variables of `ic_manager.c`. -/
structure IcManager where
  myChipId : ChipId
  chipChannelNums : ℕ
  chipChannelData : List IcmChannel
  currentChip : Option ChipId
  deriving DecidableEq

/-- `MAX_CHIP_CHANNEL_NUMS` -/
def maxChipChannelNums : ℕ := 2

/-- The variables before any call. -/
def IcManager.start : IcManager where
  myChipId := .default
  chipChannelNums := 2
  chipChannelData := List.replicate maxChipChannelNums ⟨0, 0, .default, none⟩
  currentChip := none

/-- A call of a callback, with the arguments `args` of the operation. -/
inductive Call (α : Type)
  | getAndResetPrivateData (chip : ChipId) (channel : ℤ)
  | operation (chip : ChipId) (callback : Callback) (channel mipiChannel : ℤ) (args : α)
      (privateData : Option PrivateData)

section

-- `table`: which callbacks of a chip are not `NULL`; `compiled`: which chips there are.
variable (table : ChipId → Callback → Bool) (compiled : ChipId → Bool) {α : Type}

/-- The names `CHIP_ID_JD_9367` and so on, in the order of the tests. -/
def chipNames : List (String × ChipId) :=
  [("jd9367", .jd9367), ("ili9806e", .ili9806e), ("ili9881c", .ili9881c), ("otm8019a", .otm8019a),
    ("icn9706", .icn9706), ("hi8394", .hi8394), ("nt35521s", .nt35521s)]

/-- The chip with a name; the test of `jd9367` is always compiled. -/
def chipOfName (strChipId : Str) : Option ChipId :=
  (chipNames.find? fun (name, chip) =>
    (chip = .jd9367 || compiled chip) && strChipId = name.toList).map Prod.snd

/-- `ic_mgr_set_my_chip_id` -/
def icMgrSetMyChipId (s : IcManager) (strChipId : Str) : ℤ × IcManager :=
  match chipOfName compiled strChipId with
  | some chip => (0, { s with myChipId := chip, currentChip := some chip })
  | none => (-1, { s with myChipId := .default, currentChip := some .default })

def IcManager.withChannel (s : IcManager) (channel : ℤ) (f : IcmChannel → IcmChannel) : IcManager :=
  { s with chipChannelData := s.chipChannelData.modify channel.toNat f }

/-- A write to `s_chip_channel_data[channel]`, which has no result outside of the table. -/
def modifyChannel (s : IcManager) (channel : ℤ) (f : IcmChannel → IcmChannel) : Option IcManager :=
  if 0 ≤ channel ∧ channel < s.chipChannelData.length then some (s.withChannel channel f) else none

/-- `ic_mgr_reset_mipi_channel` -/
def icMgrResetMipiChannel (s : IcManager) (channel : ℤ) : Option IcManager :=
  modifyChannel s channel fun c => { c with mipiChannel := -1, chipPrivateData := none }

/-- `ic_mgr_set_mipi_channel`, which does not test the callback. -/
def icMgrSetMipiChannel (s : IcManager) (channel mipiChannel : ℤ) :
    Option (List (Call α) × IcManager) :=
  match s.currentChip with
  | none => (modifyChannel s channel fun c => { c with mipiChannel }).map fun s => ([], s)
  | some chip =>
      if table chip .fnGetAndResetPrivateData then
        (modifyChannel s channel fun c =>
          { c with mipiChannel, chipPrivateData := some ⟨chip, channel⟩ }).map fun s =>
            ([.getAndResetPrivateData chip channel], s)
      else none

/-- `get_chip_channel_by_mipi_channel` -/
def getChipChannelByMipiChannel (s : IcManager) (mipiChannel : ℤ) : Option ℕ :=
  (s.chipChannelData.take s.chipChannelNums).findIdx? fun c => c.mipiChannel = mipiChannel

/-- `ic_mgr_init` -/
def icMgrInit (s : IcManager) : IcManager :=
  { s with
    chipChannelNums := maxChipChannelNums
    chipChannelData := s.chipChannelData.mapIdx fun i c =>
      if i < maxChipChannelNums then ⟨i, -1, .default, none⟩ else c }

/-- `ic_mgr_term` -/
def icMgrTerm (s : IcManager) : IcManager :=
  { s with
    chipChannelNums := 0
    chipChannelData := s.chipChannelData.mapIdx fun i c =>
      if i < s.chipChannelNums then ⟨0, -1, .default, none⟩ else c }

/-- The private data of a channel. -/
def IcManager.privateData (s : IcManager) (channel : ℕ) : Option PrivateData :=
  s.chipChannelData[channel]?.bind IcmChannel.chipPrivateData

/-- The way of an operation to the callback that it calls, past `test`. There is no result when the
callback is `NULL`. -/
def passOn (test : ChipId → Bool) (called : Callback) (s : IcManager) (mipiChannel : ℤ) (args : α)
    (ret : ℤ) : Option (ℤ × List (Call α)) :=
  match getChipChannelByMipiChannel s mipiChannel with
  | none => some (-1, [])
  | some channel =>
      if channel < s.chipChannelNums then
        match s.currentChip with
        | none => some (-1, [])
        | some chip =>
            if test chip then
              if table chip called then
                some (ret,
                  [.operation chip called channel mipiChannel args (s.privateData channel)])
              else none
            else some (-1, [])
      else some (-1, [])

/-- An operation that tests the callback it calls. -/
def dispatch (callback : Callback) : IcManager → ℤ → α → ℤ → Option (ℤ × List (Call α)) :=
  passOn table (fun chip => table chip callback) callback

def icMgrReadChipId : IcManager → ℤ → α → ℤ → Option (ℤ × List (Call α)) :=
  dispatch table .fnGetChipId

def icMgrCheckChipOk : IcManager → ℤ → α → ℤ → Option (ℤ × List (Call α)) :=
  dispatch table .fnCheckChipOk

def icMgrReadChipVcomOtpTimes : IcManager → ℤ → α → ℤ → Option (ℤ × List (Call α)) :=
  dispatch table .fnReadChipVcomOptTimes

def icMgrReadChipVcomOtpValue : IcManager → ℤ → α → ℤ → Option (ℤ × List (Call α)) :=
  dispatch table .fnReadChipVcomOptInfo

def icMgrWriteChipVcomOtpValue : IcManager → ℤ → α → ℤ → Option (ℤ × List (Call α)) :=
  dispatch table .fnWriteChipVcomOtpValue

def icMgrReadVcom : IcManager → ℤ → α → ℤ → Option (ℤ × List (Call α)) :=
  dispatch table .fnReadVcom

def icMgrWriteVcom : IcManager → ℤ → α → ℤ → Option (ℤ × List (Call α)) :=
  dispatch table .fnWriteVcom

def icMgrCheckVcomOtpBurnOk : IcManager → ℤ → α → ℤ → Option (ℤ × List (Call α)) :=
  dispatch table .fnCheckVcomOtpBurnOk

/-- The callback is tested twice. -/
def icMgrWriteAnalogGammaData : IcManager → ℤ → α → ℤ → Option (ℤ × List (Call α)) :=
  passOn table (fun chip => table chip .fnWriteChipAnalogGammaRegData &&
    table chip .fnWriteChipAnalogGammaRegData) .fnWriteChipAnalogGammaRegData

def icMgrReadAnalogGammaData : IcManager → ℤ → α → ℤ → Option (ℤ × List (Call α)) :=
  dispatch table .fnReadChipAnalogGammaRegData

def icMgrWriteFixAnalogGammaData : IcManager → ℤ → α → ℤ → Option (ℤ × List (Call α)) :=
  dispatch table .fnWriteChipFixAnalogGammaRegData

def icMgrWriteDigitalGammaData : IcManager → ℤ → α → ℤ → Option (ℤ × List (Call α)) :=
  dispatch table .fnWriteChipDigitalGammaRegData

def icMgrWriteFixDigitalGammaData : IcManager → ℤ → α → ℤ → Option (ℤ × List (Call α)) :=
  dispatch table .fnWriteChipFixDigitalGammaRegData

def icMgrD3gControl : IcManager → ℤ → α → ℤ → Option (ℤ × List (Call α)) :=
  dispatch table .fnChipD3gControl

def icMgrBurnGammaOtpValues : IcManager → ℤ → α → ℤ → Option (ℤ × List (Call α)) :=
  dispatch table .fnChipBurnGammaOtpValues

def icMgrCheckGammaOtpValues : IcManager → ℤ → α → ℤ → Option (ℤ × List (Call α)) :=
  dispatch table .fnChipCheckGammaOtpValues

def icMgrGetAnalogGammaRegData : IcManager → ℤ → α → ℤ → Option (ℤ × List (Call α)) :=
  dispatch table .fnChipGetAnalogGammaRegData

def icMgrGetDigitalGammaRegDataT : IcManager → ℤ → α → ℤ → Option (ℤ × List (Call α)) :=
  dispatch table .fnChipGetDigitalGammaRegData

def icMgrReadChipIdOtpInfo : IcManager → ℤ → α → ℤ → Option (ℤ × List (Call α)) :=
  dispatch table .fnGetChipIdOtpInfo

/-- Here another callback is tested than is called. -/
def icMgrBurnChipId : IcManager → ℤ → α → ℤ → Option (ℤ × List (Call α)) :=
  passOn table (fun chip => table chip .fnGetChipIdOtpInfo) .fnBurnChipId

end

/-- The operations on a panel. -/
inductive Operation
  | readChipId
  | checkChipOk
  | readChipVcomOtpTimes
  | readChipVcomOtpValue
  | writeChipVcomOtpValue
  | readVcom
  | writeVcom
  | checkVcomOtpBurnOk
  | writeAnalogGammaData
  | readAnalogGammaData
  | writeFixAnalogGammaData
  | writeDigitalGammaData
  | writeFixDigitalGammaData
  | d3gControl
  | burnGammaOtpValues
  | checkGammaOtpValues
  | getAnalogGammaRegData
  | getDigitalGammaRegDataT
  | readChipIdOtpInfo
  | burnChipId
  deriving DecidableEq, Repr

/-- The calls of the IC manager. An operation on a panel comes with what the callback returns. -/
inductive Op (α : Type)
  | init
  | term
  | setMyChipId (strChipId : Str)
  | setMipiChannel (channel mipiChannel : ℤ)
  | resetMipiChannel (channel mipiChannel : ℤ)
  | chip (operation : Operation) (mipiChannel : ℤ) (args : α) (ret : ℤ)

/-- The callback that an operation tests. -/
def Operation.tested : Operation → Callback
  | .readChipId => .fnGetChipId
  | .checkChipOk => .fnCheckChipOk
  | .readChipVcomOtpTimes => .fnReadChipVcomOptTimes
  | .readChipVcomOtpValue => .fnReadChipVcomOptInfo
  | .writeChipVcomOtpValue => .fnWriteChipVcomOtpValue
  | .readVcom => .fnReadVcom
  | .writeVcom => .fnWriteVcom
  | .checkVcomOtpBurnOk => .fnCheckVcomOtpBurnOk
  | .writeAnalogGammaData => .fnWriteChipAnalogGammaRegData
  | .readAnalogGammaData => .fnReadChipAnalogGammaRegData
  | .writeFixAnalogGammaData => .fnWriteChipFixAnalogGammaRegData
  | .writeDigitalGammaData => .fnWriteChipDigitalGammaRegData
  | .writeFixDigitalGammaData => .fnWriteChipFixDigitalGammaRegData
  | .d3gControl => .fnChipD3gControl
  | .burnGammaOtpValues => .fnChipBurnGammaOtpValues
  | .checkGammaOtpValues => .fnChipCheckGammaOtpValues
  | .getAnalogGammaRegData => .fnChipGetAnalogGammaRegData
  | .getDigitalGammaRegDataT => .fnChipGetDigitalGammaRegData
  | .readChipIdOtpInfo => .fnGetChipIdOtpInfo
  | .burnChipId => .fnGetChipIdOtpInfo

/-- The callback that an operation calls. -/
def Operation.called (operation : Operation) : Callback :=
  if operation = .burnChipId then .fnBurnChipId else operation.tested

section

variable (table : ChipId → Callback → Bool) (compiled : ChipId → Bool) {α : Type}

/-- The function of an operation. -/
def Operation.function : Operation → IcManager → ℤ → α → ℤ → Option (ℤ × List (Call α))
  | .readChipId => icMgrReadChipId table
  | .checkChipOk => icMgrCheckChipOk table
  | .readChipVcomOtpTimes => icMgrReadChipVcomOtpTimes table
  | .readChipVcomOtpValue => icMgrReadChipVcomOtpValue table
  | .writeChipVcomOtpValue => icMgrWriteChipVcomOtpValue table
  | .readVcom => icMgrReadVcom table
  | .writeVcom => icMgrWriteVcom table
  | .checkVcomOtpBurnOk => icMgrCheckVcomOtpBurnOk table
  | .writeAnalogGammaData => icMgrWriteAnalogGammaData table
  | .readAnalogGammaData => icMgrReadAnalogGammaData table
  | .writeFixAnalogGammaData => icMgrWriteFixAnalogGammaData table
  | .writeDigitalGammaData => icMgrWriteDigitalGammaData table
  | .writeFixDigitalGammaData => icMgrWriteFixDigitalGammaData table
  | .d3gControl => icMgrD3gControl table
  | .burnGammaOtpValues => icMgrBurnGammaOtpValues table
  | .checkGammaOtpValues => icMgrCheckGammaOtpValues table
  | .getAnalogGammaRegData => icMgrGetAnalogGammaRegData table
  | .getDigitalGammaRegDataT => icMgrGetDigitalGammaRegDataT table
  | .readChipIdOtpInfo => icMgrReadChipIdOtpInfo table
  | .burnChipId => icMgrBurnChipId table

/-- Every operation is a test and a call. -/
theorem Operation.function_eq (operation : Operation) :
    operation.function table (α := α) =
      passOn table (fun chip => table chip operation.tested) operation.called := by
  cases operation with
  | writeAnalogGammaData =>
      show passOn table _ _ = _
      simp only [Bool.and_self]
      rfl
  | _ => rfl

/-- A call of the IC manager: what it returns, the callbacks it calls, and the variables behind
it. There is no result when it leaves its table or calls `NULL`. -/
def IcManager.perform (s : IcManager) : Op α → Option (ℤ × List (Call α) × IcManager)
  | .init => some (0, [], icMgrInit s)
  | .term => some (0, [], icMgrTerm s)
  | .setMyChipId strChipId =>
      let (ret, s) := icMgrSetMyChipId compiled s strChipId
      some (ret, [], s)
  | .setMipiChannel channel mipiChannel =>
      (icMgrSetMipiChannel table s channel mipiChannel).map fun (calls, s) => (0, calls, s)
  | .resetMipiChannel channel _ => (icMgrResetMipiChannel s channel).map fun s => (0, [], s)
  | .chip operation mipiChannel args ret =>
      (operation.function table s mipiChannel args ret).map fun (val, calls) => (val, calls, s)

/-- A callback that is called is there, it is one of the selected chip, and its private data are
those that the chip gave for the channel. -/
def Call.Ok (s : IcManager) : Call α → Prop
  | .getAndResetPrivateData chip _ =>
      s.currentChip = some chip ∧ table chip .fnGetAndResetPrivateData
  | .operation chip callback channel _ _ privateData =>
      s.currentChip = some chip ∧ table chip callback ∧ privateData = some ⟨chip, channel⟩

/-- What is promised of a call of the IC manager. -/
structure IcManager.Safe (s : IcManager) (op : Op α) (ret : ℤ) (calls : List (Call α)) : Prop where
  ok : ∀ call ∈ calls, call.Ok table s
  operation : ∀ operation mipiChannel args val, op = .chip operation mipiChannel args val →
    (∃ call, calls = [call] ∧ ret = val) ∨ (calls = [] ∧ ret = -1)

def IcManager.SafeRun (s : IcManager) : List (Op α) → Prop
  | [] => True
  | op :: ops => ∃ ret calls s', s.perform table compiled op = some (ret, calls, s') ∧
      s.Safe table op ret calls ∧ s'.SafeRun ops

/-! ### What the calls so far, the last one first, say of the variables -/

/-- The chip that is selected. -/
def selected : List (Op α) → Option ChipId
  | [] => none
  | .setMyChipId strChipId :: _ => some ((chipOfName compiled strChipId).getD .default)
  | .init :: past => selected past
  | .term :: past => selected past
  | .setMipiChannel _ _ :: past => selected past
  | .resetMipiChannel _ _ :: past => selected past
  | .chip _ _ _ _ :: past => selected past

/-- The chip that was selected when a channel was set last, if it was not reset since. -/
def setWith (channel : ℤ) : List (Op α) → Option ChipId
  | [] => none
  | .init :: _ => none
  | .term :: _ => none
  | .setMyChipId _ :: past => setWith channel past
  | .setMipiChannel c _ :: past =>
      if c = channel then selected compiled past else setWith channel past
  | .resetMipiChannel c _ :: past => if c = channel then none else setWith channel past
  | .chip _ _ _ _ :: past => setWith channel past

/-- A channel is one of the two, a chip has a function for private data when a channel is set, and
an operation that a chip has is made on a channel that was set with this chip, and burns an ID only
on a chip that can do it. -/
def IcManager.Fits (s : IcManager) (past : List (Op α)) : Op α → Prop
  | .setMipiChannel channel _ => (0 ≤ channel ∧ channel < 2) ∧
      ∀ chip, selected compiled past = some chip → table chip .fnGetAndResetPrivateData
  | .resetMipiChannel channel _ => 0 ≤ channel ∧ channel < 2
  | .chip operation mipiChannel _ _ => ∀ chip channel, selected compiled past = some chip →
      getChipChannelByMipiChannel s mipiChannel = some channel → table chip operation.tested →
      setWith compiled channel past = some chip ∧
        (operation = .burnChipId → table chip .fnBurnChipId)
  | _ => True

def IcManager.AllFit (s : IcManager) (past : List (Op α)) : List (Op α) → Prop
  | [] => True
  | op :: ops => s.Fits table compiled past op ∧
      ∀ ret calls s', s.perform table compiled op = some (ret, calls, s') →
        s'.AllFit (op :: past) ops

/-- The variables are what the calls so far made of them. -/
structure IcManager.Holds (s : IcManager) (past : List (Op α)) : Prop where
  data : s.chipChannelData.length = maxChipChannelNums
  nums : s.chipChannelNums = 0 ∨ s.chipChannelNums = maxChipChannelNums
  currentChip : s.currentChip = selected compiled past
  privateData : s.chipChannelNums = maxChipChannelNums → ∀ i < maxChipChannelNums,
    s.privateData i = (setWith compiled i past).map fun chip => ⟨chip, i⟩

end

section

variable {table : ChipId → Callback → Bool} {compiled : ChipId → Bool} {α : Type} {s : IcManager}
  {past : List (Op α)}

theorem setWith_of_selected (h : selected compiled past = none) (channel : ℤ) :
    setWith compiled channel past = none := by
  induction past with
  | nil => rfl
  | cons op past ih =>
      cases op with
      | init => rfl
      | term => rfl
      | setMyChipId strChipId => exact absurd h (by simp [selected])
      | setMipiChannel c m =>
          rw [setWith]
          split
          · exact h
          · exact ih h
      | resetMipiChannel c m =>
          rw [setWith]
          split
          · rfl
          · exact ih h
      | chip operation m args ret => exact ih h

/-! ### The variables behind a call -/

theorem getChipChannel_lt {mipiChannel : ℤ} {channel : ℕ}
    (h : getChipChannelByMipiChannel s mipiChannel = some channel) :
    channel < s.chipChannelNums := by
  obtain ⟨hlt, -⟩ := List.findIdx?_eq_some_iff_getElem.mp h
  rw [List.length_take] at hlt
  omega

theorem modifyChannel_eq (hdata : s.chipChannelData.length = maxChipChannelNums) {channel : ℤ}
    (h : 0 ≤ channel ∧ channel < 2) (f : IcmChannel → IcmChannel) :
    modifyChannel s channel f = some (s.withChannel channel f) := by
  refine if_pos ⟨h.1, ?_⟩
  rw [hdata]
  exact h.2

theorem modifyChannel_isSome (hdata : s.chipChannelData.length = maxChipChannelNums) {channel : ℤ}
    {f : IcmChannel → IcmChannel} {s' : IcManager} (h : modifyChannel s channel f = some s') :
    0 ≤ channel ∧ channel < 2 := by
  rw [modifyChannel] at h
  split_ifs at h with hc
  rw [hdata] at hc
  exact hc

/-- The private data when a channel is written. -/
theorem privateData_withChannel (hdata : s.chipChannelData.length = maxChipChannelNums)
    {channel : ℤ} (h : 0 ≤ channel ∧ channel < 2) {f : IcmChannel → IcmChannel} {i : ℕ}
    (hi : i < maxChipChannelNums) {p : Option PrivateData}
    (hf : ∀ c, (f c).chipPrivateData = p) :
    (s.withChannel channel f).privateData i = if channel = i then p else s.privateData i := by
  have hlt : i < s.chipChannelData.length := hdata.symm ▸ hi
  have hget : s.chipChannelData[i]? = some s.chipChannelData[i] := List.getElem?_eq_getElem hlt
  show ((s.chipChannelData.modify channel.toNat f)[i]?).bind _ = _
  rw [List.getElem?_modify, IcManager.privateData, hget]
  show IcmChannel.chipPrivateData (if channel.toNat = i then f _ else _) = _
  by_cases hc : channel = i
  · rw [if_pos hc, if_pos (by omega)]
    exact hf _
  · rw [if_neg hc, if_neg (by omega)]
    rfl

/-- A write that keeps the private data. -/
theorem privateData_withChannel_same {channel : ℤ} {f : IcmChannel → IcmChannel}
    (hf : ∀ c, (f c).chipPrivateData = c.chipPrivateData) (i : ℕ) :
    (s.withChannel channel f).privateData i = s.privateData i := by
  show ((s.chipChannelData.modify channel.toNat f)[i]?).bind _ = _
  rw [List.getElem?_modify, IcManager.privateData]
  cases s.chipChannelData[i]? with
  | none => rfl
  | some c =>
      show IcmChannel.chipPrivateData (if channel.toNat = i then f c else c) = c.chipPrivateData
      split
      · exact hf c
      · rfl

theorem privateData_init (i : ℕ) (hi : i < maxChipChannelNums) :
    (icMgrInit s).privateData i = none := by
  show ((s.chipChannelData.mapIdx _)[i]?).bind _ = none
  rw [List.getElem?_mapIdx]
  cases s.chipChannelData[i]? with
  | none => rfl
  | some c =>
      rw [Option.map_some, if_pos hi]
      rfl

theorem IcManager.start_holds : IcManager.start.Holds compiled ([] : List (Op α)) where
  data := rfl
  nums := .inr rfl
  currentChip := rfl
  privateData := by
    intro _ i hi
    have hget : IcManager.start.chipChannelData[i]? = some ⟨0, 0, .default, none⟩ := by
      show (List.replicate maxChipChannelNums _)[i]? = _
      rw [List.getElem?_replicate, if_pos hi]
    rw [IcManager.privateData, hget]
    rfl

/-- An operation, by the channel and the chip it finds. -/
theorem passOn_eq {test : ChipId → Bool} {called : Callback} {mipiChannel : ℤ} {args : α} {ret : ℤ}
    {channel : ℕ} {chip : ChipId}
    (hchannel : getChipChannelByMipiChannel s mipiChannel = some channel)
    (hchip : s.currentChip = some chip) : passOn table test called s mipiChannel args ret =
      if test chip then
        if table chip called then
          some (ret, [.operation chip called channel mipiChannel args (s.privateData channel)])
        else none
      else some (-1, []) := by
  rw [passOn, hchannel]
  simp only
  rw [if_pos (getChipChannel_lt hchannel), hchip]

theorem passOn_idle {test : ChipId → Bool} {called : Callback} {mipiChannel : ℤ} {args : α}
    {ret : ℤ} (h : getChipChannelByMipiChannel s mipiChannel = none ∨ s.currentChip = none) :
    passOn table test called s mipiChannel args ret = some (-1, []) := by
  rw [passOn]
  cases hchannel : getChipChannelByMipiChannel s mipiChannel with
  | none => rfl
  | some channel =>
      have hchip : s.currentChip = none := h.resolve_left (by simp [hchannel])
      simp only [hchip, ite_self]

theorem icMgrSetMipiChannel_of_none (h : s.currentChip = none) (channel mipiChannel : ℤ) :
    (icMgrSetMipiChannel table s channel mipiChannel : Option (List (Call α) × IcManager)) =
      (modifyChannel s channel fun c => { c with mipiChannel }).map fun s => ([], s) := by
  simp only [icMgrSetMipiChannel, h]

theorem icMgrSetMipiChannel_of_some {chip : ChipId} (h : s.currentChip = some chip)
    (channel mipiChannel : ℤ) :
    (icMgrSetMipiChannel table s channel mipiChannel : Option (List (Call α) × IcManager)) =
      if table chip .fnGetAndResetPrivateData then
        (modifyChannel s channel fun c =>
          { c with mipiChannel, chipPrivateData := some ⟨chip, channel⟩ }).map fun s =>
            ([.getAndResetPrivateData chip channel], s)
      else none := by
  simp only [icMgrSetMipiChannel, h]

/-! ### A step -/

theorem IcManager.Holds.init (h : s.Holds compiled past) :
    (icMgrInit s).Holds compiled (.init :: past) where
  data := List.length_mapIdx.trans h.data
  nums := .inr rfl
  currentChip := h.currentChip
  privateData := fun _ i hi => privateData_init i hi

theorem IcManager.Holds.term (h : s.Holds compiled past) :
    (icMgrTerm s).Holds compiled (.term :: past) where
  data := List.length_mapIdx.trans h.data
  nums := .inl rfl
  currentChip := h.currentChip
  privateData := fun hnums => absurd (show 0 = 2 from hnums) (by decide)

theorem IcManager.Holds.setMyChipId (h : s.Holds compiled past) (strChipId : Str) :
    (icMgrSetMyChipId compiled s strChipId).2.Holds compiled (.setMyChipId strChipId :: past) := by
  rw [icMgrSetMyChipId]
  cases hname : chipOfName compiled strChipId with
  | none => exact ⟨h.data, h.nums, by rw [selected, hname]; rfl, h.privateData⟩
  | some chip => exact ⟨h.data, h.nums, by rw [selected, hname]; rfl, h.privateData⟩

theorem IcManager.Holds.setMipiChannel (h : s.Holds compiled past) {channel : ℤ} (mipiChannel : ℤ)
    (hchannel : 0 ≤ channel ∧ channel < 2)
    (hchip : ∀ chip, selected compiled past = some chip → table chip .fnGetAndResetPrivateData) :
    ∃ calls s', s.perform table compiled (.setMipiChannel channel mipiChannel : Op α) =
        some (0, calls, s') ∧ (∀ call ∈ calls, call.Ok table s) ∧
      s'.Holds compiled (.setMipiChannel channel mipiChannel :: past) := by
  cases hselected : selected compiled past with
  | none =>
      have hperform : s.perform table compiled (.setMipiChannel channel mipiChannel : Op α) =
          some (0, [], s.withChannel channel fun c => { c with mipiChannel }) := by
        rw [IcManager.perform, icMgrSetMipiChannel_of_none (h.currentChip.trans hselected),
          modifyChannel_eq h.data hchannel]
        rfl
      refine ⟨_, _, hperform, by simp, (List.length_modify ..).trans h.data, h.nums,
        h.currentChip, ?_⟩
      intro hnums i hi
      have hnone : setWith compiled i (.setMipiChannel channel mipiChannel :: past : List (Op α)) =
          none := setWith_of_selected (by exact hselected) i
      rw [privateData_withChannel_same, h.privateData hnums i hi, setWith_of_selected hselected,
        hnone]
      exact fun _ => rfl
  | some chip =>
      have hperform : s.perform table compiled (.setMipiChannel channel mipiChannel : Op α) =
          some (0, [.getAndResetPrivateData chip channel], s.withChannel channel fun c =>
            { c with mipiChannel, chipPrivateData := some ⟨chip, channel⟩ }) := by
        rw [IcManager.perform, icMgrSetMipiChannel_of_some (h.currentChip.trans hselected),
          if_pos (hchip chip hselected), modifyChannel_eq h.data hchannel]
        rfl
      refine ⟨_, _, hperform, ?_, (List.length_modify ..).trans h.data, h.nums, h.currentChip, ?_⟩
      · intro call hcall
        rw [List.mem_singleton] at hcall
        subst hcall
        exact ⟨h.currentChip.trans hselected, hchip chip hselected⟩
      · intro hnums i hi
        rw [privateData_withChannel (p := some ⟨chip, channel⟩) h.data hchannel hi, setWith]
        · split_ifs with hc
          · rw [hselected, hc]
            rfl
          · exact h.privateData hnums i hi
        · exact fun _ => rfl

theorem IcManager.Holds.resetMipiChannel (h : s.Holds compiled past) {channel : ℤ} (mipiChannel : ℤ)
    (hchannel : 0 ≤ channel ∧ channel < 2) :
    ∃ s', s.perform table compiled (.resetMipiChannel channel mipiChannel : Op α) =
        some (0, [], s') ∧ s'.Holds compiled (.resetMipiChannel channel mipiChannel :: past) := by
  have hperform : s.perform table compiled (.resetMipiChannel channel mipiChannel : Op α) =
      some (0, [], s.withChannel channel fun c =>
        { c with mipiChannel := -1, chipPrivateData := none }) := by
    rw [IcManager.perform, icMgrResetMipiChannel, modifyChannel_eq h.data hchannel]
    rfl
  refine ⟨_, hperform, (List.length_modify ..).trans h.data, h.nums, h.currentChip, ?_⟩
  intro hnums i hi
  rw [privateData_withChannel (p := none) h.data hchannel hi, setWith]
  · split_ifs with hc
    · rfl
    · exact h.privateData hnums i hi
  · exact fun _ => rfl

/-- An operation calls nothing, or the callback of the selected chip with its private data. -/
theorem IcManager.Holds.chip (h : s.Holds compiled past) {operation : Operation} {mipiChannel : ℤ}
    {args : α} {ret : ℤ}
    (hfits : s.Fits table compiled past (.chip operation mipiChannel args ret)) :
    ∃ val calls, s.perform table compiled (.chip operation mipiChannel args ret) =
        some (val, calls, s) ∧ (∀ call ∈ calls, call.Ok table s) ∧
      ((∃ call, calls = [call] ∧ val = ret) ∨ (calls = [] ∧ val = -1)) ∧
      s.Holds compiled (.chip operation mipiChannel args ret :: past) := by
  have hholds : s.Holds compiled (.chip operation mipiChannel args ret :: past) :=
    ⟨h.data, h.nums, h.currentChip, h.privateData⟩
  -- an operation that goes no further
  have hidle : passOn table (fun chip => table chip operation.tested) operation.called s mipiChannel
      args ret = some (-1, []) → ∃ val calls,
        s.perform table compiled (.chip operation mipiChannel args ret) = some (val, calls, s) ∧
        (∀ call ∈ calls, call.Ok table s) ∧
        ((∃ call, calls = [call] ∧ val = ret) ∨ (calls = [] ∧ val = -1)) ∧
        s.Holds compiled (.chip operation mipiChannel args ret :: past) := by
    intro hpass
    refine ⟨-1, [], ?_, by simp, .inr ⟨rfl, rfl⟩, hholds⟩
    rw [IcManager.perform, operation.function_eq, hpass]
    rfl
  cases hchannel : getChipChannelByMipiChannel s mipiChannel with
  | none => exact hidle (passOn_idle (.inl hchannel))
  | some channel =>
      cases hselected : selected compiled past with
      | none => exact hidle (passOn_idle (.inr (h.currentChip.trans hselected)))
      | some chip =>
          have hchip := h.currentChip.trans hselected
          have hpass : passOn table (fun chip => table chip operation.tested) operation.called s
              mipiChannel args ret = _ := passOn_eq hchannel hchip
          by_cases htested : table chip operation.tested
          · obtain ⟨hsource, hburn⟩ := hfits chip channel hselected hchannel htested
            have hcalled : table chip operation.called := by
              rw [Operation.called]
              split_ifs with hop
              · exact hburn hop
              · exact htested
            have hlt := getChipChannel_lt hchannel
            have hnums : s.chipChannelNums = maxChipChannelNums := h.nums.resolve_left (by omega)
            rw [if_pos htested, if_pos hcalled] at hpass
            refine ⟨ret, [.operation chip operation.called channel mipiChannel args
              (s.privateData channel)], ?_, ?_, .inl ⟨_, rfl, rfl⟩, hholds⟩
            · rw [IcManager.perform, operation.function_eq, hpass]
              rfl
            · intro call hcall
              rw [List.mem_singleton] at hcall
              subst hcall
              refine ⟨hchip, hcalled, ?_⟩
              rw [h.privateData hnums channel (hnums ▸ hlt), hsource]
              rfl
          · rw [if_neg htested] at hpass
            exact hidle hpass

/-- A step that does what is promised is one that fits. -/
theorem IcManager.Holds.fits (h : s.Holds compiled past) {op : Op α} {ret : ℤ}
    {calls : List (Call α)} {s' : IcManager}
    (hperform : s.perform table compiled op = some (ret, calls, s'))
    (hok : ∀ call ∈ calls, call.Ok table s) : s.Fits table compiled past op := by
  cases op with
  | init => trivial
  | term => trivial
  | setMyChipId strChipId => trivial
  | setMipiChannel channel mipiChannel =>
      obtain ⟨⟨calls', s₁⟩, hset, -⟩ := Option.map_eq_some_iff.mp hperform
      cases hselected : selected compiled past with
      | none =>
          rw [icMgrSetMipiChannel_of_none (h.currentChip.trans hselected)] at hset
          obtain ⟨s₂, hmodify, -⟩ := Option.map_eq_some_iff.mp hset
          exact ⟨modifyChannel_isSome h.data hmodify,
            fun chip hchip => by simp [hselected] at hchip⟩
      | some chip =>
          rw [icMgrSetMipiChannel_of_some (h.currentChip.trans hselected)] at hset
          split_ifs at hset with hcallback
          obtain ⟨s₂, hmodify, -⟩ := Option.map_eq_some_iff.mp hset
          refine ⟨modifyChannel_isSome h.data hmodify, ?_⟩
          intro chip' hchip
          obtain rfl := Option.some.inj (hselected.symm.trans hchip)
          exact hcallback
  | resetMipiChannel channel mipiChannel =>
      obtain ⟨s₁, hmodify, -⟩ := Option.map_eq_some_iff.mp hperform
      exact modifyChannel_isSome h.data hmodify
  | chip operation mipiChannel args val =>
      intro chip channel hselected hchannel htested
      have hlt := getChipChannel_lt hchannel
      have hnums : s.chipChannelNums = maxChipChannelNums := h.nums.resolve_left (by omega)
      have hpass : passOn table (fun chip => table chip operation.tested) operation.called s
          mipiChannel args val = _ := passOn_eq hchannel (h.currentChip.trans hselected)
      rw [IcManager.perform, operation.function_eq, hpass, if_pos htested] at hperform
      split_ifs at hperform with hcalled
      · obtain ⟨-, hcalls⟩ := Prod.mk.inj (Option.some.inj hperform)
        obtain ⟨hcalls, -⟩ := Prod.mk.inj hcalls
        obtain ⟨-, -, hprivate⟩ := hok _ (hcalls ▸ List.mem_singleton_self _)
        rw [h.privateData hnums channel (hnums ▸ hlt)] at hprivate
        obtain ⟨chip', hsource, heq⟩ := Option.map_eq_some_iff.mp hprivate
        obtain rfl : chip' = chip := congrArg PrivateData.chip heq
        refine ⟨hsource, ?_⟩
        intro hburn
        rwa [Operation.called, if_pos hburn] at hcalled
      · exact absurd hperform (by simp)

theorem IcManager.Holds.step (h : s.Holds compiled past) {op : Op α}
    (hfits : s.Fits table compiled past op) :
    ∃ ret calls s', s.perform table compiled op = some (ret, calls, s') ∧
      s.Safe table op ret calls ∧ s'.Holds compiled (op :: past) := by
  cases op with
  | init => exact ⟨0, [], _, rfl, ⟨by simp, fun _ _ _ _ hop => by simp at hop⟩, h.init⟩
  | term => exact ⟨0, [], _, rfl, ⟨by simp, fun _ _ _ _ hop => by simp at hop⟩, h.term⟩
  | setMyChipId strChipId =>
      exact ⟨_, [], _, rfl, ⟨by simp, fun _ _ _ _ hop => by simp at hop⟩, h.setMyChipId strChipId⟩
  | setMipiChannel channel mipiChannel =>
      obtain ⟨calls, s', hperform, hok, hholds⟩ := h.setMipiChannel mipiChannel hfits.1 hfits.2
      exact ⟨0, calls, s', hperform, ⟨hok, fun _ _ _ _ hop => by simp at hop⟩, hholds⟩
  | resetMipiChannel channel mipiChannel =>
      obtain ⟨s', hperform, hholds⟩ := h.resetMipiChannel mipiChannel hfits
      exact ⟨0, [], s', hperform, ⟨by simp, fun _ _ _ _ hop => by simp at hop⟩, hholds⟩
  | chip operation mipiChannel args ret =>
      obtain ⟨val, calls, hperform, hok, hresult, hholds⟩ := h.chip hfits
      refine ⟨val, calls, s, hperform, ⟨hok, ?_⟩, hholds⟩
      intro operation' mipiChannel' args' ret' hop
      obtain ⟨rfl, rfl, rfl, rfl⟩ := Op.chip.inj hop
      exact hresult

theorem IcManager.Holds.safeRun_iff (h : s.Holds compiled past) (ops : List (Op α)) :
    s.SafeRun table compiled ops ↔ s.AllFit table compiled past ops := by
  induction ops generalizing s past with
  | nil => exact Iff.rfl
  | cons op ops ih =>
      have hiff : (∃ r, s.perform table compiled op = some r ∧ s.Safe table op r.1 r.2.1 ∧
          r.2.2.SafeRun table compiled ops) ↔ s.Fits table compiled past op ∧
            ∀ r, s.perform table compiled op = some r →
              r.2.2.AllFit table compiled (op :: past) ops := by
        refine run_step_iff (fun hfits => ?_) fun r hperform hsafe => h.fits hperform hsafe.ok
        obtain ⟨ret, calls, s', hperform, hsafe, hholds⟩ := h.step hfits
        exact ⟨_, hperform, hsafe, ih hholds⟩
      simp only [Prod.exists, Prod.forall] at hiff
      exact hiff

end

/-- A run calls only callbacks of the selected chip that are there, with its own private data,
exactly when every operation is made on a channel that was set with that chip, an ID is burned only
on a chip that can do it, and a channel is set only with a chip that gives private data. -/
theorem icMgr_safeRun_iff (table : ChipId → Callback → Bool) (compiled : ChipId → Bool) {α : Type}
    (ops : List (Op α)) :
    IcManager.start.SafeRun table compiled ops ↔ IcManager.start.AllFit table compiled [] ops :=
  IcManager.start_holds.safeRun_iff ops

/-- A channel is set with one chip, and another chip is selected behind it. -/
theorem not_safeRun_selected : ¬IcManager.start.SafeRun (fun _ _ => true) (fun _ => true)
    [.init, .setMyChipId "jd9367".toList, .setMipiChannel 0 1, .setMyChipId "ili9881c".toList,
      .chip .readVcom 1 () 0] := by
  rw [IcManager.start_holds.safeRun_iff]
  rintro ⟨-, hinit⟩
  obtain ⟨-, hfirst⟩ := hinit 0 [] _ rfl
  obtain ⟨-, hset⟩ := hfirst 0 [] _ rfl
  obtain ⟨-, hsecond⟩ := hset 0 [.getAndResetPrivateData .jd9367 0] _ rfl
  obtain ⟨hread, -⟩ := hsecond 0 [] _ rfl
  have hsource := (hread .ili9881c 0 (by decide) (by decide) rfl).1
  exact absurd hsource (by decide)

end PanelTester.Icm
