import PanelTester.Library.Words
import PanelTester.Library.Crc

/-!
The TCP frame of `packsocket.c`: a 16-byte header with all fields high byte
first, the payload, and a 4-byte check value. `sendSocketCmd` writes frames,
`frameInfo` is what `parseSocketCmd` reads out of one.
-/

namespace PanelTester.PackSocket

open Library

/-- `SYNC_HEAD` -/
def syncHead : UInt16 := 0x4747

/-- `sizeof(socket_cmd_head_info_t)` -/
def headLen : ℕ := 16

/-- `FIFO_MAX_LEN` -/
def fifoMaxLen : ℕ := 40960

/-- `crc32_le` of `util.c`. The register never leaves the low 32 bits, so the
width of `unsigned long` does not matter. -/
def crc32Le (crc : UInt32) (p : List UInt8) : UInt32 := crcLe crcPolyLe crc p

/-- `socket_cmd_info_t`, with the bytes behind `pValid` in its place. -/
structure SocketCmdInfo where
  sync : UInt16
  cmd : UInt16
  ipnum : UInt32
  curNo : UInt16
  lastNo : UInt16
  type : UInt16
  length : UInt16
  pValid : List UInt8
  crc : UInt32
  deriving DecidableEq, Repr

/-- The header and trailer `sendSocketCmd` fills in; `length` keeps the low 16
bits of the byte count, and the check covers that many bytes. -/
def sendInfo (typeCmd ipnum : UInt32) (curNo lastNo : UInt16) (pData : List UInt8) :
    SocketCmdInfo :=
  let length := UInt16.ofNat pData.length
  { sync := syncHead
    cmd := (typeCmd &&& 0xFFFF).toUInt16
    ipnum := ipnum
    curNo := curNo
    lastNo := lastNo
    type := (typeCmd >>> 16).toUInt16
    length := length
    pValid := pData.take length.toNat
    crc := if pData.length = 0 then 0 else crc32Le crcPolyLe (pData.take length.toNat) }

/-- The bytes of a frame in the order `short2buffer` and `int2buffer` put them. -/
def frameBytes (info : SocketCmdInfo) : List UInt8 :=
  bytesBE16 info.sync ++ bytesBE16 info.cmd ++ bytesBE32 info.ipnum ++ bytesBE16 info.curNo ++
    bytesBE16 info.lastNo ++ bytesBE16 info.type ++ bytesBE16 info.length ++ info.pValid ++
    bytesBE32 info.crc

/-- `sendSocketCmd`: the bytes handed to `send`; nothing is sent to an invalid
descriptor. -/
def sendSocketCmd (sendFd : Int) (typeCmd ipnum : UInt32) (curNo lastNo : UInt16)
    (pData : List UInt8) : List UInt8 :=
  if sendFd = -1 then [] else frameBytes (sendInfo typeCmd ipnum curNo lastNo pData)

/-- `validLen` of a received header. -/
def validLen (pBuffer : List UInt8) : ℕ :=
  (wordBE16 (byteAt pBuffer 14) (byteAt pBuffer 15)).toNat

/-- The payload bytes of a received frame. -/
def validBytes (pBuffer : List UInt8) : List UInt8 :=
  (pBuffer.drop headLen).take (validLen pBuffer)

/-- The check value behind the payload. -/
def frameCrc (pBuffer : List UInt8) : UInt32 :=
  wordBE32 (byteAt pBuffer (validLen pBuffer + 16)) (byteAt pBuffer (validLen pBuffer + 17))
    (byteAt pBuffer (validLen pBuffer + 18)) (byteAt pBuffer (validLen pBuffer + 19))

/-- The test of `parseSocketCmd`: a check value of zero is always accepted. -/
def crcOk (pBuffer : List UInt8) : Bool :=
  frameCrc pBuffer == 0 || frameCrc pBuffer == crc32Le crcPolyLe (validBytes pBuffer)

/-- The node `parseSocketCmd` builds from a received frame. -/
def frameInfo (pBuffer : List UInt8) : SocketCmdInfo where
  sync := syncHead
  cmd := wordBE16 (byteAt pBuffer 2) (byteAt pBuffer 3)
  ipnum := wordBE32 (byteAt pBuffer 4) (byteAt pBuffer 5) (byteAt pBuffer 6) (byteAt pBuffer 7)
  curNo := wordBE16 (byteAt pBuffer 8) (byteAt pBuffer 9)
  lastNo := wordBE16 (byteAt pBuffer 10) (byteAt pBuffer 11)
  type := wordBE16 (byteAt pBuffer 12) (byteAt pBuffer 13)
  length := wordBE16 (byteAt pBuffer 14) (byteAt pBuffer 15)
  pValid := validBytes pBuffer
  crc := frameCrc pBuffer

/-- A frame whose length field is the length of its payload. -/
def WellFormed (info : SocketCmdInfo) : Prop :=
  info.sync = syncHead ∧ info.pValid.length = info.length.toNat

instance (info : SocketCmdInfo) : Decidable (WellFormed info) := by
  unfold WellFormed; infer_instance

theorem length_frameBytes {info : SocketCmdInfo} (h : WellFormed info) :
    (frameBytes info).length = 20 + info.length.toNat := by
  simp [frameBytes, h.2]
  omega

/-- The bytes of a frame, header bytes one by one. -/
theorem frameBytes_eq (info : SocketCmdInfo) :
    frameBytes info =
      (info.sync >>> 8).toUInt8 :: info.sync.toUInt8 ::
      (info.cmd >>> 8).toUInt8 :: info.cmd.toUInt8 ::
      (info.ipnum >>> 24).toUInt8 :: (info.ipnum >>> 16).toUInt8 ::
      (info.ipnum >>> 8).toUInt8 :: info.ipnum.toUInt8 ::
      (info.curNo >>> 8).toUInt8 :: info.curNo.toUInt8 ::
      (info.lastNo >>> 8).toUInt8 :: info.lastNo.toUInt8 ::
      (info.type >>> 8).toUInt8 :: info.type.toUInt8 ::
      (info.length >>> 8).toUInt8 :: info.length.toUInt8 ::
      (info.pValid ++ bytesBE32 info.crc) := by
  simp [frameBytes, bytesBE16, bytesBE32]

theorem validLen_frameBytes {info : SocketCmdInfo} :
    validLen (frameBytes info) = info.length.toNat := by
  simp [validLen, byteAt, frameBytes_eq]

theorem validBytes_frameBytes {info : SocketCmdInfo} (h : WellFormed info) :
    validBytes (frameBytes info) = info.pValid := by
  rw [validBytes, validLen_frameBytes, frameBytes_eq]
  simp [headLen, ← h.2]

theorem frameCrc_frameBytes {info : SocketCmdInfo} (h : WellFormed info) :
    frameCrc (frameBytes info) = info.crc := by
  have hbyte (k : ℕ) : byteAt (frameBytes info) (info.length.toNat + 16 + k) =
      byteAt (bytesBE32 info.crc) k := by
    rw [frameBytes_eq, ← h.2, Nat.add_right_comm]
    simp [byteAt, List.getElem?_append_right]
  have h₀ := hbyte 0
  have h₁ := hbyte 1
  have h₂ := hbyte 2
  have h₃ := hbyte 3
  simp only [Nat.add_zero, Nat.add_assoc, Nat.reduceAdd] at h₀ h₁ h₂ h₃
  rw [frameCrc, validLen_frameBytes, h₀, h₁, h₂, h₃]
  simp [byteAt, bytesBE32]

/-- A well-formed frame is read back as it was written. -/
theorem frameInfo_frameBytes {info : SocketCmdInfo} (h : WellFormed info) :
    frameInfo (frameBytes info) = info := by
  have hvalid := validBytes_frameBytes h
  have hcrc := frameCrc_frameBytes h
  obtain ⟨sync, cmd, ipnum, curNo, lastNo, type, length, pValid, crc⟩ := info
  obtain rfl : sync = syncHead := h.1
  simp only [frameInfo, hvalid, hcrc, SocketCmdInfo.mk.injEq, true_and, and_true]
  simp [byteAt, frameBytes_eq]

/-- A frame whose check value is zero or computed over its payload. -/
def Checked (info : SocketCmdInfo) : Prop :=
  info.crc = 0 ∨ info.crc = crc32Le crcPolyLe info.pValid

theorem crcOk_frameBytes {info : SocketCmdInfo} (h : WellFormed info) :
    crcOk (frameBytes info) = true ↔ Checked info := by
  simp [crcOk, Checked, frameCrc_frameBytes h, validBytes_frameBytes h]

section

variable (typeCmd ipnum : UInt32) (curNo lastNo : UInt16) (pData : List UInt8)

/-- Whatever `sendSocketCmd` is given, its frame is well formed. -/
theorem sendInfo_wellFormed : WellFormed (sendInfo typeCmd ipnum curNo lastNo pData) := by
  refine ⟨rfl, ?_⟩
  simp only [sendInfo, List.length_take, UInt16.toNat_ofNat']
  exact Nat.min_eq_left (Nat.mod_le _ _)

theorem sendInfo_checked : Checked (sendInfo typeCmd ipnum curNo lastNo pData) := by
  rw [Checked, sendInfo]
  by_cases hlen : pData.length = 0
  · exact .inl (if_pos hlen)
  · exact .inr (if_neg hlen)

/-- A payload below 64 KiB is sent whole. -/
theorem sendInfo_pValid {pData : List UInt8} (h : pData.length < 65536) :
    (sendInfo typeCmd ipnum curNo lastNo pData).pValid = pData := by
  simp only [sendInfo, UInt16.toNat_ofNat']
  exact List.take_of_length_le (by rw [Nat.mod_eq_of_lt h])

end

/-- The `typeCmd` argument for a command and a type. -/
def packTypeCmd (type cmd : UInt16) : UInt32 := type.toUInt32 <<< 16 ||| cmd.toUInt32

theorem packTypeCmd_toNat (type cmd : UInt16) :
    (packTypeCmd type cmd).toNat = type.toNat * 65536 + cmd.toNat := by
  have htype := type.toNat_lt
  have hcmd := cmd.toNat_lt
  have hor := Nat.two_pow_add_eq_or_of_lt (i := 16) hcmd type.toNat
  simp only [packTypeCmd, UInt32.toNat_or, UInt32.toNat_shiftLeft, UInt16.toNat_toUInt32,
    UInt32.reduceToNat, Nat.reduceMod, Nat.shiftLeft_eq, Nat.reducePow] at hor ⊢
  rw [Nat.mod_eq_of_lt (by omega), Nat.mul_comm, ← hor]

theorem packTypeCmd_cmd (type cmd : UInt16) :
    (packTypeCmd type cmd &&& 0xFFFF).toUInt16 = cmd := by
  apply UInt16.toNat_inj.mp
  have hcmd := cmd.toNat_lt
  have hmask := Nat.and_two_pow_sub_one_eq_mod (packTypeCmd type cmd).toNat 16
  simp only [UInt32.toNat_toUInt16, UInt32.toNat_and, UInt32.reduceToNat, Nat.reducePow,
    Nat.reduceSub] at hmask ⊢
  rw [hmask, packTypeCmd_toNat]
  omega

theorem packTypeCmd_type (type cmd : UInt16) :
    (packTypeCmd type cmd >>> 16).toUInt16 = type := by
  apply UInt16.toNat_inj.mp
  have htype := type.toNat_lt
  have hcmd := cmd.toNat_lt
  simp only [UInt32.toNat_toUInt16, UInt32.toNat_shiftRight, Nat.shiftRight_eq_div_pow,
    UInt32.reduceToNat, Nat.reduceMod, Nat.reducePow, packTypeCmd_toNat]
  omega

section

variable (type cmd : UInt16) (ipnum : UInt32) (curNo lastNo : UInt16) (pData : List UInt8)

@[simp] theorem sendInfo_cmd :
    (sendInfo (packTypeCmd type cmd) ipnum curNo lastNo pData).cmd = cmd :=
  packTypeCmd_cmd type cmd

@[simp] theorem sendInfo_type :
    (sendInfo (packTypeCmd type cmd) ipnum curNo lastNo pData).type = type :=
  packTypeCmd_type type cmd

end

end PanelTester.PackSocket
