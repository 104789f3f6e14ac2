import PanelTester.Uart.UnpackSafety

/-!
`uartWriteData` of `comUart.c`. It admits a payload by the number of its bytes, and packs it
into a buffer on its stack; but what `datapack` writes also has an escape for each byte of the
payload and of its check value that is a flag or an escape itself.
-/

namespace PanelTester.Uart

open Library UartBuf

/-- What `uartWriteData` reads of an entry of `gsUartInfo`. -/
structure UartInfo where
  fd : ℤ
  serial : ℤ
  deriving DecidableEq, Repr

/-- The longest payload that `uartWriteData` admits. -/
def maxWriteLen : ℤ := 1080

/-- `uartWriteData`: what it returns, and what `datapack` has written to `outBuf` if it was
called; with the result 0, this is what is written to the line. There is no result when
`datapack` is to read what is not behind `pBuf`. -/
def uartWriteData (gsUartInfo : List UartInfo) (serialNo : ℤ) (pBuf : Option (List UInt8))
    (writeLen : ℤ) : Option (ℤ × Option (List UInt8)) :=
  if writeLen > maxWriteLen then some (2, none)
  else
    match gsUartInfo.find? fun info => serialNo = info.serial with
    | none => some (3, none)
    | some info =>
        match pBuf with
        | none => some (4, none)
        | some buf =>
            if writeLen < 0 ∨ (buf.length : ℤ) < writeLen then none
            else
              let outBuf := datapack (buf.take writeLen.toNat)
              if info.fd ≥ 0 then some (0, some outBuf) else some (1, some outBuf)

/-- A frame fits `outBuf`, and its length field is the number of the bytes behind it. -/
structure FitsOutBuf (frame : List UInt8) : Prop where
  room : frame.length ≤ uartBufSize
  field : lengthField frame = (frame.drop 4).length

/-- The bytes that `datapack` writes an escape for. -/
def isEscaped (b : UInt8) : Bool := b = 0x7d ∨ b = 0x7e

/-- The escapes in the frame of a payload. -/
def escapeCount (p : List UInt8) : ℕ := (p ++ bytesLE32 (fcs p)).countP isEscaped

variable {p : List UInt8}

theorem length_escape (b : UInt8) : (escape b).length = if isEscaped b then 2 else 1 := by
  rw [isEscaped]
  rcases eq_or_ne b 0x7d with rfl | hd
  · rfl
  · rcases eq_or_ne b 0x7e with rfl | he
    · rfl
    · simp [escape, hd, he]

theorem length_flatMap_escape (c : List UInt8) :
    (c.flatMap escape).length = c.length + c.countP isEscaped := by
  induction c with
  | nil => rfl
  | cons b c ih =>
    rw [List.flatMap_cons, List.length_append, ih, length_escape, List.length_cons,
      List.countP_cons]
    split_ifs
    · omega
    · omega

theorem length_content (p : List UInt8) :
    (content p).length = p.length + 4 + escapeCount p := by
  rw [content, length_flatMap_escape, List.length_append, length_bytesLE32, escapeCount]

/-- The length field of the frame of a payload is right as long as it can hold it. -/
theorem lengthField_datapack (hp : (content p).length + 4 < 2 ^ 16) :
    lengthField (datapack p) = (content p).length + 4 := by
  rw [datapack_eq, lengthField]
  simp only [byteAt, List.getD_cons_zero, List.getD_cons_succ, wordLE16_bytes, frameField,
    UInt16.toNat_ofNat']
  exact Nat.mod_eq_of_lt hp

/-- What `datapack` has written to `outBuf` is the frame of an admitted payload. -/
theorem uartWriteData_frame {gsUartInfo : List UartInfo} {serialNo writeLen ret : ℤ}
    {pBuf : Option (List UInt8)} {frame : List UInt8}
    (h : uartWriteData gsUartInfo serialNo pBuf writeLen = some (ret, some frame)) :
    ∃ buf, pBuf = some buf ∧ writeLen ≤ maxWriteLen ∧ 0 ≤ writeLen ∧ writeLen ≤ buf.length ∧
      frame = datapack (buf.take writeLen.toNat) := by
  rw [uartWriteData] at h
  split_ifs at h with hlong
  · cases h
  · cases hinfo : gsUartInfo.find? fun info => serialNo = info.serial with
    | none =>
      rw [hinfo] at h
      cases h
    | some info =>
      rw [hinfo] at h
      cases pBuf with
      | none => cases h
      | some buf =>
        dsimp only at h
        split_ifs at h with hreads hfd
        · cases h
          exact ⟨buf, rfl, not_lt.1 hlong, by omega, by omega, rfl⟩
        · cases h
          exact ⟨buf, rfl, not_lt.1 hlong, by omega, by omega, rfl⟩

/-- An admitted payload is packed, and goes out on a line that is open. -/
theorem uartWriteData_payload {fd : ℤ} (hfd : 0 ≤ fd) (serialNo : ℤ)
    (hp : (p.length : ℤ) ≤ maxWriteLen) :
    uartWriteData [⟨fd, serialNo⟩] serialNo (some p) p.length = some (0, some (datapack p)) := by
  simp [uartWriteData, not_lt.2 hp, hfd]

/-- The frame of an admitted payload fits `outBuf` exactly when its bytes, those of its check
value and the escapes leave room for the header, the length field and the flags. -/
theorem uartWriteData_fits_iff {gsUartInfo : List UartInfo} {serialNo writeLen ret : ℤ}
    {buf frame : List UInt8}
    (h : uartWriteData gsUartInfo serialNo (some buf) writeLen = some (ret, some frame)) :
    FitsOutBuf frame ↔
      writeLen.toNat + 4 + escapeCount (buf.take writeLen.toNat) + 8 ≤ uartBufSize := by
  obtain ⟨buf', hbuf, hmax, hpos, hlen, rfl⟩ := uartWriteData_frame h
  cases hbuf
  have htake : (buf.take writeLen.toNat).length = writeLen.toNat := by
    rw [List.length_take]
    omega
  have hcontent := length_content (buf.take writeLen.toNat)
  have hframe := length_datapack (buf.take writeLen.toNat)
  rw [htake] at hcontent
  constructor
  · intro hfits
    have hroom := hfits.room
    omega
  · intro hroom
    have hsize : uartBufSize = 1100 := rfl
    refine ⟨by omega, ?_⟩
    rw [lengthField_datapack (by omega), List.length_drop]
    omega

/-- A payload of two bytes, one of which is escaped, goes out on the first line. -/
theorem uartWriteData_fits_escape :
    uartWriteData [⟨3, 0⟩] 0 (some [0x7d, 1]) 2 = some (0, some (datapack [0x7d, 1])) ∧
      (FitsOutBuf (datapack [0x7d, 1]) ↔
        2 + 4 + escapeCount [0x7d, 1] + 8 ≤ uartBufSize) := by
  have hwrite := uartWriteData_payload (p := [0x7d, 1]) (show (0 : ℤ) ≤ 3 by decide) 0 (by decide)
  exact ⟨hwrite, uartWriteData_fits_iff hwrite⟩

/-- A payload of 1080 escapes is admitted, and its frame has more than 2160 bytes. -/
theorem not_fitsOutBuf_escapes :
    ¬ ∀ (gsUartInfo : List UartInfo) (serialNo writeLen ret : ℤ) (buf frame : List UInt8),
      uartWriteData gsUartInfo serialNo (some buf) writeLen = some (ret, some frame) →
        FitsOutBuf frame := by
  intro h
  have hlen : (List.replicate 1080 (0x7d : UInt8)).length = 1080 := List.length_replicate
  have hwrite := uartWriteData_payload (p := List.replicate 1080 0x7d)
    (show (0 : ℤ) ≤ 3 by decide) 0 (by rw [hlen]; decide)
  have hroom := (h _ _ _ _ _ _ hwrite).room
  rw [length_datapack, length_content, hlen, escapeCount, List.countP_append, List.countP_replicate,
    if_pos (by decide), uartBufSize] at hroom
  omega

end PanelTester.Uart
