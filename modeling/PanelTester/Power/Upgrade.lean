import PanelTester.Uart.WriteData

/-!
The upgrade of the power board, `userPwrUpgrade`. One packet announces it, and then the file goes
out in packets of at most 1024 bytes, each with its offset in the file, its length and the size of
the file. `Tiles` says that packets carry a file from an offset on, one behind the other.
-/

namespace PanelTester.Power

open Library

/-- `type`, the power board. -/
def boardType : UInt8 := 0x05

/-- The size of `txt`. -/
def txtSize : ℕ := 1500

/-- The packet that announces the upgrade. -/
def startPacket : List UInt8 := [0x72, boardType, 0x4, 0x0, 0x0, 0x0, 0x0, 0x0]

/-- What stands in front of the data of a packet: 0x73, the type, the length of what follows, and
then the offset, the length of the data and the size of the file. -/
def packetHead (offset datalen fileSize : UInt32) : List UInt8 :=
  let packdatalen : UInt16 := (4 + 4 + 4 + datalen).toUInt16
  [0x73, boardType] ++ bytesLE16 packdatalen ++ bytesLE32 offset ++ bytesLE32 datalen ++
    bytesLE32 fileSize

/-- The loop of `userPwrUpgrade`, for a number of turns: the packets that are sent. There is no
result when it does not end, reads behind the file or writes behind `txt`. -/
def upgradeLoop (fileSize : UInt32) :
    ℕ → UInt32 → List UInt8 → UInt32 → Option (List (List UInt8))
  | 0, _, _, _ => none
  | turns + 1, offset, buf, len =>
      if len > 0 then
        let datalen := if len ≥ 1024 then 1024 else len
        let num := (packetHead offset datalen fileSize).length + datalen.toNat
        if datalen.toNat ≤ buf.length ∧ num ≤ txtSize then
          (upgradeLoop fileSize turns (offset + datalen) (buf.drop datalen.toNat)
            (len - datalen)).map fun packets =>
              (packetHead offset datalen fileSize ++ buf.take datalen.toNat) :: packets
        else none
      else some []

/-- `userPwrUpgrade`: the packets that are sent to the power board. -/
def userPwrUpgrade (turns : ℕ) (fileBuffer : List UInt8) (fileSize : UInt32) :
    Option (List (List UInt8)) :=
  (upgradeLoop fileSize turns 0 fileBuffer fileSize).map fun packets => startPacket :: packets

/-! ### The packets -/

/-- The length of what follows, as a packet has it. -/
def contentField (packet : List UInt8) : ℕ := (wordLE16 (byteAt packet 2) (byteAt packet 3)).toNat

def offsetField (packet : List UInt8) : ℕ :=
  (wordLE32 (byteAt packet 4) (byteAt packet 5) (byteAt packet 6) (byteAt packet 7)).toNat

def lengthField (packet : List UInt8) : ℕ :=
  (wordLE32 (byteAt packet 8) (byteAt packet 9) (byteAt packet 10) (byteAt packet 11)).toNat

def totalField (packet : List UInt8) : ℕ :=
  (wordLE32 (byteAt packet 12) (byteAt packet 13) (byteAt packet 14) (byteAt packet 15)).toNat

/-- A packet with the bytes `part` of a file of `total` bytes, that stand there at `offset`. -/
structure Carries (total offset : ℕ) (part packet : List UInt8) : Prop where
  command : byteAt packet 0 = 0x73
  part_pos : 0 < part.length
  part_le : part.length ≤ 1024
  content_eq : contentField packet = 12 + part.length
  offset_eq : offsetField packet = offset
  length_eq : lengthField packet = part.length
  total_eq : totalField packet = total
  data_eq : packet.drop 16 = part
  admitted : (packet.length : ℤ) ≤ Uart.maxWriteLen

/-- The packets carry all of a file from an offset on, each the bytes behind those of the packet
before it. -/
inductive Tiles (total : ℕ) : ℕ → List UInt8 → List (List UInt8) → Prop
  | done {offset : ℕ} : Tiles total offset [] []
  | packet {offset : ℕ} {part rest packet : List UInt8} {packets : List (List UInt8)}
      (h : Carries total offset part packet)
      (behind : Tiles total (offset + part.length) rest packets) :
      Tiles total offset (part ++ rest) (packet :: packets)

theorem length_packetHead (offset datalen fileSize : UInt32) :
    (packetHead offset datalen fileSize).length = 16 := rfl

variable {datalen : UInt32} {part : List UInt8}

/-- A packet carries its data. -/
theorem carries_packet (offset fileSize : UInt32) (hlen : part.length = datalen.toNat)
    (hpos : 0 < part.length) (hle : part.length ≤ 1024) :
    Carries fileSize.toNat offset.toNat part (packetHead offset datalen fileSize ++ part) where
  command := rfl
  part_pos := hpos
  part_le := hle
  content_eq := by
    have hsum : ((4 + 4 + 4 + datalen).toUInt16).toNat = 12 + part.length := by
      rw [UInt32.toNat_toUInt16, UInt32.toNat_add, show (4 + 4 + 4 : UInt32).toNat = 12 from rfl]
      omega
    exact (congrArg UInt16.toNat (wordLE16_bytes _)).trans hsum
  offset_eq := congrArg UInt32.toNat (wordLE32_bytes offset)
  length_eq := (congrArg UInt32.toNat (wordLE32_bytes datalen)).trans hlen.symm
  total_eq := congrArg UInt32.toNat (wordLE32_bytes fileSize)
  data_eq := rfl
  admitted := by
    rw [List.length_append, length_packetHead, Uart.maxWriteLen]
    omega

variable {turns : ℕ} {offset fileSize len : UInt32} {buf : List UInt8}

theorem pos_iff_toNat_pos : len > 0 ↔ 0 < len.toNat := UInt32.lt_iff_toNat_lt

/-- A packet takes at most 1024 bytes of what is left. -/
theorem datalen_toNat (hdatalen : datalen = if len ≥ 1024 then 1024 else len) :
    datalen.toNat = min 1024 len.toNat := by
  have hiff : len ≥ 1024 ↔ 1024 ≤ len.toNat := UInt32.le_iff_toNat_le
  rw [hdatalen]
  split_ifs with hge
  · exact (Nat.min_eq_left (hiff.mp hge)).symm
  · have := mt hiff.mpr hge
    exact (Nat.min_eq_right (by omega)).symm

theorem upgradeLoop_done (hlen : len.toNat = 0) (hturns : 0 < turns) :
    upgradeLoop fileSize turns offset buf len = some [] := by
  obtain ⟨n, rfl⟩ := Nat.exists_eq_succ_of_ne_zero hturns.ne'
  rw [upgradeLoop, if_neg (by rw [pos_iff_toNat_pos]; omega)]

theorem upgradeLoop_packet (hdatalen : datalen = if len ≥ 1024 then 1024 else len)
    (hpos : 0 < len.toNat) (hbuf : datalen.toNat ≤ buf.length) (hturns : 0 < turns) :
    upgradeLoop fileSize turns offset buf len =
      (upgradeLoop fileSize (turns - 1) (offset + datalen) (buf.drop datalen.toNat)
        (len - datalen)).map fun packets =>
          (packetHead offset datalen fileSize ++ buf.take datalen.toNat) :: packets := by
  obtain ⟨n, rfl⟩ := Nat.exists_eq_succ_of_ne_zero hturns.ne'
  have hfits : datalen.toNat ≤ buf.length ∧
      (packetHead offset datalen fileSize).length + datalen.toNat ≤ txtSize := by
    have := datalen_toNat hdatalen
    rw [length_packetHead, txtSize]
    omega
  rw [upgradeLoop, if_pos (pos_iff_toNat_pos.mpr hpos), ← hdatalen]
  exact if_pos hfits

/-- The loop ends, and its packets carry what is left of the file. -/
theorem upgradeLoop_tiles (fileSize : UInt32) (hbuf : len.toNat ≤ buf.length)
    (hoffset : offset.toNat + len.toNat < 2 ^ 32) :
    ∃ packets, (∀ turns, (len.toNat + 1023) / 1024 < turns →
        upgradeLoop fileSize turns offset buf len = some packets) ∧
      Tiles fileSize.toNat offset.toNat (buf.take len.toNat) packets := by
  induction hleft : len.toNat using Nat.strong_induction_on generalizing offset len buf with
  | _ left ih =>
      rcases Nat.eq_zero_or_pos left with rfl | hpos
      · exact ⟨[], fun turns hturns => upgradeLoop_done hleft (by omega), .done⟩
      · obtain ⟨datalen, hdatalen⟩ :
            ∃ d : UInt32, d = if len ≥ 1024 then 1024 else len := ⟨_, rfl⟩
        have hsize := datalen_toNat hdatalen
        have hpart : (buf.take datalen.toNat).length = datalen.toNat := by
          rw [List.length_take]
          omega
        have hnext : (offset + datalen).toNat = offset.toNat + datalen.toNat := by
          rw [UInt32.toNat_add, Nat.mod_eq_of_lt (by omega)]
        have hrest : (len - datalen).toNat = left - datalen.toNat := by
          rw [UInt32.toNat_sub_of_le _ _ (by rw [UInt32.le_iff_toNat_le]; omega), hleft]
        -- the rest of the file
        have hbuf' : (len - datalen).toNat ≤ (buf.drop datalen.toNat).length := by
          rw [hrest, List.length_drop]
          omega
        have hoffset' : (offset + datalen).toNat + (len - datalen).toNat < 2 ^ 32 := by
          rw [hnext, hrest]
          omega
        obtain ⟨packets, hpackets, htiles⟩ :=
          ih (left - datalen.toNat) (by omega) hbuf' hoffset' hrest
        refine ⟨(packetHead offset datalen fileSize ++ buf.take datalen.toNat) :: packets, ?_, ?_⟩
        · intro turns hturns
          rw [upgradeLoop_packet hdatalen (by omega) (by omega) (by omega),
            hpackets (turns - 1) (by omega)]
          rfl
        · have hcarries := carries_packet offset fileSize hpart (by omega) (by omega)
          have hsplit : buf.take datalen.toNat ++
              (buf.drop datalen.toNat).take (left - datalen.toNat) = buf.take left := by
            rw [← List.take_add]
            congr 1
            omega
          rw [hnext, ← hpart] at htiles
          have hall := Tiles.packet hcarries htiles
          rwa [hpart, hsplit] at hall

/-- The upgrade ends. Behind the packet that announces it, its packets carry the file, each byte
once and in order, with the true offset, length and size, and `uartWriteData` admits every one of
them. -/
theorem userPwrUpgrade_tiles {fileBuffer : List UInt8} {fileSize : UInt32}
    (hfile : fileSize.toNat ≤ fileBuffer.length) :
    ∃ packets, (∀ turns, (fileSize.toNat + 1023) / 1024 < turns →
        userPwrUpgrade turns fileBuffer fileSize = some (startPacket :: packets)) ∧
      Tiles fileSize.toNat 0 (fileBuffer.take fileSize.toNat) packets := by
  have hsize := fileSize.toNat_lt
  have hoffset : (0 : UInt32).toNat + fileSize.toNat < 2 ^ 32 := by
    rw [UInt32.toNat_zero]
    omega
  obtain ⟨packets, hpackets, htiles⟩ := upgradeLoop_tiles fileSize hfile hoffset
  refine ⟨packets, ?_, htiles⟩
  intro turns hturns
  rw [userPwrUpgrade, hpackets turns hturns]
  rfl

/-- A file of two whole packets and a part of one. -/
theorem userPwrUpgrade_tiles_threePackets :
    ∃ packets, (∀ turns, 3 < turns →
        userPwrUpgrade turns (List.replicate 2500 7) 2500 = some (startPacket :: packets)) ∧
      Tiles 2500 0 ((List.replicate 2500 7).take 2500) packets :=
  userPwrUpgrade_tiles (show (2500 : UInt32).toNat ≤ (List.replicate 2500 7).length by
    rw [List.length_replicate]
    rfl)

end PanelTester.Power
