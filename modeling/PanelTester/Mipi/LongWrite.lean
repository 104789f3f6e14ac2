import PanelTester.Mipi.CommandMode

/-!
The long writes of `mipi2828.c` and `spi_sp6.c`. They differ in the functions that put a word on
the bus, in the mode, and in how they go through the parameters, and pack them in the same words:
the register and the parameters, low byte first, with a zero behind an odd number of bytes.
-/

namespace PanelTester.Mipi

open Library

/-- `WriteSSD2828` -/
def writeSSD2828 (addr : UInt8) (data : UInt16) : List Event :=
  [.transfer 0x70 0x00 addr, .transfer 0x72 (data >>> 8).toUInt8 data.toUInt8]

/-- `WriteDATASSD2828` -/
def writeDATASSD2828 (data : UInt16) : List Event :=
  [.transfer 0x72 (data >>> 8).toUInt8 data.toUInt8]

/-- The mode of the DCS packets by `HsSignalOnFlag`. -/
def dcsMode (hsSignalOnFlag : UInt8) : UInt16 := if hsSignalOnFlag ≠ 0 then 0x034b else 0x0340

/-- The mode of the generic packets by `HsSignalOnFlag`. -/
def generalMode (hsSignalOnFlag : UInt8) : UInt16 := if hsSignalOnFlag ≠ 0 then 0x030b else 0x0300

/-- `DCSLongWriteWithPara` -/
def dcsLongWriteWithPara (hsSignalOnFlag : UInt8) :
    UInt8 → List UInt8 → ℕ → Option (List Event × List UInt8) :=
  longWrite writeSSD2828 writeDATASSD2828 addBytes (dcsMode hsSignalOnFlag)

/-- `GerneralLongWriteWithPara` -/
def gerneralLongWriteWithPara (hsSignalOnFlag : UInt8) :
    UInt8 → List UInt8 → ℕ → Option (List Event × List UInt8) :=
  longWrite writeSSD2828 writeDATASSD2828 addBytes (generalMode hsSignalOnFlag)

/-- The loop of `DCSLongWriteWithPara_xujie`, whose pointer goes with the count. -/
def xujieLoop : ℕ → List UInt8 → Option (List Event)
  | 0, _ => some []
  | 1, para => do
      let vlow ← para[0]?
      some (writeDATASSD2828 (wordBE16 0 vlow))
  | count + 2, para => do
      let vhigh ← para[1]?
      let vlow ← para[0]?
      let events ← xujieLoop count (para.drop 2)
      some (writeDATASSD2828 (wordBE16 vhigh vlow) ++ events)

/-- `DCSLongWriteWithPara_xujie` -/
def dcsLongWriteWithParaXujie (hsSignalOnFlag : UInt8) (para : List UInt8) (count : ℤ) :
    Option (List Event) := do
  let vhigh ← para[1]?
  let vlow ← para[0]?
  let events := writeSSD2828 0xB7 (dcsMode hsSignalOnFlag) ++ writeSSD2828 0xB8 0x0000 ++
    writeSSD2828 0xBC (UInt16.ofInt count) ++ writeSSD2828 0xBF (wordBE16 vhigh vlow)
  if count = 2 then some events
  else do
    let rest ← xujieLoop (count - 2).toNat (para.drop 2)
    some (events ++ rest)

/-! ### The words of a long write -/

/-- The words hold these bytes, low byte first, and are no more than it takes. -/
structure Packs (words : List UInt16) (bytes : List UInt8) : Prop where
  count : words.length = (bytes.length + 1) / 2
  bytes : (words.flatMap bytesLE16).take bytes.length = bytes

/-- A packet of these words: the mode and the count, the first word to register BF and the others
as data. -/
def packet (writeReg : UInt8 → UInt16 → List Event) (writeData : UInt16 → List Event)
    (mode count : UInt16) : List UInt16 → List Event
  | [] => []
  | word :: words => writeReg 0xB7 mode ++ writeReg 0xB8 0x0000 ++ writeReg 0xBC count ++
      writeReg 0xBF word ++ words.flatMap writeData

theorem bytesLE16_addBytes (high low : UInt8) : bytesLE16 (addBytes high low) = [low, high] := by
  rw [← wordBE16_eq_addBytes]
  obtain ⟨hlow, hhigh⟩ := wordLE16_inj (wordLE16_bytes (wordLE16 low high))
  change [(wordLE16 low high).toUInt8, (wordLE16 low high >>> 8).toUInt8] = _
  rw [hlow, hhigh]

theorem packs_longWords : ∀ bytes : List UInt8, Packs (longWords bytes) bytes
  | [] => ⟨rfl, rfl⟩
  | [a] => ⟨by simp [longWords], by simp [longWords, bytesLE16_addBytes]⟩
  | a :: b :: rest => by
      have hrest := packs_longWords rest
      constructor
      · rw [longWords, List.length_cons, hrest.count, List.length_cons, List.length_cons]
        omega
      · rw [longWords, List.flatMap_cons, bytesLE16_addBytes]
        simp [hrest.bytes]

/-- The loop that goes by a pointer sends the words of what is left. -/
theorem xujieLoop_eq : ∀ rest junk : List UInt8,
    xujieLoop rest.length (rest ++ junk) = some ((longWords rest).flatMap writeDATASSD2828)
  | [], _ => rfl
  | [a], _ => by
      simp only [List.length_singleton, xujieLoop, wordBE16_eq_addBytes]
      simp [longWords]
  | a :: b :: rest, junk => by
      have hrest := xujieLoop_eq rest junk
      simp only [List.length_cons, List.cons_append, xujieLoop, List.getElem?_cons_succ,
        List.getElem?_cons_zero, List.drop_succ_cons, List.drop_zero, hrest, wordBE16_eq_addBytes]
      rfl

section

variable {reg : UInt8} {para : List UInt8} {count : ℕ}

/-- The parameters of a long write, the first of which is there. -/
theorem exists_params (hcount : 2 ≤ count) (hpresent : count - 1 ≤ para.length) :
    ∃ p rest junk, para = p :: rest ++ junk ∧ rest.length + 2 = count ∧
      para.take (count - 1) = p :: rest := by
  have hlen : (para.take (count - 1)).length = count - 1 := by
    rw [List.length_take, Nat.min_eq_left hpresent]
  obtain ⟨p, rest, hparams⟩ := List.exists_cons_of_length_pos (l := para.take (count - 1))
    (by omega)
  rw [hparams, List.length_cons] at hlen
  refine ⟨p, rest, para.drop (count - 1), ?_, by omega, hparams⟩
  rw [← hparams, List.take_append_drop]

/-- A long write sends the words of the register and its parameters. -/
theorem longWrite_packet (writeReg : UInt8 → UInt16 → List Event)
    (writeData : UInt16 → List Event) (mode : UInt16) (hcount : 2 ≤ count) (hmax : count ≤ 512)
    (hpresent : count - 1 ≤ para.length) (hroom : count % 2 = 1 → count ≤ para.length) :
    (longWrite writeReg writeData addBytes mode reg para count).map Prod.fst =
      some (packet writeReg writeData mode (UInt16.ofNat count)
        (longWords (reg :: para.take (count - 1)))) := by
  obtain ⟨p, rest, junk, rfl, hlen, hparams⟩ := exists_params hcount hpresent
  have hjunk : rest.length % 2 = 1 → junk ≠ [] := by
    rintro hodd rfl
    have hpad := hroom (by omega)
    simp at hpad
    omega
  obtain ⟨para, hloop, -⟩ := longWriteLoop_eq writeData rest [p] junk
    (show [p].length + 1 = 2 * 1 from rfl) (show rest.length ≤ 2 * 255 by omega) hjunk
  have hwords : [p].length + rest.length + 1 = count := by
    rw [List.length_singleton]
    omega
  rw [hwords, List.singleton_append] at hloop
  rw [hparams, longWrite, hloop]
  rfl

theorem ofInt_natCast (n : ℕ) : UInt16.ofInt n = UInt16.ofNat n := by
  apply UInt16.toNat_inj.mp
  simp only [UInt16.ofInt, UInt16.toNat_ofNat']
  omega

/-- And so does the one that goes by a pointer. -/
theorem xujie_packet (hsSignalOnFlag : UInt8) (hcount : 2 ≤ count)
    (hpresent : count - 1 ≤ para.length) :
    dcsLongWriteWithParaXujie hsSignalOnFlag (reg :: para) count =
      some (packet writeSSD2828 writeDATASSD2828 (dcsMode hsSignalOnFlag) (UInt16.ofNat count)
        (longWords (reg :: para.take (count - 1)))) := by
  obtain ⟨p, rest, junk, rfl, hlen, hparams⟩ := exists_params hcount hpresent
  have hleft : ((count : ℤ) - 2).toNat = rest.length := by omega
  rw [dcsLongWriteWithParaXujie, hparams, hleft, ofInt_natCast]
  simp only [List.cons_append, List.getElem?_cons_succ, List.getElem?_cons_zero,
    List.drop_succ_cons, List.drop_zero, xujieLoop_eq, wordBE16_eq_addBytes,
    Option.bind_eq_bind, Option.bind_some]
  split_ifs with htwo
  · -- the one word is all
    have hnil : rest = [] := List.length_eq_zero_iff.1 (by omega)
    subst hnil
    rw [longWords, longWords]
    simp [packet]
  · rfl

end

/-- Every long write sends, behind the mode and the count, the words of the register and its
`count - 1` parameters: the first to register BF and the others as data. -/
theorem longWrites_pack (hsSignalOnFlag reg : UInt8) (para : List UInt8) (count : UInt8)
    (hcount : 2 ≤ count.toNat) (hpresent : count.toNat - 1 ≤ para.length)
    (hroom : count.toNat % 2 = 1 → count.toNat ≤ para.length) :
    ∃ words, Packs words (reg :: para.take (count.toNat - 1)) ∧
      (dcsLongWriteWithPara hsSignalOnFlag reg para count.toNat).map Prod.fst =
        some (packet writeSSD2828 writeDATASSD2828 (dcsMode hsSignalOnFlag) count.toUInt16 words) ∧
      (gerneralLongWriteWithPara hsSignalOnFlag reg para count.toNat).map Prod.fst =
        some (packet writeSSD2828 writeDATASSD2828 (generalMode hsSignalOnFlag) count.toUInt16
          words) ∧
      (cmdDCSLongWriteWithPara reg para count.toNat).map Prod.fst =
        some (packet writeFPGATo2828 writeDATAFPGATo2828 0x0340 count.toUInt16 words) ∧
      (mipiCmdDcsLongWriteNParams reg para count.toNat).map Prod.fst =
        some (packet mipiCmdWriteRegData mipiCmdWriteData 0x0340 count.toUInt16 words) ∧
      dcsLongWriteWithParaXujie hsSignalOnFlag (reg :: para) count.toNat =
        some (packet writeSSD2828 writeDATASSD2828 (dcsMode hsSignalOnFlag) count.toUInt16
          words) := by
  have hmax : count.toNat ≤ 512 := count.toNat_lt.le.trans (by decide)
  have hfield : UInt16.ofNat count.toNat = count.toUInt16 := by
    apply UInt16.toNat_inj.mp
    rw [UInt16.toNat_ofNat', UInt8.toNat_toUInt16, Nat.mod_eq_of_lt (by omega)]
  have hpacket : ∀ writeReg writeData mode,
      (longWrite writeReg writeData addBytes mode reg para count.toNat).map Prod.fst =
        some (packet writeReg writeData mode count.toUInt16
          (longWords (reg :: para.take (count.toNat - 1)))) := by
    intro writeReg writeData mode
    rw [longWrite_packet writeReg writeData mode hcount hmax hpresent hroom, hfield]
  refine ⟨_, packs_longWords _, hpacket .., hpacket .., hpacket .., ?_, ?_⟩
  · rw [mipiCmdDcsLongWriteNParams, wordBE16_eq_addBytes]
    exact hpacket ..
  · rw [xujie_packet hsSignalOnFlag hcount hpresent, hfield]

/-- A write of three bytes, the last of which is padded. -/
theorem longWrites_pack_three :
    ∃ words, Packs words [0x51, 1, 2] ∧
      (dcsLongWriteWithPara 0 0x51 [1, 2, 9] 3).map Prod.fst =
        some (packet writeSSD2828 writeDATASSD2828 0x0340 3 words) := by
  obtain ⟨words, hpacks, hdcs, -⟩ := longWrites_pack 0 0x51 [1, 2, 9] 3 (by decide) (by decide)
    (by decide)
  exact ⟨words, hpacks, hdcs⟩

end PanelTester.Mipi
