import Mathlib.Tactic

/-!
The transfer of a picture to the FPGA, `fpga_trans_pic_data`. The picture goes to the buffer
device in blocks of 320 KB, and each block in as many `write` calls as the device needs to take
it; then 64 zero bytes follow with one `write`. All of the picture arrives, or the transfer ends
with the call that fails; of the zero bytes only as many arrive as that one call takes.
-/

namespace PanelTester.Fpga

/-- `maxWrite` -/
def maxWrite : ℕ := 320 * 1024

/-- The size of `testBuf`. -/
def testBufSize : ℕ := 64

/-- What `write` answers: for the calls with the picture by the number of the call and the number
of bytes it asks for, and for the call with the zero bytes. It fails, or takes some of the bytes. -/
structure WriteResults where
  picture : ℕ → ℕ → ℤ
  zeros : ℤ
  picture_valid : ∀ n count, 0 < count → picture n count < 0 ∨
    0 < picture n count ∧ picture n count ≤ count
  zeros_pos : 0 < zeros
  zeros_le : zeros ≤ testBufSize

/-- A call of `write`: the bytes it asks for, and what it answers. -/
abbrev WriteCall := List UInt8 × ℤ

/-- The bytes that the device took. -/
def accepted (calls : List WriteCall) : List UInt8 :=
  calls.flatMap fun call => call.1.take call.2.toNat

/-- A transfer: what `fpga_trans_pic_data` returns, the calls with the picture, and those behind
it. -/
structure PicTransfer where
  ret : ℤ
  picture : List WriteCall
  behind : List WriteCall

section

variable (results : WriteResults)

/-- The inner loop, for a number of turns: if all of the block was taken, with the calls so far. -/
def writeBlock (pTemp : List UInt8) (s32WriteSize : ℕ) :
    ℕ → ℕ → List WriteCall → Option (Bool × List WriteCall)
  | 0, _, _ => none
  | turns + 1, sumWriteSize, calls =>
      if sumWriteSize < s32WriteSize then
        let actWriteSize := results.picture calls.length (s32WriteSize - sumWriteSize)
        let call := ((pTemp.drop sumWriteSize).take (s32WriteSize - sumWriteSize), actWriteSize)
        if actWriteSize < 0 then some (false, calls ++ [call])
        else
          writeBlock pTemp s32WriteSize turns (sumWriteSize + actWriteSize.toNat) (calls ++ [call])
      else some (true, calls)

/-- The outer loop, for a number of turns. -/
def writeBlocks : ℕ → List UInt8 → ℕ → List WriteCall → Option (Bool × List WriteCall)
  | 0, _, _, _ => none
  | turns + 1, pTemp, u32RgbSize, calls =>
      if u32RgbSize > 0 then
        let s32WriteSize := if u32RgbSize > maxWrite then maxWrite else u32RgbSize
        (writeBlock results pTemp s32WriteSize turns 0 calls).bind fun r =>
          if r.1 then
            writeBlocks turns (pTemp.drop s32WriteSize) (u32RgbSize - s32WriteSize) r.2
          else some r
      else some (true, calls)

/-- `fpga_trans_pic_data`, once the picture is loaded; there is no result when the loops do not
end within a number of turns. -/
def fpgaTransPicData (turns : ℕ) (pRgbBuffer : List UInt8) : Option PicTransfer :=
  (writeBlocks results turns pRgbBuffer pRgbBuffer.length []).map fun r =>
    if r.1 then
      { ret := 0
        picture := r.2
        behind := [(List.replicate testBufSize 0, results.zeros)] }
    else { ret := -2, picture := r.2, behind := [] }

end

/-! ### What is claimed of a transfer -/

/-- How many bytes `write` is asked to take behind the first `sent` ones of a picture of `len`
bytes: what is left of the block. -/
def leftOfBlock (len sent : ℕ) : ℕ := min (maxWrite - sent % maxWrite) (len - sent)

namespace WriteResults

variable (results : WriteResults) (len : ℕ)

/-- How much of a picture of `len` bytes the device takes with the first calls. -/
def taken : ℕ → ℕ
  | 0 => 0
  | n + 1 => taken n + (results.picture n (leftOfBlock len (taken n))).toNat

/-- What the device answers to the call of a number. -/
def answer (n : ℕ) : ℤ := results.picture n (leftOfBlock len (results.taken len n))

/-- A `write` of the picture returns a negative value: one that is made before the device has all
of the picture. -/
def Fails : Prop := ∃ n, results.taken len n < len ∧ results.answer len n < 0

end WriteResults

/-- The device takes the picture and then the zero bytes, and nothing else. -/
def PicTransfer.Complete (t : PicTransfer) (pic : List UInt8) : Prop :=
  t.ret = 0 ∧ accepted (t.picture ++ t.behind) = pic ++ List.replicate testBufSize 0

/-- The call that fails is the last one with the picture, nothing is written any more, and -2 is
returned. -/
def PicTransfer.StopsAtFailure (t : PicTransfer) : Prop :=
  t.ret = -2 ∧ t.behind = [] ∧
    ∃ front last, t.picture = front ++ [last] ∧ ∀ call ∈ front, 0 < call.2

/-- What a transfer is to do: the loops end, and it is complete when all its calls with the picture
take something, and stops where one of them fails. -/
def Transfers (results : WriteResults) (pic : List UInt8) : Prop :=
  ∃ t, (∀ turns, pic.length + 1 < turns → fpgaTransPicData results turns pic = some t) ∧
    ((∀ call ∈ t.picture, 0 < call.2) → t.Complete pic) ∧
    ((∃ call ∈ t.picture, call.2 < 0) → t.StopsAtFailure)

/-! ### The loops -/

theorem accepted_append (calls calls' : List WriteCall) :
    accepted (calls ++ calls') = accepted calls ++ accepted calls' := List.flatMap_append

theorem WriteResults.taken_mono (results : WriteResults) (len : ℕ) :
    Monotone (results.taken len) :=
  monotone_nat_of_le_succ fun _ => Nat.le_add_right _ _

/-- Behind the calls that took all of the picture none is made. -/
theorem WriteResults.not_fails {results : WriteResults} {len n : ℕ}
    (hpos : ∀ i < n, 0 < results.answer len i) (hall : results.taken len n = len) :
    ¬ results.Fails len := by
  rintro ⟨i, hi, hneg⟩
  have hin : i < n := by
    by_contra hge
    have := results.taken_mono len (not_lt.mp hge)
    omega
  exact absurd (hpos i hin) (not_lt.mpr hneg.le)

/-- The calls that were made with `bytes`, from the call of a number on: all of the bytes were
taken, each once and in order, or the last call failed. -/
inductive Sent (results : WriteResults) (len n : ℕ) (bytes : List UInt8) :
    Bool → List WriteCall → Prop
  | whole {more : List WriteCall} (pos : ∀ call ∈ more, 0 < call.2)
      (bytes_eq : accepted more = bytes)
      (answered : ∀ i, n ≤ i → i < n + more.length → 0 < results.answer len i)
      (taken_eq : results.taken len (n + more.length) = results.taken len n + bytes.length) :
      Sent results len n bytes true more
  | failed {front : List WriteCall} {last : WriteCall} (pos : ∀ call ∈ front, 0 < call.2)
      (neg : last.2 < 0) (fails : results.Fails len) :
      Sent results len n bytes false (front ++ [last])

variable {results : WriteResults} {len n : ℕ} {bytes bytes' : List UInt8} {ok : Bool}
  {calls more : List WriteCall}

theorem Sent.nil : Sent results len n [] true [] :=
  .whole (by simp) rfl (fun i hle hlt => absurd hlt (not_lt.mpr hle)) rfl

/-- What is sent behind bytes that were taken. -/
theorem Sent.append (hfront : Sent results len n bytes true calls)
    (h : Sent results len (n + calls.length) bytes' ok more) :
    Sent results len n (bytes ++ bytes') ok (calls ++ more) := by
  cases hfront with
  | whole hpos hbytes hanswered htaken =>
      cases h with
      | whole pos bytes_eq answered taken_eq =>
          refine .whole ?_ (by rw [accepted_append, hbytes, bytes_eq]) ?_ ?_
          · intro call hcall
            rcases List.mem_append.mp hcall with hcall | hcall
            · exact hpos call hcall
            · exact pos call hcall
          · intro i hle hlt
            rw [List.length_append] at hlt
            rcases lt_or_ge i (n + calls.length) with hi | hi
            · exact hanswered i hle hi
            · exact answered i hi (by omega)
          · rw [List.length_append, ← Nat.add_assoc, taken_eq, htaken, List.length_append,
              Nat.add_assoc]
      | failed pos neg fails =>
          rw [← List.append_assoc]
          refine .failed ?_ neg fails
          intro call hcall
          rcases List.mem_append.mp hcall with hcall | hcall
          · exact hpos call hcall
          · exact pos call hcall

/-- One call that takes `bytes`. -/
theorem Sent.single {call : WriteCall} (hanswer : results.answer len n = call.2)
    (hpos : 0 < call.2) (hbytes : accepted [call] = bytes)
    (hlength : bytes.length = call.2.toNat) : Sent results len n bytes true [call] := by
  refine .whole (by simpa using hpos) hbytes ?_ ?_
  · intro i hle hlt
    obtain rfl : i = n := by
      rw [List.length_singleton] at hlt
      omega
    rw [hanswer]
    exact hpos
  · rw [hlength, ← hanswer]
    rfl

/-- One call that fails. -/
theorem Sent.single_failed {call : WriteCall} (hanswer : results.answer len n = call.2)
    (hneg : call.2 < 0) (hleft : results.taken len n < len) :
    Sent results len n bytes false [call] :=
  @Sent.failed _ _ _ _ [] _ (by simp) hneg ⟨n, hleft, hanswer.symm ▸ hneg⟩

variable (results) in
/-- The inner loop ends, and sends what is left of the block that begins at byte `start`. -/
theorem writeBlock_sent (pTemp : List UInt8) {start s32WriteSize sumWriteSize : ℕ}
    (hsize : s32WriteSize ≤ pTemp.length)
    (hask : ∀ sum < s32WriteSize, leftOfBlock len (start + sum) = s32WriteSize - sum)
    (hlen : start + s32WriteSize ≤ len) (hsum : sumWriteSize ≤ s32WriteSize)
    (calls : List WriteCall) (hcalls : results.taken len calls.length = start + sumWriteSize) :
    ∃ ok more, (∀ turns, s32WriteSize - sumWriteSize < turns →
        writeBlock results pTemp s32WriteSize turns sumWriteSize calls =
          some (ok, calls ++ more)) ∧
      Sent results len calls.length
        ((pTemp.drop sumWriteSize).take (s32WriteSize - sumWriteSize)) ok more := by
  induction hleft : s32WriteSize - sumWriteSize using Nat.strong_induction_on
    generalizing sumWriteSize calls with
  | _ left ih =>
      rcases hsum.lt_or_eq with hlt | rfl
      · have hcount : 0 < left := by omega
        -- the next call, with all that is left of the block
        let call : WriteCall :=
          ((pTemp.drop sumWriteSize).take left, results.picture calls.length left)
        have hanswer : results.answer len calls.length = call.2 := by
          rw [WriteResults.answer, hcalls, hask _ hlt, hleft]
        have hturn : ∀ turns, left < turns →
            writeBlock results pTemp s32WriteSize turns sumWriteSize calls =
              if call.2 < 0 then some (false, calls ++ [call])
              else writeBlock results pTemp s32WriteSize (turns - 1)
                (sumWriteSize + call.2.toNat) (calls ++ [call]) := by
          intro turns hturns
          obtain ⟨n, rfl⟩ := Nat.exists_eq_succ_of_ne_zero (show turns ≠ 0 by omega)
          rw [writeBlock, if_pos hlt, hleft]
          rfl
        rcases results.picture_valid calls.length left hcount with hneg | ⟨hpos, hle⟩
        · refine ⟨false, [call], ?_, .single_failed hanswer hneg (by omega)⟩
          intro turns hturns
          rw [hturn turns hturns, if_pos hneg]
        · have htaken : call.2.toNat ≤ left := by
            have : call.2 ≤ left := hle
            omega
          have htaken' : 0 < call.2.toNat := by
            have : 0 < call.2 := hpos
            omega
          have hnext : results.taken len (calls ++ [call]).length =
              start + (sumWriteSize + call.2.toNat) := by
            rw [List.length_append, List.length_singleton, ← Nat.add_assoc, ← hcalls, ← hanswer]
            rfl
          obtain ⟨ok, more, hmore, hsent⟩ := ih (left - call.2.toNat) (by omega)
            (show sumWriteSize + call.2.toNat ≤ s32WriteSize by omega) (calls ++ [call]) hnext
            (by omega)
          refine ⟨ok, call :: more, ?_, ?_⟩
          · intro turns hturns
            rw [hturn turns hturns, if_neg (not_lt.mpr hpos.le), hmore _ (by omega),
              List.append_assoc]
            rfl
          · have hbytes : accepted [call] = (pTemp.drop sumWriteSize).take call.2.toNat := by
              simp [accepted, call, List.take_take, htaken]
            have hlength : ((pTemp.drop sumWriteSize).take call.2.toNat).length =
                call.2.toNat := by
              rw [List.length_take, List.length_drop]
              omega
            rw [List.length_append] at hsent
            have hall := (Sent.single hanswer hpos hbytes hlength).append hsent
            rw [← List.drop_drop, ← List.take_add, Nat.add_sub_cancel' htaken] at hall
            exact hall
      · obtain rfl : left = 0 := by omega
        refine ⟨true, [], ?_, .nil⟩
        intro turns hturns
        obtain ⟨n, rfl⟩ := Nat.exists_eq_succ_of_ne_zero (show turns ≠ 0 by omega)
        rw [writeBlock, if_neg (lt_irrefl _), List.append_nil]

variable (results) in
/-- The outer loop ends, and sends the picture: what is left of it begins with a block. -/
theorem writeBlocks_sent (pTemp : List UInt8) {start : ℕ} (hstart : start + pTemp.length = len)
    (hblock : pTemp = [] ∨ start % maxWrite = 0) (calls : List WriteCall)
    (hcalls : results.taken len calls.length = start) :
    ∃ ok more, (∀ turns, pTemp.length + 1 < turns →
        writeBlocks results turns pTemp pTemp.length calls = some (ok, calls ++ more)) ∧
      Sent results len calls.length pTemp ok more := by
  induction hlen : pTemp.length using Nat.strong_induction_on
    generalizing pTemp start calls with
  | _ left ih =>
      rcases Nat.eq_zero_or_pos left with rfl | hpos
      · obtain rfl := List.length_eq_zero_iff.mp hlen
        refine ⟨true, [], ?_, .nil⟩
        intro turns hturns
        obtain ⟨n, rfl⟩ := Nat.exists_eq_succ_of_ne_zero (show turns ≠ 0 by omega)
        rw [writeBlocks, if_neg (lt_irrefl _), List.append_nil]
      · -- a block, of which at most all that is left can be asked
        obtain ⟨block, hsize⟩ : ∃ n, n = if left > maxWrite then maxWrite else left := ⟨_, rfl⟩
        have hmax : 0 < maxWrite := Nat.succ_pos _
        have hfit : 0 < block ∧ block ≤ left ∧ block ≤ maxWrite := by
          split_ifs at hsize <;> omega
        have haligned : start % maxWrite = 0 := by
          refine hblock.resolve_left fun hnil => ?_
          rw [hnil] at hlen
          exact absurd hlen.symm hpos.ne'
        have hask : ∀ sum < block, leftOfBlock len (start + sum) = block - sum := by
          intro sum hsum
          have hmod : (start + sum) % maxWrite = sum := by
            rw [Nat.add_mod, haligned, Nat.zero_add, Nat.mod_mod, Nat.mod_eq_of_lt (by omega)]
          rw [leftOfBlock, hmod]
          split_ifs at hsize <;> omega
        obtain ⟨ok, more, hmore, hsent⟩ := writeBlock_sent results pTemp (by omega) hask
          (by omega) (Nat.zero_le block) calls hcalls
        have hturn : ∀ turns, left + 1 < turns → writeBlocks results turns pTemp left calls =
            if ok then
              writeBlocks results (turns - 1) (pTemp.drop block) (left - block) (calls ++ more)
            else some (ok, calls ++ more) := by
          intro turns hturns
          obtain ⟨n, rfl⟩ := Nat.exists_eq_succ_of_ne_zero (show turns ≠ 0 by omega)
          rw [writeBlocks, if_pos hpos, ← hsize]
          show (writeBlock results pTemp block n 0 calls).bind _ = _
          rw [hmore n (by omega), Option.bind_some]
          rfl
        rw [List.drop_zero, Nat.sub_zero] at hsent
        cases hsent with
        | failed hfront hneg hfails =>
            refine ⟨false, _, ?_, .failed hfront hneg hfails⟩
            intro turns hturns
            rw [hturn turns hturns]
            rfl
        | whole hwhole hbytes hanswered htaken =>
            have hrest : pTemp.drop block = [] ∨ (start + block) % maxWrite = 0 := by
              rcases hfit.2.2.lt_or_eq with hlt | heq
              · refine .inl (List.drop_eq_nil_of_le ?_)
                split_ifs at hsize <;> omega
              · rw [heq, Nat.add_mod_right]
                exact .inr haligned
            have hnext : results.taken len (calls ++ more).length = start + block := by
              rw [List.length_append, htaken, hcalls, List.length_take, hlen, min_eq_left hfit.2.1]
            obtain ⟨ok', more', hmore', hsent'⟩ := ih (left - block) (by omega)
              (pTemp.drop block) (by rw [List.length_drop]; omega) hrest (calls ++ more) hnext
              (by rw [List.length_drop, hlen])
            refine ⟨ok', more ++ more', ?_, ?_⟩
            · intro turns hturns
              rw [hturn turns hturns, if_pos rfl, hmore' _ (by omega), List.append_assoc]
            · rw [List.length_append] at hsent'
              have hall := (Sent.whole hwhole hbytes hanswered htaken).append hsent'
              rwa [List.take_append_drop] at hall

variable (results) in
/-- The loops of a transfer end, and send the picture. -/
theorem fpgaTransPicData_sent (pic : List UInt8) :
    ∃ ok more, Sent results pic.length 0 pic ok more ∧ ∀ turns, pic.length + 1 < turns →
      fpgaTransPicData results turns pic =
        some (if ok then ⟨0, more, [(List.replicate testBufSize 0, results.zeros)]⟩
          else ⟨-2, more, []⟩) := by
  obtain ⟨ok, more, hmore, hsent⟩ :=
    writeBlocks_sent results pic (Nat.zero_add _) (.inr (Nat.zero_mod _)) [] rfl
  refine ⟨ok, more, hsent, ?_⟩
  intro turns hturns
  rw [fpgaTransPicData, hmore turns hturns, List.nil_append]
  rfl

/-! ### The transfer -/

/-- What is taken of the zero bytes is what one call takes. -/
theorem complete_iff {pic : List UInt8} (hbytes : accepted more = pic) :
    (PicTransfer.mk 0 more [(List.replicate testBufSize 0, results.zeros)]).Complete pic ↔
      results.zeros = testBufSize := by
  have htaken : accepted (more ++ [(List.replicate testBufSize 0, results.zeros)]) =
      pic ++ List.replicate (min results.zeros.toNat testBufSize) 0 := by
    rw [accepted_append, hbytes]
    simp [accepted]
  have hzeros := results.zeros_pos
  have hle := results.zeros_le
  constructor
  · rintro ⟨-, hall⟩
    have hlen := congrArg List.length (htaken.symm.trans hall)
    simp only [List.length_append, List.length_replicate] at hlen
    omega
  · intro hfull
    refine ⟨rfl, htaken.trans ?_⟩
    rw [hfull, Int.toNat_natCast, Nat.min_self]

/-- A transfer does what it is to do exactly when the one call with the zero bytes takes all of
them, or a call with the picture fails. -/
theorem transfers_iff (results : WriteResults) (pic : List UInt8) :
    Transfers results pic ↔ (¬ results.Fails pic.length → results.zeros = testBufSize) := by
  obtain ⟨ok, more, hsent, hrun⟩ := fpgaTransPicData_sent results pic
  cases hsent with
  | failed hfront hneg hfails =>
      refine iff_of_true ⟨_, hrun, ?_, ?_⟩ (absurd hfails)
      · intro hpos
        exact absurd (hpos _ (List.mem_append_right _ (List.mem_singleton_self _)))
          (not_lt.mpr hneg.le)
      · intro _
        exact ⟨rfl, rfl, _, _, rfl, hfront⟩
  | whole hpos hbytes hanswered htaken =>
      have hok : ¬ results.Fails pic.length := by
        rw [Nat.zero_add] at htaken
        refine WriteResults.not_fails (fun i hi => hanswered i (Nat.zero_le i) (by omega))
          (htaken.trans (Nat.zero_add _))
      constructor
      · rintro ⟨t, ht, hcomplete, -⟩ _
        obtain rfl : _ = t :=
          Option.some.inj ((hrun _ (Nat.lt_succ_self _)).symm.trans (ht _ (Nat.lt_succ_self _)))
        exact (complete_iff hbytes).mp (hcomplete hpos)
      · intro hfull
        refine ⟨_, hrun, fun _ => (complete_iff hbytes).mpr (hfull hok), ?_⟩
        rintro ⟨call, hcall, hneg⟩
        exact absurd hneg (not_lt.mpr (hpos call hcall).le)

/-- A device that takes all of the picture at once, and ten of the zero bytes. -/
def tenOfZeros : WriteResults where
  picture _ count := count
  zeros := 10
  picture_valid _ _ hcount := .inr ⟨Int.natCast_pos.mpr hcount, le_rfl⟩
  zeros_pos := Int.natCast_pos.mpr (Nat.succ_pos 9)
  zeros_le := Int.ofNat_le.mpr (Nat.le_add_right 10 54)

theorem not_transfers_tenOfZeros : ¬ Transfers tenOfZeros [1, 2] := by
  rintro ⟨t, ht, hcomplete, -⟩
  obtain rfl : _ = t := Option.some.inj (Eq.trans rfl (ht 4 (Nat.lt_succ_self 3)))
  have h := hcomplete (by decide)
  exact absurd h.2 (by decide)

end PanelTester.Fpga
