import Mathlib.Tactic

/-!
The messages that burn the VCOM or the ID of a panel, `SERVER2CLI_MSG_OTP` and
`SERVER2CLI_MSG_WRITE_ID_OTP_INFO` of `clirecvcmd5srv.c`, with the read-outs of
`chip_jd9367.c`. They are compiled in test mode, in which the handlers overwrite the limit,
the count and the value that they compare. `handle_guarded`: what is left is that a burn is
done if and only if another value is stored.
-/

namespace PanelTester.Otp

/-! ### The chip -/

/-- What the chip answers: `qc_read_reg` of a page and a register, `qc_read_otp_data_reg`. -/
structure Chip where
  reg : UInt8 → UInt8 → UInt8
  otpData : UInt16 → UInt8

/-- `id_otp_index`, if the count is one of those that the `switch` knows. -/
def idOtpIndex (otpTimes : UInt8) : Option UInt16 :=
  if otpTimes = 1 then some 0x06
  else if otpTimes = 2 then some 0x0B
  else if otpTimes = 3 then some 0x10
  else if otpTimes = 4 then some 0x15
  else if otpTimes = 5 then some 0x1A
  else none

/-- `vcom_otp_index` -/
def vcomOtpIndex (otpTimes : UInt8) : Option UInt16 :=
  if otpTimes = 1 then some 0x26
  else if otpTimes = 2 then some 0x28
  else if otpTimes = 3 then some 0x2A
  else if otpTimes = 4 then some 0x2C
  else if otpTimes = 5 then some 0x2E
  else none

/-- The variables that a read-out of the ID writes. -/
structure IdInfo where
  id1 : UInt8
  id2 : UInt8
  id3 : UInt8
  otpTimes : UInt8

structure VcomInfo where
  vcomH : UInt8
  vcomL : UInt8
  otpTimes : UInt8

/-- `qc_otp_data_read_id`: the result is -1 for an unknown count, which is written all the
same. -/
def qcOtpDataReadId (chip : Chip) (info : IdInfo) : ℤ × IdInfo :=
  let otpTimes := chip.reg 0 0x7C
  match idOtpIndex otpTimes with
  | none => (-1, { info with otpTimes := otpTimes })
  | some i => (0, ⟨chip.otpData (i + 1), chip.otpData (i + 2), chip.otpData (i + 3), otpTimes⟩)

/-- `qc_otp_data_read_vcom` -/
def qcOtpDataReadVcom (chip : Chip) (info : VcomInfo) : ℤ × VcomInfo :=
  let otpTimes := chip.reg 1 0x02
  match vcomOtpIndex otpTimes with
  | none => (-1, { info with otpTimes := otpTimes })
  | some i => (0, ⟨chip.otpData i, chip.otpData (i + 1), otpTimes⟩)

/-! ### The handlers -/

inductive Error
  | ok
  | otpTimesEnd
  | otpTimesNotChange
  | otpDataWriteFailed
  deriving DecidableEq, Repr

/-- What the handlers do: the burn operations `qc_otp_vcom` and `ic_mgr_burn_chip_id`, the
reports to the server, and the picture. -/
inductive Action
  | otpVcom (channel : ℤ) (vcomH vcomL : UInt8)
  | burnChipId (channel : ℤ) (idData : List UInt8)
  | sendOtp (channel : ℤ) (result : Error) (maxOtpTimes : ℤ)
  | sendIdOtpEnd (channel : ℤ) (result : Error) (maxOtpTimes : ℤ)
  | showColorPicture (r g b : UInt8)
  deriving DecidableEq, Repr

/-- `QC_DEFAULT_VCOM_MAX_OTP_TIMES` and `QC_DEFAULT_ID_MAX_OTP_TIMES` -/
def defaultMaxOtpTimes : ℤ := 3

/-- A whole number of a message put into an `unsigned char`. -/
def toByte (z : ℤ) : UInt8 := UInt8.ofInt z

/-- `SERVER2CLI_MSG_OTP`. The chip after the burn answers as `after`. -/
def msgOtp (channel : ℤ) (jsonVcom jsonMaxOtpTimes : Option ℤ) (chip after : Chip) : List Action :=
  let vcom := jsonVcom.getD 0
  let maxOtpTimes := jsonMaxOtpTimes.getD defaultMaxOtpTimes
  let vcomH := toByte (vcom >>> (8 : ℕ))
  let vcomL := toByte vcom
  let old := (qcOtpDataReadVcom chip ⟨0, 0, 0⟩).2
  if old.vcomH ≠ vcomH ∨ old.vcomL ≠ vcomL then
    -- test mode: the limit
    let maxOtpTimes := (old.otpTimes.toNat : ℤ) + 1
    if maxOtpTimes ≤ old.otpTimes.toNat then
      [.showColorPicture 0xFF 0xFF 0xFF, .sendOtp channel .otpTimesEnd maxOtpTimes]
    else
      let new := (qcOtpDataReadVcom after ⟨0, 0, 0⟩).2
      -- test mode: the count that was read again
      let new := { new with otpTimes := old.otpTimes + 1 }
      let error := if new.otpTimes ≤ old.otpTimes then Error.otpTimesNotChange else .ok
      let error :=
        if error = .ok then
          -- test mode: the value that was read again
          let new := { new with vcomH := vcomH, vcomL := vcomL }
          if vcomH ≠ new.vcomH ∨ vcomL ≠ new.vcomL then .otpDataWriteFailed else error
        else error
      [.otpVcom channel vcomH vcomL, .showColorPicture 0xFF 0xFF 0xFF,
        .sendOtp channel error maxOtpTimes]
  else [.showColorPicture 0xFF 0xFF 0xFF, .sendOtp channel .ok maxOtpTimes]

/-- `SERVER2CLI_MSG_WRITE_ID_OTP_INFO`; here the limit is overwritten before the values are
compared. -/
def msgWriteIdOtpInfo (channel : ℤ) (jsonId1 jsonId2 jsonId3 jsonMaxOtpTimes : Option ℤ)
    (chip after : Chip) : List Action :=
  let _maxOtpTimes := jsonMaxOtpTimes.getD defaultMaxOtpTimes
  let id1 := toByte (jsonId1.getD 0)
  let id2 := toByte (jsonId2.getD 0)
  let id3 := toByte (jsonId3.getD 0)
  let old := (qcOtpDataReadId chip ⟨0, 0, 0, 0⟩).2
  -- test mode: the limit
  let maxOtpTimes := (old.otpTimes.toNat : ℤ) + 1
  if old.id1 ≠ id1 ∨ old.id2 ≠ id2 ∨ old.id3 ≠ id3 then
    if maxOtpTimes ≤ old.otpTimes.toNat then [.sendIdOtpEnd channel .otpTimesEnd maxOtpTimes]
    else
      let new := (qcOtpDataReadId after ⟨0, 0, 0, 0⟩).2
      -- test mode: the count that was read again
      let new := { new with otpTimes := old.otpTimes + 1 }
      let error := if new.otpTimes ≤ old.otpTimes then Error.otpTimesNotChange else .ok
      let error :=
        if error = .ok then
          -- test mode: the value that was read again
          let new := { new with id1 := id1, id2 := id2, id3 := id3 }
          if id1 ≠ new.id1 ∨ id2 ≠ new.id2 ∨ id3 ≠ new.id3 then .otpDataWriteFailed else error
        else error
      [.burnChipId channel [id1, id2, id3], .sendIdOtpEnd channel error maxOtpTimes]
  else [.sendIdOtpEnd channel .ok maxOtpTimes]

/-- A request, with the fields that the message may lack. -/
inductive Request
  | vcom (channel : ℤ) (vcom maxVcomOtpTimes : Option ℤ)
  | id (channel : ℤ) (id1 id2 id3 maxIdOtpTimes : Option ℤ)

/-- The handler of a request. -/
def handle (request : Request) (chip after : Chip) : List Action :=
  match request with
  | .vcom channel vcom maxOtpTimes => msgOtp channel vcom maxOtpTimes chip after
  | .id channel id1 id2 id3 maxOtpTimes =>
      msgWriteIdOtpInfo channel id1 id2 id3 maxOtpTimes chip after

/-! ### What a request is about -/

/-- The bytes to be stored. -/
def Request.bytes : Request → List UInt8
  | .vcom _ value _ => [toByte (value.getD 0 >>> (8 : ℕ)), toByte (value.getD 0)]
  | .id _ id1 id2 id3 _ => [toByte (id1.getD 0), toByte (id2.getD 0), toByte (id3.getD 0)]

/-- How often the chip was burnt. -/
def Request.otpTimes (request : Request) (chip : Chip) : ℕ :=
  match request with
  | .vcom _ _ _ => (chip.reg 1 0x02).toNat
  | .id _ _ _ _ _ => (chip.reg 0 0x7C).toNat

/-- The requested limit. -/
def Request.maxOtpTimes : Request → ℤ
  | .vcom _ _ m => m.getD defaultMaxOtpTimes
  | .id _ _ _ _ m => m.getD defaultMaxOtpTimes

/-- What the chip stores: burn `n` has its place behind burn `n - 1`, up to the fifth. -/
def Request.stored (request : Request) (chip : Chip) : Option (List UInt8) :=
  let n := request.otpTimes chip
  if 1 ≤ n ∧ n ≤ 5 then
    match request with
    | .vcom _ _ _ => some ((List.range 2).map fun k =>
        chip.otpData (UInt16.ofNat (0x26 + 2 * (n - 1) + k)))
    | .id _ _ _ _ _ => some ((List.range 3).map fun k =>
        chip.otpData (UInt16.ofNat (0x07 + 5 * (n - 1) + k)))
  else none

/-- The bytes of the burn operations. -/
def burns (actions : List Action) : List (List UInt8) :=
  actions.filterMap fun
    | .otpVcom _ vcomH vcomL => some [vcomH, vcomL]
    | .burnChipId _ idData => some idData
    | _ => none

/-- The results that are reported. -/
def reports (actions : List Action) : List Error :=
  actions.filterMap fun
    | .sendOtp _ result _ => some result
    | .sendIdOtpEnd _ result _ => some result
    | _ => none

/-! ### The guard -/

/-- A table of the five counts. -/
theorem index_table {α : Type} {t : UInt8} (a b c d e : α) :
    (if t = 1 then some a else if t = 2 then some b else if t = 3 then some c
      else if t = 4 then some d else if t = 5 then some e else none) =
    if 1 ≤ t.toNat ∧ t.toNat ≤ 5 then [a, b, c, d, e][t.toNat - 1]? else none := by
  by_cases h : 1 ≤ t.toNat ∧ t.toNat ≤ 5
  · obtain ⟨hlow, hhigh⟩ := h
    obtain ⟨n, hn⟩ : ∃ n, t.toNat = n := ⟨_, rfl⟩
    obtain rfl : t = UInt8.ofNat n := by rw [← hn, UInt8.ofNat_toNat]
    rw [hn] at hlow hhigh
    interval_cases n <;> rfl
  · rw [if_neg h]
    have hne : ∀ u : UInt8, 1 ≤ u.toNat ∧ u.toNat ≤ 5 → t ≠ u := by
      rintro u hu rfl
      exact h hu
    rw [if_neg (hne 1 (by decide)), if_neg (hne 2 (by decide)), if_neg (hne 3 (by decide)),
      if_neg (hne 4 (by decide)), if_neg (hne 5 (by decide))]

/-- The read-out of the VCOM against what is stored. -/
theorem readVcom_stored (chip : Chip) (channel : ℤ) (vcom maxOtpTimes : Option ℤ) :
    (Request.vcom channel vcom maxOtpTimes).stored chip =
      if (qcOtpDataReadVcom chip ⟨0, 0, 0⟩).1 = 0 then
        some [(qcOtpDataReadVcom chip ⟨0, 0, 0⟩).2.vcomH,
          (qcOtpDataReadVcom chip ⟨0, 0, 0⟩).2.vcomL]
      else none := by
  have htable := index_table (t := chip.reg 1 0x02) (0x26 : UInt16) 0x28 0x2A 0x2C 0x2E
  rw [← vcomOtpIndex] at htable
  rw [qcOtpDataReadVcom, Request.stored, Request.otpTimes]
  simp only [htable]
  split
  · rename_i h
    obtain ⟨n, hn⟩ : ∃ n, (chip.reg 1 0x02).toNat = n := ⟨_, rfl⟩
    rw [hn] at h ⊢
    obtain ⟨hlow, hhigh⟩ := h
    interval_cases n <;> rfl
  · rfl

theorem readId_stored (chip : Chip) (channel : ℤ) (id1 id2 id3 maxOtpTimes : Option ℤ) :
    (Request.id channel id1 id2 id3 maxOtpTimes).stored chip =
      if (qcOtpDataReadId chip ⟨0, 0, 0, 0⟩).1 = 0 then
        some [(qcOtpDataReadId chip ⟨0, 0, 0, 0⟩).2.id1, (qcOtpDataReadId chip ⟨0, 0, 0, 0⟩).2.id2,
          (qcOtpDataReadId chip ⟨0, 0, 0, 0⟩).2.id3]
      else none := by
  have htable := index_table (t := chip.reg 0 0x7C) (0x06 : UInt16) 0x0B 0x10 0x15 0x1A
  rw [← idOtpIndex] at htable
  rw [qcOtpDataReadId, Request.stored, Request.otpTimes]
  simp only [htable]
  split
  · rename_i h
    obtain ⟨n, hn⟩ : ∃ n, (chip.reg 0 0x7C).toNat = n := ⟨_, rfl⟩
    rw [hn] at h ⊢
    obtain ⟨hlow, hhigh⟩ := h
    interval_cases n <;> rfl
  · rfl

/-- A count that is overwritten is larger, unless it wraps. -/
theorem succ_le_self_iff (t : UInt8) : t + 1 ≤ t ↔ t.toNat = 255 := by
  have hlt := t.toNat_lt
  rw [UInt8.le_iff_toNat_le, UInt8.toNat_add]
  show (t.toNat + 1) % 256 ≤ t.toNat ↔ _
  omega

/-- What is left of the VCOM handler in test mode. -/
theorem msgOtp_eq (channel : ℤ) (vcom maxOtpTimes : Option ℤ) (chip after : Chip) :
    msgOtp channel vcom maxOtpTimes chip after =
      if [(qcOtpDataReadVcom chip ⟨0, 0, 0⟩).2.vcomH, (qcOtpDataReadVcom chip ⟨0, 0, 0⟩).2.vcomL] =
          (Request.vcom channel vcom maxOtpTimes).bytes then
        [.showColorPicture 0xFF 0xFF 0xFF,
          .sendOtp channel .ok (maxOtpTimes.getD defaultMaxOtpTimes)]
      else
        [.otpVcom channel (toByte (vcom.getD 0 >>> (8 : ℕ))) (toByte (vcom.getD 0)),
          .showColorPicture 0xFF 0xFF 0xFF,
          .sendOtp channel (if (chip.reg 1 0x02).toNat = 255 then .otpTimesNotChange else .ok)
            ((chip.reg 1 0x02).toNat + 1)] := by
  have htimes : (qcOtpDataReadVcom chip ⟨0, 0, 0⟩).2.otpTimes = chip.reg 1 0x02 := by
    rw [qcOtpDataReadVcom]
    dsimp only
    split <;> rfl
  rw [msgOtp, Request.bytes]
  simp only [htimes, succ_le_self_iff, List.cons.injEq, and_true, ← not_and_or, ite_not]
  by_cases hsame : (qcOtpDataReadVcom chip ⟨0, 0, 0⟩).2.vcomH = toByte (vcom.getD 0 >>> (8 : ℕ)) ∧
      (qcOtpDataReadVcom chip ⟨0, 0, 0⟩).2.vcomL = toByte (vcom.getD 0)
  · rw [if_pos hsame, if_pos hsame]
  · rw [if_neg hsame, if_neg hsame, if_neg (by omega)]
    by_cases hwrap : (chip.reg 1 0x02).toNat = 255
    · simp [hwrap]
    · simp [hwrap]

theorem msgWriteIdOtpInfo_eq (channel : ℤ) (id1 id2 id3 maxOtpTimes : Option ℤ)
    (chip after : Chip) :
    msgWriteIdOtpInfo channel id1 id2 id3 maxOtpTimes chip after =
      if [(qcOtpDataReadId chip ⟨0, 0, 0, 0⟩).2.id1, (qcOtpDataReadId chip ⟨0, 0, 0, 0⟩).2.id2,
          (qcOtpDataReadId chip ⟨0, 0, 0, 0⟩).2.id3] =
          (Request.id channel id1 id2 id3 maxOtpTimes).bytes then
        [.sendIdOtpEnd channel .ok ((chip.reg 0 0x7C).toNat + 1)]
      else
        [.burnChipId channel (Request.id channel id1 id2 id3 maxOtpTimes).bytes,
          .sendIdOtpEnd channel (if (chip.reg 0 0x7C).toNat = 255 then .otpTimesNotChange else .ok)
            ((chip.reg 0 0x7C).toNat + 1)] := by
  have htimes : (qcOtpDataReadId chip ⟨0, 0, 0, 0⟩).2.otpTimes = chip.reg 0 0x7C := by
    rw [qcOtpDataReadId]
    dsimp only
    split <;> rfl
  rw [msgWriteIdOtpInfo, Request.bytes]
  simp only [htimes, succ_le_self_iff, List.cons.injEq, and_true, ← not_and_or, ite_not]
  by_cases hsame : (qcOtpDataReadId chip ⟨0, 0, 0, 0⟩).2.id1 = toByte (id1.getD 0) ∧
      (qcOtpDataReadId chip ⟨0, 0, 0, 0⟩).2.id2 = toByte (id2.getD 0) ∧
      (qcOtpDataReadId chip ⟨0, 0, 0, 0⟩).2.id3 = toByte (id3.getD 0)
  · rw [if_pos hsame, if_pos hsame]
  · rw [if_neg hsame, if_neg hsame, if_neg (by omega)]
    by_cases hwrap : (chip.reg 0 0x7C).toNat = 255
    · simp [hwrap]
    · simp [hwrap]

/-- What the handlers burn and report, by the value that they read out. -/
theorem handle_cases (request : Request) (chip after : Chip) :
    ∃ value, (∀ v, request.stored chip = some v → v = value) ∧
      burns (handle request chip after) = (if value = request.bytes then [] else [request.bytes]) ∧
      ∃ error, reports (handle request chip after) = [error] := by
  cases request with
  | vcom channel vcom maxOtpTimes =>
      refine ⟨[(qcOtpDataReadVcom chip ⟨0, 0, 0⟩).2.vcomH,
        (qcOtpDataReadVcom chip ⟨0, 0, 0⟩).2.vcomL],
        fun v hv => ?_, ?_⟩
      · rw [readVcom_stored] at hv
        split at hv
        · exact (Option.some.inj hv).symm
        · exact absurd hv (by simp)
      · rw [handle, msgOtp_eq]
        split
        · exact ⟨rfl, _, rfl⟩
        · exact ⟨rfl, _, rfl⟩
  | id channel id1 id2 id3 maxOtpTimes =>
      refine ⟨[(qcOtpDataReadId chip ⟨0, 0, 0, 0⟩).2.id1, (qcOtpDataReadId chip ⟨0, 0, 0, 0⟩).2.id2,
        (qcOtpDataReadId chip ⟨0, 0, 0, 0⟩).2.id3], fun v hv => ?_, ?_⟩
      · rw [readId_stored] at hv
        split at hv
        · exact (Option.some.inj hv).symm
        · exact absurd hv (by simp)
      · rw [handle, msgWriteIdOtpInfo_eq]
        split
        · exact ⟨rfl, _, rfl⟩
        · exact ⟨rfl, _, rfl⟩

/-- In test mode: only what differs from the stored value is burnt, whatever the counts and
the limit are, and one result is reported. If the read-out succeeds, what differs is burnt,
and a result is reported as right only if the requested bytes were stored or burnt. -/
theorem handle_guarded (request : Request) (chip after : Chip) :
    (∀ value ∈ burns (handle request chip after),
        value = request.bytes ∧ request.stored chip ≠ some request.bytes) ∧
      (reports (handle request chip after)).length = 1 ∧
      (request.stored chip ≠ none →
        (burns (handle request chip after) = [request.bytes] ↔
          request.stored chip ≠ some request.bytes) ∧
        (Error.ok ∈ reports (handle request chip after) →
          request.stored chip = some request.bytes ∨
            burns (handle request chip after) = [request.bytes])) := by
  obtain ⟨value, hvalue, hburns, error, hreports⟩ := handle_cases request chip after
  have hdiffers : value ≠ request.bytes → request.stored chip ≠ some request.bytes :=
    fun hne hstored => hne (hvalue _ hstored).symm
  refine ⟨?_, by rw [hreports]; rfl, fun hread => ?_⟩
  · intro v hv
    rw [hburns] at hv
    split at hv
    · exact absurd hv List.not_mem_nil
    · exact ⟨List.mem_singleton.mp hv, hdiffers ‹_›⟩
  · obtain ⟨v, hv⟩ := Option.ne_none_iff_exists'.mp hread
    obtain rfl := hvalue v hv
    rw [hburns, hv]
    by_cases hsame : v = request.bytes
    · rw [if_pos hsame, hsame]
      simp
    · rw [if_neg hsame]
      simp [hsame]

/-- A chip that was burnt `n` times, and stores `b` everywhere. -/
def burntChip (n b : UInt8) : Chip := ⟨fun _ _ => n, fun _ => b⟩

theorem handle_guarded_burnt :
    (burns (handle (.vcom 1 (some 0x1234) none) (burntChip 2 0x55) (burntChip 3 0)) =
      [[0x12, 0x34]] ↔
        Request.stored (.vcom 1 (some 0x1234) none) (burntChip 2 0x55) ≠ some [0x12, 0x34]) ∧
      (Error.ok ∈ reports (handle (.vcom 1 (some 0x1234) none) (burntChip 2 0x55) (burntChip 3 0)) →
        Request.stored (.vcom 1 (some 0x1234) none) (burntChip 2 0x55) = some [0x12, 0x34] ∨
          burns (handle (.vcom 1 (some 0x1234) none) (burntChip 2 0x55) (burntChip 3 0)) =
            [[0x12, 0x34]]) :=
  (handle_guarded (.vcom 1 (some 0x1234) none) (burntChip 2 0x55) (burntChip 3 0)).2.2 (by decide)

/-- A chip that was burnt as often as requested is burnt once more; and the report is right,
whatever is read again. -/
theorem exists_burn_beyond_limit :
    ¬ ((Request.vcom 1 (some 0x1234) (some 3)).otpTimes (burntChip 3 0x55) <
        (Request.vcom 1 (some 0x1234) (some 3)).maxOtpTimes) ∧
      burns (handle (.vcom 1 (some 0x1234) (some 3)) (burntChip 3 0x55) (burntChip 3 0x55)) =
        [[0x12, 0x34]] ∧
      reports (handle (.vcom 1 (some 0x1234) (some 3)) (burntChip 3 0x55) (burntChip 3 0x55)) =
        [.ok] := by
  refine ⟨by decide, by decide, by decide⟩

end PanelTester.Otp
