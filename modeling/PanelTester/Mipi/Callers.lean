import PanelTester.Mipi.RegisterWrite

/-!
The callers that build an array for one long write and hand it to `SendCode`:
`nt_35521s_set_page`, `mipi_send_code` and the write of `REALTIME_CONTROL`. The walk finds its
end at a length byte above 250 only. An array that is filled with zeros has none, and what a
caller truncates to a byte need not be the length of its data.
-/

namespace PanelTester.Mipi

open Library

/-- The array of `nt_35521s_set_page`, `cmd[100]`. -/
def nt35521sSetPageArray (pageNo : UInt8) : List UInt8 :=
  [0x39, 0xF0, 0x05, 0x55, 0xaa, 0x52, 0x08, pageNo] ++ List.replicate 92 0x00

/-- `sizeof(code)` in the handler of `REALTIME_CONTROL` -/
def realtimeCodeLen : ℕ := 256

/-- The array of a write of `REALTIME_CONTROL`, whose command is the register and its data; none
if they do not fit. -/
def realtimeArray (reg : UInt8) (data : List UInt8) : Option (List UInt8) :=
  let cmdlen := data.length + 1
  if data.length + 3 ≤ realtimeCodeLen then
    some (0x39 :: reg :: UInt8.ofNat (cmdlen - 1) :: data ++
      List.replicate (realtimeCodeLen - (data.length + 3)) 0xff)
  else none

/-- A call of `SendCode`. -/
inductive Caller
  | nt35521sSetPage (pageNo : UInt8)
  | mipiSendCode (reg : UInt8) (regData : List UInt8)
  | realtimeControl (reg : UInt8) (data : List UInt8)

namespace Caller

/-- The array that is handed over; none if the caller writes outside of it. -/
def array : Caller → Option (List UInt8)
  | nt35521sSetPage pageNo => some (nt35521sSetPageArray pageNo)
  | mipiSendCode reg regData => sendCodeArray reg regData
  | realtimeControl reg data => realtimeArray reg data

/-- The register of the one record in it. -/
def register : Caller → UInt8
  | nt35521sSetPage _ => 0xF0
  | mipiSendCode reg _ => reg
  | realtimeControl reg _ => reg

/-- The data of the one record in it. -/
def data : Caller → List UInt8
  | nt35521sSetPage pageNo => [0x55, 0xaa, 0x52, 0x08, pageNo]
  | mipiSendCode _ regData => regData
  | realtimeControl _ data => data

/-- The call; there is no result when the array does not hold the record, or the walk is to access
what is not its own. -/
def sendCode (answers : ℕ → Answer) (mipiData : List UInt8) (curflick curpolar : UInt8)
    (c : Caller) : Option (List (ℕ × List Action) × Sender) := do
  let initCode ← c.array
  Mipi.sendCode answers mipiData curflick curpolar initCode

/-- The array has a terminator behind the record, and the walk can take the record for what it
is. -/
def Terminated : Caller → Prop
  | nt35521sSetPage _ => False
  | mipiSendCode _ regData => regData.length ≤ 249
  | realtimeControl _ data => data.length ≤ 249

end Caller

/-- The walk stays inside of the array and of `MipiData`, makes the one long write of the record,
and breaks off behind it. -/
def StaysInRecord (c : Caller) (walk : Option (List (ℕ × List Action) × Sender)) : Prop :=
  ∃ s, walk = some ([(0, [registerWrite c.register c.data])], s) ∧
    s.codePoint = c.data.length + 3

variable {answers : ℕ → Answer} {mipiData : List UInt8} {curflick curpolar : UInt8}

/-! ### Zeros behind the record -/

/-- Three zeros are a delay, of what `MipiData` happens to hold. -/
theorem sendStep_zeros (front rest mipiData : List UInt8) (answer : Answer) (cf cp : UInt8)
    (hplace : front.length + 3 < 65536) :
    ∃ actions, sendStep answer ⟨front ++ 0 :: 0 :: 0 :: rest, front.length, mipiData, cf, cp⟩ =
      some (some
        (actions, ⟨front ++ 0 :: 0 :: 0 :: rest, front.length + 3, mipiData, cf, cp⟩)) := by
  have hat : ∀ k < 3, (front ++ 0 :: 0 :: 0 :: rest)[front.length + k]? = some (0 : UInt8) := by
    intro k hk
    rw [List.getElem?_append_right (Nat.le_add_right _ _), Nat.add_sub_cancel_left]
    interval_cases k <;> rfl
  have hop : (front ++ 0 :: 0 :: 0 :: rest)[front.length]? = some (0 : UInt8) := hat 0 (by decide)
  have hcopy : copyData 0 ⟨front ++ 0 :: 0 :: 0 :: rest, front.length, mipiData, cf, cp⟩ =
      some ⟨front ++ 0 :: 0 :: 0 :: rest, front.length, mipiData, cf, cp⟩ := rfl
  obtain ⟨actions, hexecute⟩ : ∃ actions, execute answer 0 0 0
      ⟨front ++ 0 :: 0 :: 0 :: rest, front.length, mipiData, cf, cp⟩ =
        some (actions, ⟨front ++ 0 :: 0 :: 0 :: rest, front.length, mipiData, cf, cp⟩) := ⟨_, rfl⟩
  have hshort : (0 : UInt8) ≤ 250 := by decide
  refine ⟨actions, ?_⟩
  simp only [sendStep, hat 2 (by decide), hat 1 (by decide), hop, Option.bind_eq_bind,
    Option.bind_some, hshort, if_true, UInt8.toNat_zero, hcopy, hexecute, Nat.zero_add,
    Nat.mod_eq_of_lt hplace]

/-- A walk over zeros reads behind the array. -/
theorem sendLoop_zeros (mipiData : List UInt8) (answers : ℕ → Answer) (cf cp : UInt8) (n : ℕ) :
    ∀ (front : List UInt8) (m : ℕ), m < 3 * n → front.length + m < 65536 →
      sendLoop answers n ⟨front ++ List.replicate m 0, front.length, mipiData, cf, cp⟩ = none := by
  induction n with
  | zero =>
    intro front m hm
    exact absurd hm (Nat.not_lt_zero _)
  | succ n ih =>
    intro front m hm hplace
    rcases Nat.lt_or_ge m 3 with hshort | hlong
    · -- there is no length byte any more
      have hnone : (front ++ List.replicate m (0 : UInt8))[front.length + 2]? = none := by
        rw [List.getElem?_eq_none_iff, List.length_append, List.length_replicate]
        omega
      simp [sendLoop, sendStep, hnone]
    · obtain ⟨m, rfl⟩ := Nat.exists_eq_add_of_le' hlong
      have hzeros : List.replicate (m + 3) (0 : UInt8) = 0 :: 0 :: 0 :: List.replicate m 0 := rfl
      obtain ⟨actions, hstep⟩ :=
        sendStep_zeros front (List.replicate m 0) mipiData (answers n) cf cp (by omega)
      have hrest := ih (front ++ [0, 0, 0]) m (by omega) (by simp; omega)
      have hfront : front ++ [0, 0, 0] ++ List.replicate m (0 : UInt8) =
          front ++ 0 :: 0 :: 0 :: List.replicate m 0 := by simp
      have hlen : (front ++ [(0 : UInt8), 0, 0]).length = front.length + 3 := List.length_append
      rw [hfront, hlen] at hrest
      rw [hzeros, sendLoop, hstep]
      simp only [Option.bind_eq_bind, Option.bind_some, hrest]
      rfl

/-- The record of the page is sent, and no terminator is behind it. -/
theorem sendCode_nt35521sSetPage (pageNo : UInt8) (hdata : mipiData.length = 250) :
    sendCode answers mipiData curflick curpolar (nt35521sSetPageArray pageNo) = none := by
  have hpage : ([0x55, 0xaa, 0x52, 0x08, pageNo] : List UInt8).length ≤ 249 := by simp
  have hrest : List.replicate 92 (0x00 : UInt8) ≠ [] := by decide
  have hcomplete : (registerRecord 0xF0 [0x55, 0xaa, 0x52, 0x08, pageNo] (by simp)).Complete :=
    complete_registerRecord hpage
  obtain ⟨own, ⟨code, i, m, cf, cp⟩, hown, hstep, hcode, hplace, -⟩ := sendStep_record []
    (answers 8191) curflick curpolar hcomplete hrest hdata (show 0 + 8 < 65536 by decide)
  obtain rfl : code = _ := hcode
  obtain rfl : i = _ := hplace
  have hlen : ([] ++ own).length = 8 := hown
  have hzeros := sendLoop_zeros m answers cf cp 8191 ([] ++ own) 92 (by decide)
    (by rw [hlen]; decide)
  have harray : nt35521sSetPageArray pageNo =
      [] ++ (registerRecord 0xF0 [0x55, 0xaa, 0x52, 0x08, pageNo] (by simp)).encode ++
        List.replicate 92 0 := rfl
  rw [sendCode, harray]
  change sendLoop answers (8191 + 1) ⟨_, ([] : List UInt8).length, _, _, _⟩ = none
  rw [sendLoop, hstep]
  simp only [Option.bind_eq_bind, Option.bind_some, hzeros]
  rfl

/-! ### A length byte -/

/-- The first round on a long write: it ends at once, or writes as many bytes as the length byte
says, of which `MipiData` has room for one more. -/
theorem sendLoop_longWrite {reg len : UInt8} {rest : List UInt8} {n : ℕ} {s : Sender}
    {vs : List (ℕ × List Action)} (hdata : mipiData.length = 250)
    (h : sendLoop answers (n + 1) ⟨0x39 :: reg :: len :: rest, 0, mipiData, curflick, curpolar⟩ =
      some (vs, s)) :
    vs = [] ∨ len.toNat ≤ 249 ∧ ∃ para vs',
      vs = (0, [.dcsLongWriteWithPara reg para (len.toNat + 1)]) :: vs' := by
  rw [sendLoop] at h
  obtain ⟨o, hstep, h⟩ := Option.bind_eq_some_iff.mp h
  rw [sendStep] at hstep
  obtain ⟨len', hlen, hstep⟩ := Option.bind_eq_some_iff.mp hstep
  obtain rfl : len = len' := Option.some.inj hlen
  split_ifs at hstep with hle
  · obtain ⟨s₁, hcopy, hstep⟩ := Option.bind_eq_some_iff.mp hstep
    obtain ⟨op, hop, hstep⟩ := Option.bind_eq_some_iff.mp hstep
    obtain ⟨reg', hreg, hstep⟩ := Option.bind_eq_some_iff.mp hstep
    obtain ⟨⟨actions, s₂⟩, hexecute, hstep⟩ := Option.bind_eq_some_iff.mp hstep
    obtain ⟨len', -, hstep⟩ := Option.bind_eq_some_iff.mp hstep
    obtain rfl := Option.some.inj hstep
    -- what is copied fills the front of `MipiData`
    have hs₁ : s₁.initCode = 0x39 :: reg :: len :: rest ∧ s₁.codePoint = 0 ∧
        s₁.mipiData.length = 250 := by
      rw [copyData] at hcopy
      dsimp only at hcopy
      split_ifs at hcopy with hbytes
      rw [← Option.some.inj hcopy]
      refine ⟨rfl, rfl, ?_⟩
      have hnat := UInt8.le_iff_toNat_le.1 hle
      simp only [UInt8.reduceToNat] at hnat
      rw [List.length_append, hbytes, List.length_drop, hdata]
      omega
    rw [hs₁.1, hs₁.2.1] at hop hreg
    obtain rfl : 0x39 = op := Option.some.inj hop
    obtain rfl : reg = reg' := Option.some.inj hreg
    obtain ⟨padded, hpad, hexecute⟩ := Option.bind_eq_some_iff.mp hexecute
    obtain ⟨rfl, rfl⟩ := Prod.mk.inj (Option.some.inj hexecute)
    obtain ⟨⟨vs₁, s₃⟩, -, h⟩ := Option.bind_eq_some_iff.mp h
    obtain ⟨rfl, rfl⟩ := Prod.mk.inj (Option.some.inj h)
    refine .inr ⟨?_, _, _, rfl⟩
    have hnat := UInt8.le_iff_toNat_le.1 hle
    simp only [UInt8.reduceToNat] at hnat
    rw [padData] at hpad
    rw [hs₁.2.2] at hpad
    split_ifs at hpad with heven hroom
    · omega
    · omega
  · obtain rfl := Option.some.inj hstep
    obtain ⟨rfl, -⟩ := Prod.mk.inj (Option.some.inj h)
    exact .inl rfl

/-- What the truncated length byte leaves of a long write. -/
theorem not_staysInRecord_long {c : Caller} {fill : List UInt8} (hdata : mipiData.length = 250)
    (hlong : 249 < c.data.length) :
    ¬ StaysInRecord c (sendCode answers mipiData curflick curpolar
      (0x39 :: c.register :: UInt8.ofNat c.data.length :: c.data ++ fill)) := by
  rintro ⟨s, hwalk, -⟩
  rw [sendCode] at hwalk
  rcases sendLoop_longWrite (n := 8191) hdata hwalk with hnil | ⟨hlen, para, vs', hvs⟩
  · cases hnil
  · -- the write has as many bytes as the length byte says
    have haction := (Prod.mk.inj (List.cons.inj hvs).1).2
    have hwrite := (List.cons.inj haction).1
    rw [registerWrite, Action.dcsLongWriteWithPara.injEq] at hwrite
    omega

/-! ### The calls -/

theorem staysInRecord_short {c : Caller} {cap : ℕ} (hdata : mipiData.length = 250)
    (hshort : c.data.length ≤ 249) (hfit : c.data.length + 6 ≤ cap) (hcap : cap ≤ maxMipiCodeLen) :
    StaysInRecord c (sendCode answers mipiData curflick curpolar
      (0x39 :: c.register :: UInt8.ofNat c.data.length :: c.data ++
        List.replicate (cap - (c.data.length + 3)) 0xff)) := by
  have hcomplete : ∀ r ∈ [registerRecord c.register c.data (by omega)], r.Complete :=
    List.forall_mem_singleton.mpr (complete_registerRecord hshort)
  obtain ⟨s, hsend, hs⟩ := sendCode_records hcomplete hcap
    (by rw [List.flatMap_singleton, Record.length_encode]; exact hfit) answers
      curflick curpolar hdata
  rw [List.flatMap_singleton] at hsend hs
  exact ⟨s, hsend, hs⟩

/-- An array that is filled up with FF holds a terminator. -/
theorem staysInRecord_filled_iff {c : Caller} {cap : ℕ} (hdata : mipiData.length = 250)
    (hroom : 255 ≤ cap) (hcap : cap ≤ maxMipiCodeLen) :
    StaysInRecord c (sendCode answers mipiData curflick curpolar
      (0x39 :: c.register :: UInt8.ofNat c.data.length :: c.data ++
        List.replicate (cap - (c.data.length + 3)) 0xff)) ↔ c.data.length ≤ 249 := by
  constructor
  · intro hstays
    exact not_lt.1 fun hlong => not_staysInRecord_long hdata hlong hstays
  · intro hshort
    exact staysInRecord_short hdata hshort (by omega) hcap

theorem staysInRecord_array_iff {c : Caller} {initCode : List UInt8}
    (harray : c.array = some initCode) (answers : ℕ → Answer) (curflick curpolar : UInt8)
    (hdata : mipiData.length = 250) :
    StaysInRecord c (sendCode answers mipiData curflick curpolar initCode) ↔ c.Terminated := by
  cases c with
  | nt35521sSetPage pageNo =>
    obtain rfl := Option.some.inj harray
    refine iff_of_false ?_ id
    rintro ⟨s, hwalk, -⟩
    rw [sendCode_nt35521sSetPage pageNo hdata] at hwalk
    cases hwalk
  | mipiSendCode reg regData =>
    change sendCodeArray reg regData = some initCode at harray
    rw [sendCodeArray] at harray
    split_ifs at harray with hfit
    obtain rfl := Option.some.inj harray
    exact staysInRecord_filled_iff (c := .mipiSendCode reg regData) hdata
      (show 255 ≤ maxSendCodeLen by decide) (by decide)
  | realtimeControl reg data =>
    change realtimeArray reg data = some initCode at harray
    unfold realtimeArray at harray
    dsimp only at harray
    rw [Nat.add_sub_cancel] at harray
    split_ifs at harray with hfit
    obtain rfl := Option.some.inj harray
    exact staysInRecord_filled_iff (c := .realtimeControl reg data) hdata
      (show 255 ≤ realtimeCodeLen by decide) (by decide)

/-- A record that is terminated fits its array. -/
theorem Caller.Terminated.array_ne_none {c : Caller} (h : c.Terminated) : c.array ≠ none := by
  cases c with
  | nt35521sSetPage pageNo => exact h.elim
  | mipiSendCode reg regData =>
    have hle : regData.length ≤ 249 := h
    change sendCodeArray reg regData ≠ none
    rw [sendCodeArray, if_pos (by rw [maxSendCodeLen]; omega)]
    exact Option.some_ne_none _
  | realtimeControl reg data =>
    have hle : data.length ≤ 249 := h
    change realtimeArray reg data ≠ none
    rw [realtimeArray]
    rw [if_pos (by rw [realtimeCodeLen]; omega)]
    exact Option.some_ne_none _

/-- A call stays inside of its record exactly when its array has a terminator behind the record
and the record has at most 249 bytes of data: never for `nt_35521s_set_page`. -/
theorem staysInRecord_iff (c : Caller) (answers : ℕ → Answer) {mipiData : List UInt8}
    (curflick curpolar : UInt8) (hdata : mipiData.length = 250) :
    StaysInRecord c (c.sendCode answers mipiData curflick curpolar) ↔ c.Terminated := by
  rw [Caller.sendCode]
  cases harray : c.array with
  | none =>
    refine iff_of_false ?_ fun h => h.array_ne_none harray
    rintro ⟨s, hwalk, -⟩
    cases hwalk
  | some initCode => exact staysInRecord_array_iff harray answers curflick curpolar hdata

/-- A write of two bytes by `mipi_send_code`. -/
theorem staysInRecord_mipiSendCode :
    StaysInRecord (.mipiSendCode 0x35 [1, 2])
      (Caller.sendCode (fun _ => ⟨0, none⟩) (List.replicate 250 0) 0 0
        (.mipiSendCode 0x35 [1, 2])) := by
  have hshort : (Caller.mipiSendCode 0x35 [1, 2]).Terminated :=
    show [(1 : UInt8), 2].length ≤ 249 by decide
  exact (staysInRecord_iff _ (fun _ => ⟨0, none⟩) 0 0 List.length_replicate).2 hshort

/-- The walk over the array of a page does not stay inside of it. -/
theorem not_staysInRecord_setPage :
    ¬ ∀ (c : Caller) (answers : ℕ → Answer) (mipiData : List UInt8) (curflick curpolar : UInt8),
      mipiData.length = 250 → StaysInRecord c (c.sendCode answers mipiData curflick curpolar) := by
  intro h
  have hstays := h (.nt35521sSetPage 0) (fun _ => ⟨0, none⟩) (List.replicate 250 0) 0 0
    List.length_replicate
  obtain ⟨s, hwalk, -⟩ := hstays
  rw [Caller.sendCode, Caller.array] at hwalk
  simp only [Option.bind_eq_bind, Option.bind_some,
    sendCode_nt35521sSetPage 0 List.length_replicate] at hwalk
  cases hwalk

end PanelTester.Mipi
