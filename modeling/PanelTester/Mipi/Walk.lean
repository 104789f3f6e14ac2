import PanelTester.Mipi.Record
import Mathlib.Data.List.GetD

/-!
The walk of `SendCode` over records. At the start of a complete record one round makes
exactly the calls that the record stands for, changes nothing but answers inside of the
record, and goes on at its end (`sendStep_record`); over records with a terminator behind
them it visits each of them, and breaks off at the terminator (`sendLoop_records`).
-/

namespace PanelTester.Mipi

open Library

theorem writeCode_mid {front old new rest : List UInt8} (h : old.length = new.length) :
    writeCode (front ++ old ++ rest) front.length new = some (front ++ new ++ rest) := by
  rw [writeCode, if_pos (by simp; omega), ← h, List.append_assoc front old rest, List.take_left,
    List.drop_length_add_append, List.drop_left]

section

variable (front rest : List UInt8) (r : Record)

theorem getElem?_record (k : ℕ) :
    (front ++ r.encode ++ rest)[front.length + k]? = (r.encode ++ rest)[k]? := by
  rw [List.append_assoc, List.getElem?_append_right (by omega), Nat.add_sub_cancel_left]

/-- A parameter, where it is in the array. -/
theorem getElem?_param (k : ℕ) (hk : k < r.params.length) :
    (front ++ r.encode ++ rest)[front.length + (k + 3)]? = some (r.params.getD k 0) := by
  rw [getElem?_record, List.getElem?_append_left (by rw [Record.length_encode]; omega),
    List.getD_eq_getElem _ _ hk]
  exact List.getElem?_eq_getElem hk

/-- A parameter, where it is in `MipiData`. -/
theorem getD_param (junk : List UInt8) {k : ℕ} (hk : k < r.params.length) :
    (r.params ++ junk).getD k 0 = r.params.getD k 0 :=
  List.getD_append _ _ _ _ hk

/-- The record, once an answer was written behind its first `k` parameters. -/
theorem writeCode_record (k : ℕ) (bytes : List UInt8) (h : k + bytes.length ≤ r.params.length) :
    ∃ params', params'.length = r.params.length ∧
      writeCode (front ++ r.encode ++ rest) (front.length + (k + 3)) bytes =
        some (front ++
          (r.opcode :: r.register :: UInt8.ofNat r.params.length :: params') ++ rest) := by
  obtain ⟨a, b, c, hparams, ha, hb⟩ : ∃ a b c, r.params = a ++ b ++ c ∧ a.length = k ∧
      b.length = bytes.length := by
    refine ⟨r.params.take k, (r.params.drop k).take bytes.length,
      (r.params.drop k).drop bytes.length, ?_, by simp; omega, by simp; omega⟩
    rw [List.append_assoc, List.take_append_drop, List.take_append_drop]
  have hcode : front ++ r.encode ++ rest =
      (front ++ r.opcode :: r.register :: UInt8.ofNat r.params.length :: a) ++ b ++
        (c ++ rest) := by
    rw [Record.encode]
    conv_lhs => rw [hparams]
    simp [hparams]
  have hfront : front.length + (k + 3) =
      (front ++ r.opcode :: r.register :: UInt8.ofNat r.params.length :: a).length := by
    simp only [List.length_append, List.length_cons, ha]
  refine ⟨a ++ bytes ++ c, by simp [hparams, hb], ?_⟩
  rw [hcode, hfront, writeCode_mid hb]
  simp only [List.append_assoc, List.cons_append]

variable {front rest r} {answer : Answer} {junk : List UInt8} {cf cp : UInt8}

/-- What one round leaves of a record. -/
structure Executed (front rest : List UInt8) (r : Record) (s : Sender) : Prop where
  codePoint : s.codePoint = front.length
  mipiData : s.mipiData.length = 250
  initCode : ∃ params', params'.length = r.params.length ∧ s.initCode =
    front ++ (r.opcode :: r.register :: UInt8.ofNat r.params.length :: params') ++ rest

/-- The conditions on the first bytes of a control record. -/
theorem execute_control (hop : r.opcode = 0x00) (hr : r.Complete)
    (hjunk : (r.params ++ junk).length = 250) :
    ∃ s', execute answer r.opcode r.register (UInt8.ofNat r.params.length)
        ⟨front ++ r.encode ++ rest, front.length, r.params ++ junk, cf, cp⟩ = some (r.actions, s') ∧
      Executed front rest r s' := by
  have hsame : Executed front rest r
      ⟨front ++ r.encode ++ rest, front.length, r.params ++ junk, cf, cp⟩ :=
    ⟨rfl, hjunk, r.params, rfl, rfl⟩
  have hneeded := hr.needed
  simp only [neededParams, hop, if_true] at hneeded
  simp only [execute, Record.actions, hop, if_true]
  by_cases h00 : r.register = 0x00
  · simp only [h00, if_true] at hneeded ⊢
    rw [getD_param r junk (by omega), getD_param r junk (by omega), Nat.mod_eq_of_lt]
    · exact ⟨_, rfl, hsame⟩
    · have h0 := (r.params.getD 0 0).toNat_lt
      have h1 := (r.params.getD 1 0).toNat_lt
      omega
  simp only [h00, if_false] at hneeded ⊢
  by_cases hFD : r.register = 0xFD
  · simp only [hFD, true_or, if_true] at hneeded ⊢
    obtain ⟨params', hparams, hwrite⟩ := writeCode_record front rest r 1
      [(answer.regVal >>> 8).toUInt8, answer.regVal.toUInt8] (by simpa)
    rw [getD_param r junk (by omega), hwrite]
    exact ⟨_, rfl, rfl, hjunk, params', hparams, by simp only [hop, hFD]⟩
  simp only [hFD, if_false, false_or] at hneeded ⊢
  by_cases hFC : r.register = 0xFC
  · simp only [hFC, true_or, if_true] at hneeded ⊢
    rw [getD_param r junk (by omega), getD_param r junk (by omega), getD_param r junk (by omega)]
    exact ⟨_, rfl, hsame⟩
  simp only [hFC, if_false, false_or] at hneeded ⊢
  by_cases hF6 : r.register = 0xF6
  · simp only [hF6, if_true] at hneeded ⊢
    have h0 := getElem?_param front rest r 0 (by omega)
    have h1 := getElem?_param front rest r 1 (by omega)
    have h2 := getElem?_param front rest r 2 (by omega)
    simp only [h0, h1, h2, Option.bind_eq_bind, Option.bind_some]
    exact ⟨_, rfl, hsame⟩
  · refine ⟨⟨front ++ r.encode ++ rest, front.length, r.params ++ junk, cf, cp⟩, ?_, hsame⟩
    simp only [hF6, if_false]
    split
    · rfl
    · split
      · rfl
      · split
        · rfl
        · split <;> rfl

/-- The conditions on the first bytes of a read record. -/
theorem execute_read (hop : r.opcode = 0x06 ∨ r.opcode = 0x14) (hr : r.Complete) (hrest : rest ≠ [])
    (hjunk : (r.params ++ junk).length = 250) :
    ∃ s', execute answer r.opcode r.register (UInt8.ofNat r.params.length)
        ⟨front ++ r.encode ++ rest, front.length, r.params ++ junk, cf, cp⟩ = some (r.actions, s') ∧
      Executed front rest r s' := by
  have hlen := hr.answer hop
  have hread : ∃ params', params'.length = r.params.length ∧
      readModReg answer.modReg (r.params.getD 0 0) (front.length + 4) (front ++ r.encode ++ rest) =
        some (front ++
          (r.opcode :: r.register :: UInt8.ofNat r.params.length :: params') ++ rest) := by
    cases answer.modReg with
    | none => exact ⟨r.params, rfl, rfl⟩
    | some f =>
        exact writeCode_record front rest r 1 ((List.range (r.params.getD 0 0).toNat).map f)
          (by rw [List.length_map, List.length_range]; omega)
  obtain ⟨params', hparams, hread⟩ := hread
  have h0 := getElem?_param front rest r 0 (by omega)
  have hbehind : ∀ l : List UInt8, l.length = r.params.length → ∃ b,
      (front ++ (r.opcode :: r.register :: UInt8.ofNat r.params.length :: l) ++
        rest)[front.length + 4]? =
        some b := by
    intro l hl
    obtain ⟨b, rest, rfl⟩ := List.exists_cons_of_ne_nil hrest
    refine ⟨_, List.getElem?_eq_getElem (by simp; omega)⟩
  obtain ⟨flag, hflag⟩ : ∃ b, (front ++ r.encode ++ rest)[front.length + 4]? = some b :=
    hbehind r.params rfl
  obtain ⟨value, hvalue⟩ := hbehind params' hparams
  have h3 : (front ++ r.encode ++ rest)[front.length + 3]? = some (r.params.getD 0 0) := h0
  rcases hop with hop | hop
  · have hne : ¬ (0x06 : UInt8) = 0x00 ∧ ¬ (0x06 : UInt8) = 0x05 := by decide
    rw [hop] at hread hvalue
    simp only [execute, Record.actions, hop, hne, if_false, if_true, hflag, h3, hread, hvalue,
      Option.bind_eq_bind, Option.bind_some]
    exact ⟨_, rfl, rfl, hjunk, params', hparams, by rw [hop]⟩
  · have hne : ¬ (0x14 : UInt8) = 0x00 ∧ ¬ (0x14 : UInt8) = 0x05 ∧ ¬ (0x14 : UInt8) = 0x06 := by
      decide
    rw [hop] at hread
    simp only [execute, Record.actions, hop, hne, if_false, if_true, h3, hread,
      Option.bind_eq_bind, Option.bind_some]
    exact ⟨_, rfl, rfl, hjunk, params', hparams, by rw [hop]⟩

/-- The padding of a long write. -/
theorem padData_record (hr : r.Complete) (hop : r.opcode = 0x29 ∨ r.opcode = 0x39)
    (hjunk : (r.params ++ junk).length = 250) :
    ∃ m, padData r.params.length (r.params ++ junk) = some m ∧ m.length = 250 := by
  have hlt := hr.padding hop
  rw [padData]
  split
  · rw [if_pos (by omega)]
    exact ⟨_, rfl, by rw [List.length_set, hjunk]⟩
  · exact ⟨_, rfl, hjunk⟩

/-- The conditions on the first bytes of a record. -/
theorem execute_record (front : List UInt8) (answer : Answer) (cf cp : UInt8) (hr : r.Complete)
    (hrest : rest ≠ []) (hjunk : (r.params ++ junk).length = 250) :
    ∃ s', execute answer r.opcode r.register (UInt8.ofNat r.params.length)
        ⟨front ++ r.encode ++ rest, front.length, r.params ++ junk, cf, cp⟩ = some (r.actions, s') ∧
      Executed front rest r s' := by
  by_cases h00 : r.opcode = 0x00
  · exact execute_control h00 hr hjunk
  by_cases hread : r.opcode = 0x06 ∨ r.opcode = 0x14
  · exact execute_read hread hr hrest hjunk
  obtain ⟨h06, h14⟩ := not_or.mp hread
  have hsame : ∀ m : List UInt8, m.length = 250 →
      Executed front rest r ⟨front ++ r.encode ++ rest, front.length, m, cf, cp⟩ :=
    fun m hm => ⟨rfl, hm, r.params, rfl, rfl⟩
  have hneeded := hr.needed
  have hpara : (r.params ++ junk).take r.params.length = r.params := List.take_left
  have hlen := r.toNat_length
  simp only [neededParams, h00, h06, h14, if_false, false_or] at hneeded
  simp only [execute, Record.actions, h00, h06, h14, if_false, hlen, hpara]
  by_cases h05 : r.opcode = 0x05
  · simp only [h05, if_true]
    exact ⟨_, rfl, hsame _ hjunk⟩
  by_cases hshort : r.opcode = 0x15 ∨ r.opcode = 0x23
  · rw [if_pos hshort] at hneeded
    have h0 : (front ++ r.encode ++ rest)[front.length + 3]? = some (r.params.getD 0 0) :=
      getElem?_param front rest r 0 (by omega)
    simp only [h05, if_false, h0, Option.bind_eq_bind, Option.bind_some]
    refine ⟨_, ?_, hsame _ hjunk⟩
    rcases hshort with hop | hop
    · simp [hop]
    · simp [hop]
  obtain ⟨h15, h23⟩ := not_or.mp hshort
  simp only [h05, h15, h23, if_false]
  by_cases hlong : r.opcode = 0x29 ∨ r.opcode = 0x39
  · obtain ⟨m, hpad, hm⟩ := padData_record hr hlong hjunk
    simp only [hpad, Option.bind_eq_bind, Option.bind_some]
    refine ⟨_, ?_, hsame m hm⟩
    rcases hlong with hop | hop
    · simp [hop]
    · simp [hop]
  · obtain ⟨h29, h39⟩ := not_or.mp hlong
    simp only [h29, h39, if_false]
    exact ⟨_, rfl, hsame _ hjunk⟩

/-- One round at the start of a complete record. -/
theorem sendStep_record (front : List UInt8) (answer : Answer) (cf cp : UInt8) {m : List UInt8}
    (hr : r.Complete) (hrest : rest ≠ []) (hm : m.length = 250)
    (hplace : front.length + r.encode.length < 65536) :
    ∃ own s', own.length = r.encode.length ∧
      sendStep answer ⟨front ++ r.encode ++ rest, front.length, m, cf, cp⟩ =
        some (some (r.actions, s')) ∧
      s'.initCode = front ++ own ++ rest ∧ s'.codePoint = (front ++ own).length ∧
      s'.mipiData.length = 250 := by
  have hfits := r.fits
  have hlen : (front ++ r.encode ++ rest)[front.length + 2]? =
    some (UInt8.ofNat r.params.length) := by
    rw [getElem?_record]
    rfl
  have hop : (front ++ r.encode ++ rest)[front.length]? = some r.opcode := by
    have h := getElem?_record front rest r 0
    rw [Nat.add_zero] at h
    rw [h]
    rfl
  have hreg : (front ++ r.encode ++ rest)[front.length + 1]? = some r.register := by
    rw [getElem?_record]
    rfl
  have hcopy : copyData r.params.length ⟨front ++ r.encode ++ rest, front.length, m, cf, cp⟩ =
      some ⟨front ++ r.encode ++ rest, front.length,
        r.params ++ m.drop r.params.length, cf, cp⟩ := by
    have hparams : ((front ++ r.encode ++ rest).drop (front.length + 3)).take r.params.length =
        r.params := by
      rw [List.append_assoc, List.drop_length_add_append]
      exact List.take_left
    rw [copyData]
    simp only [hparams, if_true]
  have hjunk : (r.params ++ m.drop r.params.length).length = 250 := by
    simp [hm]
    omega
  have hle : UInt8.ofNat r.params.length ≤ 250 := by
    rw [UInt8.le_iff_toNat_le, r.toNat_length]
    exact hfits
  obtain ⟨s₁, hexecute, hs₁⟩ := execute_record front answer cf cp hr hrest hjunk
  obtain ⟨params', hparams, hcode⟩ := hs₁.initCode
  have hlen' : s₁.initCode[s₁.codePoint + 2]? = some (UInt8.ofNat r.params.length) := by
    rw [hcode, hs₁.codePoint, List.append_assoc, List.getElem?_append_right (by omega),
      Nat.add_sub_cancel_left]
    rfl
  refine ⟨r.opcode :: r.register :: UInt8.ofNat r.params.length :: params',
    { s₁ with codePoint := (s₁.codePoint + (r.params.length + 3)) % 65536 }, ?_, ?_, hcode, ?_,
    hs₁.mipiData⟩
  · simp [hparams]
  · simp only [sendStep, hlen, hle, if_true, r.toNat_length, hcopy, hop, hreg, hexecute, hlen',
      Option.bind_eq_bind, Option.bind_some]
  · rw [Record.length_encode] at hplace
    rw [hs₁.codePoint, Nat.mod_eq_of_lt (by omega)]
    simp [hparams]

/-- The terminator ends the loop. -/
theorem sendStep_terminator {s : Sender} {b : UInt8} (h : s.initCode[s.codePoint + 2]? = some b)
    (hb : ¬ b ≤ 250) : sendStep answer s = some none := by
  simp only [sendStep, h, hb, if_false, Option.bind_eq_bind, Option.bind_some]

/-- The walk over complete records up to a terminator. -/
theorem sendLoop_records (answers : ℕ → Answer) {b : UInt8} (hb : ¬ b ≤ 250) (rs : List Record)
    (hterm : rest[2]? = some b) (hrs : ∀ r ∈ rs, r.Complete) :
    ∀ (n : ℕ) (front m : List UInt8) (cf cp : UInt8), rs.length < n →
      m.length = 250 → front.length + (rs.flatMap Record.encode).length < 65536 →
      ∃ s, sendLoop answers n ⟨front ++ rs.flatMap Record.encode ++ rest, front.length, m, cf, cp⟩ =
        some (visits front.length rs, s) ∧
        s.codePoint = front.length + (rs.flatMap Record.encode).length := by
  induction rs with
  | nil =>
      intro n front m cf cp hn hm _
      obtain ⟨n, rfl⟩ := Nat.exists_eq_add_of_le' (Nat.one_le_of_lt hn)
      have hplace : (front ++ [] ++ rest)[front.length + 2]? = some b := by
        rw [List.append_nil, List.getElem?_append_right (by omega), Nat.add_sub_cancel_left, hterm]
      refine ⟨⟨front ++ [] ++ rest, front.length, m, cf, cp⟩, ?_, rfl⟩
      rw [List.flatMap_nil, sendLoop, sendStep_terminator hplace hb]
      rfl
  | cons r rs ih =>
      intro n front m cf cp hn hm hlen
      obtain ⟨n, rfl⟩ := Nat.exists_eq_add_of_le' (Nat.one_le_of_lt hn)
      obtain ⟨hr, hrs⟩ := List.forall_mem_cons.mp hrs
      rw [List.flatMap_cons, List.length_append] at hlen
      have hrest : rs.flatMap Record.encode ++ rest ≠ [] := by
        intro hnil
        rw [(List.append_eq_nil_iff.mp hnil).2] at hterm
        simp at hterm
      obtain ⟨own, ⟨code, i, m₁, cf₁, cp₁⟩, hown, hstep, hcode, hplace, hm₁⟩ :=
        sendStep_record front (answers n) cf cp hr hrest hm (by omega)
      obtain rfl : code = _ := hcode
      obtain rfl : i = _ := hplace
      obtain ⟨s, hloop, hs⟩ := ih hrs n (front ++ own) m₁ cf₁ cp₁
        (by rw [List.length_cons] at hn; omega) hm₁ (by rw [List.length_append]; omega)
      have hfront : (front ++ own).length = front.length + r.encode.length := by
        rw [List.length_append, hown]
      rw [← List.append_assoc] at hstep
      rw [List.append_assoc (front ++ own)] at hloop
      have hcode : front ++ (r.encode ++ rs.flatMap Record.encode) ++ rest =
          front ++ r.encode ++ rs.flatMap Record.encode ++ rest := by
        rw [List.append_assoc front r.encode]
      refine ⟨s, ?_, ?_⟩
      · rw [hfront] at hloop
        rw [List.flatMap_cons, hcode, sendLoop, hstep]
        simp only [Option.bind_eq_bind, Option.bind_some, hloop, hfront, visits]
      · rw [hs, hfront, List.flatMap_cons, List.length_append]
        omega

theorem length_writeCode {code code' bytes : List UInt8} {i : ℕ}
    (h : writeCode code i bytes = some code') : code'.length = code.length := by
  rw [writeCode] at h
  split at h
  · obtain rfl := Option.some.inj h
    simp
    omega
  · exact absurd h (by simp)

theorem length_readModReg {f : Option (ℕ → UInt8)} {len : UInt8} {i : ℕ} {code code' : List UInt8}
    (h : readModReg f len i code = some code') : code'.length = code.length := by
  cases f with
  | none => rw [Option.some.inj h]
  | some f => exact length_writeCode h

/-- A result that keeps the length of the array. -/
def KeepsLength (s : Sender) (o : Option (List Action × Sender)) : Prop :=
  ∀ actions s', o = some (actions, s') → s'.initCode.length = s.initCode.length

theorem KeepsLength.ite {s : Sender} {c : Prop} [Decidable c] {x y : Option (List Action × Sender)}
    (hx : KeepsLength s x) (hy : KeepsLength s y) : KeepsLength s (if c then x else y) := by
  split
  · exact hx
  · exact hy

theorem KeepsLength.pure {s t : Sender} {actions : List Action}
    (h : t.initCode.length = s.initCode.length) : KeepsLength s (some (actions, t)) := by
  rintro _ _ heq
  obtain ⟨-, rfl⟩ := Prod.mk.inj (Option.some.inj heq)
  exact h

theorem KeepsLength.bind {α : Type} {s : Sender} {x : Option α}
    {f : α → Option (List Action × Sender)} (h : ∀ a, x = some a → KeepsLength s (f a)) :
    KeepsLength s (x >>= f) := by
  intro actions s' heq
  obtain ⟨a, hx, hf⟩ := Option.bind_eq_some_iff.mp heq
  exact h a hx actions s' hf

theorem keepsLength_execute (op reg len : UInt8) (s : Sender) :
    KeepsLength s (execute answer op reg len s) := by
  rw [execute]
  dsimp only
  repeat' apply KeepsLength.ite
  all_goals try exact .pure rfl
  · exact .bind fun code hcode => .pure (length_writeCode hcode)
  · exact .bind fun _ _ => .bind fun _ _ => .bind fun _ _ => .pure rfl
  · exact .bind fun _ _ => .bind fun _ _ => .bind fun code hcode => .bind fun _ _ =>
      .pure (length_readModReg hcode)
  · exact .bind fun _ _ => .bind fun code hcode => .pure (length_readModReg hcode)
  · exact .bind fun _ _ => .pure rfl
  · exact .bind fun _ _ => .pure rfl
  · exact .bind fun _ _ => .pure rfl
  · exact .bind fun _ _ => .pure rfl

/-- A round that ends saw a length byte in the array; one that goes on keeps its length. -/
theorem sendStep_length {s : Sender} {o : Option (List Action × Sender)}
    (h : sendStep answer s = some o) :
    match o with
    | none => s.codePoint + 2 < s.initCode.length
    | some (_, s') => s'.initCode.length = s.initCode.length := by
  rw [sendStep] at h
  obtain ⟨len, hlen, h⟩ := Option.bind_eq_some_iff.mp h
  split at h
  · obtain ⟨s₁, hcopy, h⟩ := Option.bind_eq_some_iff.mp h
    obtain ⟨op, -, h⟩ := Option.bind_eq_some_iff.mp h
    obtain ⟨reg, -, h⟩ := Option.bind_eq_some_iff.mp h
    obtain ⟨⟨actions, s₂⟩, hexecute, h⟩ := Option.bind_eq_some_iff.mp h
    obtain ⟨len', -, h⟩ := Option.bind_eq_some_iff.mp h
    obtain rfl := Option.some.inj h
    have hcopied : s₁.initCode = s.initCode := by
      unfold copyData at hcopy
      dsimp only at hcopy
      split at hcopy
      · rw [← Option.some.inj hcopy]
      · exact absurd hcopy (by simp)
    show s₂.initCode.length = _
    rw [keepsLength_execute op reg len s₁ _ _ hexecute, hcopied]
  · obtain rfl := Option.some.inj h
    exact (List.getElem?_eq_some_iff.mp hlen).1

/-- A walk that breaks off saw a length byte in the array. -/
theorem sendLoop_end (answers : ℕ → Answer) (n : ℕ) :
    ∀ {s s' : Sender} {vs : List (ℕ × List Action)}, sendLoop answers n s = some (vs, s') →
      vs.length < n → s'.codePoint + 2 < s.initCode.length := by
  induction n with
  | zero => exact fun _ hlt => absurd hlt (Nat.not_lt_zero _)
  | succ n ih =>
      intro s s' vs h hlt
      rw [sendLoop] at h
      obtain ⟨o, hstep, h⟩ := Option.bind_eq_some_iff.mp h
      have hlen := sendStep_length hstep
      cases o with
      | none =>
          obtain ⟨-, rfl⟩ := Prod.mk.inj (Option.some.inj h)
          exact hlen
      | some r =>
          obtain ⟨⟨vs₁, s₂⟩, hloop, h⟩ := Option.bind_eq_some_iff.mp h
          obtain ⟨rfl, rfl⟩ := Prod.mk.inj (Option.some.inj h)
          rw [← hlen]
          exact ih hloop (by simpa using hlt)

end

end PanelTester.Mipi
