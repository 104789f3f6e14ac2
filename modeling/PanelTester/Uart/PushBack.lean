import PanelTester.Uart.Handover

/-!
The loop of `uartRevDataProcess` as it is written. A byte that cannot stand where it does is
pushed back (`i--`), and the next turn reads it again as the first of a frame. The turns end, and
what they do is what `uartRevDataProcess` does, which reads such a byte twice in one step.
-/

namespace PanelTester.Uart

open Library UartBuf

namespace UartBuf

def setLeft (p : UartBuf) (n : ℕ) : UartBuf := { p with uartleftdatalen := n }

/-- What is in `uartcatch` is given up, and the byte is pushed back. -/
def takeBack (p : UartBuf) : UartBuf :=
  { p.clear.setLeft (p.uartleftdatalen + 1) with uartstate := .idle }

/-- The switch of `uartRevDataProcess`, and if it pushes the byte back. -/
def revSwitch (b : UInt8) (p : UartBuf) : UartBuf × Bool :=
  match p.uartstate with
  | .idle => (recvIdle b p, false)
  | .recvBegin =>
      if b = 0xAA then ({ p with uartstate := .recvLength, uartbytecnt := 0 }, false)
      else (p.takeBack, true)
  | .recvLength =>
      if p.uartbytecnt + 1 = 2 then ({ p with uartstate := .recvHead, uartbytecnt := 0 }, false)
      else ({ p with uartbytecnt := p.uartbytecnt + 1 }, false)
  | .recvHead =>
      if b = 0x7e then
        if p.uartbytecnt + 1 = 2 then ({ p with uartstate := .recvData, uartbytecnt := 0 }, false)
        else ({ p with uartbytecnt := p.uartbytecnt + 1 }, false)
      else (p.takeBack, true)
  | .recvData => (if b = 0x7e then { p with uartstate := .recvEnd } else p, false)
  | .recvEnd =>
      if b = 0x7e then ({ p with uartstate := .recvBusy, uartdo := true }, false)
      else (p.takeBack, true)
  | .recvBusy =>
      ({ p with curuartptr := p.curuartptr - 1, uartrecvcnt := p.uartrecvcnt - 1 }, false)

/-- One turn of the loop, up to the check of `uartdo`. There is no result when the byte is stored
behind `uartcatch`. -/
def revTurn (b : UInt8) (p : UartBuf) : Option (UartBuf × Bool) :=
  let p := if p.uartrecvcnt ≥ uartBufSize then p.overflow else p
  if p.curuartptr < p.uartcatch.length then
    some (revSwitch b ((p.store b).setLeft (p.uartleftdatalen - 1)))
  else none

/-- What is left of the input is copied to `uartbuff`; there is no result when the copy leaves
one of them. -/
def keepLeft (rest : List UInt8) (p : UartBuf) : Option UartBuf :=
  if p.uartleftdatalen ≤ rest.length ∧ p.uartleftdatalen ≤ p.uartbuff.length then
    some { p with
      uartbuff := rest.take p.uartleftdatalen ++ p.uartbuff.drop p.uartleftdatalen }
  else none

end UartBuf

/-- The loop of `uartRevDataProcess`, for a number of turns, which has no result when it does not
end within them. -/
def revLoop : ℕ → List UInt8 → UartBuf → Option UartBuf
  | 0, _, _ => none
  | _ + 1, [], p => some p
  | turns + 1, b :: buf, p =>
      (revTurn b p).bind fun r =>
        let rest := if r.2 then b :: buf else buf
        if r.1.uartdo then keepLeft rest r.1 else revLoop turns rest r.1

/-- `uartRevDataProcess` as it is written. -/
def revData (turns : ℕ) (buf : List UInt8) (p : UartBuf) : Option UartBuf :=
  revLoop turns buf (p.setLeft buf.length)

/-- The buffers between two calls. -/
inductive Reached : UartBuf → Prop
  | start : Reached uartInitInfo
  | process {turns : ℕ} {buf : List UInt8} {p p' : UartBuf} (h : Reached p)
      (hlen : buf.length ≤ maxBuffSize) (hdata : revData turns buf p = some p') : Reached p'
  | unpacked {p : UartBuf} (h : Reached p) : Reached p.reset

/-- The states of the loop over the input `buf`, from a buffer `p` without a frame, each with the
bytes that are not read. -/
inductive InLoop (buf : List UInt8) (p : UartBuf) : List UInt8 → UartBuf → Prop
  | enter : InLoop buf p buf (p.setLeft buf.length)
  | turn {b : UInt8} {rest : List UInt8} {q : UartBuf} {r : UartBuf × Bool}
      (h : InLoop buf p (b :: rest) q) (hdo : q.uartdo = false) (hturn : revTurn b q = some r) :
      InLoop buf p (if r.2 then b :: rest else rest) r.1

/-! ### A turn -/

variable {p q : UartBuf} {b : UInt8} {rest : List UInt8}

@[simp] theorem setLeft_leftdatalen (n : ℕ) : (p.setLeft n).uartleftdatalen = n := rfl

@[simp] theorem setLeft_setLeft (m n : ℕ) : (p.setLeft m).setLeft n = p.setLeft n := rfl

theorem Catches.setLeft (h : Catches p) (n : ℕ) : Catches (p.setLeft n) := h.congr n p.uartbuff

/-- The switch does not look at what is left. -/
theorem recvCase_setLeft (b : UInt8) (q : UartBuf) (n : ℕ) :
    recvCase b (q.setLeft n) = (recvCase b q).setLeft n := by
  obtain ⟨cnt, leftlen, bytes, buff, ptr, state, done, bytecnt⟩ := q
  cases state <;>
    simp only [recvCase, reject, recvIdle, clear, UartBuf.store, UartBuf.setLeft] <;> grind

theorem recvCase_uartbuff (b : UInt8) (q : UartBuf) : (recvCase b q).uartbuff = q.uartbuff := by
  obtain ⟨cnt, leftlen, bytes, buff, ptr, state, done, bytecnt⟩ := q
  cases state <;> simp only [recvCase, reject, recvIdle, clear, UartBuf.store] <;> split_ifs <;> rfl

/-- The switch does what `recvCase` does, or it pushes the byte back, and the next turn does the
rest. -/
theorem revSwitch_cases (b : UInt8) (q : UartBuf) :
    revSwitch b q = (recvCase b q, false) ∨
      revSwitch b q = (q.takeBack, true) ∧ recvCase b q = reject b q ∧
        q.uartstate ≠ .recvBusy := by
  obtain ⟨cnt, leftlen, bytes, buff, ptr, state, done, bytecnt⟩ := q
  cases state with
  | idle => exact .inl rfl
  | recvBegin =>
      rcases eq_or_ne b 0xAA with rfl | hb
      · exact .inl rfl
      · exact .inr ⟨if_neg hb, if_neg hb, by simp⟩
  | recvLength =>
      refine .inl ?_
      simp only [revSwitch, recvCase]
      split_ifs <;> rfl
  | recvHead =>
      rcases eq_or_ne b 0x7e with rfl | hb
      · refine .inl ?_
        simp only [revSwitch, recvCase]
        split_ifs <;> rfl
      · exact .inr ⟨if_neg hb, if_neg hb, by simp⟩
  | recvData => exact .inl rfl
  | recvEnd =>
      rcases eq_or_ne b 0x7e with rfl | hb
      · exact .inl rfl
      · exact .inr ⟨if_neg hb, if_neg hb, by simp⟩
  | recvBusy => exact .inl rfl

theorem recvByte_setLeft (b : UInt8) (p : UartBuf) (n : ℕ) :
    recvByte b (p.setLeft n) = (recvByte b p).setLeft n := by
  have hfull := recvCase_setLeft b (p.overflow.store b) n
  have hroom := recvCase_setLeft b (p.store b) n
  rw [recvByte, recvByte]
  split_ifs with h₁ h₂ h₂
  · exact hfull
  · exact absurd h₁ h₂
  · exact absurd h₂ h₁
  · exact hroom

theorem recvByte_uartbuff (b : UInt8) (p : UartBuf) : (recvByte b p).uartbuff = p.uartbuff := by
  rw [recvByte]
  split
  · exact recvCase_uartbuff b (p.overflow.store b)
  · exact recvCase_uartbuff b (p.store b)

/-- What a turn does: it reads the byte, or pushes it back to a receiver that is idle, and the
next turn reads it. -/
structure TurnDone (b : UInt8) (p : UartBuf) (r : UartBuf × Bool) : Prop where
  catches : Catches r.1
  left : r.1.uartleftdatalen = if r.2 then p.uartleftdatalen else p.uartleftdatalen - 1
  read : r.2 = false → r.1 = (recvByte b p).setLeft (p.uartleftdatalen - 1)
  back : r.2 = true → r.1.uartdo = false ∧ r.1.uartstate = .idle ∧
    ∀ n, (recvByte b r.1).setLeft n = (recvByte b p).setLeft n

/-- A byte is stored and the switch is made, where there is room. -/
theorem Catches.switchDone (h : Catches p) (hroom : p.uartrecvcnt < uartBufSize)
    (hleft : 0 < p.uartleftdatalen) (b : UInt8) :
    TurnDone b p (revSwitch b ((p.store b).setLeft (p.uartleftdatalen - 1))) := by
  have hbyte : UartBuf.recvByte b p = recvCase b (p.store b) := if_neg (Nat.not_le.mpr hroom)
  have hcase := recvCase_setLeft b (p.store b) (p.uartleftdatalen - 1)
  rcases revSwitch_cases b ((p.store b).setLeft (p.uartleftdatalen - 1)) with
    hread | ⟨hback, hreject, hstate⟩
  · rw [hread, hcase, ← hbyte]
    exact
      { catches := (h.recvByte b).setLeft _
        left := rfl
        read := fun _ => rfl
        back := fun hfalse => absurd hfalse Bool.false_ne_true }
  · rw [hback]
    have hdo : p.uartdo = false := h.toFilled.uartdo_false hstate
    have hstored := (h.toFilled.store hroom b).catches_clear hdo
    refine
      { catches := hstored.setLeft _
        left := Nat.sub_add_cancel hleft
        read := fun hfalse => absurd hfalse.symm Bool.false_ne_true
        back := fun _ => ⟨hdo, rfl, ?_⟩ }
    intro n
    -- the switch reads the byte a second time, which is what the next turn does
    have hagain : UartBuf.recvByte b ((p.store b).setLeft (p.uartleftdatalen - 1)).takeBack =
        recvCase b (((p.store b).setLeft (p.uartleftdatalen - 1)).takeBack.store b) :=
      if_neg (by simp [takeBack, clear, UartBuf.setLeft, uartBufSize])
    have hread : (recvCase b (p.store b)).setLeft n =
        (reject b ((p.store b).setLeft (p.uartleftdatalen - 1))).setLeft n := by
      rw [← hreject, hcase, setLeft_setLeft]
    have hsame : (((p.store b).setLeft (p.uartleftdatalen - 1)).takeBack.store b).setLeft n =
        (UartBuf.store { ((p.store b).setLeft (p.uartleftdatalen - 1)).clear with
          uartstate := .idle } b).setLeft n := rfl
    rw [hbyte, hread]
    show (UartBuf.recvByte b _).setLeft n = _
    rw [hagain, ← recvCase_setLeft, hsame, recvCase_setLeft]
    rfl

/-- A turn of the loop ends, and stores its byte in `uartcatch`. -/
theorem Catches.revTurn (h : Catches p) (hleft : 0 < p.uartleftdatalen) (b : UInt8) :
    ∃ r, UartBuf.revTurn b p = some r ∧ TurnDone b p r := by
  rw [UartBuf.revTurn]
  rcases Nat.lt_or_ge p.uartrecvcnt uartBufSize with hroom | hfull
  · have hcell : p.curuartptr < p.uartcatch.length := by
      rw [h.size, h.curuartptr]
      exact hroom
    simp only [if_neg (Nat.not_le.mpr hroom), if_pos hcell]
    exact ⟨_, rfl, h.switchDone hroom hleft b⟩
  · have hroom : p.overflow.uartrecvcnt < uartBufSize := by
      simp [UartBuf.overflow, clear, uartBufSize]
    have hcell : p.overflow.curuartptr < p.overflow.uartcatch.length := by
      rw [h.overflow.size, h.overflow.curuartptr]
      exact hroom
    have hbyte : UartBuf.recvByte b p.overflow = UartBuf.recvByte b p := by
      rw [UartBuf.recvByte, if_neg (Nat.not_le.mpr hroom), UartBuf.recvByte, if_pos hfull]
    simp only [if_pos hfull, if_pos hcell]
    have hdone := h.overflow.switchDone hroom hleft b
    exact ⟨_, rfl, hdone.catches, hdone.left, hbyte ▸ hdone.read, hbyte ▸ hdone.back⟩

/-- An idle receiver pushes no byte back. -/
theorem Catches.revTurn_idle (h : Catches p) (hstate : p.uartstate = .idle)
    (hleft : 0 < p.uartleftdatalen) (b : UInt8) :
    UartBuf.revTurn b p =
      some ((UartBuf.recvByte b p).setLeft (p.uartleftdatalen - 1), false) := by
  obtain ⟨r, hr, hdone⟩ := h.revTurn hleft b
  have hkept : r.2 = false := by
    rw [UartBuf.revTurn] at hr
    obtain ⟨cnt, leftlen, bytes, buff, ptr, state, done, bytecnt⟩ := p
    obtain rfl : state = .idle := hstate
    split_ifs at hr
    · exact (congrArg Prod.snd (Option.some.inj hr)).symm
    · exact (congrArg Prod.snd (Option.some.inj hr)).symm
  rw [hr]
  exact congrArg some (Prod.ext (hdone.read hkept) hkept)

/-! ### The loop -/

theorem revLoop_succ {turns : ℕ} {buf : List UInt8} {p' : UartBuf}
    (h : revLoop turns buf p = some p') : revLoop (turns + 1) buf p = some p' := by
  induction turns generalizing buf p with
  | zero => exact absurd h.symm (Option.some_ne_none p')
  | succ turns ih =>
      cases buf with
      | nil => exact h
      | cons b buf =>
          rw [revLoop] at h ⊢
          obtain ⟨r, hr, hrest⟩ := Option.bind_eq_some_iff.mp h
          refine Option.bind_eq_some_iff.mpr ⟨r, hr, ?_⟩
          dsimp only at hrest ⊢
          split_ifs at hrest ⊢
          · exact hrest
          · exact hrest
          · exact ih hrest
          · exact ih hrest

/-- More turns make no difference. -/
theorem revLoop_le {turns n : ℕ} {buf : List UInt8} {p' : UartBuf}
    (h : revLoop turns buf p = some p') (hn : turns ≤ n) : revLoop n buf p = some p' := by
  obtain ⟨k, rfl⟩ := Nat.exists_eq_add_of_le hn
  clear hn
  induction k with
  | zero => exact h
  | succ k ih => exact revLoop_succ ih

/-- The loop ends, as each byte is read at most twice, and does what `uartRevDataProcess` does. -/
theorem Catches.revLoop_eq {buf : List UInt8} (h : Catches p)
    (hleft : p.uartleftdatalen = buf.length) (hbuff : buf.length ≤ p.uartbuff.length) {turns : ℕ}
    (hturns : 2 * buf.length < turns) :
    revLoop turns buf p = some (uartRevDataProcess buf p) := by
  induction buf generalizing p turns with
  | nil =>
      obtain ⟨n, rfl⟩ := Nat.exists_eq_add_of_lt hturns
      rw [uartRevDataProcess, ← List.length_nil, ← hleft]
      rfl
  | cons b buf ih =>
      rw [List.length_cons] at hleft hbuff hturns
      have hkept : p.uartleftdatalen - 1 = buf.length := by omega
      -- how the loop goes on once the byte is read
      have hrest : ∀ n, 2 * buf.length < n →
          (if ((UartBuf.recvByte b p).setLeft buf.length).uartdo then
            keepLeft buf ((UartBuf.recvByte b p).setLeft buf.length)
            else revLoop n buf ((UartBuf.recvByte b p).setLeft buf.length)) =
          some (uartRevDataProcess (b :: buf) p) := by
        intro n hn
        have hsize : ((UartBuf.recvByte b p).setLeft buf.length).uartbuff.length =
            p.uartbuff.length := congrArg List.length (recvByte_uartbuff b p)
        rw [uartRevDataProcess]
        by_cases hdo : ((UartBuf.recvByte b p).setLeft buf.length).uartdo
        · have hfit : ((UartBuf.recvByte b p).setLeft buf.length).uartleftdatalen ≤ buf.length ∧
              ((UartBuf.recvByte b p).setLeft buf.length).uartleftdatalen ≤
                ((UartBuf.recvByte b p).setLeft buf.length).uartbuff.length := by
            rw [hsize, setLeft_leftdatalen]
            exact ⟨le_rfl, by omega⟩
          rw [if_pos hdo, keepLeft, if_pos hfit, setLeft_leftdatalen, List.take_length]
          exact congrArg some (if_pos hdo).symm
        · rw [if_neg hdo, ih ((h.recvByte b).setLeft buf.length) rfl (by omega) hn]
          exact congrArg some (if_neg hdo).symm
      obtain ⟨n, rfl⟩ : ∃ n, turns = n + 2 := ⟨turns - 2, by omega⟩
      obtain ⟨r, hr, hdone⟩ := h.revTurn (by omega) b
      rw [revLoop, hr, Option.bind_some]
      cases hback : r.2 with
      | false =>
          rw [hdone.read hback, hkept]
          exact hrest (n + 1) (by omega)
      | true =>
          -- the byte is pushed back, and the next turn reads it
          obtain ⟨hdo, hstate, hsame⟩ := hdone.back hback
          have hagain : r.1.uartleftdatalen = p.uartleftdatalen := by
            rw [hdone.left, hback]
            rfl
          simp only [hdo, Bool.false_eq_true, if_false, if_true]
          rw [revLoop, hdone.catches.revTurn_idle hstate (by omega) b, Option.bind_some, hagain,
            hkept, hsame buf.length]
          exact hrest n (by omega)

/-- What was left of an earlier input makes no difference. -/
theorem uartRevDataProcess_setLeft (buf : List UInt8) (p : UartBuf) (n : ℕ) :
    uartRevDataProcess buf (p.setLeft n) = uartRevDataProcess buf p := by
  cases buf with
  | nil => rfl
  | cons b buf =>
      rw [uartRevDataProcess, uartRevDataProcess, recvByte_setLeft]
      rfl

/-- A byte is read, and the rest kept or read. -/
theorem uartRevDataProcess_cons (b : UInt8) (buf : List UInt8) (p : UartBuf) :
    uartRevDataProcess (b :: buf) p =
      if (recvByte b p).uartdo then
        { (recvByte b p).setLeft buf.length with
          uartbuff := buf ++ (recvByte b p).uartbuff.drop buf.length }
      else uartRevDataProcess buf (recvByte b p) := by
  rw [uartRevDataProcess, ← uartRevDataProcess_setLeft buf (recvByte b p) buf.length]
  rfl

/-- Input in two parts, the first of which ends no frame, is read as one. -/
theorem uartRevDataProcess_append {a : List UInt8} (b : List UInt8)
    (hdo : (uartRevDataProcess a p).uartdo = false) :
    uartRevDataProcess (a ++ b) p = uartRevDataProcess b (uartRevDataProcess a p) := by
  induction a generalizing p with
  | nil => exact (uartRevDataProcess_setLeft b p 0).symm
  | cons c a ih =>
      rw [uartRevDataProcess_cons] at hdo
      rw [List.cons_append, uartRevDataProcess_cons, uartRevDataProcess_cons]
      split_ifs at hdo ⊢ with hframe
      · exact absurd hframe (by simpa [UartBuf.setLeft] using hdo)
      · exact ih hdo

theorem uartRevDataProcess_uartbuff (buf : List UInt8) (hbuff : buf.length ≤ p.uartbuff.length) :
    (uartRevDataProcess buf p).uartbuff.length = p.uartbuff.length := by
  induction buf generalizing p with
  | nil => rfl
  | cons b buf ih =>
      rw [List.length_cons] at hbuff
      have hbyte := congrArg List.length (recvByte_uartbuff b p)
      rw [uartRevDataProcess_cons]
      split_ifs
      · rw [List.length_append, List.length_drop, hbyte]
        omega
      · rw [ih (by omega), hbyte]

/-- A call on a buffer that was reached ends, whatever it is called with. -/
theorem Catches.revData_eq {buf : List UInt8} (h : Catches p)
    (hbuff : buf.length ≤ p.uartbuff.length) {turns : ℕ} (hturns : 2 * buf.length < turns) :
    revData turns buf p = some (uartRevDataProcess buf p) := by
  rw [revData, (h.setLeft buf.length).revLoop_eq rfl hbuff hturns, uartRevDataProcess_setLeft]

theorem Catches.of_revData {buf : List UInt8} (h : Catches p)
    (hbuff : buf.length ≤ p.uartbuff.length) {turns : ℕ} {p' : UartBuf}
    (hdata : revData turns buf p = some p') : p' = uartRevDataProcess buf p := by
  have hmore := revLoop_le hdata (Nat.le_add_right turns (2 * buf.length + 1))
  have heq := h.revData_eq hbuff (show 2 * buf.length < turns + (2 * buf.length + 1) by omega)
  exact Option.some.inj (hmore.symm.trans heq)

theorem Catches.reset (h : Catches p) : Catches p.reset where
  size := h.size
  curuartptr := rfl
  room := Nat.zero_le _
  uartdo := by simp [UartBuf.reset]
  shape := List.take_zero

theorem Reached.catches (h : Reached p) : Catches p ∧ p.uartbuff.length = maxBuffSize := by
  induction h with
  | start => exact ⟨catches_uartInitInfo, List.length_replicate⟩
  | @process turns buf p p' _ hlen hdata ih =>
      obtain ⟨hcatches, hsize⟩ := ih
      rw [hcatches.of_revData (hsize.symm ▸ hlen) hdata]
      have hkept := uartRevDataProcess_uartbuff buf (hsize.symm ▸ hlen)
      exact ⟨hcatches.process buf, hkept.trans hsize⟩
  | unpacked _ ih => exact ⟨ih.1.reset, ih.2⟩

/-- In the loop, the counters say what they are to say. -/
theorem Catches.inLoop {buf : List UInt8} (h : Catches p) {q : UartBuf}
    (hloop : InLoop buf p rest q) : Catches q ∧ q.uartleftdatalen = rest.length := by
  induction hloop with
  | enter => exact ⟨h.setLeft buf.length, rfl⟩
  | @turn b rest q r _ _ hturn ih =>
      obtain ⟨hcatches, hleft⟩ := ih
      rw [List.length_cons] at hleft
      obtain ⟨r', hr', hdone⟩ := hcatches.revTurn (by omega) b
      obtain rfl := Option.some.inj (hturn.symm.trans hr')
      refine ⟨hdone.catches, ?_⟩
      rw [hdone.left]
      cases r.2 with
      | false => exact Nat.sub_eq_of_eq_add hleft
      | true => exact hleft

/-- From every state that is reached, `uartRevDataProcess` ends, with a turn for every byte that
is read and one for every byte that is pushed back. In every turn, `curuartptr` is as far in
`uartcatch` as `uartrecvcnt` says, and `uartleftdatalen` is the number of bytes that are not read.
Input in two parts, the first of which ends no frame, leaves what it leaves in one. -/
theorem revData_resumable (h : Reached p) {a b : List UInt8}
    (hlen : (a ++ b).length ≤ maxBuffSize) :
    (∃ p', ∀ turns, 2 * (a ++ b).length < turns → revData turns (a ++ b) p = some p') ∧
      (∀ rest q, InLoop (a ++ b) p rest q → q.curuartptr = q.uartrecvcnt ∧
        q.uartrecvcnt ≤ uartBufSize ∧ q.uartleftdatalen = rest.length) ∧
      ∀ n₁ p₁, revData n₁ a p = some p₁ → p₁.uartdo = false →
        ∃ p₂, (∀ turns, 2 * (a ++ b).length < turns → revData turns (a ++ b) p = some p₂) ∧
          ∀ turns, 2 * b.length < turns → revData turns b p₁ = some p₂ := by
  obtain ⟨hcatches, hsize⟩ := h.catches
  have hwhole : (a ++ b).length ≤ p.uartbuff.length := hsize.symm ▸ hlen
  rw [List.length_append] at hlen
  refine ⟨⟨_, fun turns hturns => hcatches.revData_eq hwhole hturns⟩, ?_, ?_⟩
  · intro rest q hloop
    obtain ⟨hq, hleft⟩ := hcatches.inLoop hloop
    exact ⟨hq.curuartptr, hq.room, hleft⟩
  · intro n₁ p₁ hdata hdo
    have hfirst : a.length ≤ p.uartbuff.length := by omega
    obtain rfl := hcatches.of_revData hfirst hdata
    have hsecond : b.length ≤ (uartRevDataProcess a p).uartbuff.length := by
      rw [uartRevDataProcess_uartbuff a hfirst]
      omega
    refine ⟨uartRevDataProcess (a ++ b) p, ?_, ?_⟩
    · intro turns hturns
      exact hcatches.revData_eq hwhole hturns
    · intro turns hturns
      rw [(hcatches.process a).revData_eq hsecond hturns, uartRevDataProcess_append b hdo]

theorem revData_resumable_start :
    (∃ p', ∀ turns, 2 * 3 < turns → revData turns [0x55, 0x55, 0xAA] uartInitInfo = some p') := by
  have hlen : ([0x55] ++ [0x55, 0xAA] : List UInt8).length ≤ maxBuffSize := by decide
  exact (revData_resumable .start hlen).1

end PanelTester.Uart
