import PanelTester.Uart.Receiver

/-!
The frames that the receiver hands over. Whatever it reads, the bytes in `uartcatch` are those
that its state says, `Catches`: the beginning of a frame, whose length field may be anything. So
a frame that is handed over has its flags in the right places, and no others.
-/

namespace PanelTester.Uart

open Library UartBuf

/-- The bytes that are in `uartcatch`. -/
def UartBuf.taken (p : UartBuf) : List UInt8 := p.uartcatch.take p.uartrecvcnt

/-- The state of the receiver after a call of `uartReadData`, where a whole frame was handed to
`dataunpack`. -/
def afterRead (p : UartBuf) (recv : Option (List UInt8)) : UartBuf :=
  if (takeIn recv (takeUp p)).uartdo then (takeIn recv (takeUp p)).reset
  else takeIn recv (takeUp p)

theorem uartReadData_afterRead {recv : Option (List UInt8)} {p p' : UartBuf} {ret : ℤ}
    {out : List UInt8} (h : uartReadData recv p = some (ret, out, p')) : p' = afterRead p recv := by
  rw [uartReadData, deliver] at h
  rw [afterRead]
  split_ifs at h ⊢ with hdo
  · cases hunpack : dataunpack (takeIn recv (takeUp p)).uartcatch with
    | none =>
      rw [hunpack] at h
      cases h
    | some r =>
      rw [hunpack] at h
      exact (congrArg (fun r => r.2.2) (Option.some.inj h)).symm
  · exact (congrArg (fun r => r.2.2) (Option.some.inj h)).symm

/-- A byte string that some calls of `uartReadData` hand to `dataunpack` as a frame. -/
def HandedOver (w : List UInt8) : Prop :=
  ∃ (calls : List (Option (List UInt8))) (recv : Option (List UInt8)), ∃ p, p =
    takeIn recv (takeUp (calls.foldl afterRead uartInitInfo)) ∧ p.uartdo = true ∧ w = p.taken

/-- The frames that calls of `uartReadData` hand to `dataunpack` are such byte strings. -/
theorem handedOver_of_uartReadData {calls : List (Option (List UInt8))}
    {recv : Option (List UInt8)} {p : UartBuf}
    (hcalls : calls.foldlM (fun p recv => (uartReadData recv p).map fun r => r.2.2)
      uartInitInfo = some p) (hdo : (takeIn recv (takeUp p)).uartdo = true) :
    HandedOver (takeIn recv (takeUp p)).taken := by
  have hrun : ∀ (calls : List (Option (List UInt8))) (q : UartBuf),
      calls.foldlM (fun p recv => (uartReadData recv p).map fun r => r.2.2) q = some p →
        calls.foldl afterRead q = p := by
    intro calls
    induction calls with
    | nil =>
      intro q hq
      exact Option.some.inj hq
    | cons recv calls ih =>
      intro q hq
      obtain ⟨q', hmap, hq⟩ := Option.bind_eq_some_iff.mp hq
      obtain ⟨r, hread, rfl⟩ := Option.map_eq_some_iff.mp hmap
      rw [List.foldl_cons, ← uartReadData_afterRead hread]
      exact ih _ hq
  exact ⟨calls, recv, _, by rw [hrun calls _ hcalls], hdo, rfl⟩

/-- What the state says of the bytes in `uartcatch`. -/
def Shape : UartState → ℕ → List UInt8 → Prop
  | .idle, _, c => c = []
  | .recvBegin, _, c => c = [0x55]
  | .recvLength, n, c => n < 2 ∧ ∃ l : List UInt8, l.length = n ∧ c = 0x55 :: 0xAA :: l
  | .recvHead, n, c => n < 2 ∧ ∃ l₁ l₂, c = 0x55 :: 0xAA :: l₁ :: l₂ :: List.replicate n 0x7e
  | .recvData, _, c => ∃ l₁ l₂ d, 0x7e ∉ d ∧ c = 0x55 :: 0xAA :: l₁ :: l₂ :: 0x7e :: 0x7e :: d
  | .recvEnd, _, c =>
      ∃ l₁ l₂ d, 0x7e ∉ d ∧ c = 0x55 :: 0xAA :: l₁ :: l₂ :: 0x7e :: 0x7e :: (d ++ [0x7e])
  | .recvBusy, _, c => Framed c

/-- `uartcatch` with its index and its counter. -/
structure Filled (p : UartBuf) : Prop where
  size : p.uartcatch.length = uartBufSize
  curuartptr : p.curuartptr = p.uartrecvcnt
  room : p.uartrecvcnt ≤ uartBufSize
  uartdo : p.uartdo = true ↔ p.uartstate = .recvBusy

/-- The receiver between two bytes. -/
structure Catches (p : UartBuf) : Prop extends Filled p where
  shape : Shape p.uartstate p.uartbytecnt p.taken

variable {p q : UartBuf} {b : UInt8} {c : List UInt8}

theorem Filled.length_taken (h : Filled p) : p.taken.length = p.uartrecvcnt := by
  rw [taken, List.length_take, h.size, Nat.min_eq_left h.room]

theorem Filled.store (h : Filled p) (hroom : p.uartrecvcnt < uartBufSize) (b : UInt8) :
    Filled (p.store b) where
  size := by simp [UartBuf.store, h.size]
  curuartptr := by simp [UartBuf.store, h.curuartptr]
  room := hroom
  uartdo := h.uartdo

theorem Filled.taken_store (h : Filled p) (hroom : p.uartrecvcnt < uartBufSize) (b : UInt8) :
    (p.store b).taken = p.taken ++ [b] := by
  have hlen : p.uartrecvcnt < p.uartcatch.length := h.size.symm ▸ hroom
  simp only [taken, UartBuf.store, h.curuartptr]
  rw [List.take_add_one, List.getElem?_set_self hlen, List.take_set_of_le le_rfl]
  rfl

/-- A receiver with nothing in `uartcatch`. -/
theorem Filled.catches_clear (h : Filled p) (hdo : p.uartdo = false) :
    Catches { p.clear with uartstate := .idle } where
  size := h.size
  curuartptr := rfl
  room := Nat.zero_le _
  uartdo := iff_of_false (by simp [clear, hdo]) (by simp)
  shape := List.take_zero

theorem Filled.uartdo_false (h : Filled p) (hstate : p.uartstate ≠ .recvBusy) :
    p.uartdo = false := by
  rw [← Bool.not_eq_true]
  exact fun hdo => hstate (h.uartdo.1 hdo)

/-- A byte that comes first. -/
theorem Filled.recvIdle_catches (h : Filled q) (hstate : q.uartstate = .idle)
    (htaken : q.taken = [b]) : Catches (recvIdle b q) := by
  have hdo := h.uartdo_false (by rw [hstate]; decide)
  rw [recvIdle]
  split_ifs with hb
  · subst hb
    exact
      { h with
        uartdo := iff_of_false (by simp [hdo]) (by simp)
        shape := htaken }
  · have hclear := h.catches_clear hdo
    rwa [show ({ q.clear with uartstate := .idle } : UartBuf) = q.clear by
      simp [clear, ← hstate]] at hclear

theorem Filled.reject_catches (h : Filled q) (hstate : q.uartstate ≠ .recvBusy) :
    Catches (reject b q) := by
  have hclear := h.catches_clear (h.uartdo_false hstate)
  have hroom : ({ q.clear with uartstate := .idle } : UartBuf).uartrecvcnt < uartBufSize := by
    simp [clear, uartBufSize]
  apply (hclear.toFilled.store hroom b).recvIdle_catches rfl
  rw [hclear.toFilled.taken_store hroom b]
  rfl

/-- A byte is taken that leads on to another state within a frame. -/
theorem Filled.catches_of_shape (h : Filled q) (hstate : q.uartstate ≠ .recvBusy)
    {state : UartState} {n : ℕ} (hnext : state ≠ .recvBusy) (hshape : Shape state n q.taken) :
    Catches { q with uartstate := state, uartbytecnt := n } where
  size := h.size
  curuartptr := h.curuartptr
  room := h.room
  uartdo := iff_of_false (by simp [h.uartdo_false hstate]) hnext
  shape := hshape

/-- The switch keeps the bytes in `uartcatch` those of its state. -/
theorem Filled.recvCase_catches (h : Filled q) (htaken : q.taken = c ++ [b])
    (hshape : Shape q.uartstate q.uartbytecnt c) : Catches (recvCase b q) := by
  obtain ⟨cnt, leftlen, bytes, buff, ptr, state, done, bytecnt⟩ := q
  cases state with
  | idle =>
    obtain rfl : c = [] := hshape
    exact h.recvIdle_catches rfl htaken
  | recvBegin =>
    obtain rfl : c = [0x55] := hshape
    rw [recvCase]
    dsimp only
    split_ifs with hb
    · subst hb
      refine h.catches_of_shape (by simp) (by simp) ⟨by decide, [], rfl, htaken⟩
    · exact h.reject_catches (by simp)
  | recvLength =>
    obtain ⟨hlt, l, hl, rfl⟩ := hshape
    rw [recvCase]
    dsimp only at hlt hl ⊢
    split_ifs with hcnt
    · -- the second byte of the length field
      obtain rfl : bytecnt = 1 := by omega
      obtain ⟨l₁, rfl⟩ := List.length_eq_one_iff.1 hl
      exact h.catches_of_shape (by simp) (by simp) ⟨by decide, l₁, b, htaken⟩
    · exact h.catches_of_shape (by simp) (by simp)
        ⟨by omega, l ++ [b], by simp [hl], by simpa using htaken⟩
  | recvHead =>
    obtain ⟨hlt, l₁, l₂, rfl⟩ := hshape
    rw [recvCase]
    dsimp only at hlt ⊢
    split_ifs with hb hcnt
    · -- the second flag, behind which the body begins
      obtain rfl : bytecnt = 1 := by omega
      subst hb
      exact h.catches_of_shape (by simp) (by simp) ⟨l₁, l₂, [], by simp, htaken⟩
    · obtain rfl : bytecnt = 0 := by omega
      subst hb
      exact h.catches_of_shape (by simp) (by simp) ⟨by decide, l₁, l₂, htaken⟩
    · exact h.reject_catches (by simp)
  | recvData =>
    obtain ⟨l₁, l₂, d, hd, rfl⟩ := hshape
    rw [recvCase]
    dsimp only
    split_ifs with hb
    · subst hb
      exact h.catches_of_shape (by simp) (by simp) ⟨l₁, l₂, d, hd, htaken⟩
    · exact h.catches_of_shape (by simp) (by simp)
        ⟨l₁, l₂, d ++ [b], by simpa [hd] using Ne.symm hb, htaken⟩
  | recvEnd =>
    obtain ⟨l₁, l₂, d, hd, rfl⟩ := hshape
    rw [recvCase]
    dsimp only
    split_ifs with hb
    · subst hb
      exact
        { size := h.size
          curuartptr := h.curuartptr
          room := h.room
          uartdo := iff_of_true rfl rfl
          shape := ⟨l₁, l₂, d, hd, htaken.trans (by simp [frameOf])⟩ }
    · exact h.reject_catches (by simp)
  | recvBusy =>
    -- the byte is given up
    have hlen := h.length_taken
    rw [htaken, List.length_append] at hlen
    have hkept : bytes.take (cnt - 1) = c := by
      have hprefix := congrArg (List.take c.length) htaken
      rw [List.take_left] at hprefix
      rw [← hprefix, taken, List.take_take]
      congr 1
      simp at hlen ⊢
      omega
    exact
      { size := h.size
        curuartptr := congrArg (· - 1) h.curuartptr
        room := (Nat.sub_le _ _).trans h.room
        uartdo := h.uartdo
        shape := by
          change Shape .recvBusy bytecnt (bytes.take (cnt - 1))
          rwa [hkept] }

/-- A full buffer is given up. -/
theorem Catches.overflow (h : Catches p) : Catches p.overflow where
  size := h.size
  curuartptr := rfl
  room := Nat.zero_le _
  uartdo := by simp [UartBuf.overflow]
  shape := List.take_zero

theorem Catches.recvByte (h : Catches p) (b : UInt8) : Catches (recvByte b p) := by
  rw [UartBuf.recvByte]
  split_ifs with hfull
  · have hoverflow := h.overflow
    have hroom : p.overflow.uartrecvcnt < uartBufSize := by
      simp [UartBuf.overflow, clear, uartBufSize]
    exact (hoverflow.toFilled.store hroom b).recvCase_catches
      (hoverflow.toFilled.taken_store hroom b) hoverflow.shape
  · have hroom : p.uartrecvcnt < uartBufSize := not_le.1 hfull
    exact (h.toFilled.store hroom b).recvCase_catches (h.toFilled.taken_store hroom b) h.shape

/-- The bytes that are kept for later are no part of it. -/
theorem Catches.congr (h : Catches p) (leftlen : ℕ) (buff : List UInt8) :
    Catches { p with uartleftdatalen := leftlen, uartbuff := buff } :=
  { h with }

theorem Catches.process (buf : List UInt8) :
    ∀ {p : UartBuf}, Catches p → Catches (uartRevDataProcess buf p) := by
  induction buf with
  | nil => exact fun h => h.congr 0 _
  | cons b buf ih =>
    intro p h
    have hbyte := h.recvByte b
    rw [uartRevDataProcess]
    dsimp only
    split_ifs
    · exact hbyte.congr _ _
    · exact ih (hbyte.congr buf.length _)

theorem Catches.takeUp (h : Catches p) : Catches (takeUp p) := by
  rw [Uart.takeUp]
  split_ifs
  · exact h.process _
  · exact h

theorem Catches.takeIn (h : Catches p) (recv : Option (List UInt8)) : Catches (takeIn recv p) := by
  cases recv with
  | none => exact h
  | some buf => exact h.process buf

theorem Catches.afterRead (h : Catches p) (recv : Option (List UInt8)) :
    Catches (afterRead p recv) := by
  have hread := h.takeUp.takeIn recv
  rw [Uart.afterRead]
  split_ifs
  · exact
      { size := hread.size
        curuartptr := rfl
        room := Nat.zero_le _
        uartdo := by simp [reset]
        shape := List.take_zero }
  · exact hread

theorem catches_uartInitInfo : Catches uartInitInfo where
  size := List.length_replicate
  curuartptr := rfl
  room := Nat.zero_le _
  uartdo := by simp [uartInitInfo]
  shape := List.take_zero

theorem catches_calls (calls : List (Option (List UInt8))) :
    ∀ {p : UartBuf}, Catches p → Catches (calls.foldl Uart.afterRead p) := by
  induction calls with
  | nil => exact fun h => h
  | cons recv calls ih => exact fun h => ih (h.afterRead recv)

/-- What is handed over is a frame but for its length field, and fits the buffer. -/
theorem HandedOver.framed {w : List UInt8} (h : HandedOver w) :
    Framed w ∧ w.length ≤ uartBufSize := by
  obtain ⟨calls, recv, p, hp, hdo, rfl⟩ := h
  have hcatches : Catches p := by
    rw [hp]
    exact (catches_calls calls catches_uartInitInfo).takeUp.takeIn recv
  have hshape := hcatches.shape
  rw [hcatches.uartdo.1 hdo] at hshape
  exact ⟨hshape, hcatches.toFilled.length_taken ▸ hcatches.room⟩

/-- Every such frame is handed over, when it is all that is read. -/
theorem Framed.handedOver {w : List UInt8} (hw : Framed w) (hlen : w.length ≤ uartBufSize) :
    HandedOver w := by
  have hpos : 0 < w.length := lt_of_lt_of_le (by decide) hw.length_ge
  obtain ⟨hholds, -, -⟩ := (fresh_uartInitInfo.holds hw).process_whole hw hlen [] w rfl hpos
  rw [List.append_nil] at hholds
  refine ⟨[], some w, uartRevDataProcess w uartInitInfo, rfl, ?_, ?_⟩
  · exact hholds.uartdo.trans (decide_eq_true rfl)
  · rw [taken, hholds.uartrecvcnt, hholds.caught, List.take_length]

theorem handedOver_iff {w : List UInt8} :
    HandedOver w ↔ Framed w ∧ w.length ≤ uartBufSize :=
  ⟨fun h => h.framed, fun h => h.1.handedOver h.2⟩

end PanelTester.Uart
