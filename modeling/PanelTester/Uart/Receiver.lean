import PanelTester.Uart.Frame

/-!
The receiver of `comUart.c`. It takes bytes into `uartcatch` until they are a frame, and
keeps in `uartbuff` what came behind the frame in one read; `uartReadData` takes these
bytes up again before it reads, and unpacks the frame, if there is one. `Holds` says what
the receiver is in after the first bytes of a frame, and `uartReadData_spec` what a call
does that finds no whole frame among the bytes kept, or reads nothing.
-/

namespace PanelTester.Uart

open Library

/-- `EUART_STATA` -/
inductive UartState
  | idle
  | recvBegin
  | recvLength
  | recvHead
  | recvData
  | recvEnd
  | recvBusy
  deriving DecidableEq, Repr

/-- `UART_BUF_SIZE` -/
def uartBufSize : ℕ := 1100

/-- `MAX_BUFF_SIZE` -/
def maxBuffSize : ℕ := 2048

/-- `T_UART_BUF`; `curuartptr` is an index of `uartcatch`. -/
structure UartBuf where
  uartrecvcnt : ℕ
  uartleftdatalen : ℕ
  uartcatch : List UInt8
  uartbuff : List UInt8
  curuartptr : ℕ
  uartstate : UartState
  uartdo : Bool
  uartbytecnt : ℕ

/-- The buffers as `uartInitInfo` finds and leaves them. -/
def uartInitInfo : UartBuf where
  uartrecvcnt := 0
  uartleftdatalen := 0
  uartcatch := List.replicate uartBufSize 0
  uartbuff := List.replicate maxBuffSize 0
  curuartptr := 0
  uartstate := .idle
  uartdo := false
  uartbytecnt := 0

namespace UartBuf

/-- A byte is taken into `uartcatch`. -/
def store (p : UartBuf) (b : UInt8) : UartBuf :=
  { p with
    uartcatch := p.uartcatch.set p.curuartptr b
    curuartptr := p.curuartptr + 1
    uartrecvcnt := p.uartrecvcnt + 1 }

/-- What is in `uartcatch` is given up. -/
def clear (p : UartBuf) : UartBuf := { p with uartrecvcnt := 0, curuartptr := 0 }

/-- The case `UART_IDLE`. -/
def recvIdle (b : UInt8) (p : UartBuf) : UartBuf :=
  if b = 0x55 then { p with uartstate := .recvBegin } else p.clear

/-- The byte cannot stand here. It is received once more (`i--`), as the first of a frame;
only a whole frame sets `uartdo`, so that the loop goes on in between. -/
def reject (b : UInt8) (p : UartBuf) : UartBuf :=
  recvIdle b ({ p.clear with uartstate := .idle }.store b)

/-- The switch of `uartRevDataProcess`, once the byte is in `uartcatch`. -/
def recvCase (b : UInt8) (p : UartBuf) : UartBuf :=
  match p.uartstate with
  | .idle => recvIdle b p
  | .recvBegin =>
      if b = 0xAA then { p with uartstate := .recvLength, uartbytecnt := 0 } else reject b p
  | .recvLength =>
      if p.uartbytecnt + 1 = 2 then { p with uartstate := .recvHead, uartbytecnt := 0 }
      else { p with uartbytecnt := p.uartbytecnt + 1 }
  | .recvHead =>
      if b = 0x7e then
        if p.uartbytecnt + 1 = 2 then { p with uartstate := .recvData, uartbytecnt := 0 }
        else { p with uartbytecnt := p.uartbytecnt + 1 }
      else reject b p
  | .recvData => if b = 0x7e then { p with uartstate := .recvEnd } else p
  | .recvEnd => if b = 0x7e then { p with uartstate := .recvBusy, uartdo := true } else reject b p
  | .recvBusy => { p with curuartptr := p.curuartptr - 1, uartrecvcnt := p.uartrecvcnt - 1 }

/-- `uartcatch` is full. -/
def overflow (p : UartBuf) : UartBuf := { p.clear with uartdo := false, uartstate := .idle }

/-- One byte of the loop of `uartRevDataProcess`. -/
def recvByte (b : UInt8) (p : UartBuf) : UartBuf :=
  if p.uartrecvcnt ≥ uartBufSize then recvCase b (p.overflow.store b) else recvCase b (p.store b)

/-- What was kept of an earlier read. -/
def left (p : UartBuf) : List UInt8 := p.uartbuff.take p.uartleftdatalen

/-- The state after a frame was unpacked. -/
def reset (p : UartBuf) : UartBuf :=
  { p.clear with uartdo := false, uartbytecnt := 0, uartstate := .idle }

end UartBuf

open UartBuf

/-- `uartRevDataProcess`. The copy into `uartbuff` is one that may overlap. -/
def uartRevDataProcess : List UInt8 → UartBuf → UartBuf
  | [], p => { p with uartleftdatalen := 0 }
  | b :: buf, p =>
      let p := { recvByte b p with uartleftdatalen := buf.length }
      if p.uartdo then { p with uartbuff := buf ++ p.uartbuff.drop buf.length }
      else uartRevDataProcess buf p

/-- The first part of `uartReadData`: the bytes kept of an earlier read. -/
def takeUp (p : UartBuf) : UartBuf :=
  if p.uartleftdatalen > 0 then uartRevDataProcess p.left p else p

/-- The bytes that `read` brought; none after a timeout. -/
def takeIn (recv : Option (List UInt8)) (p : UartBuf) : UartBuf :=
  recv.elim p fun buf => uartRevDataProcess buf p

/-- The last part of `uartReadData`: what is returned, and what is in `pOutBuf`. -/
def deliver (p : UartBuf) : Option (ℤ × List UInt8 × UartBuf) :=
  if p.uartdo then do
    let (ret, out) ← dataunpack p.uartcatch
    some (ret, out, p.reset)
  else some (-1, [], p)

/-- `uartReadData` of an open port. -/
def uartReadData (recv : Option (List UInt8)) (p : UartBuf) : Option (ℤ × List UInt8 × UartBuf) :=
  deliver (takeIn recv (takeUp p))

/-! ### Within a frame -/

/-- The state and `uartbytecnt` after `n` bytes of a frame of `len` bytes. -/
def phaseAt (len n : ℕ) : UartState × ℕ :=
  match n with
  | 0 => (.idle, 0)
  | 1 => (.recvBegin, 0)
  | 2 => (.recvLength, 0)
  | 3 => (.recvLength, 1)
  | 4 => (.recvHead, 0)
  | 5 => (.recvHead, 1)
  | n => if n + 1 < len then (.recvData, 0) else if n < len then (.recvEnd, 0) else (.recvBusy, 0)

/-- The phase behind the head of a frame. -/
theorem phaseAt_behind (len k : ℕ) : phaseAt len (k + 6) =
    if k + 6 + 1 < len then (.recvData, 0) else if k + 6 < len then (.recvEnd, 0)
    else (.recvBusy, 0) := rfl

/-- The first `n` bytes of `f` are in `uartcatch`. -/
structure Caught (f : List UInt8) (n : ℕ) (p : UartBuf) : Prop where
  size : p.uartcatch.length = uartBufSize
  uartrecvcnt : p.uartrecvcnt = n
  curuartptr : p.curuartptr = n
  caught : p.uartcatch.take n = f.take n

/-- The receiver after the first `n` bytes of the frame `f`. -/
structure Holds (f : List UInt8) (n : ℕ) (p : UartBuf) : Prop extends Caught f n p where
  phase : (p.uartstate, p.uartbytecnt) = phaseAt f.length n
  uartdo : p.uartdo = decide (n = f.length)

variable {f x : List UInt8} {n : ℕ} {p : UartBuf} {b : UInt8}

theorem Caught.store (h : Caught f n p) (hn : n < uartBufSize) (hb : f[n]? = some b) :
    Caught f (n + 1) (p.store b) where
  size := by simp [UartBuf.store, h.size]
  uartrecvcnt := by simp [UartBuf.store, h.uartrecvcnt]
  curuartptr := by simp [UartBuf.store, h.curuartptr]
  caught := by
    have hlen : n < p.uartcatch.length := h.size.symm ▸ hn
    simp only [UartBuf.store, h.curuartptr]
    rw [List.take_add_one, List.take_add_one, hb, List.getElem?_set_self hlen,
      List.take_set_of_le le_rfl, h.caught]

/-- The byte of a frame behind its head. -/
theorem getElem?_frameOf {l₁ l₂ : UInt8} {d : List UInt8} (hd : (0x7e : UInt8) ∉ d) {k : ℕ}
    (hb : (frameOf l₁ l₂ d)[k + 6]? = some b) :
    (k < d.length ∧ b ≠ 0x7e) ∨ (d.length ≤ k ∧ b = 0x7e) := by
  have hb' : (d ++ [0x7e, 0x7e])[k]? = some b := hb
  by_cases hk : k < d.length
  · rw [List.getElem?_append_left hk] at hb'
    exact .inl ⟨hk, fun heq => hd (heq ▸ List.mem_of_getElem? hb')⟩
  · rw [List.getElem?_append_right (by omega)] at hb'
    have hmem := List.mem_of_getElem? hb'
    exact .inr ⟨by omega, by simpa using hmem⟩

/-- The switch goes from each phase of a frame to the next. -/
theorem recvCase_phaseAt {q : UartBuf} (hf : Framed f) (hb : f[n]? = some b)
    (hq : (q.uartstate, q.uartbytecnt) = phaseAt f.length n)
    (hdo : q.uartdo = false) :
    recvCase b q =
      { q with
        uartstate := (phaseAt f.length (n + 1)).1
        uartbytecnt := (phaseAt f.length (n + 1)).2
        uartdo := decide (n + 1 = f.length) } := by
  obtain ⟨l₁, l₂, d, hd, rfl⟩ := hf
  have hlen : (frameOf l₁ l₂ d).length = d.length + 8 := length_frameOf
  have hhead : ∀ k, k < 8 → decide (k = (frameOf l₁ l₂ d).length) = false :=
    fun k hk => decide_eq_false (by omega)
  obtain ⟨cnt, leftlen, bytes, buff, ptr, state, done, bytecnt⟩ := q
  obtain rfl : done = false := hdo
  rcases n with _ | _ | _ | _ | _ | _ | k
  · obtain ⟨rfl, rfl⟩ := Prod.mk.inj hq
    obtain rfl : b = 0x55 := by simpa [frameOf, eq_comm] using hb
    simp [recvCase, recvIdle, phaseAt, hhead]
  · obtain ⟨rfl, rfl⟩ := Prod.mk.inj hq
    obtain rfl : b = 0xAA := by simpa [frameOf, eq_comm] using hb
    simp [recvCase, phaseAt, hhead]
  · obtain ⟨rfl, rfl⟩ := Prod.mk.inj hq
    simp [recvCase, phaseAt, hhead]
  · obtain ⟨rfl, rfl⟩ := Prod.mk.inj hq
    simp [recvCase, phaseAt, hhead]
  · obtain ⟨rfl, rfl⟩ := Prod.mk.inj hq
    obtain rfl : b = 0x7e := by simpa [frameOf, eq_comm] using hb
    simp [recvCase, phaseAt, hhead]
  · obtain ⟨rfl, rfl⟩ := Prod.mk.inj hq
    obtain rfl : b = 0x7e := by simpa [frameOf, eq_comm] using hb
    simp [recvCase, phaseAt, hhead, show 6 + 1 < (frameOf l₁ l₂ d).length by omega]
  · have hn : k + 6 < (frameOf l₁ l₂ d).length := (List.getElem?_eq_some_iff.mp hb).1
    rw [phaseAt_behind] at hq ⊢
    rcases getElem?_frameOf hd hb with ⟨hk, hne⟩ | ⟨hk, rfl⟩
    · rw [if_pos (by omega)] at hq ⊢
      obtain ⟨rfl, rfl⟩ := Prod.mk.inj hq
      simp [recvCase, hne, show k + 6 + 1 ≠ (frameOf l₁ l₂ d).length by omega]
    · by_cases hlast : k = d.length
      · rw [if_pos (by omega)] at hq
        rw [if_neg (by omega), if_pos (by omega)]
        obtain ⟨rfl, rfl⟩ := Prod.mk.inj hq
        simp [recvCase, show k + 6 + 1 ≠ (frameOf l₁ l₂ d).length by omega]
      · rw [if_neg (by omega), if_pos hn] at hq
        rw [if_neg (by omega), if_neg (by omega)]
        obtain ⟨rfl, rfl⟩ := Prod.mk.inj hq
        simp [recvCase, show k + 6 + 1 = (frameOf l₁ l₂ d).length by omega]

/-- The next byte of a frame is received. -/
theorem Holds.recvByte (h : Holds f n p) (hf : Framed f) (hlen : f.length ≤ uartBufSize)
    (hb : f[n]? = some b) : Holds f (n + 1) (p.recvByte b) := by
  have hn : n < f.length := (List.getElem?_eq_some_iff.mp hb).1
  have hcaught := h.toCaught.store (by omega) hb
  have hdo : (p.store b).uartdo = false := h.uartdo.trans (decide_eq_false (by omega))
  rw [UartBuf.recvByte, h.uartrecvcnt, if_neg (by omega),
    recvCase_phaseAt (q := p.store b) hf hb h.phase hdo]
  exact { hcaught with phase := rfl, uartdo := rfl }

/-- A receiver with nothing of a frame. -/
def Fresh (p : UartBuf) : Prop :=
  p.uartcatch.length = uartBufSize ∧ p.uartrecvcnt = 0 ∧ p.curuartptr = 0 ∧
    p.uartstate = .idle ∧ p.uartbytecnt = 0 ∧ p.uartdo = false

theorem Fresh.holds (h : Fresh p) (hf : Framed f) : Holds f 0 p where
  size := h.1
  uartrecvcnt := h.2.1
  curuartptr := h.2.2.1
  caught := rfl
  phase := by rw [h.2.2.2.1, h.2.2.2.2.1]; rfl
  uartdo := by
    rw [h.2.2.2.2.2]
    exact (decide_eq_false (by have := hf.length_ge; omega)).symm

theorem fresh_uartInitInfo : Fresh uartInitInfo :=
  ⟨List.length_replicate, rfl, rfl, rfl, rfl, rfl⟩

theorem Holds.congr {p' : UartBuf} (h : Holds f n p) (hcatch : p'.uartcatch = p.uartcatch)
    (hcnt : p'.uartrecvcnt = p.uartrecvcnt) (hptr : p'.curuartptr = p.curuartptr)
    (hstate : p'.uartstate = p.uartstate) (hbytecnt : p'.uartbytecnt = p.uartbytecnt)
    (hdo : p'.uartdo = p.uartdo) : Holds f n p' where
  size := hcatch ▸ h.size
  uartrecvcnt := hcnt.trans h.uartrecvcnt
  curuartptr := hptr.trans h.curuartptr
  caught := hcatch ▸ h.caught
  phase := by rw [hstate, hbytecnt]; exact h.phase
  uartdo := hdo.trans h.uartdo

/-- Bytes that do not end the frame are all taken. -/
theorem Holds.process_part (hf : Framed f) (hx : f.length ≤ uartBufSize) (buf : List UInt8) :
    ∀ {n : ℕ} {p : UartBuf}, Holds f n p → buf <+: f.drop n →
      n + buf.length < f.length →
      Holds f (n + buf.length) (uartRevDataProcess buf p) ∧
        (uartRevDataProcess buf p).uartleftdatalen = 0 := by
  induction buf with
  | nil =>
      intro n p h _ _
      exact ⟨h.congr rfl rfl rfl rfl rfl rfl, rfl⟩
  | cons b buf ih =>
      intro n p h hbuf hlen
      rw [List.length_cons] at hlen
      obtain ⟨t, ht⟩ := hbuf
      have hb : f[n]? = some b := by
        rw [← List.head?_drop, ← ht]
        rfl
      have hrest : buf <+: f.drop (n + 1) := by
        rw [← List.drop_drop, ← ht]
        exact ⟨t, rfl⟩
      have hnext := h.recvByte hf hx hb
      have hdo : (p.recvByte b).uartdo = false :=
        hnext.uartdo.trans (decide_eq_false (by omega))
      have hholds : Holds f (n + 1)
          { p.recvByte b with uartleftdatalen := buf.length } :=
        hnext.congr rfl rfl rfl rfl rfl rfl
      have hmore := ih hholds hrest (by omega)
      rw [List.length_cons, show n + (buf.length + 1) = n + 1 + buf.length by omega]
      simpa only [uartRevDataProcess, hdo, Bool.false_eq_true, if_false] using hmore

/-- With the end of the frame, what comes behind it is kept. -/
theorem Holds.process_whole (hf : Framed f) (hx : f.length ≤ uartBufSize)
    (rest : List UInt8) :
    ∀ (buf : List UInt8) {n : ℕ} {p : UartBuf}, Holds f n p →
      buf = f.drop n → n < f.length →
      Holds f f.length (uartRevDataProcess (buf ++ rest) p) ∧
        (uartRevDataProcess (buf ++ rest) p).uartleftdatalen = rest.length ∧
        (uartRevDataProcess (buf ++ rest) p).left = rest := by
  intro buf
  induction buf with
  | nil =>
      intro n p _ hbuf hn
      exact absurd (List.drop_eq_nil_iff.mp hbuf.symm) (by omega)
  | cons b buf ih =>
      intro n p h hbuf hn
      have hb : f[n]? = some b := by
        rw [← List.head?_drop, ← hbuf]
        rfl
      have hrest : buf = f.drop (n + 1) := by
        rw [← List.drop_drop, ← hbuf]
        rfl
      have hnext := h.recvByte hf hx hb
      by_cases hlast : n + 1 = f.length
      · have hdo : (p.recvByte b).uartdo = true := hnext.uartdo.trans (decide_eq_true hlast)
        obtain rfl : buf = [] := by rw [hrest, hlast, List.drop_length]
        simp only [List.cons_append, List.nil_append, uartRevDataProcess, hdo, if_true]
        refine ⟨?_, trivial, ?_⟩
        · rw [hlast] at hnext
          exact hnext.congr rfl rfl rfl rfl rfl hdo.symm
        · simp [UartBuf.left]
      · have hdo : (p.recvByte b).uartdo = false := hnext.uartdo.trans (decide_eq_false hlast)
        have hholds : Holds f (n + 1)
            { p.recvByte b with uartleftdatalen := (buf ++ rest).length } :=
          hnext.congr rfl rfl rfl rfl rfl rfl
        have hmore := ih hholds hrest (by omega)
        simpa only [List.cons_append, uartRevDataProcess, hdo, Bool.false_eq_true, if_false]
          using hmore

/-! ### A call -/

/-- A call that finds no whole frame returns -1. -/
theorem Holds.deliver_part (h : Holds f n p) (hn : n ≠ f.length) :
    deliver p = some (-1, [], p) := by
  have hdo : p.uartdo = false := h.uartdo.trans (decide_eq_false hn)
  rw [deliver, hdo]
  rfl

/-- A whole frame is unpacked. -/
theorem Holds.deliver_whole (h : Holds (datapack x) (datapack x).length p)
    (hx : (datapack x).length ≤ uartBufSize) :
    deliver p = some ((x.length : ℤ), x ++ bytesLE32 (fcs x), p.reset) := by
  have hdo : p.uartdo = true := h.uartdo.trans (decide_eq_true rfl)
  have hcatch : p.uartcatch = datapack x ++ p.uartcatch.drop (datapack x).length := by
    conv_lhs => rw [← List.take_append_drop (datapack x).length p.uartcatch, h.caught,
      List.take_length]
  have hfield : (datapack x).length - 4 < 2 ^ 16 :=
    (Nat.sub_le _ _).trans_lt (hx.trans_lt (by decide))
  rw [deliver, hdo, if_pos rfl, hcatch, dataunpack_datapack hfield]
  rfl

theorem Holds.fresh_reset (h : Holds f n p) : Fresh p.reset := ⟨h.size, rfl, rfl, rfl, rfl, rfl⟩

/-- What a call finds of the frames of `ps`: the bytes `a`, either in `uartcatch` as part of
a frame, or kept of an earlier read. -/
inductive Waits : List (List UInt8) → List UInt8 → UartBuf → Prop
  | part {x : List UInt8} {ps : List (List UInt8)} {a : List UInt8} {p : UartBuf}
      (h : Holds (datapack x) a.length p) (ha : a.length < (datapack x).length)
      (hleft : p.uartleftdatalen = 0) : Waits (x :: ps) a p
  | kept {ps : List (List UInt8)} {a : List UInt8} {p : UartBuf} (h : Fresh p)
      (hlen : p.uartleftdatalen = a.length) (hleft : p.left = a) : Waits ps a p

variable {ps : List (List UInt8)} {a rest : List UInt8}

/-- Part of a frame was kept. -/
theorem Waits.takeUp_part (h : Waits (x :: ps) a p) (hx : (datapack x).length ≤ uartBufSize)
    (ha : a <+: datapack x) (hlen : a.length < (datapack x).length) :
    Holds (datapack x) a.length (takeUp p) ∧ (takeUp p).uartleftdatalen = 0 := by
  cases h with
  | part h _ hleft =>
      rw [takeUp, if_neg (by omega)]
      exact ⟨h, hleft⟩
  | kept h hkept hleft =>
      cases a with
      | nil =>
          rw [takeUp, if_neg (by simp [hkept])]
          exact ⟨h.holds (framed_datapack x), hkept⟩
      | cons b a =>
          rw [takeUp, if_pos (by simp [hkept]), hleft]
          have hprocess := (h.holds (framed_datapack x)).process_part (framed_datapack x) hx
            (b :: a) ha (by omega)
          rwa [Nat.zero_add] at hprocess

/-- A whole frame was kept. -/
theorem Waits.takeUp_whole (h : Waits (x :: ps) (datapack x ++ rest) p)
    (hx : (datapack x).length ≤ uartBufSize) :
    Holds (datapack x) (datapack x).length (takeUp p) ∧
      (takeUp p).uartleftdatalen = rest.length ∧ (takeUp p).left = rest := by
  have hpos : 0 < (datapack x).length := by rw [length_datapack]; omega
  cases h with
  | part _ ha _ =>
      rw [List.length_append] at ha
      omega
  | kept h hkept hleft =>
      rw [takeUp, if_pos (by rw [hkept, List.length_append]; omega), hleft]
      exact (h.holds (framed_datapack x)).process_whole (framed_datapack x) hx rest (datapack x)
        rfl hpos

/-- A call on part of a frame, with what it reads, if the frame is then still not whole. -/
theorem Waits.read_part {recv : Option (List UInt8)} (h : Waits (x :: ps) a p)
    (hx : (datapack x).length ≤ uartBufSize) (ha : a ++ recv.getD [] <+: datapack x)
    (hlen : (a ++ recv.getD []).length < (datapack x).length) :
    ∃ p', uartReadData recv p = some (-1, [], p') ∧ Waits (x :: ps) (a ++ recv.getD []) p' := by
  obtain ⟨hholds, hleft⟩ := h.takeUp_part hx ((List.prefix_append a _).trans ha)
    (by rw [List.length_append] at hlen; omega)
  rw [uartReadData]
  cases recv with
  | none =>
      refine ⟨takeUp p, hholds.deliver_part (by simp at hlen; omega), ?_⟩
      rw [Option.getD_none, List.append_nil] at hlen ⊢
      exact .part hholds hlen hleft
  | some buf =>
      rw [Option.getD_some] at ha hlen ⊢
      rw [List.length_append] at hlen
      have hbuf : buf <+: (datapack x).drop a.length := by
        obtain ⟨t, ht⟩ := ha
        rw [← ht, List.append_assoc, List.drop_left]
        exact List.prefix_append buf t
      obtain ⟨hpart, hzero⟩ := hholds.process_part (framed_datapack x) hx buf hbuf hlen
      refine ⟨uartRevDataProcess buf (takeUp p), hpart.deliver_part (by omega), ?_⟩
      rw [← List.length_append] at hpart hlen
      exact .part hpart hlen hzero

/-- A call that completes a frame with what it reads, or that finds it and reads nothing. -/
theorem Waits.read_whole {recv : Option (List UInt8)} (h : Waits (x :: ps) a p)
    (hx : (datapack x).length ≤ uartBufSize) (ha : a ++ recv.getD [] = datapack x ++ rest)
    (hrecv : recv ≠ none → a.length < (datapack x).length) :
    ∃ p', uartReadData recv p = some ((x.length : ℤ), x ++ bytesLE32 (fcs x), p') ∧
      Waits ps rest p' := by
  rw [uartReadData]
  cases recv with
  | none =>
      rw [Option.getD_none, List.append_nil] at ha
      subst ha
      obtain ⟨hholds, hlen, hleft⟩ := h.takeUp_whole hx
      exact ⟨_, hholds.deliver_whole hx, .kept hholds.fresh_reset hlen hleft⟩
  | some buf =>
      have hlt := hrecv (by simp)
      rw [Option.getD_some] at ha
      obtain ⟨t, ht⟩ : a <+: datapack x :=
        List.prefix_of_prefix_length_le ⟨buf, ha⟩ (List.prefix_append _ _) hlt.le
      have hbuf : buf = (datapack x).drop a.length ++ rest := by
        rw [← ht, List.append_assoc] at ha
        rw [← ht, List.drop_left]
        exact List.append_cancel_left ha
      obtain ⟨hpart, -⟩ := h.takeUp_part hx ⟨t, ht⟩ hlt
      obtain ⟨hholds, hlen, hleft⟩ := hpart.process_whole (framed_datapack x) hx rest _ rfl hlt
      rw [← hbuf] at hholds hlen hleft
      exact ⟨_, hholds.deliver_whole hx, .kept hholds.fresh_reset hlen hleft⟩

/-- A call with nothing kept and nothing to read. -/
theorem Waits.read_nothing (h : Waits [] [] p) :
    uartReadData none p = some (-1, [], p) := by
  cases h with
  | kept h hlen _ =>
      rw [uartReadData, takeUp, if_neg (by simp [hlen])]
      exact (h.holds (framed_datapack [])).deliver_part (by rw [length_datapack]; omega)

end PanelTester.Uart
