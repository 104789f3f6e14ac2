import PanelTester.Uart.Handover
import Mathlib.Data.List.Chain

/-!
What `dataunpack` does to memory with a frame it is handed. The receiver finds the end of a
frame by its flags, and `dataunpack` by the length field; it looks at neither the number of
bytes it was given nor at what is left for the check value.
-/

namespace PanelTester.Uart

open Library UartBuf

/-! ### The accesses of `dataunpack` -/

/-- How the loop of `dataunpack` ends: it is to read behind the frame, it finds an error, or it
has read as many bytes as the length field says. -/
inductive LoopEnd
  | behind
  | frameError
  | whole
  deriving DecidableEq

/-- The loop of `dataunpack`, with all that it has written to `outBuf` when it ends. -/
def unpackWalk : ℕ → LinkState → List UInt8 → List UInt8 → LoopEnd × List UInt8
  | 0, _, _, data => (.whole, data)
  | _ + 1, _, [], data => (.behind, data)
  | n + 1, state, byte :: inBuf, data =>
      match unpackByte (n = 1) state byte with
      | none => (.frameError, data)
      | some (state, out) => unpackWalk n state inBuf (data ++ out)

/-- `dataunpack` up to the check value. -/
def dataunpackWalk (inBuf : List UInt8) : LoopEnd × List UInt8 :=
  if byteAt inBuf 0 ≠ 0x55 ∧ byteAt inBuf 1 ≠ 0xAA then (.frameError, [])
  else
    let nlen := wordLE16 (byteAt inBuf 2) (byteAt inBuf 3)
    unpackWalk nlen.toNat .outsideFrame (inBuf.drop 4) []

/-- `dataunpack` reads nothing but the frame, computes no check value of less than nothing, and
writes no more bytes than the frame has. -/
structure UnpackSafe (inBuf : List UInt8) : Prop where
  header : 4 ≤ inBuf.length
  reads : (dataunpackWalk inBuf).1 ≠ .behind
  crc : (dataunpackWalk inBuf).1 = .whole → 0 ≤ ((dataunpackWalk inBuf).2.length : ℤ) - 4
  writes : (dataunpackWalk inBuf).2.length ≤ inBuf.length

/-- What the loop returns, of how it ends. -/
def LoopEnd.result (data : List UInt8) : LoopEnd → Option (Option (List UInt8))
  | .behind => none
  | .frameError => some none
  | .whole => some (some data)

theorem unpackLoop_eq_walk (n : ℕ) (state : LinkState) (inBuf data : List UInt8) :
    unpackLoop n state inBuf data =
      (unpackWalk n state inBuf data).1.result (unpackWalk n state inBuf data).2 := by
  induction n generalizing state inBuf data with
  | zero => rfl
  | succ n ih =>
    cases inBuf with
    | nil => rfl
    | cons byte inBuf =>
      rw [unpackLoop, unpackWalk]
      cases unpackByte (n = 1) state byte with
      | none => rfl
      | some next => exact ih _ _ _

/-- `dataunpack` has a result exactly when its reads and its check value are safe. -/
theorem dataunpack_ne_none_iff (inBuf : List UInt8) :
    dataunpack inBuf ≠ none ↔ (dataunpackWalk inBuf).1 ≠ .behind ∧
      ((dataunpackWalk inBuf).1 = .whole → 0 ≤ ((dataunpackWalk inBuf).2.length : ℤ) - 4) := by
  rw [dataunpack, dataunpackWalk]
  split_ifs with hheader
  · simp
  · dsimp only
    rw [unpackLoop_eq_walk]
    generalize unpackWalk _ _ _ _ = walk
    obtain ⟨loopEnd, data⟩ := walk
    cases loopEnd with
    | behind => simp [LoopEnd.result]
    | frameError => simp [LoopEnd.result]
    | whole =>
      simp only [LoopEnd.result]
      split_ifs with hshort hcrc
      · simp
        omega
      · simp
        omega
      · simp
        omega

/-- A byte that is read is at most one that is written. -/
theorem unpackByte_length {closing : Bool} {state state' : LinkState} {byte : UInt8}
    {out : List UInt8} (h : unpackByte closing state byte = some (state', out)) :
    out.length ≤ 1 := by
  have hinside : ∀ {r : LinkState × List UInt8}, unpackInside closing byte = some r →
      r.2.length ≤ 1 := by
    intro r hr
    rw [unpackInside] at hr
    split_ifs at hr <;> obtain rfl := Option.some.inj hr <;> simp
  unfold unpackByte at h
  cases state with
  | outsideFrame =>
    dsimp only at h
    split_ifs at h with hflag
    · obtain ⟨-, rfl⟩ := Prod.mk.inj (Option.some.inj h)
      simp
    · exact hinside h
  | insideFrame => exact hinside h
  | linkEscape =>
    dsimp only at h
    split_ifs at h with hescape
    · obtain ⟨-, rfl⟩ := Prod.mk.inj (Option.some.inj h)
      simp

theorem length_unpackWalk_le (n : ℕ) (state : LinkState) (inBuf data : List UInt8) :
    (unpackWalk n state inBuf data).2.length ≤ data.length + inBuf.length := by
  induction n generalizing state inBuf data with
  | zero => exact Nat.le_add_right _ _
  | succ n ih =>
    cases inBuf with
    | nil => exact le_rfl
    | cons byte inBuf =>
      rw [unpackWalk]
      cases hbyte : unpackByte (n = 1) state byte with
      | none => exact Nat.le_add_right _ _
      | some next =>
        have hout := unpackByte_length hbyte
        have hrest := ih next.1 inBuf (data ++ next.2)
        rw [List.length_append] at hrest
        rw [List.length_cons]
        exact hrest.trans (by omega)

theorem length_dataunpackWalk_le (inBuf : List UInt8) :
    (dataunpackWalk inBuf).2.length ≤ inBuf.length := by
  rw [dataunpackWalk]
  split_ifs with hheader
  · exact Nat.zero_le _
  · apply (length_unpackWalk_le _ _ _ _).trans
    simp

/-! ### The body of a frame -/

/-- An escape is followed by a byte that it can stand for. -/
def EscapesOk (s : List UInt8) : Prop := s.IsChain fun a b => a = 0x7d → b = 0x5e ∨ b = 0x5d

/-- The bytes that are stored of a body. -/
def storedCount (s : List UInt8) : ℕ := s.countP (· ≠ 0x7d)

/-- The state behind a body, whose last byte may begin an escape. -/
def stateAfter (state : LinkState) (s : List UInt8) : LinkState :=
  s.getLast?.elim state fun b => if b = 0x7d then .linkEscape else .insideFrame

/-- The escape that is open before a body. -/
def openEscape (state : LinkState) (s : List UInt8) : List UInt8 :=
  if state = .linkEscape then 0x7d :: s else s

theorem openEscape_of_ne {state : LinkState} (h : state ≠ .linkEscape) (s : List UInt8) :
    openEscape state s = s := if_neg h

theorem escapesOk_escape_cons {b : UInt8} {s : List UInt8} :
    EscapesOk (0x7d :: b :: s) ↔ (b = 0x5e ∨ b = 0x5d) ∧ EscapesOk (b :: s) := by
  unfold EscapesOk
  rw [List.isChain_cons_cons]
  simp

theorem escapesOk_cons_of_ne {b : UInt8} (hb : b ≠ 0x7d) {s : List UInt8} :
    EscapesOk (b :: s) ↔ EscapesOk s := by
  rw [EscapesOk]
  rw [List.isChain_cons]
  exact and_iff_right fun _ _ h => absurd h hb

theorem stateAfter_cons (state : LinkState) (b : UInt8) (s : List UInt8) :
    stateAfter state (b :: s) =
      stateAfter (if b = 0x7d then .linkEscape else .insideFrame) s := by
  cases s with
  | nil => rfl
  | cons c s =>
    rw [stateAfter, List.getLast?_cons_cons]
    obtain ⟨last, hlast⟩ := Option.isSome_iff_exists.1
      (List.getLast?_isSome.2 (List.cons_ne_nil c s))
    rw [stateAfter, hlast]
    rfl

/-- A byte that is no flag, within a frame or before it. -/
theorem unpackByte_of_ne_flag {b : UInt8} (hb : b ≠ 0x7e) (closing : Bool) {state : LinkState}
    (hstate : state ≠ .linkEscape) : unpackByte closing state b =
      if b = 0x7d then some (.linkEscape, []) else some (.insideFrame, [b]) := by
  cases state with
  | linkEscape => exact absurd rfl hstate
  | outsideFrame => simp [unpackByte, unpackInside, hb]
  | insideFrame => simp [unpackByte, unpackInside, hb]

/-- A body is read as far as its escapes are right: then as many bytes are stored as it has
that begin no escape. -/
structure ReadsBody (state : LinkState) (s : List UInt8) : Prop where
  good : EscapesOk (openEscape state s) → ∃ out, out.length = storedCount s ∧
    ∀ n rest data, unpackWalk (s.length + n) state (s ++ rest) data =
      unpackWalk n (stateAfter state s) rest (data ++ out)
  bad : ¬ EscapesOk (openEscape state s) →
    ∀ n rest data, (unpackWalk (s.length + n) state (s ++ rest) data).1 = .frameError

theorem unpackWalk_cons_append (b : UInt8) (s : List UInt8) (n : ℕ) (state : LinkState)
    (rest data : List UInt8) : unpackWalk ((b :: s).length + n) state (b :: s ++ rest) data =
      match unpackByte (s.length + n = 1) state b with
      | none => (.frameError, data)
      | some (state, out) => unpackWalk (s.length + n) state (s ++ rest) (data ++ out) := by
  rw [List.length_cons, Nat.add_right_comm]
  rfl

/-- A byte of a body is read, which stores `out`. -/
theorem ReadsBody.cons {b : UInt8} {s out : List UInt8} {state state' : LinkState}
    (h : ReadsBody state' s) (hbyte : ∀ closing, unpackByte closing state b = some (state', out))
    (hok : EscapesOk (openEscape state (b :: s)) ↔ EscapesOk (openEscape state' s))
    (hafter : stateAfter state (b :: s) = stateAfter state' s)
    (hcount : out.length + storedCount s = storedCount (b :: s)) : ReadsBody state (b :: s) where
  good hgood := by
    obtain ⟨more, hmore, hwalk⟩ := h.good (hok.1 hgood)
    refine ⟨out ++ more, ?_, fun n rest data => ?_⟩
    · rw [List.length_append, hmore, hcount]
    · rw [unpackWalk_cons_append, hbyte]
      dsimp only
      rw [hwalk, hafter, List.append_assoc]
  bad hbad n rest data := by
    rw [unpackWalk_cons_append, hbyte]
    exact h.bad (fun hgood => hbad (hok.2 hgood)) n rest _

theorem readsBody (s : List UInt8) :
    ∀ state : LinkState, (0x7e : UInt8) ∉ s → ReadsBody state s := by
  induction s with
  | nil =>
    intro state _
    constructor
    · intro _
      refine ⟨[], rfl, ?_⟩
      intro n rest data
      rw [List.append_nil, List.length_nil, Nat.zero_add]
      rfl
    · intro hbad
      refine absurd ?_ hbad
      rw [openEscape, EscapesOk]
      split_ifs <;> simp
  | cons b s ih =>
    intro state hflag
    obtain ⟨hb, hs⟩ := List.ne_and_not_mem_of_not_mem_cons hflag
    by_cases hstate : state = .linkEscape
    · subst hstate
      by_cases hescape : b = 0x5e ∨ b = 0x5d
      · -- the escape is closed, and the byte it stands for is stored
        have hne : b ≠ 0x7d := by rcases hescape with rfl | rfl <;> decide
        refine (ih .insideFrame hs).cons (fun closing => if_pos hescape) ?_ ?_ ?_
        · rw [openEscape, if_pos rfl, escapesOk_escape_cons, and_iff_right hescape,
            escapesOk_cons_of_ne hne, openEscape_of_ne (by decide)]
        · rw [stateAfter_cons, if_neg hne]
        · simp [storedCount, hne, Nat.add_comm]
      · constructor
        · intro hok
          rw [openEscape, if_pos rfl, escapesOk_escape_cons] at hok
          exact absurd hok.1 hescape
        · intro _ n rest data
          have hbyte : unpackByte (s.length + n = 1) .linkEscape b = none := if_neg hescape
          rw [unpackWalk_cons_append, hbyte]
    · have hbyte := fun closing => unpackByte_of_ne_flag hb.symm closing hstate
      by_cases hd : b = 0x7d
      · -- an escape is opened, and nothing is stored
        subst hd
        refine (ih .linkEscape hs).cons hbyte ?_ ?_ ?_
        · rw [openEscape_of_ne hstate, openEscape, if_pos rfl]
        · rw [stateAfter_cons, if_pos rfl]
        · simp [storedCount]
      · simp only [if_neg hd] at hbyte
        refine (ih .insideFrame hs).cons hbyte ?_ ?_ ?_
        · rw [openEscape_of_ne hstate, openEscape_of_ne (by decide), escapesOk_cons_of_ne hd]
        · rw [stateAfter_cons, if_neg hd]
        · simp [storedCount, hd, Nat.add_comm]

/-! ### Whole frames -/

/-- The length field of a frame. -/
def lengthField (w : List UInt8) : ℕ := (wordLE16 (byteAt w 2) (byteAt w 3)).toNat

/-- What a frame holds between its flags. -/
def body (w : List UInt8) : List UInt8 := (w.drop 6).take (w.length - 8)

/-- The bytes of the body that the length field takes in. -/
def covered (w : List UInt8) : List UInt8 := (body w).take (lengthField w - 2)

/-- A frame that `dataunpack` can do nothing wrong with. It has a body, and the loop ends at a
flag that the length field has in the wrong place, or at an escape that is wrong, or the bytes
that the length field takes in have room for a check value. -/
def Unpackable (w : List UInt8) : Prop :=
  body w ≠ [] ∧
    (lengthField w = (body w).length + 3 ∨ (body w).length + 4 < lengthField w ∨
      ¬ EscapesOk (covered w) ∨
      (lengthField w = (body w).length + 4 ∧ (body w).getLast? = some 0x7d) ∨
      4 ≤ storedCount (covered w))

variable {l₁ l₂ : UInt8} {d : List UInt8}

@[simp] theorem body_frameOf : body (frameOf l₁ l₂ d) = d := by
  rw [body, length_frameOf, Nat.add_sub_cancel]
  exact List.take_left

theorem dataunpackWalk_frameOf : dataunpackWalk (frameOf l₁ l₂ d) =
    unpackWalk (lengthField (frameOf l₁ l₂ d)) .outsideFrame
      (0x7e :: 0x7e :: (d ++ [0x7e, 0x7e])) [] :=
  rfl

/-- How a loop has to end to be safe. -/
def EndsSafe (walk : LoopEnd × List UInt8) : Prop :=
  walk.1 ≠ .behind ∧ (walk.1 = .whole → 4 ≤ walk.2.length)

theorem endsSafe_whole {data : List UInt8} : EndsSafe (.whole, data) ↔ 4 ≤ data.length := by
  simp [EndsSafe]

theorem endsSafe_of_frameError {walk : LoopEnd × List UInt8} (h : walk.1 = .frameError) :
    EndsSafe walk := by
  simp [EndsSafe, h]

theorem unpackSafe_iff {w : List UInt8} (hw : 4 ≤ w.length) :
    UnpackSafe w ↔ EndsSafe (dataunpackWalk w) := by
  constructor
  · intro h
    exact ⟨h.reads, fun hwhole => by have := h.crc hwhole; omega⟩
  · intro h
    exact ⟨hw, h.1, fun hwhole => by have := h.2 hwhole; omega, length_dataunpackWalk_le w⟩

/-- The first two flags. -/
theorem unpackWalk_flags (m : ℕ) (s : List UInt8) :
    unpackWalk (m + 2) .outsideFrame (0x7e :: 0x7e :: s) [] =
      unpackWalk m .outsideFrame s [] :=
  rfl

/-- A frame without a body is never safe. -/
theorem not_endsSafe_nil (n : ℕ) :
    ¬ EndsSafe (unpackWalk n .outsideFrame [0x7e, 0x7e, 0x7e, 0x7e] []) := by
  intro h
  rcases n with _ | _ | _ | _ | _ | n
  · exact absurd (endsSafe_whole.1 h) (by decide)
  · exact absurd (endsSafe_whole.1 h) (by decide)
  · exact absurd (endsSafe_whole.1 h) (by decide)
  · exact absurd (endsSafe_whole.1 h) (by decide)
  · exact absurd (endsSafe_whole.1 h) (by decide)
  · exact h.1 rfl

/-- The closing flags: they are right when two bytes are left to read, and no escape is open. -/
theorem unpackWalk_closing {state : LinkState} (hstate : state ≠ .outsideFrame) (n : ℕ)
    (data : List UInt8) : unpackWalk (n + 1) state [0x7e, 0x7e] data =
      if n = 1 ∧ state ≠ .linkEscape then (.whole, data) else (.frameError, data) := by
  cases state with
  | outsideFrame => exact absurd rfl hstate
  | linkEscape =>
    rw [if_neg (fun h => h.2 rfl)]
    rfl
  | insideFrame =>
    by_cases hn : n = 1
    · subst hn
      simp [unpackWalk, unpackByte, unpackInside]
    · rw [if_neg (fun h => hn h.1), unpackWalk]
      simp [unpackByte, unpackInside, hn]

theorem stateAfter_of_ne_nil {state : LinkState} (hd : d ≠ []) :
    stateAfter state d = if d.getLast? = some 0x7d then .linkEscape else .insideFrame := by
  obtain ⟨last, hlast⟩ := Option.isSome_iff_exists.1 (List.getLast?_isSome.2 hd)
  simp [stateAfter, hlast]

/-- The loop behind the first flags of a frame with a body. -/
theorem endsSafe_body_iff (hd : d ≠ []) (hflag : (0x7e : UInt8) ∉ d) (m : ℕ) :
    EndsSafe (unpackWalk m .outsideFrame (d ++ [0x7e, 0x7e]) []) ↔
      m = d.length + 1 ∨ d.length + 2 < m ∨ ¬ EscapesOk (d.take m) ∨
        (m = d.length + 2 ∧ d.getLast? = some 0x7d) ∨ 4 ≤ storedCount (d.take m) := by
  have hclosed : (LinkState.outsideFrame : LinkState) ≠ .linkEscape := by decide
  rcases Nat.lt_or_ge d.length m with hm | hm
  · -- the length field takes in the whole body
    obtain ⟨n, rfl⟩ := Nat.exists_eq_add_of_lt hm
    rw [List.take_of_length_le (by omega), Nat.add_assoc]
    have hread := readsBody d .outsideFrame hflag
    by_cases hok : EscapesOk d
    · obtain ⟨out, hout, hwalk⟩ := hread.good (by rwa [openEscape_of_ne hclosed])
      have hafter : stateAfter .outsideFrame d ≠ .outsideFrame := by
        rw [stateAfter_of_ne_nil hd]
        split_ifs <;> decide
      rw [hwalk, unpackWalk_closing hafter, List.nil_append, ← hout, stateAfter_of_ne_nil hd]
      by_cases hlast : d.getLast? = some 0x7d
      · -- an escape is open at the flag
        rw [if_neg (by simp [hlast])]
        apply iff_of_true (endsSafe_of_frameError rfl)
        rcases Nat.lt_trichotomy n 1 with h | h | h
        · exact .inl (by omega)
        · exact .inr (.inr (.inr (.inl ⟨by omega, hlast⟩)))
        · exact .inr (.inl (by omega))
      · by_cases hn : n = 1
        · rw [if_pos (by simp [hlast, hn]), endsSafe_whole]
          simp [hok, hlast, hn]
        · -- the flag is not where the length field has it
          rw [if_neg (by simp [hn])]
          apply iff_of_true (endsSafe_of_frameError rfl)
          omega
    · refine iff_of_true (endsSafe_of_frameError ?_) (.inr (.inr (.inl hok)))
      exact hread.bad (by rwa [openEscape_of_ne hclosed]) _ _ _
  · -- the loop ends within the body
    have hread := readsBody (d.take m) .outsideFrame fun h => hflag (List.mem_of_mem_take h)
    have hsplit : d ++ [0x7e, 0x7e] = d.take m ++ (d.drop m ++ [0x7e, 0x7e]) := by
      rw [← List.append_assoc, List.take_append_drop]
    have hlen : (d.take m).length + 0 = m := by
      rw [List.length_take, Nat.min_eq_left hm, Nat.add_zero]
    rw [hsplit]
    by_cases hok : EscapesOk (d.take m)
    · obtain ⟨out, hout, hwalk⟩ := hread.good (by rwa [openEscape_of_ne hclosed])
      have hend : unpackWalk m .outsideFrame (d.take m ++ (d.drop m ++ [0x7e, 0x7e])) [] =
          (.whole, out) := by
        have hwhole := hwalk 0 (d.drop m ++ [0x7e, 0x7e]) []
        rwa [hlen, unpackWalk, List.nil_append] at hwhole
      rw [hend, endsSafe_whole, hout]
      constructor
      · exact fun h => .inr (.inr (.inr (.inr h)))
      · rintro (h | h | h | ⟨h, -⟩ | h)
        · omega
        · omega
        · exact absurd hok h
        · omega
        · exact h
    · refine iff_of_true (endsSafe_of_frameError ?_) (.inr (.inr (.inl hok)))
      have hbad := hread.bad (by rwa [openEscape_of_ne hclosed]) 0 (d.drop m ++ [0x7e, 0x7e]) []
      rwa [hlen] at hbad

/-- A frame is unpacked safely exactly when it is `Unpackable`. -/
theorem unpackSafe_frameOf_iff (hflag : (0x7e : UInt8) ∉ d) :
    UnpackSafe (frameOf l₁ l₂ d) ↔ Unpackable (frameOf l₁ l₂ d) := by
  rw [unpackSafe_iff (by rw [length_frameOf]; omega), dataunpackWalk_frameOf, Unpackable, covered,
    body_frameOf]
  generalize lengthField (frameOf l₁ l₂ d) = n
  rcases eq_or_ne d [] with rfl | hd
  · exact iff_of_false (not_endsSafe_nil n) fun h => h.1 rfl
  · rw [and_iff_right hd]
    rcases Nat.lt_or_ge n 2 with hn | hn
    · -- the length field does not even take in the first flags
      have hend : unpackWalk n .outsideFrame (0x7e :: 0x7e :: (d ++ [0x7e, 0x7e])) [] =
          (.whole, []) := by
        obtain rfl | rfl : n = 0 ∨ n = 1 := by omega
        · rfl
        · rfl
      rw [hend, Nat.sub_eq_zero_of_le hn.le, List.take_zero]
      apply iff_of_false (fun h => absurd (endsSafe_whole.1 h) (by decide))
      have hpos := List.length_pos_iff.2 hd
      simp [EscapesOk, storedCount]
      omega
    · obtain ⟨m, rfl⟩ := Nat.exists_eq_add_of_le' hn
      rw [unpackWalk_flags, endsSafe_body_iff hd hflag, Nat.add_sub_cancel]
      refine or_congr (by omega) (or_congr (by omega) (or_congr Iff.rfl (or_congr ?_ Iff.rfl)))
      exact and_congr_left fun _ => by omega

/-- A frame that is handed over is unpacked safely exactly when it is `Unpackable`. -/
theorem handedOver_unpackSafe_iff {w : List UInt8} (h : HandedOver w) :
    UnpackSafe w ↔ Unpackable w := by
  obtain ⟨⟨l₁, l₂, d, hflag, rfl⟩, -⟩ := handedOver_iff.mp h
  exact unpackSafe_frameOf_iff hflag

/-- The frame of a byte is handed over, and is safe. -/
theorem handedOver_unpackSafe_datapack :
    HandedOver (datapack [1]) ∧ (UnpackSafe (datapack [1]) ↔ Unpackable (datapack [1])) := by
  have hhanded : HandedOver (datapack [1]) :=
    handedOver_iff.mpr ⟨framed_datapack [1], by decide⟩
  exact ⟨hhanded, handedOver_unpackSafe_iff hhanded⟩

/-- A frame without a body is handed over, and its check value is to be computed of −4 bytes. -/
theorem not_unpackSafe_empty :
    ¬ ∀ w, HandedOver w → UnpackSafe w := by
  intro h
  have hframed : Framed [0x55, 0xAA, 4, 0, 0x7e, 0x7e, 0x7e, 0x7e] :=
    ⟨4, 0, [], List.not_mem_nil, rfl⟩
  have hsafe := h _ (handedOver_iff.mpr ⟨hframed, by decide⟩)
  exact (dataunpack_ne_none_iff _).mpr ⟨hsafe.reads, hsafe.crc⟩ (by decide)

end PanelTester.Uart
