import PanelTester.Library.Crc
import PanelTester.Library.Words
import PanelTester.Library.Flags

/-!
The frames of the serial line, `datapack` and `dataunpack` of `comUart.c`. A frame is a
header 55 AA, the number of the bytes behind the length field, two flags 7e, the payload
with its check value, both escaped, and two flags.
-/

namespace PanelTester.Uart

open Library

/-- `jcrc32_le` -/
def jcrc32Le (crc : UInt32) (p : List UInt8) : UInt32 := crcLe crcPolyLe crc p

/-- The check value of a payload, as both sides compute it. -/
def fcs (p : List UInt8) : UInt32 := ~~~jcrc32Le (~~~0) p

/-- The switch of `datapack` on a byte of the payload or of the check value. -/
def escape (b : UInt8) : List UInt8 :=
  if b = 0x7d then [0x7d, 0x5d] else if b = 0x7e then [0x7d, 0x5e] else [b]

def datapack (inBuf : List UInt8) : List UInt8 :=
  let out := [0x7e, 0x7e] ++ inBuf.flatMap escape ++ (bytesLE32 (fcs inBuf)).flatMap escape ++
    [0x7e, 0x7e]
  [0x55, 0xAA] ++ bytesLE16 (UInt16.ofNat out.length) ++ out

/-- `FLAG_TRANS` -/
def flagTrans : UInt8 := 0x20

/-- The states of `dataunpack`. -/
inductive LinkState
  | outsideFrame
  | linkEscape
  | insideFrame
  deriving DecidableEq, Repr

/-- The case `INSIDE_FRAME`: the next state and what is stored, or an error. The byte is
`closing` when it is the last but one. -/
def unpackInside (closing : Bool) (byte : UInt8) : Option (LinkState × List UInt8) :=
  if byte = 0x7d then some (.linkEscape, [])
  else if byte = 0x7e then if closing then some (.outsideFrame, []) else none
  else some (.insideFrame, [byte])

/-- The switch of `dataunpack`. -/
def unpackByte (closing : Bool) (state : LinkState) (byte : UInt8) :
    Option (LinkState × List UInt8) :=
  match state with
  | .outsideFrame => if byte = 0x7e then some (.outsideFrame, []) else unpackInside closing byte
  | .insideFrame => unpackInside closing byte
  | .linkEscape =>
      if byte = 0x5e ∨ byte = 0x5d then some (.insideFrame, [byte ^^^ flagTrans]) else none

/-- The loop of `dataunpack` over the bytes it has still to read: what it stored, or that
it returns 0; there is no result when it reads behind the buffer. -/
def unpackLoop : ℕ → LinkState → List UInt8 → List UInt8 → Option (Option (List UInt8))
  | 0, _, _, data => some (some data)
  | _ + 1, _, [], _ => none
  | n + 1, state, byte :: inBuf, data =>
      match unpackByte (n = 1) state byte with
      | none => some none
      | some (state, out) => unpackLoop n state inBuf (data ++ out)

/-- `dataunpack`: what it returns and what it leaves in `outBuf`. There is no result when
it reads behind `inBuf`, and when it is to compute the check value of less than nothing. -/
def dataunpack (inBuf : List UInt8) : Option (ℤ × List UInt8) :=
  if byteAt inBuf 0 ≠ 0x55 ∧ byteAt inBuf 1 ≠ 0xAA then some (0, [])
  else
    let nlen := wordLE16 (byteAt inBuf 2) (byteAt inBuf 3)
    match unpackLoop nlen.toNat .outsideFrame (inBuf.drop 4) [] with
    | none => none
    | some none => some (0, [])
    | some (some data) =>
        let len := data.length
        if len < 4 then none
        else if bytesLE32 (fcs (data.take (len - 4))) = data.drop (len - 4) then
          some ((len : ℤ) - 4, data)
        else some (-2, data)

/-! ### The frame of a payload -/

/-- What a frame holds between its flags. -/
def content (p : List UInt8) : List UInt8 := (p ++ bytesLE32 (fcs p)).flatMap escape

theorem escape_ne_nil (b : UInt8) : escape b ≠ [] := by
  rw [escape]
  split
  · simp
  · split <;> simp

theorem flag_notMem_escape (b : UInt8) : (0x7e : UInt8) ∉ escape b := by
  rw [escape]
  split
  · decide
  · split
    · decide
    · rename_i hb
      rw [List.mem_singleton]
      exact Ne.symm hb

theorem flag_notMem_content (p : List UInt8) : (0x7e : UInt8) ∉ content p := by
  rw [content, List.mem_flatMap]
  rintro ⟨b, -, hb⟩
  exact flag_notMem_escape b hb

theorem content_ne_nil (p : List UInt8) : content p ≠ [] := by
  rw [content, Ne, List.flatMap_eq_nil_iff]
  intro h
  exact escape_ne_nil _ (h (fcs p).toUInt8 (by simp [bytesLE32]))

/-- The length field of a frame. -/
def frameField (p : List UInt8) : UInt16 := UInt16.ofNat ((content p).length + 4)

theorem datapack_eq (p : List UInt8) :
    datapack p = 0x55 :: 0xAA :: (frameField p).toUInt8 :: (frameField p >>> 8).toUInt8 ::
      0x7e :: 0x7e :: (content p ++ [0x7e, 0x7e]) := by
  have hlen : ([0x7e, 0x7e] ++ p.flatMap escape ++ (bytesLE32 (fcs p)).flatMap escape ++
      [(0x7e : UInt8), 0x7e]).length = (content p).length + 4 := by
    simp [content]
    omega
  simp only [datapack, hlen]
  simp [content, frameField, bytesLE16]

/-- A frame with the length field `l₁ l₂` and the body `d`. -/
def frameOf (l₁ l₂ : UInt8) (d : List UInt8) : List UInt8 :=
  0x55 :: 0xAA :: l₁ :: l₂ :: 0x7e :: 0x7e :: (d ++ [0x7e, 0x7e])

/-- A frame whose flags are where the receiver looks for them; its length field may be any. -/
def Framed (f : List UInt8) : Prop := ∃ l₁ l₂ d, (0x7e : UInt8) ∉ d ∧ f = frameOf l₁ l₂ d

theorem length_frameOf {l₁ l₂ : UInt8} {d : List UInt8} :
    (frameOf l₁ l₂ d).length = d.length + 8 := by
  simp [frameOf]

theorem Framed.length_ge {f : List UInt8} (h : Framed f) : 8 ≤ f.length := by
  obtain ⟨l₁, l₂, d, -, rfl⟩ := h
  rw [length_frameOf]
  exact Nat.le_add_left 8 _

theorem framed_datapack (p : List UInt8) : Framed (datapack p) :=
  ⟨_, _, _, flag_notMem_content p, datapack_eq p⟩

theorem length_datapack (p : List UInt8) : (datapack p).length = (content p).length + 8 := by
  simp [datapack_eq]

/-- The high byte of the length field is no flag, since a frame fits the buffer. -/
theorem frameField_high_ne {p : List UInt8} (hp : (datapack p).length ≤ 1100) :
    (frameField p >>> 8).toUInt8 ≠ 0x7e := by
  rw [length_datapack] at hp
  have hlt : ((frameField p >>> 8).toUInt8).toNat < 5 := highByte_lt (by omega) (by decide)
  intro heq
  rw [heq] at hlt
  exact absurd hlt (by decide)

/-- A frame has two pairs of flags to give. -/
theorem flagPairs_datapack {p : List UInt8} (hp : (datapack p).length ≤ 1100) (h : Bool)
    (s : List UInt8) :
    flagPairs 0x7e h (datapack p ++ s) = flagPairs 0x7e true s + 2 := by
  rw [datapack_eq]
  simp only [List.cons_append, List.append_assoc, List.nil_append]
  rw [flagPairs_cons_of_ne (by decide), flagPairs_cons_of_ne (by decide), flagPairs,
    flagPairs_cons_of_ne (frameField_high_ne hp), flagPairs_false_flag, flagPairs_true_flag,
    flagPairs_append_of_notMem (flag_notMem_content p) (content_ne_nil p), flagPairs_false_flag,
    flagPairs_true_flag]
  simp

/-- Without its first five bytes it has one. -/
theorem flagPairs_drop_datapack (p s : List UInt8) :
    flagPairs 0x7e false ((datapack p ++ s).drop 5) = flagPairs 0x7e true s + 1 := by
  rw [datapack_eq]
  simp only [List.cons_append, List.append_assoc, List.nil_append, List.drop_succ_cons,
    List.drop_zero]
  rw [flagPairs_false_flag,
    flagPairs_append_of_notMem (flag_notMem_content p) (content_ne_nil p), flagPairs_false_flag,
    flagPairs_true_flag]

/-! ### Round trip -/

theorem unpackByte_of_ne_escape {b : UInt8} (hd : b ≠ 0x7d) (he : b ≠ 0x7e) (closing : Bool)
    {state : LinkState} (hstate : state ≠ .linkEscape) :
    unpackByte closing state b = some (.insideFrame, [b]) := by
  cases state with
  | linkEscape => exact absurd rfl hstate
  | outsideFrame => simp [unpackByte, unpackInside, hd, he]
  | insideFrame => simp [unpackByte, unpackInside, hd, he]

theorem unpackByte_escape (closing : Bool) {state : LinkState} (hstate : state ≠ .linkEscape) :
    unpackByte closing state 0x7d = some (.linkEscape, []) := by
  cases state with
  | linkEscape => exact absurd rfl hstate
  | outsideFrame => rfl
  | insideFrame => rfl

theorem trans_escaped :
    (0x5d : UInt8) ^^^ flagTrans = 0x7d ∧ (0x5e : UInt8) ^^^ flagTrans = 0x7e := by
  decide

/-- An escaped byte is read back. -/
theorem unpackLoop_escape (b : UInt8) (n : ℕ) {state : LinkState} (hstate : state ≠ .linkEscape)
    (s data : List UInt8) :
    unpackLoop ((escape b).length + n) state (escape b ++ s) data =
      unpackLoop n .insideFrame s (data ++ [b]) := by
  rw [escape]
  split
  · subst b
    simp only [List.length_cons, List.length_nil, List.cons_append, List.nil_append,
      show 0 + 1 + 1 + n = n + 1 + 1 by omega, unpackLoop, unpackByte_escape _ hstate]
    simp [unpackByte, trans_escaped]
  · split
    · subst b
      simp only [List.length_cons, List.length_nil, List.cons_append, List.nil_append,
        show 0 + 1 + 1 + n = n + 1 + 1 by omega, unpackLoop, unpackByte_escape _ hstate]
      simp [unpackByte, trans_escaped]
    · rename_i hd he
      simp only [List.length_cons, List.length_nil, List.cons_append, List.nil_append,
        show 0 + 1 + n = n + 1 by omega, unpackLoop, unpackByte_of_ne_escape hd he _ hstate]

theorem unpackLoop_escapes (c : List UInt8) (n : ℕ) (s : List UInt8) :
    ∀ data, unpackLoop ((c.flatMap escape).length + n) .insideFrame (c.flatMap escape ++ s) data =
      unpackLoop n .insideFrame s (data ++ c) := by
  induction c with
  | nil => intro data; simp
  | cons b c ih =>
      intro data
      rw [List.flatMap_cons, List.length_append, Nat.add_assoc, List.append_assoc,
        unpackLoop_escape b _ (by decide), ih, List.append_assoc, List.singleton_append]

/-- The loop over a frame, whatever lies behind it. -/
theorem unpackLoop_frame {c : List UInt8} (hc : c ≠ []) (s : List UInt8) :
    unpackLoop ((c.flatMap escape).length + 4) .outsideFrame
      (0x7e :: 0x7e :: (c.flatMap escape ++ 0x7e :: 0x7e :: s)) [] = some (some c) := by
  obtain ⟨b, c, rfl⟩ := List.exists_cons_of_ne_nil hc
  have hflags : ∀ n (t : List UInt8), unpackLoop (n + 1 + 1) .outsideFrame (0x7e :: 0x7e :: t) [] =
      unpackLoop n .outsideFrame t [] := fun n t => rfl
  rw [show ((b :: c).flatMap escape).length + 4 = ((b :: c).flatMap escape).length + 2 + 1 + 1 by
    omega, hflags, List.flatMap_cons, List.length_append, Nat.add_assoc, List.append_assoc,
    unpackLoop_escape b _ (by decide), unpackLoop_escapes]
  simp [unpackLoop, unpackByte, unpackInside]

/-- A frame is unpacked to its payload, whatever lies behind it in the buffer. -/
theorem dataunpack_datapack {p : List UInt8} (hp : (datapack p).length - 4 < 2 ^ 16)
    (s : List UInt8) :
    dataunpack (datapack p ++ s) = some ((p.length : ℤ), p ++ bytesLE32 (fcs p)) := by
  have hfield : (frameField p).toNat = (content p).length + 4 := by
    rw [length_datapack] at hp
    have hlt : (content p).length + 4 < 2 ^ 16 := by omega
    rw [frameField, UInt16.toNat_ofNat', Nat.mod_eq_of_lt hlt]
  have hloop : unpackLoop ((content p).length + 4) .outsideFrame
      (0x7e :: 0x7e :: (content p ++ 0x7e :: 0x7e :: s)) [] =
        some (some (p ++ bytesLE32 (fcs p))) :=
    unpackLoop_frame (by simp [bytesLE32]) s
  rw [datapack_eq]
  simp only [dataunpack, byteAt, List.cons_append, List.append_assoc, List.nil_append,
    List.getD_cons_zero, List.getD_cons_succ, List.drop_succ_cons, List.drop_zero, wordLE16_bytes,
    hfield, hloop, ne_eq, not_true_eq_false, false_and, if_false]
  have hlen : (p ++ bytesLE32 (fcs p)).length = p.length + 4 := by simp
  rw [hlen, if_neg (by omega), Nat.add_sub_cancel, List.take_left, List.drop_left, if_pos rfl]
  simp

/-- A payload whose frame has a length that the length field can hold comes back, with its
check value behind it. -/
theorem dataunpack_roundTrip (p : List UInt8) (hp : (datapack p).length - 4 < 2 ^ 16) :
    dataunpack (datapack p) = some ((p.length : ℤ), p ++ bytesLE32 (fcs p)) := by
  have hunpack := dataunpack_datapack hp []
  rwa [List.append_nil] at hunpack

/-- A payload of a flag and an escape. -/
theorem dataunpack_roundTrip_flag :
    dataunpack (datapack [0x7e, 0x7d]) =
      some (2, [0x7e, 0x7d] ++ bytesLE32 (fcs [0x7e, 0x7d])) := by
  have hshort : (datapack [0x7e, 0x7d]).length - 4 < 2 ^ 16 := by decide
  exact dataunpack_roundTrip _ hshort

end PanelTester.Uart
