import PanelTester.Uart.WriteData

/-!
The frames that `dataunpack` accepts. It takes as many bytes as the length field says, and
never asks whether the flags that close the frame are among them: a length field that ends
within the body is believed, and one that reaches behind a frame without a body as well.
-/

namespace PanelTester.Uart

open Library UartBuf

/-- Whatever lies behind a frame in memory, it is accepted only if it is what `datapack` makes
of the payload that is read. -/
def AcceptsPackedOnly (w : List UInt8) : Prop :=
  ∀ (rest : List UInt8) (n : ℤ) (out : List UInt8), dataunpack (w ++ rest) = some (n, out) →
    0 < n → w = datapack (out.take n.toNat)

/-- The length field leaves out the flags that close the frame, and the bytes of the body that it
takes in are a payload with its check value, behind which an escape may begin. -/
def EndsEarly (w : List UInt8) : Prop :=
  lengthField w ≤ (body w).length + 2 ∧
    ∃ p, p ≠ [] ∧ (covered w = content p ∨ covered w = content p ++ [0x7d])

/-- The length field takes in more than a check value behind a frame without a body. -/
def ReachesBehind (w : List UInt8) : Prop := body w = [] ∧ 9 ≤ lengthField w

variable {l₁ l₂ : UInt8} {d rest : List UInt8}

/-! ### Escapes -/

/-- What is left of a body behind the bytes that can be read back: nothing, an escape that is
open, or one that is wrong. -/
inductive EscapeTail : List UInt8 → Prop
  | closed : EscapeTail []
  | opened : EscapeTail [0x7d]
  | wrong {b : UInt8} {t : List UInt8} (hb : ¬ (b = 0x5e ∨ b = 0x5d)) : EscapeTail (0x7d :: b :: t)

/-- A body is the escaped form of some bytes, up to an escape that stands for none. -/
theorem exists_escapeTail (s : List UInt8) (hs : (0x7e : UInt8) ∉ s) :
    ∃ out tail : List UInt8, EscapeTail tail ∧ s = out.flatMap escape ++ tail := by
  induction hlen : s.length using Nat.strong_induction_on generalizing s with
  | _ k ih =>
    cases s with
    | nil => exact ⟨[], [], .closed, rfl⟩
    | cons b s =>
      obtain ⟨hb, htl⟩ := List.ne_and_not_mem_of_not_mem_cons hs
      by_cases hd : b = 0x7d
      · subst hd
        cases s with
        | nil => exact ⟨[], [0x7d], .opened, rfl⟩
        | cons c s =>
          have hrest : (0x7e : UInt8) ∉ s := (List.ne_and_not_mem_of_not_mem_cons htl).2
          by_cases hc : c = 0x5e ∨ c = 0x5d
          · obtain ⟨out, tail, htail, rfl⟩ :=
              ih s.length (by simp only [← hlen, List.length_cons]; omega) s hrest rfl
            -- the byte that the escape stands for
            rcases hc with rfl | rfl
            · exact ⟨0x7e :: out, tail, htail, rfl⟩
            · exact ⟨0x7d :: out, tail, htail, rfl⟩
          · exact ⟨[], _, .wrong hc, rfl⟩
      · obtain ⟨out, tail, htail, rfl⟩ := ih s.length (by simp [← hlen]) s htl rfl
        refine ⟨b :: out, tail, htail, ?_⟩
        rw [List.flatMap_cons, escape, if_neg hd, if_neg hb.symm]
        rfl

/-- Before a flag, an escape that is open is a wrong one as well. -/
theorem EscapeTail.before_flag {tail : List UInt8} (h : EscapeTail tail) (hne : tail ≠ [])
    (s : List UInt8) :
    ∃ b t, ¬ (b = 0x5e ∨ b = 0x5d) ∧ tail ++ 0x7e :: s = 0x7d :: b :: t := by
  cases h with
  | closed => exact absurd rfl hne
  | opened => exact ⟨0x7e, s, by decide, rfl⟩
  | wrong hb => exact ⟨_, _, hb, rfl⟩

/-- The state behind some bytes that are read back. -/
def stateBehind (state : LinkState) (out : List UInt8) : LinkState :=
  if out = [] then state else .insideFrame

theorem stateBehind_ne {state : LinkState} (hstate : state ≠ .linkEscape) (out : List UInt8) :
    stateBehind state out ≠ .linkEscape := by
  rw [stateBehind]
  split_ifs
  · exact hstate
  · decide

theorem unpackLoop_readBack {state : LinkState} (hstate : state ≠ .linkEscape)
    (out : List UInt8) (n : ℕ) (s : List UInt8) :
    unpackLoop ((out.flatMap escape).length + n) state (out.flatMap escape ++ s) [] =
      unpackLoop n (stateBehind state out) s out := by
  cases out with
  | nil => simp [stateBehind]
  | cons b c =>
    rw [List.flatMap_cons, List.length_append, Nat.add_assoc, List.append_assoc,
      unpackLoop_escape b _ hstate, unpackLoop_escapes]
    rfl

/-! ### The loop over a frame -/

/-- An escape begins with the last byte that is read. -/
theorem unpackLoop_opened {state : LinkState} (hstate : state ≠ .linkEscape)
    (s data : List UInt8) : unpackLoop 1 state (0x7d :: s) data = some (some data) := by
  rw [unpackLoop, unpackByte_escape _ hstate]
  simp [unpackLoop]

/-- A wrong escape ends the loop. -/
theorem unpackLoop_wrong {state : LinkState} (hstate : state ≠ .linkEscape) {b : UInt8}
    (hb : ¬ (b = 0x5e ∨ b = 0x5d)) (n : ℕ) (s data : List UInt8) :
    unpackLoop (n + 2) state (0x7d :: b :: s) data = some none := by
  have hbyte : ∀ closing, unpackByte closing .linkEscape b = none := fun closing => if_neg hb
  rw [unpackLoop, unpackByte_escape _ hstate]
  dsimp only
  rw [unpackLoop, hbyte]

/-- The loop ends within the body: what it has stored are the bytes that it has read back. -/
theorem unpackLoop_within {m : ℕ} (hm : m ≤ d.length) (hflag : (0x7e : UInt8) ∉ d)
    (data : List UInt8) : unpackLoop m .outsideFrame (d ++ rest) [] = some (some data) ↔
      d.take m = data.flatMap escape ∨ d.take m = data.flatMap escape ++ [0x7d] := by
  have hlen : (d.take m).length = m := by rw [List.length_take, Nat.min_eq_left hm]
  have hsplit : d ++ rest = d.take m ++ (d.drop m ++ rest) := by
    rw [← List.append_assoc, List.take_append_drop]
  have hclosed : LinkState.outsideFrame ≠ .linkEscape := by decide
  have hread : ∀ (out tail : List UInt8), d.take m = out.flatMap escape ++ tail →
      unpackLoop m .outsideFrame (d ++ rest) [] =
        unpackLoop tail.length (stateBehind .outsideFrame out) (tail ++ (d.drop m ++ rest))
          out := by
    intro out tail hout
    rw [hout, List.length_append] at hlen
    rw [hsplit, hout, List.append_assoc, ← hlen, unpackLoop_readBack hclosed, hlen]
  constructor
  · intro hloop
    obtain ⟨out, tail, htail, hout⟩ :=
      exists_escapeTail (d.take m) fun h => hflag (List.mem_of_mem_take h)
    rw [hread out tail hout] at hloop
    cases htail with
    | closed =>
      obtain rfl : out = data := Option.some.inj (Option.some.inj hloop)
      exact .inl (hout.trans (List.append_nil _))
    | opened =>
      rw [List.length_singleton, List.singleton_append,
        unpackLoop_opened (stateBehind_ne hclosed out)] at hloop
      obtain rfl : out = data := Option.some.inj (Option.some.inj hloop)
      exact .inr hout
    | wrong hb =>
      rw [List.length_cons, List.length_cons, List.cons_append, List.cons_append,
        unpackLoop_wrong (stateBehind_ne hclosed out) hb] at hloop
      cases hloop
  · rintro (hdata | hdata)
    · rw [hread data [] (hdata.trans (List.append_nil _).symm)]
      rfl
    · rw [hread data [0x7d] hdata, List.length_singleton, List.singleton_append,
        unpackLoop_opened (stateBehind_ne hclosed data)]

/-- The loop reaches the flags behind the body: they have to be where the length field says. -/
theorem unpackLoop_closing {n : ℕ} (hd : d ≠ []) (hflag : (0x7e : UInt8) ∉ d)
    (data : List UInt8) :
    unpackLoop (d.length + (n + 1)) .outsideFrame (d ++ 0x7e :: 0x7e :: rest) [] =
        some (some data) ↔ n = 1 ∧ d = data.flatMap escape := by
  have hclosed : LinkState.outsideFrame ≠ .linkEscape := by decide
  have hinside : ∀ {out : List UInt8}, d = out.flatMap escape →
      unpackLoop (d.length + (n + 1)) .outsideFrame (d ++ 0x7e :: 0x7e :: rest) [] =
        unpackLoop (n + 1) .insideFrame (0x7e :: 0x7e :: rest) out := by
    intro out hout
    have hne : out ≠ [] := by
      rintro rfl
      exact hd hout
    rw [hout, unpackLoop_readBack hclosed, stateBehind, if_neg hne]
  constructor
  · intro hloop
    obtain ⟨out, tail, htail, hout⟩ := exists_escapeTail d hflag
    rcases eq_or_ne tail [] with rfl | hopen
    · rw [List.append_nil] at hout
      rw [hinside hout, unpackLoop] at hloop
      by_cases hn : n = 1
      · subst hn
        simp [unpackByte, unpackInside, unpackLoop] at hloop
        exact ⟨rfl, hloop ▸ hout⟩
      · simp [unpackByte, unpackInside, hn] at hloop
    · -- the loop ends at the escape, before the flags
      obtain ⟨b, t, hb, hfront⟩ := htail.before_flag hopen (0x7e :: rest)
      obtain ⟨m, hm⟩ : ∃ m, tail.length + (n + 1) = m + 2 := by
        have hpos := List.length_pos_iff.2 hopen
        exact ⟨tail.length + n - 1, by omega⟩
      rw [hout, List.length_append, Nat.add_assoc, hm, List.append_assoc, hfront,
        unpackLoop_readBack hclosed, unpackLoop_wrong (stateBehind_ne hclosed out) hb] at hloop
      cases hloop
  · rintro ⟨rfl, hdata⟩
    rw [hinside hdata]
    simp [unpackLoop, unpackByte, unpackInside]

/-! ### The frames that are accepted -/

/-- What the check of the stored bytes comes to. -/
theorem dataunpack_frameOf_eq (n : ℤ) (out : List UInt8) (hn : 0 < n) :
    dataunpack (frameOf l₁ l₂ d ++ rest) = some (n, out) ↔
      (∃ p, p ≠ [] ∧ n = p.length ∧ out = p ++ bytesLE32 (fcs p)) ∧
        unpackLoop (lengthField (frameOf l₁ l₂ d)) .outsideFrame
          (0x7e :: 0x7e :: (d ++ 0x7e :: 0x7e :: rest)) [] = some (some out) := by
  have hheader : ¬ (byteAt (frameOf l₁ l₂ d ++ rest) 0 ≠ 0x55 ∧
      byteAt (frameOf l₁ l₂ d ++ rest) 1 ≠ 0xAA) := fun h => h.1 rfl
  have hfield : (wordLE16 (byteAt (frameOf l₁ l₂ d ++ rest) 2)
      (byteAt (frameOf l₁ l₂ d ++ rest) 3)).toNat = lengthField (frameOf l₁ l₂ d) := rfl
  have hbytes : (frameOf l₁ l₂ d ++ rest).drop 4 =
      0x7e :: 0x7e :: (d ++ 0x7e :: 0x7e :: rest) := by
    simp [frameOf]
  rw [dataunpack, if_neg hheader]
  dsimp only
  rw [hfield, hbytes]
  generalize unpackLoop _ _ _ _ = result
  rcases result with _ | _ | data
  · simp
  · simp
    omega
  · dsimp only
    constructor
    · intro h
      split_ifs at h with hshort hcrc
      · obtain ⟨rfl, rfl⟩ := Prod.mk.inj (Option.some.inj h)
        refine ⟨⟨data.take (data.length - 4), ?_, ?_, ?_⟩, rfl⟩
        · rw [Ne, List.take_eq_nil_iff]
          rintro (hzero | rfl)
          · omega
          · exact hshort (by decide)
        · rw [List.length_take]
          omega
        · rw [hcrc, List.take_append_drop]
      · obtain ⟨rfl, -⟩ := Prod.mk.inj (Option.some.inj h)
        exact absurd hn (by decide)
    · rintro ⟨⟨p, -, rfl, rfl⟩, hdata⟩
      obtain rfl := Option.some.inj (Option.some.inj hdata)
      have hlen : (p ++ bytesLE32 (fcs p)).length = p.length + 4 := by simp
      rw [hlen, if_neg (by omega), Nat.add_sub_cancel, List.take_left, List.drop_left, if_pos rfl]
      simp

/-- The loop stores a payload with its check value in two ways. -/
theorem unpackLoop_content_iff (hd : d ≠ []) (hflag : (0x7e : UInt8) ∉ d) {p : List UInt8}
    (hp : p ≠ []) (k : ℕ) :
    unpackLoop k .outsideFrame (0x7e :: 0x7e :: (d ++ 0x7e :: 0x7e :: rest)) [] =
        some (some (p ++ bytesLE32 (fcs p))) ↔
      (k = d.length + 4 ∧ d = content p ∨ k ≤ d.length + 2 ∧
        (d.take (k - 2) = content p ∨ d.take (k - 2) = content p ++ [0x7d])) := by
  rcases Nat.lt_or_ge k 2 with hk | hk
  · -- the length field does not even take in the first flags
    have hend : unpackLoop k .outsideFrame (0x7e :: 0x7e :: (d ++ 0x7e :: 0x7e :: rest)) [] =
        some (some []) := by
      obtain rfl | rfl : k = 0 ∨ k = 1 := by omega
      · rfl
      · rfl
    rw [hend, Nat.sub_eq_zero_of_le hk.le, List.take_zero]
    apply iff_of_false (by simp [hp])
    rintro (⟨hk', -⟩ | ⟨-, hcontent | hcontent⟩)
    · omega
    · exact content_ne_nil p hcontent.symm
    · simp at hcontent
  · obtain ⟨m, rfl⟩ := Nat.exists_eq_add_of_le' hk
    have hflags : unpackLoop (m + 2) .outsideFrame
        (0x7e :: 0x7e :: (d ++ 0x7e :: 0x7e :: rest)) [] =
          unpackLoop m .outsideFrame (d ++ 0x7e :: 0x7e :: rest) [] := rfl
    rw [hflags, Nat.add_sub_cancel]
    rcases Nat.lt_or_ge d.length m with hm | hm
    · obtain ⟨j, rfl⟩ := Nat.exists_eq_add_of_lt hm
      rw [Nat.add_assoc, unpackLoop_closing hd hflag]
      refine ⟨fun h => .inl ⟨by omega, h.2⟩, ?_⟩
      rintro (⟨hj, hcontent⟩ | ⟨hj, -⟩)
      · exact ⟨by omega, hcontent⟩
      · omega
    · rw [unpackLoop_within hm hflag]
      refine ⟨fun h => .inr ⟨by omega, h⟩, ?_⟩
      rintro (⟨hm', -⟩ | ⟨-, hcontent⟩)
      · omega
      · exact hcontent

/-- A frame with a body is accepted in two ways. -/
theorem dataunpack_body_iff (hd : d ≠ []) (hflag : (0x7e : UInt8) ∉ d) (n : ℤ)
    (out : List UInt8) (hn : 0 < n) :
    dataunpack (frameOf l₁ l₂ d ++ rest) = some (n, out) ↔
      ∃ p, p ≠ [] ∧ n = p.length ∧ out = p ++ bytesLE32 (fcs p) ∧
        (lengthField (frameOf l₁ l₂ d) = d.length + 4 ∧ d = content p ∨
          lengthField (frameOf l₁ l₂ d) ≤ d.length + 2 ∧
            (covered (frameOf l₁ l₂ d) = content p ∨
              covered (frameOf l₁ l₂ d) = content p ++ [0x7d])) := by
  rw [dataunpack_frameOf_eq n out hn, covered, body_frameOf]
  constructor
  · rintro ⟨⟨p, hp, hlen, rfl⟩, hdata⟩
    exact ⟨p, hp, hlen, rfl, (unpackLoop_content_iff hd hflag hp _).1 hdata⟩
  · rintro ⟨p, hp, hlen, rfl, hframe⟩
    exact ⟨⟨p, hp, hlen, rfl⟩, (unpackLoop_content_iff hd hflag hp _).2 hframe⟩

/-- A frame that is what `datapack` makes has its length field right. -/
theorem frameOf_eq_datapack {p : List UInt8} (hlen : (content p).length + 4 < 2 ^ 16)
    (hfield : lengthField (frameOf l₁ l₂ (content p)) = (content p).length + 4) :
    frameOf l₁ l₂ (content p) = datapack p := by
  have hword : wordLE16 l₁ l₂ = frameField p := by
    apply UInt16.toNat_inj.mp
    rw [frameField, UInt16.toNat_ofNat', Nat.mod_eq_of_lt hlen]
    exact hfield
  obtain ⟨hlow, hhigh⟩ := wordLE16_inj (hword.trans (wordLE16_bytes _).symm)
  rw [datapack_eq, ← hlow, ← hhigh]
  rfl

/-- The length field of a frame that is accepted early is not that of its payload. -/
theorem EndsEarly.ne_datapack {w p : List UInt8} (h : EndsEarly w) (hw : w.length ≤ uartBufSize) :
    w ≠ datapack p := by
  rintro rfl
  have hsize : uartBufSize = 1100 := rfl
  have hlen := length_datapack p
  have hbody : body (datapack p) = content p := by
    rw [datapack_eq]
    exact body_frameOf
  have hearly := h.1
  rw [hbody, lengthField_datapack (by omega)] at hearly
  omega

theorem acceptsPackedOnly_body_iff (hd : d ≠ []) (hflag : (0x7e : UInt8) ∉ d)
    (hlen : (frameOf l₁ l₂ d).length ≤ uartBufSize) :
    AcceptsPackedOnly (frameOf l₁ l₂ d) ↔ ¬ EndsEarly (frameOf l₁ l₂ d) := by
  have hsize : uartBufSize = 1100 := rfl
  have hframe : (frameOf l₁ l₂ d).length = d.length + 8 := length_frameOf
  constructor
  · intro hall hearly
    obtain ⟨hfield, p, hp, hcovered⟩ := id hearly
    rw [body_frameOf] at hfield
    have hpos : (0 : ℤ) < p.length := by exact_mod_cast List.length_pos_iff.2 hp
    have haccept : dataunpack (frameOf l₁ l₂ d ++ []) =
        some ((p.length : ℤ), p ++ bytesLE32 (fcs p)) :=
      (dataunpack_body_iff hd hflag _ _ hpos).2 ⟨p, hp, rfl, rfl, .inr ⟨hfield, hcovered⟩⟩
    exact hearly.ne_datapack hlen (hall [] _ _ haccept hpos)
  · intro hearly rest n out haccept hn
    obtain ⟨p, hp, rfl, rfl, hwhole | hshort⟩ := (dataunpack_body_iff hd hflag n out hn).1 haccept
    · obtain ⟨hfield, rfl⟩ := hwhole
      rw [Int.toNat_natCast, List.take_left]
      exact frameOf_eq_datapack (by omega) hfield
    · refine absurd ⟨?_, p, hp, hshort.2⟩ hearly
      rw [body_frameOf]
      exact hshort.1

/-- Flags are skipped until the first byte that is none. -/
theorem unpackLoop_skip (k n : ℕ) (s : List UInt8) :
    unpackLoop (k + n) .outsideFrame (List.replicate k 0x7e ++ s) [] =
      unpackLoop n .outsideFrame s [] := by
  induction k with
  | zero => simp
  | succ k ih =>
    rw [Nat.add_right_comm, List.replicate_succ, List.cons_append, ← ih]
    rfl

/-- The loop stores at most a byte for each that it reads. -/
theorem length_unpackLoop_le {n : ℕ} {state : LinkState} {inBuf data out : List UInt8}
    (h : unpackLoop n state inBuf data = some (some out)) : out.length ≤ data.length + n := by
  induction n generalizing state inBuf data with
  | zero =>
    obtain rfl : data = out := Option.some.inj (Option.some.inj h)
    exact Nat.le_add_right _ _
  | succ n ih =>
    cases inBuf with
    | nil => cases h
    | cons byte inBuf =>
      rw [unpackLoop] at h
      cases hbyte : unpackByte (n = 1) state byte with
      | none =>
        rw [hbyte] at h
        cases h
      | some next =>
        rw [hbyte] at h
        have hout := unpackByte_length hbyte
        have hrest := ih h
        rw [List.length_append] at hrest
        omega

/-- Behind a frame without a body, a payload may lie that its length field takes in. -/
theorem acceptsPackedOnly_nil_iff :
    AcceptsPackedOnly (frameOf l₁ l₂ []) ↔ lengthField (frameOf l₁ l₂ []) < 9 := by
  have hnil : ∀ p, frameOf l₁ l₂ [] ≠ datapack p := by
    intro p heq
    have hlen := congrArg List.length heq
    rw [length_frameOf, length_datapack] at hlen
    have hpos := List.length_pos_iff.2 (content_ne_nil p)
    rw [List.length_nil] at hlen
    omega
  constructor
  · intro hall
    by_contra hfield
    -- more flags, and then the payload
    obtain ⟨k, hk⟩ := Nat.exists_eq_add_of_le' (not_lt.1 hfield)
    refine hnil _ (hall (List.replicate k 0x7e ++ content [1]) 1 ([1] ++ bytesLE32 (fcs [1])) ?_
      (by decide))
    rw [dataunpack_frameOf_eq _ _ (by decide), hk]
    refine ⟨⟨[1], by decide, rfl, rfl⟩, ?_⟩
    have hflags : (0x7e : UInt8) :: 0x7e :: ([] ++ 0x7e :: 0x7e ::
        (List.replicate k 0x7e ++ content [1])) =
          List.replicate (k + 4) 0x7e ++ content [1] := by
      rw [show k + 4 = k + 1 + 1 + 1 + 1 by rfl]
      simp [List.replicate_succ]
    rw [hflags, show k + 9 = k + 4 + 5 by omega, unpackLoop_skip]
    decide
  · intro hfield rest n out haccept hn
    obtain ⟨⟨p, hp, rfl, rfl⟩, hloop⟩ := (dataunpack_frameOf_eq n out hn).1 haccept
    have hpos := List.length_pos_iff.2 hp
    have hshort : (p ++ bytesLE32 (fcs p)).length ≤ lengthField (frameOf l₁ l₂ []) - 4 := by
      rcases Nat.lt_or_ge (lengthField (frameOf l₁ l₂ [])) 4 with hk | hk
      · -- the loop is too short for a check value
        have hle := length_unpackLoop_le hloop
        rw [List.length_append, length_bytesLE32, List.length_nil] at hle
        omega
      · obtain ⟨k, hk⟩ := Nat.exists_eq_add_of_le hk
        have hskip := unpackLoop_skip 4 k rest
        rw [hk] at hloop ⊢
        have hle := length_unpackLoop_le (hskip.symm.trans hloop)
        rwa [List.length_nil, Nat.zero_add, ← Nat.add_sub_cancel_left 4 k] at hle
    rw [List.length_append, length_bytesLE32] at hshort
    omega

/-- A frame that is handed over is accepted only as what `datapack` makes exactly when its length
field neither ends within the frame behind a payload nor reaches behind a frame without a
body. -/
theorem handedOver_acceptsPackedOnly_iff {w : List UInt8} (h : HandedOver w) :
    AcceptsPackedOnly w ↔ ¬ EndsEarly w ∧ ¬ ReachesBehind w := by
  obtain ⟨⟨l₁, l₂, d, hflag, rfl⟩, hlen⟩ := handedOver_iff.mp h
  rw [ReachesBehind, body_frameOf]
  rcases eq_or_ne d [] with rfl | hd
  · have hearly : ¬ EndsEarly (frameOf l₁ l₂ []) := by
      rintro ⟨-, p, -, hcovered⟩
      rw [covered, body_frameOf, List.take_nil] at hcovered
      rcases hcovered with hcontent | hcontent
      · exact content_ne_nil p hcontent.symm
      · simp at hcontent
    rw [acceptsPackedOnly_nil_iff, and_iff_right hearly, and_iff_right rfl, not_le]
  · rw [acceptsPackedOnly_body_iff hd hflag hlen]
    exact (and_iff_left fun h => hd h.1).symm

/-- The frame of a byte is handed over, and accepted as itself only. -/
theorem handedOver_acceptsPackedOnly_datapack :
    HandedOver (datapack [1]) ∧
      (AcceptsPackedOnly (datapack [1]) ↔
        ¬ EndsEarly (datapack [1]) ∧ ¬ ReachesBehind (datapack [1])) := by
  have hhanded : HandedOver (datapack [1]) :=
    handedOver_iff.mpr ⟨framed_datapack [1], by decide⟩
  exact ⟨hhanded, handedOver_acceptsPackedOnly_iff hhanded⟩

/-- The frame of a byte with a length field of 7, which leaves out the flags that close it, is
accepted. -/
theorem not_acceptsPackedOnly_short : ¬ ∀ w, HandedOver w → AcceptsPackedOnly w := by
  intro h
  have hhanded : HandedOver (frameOf 7 0 (content [1])) :=
    Framed.handedOver ⟨7, 0, content [1], flag_notMem_content [1], rfl⟩ (by decide)
  have hearly : EndsEarly (frameOf 7 0 (content [1])) :=
    ⟨by decide, [1], by decide, .inl (by decide)⟩
  have hpacked := h _ hhanded [] 1 ([1] ++ bytesLE32 (fcs [1])) (by decide) (by decide)
  exact hearly.ne_datapack (by decide) hpacked

end PanelTester.Uart
