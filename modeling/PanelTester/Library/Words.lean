import Mathlib.Tactic

/-!
Words as byte strings. A 16- or 32-bit word is written high byte first, as
network code does, and read back with shifts and disjunctions. The lemmas turn
the bit operations into arithmetic once, so that no later proof sees them.
-/

namespace PanelTester.Library

/-- The byte of a buffer at an index, zero outside it. -/
def byteAt (buf : List UInt8) (i : ℕ) : UInt8 := buf.getD i 0

/-- A 16-bit word, high byte first. -/
def bytesBE16 (w : UInt16) : List UInt8 := [(w >>> 8).toUInt8, w.toUInt8]

/-- The 16-bit word with the given high and low byte. -/
def wordBE16 (hi lo : UInt8) : UInt16 := hi.toUInt16 <<< 8 ||| lo.toUInt16

/-- A 32-bit word, high byte first. -/
def bytesBE32 (w : UInt32) : List UInt8 :=
  [(w >>> 24).toUInt8, (w >>> 16).toUInt8, (w >>> 8).toUInt8, w.toUInt8]

/-- The 32-bit word with the given bytes, highest first. -/
def wordBE32 (b₃ b₂ b₁ b₀ : UInt8) : UInt32 :=
  b₃.toUInt32 <<< 24 ||| b₂.toUInt32 <<< 16 ||| b₁.toUInt32 <<< 8 ||| b₀.toUInt32

@[simp] theorem length_bytesBE16 (w : UInt16) : (bytesBE16 w).length = 2 := rfl

@[simp] theorem length_bytesBE32 (w : UInt32) : (bytesBE32 w).length = 4 := rfl

theorem wordBE16_toNat (hi lo : UInt8) :
    (wordBE16 hi lo).toNat = hi.toNat * 256 + lo.toNat := by
  have hhi := hi.toNat_lt
  have hlo := lo.toNat_lt
  have hor := Nat.two_pow_add_eq_or_of_lt (i := 8) hlo hi.toNat
  simp only [wordBE16, UInt16.toNat_or, UInt16.toNat_shiftLeft, UInt8.toNat_toUInt16,
    UInt16.reduceToNat, Nat.reduceMod, Nat.shiftLeft_eq, Nat.reducePow] at hor ⊢
  rw [Nat.mod_eq_of_lt (by omega), Nat.mul_comm, ← hor]

/-- Reading back the two bytes of a word gives the word. -/
@[simp] theorem wordBE16_bytes (w : UInt16) :
    wordBE16 (w >>> 8).toUInt8 w.toUInt8 = w := by
  apply UInt16.toNat_inj.mp
  have hw := w.toNat_lt
  rw [wordBE16_toNat]
  simp only [UInt16.toNat_toUInt8, UInt16.toNat_shiftRight, Nat.shiftRight_eq_div_pow,
    UInt16.reduceToNat, Nat.reduceMod, Nat.reducePow]
  omega

theorem wordBE32_toNat (b₃ b₂ b₁ b₀ : UInt8) :
    (wordBE32 b₃ b₂ b₁ b₀).toNat =
      ((b₃.toNat * 256 + b₂.toNat) * 256 + b₁.toNat) * 256 + b₀.toNat := by
  have h₃ := b₃.toNat_lt
  have h₂ := b₂.toNat_lt
  have h₁ := b₁.toNat_lt
  have h₀ := b₀.toNat_lt
  have hor₂ := Nat.two_pow_add_eq_or_of_lt (i := 24) (b := b₂.toNat * 65536)
    (by omega) b₃.toNat
  have hor₁ := Nat.two_pow_add_eq_or_of_lt (i := 16) (b := b₁.toNat * 256)
    (by omega) (b₃.toNat * 256 + b₂.toNat)
  have hor₀ := Nat.two_pow_add_eq_or_of_lt (i := 8) (b := b₀.toNat)
    (by omega) ((b₃.toNat * 256 + b₂.toNat) * 256 + b₁.toNat)
  simp only [wordBE32, UInt32.toNat_or, UInt32.toNat_shiftLeft, UInt8.toNat_toUInt32,
    UInt32.reduceToNat, Nat.reduceMod, Nat.shiftLeft_eq, Nat.reducePow] at hor₂ hor₁ hor₀ ⊢
  rw [Nat.mod_eq_of_lt (by omega), Nat.mod_eq_of_lt (by omega), Nat.mod_eq_of_lt (by omega),
    Nat.mul_comm b₃.toNat, ← hor₂,
    show 16777216 * b₃.toNat + b₂.toNat * 65536 = 65536 * (b₃.toNat * 256 + b₂.toNat) by ring,
    ← hor₁,
    show 65536 * (b₃.toNat * 256 + b₂.toNat) + b₁.toNat * 256 =
      256 * ((b₃.toNat * 256 + b₂.toNat) * 256 + b₁.toNat) by ring, ← hor₀]
  ring

/-- Reading back the four bytes of a word gives the word. -/
@[simp] theorem wordBE32_bytes (w : UInt32) :
    wordBE32 (w >>> 24).toUInt8 (w >>> 16).toUInt8 (w >>> 8).toUInt8 w.toUInt8 = w := by
  apply UInt32.toNat_inj.mp
  have hw := w.toNat_lt
  rw [wordBE32_toNat]
  simp only [UInt32.toNat_toUInt8, UInt32.toNat_shiftRight, Nat.shiftRight_eq_div_pow,
    UInt32.reduceToNat, Nat.reduceMod, Nat.reducePow]
  omega

/-! ### Low byte first -/

/-- A 16-bit word as it lies in the memory of a little-endian machine. -/
def bytesLE16 (w : UInt16) : List UInt8 := [w.toUInt8, (w >>> 8).toUInt8]

/-- The 16-bit word with the given low and high byte. -/
def wordLE16 (lo hi : UInt8) : UInt16 := wordBE16 hi lo

/-- A 32-bit word as it lies in the memory of a little-endian machine. -/
def bytesLE32 (w : UInt32) : List UInt8 :=
  [w.toUInt8, (w >>> 8).toUInt8, (w >>> 16).toUInt8, (w >>> 24).toUInt8]

/-- The 32-bit word with the given bytes, lowest first. -/
def wordLE32 (b₀ b₁ b₂ b₃ : UInt8) : UInt32 := wordBE32 b₃ b₂ b₁ b₀

/-- The word that lies at an index of the memory, which has no value when it leaves it. -/
def readWord (mem : List UInt8) (i : ℕ) : Option UInt32 :=
  match mem.drop i with
  | b₀ :: b₁ :: b₂ :: b₃ :: _ => some (wordLE32 b₀ b₁ b₂ b₃)
  | _ => none

@[simp] theorem length_bytesLE32 (w : UInt32) : (bytesLE32 w).length = 4 := rfl

@[simp] theorem wordLE32_bytes (w : UInt32) :
    wordLE32 w.toUInt8 (w >>> 8).toUInt8 (w >>> 16).toUInt8 (w >>> 24).toUInt8 = w :=
  wordBE32_bytes w

theorem bytesLE32_wordLE32 (b₀ b₁ b₂ b₃ : UInt8) :
    bytesLE32 (wordLE32 b₀ b₁ b₂ b₃) = [b₀, b₁, b₂, b₃] := by
  have h₀ := b₀.toNat_lt
  have h₁ := b₁.toNat_lt
  have h₂ := b₂.toNat_lt
  have h₃ := b₃.toNat_lt
  have hword : (wordLE32 b₀ b₁ b₂ b₃).toNat =
      ((b₃.toNat * 256 + b₂.toNat) * 256 + b₁.toNat) * 256 + b₀.toNat := wordBE32_toNat _ _ _ _
  have hbyte : ∀ {w : UInt32} {b : UInt8}, w.toNat % 256 = b.toNat → w.toUInt8 = b :=
    fun h => UInt8.toNat_inj.mp ((UInt32.toNat_toUInt8 _).trans h)
  have hshift : ∀ w n : UInt32, n.toNat < 32 → (w >>> n).toNat = w.toNat / 2 ^ n.toNat := by
    intro w n hn
    rw [UInt32.toNat_shiftRight, Nat.mod_eq_of_lt hn, Nat.shiftRight_eq_div_pow]
  rw [bytesLE32]
  congr 1
  · apply hbyte
    omega
  congr 1
  · apply hbyte
    rw [hshift _ _ (by decide), hword, show (8 : UInt32).toNat = 8 from rfl]
    omega
  congr 1
  · apply hbyte
    rw [hshift _ _ (by decide), hword, show (16 : UInt32).toNat = 16 from rfl]
    omega
  congr 1
  · apply hbyte
    rw [hshift _ _ (by decide), hword, show (24 : UInt32).toNat = 24 from rfl]
    omega

/-- A word is read where it was written. -/
theorem readWord_append (front : List UInt8) (w : UInt32) (back : List UInt8) :
    readWord (front ++ (bytesLE32 w ++ back)) front.length = some w := by
  rw [readWord, List.drop_left]
  exact congrArg some (wordLE32_bytes w)

/-- A word that is read stands there. -/
theorem drop_of_readWord {mem : List UInt8} {i : ℕ} {w : UInt32} (h : readWord mem i = some w) :
    mem.drop i = bytesLE32 w ++ mem.drop (i + 4) := by
  rw [readWord] at h
  split at h
  · rename_i b₀ b₁ b₂ b₃ back hdrop
    obtain rfl := Option.some.inj h
    rw [← List.drop_drop, hdrop, bytesLE32_wordLE32]
    rfl
  · exact absurd h.symm (Option.some_ne_none w)

@[simp] theorem wordLE16_bytes (w : UInt16) :
    wordLE16 w.toUInt8 (w >>> 8).toUInt8 = w :=
  wordBE16_bytes w

/-- A word has one low and one high byte. -/
theorem wordLE16_inj {lo hi lo' hi' : UInt8} (h : wordLE16 lo hi = wordLE16 lo' hi') :
    lo = lo' ∧ hi = hi' := by
  have hnat := congrArg UInt16.toNat h
  rw [wordLE16, wordLE16, wordBE16_toNat, wordBE16_toNat] at hnat
  have hlo := lo.toNat_lt
  have hlo' := lo'.toNat_lt
  exact ⟨UInt8.toNat_inj.1 (by omega), UInt8.toNat_inj.1 (by omega)⟩

/-- The high byte of a number below `256 * n` is below `n`. -/
theorem highByte_lt {k n : ℕ} (h : k < 256 * n) (hn : n ≤ 256) :
    ((UInt16.ofNat k >>> 8).toUInt8).toNat < n := by
  have hk : k < 65536 := by omega
  simp only [UInt16.toNat_toUInt8, UInt16.toNat_shiftRight, Nat.shiftRight_eq_div_pow,
    UInt16.reduceToNat, Nat.reduceMod, Nat.reducePow, UInt16.toNat_ofNat']
  omega

end PanelTester.Library
