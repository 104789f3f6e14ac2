import Mathlib.Tactic

/-!
Circular buffers. A buffer of `cap` cells holds a queue as the `len` cells that
follow the read index, wrapping at the end. `blit` is the copy of a block into
a buffer, `put` the copy that continues at cell 0 when the block runs over the
end; `put` at the write index appends to the queue, and moving the read index
drops from its front.
-/

namespace PanelTester.Library

variable {α : Type*}

/-- Copy `src` over the cells of `dst` from `off` on. -/
def blit (dst : List α) (off : ℕ) (src : List α) : List α :=
  dst.take off ++ src ++ dst.drop (off + src.length)

theorem length_blit {dst src : List α} {off : ℕ} (h : off + src.length ≤ dst.length) :
    (blit dst off src).length = dst.length := by
  simp [blit]
  omega

theorem getElem?_blit {dst src : List α} {off : ℕ} (h : off + src.length ≤ dst.length)
    (i : ℕ) :
    (blit dst off src)[i]? =
      if off ≤ i ∧ i < off + src.length then src[i - off]? else dst[i]? := by
  have htake : (dst.take off).length = off := by simp; omega
  rw [blit]
  by_cases hlow : i < off
  · rw [List.append_assoc, List.getElem?_append_left (by omega), List.getElem?_take_of_lt hlow,
      if_neg (by omega)]
  · rw [List.append_assoc, List.getElem?_append_right (by omega), htake]
    by_cases hmid : i < off + src.length
    · rw [List.getElem?_append_left (by omega), if_pos ⟨by omega, hmid⟩]
    · rw [List.getElem?_append_right (by omega), List.getElem?_drop, if_neg (by omega)]
      congr 1
      omega

/-- An index at most once past the end, brought back into the buffer. -/
def wrap (cap i : ℕ) : ℕ := if i < cap then i else i - cap

theorem wrap_lt {cap i : ℕ} (h : i < 2 * cap) : wrap cap i < cap := by
  rw [wrap]
  split <;> omega

theorem mod_eq_wrap {cap i : ℕ} (h : i < 2 * cap) : i % cap = wrap cap i := by
  rw [wrap]
  split
  · exact Nat.mod_eq_of_lt ‹_›
  · rw [Nat.mod_eq_sub_mod (by omega), Nat.mod_eq_of_lt (by omega)]

/-- The queue held by a circular buffer: `len` cells from `read` on. -/
def ringContent (buf : List α) (read len : ℕ) : List α :=
  (buf.drop read ++ buf.take read).take len

theorem length_ringContent {buf : List α} {read len : ℕ} (hread : read ≤ buf.length)
    (hlen : len ≤ buf.length) : (ringContent buf read len).length = len := by
  simp [ringContent]
  omega

theorem getElem?_ringContent {buf : List α} {read len i : ℕ} (hread : read < buf.length)
    (hlen : len ≤ buf.length) (hi : i < len) :
    (ringContent buf read len)[i]? = buf[wrap buf.length (read + i)]? := by
  rw [ringContent, wrap]
  rw [List.getElem?_take_of_lt hi]
  split
  · rw [List.getElem?_append_left (by simp; omega), List.getElem?_drop]
  · rw [List.getElem?_append_right (by simp; omega), List.length_drop,
      List.getElem?_take_of_lt (by omega)]
    congr 1
    omega

/-- Copy `src` into a circular buffer from `off` on, continuing at cell 0. -/
def put (buf : List α) (off : ℕ) (src : List α) : List α :=
  if off + src.length ≤ buf.length then blit buf off src
  else blit (blit buf off (src.take (buf.length - off))) 0 (src.drop (buf.length - off))

theorem length_put {buf src : List α} {off : ℕ} (hoff : off ≤ buf.length)
    (hsrc : src.length ≤ buf.length) : (put buf off src).length = buf.length := by
  rw [put]
  split
  · exact length_blit ‹_›
  · rw [length_blit, length_blit]
    · simp; omega
    · rw [length_blit] <;> simp <;> omega

theorem getElem?_put {buf src : List α} {off i : ℕ} (hoff : off < buf.length)
    (hsrc : src.length ≤ buf.length) (hi : i < buf.length) :
    (put buf off src)[i]? =
      if wrap buf.length (i + (buf.length - off)) < src.length
      then src[wrap buf.length (i + (buf.length - off))]? else buf[i]? := by
  rw [put, wrap]
  split
  · rw [getElem?_blit ‹_›]
    split_ifs <;> first | rfl | omega | (congr 1; omega)
  · have hfirst : off + (src.take (buf.length - off)).length ≤ buf.length := by simp; omega
    have hsecond : 0 + (src.drop (buf.length - off)).length ≤
        (blit buf off (src.take (buf.length - off))).length := by
      rw [length_blit hfirst]; simp; omega
    rw [getElem?_blit hsecond, getElem?_blit hfirst, List.getElem?_drop, List.length_drop,
      List.length_take]
    split_ifs <;>
      first
      | rfl
      | omega
      | (rw [List.getElem?_take_of_lt (by omega)]; congr 1; omega)
      | (congr 1; omega)

/-- Putting a block at the write index appends it to the queue. -/
theorem ringContent_put {buf src : List α} {read len : ℕ} (hread : read < buf.length)
    (hfit : len + src.length ≤ buf.length) :
    ringContent (put buf (wrap buf.length (read + len)) src) read (len + src.length) =
      ringContent buf read len ++ src := by
  have hoff : wrap buf.length (read + len) < buf.length := wrap_lt (by omega)
  have hput := length_put hoff.le (show src.length ≤ buf.length by omega)
  have hlen := length_ringContent hread.le (show len ≤ buf.length by omega)
  apply List.ext_getElem?
  intro i
  by_cases hi : i < len + src.length
  · rw [getElem?_ringContent (by omega) (by omega) hi, hput,
      getElem?_put hoff (by omega) (wrap_lt (by omega))]
    by_cases hold : i < len
    · rw [List.getElem?_append_left (by omega),
        getElem?_ringContent hread (by omega) hold, if_neg]
      unfold wrap
      split_ifs <;> omega
    · have hidx : wrap buf.length (wrap buf.length (read + i) +
          (buf.length - wrap buf.length (read + len))) = i - len := by
        unfold wrap
        split_ifs <;> omega
      rw [List.getElem?_append_right (by omega), hidx, hlen, if_pos (by omega)]
  · rw [List.getElem?_eq_none, List.getElem?_eq_none]
    · simp; omega
    · rw [length_ringContent] <;> omega

/-- Advancing the read index drops the oldest cells of the queue. -/
theorem ringContent_drop {buf : List α} {read len n : ℕ} (hread : read < buf.length)
    (hlen : len ≤ buf.length) (hn : n ≤ len) :
    ringContent buf (wrap buf.length (read + n)) (len - n) =
      (ringContent buf read len).drop n := by
  have hoff : wrap buf.length (read + n) < buf.length := wrap_lt (by omega)
  apply List.ext_getElem?
  intro i
  by_cases hi : i < len - n
  · rw [getElem?_ringContent hoff (by omega) hi, List.getElem?_drop,
      getElem?_ringContent hread hlen (by omega)]
    congr 1
    unfold wrap
    split_ifs <;> omega
  · rw [List.getElem?_eq_none, List.getElem?_eq_none]
    · rw [List.length_drop, length_ringContent] <;> omega
    · rw [length_ringContent] <;> omega

/-- The oldest `n` cells of the queue lie in the buffer as one block, or as two
when they run over its end. -/
theorem ringContent_take {buf : List α} {read len n : ℕ} (hread : read ≤ buf.length)
    (hlen : len ≤ buf.length) (hn : n ≤ len) :
    (ringContent buf read len).take n =
      if read + n ≤ buf.length then (buf.drop read).take n
      else (buf.drop read).take (buf.length - read) ++ buf.take (n - (buf.length - read)) := by
  rw [ringContent]
  rw [List.take_take, Nat.min_eq_left hn, List.take_append, List.length_drop]
  split
  · rw [show n - (buf.length - read) = 0 by omega, List.take_zero, List.append_nil]
  · rw [List.take_take, Nat.min_eq_left (by omega)]
    congr 1
    rw [List.take_of_length_le (by simp; omega), List.take_of_length_le (by simp)]

end PanelTester.Library
