import PanelTester.Library.Ring
import PanelTester.Library.Steps

/-!
The ring buffer of `ringBuf.h`. Two indices are all it keeps of what is in it, so that it
takes equal indices for an empty buffer. Against the byte queue it stands for, it goes wrong
with the write that fills it to the last byte: the bytes are copied, and none of them can be
read. Every other call does what the queue does.
-/

namespace PanelTester.Common

open Library

/-- `ringbuf_t` -/
structure RingBuf where
  read : ℕ
  write : ℕ
  len : ℕ
  pData : List UInt8
  deriving DecidableEq

/-- `memcpy` to a block of memory, which has no result when it leaves the block. -/
def copyTo (block : List UInt8) (off : ℕ) (src : List UInt8) : Option (List UInt8) :=
  if off + src.length ≤ block.length then some (blit block off src) else none

/-- `memcpy` from a block of memory, which has no result when it leaves the block. -/
def copyFrom (block : List UInt8) (off length : ℕ) : Option (List UInt8) :=
  if off + length ≤ block.length then some ((block.drop off).take length) else none

/-- `ringBufInit` on a buffer that is there. -/
def ringBufInit (length : ℕ) : Option RingBuf :=
  if length ≤ 2 then none
  else some { read := 0, write := 0, len := length, pData := List.replicate length 0 }

def ringBufClear (b : RingBuf) : RingBuf :=
  { b with read := 0, write := 0, pData := List.replicate b.len 0 }

def ringBufAvailableBytesForWrite (b : RingBuf) : ℕ :=
  if b.write > b.read then b.len - b.write + b.read
  else if b.write = b.read then b.len
  else b.read - b.write

def ringBufAvailableBytesForRead (b : RingBuf) : ℕ :=
  if b.write > b.read then b.write - b.read
  else if b.write = b.read then 0
  else b.len - b.read + b.write

/-- The sum of an index and a length is an `unsigned int`. -/
def nextIndex (i length : ℕ) : ℕ := (i + length) % 2 ^ 32

/-- `ringBufWrite` of `length` bytes: what it returns, and the buffer behind it. -/
def ringBufWrite (b : RingBuf) (pData : List UInt8) : Option (ℕ × RingBuf) :=
  let length := pData.length
  if ringBufAvailableBytesForWrite b < length then some (0, b)
  else
    let nextWrite := nextIndex b.write length
    if nextWrite ≥ b.len then
      let fstSegLen := b.len - b.write
      let secSegLen := length - fstSegLen
      (copyTo b.pData b.write (pData.take fstSegLen)).bind fun fst =>
        (if secSegLen > 0 then copyTo fst 0 (pData.drop fstSegLen) else some fst).map fun snd =>
          (length, { b with pData := snd, write := secSegLen })
    else
      (copyTo b.pData b.write pData).map fun block =>
        (length, { b with pData := block, write := nextWrite })

/-- What `ringBufRead` and `ringBufClone` copy out, and the index behind it. -/
def ringBufCopy (b : RingBuf) (length : ℕ) : Option (List UInt8 × ℕ) :=
  let nextRead := nextIndex b.read length
  if nextRead ≥ b.len then
    let fstSegLen := b.len - b.read
    let secSegLen := length - fstSegLen
    (copyFrom b.pData b.read fstSegLen).bind fun fst =>
      (if secSegLen > 0 then copyFrom b.pData 0 secSegLen else some []).map fun snd =>
        (fst ++ snd, secSegLen)
  else (copyFrom b.pData b.read length).map fun bytes => (bytes, nextRead)

/-- `ringBufRead`: what it returns, the bytes it copies out, and the buffer behind it. -/
def ringBufRead (b : RingBuf) (length : ℕ) : Option (ℕ × List UInt8 × RingBuf) :=
  if ringBufAvailableBytesForRead b < length then some (0, [], b)
  else
    (ringBufCopy b length).map fun (bytes, nextRead) =>
      (length, bytes, { b with read := nextRead })

/-- `ringBufClone`: what it returns, and the bytes it copies out. -/
def ringBufClone (b : RingBuf) (length : ℕ) : Option (ℕ × List UInt8) :=
  if ringBufAvailableBytesForRead b < length then some (0, [])
  else (ringBufCopy b length).map fun (bytes, _) => (length, bytes)

/-! ### What is in the buffer -/

/-- The indices are within the buffer. -/
structure RingBuf.Valid (b : RingBuf) : Prop where
  read : b.read < b.len
  write : b.write < b.len
  block : b.pData.length = b.len

/-- The bytes that can be read, oldest first. -/
def RingBuf.contents (b : RingBuf) : List UInt8 :=
  ringContent b.pData b.read (ringBufAvailableBytesForRead b)

variable {b : RingBuf}

theorem available_add (h : b.Valid) :
    ringBufAvailableBytesForRead b + ringBufAvailableBytesForWrite b = b.len := by
  have hread := h.read
  have hwrite := h.write
  rw [ringBufAvailableBytesForRead, ringBufAvailableBytesForWrite]
  split_ifs <;> omega

theorem availableForRead_lt (h : b.Valid) : ringBufAvailableBytesForRead b < b.len := by
  have hread := h.read
  have hwrite := h.write
  rw [ringBufAvailableBytesForRead]
  split_ifs <;> omega

theorem write_eq (h : b.Valid) :
    b.write = wrap b.len (b.read + ringBufAvailableBytesForRead b) := by
  have hread := h.read
  have hwrite := h.write
  rw [ringBufAvailableBytesForRead, wrap]
  split_ifs <;> omega

theorem length_contents (h : b.Valid) : b.contents.length = ringBufAvailableBytesForRead b :=
  length_ringContent (h.block.symm ▸ h.read.le) (h.block.symm ▸ (availableForRead_lt h).le)

/-- How much can be read with the indices `length` bytes apart. -/
theorem availableForRead_of_write (length : ℕ) (hread : b.read < b.len) (hlength : length < b.len)
    (hwrite : b.write = wrap b.len (b.read + length)) :
    ringBufAvailableBytesForRead b = length := by
  rw [ringBufAvailableBytesForRead]
  rw [wrap] at hwrite
  split_ifs at hwrite ⊢ <;> omega

theorem ringBufInit_valid {length : ℕ} (h : 2 < length) :
    ∃ b, ringBufInit length = some b ∧ b.Valid ∧ b.len = length ∧ b.contents = [] := by
  refine ⟨_, if_neg (by omega), ⟨?_, ?_, List.length_replicate⟩, rfl, rfl⟩
  · show 0 < length
    omega
  · show 0 < length
    omega

theorem ringBufClear_valid (h : b.Valid) :
    (ringBufClear b).Valid ∧ (ringBufClear b).contents = [] :=
  ⟨⟨Nat.zero_lt_of_lt h.read, Nat.zero_lt_of_lt h.read, List.length_replicate⟩, rfl⟩

/-! ### The copies -/

theorem copyTo_eq {block src : List UInt8} {off : ℕ} (h : off + src.length ≤ block.length) :
    copyTo block off src = some (blit block off src) :=
  if_pos h

theorem copyFrom_eq {block : List UInt8} {off length : ℕ} (h : off + length ≤ block.length) :
    copyFrom block off length = some ((block.drop off).take length) :=
  if_pos h

theorem nextIndex_eq {i length : ℕ} (h : i + length < 2 ^ 32) : nextIndex i length = i + length :=
  Nat.mod_eq_of_lt h

/-- Both branches of a write copy the bytes to the write index, and on at the start. -/
theorem ringBufWrite_eq (h : b.Valid) {pData : List UInt8}
    (hfree : pData.length ≤ ringBufAvailableBytesForWrite b)
    (hsum : b.write + pData.length < 2 ^ 32) :
    ringBufWrite b pData = some (pData.length, { b with
      pData := put b.pData b.write pData
      write := wrap b.len (b.write + pData.length) }) := by
  have hwrite := h.write
  have hblock := h.block
  have hfits : pData.length ≤ b.len := hfree.trans (by have := available_add h; omega)
  rw [ringBufWrite, put, wrap]
  rw [if_neg (by omega), nextIndex_eq hsum]
  by_cases hin : b.write + pData.length < b.len
  · rw [if_neg (by omega), copyTo_eq (by omega), if_pos hin, if_pos (by omega)]
    rfl
  · have hfst : (pData.take (b.len - b.write)).length = b.len - b.write := by
      rw [List.length_take]
      omega
    have hlength : (blit b.pData b.write (pData.take (b.len - b.write))).length = b.len := by
      rw [length_blit (by omega), hblock]
    have hcopy : copyTo b.pData b.write (pData.take (b.len - b.write)) =
        some (blit b.pData b.write (pData.take (b.len - b.write))) := copyTo_eq (by omega)
    have hnext : pData.length - (b.len - b.write) = b.write + pData.length - b.len := by omega
    rw [if_pos (by omega), if_neg hin, hblock]
    simp only [hcopy, hnext, Option.bind_some]
    by_cases hexact : b.write + pData.length = b.len
    · rw [if_neg (by omega), if_pos (by omega), List.take_of_length_le (by omega)]
      rfl
    · rw [if_pos (by omega), if_neg (by omega),
        copyTo_eq (by rw [hlength, List.length_drop]; omega)]
      rfl

/-- Both branches of a copy take the oldest bytes. -/
theorem ringBufCopy_eq (h : b.Valid) {length : ℕ} (hready : length ≤ ringBufAvailableBytesForRead b)
    (hsum : b.read + length < 2 ^ 32) :
    ringBufCopy b length = some (b.contents.take length, wrap b.len (b.read + length)) := by
  have hread := h.read
  have hblock := h.block
  have hlt := availableForRead_lt h
  rw [RingBuf.contents, ringContent_take (by omega) (by omega) hready]
  rw [ringBufCopy, wrap]
  rw [nextIndex_eq hsum]
  by_cases hin : b.read + length < b.len
  · rw [if_neg (by omega), copyFrom_eq (by omega), if_pos hin, if_pos (by omega)]
    rfl
  · have hnext : length - (b.len - b.read) = b.read + length - b.len := by omega
    have hcopy : copyFrom b.pData b.read (b.len - b.read) =
        some ((b.pData.drop b.read).take (b.len - b.read)) := copyFrom_eq (by omega)
    rw [if_pos (by omega), if_neg hin, hblock]
    simp only [hcopy, hnext, Option.bind_some]
    by_cases hexact : b.read + length = b.len
    · rw [if_neg (by omega), if_pos (by omega), show b.len - b.read = length by omega]
      rw [Option.map_some, List.append_nil]
    · rw [if_pos (by omega), if_neg (by omega), copyFrom_eq (by omega), List.drop_zero]
      rfl

/-- An index that runs past the 32 bits makes the copy leave the buffer. -/
theorem ringBufWrite_eq_none (h : b.Valid) (hlen : b.len < 2 ^ 32) {pData : List UInt8}
    (hfree : pData.length ≤ ringBufAvailableBytesForWrite b)
    (hsum : 2 ^ 32 ≤ b.write + pData.length) : ringBufWrite b pData = none := by
  have hwrite := h.write
  have hblock := h.block
  have hfits : pData.length ≤ b.len := hfree.trans (by have := available_add h; omega)
  have hnext : nextIndex b.write pData.length = b.write + pData.length - 2 ^ 32 := by
    rw [nextIndex]
    omega
  have hcopy : copyTo b.pData b.write pData = none := if_neg (by omega)
  rw [ringBufWrite]
  rw [if_neg (by omega), hnext, if_neg (by omega), hcopy]
  rfl

theorem ringBufCopy_eq_none (h : b.Valid) (hlen : b.len < 2 ^ 32) {length : ℕ}
    (hready : length ≤ ringBufAvailableBytesForRead b) (hsum : 2 ^ 32 ≤ b.read + length) :
    ringBufCopy b length = none := by
  have hread := h.read
  have hblock := h.block
  have hlt := availableForRead_lt h
  have hnext : nextIndex b.read length = b.read + length - 2 ^ 32 := by
    rw [nextIndex]
    omega
  have hcopy : copyFrom b.pData b.read length = none := if_neg (by omega)
  rw [ringBufCopy]
  rw [hnext, if_neg (by omega), hcopy]
  rfl

/-! ### The calls -/

/-- A write that leaves a byte free appends its bytes. -/
theorem ringBufWrite_contents (h : b.Valid) (pData : List UInt8)
    (hfree : pData.length < ringBufAvailableBytesForWrite b)
    (hsum : b.write + pData.length < 2 ^ 32) :
    ∃ b', ringBufWrite b pData = some (pData.length, b') ∧ b'.Valid ∧ b'.len = b.len ∧
      b'.contents = b.contents ++ pData := by
  have hwrite := h.write
  have hblock := h.block
  have hadd := available_add h
  have hindex : wrap b.len (b.write + pData.length) =
      wrap b.len (b.read + (ringBufAvailableBytesForRead b + pData.length)) := by
    have hread := h.read
    conv_lhs => rw [write_eq h]
    unfold wrap
    split_ifs <;> omega
  refine ⟨_, ringBufWrite_eq h hfree.le hsum, ⟨h.read, ?_, ?_⟩, rfl, ?_⟩
  · exact wrap_lt (by omega)
  · show (put b.pData b.write pData).length = b.len
    rw [length_put (by omega) (by omega), hblock]
  · have hready := availableForRead_of_write (b := { b with
      pData := put b.pData b.write pData, write := wrap b.len (b.write + pData.length) })
      (ringBufAvailableBytesForRead b + pData.length) h.read (by show _ < b.len; omega) hindex
    have hput := @ringContent_put _ _ pData _ _ (hblock.symm ▸ h.read)
      (show ringBufAvailableBytesForRead b + pData.length ≤ b.pData.length by omega)
    rw [hblock, ← write_eq h] at hput
    rw [RingBuf.contents, hready]
    exact hput

/-- A write that leaves no byte free leaves nothing to be read. -/
theorem ringBufWrite_full (h : b.Valid) {pData : List UInt8}
    (hfree : pData.length = ringBufAvailableBytesForWrite b)
    (hsum : b.write + pData.length < 2 ^ 32) :
    ∃ b', ringBufWrite b pData = some (pData.length, b') ∧ ringBufAvailableBytesForRead b' = 0 := by
  refine ⟨_, ringBufWrite_eq h hfree.le hsum, ?_⟩
  have hread := h.read
  have hadd := available_add h
  have hindex : wrap b.len (b.write + pData.length) = b.read := by
    have hwrite := write_eq h
    rw [wrap] at hwrite ⊢
    split_ifs at hwrite ⊢ <;> omega
  show (if wrap b.len (b.write + pData.length) > b.read then _ else if
    wrap b.len (b.write + pData.length) = b.read then 0 else _) = 0
  rw [hindex, if_neg (lt_irrefl _), if_pos rfl]

/-- A read takes the oldest bytes out. -/
theorem ringBufRead_contents (h : b.Valid) {length : ℕ}
    (hready : length ≤ ringBufAvailableBytesForRead b) (hsum : b.read + length < 2 ^ 32) :
    ∃ b', ringBufRead b length = some (length, b.contents.take length, b') ∧ b'.Valid ∧
      b'.len = b.len ∧ b'.contents = b.contents.drop length := by
  have hread := h.read
  have hblock := h.block
  have hlt := availableForRead_lt h
  have hperform : ringBufRead b length =
      some (length, b.contents.take length, { b with read := wrap b.len (b.read + length) }) := by
    rw [ringBufRead]
    rw [if_neg (by omega), ringBufCopy_eq h hready hsum]
    rfl
  have hindex : wrap b.len (b.read + length) < b.len := wrap_lt (by omega)
  refine ⟨_, hperform, ⟨hindex, h.write, h.block⟩, rfl, ?_⟩
  have hready' := availableForRead_of_write (b := { b with read := wrap b.len (b.read + length) })
    (ringBufAvailableBytesForRead b - length) hindex (by show _ < b.len; omega) (by
      show b.write = wrap b.len (wrap b.len (b.read + length) + _)
      conv_lhs => rw [write_eq h]
      unfold wrap
      split_ifs <;> omega)
  have hdrop := ringContent_drop (hblock.symm ▸ h.read) (by omega) hready
  rw [hblock] at hdrop
  rw [RingBuf.contents, hready']
  exact hdrop

theorem ringBufClone_contents (h : b.Valid) {length : ℕ}
    (hready : length ≤ ringBufAvailableBytesForRead b) (hsum : b.read + length < 2 ^ 32) :
    ringBufClone b length = some (length, b.contents.take length) := by
  rw [ringBufClone]
  rw [if_neg (by omega), ringBufCopy_eq h hready hsum]
  rfl

/-! ### A run -/

/-- A call on a buffer. -/
inductive Call
  | write (pData : List UInt8)
  | read (length : ℕ)
  | clone (length : ℕ)
  | clear
  deriving DecidableEq

/-- What a call returns, and the bytes it copies out. -/
abbrev Reply := ℕ × List UInt8

def Call.length : Call → ℕ
  | .write pData => pData.length
  | .read length => length
  | .clone length => length
  | .clear => 0

/-- A call on the buffer, which has no result when a copy leaves the buffer. -/
def RingBuf.perform (b : RingBuf) : Call → Option (Reply × RingBuf)
  | .write pData => (ringBufWrite b pData).map fun (ret, b') => ((ret, []), b')
  | .read length => (ringBufRead b length).map fun (ret, bytes, b') => ((ret, bytes), b')
  | .clone length => (ringBufClone b length).map fun reply => (reply, b)
  | .clear => some ((0, []), ringBufClear b)

/-- The same call on a queue that has room for `capacity` bytes. -/
def queuePerform (capacity : ℕ) (q : List UInt8) : Call → Reply × List UInt8
  | .write pData =>
      if q.length + pData.length ≤ capacity then ((pData.length, []), q ++ pData) else ((0, []), q)
  | .read length =>
      if length ≤ q.length then ((length, q.take length), q.drop length) else ((0, []), q)
  | .clone length => if length ≤ q.length then ((length, q.take length), q) else ((0, []), q)
  | .clear => ((0, []), [])

/-- A call did to the buffer what it does to the queue `q`. -/
structure RingBuf.Follows (b : RingBuf) (q : List UInt8) (call : Call) (reply : Reply)
    (b' : RingBuf) : Prop where
  agrees : reply = (queuePerform b.len q call).1
  len : b'.len = b.len
  read : b'.read < b'.len
  write : b'.write < b'.len
  available : ringBufAvailableBytesForRead b' + ringBufAvailableBytesForWrite b' = b'.len
  readable : ringBufAvailableBytesForRead b' = (queuePerform b.len q call).2.length
  rejected : reply.1 = 0 → 0 < call.length → b' = b

/-- Every call of a run does to the buffer what it does to the queue. -/
def RingBuf.Refines (b : RingBuf) (q : List UInt8) : List Call → Prop
  | [] => True
  | call :: calls => ∃ reply b', b.perform call = some (reply, b') ∧ b.Follows q call reply b' ∧
      b'.Refines (queuePerform b.len q call).2 calls

/-- A call that is accepted does not take the last free byte, and its end is an index of
32 bits. -/
def RingBuf.Fits (b : RingBuf) : Call → Prop
  | .write pData => pData.length ≤ ringBufAvailableBytesForWrite b →
      pData.length ≠ ringBufAvailableBytesForWrite b ∧ b.write + pData.length < 2 ^ 32
  | .read length => length ≤ ringBufAvailableBytesForRead b → b.read + length < 2 ^ 32
  | .clone length => length ≤ ringBufAvailableBytesForRead b → b.read + length < 2 ^ 32
  | .clear => True

/-- Every call of a run fits the buffer as it is then. -/
def RingBuf.AllFit (b : RingBuf) : List Call → Prop
  | [] => True
  | call :: calls => b.Fits call ∧ ∀ reply b', b.perform call = some (reply, b') → b'.AllFit calls

/-- What is left to show of a call, once its reply and the contents behind it are known. -/
theorem RingBuf.follows {call : Call} {reply : Reply} {b' : RingBuf}
    (hspec : queuePerform b.len b.contents call = (reply, b'.contents)) (hlen : b'.len = b.len)
    (hvalid : b'.Valid) (hrejected : reply.1 = 0 → 0 < call.length → b' = b) :
    b.Follows b.contents call reply b' where
  agrees := by rw [hspec]
  len := hlen
  read := hvalid.read
  write := hvalid.write
  available := available_add hvalid
  readable := by rw [hspec, length_contents hvalid]
  rejected := hrejected

/-- A call that is refused leaves the buffer and the queue as they are. -/
theorem RingBuf.Valid.refused (h : b.Valid) {call : Call}
    (hperform : b.perform call = some ((0, []), b))
    (hspec : queuePerform b.len b.contents call = ((0, []), b.contents)) :
    ∃ reply b', b.perform call = some (reply, b') ∧ b.Follows b.contents call reply b' ∧
      b'.Valid ∧ b'.contents = (queuePerform b.len b.contents call).2 :=
  ⟨_, b, hperform, RingBuf.follows hspec rfl h fun _ _ => rfl, h, by rw [hspec]⟩

/-- A call that fits does to the buffer what it does to its contents. -/
theorem RingBuf.Valid.perform (h : b.Valid) {call : Call} (hfits : b.Fits call) :
    ∃ reply b', b.perform call = some (reply, b') ∧ b.Follows b.contents call reply b' ∧
      b'.Valid ∧ b'.contents = (queuePerform b.len b.contents call).2 := by
  have hadd := available_add h
  have hcontents := length_contents h
  cases call with
  | write pData =>
      by_cases hfree : pData.length ≤ ringBufAvailableBytesForWrite b
      · obtain ⟨hne, hsum⟩ := hfits hfree
        obtain ⟨b', hwrite, hvalid, hlen, hqueue⟩ :=
          ringBufWrite_contents h pData (lt_of_le_of_ne hfree hne) hsum
        have hspec : queuePerform b.len b.contents (.write pData) =
            ((pData.length, []), b'.contents) := by
          rw [hqueue]
          exact if_pos (by omega)
        have hperform : b.perform (.write pData) = some ((pData.length, []), b') := by
          rw [RingBuf.perform, hwrite]
          rfl
        refine ⟨_, b', hperform, RingBuf.follows hspec hlen hvalid ?_, hvalid, by rw [hspec]⟩
        exact fun hzero hpos => absurd hzero hpos.ne'
      · refine h.refused ?_ (if_neg (by omega))
        rw [RingBuf.perform, ringBufWrite, if_pos (by omega)]
        rfl
  | read length =>
      by_cases hready : length ≤ ringBufAvailableBytesForRead b
      · obtain ⟨b', hread, hvalid, hlen, hqueue⟩ := ringBufRead_contents h hready (hfits hready)
        have hspec : queuePerform b.len b.contents (.read length) =
            ((length, b.contents.take length), b'.contents) := by
          rw [hqueue]
          exact if_pos (by omega)
        have hperform : b.perform (.read length) =
            some ((length, b.contents.take length), b') := by
          rw [RingBuf.perform, hread]
          rfl
        refine ⟨_, b', hperform, RingBuf.follows hspec hlen hvalid ?_, hvalid, by rw [hspec]⟩
        exact fun hzero hpos => absurd hzero hpos.ne'
      · refine h.refused ?_ (if_neg (by omega))
        rw [RingBuf.perform, ringBufRead, if_pos (by omega)]
        rfl
  | clone length =>
      by_cases hready : length ≤ ringBufAvailableBytesForRead b
      · have hspec : queuePerform b.len b.contents (.clone length) =
            ((length, b.contents.take length), b.contents) := if_pos (by omega)
        have hperform : b.perform (.clone length) =
            some ((length, b.contents.take length), b) := by
          rw [RingBuf.perform, ringBufClone_contents h hready (hfits hready)]
          rfl
        exact ⟨_, b, hperform, RingBuf.follows hspec rfl h fun _ _ => rfl, h, by rw [hspec]⟩
      · refine h.refused ?_ (if_neg (by omega))
        rw [RingBuf.perform, ringBufClone, if_pos (by omega)]
        rfl
  | clear =>
      obtain ⟨hvalid, hqueue⟩ := ringBufClear_valid h
      have hspec : queuePerform b.len b.contents .clear = ((0, []), (ringBufClear b).contents) := by
        rw [hqueue]
        rfl
      refine ⟨_, _, rfl, RingBuf.follows hspec rfl hvalid ?_, hvalid, hqueue⟩
      exact fun _ hpos => absurd hpos (lt_irrefl 0)

/-- A call that does not fit leaves the buffer, or loses what is in it. -/
theorem RingBuf.Valid.fits (h : b.Valid) (hlen : b.len < 2 ^ 32) {call : Call} {reply : Reply}
    {b' : RingBuf} (hperform : b.perform call = some (reply, b'))
    (hfollows : b.Follows b.contents call reply b') : b.Fits call := by
  have hadd := available_add h
  have hcontents := length_contents h
  cases call with
  | write pData =>
      intro hfree
      have hsum : b.write + pData.length < 2 ^ 32 := by
        by_contra hsum
        rw [RingBuf.perform, ringBufWrite_eq_none h hlen hfree (by omega)] at hperform
        exact absurd hperform (by simp)
      refine ⟨fun hexact => ?_, hsum⟩
      obtain ⟨b₁, hwrite, hnone⟩ := ringBufWrite_full h hexact hsum
      rw [RingBuf.perform, hwrite] at hperform
      obtain ⟨-, rfl⟩ := Prod.mk.inj (Option.some.inj hperform)
      have hspec : queuePerform b.len b.contents (.write pData) =
          ((pData.length, []), b.contents ++ pData) := if_pos (by omega)
      have hreadable := hfollows.readable
      rw [hnone, hspec, List.length_append] at hreadable
      have hlt := availableForRead_lt h
      omega
  | read length =>
      intro hready
      by_contra hsum
      rw [RingBuf.perform, ringBufRead, if_neg (by omega),
        ringBufCopy_eq_none h hlen hready (by omega)] at hperform
      exact absurd hperform (by simp)
  | clone length =>
      intro hready
      by_contra hsum
      rw [RingBuf.perform, ringBufClone, if_neg (by omega),
        ringBufCopy_eq_none h hlen hready (by omega)] at hperform
      exact absurd hperform (by simp)
  | clear => trivial

theorem RingBuf.Valid.refines_iff (h : b.Valid) (hlen : b.len < 2 ^ 32) (calls : List Call) :
    b.Refines b.contents calls ↔ b.AllFit calls := by
  induction calls generalizing b with
  | nil => exact Iff.rfl
  | cons call calls ih =>
      have hiff : (∃ r, b.perform call = some r ∧ b.Follows b.contents call r.1 r.2 ∧
          r.2.Refines (queuePerform b.len b.contents call).2 calls) ↔
            b.Fits call ∧ ∀ r, b.perform call = some r → r.2.AllFit calls := by
        refine run_step_iff (fun hfits => ?_) fun r hperform hfollows =>
          h.fits hlen hperform hfollows
        obtain ⟨reply, b', hperform, hfollows, hvalid, hqueue⟩ := h.perform hfits
        refine ⟨_, hperform, hfollows, ?_⟩
        rw [← hqueue]
        exact ih hvalid (hfollows.len ▸ hlen)
      exact (Prod.exists.symm.trans hiff).trans (and_congr_right' Prod.forall)

/-- A buffer follows the byte queue exactly in the runs that never fill it to the last byte. -/
theorem ringBuf_refines_iff {length : ℕ} (hmin : 2 < length) (hmax : length < 2 ^ 32)
    (calls : List Call) :
    ∃ b, ringBufInit length = some b ∧ (b.Refines [] calls ↔ b.AllFit calls) := by
  obtain ⟨b, hinit, hvalid, hlen, hcontents⟩ := ringBufInit_valid hmin
  exact ⟨b, hinit, hcontents ▸ hvalid.refines_iff (by omega) calls⟩

theorem ringBuf_refines_four : ∃ b, ringBufInit 4 = some b ∧
    (b.Refines [] [.write [1, 2, 3], .read 2, .write [4, 5], .clone 2] ↔
      b.AllFit [.write [1, 2, 3], .read 2, .write [4, 5], .clone 2]) :=
  ringBuf_refines_iff (by decide) (by decide) _

/-- Three bytes written to a buffer of three: none can be read. -/
theorem not_refines_full :
    ∃ b, ringBufInit 3 = some b ∧ ¬b.Refines [] [.write [1, 2, 3]] := by
  refine ⟨_, rfl, ?_⟩
  rintro ⟨reply, b', hperform, hfollows, -⟩
  have hwritten : RingBuf.perform ⟨0, 0, 3, [0, 0, 0]⟩ (.write [1, 2, 3]) =
      some ((3, []), ⟨0, 0, 3, [1, 2, 3]⟩) := by decide
  obtain ⟨-, rfl⟩ := Prod.mk.inj (Option.some.inj (hwritten.symm.trans hperform))
  exact absurd hfollows.readable (by decide)

end PanelTester.Common
