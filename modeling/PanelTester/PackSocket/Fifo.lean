import PanelTester.Library.Ring
import PanelTester.Library.Resumable
import PanelTester.PackSocket.Frame

/-!
The command FIFO `cmd_fifo_t`: a circular buffer between `recv` and the frame
parser. Its operations are read from the source index by index; `content` is
the byte queue it stands for, and each operation has one lemma saying what it
does to that queue. `nextFrame` is the same parser on the queue itself.
-/

namespace PanelTester.PackSocket

open Library

/-- `cmd_fifo_t` -/
structure CmdFifo where
  cmd : List UInt8
  read : ℕ
  write : ℕ
  len : ℕ
  maxLen : ℕ
  bInit : ℕ
  deriving DecidableEq

namespace CmdFifo

/-- `init_cmd_fifo`, the part about the FIFO. -/
def initCmdFifo (f : CmdFifo) : CmdFifo :=
  if f.bInit ≠ 1 then { f with len := 0, maxLen := fifoMaxLen, read := 0, write := 0, bInit := 1 }
  else f

/-- `write_cmd_fifo`; `none` is the return value -1, which leaves the FIFO alone. -/
def writeCmdFifo (f : CmdFifo) (pData : List UInt8) : Option CmdFifo :=
  let len := pData.length
  if f.len + len > f.maxLen then none
  else
    let f' :=
      if f.write ≥ f.read then
        if f.write + len < f.maxLen then
          { f with cmd := blit f.cmd f.write pData, write := f.write + len }
        else
          let len1 := f.maxLen - f.write
          { f with
            cmd := blit (blit f.cmd f.write (pData.take len1)) 0 (pData.drop len1)
            write := len - len1 }
      else { f with cmd := blit f.cmd f.write pData, write := f.write + len }
    some { f' with len := f'.len + len, write := f'.write % f'.maxLen }

/-- The 16 header bytes `read_cmd_try_read` copies out, over the wrap point if need be. -/
def peekHead (f : CmdFifo) : List UInt8 :=
  let len1 := f.maxLen - f.read
  if len1 > headLen then (f.cmd.drop f.read).take headLen
  else (f.cmd.drop f.read).take len1 ++ f.cmd.take (headLen - len1)

/-- `read_cmd_try_read`: the length of a complete frame at the front, if there is one. -/
def readCmdTryRead (f : CmdFifo) : Option ℕ :=
  if f.len ≥ headLen + 4 then
    let cmd := f.peekHead
    if wordBE16 (byteAt cmd 0) (byteAt cmd 1) = syncHead then
      if f.len ≥ headLen + validLen cmd + 4 then some (headLen + validLen cmd + 4) else none
    else none
  else none

/-- `read_cmd_fifo` -/
def readCmdFifo (f : CmdFifo) (len : ℕ) : List UInt8 × CmdFifo :=
  let pBuffer :=
    if f.read + len > f.maxLen then
      let len1 := f.maxLen - f.read
      (f.cmd.drop f.read).take len1 ++ f.cmd.take (len - len1)
    else (f.cmd.drop f.read).take len
  (pBuffer, { f with read := (f.read + len) % f.maxLen, len := f.len - len })

/-- The invariant of the FIFO: indices inside the buffer, and the write index
`len` cells after the read index. -/
structure Good (f : CmdFifo) : Prop where
  size : f.cmd.length = f.maxLen
  read_lt : f.read < f.maxLen
  len_le : f.len ≤ f.maxLen
  write_eq : f.write = wrap f.maxLen (f.read + f.len)

/-- The bytes in the FIFO, oldest first. -/
def content (f : CmdFifo) : List UInt8 := ringContent f.cmd f.read f.len

section

variable {f : CmdFifo}

theorem Good.length_content (h : f.Good) : f.content.length = f.len :=
  length_ringContent (by rw [h.size]; exact h.read_lt.le) (by rw [h.size]; exact h.len_le)

/-- A write is refused exactly when the bytes do not fit. -/
theorem writeCmdFifo_eq_none {pData : List UInt8} :
    f.writeCmdFifo pData = none ↔ f.maxLen < f.len + pData.length := by
  rw [writeCmdFifo]
  by_cases hfull : f.len + pData.length > f.maxLen
  · simp [hfull]
  · simp only [hfull, if_false, reduceCtorEq]

/-- The three branches of `write_cmd_fifo` copy the block to the write index,
continuing at the start of the buffer. -/
theorem writeCmdFifo_eq_put (h : f.Good) {pData : List UInt8}
    (hfit : f.len + pData.length ≤ f.maxLen) :
    f.writeCmdFifo pData = some { f with
      cmd := put f.cmd f.write pData
      len := f.len + pData.length
      write := wrap f.maxLen (f.read + (f.len + pData.length)) } := by
  have hread := h.read_lt
  have hlen := h.len_le
  have hwrite : f.write < f.maxLen := h.write_eq ▸ wrap_lt (by omega)
  have hwrite' := h.write_eq
  rw [wrap] at hwrite'
  have hmod : (f.write + pData.length) % f.maxLen =
      wrap f.maxLen (f.read + (f.len + pData.length)) := by
    rw [mod_eq_wrap (by omega)]
    unfold wrap
    split_ifs at hwrite' ⊢ <;> omega
  rw [writeCmdFifo, put]
  rw [if_neg (by omega)]
  by_cases hge : f.write ≥ f.read
  · by_cases hlt : f.write + pData.length < f.maxLen
    · simp only [hge, hlt, if_true]
      rw [hmod, if_pos (by rw [h.size]; omega)]
    · have hwrap : (pData.length - (f.maxLen - f.write)) % f.maxLen =
          wrap f.maxLen (f.read + (f.len + pData.length)) := by
        rw [← hmod, ← Nat.add_mod_right (pData.length - (f.maxLen - f.write)) f.maxLen]
        congr 1
        omega
      simp only [hge, hlt, if_true, if_false]
      rw [hwrap, h.size]
      by_cases heq : f.write + pData.length ≤ f.maxLen
      · have hexact : f.maxLen - f.write = pData.length := by omega
        rw [if_pos heq, hexact, List.take_length, List.drop_length]
        rfl
      · rw [if_neg heq]
  · simp only [hge, if_false]
    rw [hmod, if_pos]
    rw [h.size]
    split_ifs at hwrite' <;> omega

/-- An accepted write appends exactly its bytes to the queue. -/
theorem writeCmdFifo_spec (h : f.Good) {pData : List UInt8}
    (hfit : f.len + pData.length ≤ f.maxLen) :
    ∃ f', f.writeCmdFifo pData = some f' ∧ f'.Good ∧ f'.content = f.content ++ pData ∧
      f'.maxLen = f.maxLen ∧ f'.bInit = f.bInit := by
  have hread := h.read_lt
  have hwrite : f.write < f.maxLen := h.write_eq ▸ wrap_lt (by have := h.len_le; omega)
  refine ⟨_, writeCmdFifo_eq_put h hfit, ⟨?_, hread, hfit, rfl⟩, ?_, rfl, rfl⟩
  · have hsize := h.size
    simp only
    rw [length_put (by omega) (by omega), hsize]
  · have hread' : f.read < f.cmd.length := by rw [h.size]; exact hread
    have hfit' : f.len + pData.length ≤ f.cmd.length := by rw [h.size]; exact hfit
    have hput := ringContent_put hread' hfit'
    rw [h.size, ← h.write_eq] at hput
    exact hput

/-- A read returns the oldest bytes and removes them. -/
theorem readCmdFifo_spec (h : f.Good) {n : ℕ} (hn : n ≤ f.len) :
    (f.readCmdFifo n).1 = f.content.take n ∧ (f.readCmdFifo n).2.Good ∧
      (f.readCmdFifo n).2.content = f.content.drop n ∧
      (f.readCmdFifo n).2.maxLen = f.maxLen ∧ (f.readCmdFifo n).2.bInit = f.bInit := by
  have hread := h.read_lt
  have hlen := h.len_le
  have hsize := h.size
  have hmod : (f.read + n) % f.maxLen = wrap f.maxLen (f.read + n) := mod_eq_wrap (by omega)
  refine ⟨?_, ⟨hsize, ?_, ?_, ?_⟩, ?_, rfl, rfl⟩
  · rw [content, readCmdFifo]
    rw [ringContent_take (by omega) (by omega) hn, hsize]
    simp only
    split_ifs <;> first | rfl | omega
  · exact Nat.mod_lt _ (by omega)
  · exact (Nat.sub_le _ _).trans hlen
  · have hwrite := h.write_eq
    simp only [readCmdFifo]
    rw [hwrite, hmod]
    unfold wrap
    split_ifs <;> omega
  · have hread' : f.read < f.cmd.length := by omega
    have hdrop := ringContent_drop hread' (by omega) hn
    rw [hsize, ← hmod] at hdrop
    exact hdrop

/-- The header bytes are the first 16 bytes of the queue, wherever they lie. -/
theorem peekHead_eq (h : f.Good) (hlen : headLen ≤ f.len) :
    f.peekHead = f.content.take headLen := by
  have hread := h.read_lt
  have hsize := h.size
  have hle := h.len_le
  rw [content, peekHead]
  rw [ringContent_take (by omega) (by omega) hlen, hsize]
  by_cases hgt : f.maxLen - f.read > headLen
  · rw [if_pos hgt, if_pos (by omega)]
  · rw [if_neg hgt]
    by_cases heq : f.read + headLen ≤ f.maxLen
    · rw [if_pos heq, show f.maxLen - f.read = headLen by omega]
      simp
    · rw [if_neg heq]

end

end CmdFifo

/-- The length of a complete frame at the front of a byte queue. -/
def frameLen (q : List UInt8) : Option ℕ :=
  if headLen + 4 ≤ q.length ∧ wordBE16 (byteAt q 0) (byteAt q 1) = syncHead ∧
      headLen + validLen q + 4 ≤ q.length
  then some (headLen + validLen q + 4) else none

/-- The frame parser on the queue: a frame and the bytes after it. -/
def nextFrame (q : List UInt8) : Option (List UInt8 × List UInt8) :=
  (frameLen q).map fun n => (q.take n, q.drop n)

theorem byteAt_take {q : List UInt8} {i n : ℕ} (h : i < n) : byteAt (q.take n) i = byteAt q i := by
  simp [byteAt, List.getD_eq_getElem?_getD, List.getElem?_take_of_lt h]

theorem byteAt_append {q m : List UInt8} {i : ℕ} (h : i < q.length) :
    byteAt (q ++ m) i = byteAt q i := by
  simp [byteAt, List.getD_eq_getElem?_getD, List.getElem?_append_left h]

theorem validLen_take (q : List UInt8) : validLen (q.take headLen) = validLen q := by
  simp [validLen, headLen, byteAt_take]

theorem validLen_append {q m : List UInt8} (h : headLen ≤ q.length) :
    validLen (q ++ m) = validLen q := by
  rw [headLen] at h
  rw [validLen, validLen, byteAt_append (by omega), byteAt_append (by omega)]

/-- `read_cmd_try_read` sees the frame at the front of the queue. -/
theorem CmdFifo.readCmdTryRead_eq {f : CmdFifo} (h : f.Good) :
    f.readCmdTryRead = frameLen f.content := by
  rw [readCmdTryRead, frameLen]
  rw [h.length_content]
  by_cases hlen : headLen + 4 ≤ f.len
  · rw [if_pos hlen, peekHead_eq h (by omega)]
    simp only [hlen, true_and, validLen_take]
    rw [byteAt_take (by simp [headLen]), byteAt_take (by simp [headLen])]
    split_ifs <;> first | rfl | (exfalso; tauto)
  · rw [if_neg hlen, if_neg fun hall => hlen hall.1]

theorem frameLen_eq_some {q : List UInt8} {n : ℕ} (h : frameLen q = some n) :
    n = headLen + validLen q + 4 ∧ headLen + 4 ≤ n ∧ n ≤ q.length ∧
      wordBE16 (byteAt q 0) (byteAt q 1) = syncHead := by
  rw [frameLen] at h
  split at h
  · obtain rfl := Option.some.inj h
    rename_i hall
    exact ⟨rfl, by omega, hall.2.2, hall.2.1⟩
  · exact absurd h (by simp)

theorem nextFrame_eq_some {q b r : List UInt8} (h : nextFrame q = some (b, r)) :
    ∃ n, frameLen q = some n ∧ b = q.take n ∧ r = q.drop n := by
  obtain ⟨n, hn, heq⟩ := Option.map_eq_some_iff.mp h
  obtain ⟨rfl, rfl⟩ := Prod.mk.injEq .. ▸ heq
  exact ⟨n, hn, rfl, rfl⟩

/-- What the frame parser takes does not depend on what follows. -/
theorem nextFrame_resumable : Resumable nextFrame where
  shrink h := by
    obtain ⟨n, hn, rfl, rfl⟩ := nextFrame_eq_some h
    have := frameLen_eq_some hn
    simp [headLen] at this ⊢
    omega
  append := by
    intro q _ _ m h
    obtain ⟨n, hn, rfl, rfl⟩ := nextFrame_eq_some h
    obtain ⟨heq, hge, hle, hsync⟩ := frameLen_eq_some hn
    have hn' : frameLen (q ++ m) = some n := by
      rw [frameLen]
      rw [validLen_append (by omega), byteAt_append (by simp [headLen] at hge; omega),
        byteAt_append (by simp [headLen] at hge; omega), List.length_append,
        if_pos ⟨by omega, hsync, by omega⟩, heq]
    rw [nextFrame, hn', Option.map_some, List.take_append_of_le_length hle,
      List.drop_append_of_le_length hle]

@[simp] theorem nextFrame_nil : nextFrame [] = none := rfl

/-- A well-formed frame is taken whole. -/
theorem nextFrame_frameBytes {info : SocketCmdInfo} (h : WellFormed info) :
    nextFrame (frameBytes info) = some (frameBytes info, []) := by
  have hlen := length_frameBytes h
  have hsync : wordBE16 (byteAt (frameBytes info) 0) (byteAt (frameBytes info) 1) = syncHead := by
    rw [← h.1]
    simp [byteAt, frameBytes_eq]
  have hn : frameLen (frameBytes info) = some (frameBytes info).length := by
    rw [frameLen]
    rw [validLen_frameBytes, if_pos]
    · simp [headLen, hlen]; omega
    · exact ⟨by simp [headLen, hlen], hsync, by simp [headLen, hlen]; omega⟩
  rw [nextFrame, hn]
  simp

end PanelTester.PackSocket
