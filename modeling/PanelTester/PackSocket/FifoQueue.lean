import PanelTester.PackSocket.Fifo

/-!
The command FIFO as a bounded byte queue. A run of writes and reads on `cmd_fifo_t` is compared
with the same run on a list of bytes that has room for `maxLen` of them.
-/

namespace PanelTester.PackSocket

open Library

/-- A call on the FIFO. -/
inductive FifoCall
  | write (pData : List UInt8)
  | read (len : ℕ)
  deriving DecidableEq

/-- What a call brings: the return values 0 and -1 of `write_cmd_fifo`, or the bytes that
`read_cmd_fifo` copied to `pBuffer`. -/
inductive FifoOutcome
  | written
  | rejected
  | copied (pBuffer : List UInt8)
  deriving DecidableEq

namespace CmdFifo

/-- A FIFO with nothing in it, over the cells `cmd`, as `init_cmd_fifo` makes it of its own
(`initCmdFifo_eq_emptyOver`). -/
def emptyOver (cmd : List UInt8) : CmdFifo where
  cmd := cmd
  read := 0
  write := 0
  len := 0
  maxLen := cmd.length
  bInit := 1

/-- A call on the FIFO. -/
def perform (f : CmdFifo) : FifoCall → FifoOutcome × CmdFifo
  | .write pData =>
      match f.writeCmdFifo pData with
      | none => (.rejected, f)
      | some f' => (.written, f')
  | .read len => (.copied (f.readCmdFifo len).1, (f.readCmdFifo len).2)

/-- The callers read no more than there is. -/
def Allowed (f : CmdFifo) : FifoCall → Prop
  | .write _ => True
  | .read len => len ≤ f.len

instance (f : CmdFifo) : DecidablePred f.Allowed
  | .write _ => inferInstanceAs (Decidable True)
  | .read len => inferInstanceAs (Decidable (len ≤ f.len))

/-- A run on the FIFO: the outcome of every call, and the FIFO behind the last one. -/
def run (f : CmdFifo) : List FifoCall → List FifoOutcome × CmdFifo
  | [] => ([], f)
  | call :: calls =>
      let rest := (f.perform call).2.run calls
      ((f.perform call).1 :: rest.1, rest.2)

def AllowedRun (f : CmdFifo) : List FifoCall → Prop
  | [] => True
  | call :: calls => f.Allowed call ∧ (f.perform call).2.AllowedRun calls

end CmdFifo

/-! ### The byte queue -/

/-- A call on a byte queue with room for `capacity` bytes. -/
def queuePerform (capacity : ℕ) (q : List UInt8) : FifoCall → FifoOutcome × List UInt8
  | .write pData =>
      if q.length + pData.length ≤ capacity then (.written, q ++ pData) else (.rejected, q)
  | .read len => (.copied (q.take len), q.drop len)

def queueRun (capacity : ℕ) (q : List UInt8) :
    List FifoCall → List FifoOutcome × List UInt8
  | [] => ([], q)
  | call :: calls =>
      let rest := queueRun capacity (queuePerform capacity q call).2 calls
      ((queuePerform capacity q call).1 :: rest.1, rest.2)

namespace CmdFifo

variable {f : CmdFifo}

/-- The FIFO that `init_cmd_fifo` makes of `FIFO_MAX_LEN` cells. -/
theorem initCmdFifo_eq_emptyOver (hinit : f.bInit ≠ 1) (hsize : f.cmd.length = fifoMaxLen) :
    f.initCmdFifo = emptyOver f.cmd := by
  rw [initCmdFifo, if_pos hinit, emptyOver, hsize]

theorem emptyOver_good {cmd : List UInt8} (hpos : 0 < cmd.length) : (emptyOver cmd).Good where
  size := rfl
  read_lt := hpos
  len_le := Nat.zero_le _
  write_eq := (if_pos hpos).symm

theorem content_emptyOver (cmd : List UInt8) : (emptyOver cmd).content = [] := by
  rw [content, ringContent]
  exact List.take_zero

/-- A write that is rejected changes nothing. -/
theorem perform_write_rejected {pData : List UInt8}
    (h : (f.perform (.write pData)).1 = .rejected) : (f.perform (.write pData)).2 = f := by
  rw [perform] at h ⊢
  split at h
  · rfl
  · exact absurd h FifoOutcome.noConfusion

/-- The write index is `len` cells behind the read index. -/
theorem Good.write_mod (h : f.Good) : (f.read + f.len) % f.maxLen = f.write := by
  have hread := h.read_lt
  have hlen := h.len_le
  rw [h.write_eq]
  exact mod_eq_wrap (by omega)

theorem Good.write_lt (h : f.Good) : f.write < f.maxLen := by
  rw [← h.write_mod]
  exact Nat.mod_lt _ (Nat.zero_lt_of_lt h.read_lt)

/-- The header bytes that are looked at are those that a read returns. -/
theorem Good.peekHead_eq_read (h : f.Good) (hlen : headLen ≤ f.len) :
    f.peekHead = (f.readCmdFifo headLen).1 :=
  (peekHead_eq h hlen).trans (readCmdFifo_spec h hlen).1.symm

/-- A call does to the FIFO what it does to the bytes in it. -/
theorem Good.perform (h : f.Good) {call : FifoCall} (hallowed : f.Allowed call) :
    (f.perform call).2.Good ∧ (f.perform call).2.maxLen = f.maxLen ∧
      (f.perform call).1 = (queuePerform f.maxLen f.content call).1 ∧
      (f.perform call).2.content = (queuePerform f.maxLen f.content call).2 := by
  cases call with
  | write pData =>
      rw [CmdFifo.perform, queuePerform, h.length_content]
      by_cases hfit : f.len + pData.length ≤ f.maxLen
      · obtain ⟨f', hwrite, hgood, hcontent, hmax, -⟩ := writeCmdFifo_spec h hfit
        rw [hwrite, if_pos hfit]
        exact ⟨hgood, hmax, rfl, hcontent⟩
      · rw [writeCmdFifo_eq_none.mpr (Nat.not_le.mp hfit), if_neg hfit]
        exact ⟨h, rfl, rfl, rfl⟩
  | read len =>
      obtain ⟨hbytes, hgood, hcontent, hmax, -⟩ := readCmdFifo_spec h hallowed
      exact ⟨hgood, hmax, congrArg FifoOutcome.copied hbytes, hcontent⟩

/-- A run does to the FIFO what it does to the bytes in it. -/
theorem Good.run (h : f.Good) {calls : List FifoCall} (hallowed : f.AllowedRun calls) :
    (f.run calls).2.Good ∧ (f.run calls).2.maxLen = f.maxLen ∧
      (f.run calls).1 = (queueRun f.maxLen f.content calls).1 ∧
      (f.run calls).2.content = (queueRun f.maxLen f.content calls).2 := by
  induction calls generalizing f with
  | nil => exact ⟨h, rfl, rfl, rfl⟩
  | cons call calls ih =>
      obtain ⟨hgood, hmax, houtcome, hcontent⟩ := h.perform hallowed.1
      obtain ⟨hgood', hmax', houtcomes, hcontent'⟩ := ih hgood hallowed.2
      rw [hmax, hcontent] at houtcomes hcontent'
      refine ⟨hgood', hmax'.trans hmax, ?_, hcontent'⟩
      show _ :: _ = _ :: _
      rw [houtcome, houtcomes]

/-- Every run on an empty FIFO is the run on an empty byte queue with room for as many bytes as
the FIFO has cells. In the state that is reached, a write is rejected when its bytes do not fit,
and then changes nothing, and the header that is looked at is the one a read returns. -/
theorem fifo_refines_queue {cmd : List UInt8} (hpos : 0 < cmd.length) {calls : List FifoCall}
    (hallowed : (emptyOver cmd).AllowedRun calls) {outcomes : List FifoOutcome} {f : CmdFifo}
    (hrun : (emptyOver cmd).run calls = (outcomes, f)) :
    outcomes = (queueRun cmd.length [] calls).1 ∧
      f.content = (queueRun cmd.length [] calls).2 ∧ f.len = f.content.length ∧
      f.read < cmd.length ∧ f.write < cmd.length ∧ (f.read + f.len) % cmd.length = f.write ∧
      (∀ pData, f.writeCmdFifo pData = none ↔ cmd.length < f.content.length + pData.length) ∧
      (∀ pData, (f.perform (.write pData)).1 = .rejected →
        (f.perform (.write pData)).2 = f) ∧
      (headLen ≤ f.len → f.peekHead = (f.readCmdFifo headLen).1) := by
  obtain ⟨hgood, hmax, houtcomes, hcontent⟩ := (emptyOver_good hpos).run hallowed
  rw [content_emptyOver, hrun] at houtcomes hcontent
  rw [hrun] at hgood hmax
  have hread := hgood.read_lt
  have hwrite := hgood.write_lt
  have hmod := hgood.write_mod
  rw [show f.maxLen = cmd.length from hmax] at hread hwrite hmod
  refine ⟨houtcomes, hcontent, hgood.length_content.symm, hread, hwrite, hmod, ?_, ?_, ?_⟩
  · intro pData
    rw [writeCmdFifo_eq_none, hgood.length_content, show f.maxLen = cmd.length from hmax]
  · intro pData
    exact perform_write_rejected
  · exact hgood.peekHead_eq_read

theorem fifo_refines_queue_wrapped :
    ((emptyOver (List.replicate 3 0)).run
        [.write [1, 2], .read 1, .write [3, 4], .write [5], .read 3]).1 =
      [.written, .copied [1], .written, .rejected, .copied [2, 3, 4]] :=
  have hallowed : (emptyOver (List.replicate 3 0)).AllowedRun
      [.write [1, 2], .read 1, .write [3, 4], .write [5], .read 3] :=
    ⟨trivial, by decide, trivial, trivial, by decide, trivial⟩
  (fifo_refines_queue (by decide) hallowed rfl).1

end CmdFifo

end PanelTester.PackSocket
