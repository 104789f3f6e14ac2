import PanelTester.Lcd.Probes
import PanelTester.Library.StringArray

/-!
The answers of a probe, as `uart_read_end` of `ca310.c` puts them together, and the functions that
talk to a probe. An answer goes through three arrays: of `uart_read`, of `uart_read_end` and of the
caller. A run that writes outside of one of them has a fault as its result.
-/

namespace PanelTester.Lcd

open Library

/-- `MAX_BUFF_SIZE`, the size of `buf` in `uart_read`. -/
def maxBuffSize : ℕ := 2048

/-- The size of `buf` in `uart_read_end`. -/
def readEndSize : ℕ := 1024

/-- The size of `buf` in the functions that talk to a probe. -/
def replySize : ℕ := 32

/-- What the system does in one call of `uart_read`: select() or read() returns what is not
positive, or read() gives some bytes. -/
inductive SerialRead
  | stopped (ret : ℤ) (nonpos : ret ≤ 0)
  | received (bytes : Str) (ne_nil : bytes ≠ []) (length_le : bytes.length ≤ maxBuffSize)

/-- Why there is no result: the loop does not end within a number of turns, or there is a write
behind `buf` of `uart_read_end` or behind the array of its caller. -/
inductive Fault
  | turns
  | buf
  | caller
  deriving DecidableEq

/-- `memcpy` to an array, which has no result when it leaves the array. -/
def memcpy (dst : Str) (i : ℕ) (bytes : Str) : Option Str :=
  if i + bytes.length ≤ dst.length then some (overwrite dst i bytes) else none

/-- `uart_read` to the place `offset` of an array. -/
def uartRead (answer : SerialRead) (pOutBuf : Str) (offset : ℕ) : Option (ℤ × Str) :=
  match answer with
  | .stopped ret _ => some (ret, pOutBuf)
  | .received bytes _ _ =>
      (memcpy pOutBuf offset bytes).map fun pOutBuf => ((bytes.length : ℤ), pOutBuf)

/-- Where the loop of `uart_read_end` leaves its variables, and how often `uart_read` was
called. -/
structure ReadLoop where
  buf : Str
  offset : ℕ
  calls : ℕ
  deriving DecidableEq

/-- The loop of `uart_read_end`, for a number of turns. -/
def readLoop (device : ℕ → SerialRead) : ℕ → ℕ → ℤ → Str → ℕ → Except Fault ReadLoop
  | 0, _, _, _, _ => .error .turns
  | turns + 1, calls, ret, buf, offset =>
      if ret ≥ 0 then
        match uartRead (device calls) buf offset with
        | none => .error .buf
        | some (ret, buf) =>
            if ret > 0 then
              let offset := offset + ret.toNat
              if buf[offset - 1]? = some '\r' then .ok ⟨buf, offset, calls + 1⟩
              else readLoop device turns (calls + 1) ret buf offset
            else .ok ⟨buf, offset, calls + 1⟩
      else .ok ⟨buf, offset, calls⟩

/-- What `uart_read_end` returns and leaves in the array of its caller. -/
structure ReadEnd where
  ret : ℕ
  pReadBuf : Str
  calls : ℕ
  deriving DecidableEq

def uartReadEnd (device : ℕ → SerialRead) (turns calls : ℕ) (pReadBuf : Str) :
    Except Fault ReadEnd :=
  match readLoop device turns calls 0 (List.replicate readEndSize nul) 0 with
  | .error fault => .error fault
  | .ok l =>
      if l.offset > 0 then
        match memcpy pReadBuf 0 (l.buf.take l.offset) with
        | none => .error .caller
        | some pReadBuf => .ok ⟨l.offset, pReadBuf, l.calls⟩
      else .ok ⟨l.offset, pReadBuf, l.calls⟩

/-! ### The functions that talk to a probe -/

def probeStatuOk : ℤ := 0
def probeStatuTimeout : ℤ := -100
def probeStatuOtherError : ℤ := -200
def probeStatuCommandError : ℤ := -10
def probeStatuOutRange : ℤ := -50
def probeStatuLowLumi : ℤ := -52

/-- A function that writes commands to a probe, and goes on with the next one when the answer is
what it is to be: what it returns otherwise, and the mode that it sets in the end. -/
structure Dialogue where
  commands : List String
  accepts : Str → Bool
  invalid : ℤ
  refused : Str → ℤ
  timeout : ℤ
  workMode : Option WorkMode

/-- What a function returns, what it wrote to the probe, the mode that it set, and its array. -/
structure Outcome where
  ret : ℤ
  sent : List String
  workMode : Option WorkMode
  buf : Str
  deriving DecidableEq

/-- The commands one after the other. `buf` is not cleared between them. -/
def Dialogue.exchange (d : Dialogue) (device : ℕ → SerialRead) (turns : ℕ) :
    List String → Str → ℕ → Except Fault Outcome
  | [], buf, _ => .ok ⟨probeStatuOk, [], d.workMode, buf⟩
  | command :: commands, buf, calls =>
      match uartReadEnd device turns calls buf with
      | .error fault => .error fault
      | .ok r =>
          if r.ret > 0 then
            if d.accepts r.pReadBuf then
              (d.exchange device turns commands r.pReadBuf r.calls).map fun o =>
                { o with sent := command :: o.sent }
            else .ok ⟨d.refused r.pReadBuf, [command], none, r.pReadBuf⟩
          else .ok ⟨d.timeout, [command], none, r.pReadBuf⟩

/-- A call of the function, with the port of a channel. -/
def Dialogue.call (d : Dialogue) (device : ℕ → SerialRead) (turns lcdChannel : ℕ) :
    Except Fault Outcome :=
  if invalidChannel lcdChannel then .ok ⟨d.invalid, [], none, List.replicate replySize nul⟩
  else d.exchange device turns d.commands (List.replicate replySize nul) 0

def cmdOkKey : String := "OK00"
def cmdOk01Key : String := "OK0"

def strCmdModeRemoteOn : String := "COM,2\n"
def strCmdModeRemoteOff : String := "COM,0\n"
def strCmdSync : String := "SCS,3\n"
def strCmdMdsFlick : String := "MDS,6\n"
def strCmdMdsXylv : String := "MDS,0\n"
def strCmdMeas : String := "MES\n"

/-- What is returned for an answer to a measurement that is not OK. -/
def measRefused (buf : Str) : ℤ :=
  if startsWith "ER10" buf then probeStatuCommandError
  else if startsWith "ER50" buf then probeStatuOutRange
  else if startsWith "ER52" buf then probeStatuLowLumi
  else probeStatuOtherError

def Dialogue.ca210StartFlickMode : Dialogue where
  commands := [strCmdModeRemoteOn, strCmdSync, strCmdMdsFlick]
  accepts := startsWith cmdOkKey
  invalid := probeStatuOtherError
  refused _ := probeStatuOtherError
  timeout := probeStatuTimeout
  workMode := some .flick

def Dialogue.ca210StopFlickMode : Dialogue where
  commands := [strCmdModeRemoteOff]
  accepts := startsWith cmdOkKey
  invalid := -1
  refused _ := -1
  timeout := -1
  workMode := some .idle

/-- The value is scanned from the array. -/
def Dialogue.ca210CaptureFlickData : Dialogue where
  commands := [strCmdMeas]
  accepts := startsWith cmdOkKey
  invalid := probeStatuOtherError
  refused := measRefused
  timeout := probeStatuTimeout
  workMode := none

def Dialogue.ca210StartXylvMode : Dialogue where
  commands := [strCmdModeRemoteOn, strCmdSync, strCmdMdsXylv]
  accepts := startsWith cmdOkKey
  invalid := probeStatuOtherError
  refused _ := probeStatuCommandError
  timeout := probeStatuTimeout
  workMode := some .xylv

def Dialogue.ca210StopXylvMode : Dialogue where
  commands := [strCmdModeRemoteOff]
  accepts := startsWith cmdOkKey
  invalid := probeStatuOtherError
  refused _ := probeStatuCommandError
  timeout := probeStatuTimeout
  workMode := some .xylv

/-- The values are scanned from the array. -/
def Dialogue.ca210CaptureXylvData : Dialogue where
  commands := [strCmdMeas]
  accepts buf := startsWith cmdOkKey buf || startsWith cmdOk01Key buf
  invalid := probeStatuOtherError
  refused := measRefused
  timeout := probeStatuTimeout
  workMode := none

/-- The functions of `ca310.c` that talk to a probe. -/
def Dialogue.functions : List Dialogue :=
  [ca210StartFlickMode, ca210StopFlickMode, ca210CaptureFlickData, ca210StartXylvMode,
    ca210StopXylvMode, ca210CaptureXylvData]

/-! ### What is claimed of the answers -/

variable {device : ℕ → SerialRead} {calls calls' : ℕ} {bytes bytes' : Str}

/-- From a call of `uart_read` on, the device sends `bytes` and then stops, or ends a read with a
carriage return. -/
inductive Replies (device : ℕ → SerialRead) : ℕ → Str → ℕ → Prop
  | stopped {calls : ℕ} {ret : ℤ} {nonpos : ret ≤ 0}
      (hread : device calls = .stopped ret nonpos) : Replies device calls [] (calls + 1)
  | ended {calls : ℕ} {bytes : Str} {ne_nil : bytes ≠ []} {length_le : bytes.length ≤ maxBuffSize}
      (hread : device calls = .received bytes ne_nil length_le)
      (hlast : bytes.getLast? = some '\r') : Replies device calls bytes (calls + 1)
  | more {calls calls' : ℕ} {bytes rest : Str} {ne_nil : bytes ≠ []}
      {length_le : bytes.length ≤ maxBuffSize}
      (hread : device calls = .received bytes ne_nil length_le)
      (hlast : bytes.getLast? ≠ some '\r') (behind : Replies device (calls + 1) rest calls') :
      Replies device calls (bytes ++ rest) calls'

/-- There was a write outside of an array. -/
def Stray {α : Type} (r : Except Fault α) : Prop := r = .error .buf ∨ r = .error .caller

theorem not_stray_ok {α : Type} (a : α) : ¬Stray (.ok a) := by
  rintro (h | h) <;> cases h

theorem stray_error {α : Type} {fault : Fault} :
    Stray (.error fault : Except Fault α) ↔ fault = .buf ∨ fault = .caller := by
  rw [Stray, Except.error.injEq, Except.error.injEq]

theorem Stray.ne_turns {α : Type} {r : Except Fault α} (h : Stray r) : r ≠ .error .turns := by
  rcases h with rfl | rfl <;> simp

theorem stray_map {α β : Type} {f : α → β} {r : Except Fault α} : Stray (r.map f) ↔ Stray r := by
  cases r <;> simp [Stray, Except.map]

/-- What is claimed of `uart_read_end`: it writes into its array and that of its caller alone, it
ends when the answer ends, and an answer that the array of the caller holds is there unchanged. -/
structure Assembles (device : ℕ → SerialRead) (calls : ℕ) (pReadBuf : Str) : Prop where
  inside : ∀ turns, ¬Stray (uartReadEnd device turns calls pReadBuf)
  ends : ∀ {bytes calls'}, Replies device calls bytes calls' →
    ∃ r, ∀ turns, bytes.length < turns → uartReadEnd device turns calls pReadBuf = .ok r
  complete : ∀ {bytes calls'}, Replies device calls bytes calls' →
    bytes.length ≤ pReadBuf.length → ∀ turns, bytes.length < turns →
      uartReadEnd device turns calls pReadBuf =
        .ok ⟨bytes.length, overwrite pReadBuf 0 bytes, calls'⟩

/-- A function that talks to a probe writes into the arrays alone. -/
def Dialogue.Safe (d : Dialogue) (device : ℕ → SerialRead) (lcdChannel : ℕ) : Prop :=
  ∀ turns, ¬Stray (d.call device turns lcdChannel)

/-- The answer of the device ends, and an array of `size` bytes and that of `uart_read_end` hold
it. -/
def ReplyFits (device : ℕ → SerialRead) (calls size : ℕ) : Prop :=
  ∃ bytes calls', Replies device calls bytes calls' ∧ bytes.length ≤ readEndSize ∧
    bytes.length ≤ size

/-- The answers fit to all commands that are written. -/
def Dialogue.RepliesFit (d : Dialogue) (device : ℕ → SerialRead) : List String → Str → ℕ → Prop
  | [], _, _ => True
  | _ :: commands, buf, calls =>
      ∃ bytes calls', Replies device calls bytes calls' ∧ bytes.length ≤ readEndSize ∧
        bytes.length ≤ buf.length ∧
        (bytes ≠ [] → d.accepts (overwrite buf 0 bytes) →
          d.RepliesFit device commands (overwrite buf 0 bytes) calls')

/-! ### The loop -/

/-- An answer that begins with a read. -/
theorem Replies.of_received {ne_nil : bytes ≠ []} {length_le : bytes.length ≤ maxBuffSize}
    (h : Replies device calls bytes' calls')
    (hread : device calls = .received bytes ne_nil length_le) :
    bytes' = bytes ∧ calls' = calls + 1 ∧ bytes.getLast? = some '\r' ∨
      ∃ rest, bytes' = bytes ++ rest ∧ bytes.getLast? ≠ some '\r' ∧
        Replies device (calls + 1) rest calls' := by
  cases h with
  | stopped hread' => cases hread.symm.trans hread'
  | ended hread' hlast =>
      cases hread.symm.trans hread'
      exact .inl ⟨rfl, rfl, hlast⟩
  | more hread' hlast behind =>
      cases hread.symm.trans hread'
      exact .inr ⟨_, rfl, hlast, behind⟩

theorem Replies.unique (h : Replies device calls bytes calls') {calls'' : ℕ}
    (h' : Replies device calls bytes' calls'') : bytes = bytes' ∧ calls' = calls'' := by
  induction h generalizing bytes' calls'' with
  | stopped hread =>
      cases h' with
      | stopped _ => exact ⟨rfl, rfl⟩
      | ended hread' _ => cases hread.symm.trans hread'
      | more hread' _ _ => cases hread.symm.trans hread'
  | ended hread hlast =>
      rcases h'.of_received hread with ⟨rfl, rfl, -⟩ | ⟨_, _, hne, _⟩
      · exact ⟨rfl, rfl⟩
      · exact absurd hlast hne
  | more hread hlast behind ih =>
      rcases h'.of_received hread with ⟨_, _, hcr⟩ | ⟨rest, rfl, _, behind'⟩
      · exact absurd hcr hlast
      · obtain ⟨rfl, rfl⟩ := ih behind'
        exact ⟨rfl, rfl⟩

variable {turns offset : ℕ} {ret : ℤ} {buf : Str}

theorem readLoop_stopped {r : ℤ} {hr : r ≤ 0} (hread : device calls = .stopped r hr)
    (hret : 0 ≤ ret) (hturns : 0 < turns) :
    readLoop device turns calls ret buf offset = .ok ⟨buf, offset, calls + 1⟩ := by
  obtain ⟨n, rfl⟩ := Nat.exists_eq_succ_of_ne_zero hturns.ne'
  rw [readLoop, if_pos hret, hread]
  exact if_neg (not_lt.mpr hr)

theorem readLoop_received {ne_nil : bytes ≠ []} {length_le : bytes.length ≤ maxBuffSize}
    (hread : device calls = .received bytes ne_nil length_le) (hret : 0 ≤ ret)
    (hoffset : offset ≤ buf.length) (hturns : 0 < turns) :
    readLoop device turns calls ret buf offset =
      if offset + bytes.length ≤ buf.length then
        if bytes.getLast? = some '\r' then
          .ok ⟨overwrite buf offset bytes, offset + bytes.length, calls + 1⟩
        else
          readLoop device (turns - 1) (calls + 1) bytes.length (overwrite buf offset bytes)
            (offset + bytes.length)
      else .error .buf := by
  obtain ⟨n, rfl⟩ := Nat.exists_eq_succ_of_ne_zero hturns.ne'
  have hpos : (bytes.length : ℤ) > 0 := by
    have := List.length_pos_iff.mpr ne_nil
    omega
  rw [readLoop, if_pos hret, hread, uartRead, memcpy]
  split_ifs with hfits
  all_goals try rfl
  all_goals
    rw [Option.map_some]
    dsimp only
    rw [if_pos hpos, Int.toNat_natCast, getElem?_overwrite_last hoffset ne_nil]
  · exact if_pos ‹_›
  · exact if_neg ‹_›

/-- The loop ends with the answer behind what is in its array, or leaves the array. -/
theorem readLoop_cases (device : ℕ → SerialRead) (calls : ℕ) (hret : 0 ≤ ret)
    (hoffset : offset ≤ buf.length) :
    (∃ bytes calls', Replies device calls bytes calls' ∧ offset + bytes.length ≤ buf.length ∧
      ∀ turns, bytes.length < turns → readLoop device turns calls ret buf offset =
        .ok ⟨overwrite buf offset bytes, offset + bytes.length, calls'⟩) ∨
    (∀ bytes calls', Replies device calls bytes calls' → buf.length < offset + bytes.length) ∧
      ∀ turns, buf.length - offset < turns →
        readLoop device turns calls ret buf offset = .error .buf := by
  induction hleft : buf.length - offset using Nat.strong_induction_on
    generalizing calls ret buf offset with
  | _ left ih =>
      cases hread : device calls with
      | stopped r hr =>
          refine .inl ⟨[], calls + 1, .stopped hread, hoffset, ?_⟩
          intro turns hturns
          rw [readLoop_stopped hread hret hturns, overwrite_nil]
          rfl
      | received bytes ne_nil length_le =>
          have hpos := List.length_pos_iff.mpr ne_nil
          rcases Nat.lt_or_ge buf.length (offset + bytes.length) with hover | hfits
          · refine .inr ⟨?_, ?_⟩
            · intro bytes' calls' hreplies
              rcases hreplies.of_received hread with ⟨rfl, -⟩ | ⟨rest, rfl, -⟩
              · exact hover
              · rw [List.length_append]
                omega
            · intro turns hturns
              rw [readLoop_received hread hret hoffset (by omega), if_neg (by omega)]
          rcases eq_or_ne bytes.getLast? (some '\r') with hlast | hlast
          · refine .inl ⟨bytes, calls + 1, .ended hread hlast, hfits, ?_⟩
            intro turns hturns
            rw [readLoop_received hread hret hoffset (by omega), if_pos hfits, if_pos hlast]
          -- the loop goes on behind these bytes
          have hlen := length_overwrite hfits
          have hret' : (0 : ℤ) ≤ bytes.length := by omega
          have hoffset' : offset + bytes.length ≤ (overwrite buf offset bytes).length :=
            hfits.trans hlen.ge
          rcases ih (left - bytes.length) (by omega) (calls + 1) hret' hoffset'
              (by omega) with ⟨rest, calls', hreplies, hrest, hrun⟩ | ⟨hnone, hrun⟩
          · rw [hlen] at hrest
            refine .inl ⟨bytes ++ rest, calls', .more hread hlast hreplies, ?_, ?_⟩
            · rw [List.length_append]
              omega
            · intro turns hturns
              rw [List.length_append] at hturns
              rw [readLoop_received hread hret hoffset (by omega), if_pos hfits, if_neg hlast,
                hrun _ (by omega), overwrite_overwrite_append hoffset, List.length_append,
                Nat.add_assoc]
          · refine .inr ⟨?_, ?_⟩
            · intro bytes' calls' hreplies
              rcases hreplies.of_received hread with ⟨-, -, hcr⟩ | ⟨rest, rfl, -, hbehind⟩
              · exact absurd hcr hlast
              · have := hnone rest calls' hbehind
                rw [List.length_append]
                omega
            · intro turns hturns
              rw [readLoop_received hread hret hoffset (by omega), if_pos hfits, if_neg hlast,
                hrun _ (by omega)]

/-- One turn more changes nothing when the loop ended. -/
theorem readLoop_succ
    (h : readLoop device turns calls ret buf offset ≠ .error .turns) :
    readLoop device (turns + 1) calls ret buf offset =
      readLoop device turns calls ret buf offset := by
  induction turns generalizing calls ret buf offset with
  | zero => exact absurd rfl h
  | succ n ih =>
      rw [readLoop] at h
      rw [readLoop, readLoop]
      split_ifs at h ⊢ with hret
      · cases hread : uartRead (device calls) buf offset with
        | none => rfl
        | some r =>
            rw [hread] at h
            dsimp only at h ⊢
            split_ifs at h ⊢
            · rfl
            · exact ih h
            · rfl
      · rfl

/-- More turns change nothing when the call ended. -/
theorem uartReadEnd_mono {pReadBuf : Str} {turns' : ℕ} (hle : turns ≤ turns')
    (h : uartReadEnd device turns calls pReadBuf ≠ .error .turns) :
    uartReadEnd device turns' calls pReadBuf = uartReadEnd device turns calls pReadBuf := by
  have hloop :
      readLoop device turns calls 0 (List.replicate readEndSize nul) 0 ≠ .error .turns := by
    intro hloop
    rw [uartReadEnd, hloop] at h
    exact h rfl
  have hmore : readLoop device turns' calls 0 (List.replicate readEndSize nul) 0 =
      readLoop device turns calls 0 (List.replicate readEndSize nul) 0 := by
    induction turns', hle using Nat.le_induction with
    | base => rfl
    | succ n _ ih => rw [readLoop_succ (ih ▸ hloop), ih]
  rw [uartReadEnd, hmore, uartReadEnd]

/-! ### The call -/

variable {pReadBuf : Str}

theorem uartReadEnd_eq (hreply : Replies device calls bytes calls')
    (hfits : bytes.length ≤ readEndSize) (hcaller : bytes.length ≤ pReadBuf.length)
    (hturns : bytes.length < turns) :
    uartReadEnd device turns calls pReadBuf =
      .ok ⟨bytes.length, overwrite pReadBuf 0 bytes, calls'⟩ := by
  have hsize : (List.replicate readEndSize nul).length = readEndSize := List.length_replicate
  have hstart : 0 ≤ (List.replicate readEndSize nul).length := Nat.zero_le _
  rcases readLoop_cases device calls (le_refl 0) hstart with ⟨_, _, hreply', _, hrun⟩ | ⟨hnone, -⟩
  · obtain ⟨rfl, rfl⟩ := hreply.unique hreply'
    rw [uartReadEnd, hrun turns hturns]
    dsimp only
    rw [Nat.zero_add]
    split_ifs with hpos
    · have hcopied : (overwrite (List.replicate readEndSize nul) 0 bytes).take bytes.length =
          bytes := by
        rw [overwrite, List.take_zero, List.nil_append, List.take_left]
      rw [hcopied, memcpy, if_pos (by omega)]
    · obtain rfl := List.length_eq_zero_iff.mp (Nat.eq_zero_of_not_pos hpos)
      rw [overwrite_nil]
  · have := hnone _ _ hreply
    omega

/-- An answer that does not fit is written outside of an array. -/
theorem uartReadEnd_stray (h : ¬ReplyFits device calls pReadBuf.length)
    (hturns : readEndSize < turns) : Stray (uartReadEnd device turns calls pReadBuf) := by
  have hsize : (List.replicate readEndSize nul).length = readEndSize := List.length_replicate
  have hstart : 0 ≤ (List.replicate readEndSize nul).length := Nat.zero_le _
  rcases readLoop_cases device calls (le_refl 0) hstart with
    ⟨bytes, calls', hreply, hlen, hrun⟩ | ⟨-, hrun⟩
  · have hover : pReadBuf.length < bytes.length := by
      by_contra hle
      exact h ⟨bytes, calls', hreply, by omega, by omega⟩
    have hcopied : (overwrite (List.replicate readEndSize nul) 0 bytes).take bytes.length =
        bytes := by
      rw [overwrite, List.take_zero, List.nil_append, List.take_left]
    rw [uartReadEnd, hrun turns (by omega)]
    dsimp only
    rw [Nat.zero_add, if_pos (by omega), hcopied, memcpy, if_neg (by omega)]
    exact .inr rfl
  · rw [uartReadEnd, hrun turns (by omega)]
    exact .inl rfl

theorem not_stray_uartReadEnd (h : ReplyFits device calls pReadBuf.length) :
    ¬Stray (uartReadEnd device turns calls pReadBuf) := by
  obtain ⟨bytes, calls', hreply, hfits, hcaller⟩ := h
  intro hstray
  have hmore := uartReadEnd_mono (Nat.le_add_right turns (bytes.length + 1)) hstray.ne_turns
  rw [uartReadEnd_eq hreply hfits hcaller (by omega)] at hmore
  rw [← hmore] at hstray
  exact not_stray_ok _ hstray

theorem assembles_iff (device : ℕ → SerialRead) (calls : ℕ) (pReadBuf : Str) :
    Assembles device calls pReadBuf ↔ ReplyFits device calls pReadBuf.length := by
  constructor
  · intro h
    by_contra hnot
    exact h.inside _ (uartReadEnd_stray hnot (Nat.lt_succ_self _))
  · intro h
    refine ⟨fun _ => not_stray_uartReadEnd h, ?_, ?_⟩
    all_goals
      intro bytes calls' hreply
      obtain ⟨_, _, hreply', hfits, hcaller⟩ := h
      obtain ⟨rfl, rfl⟩ := hreply.unique hreply'
    · exact ⟨_, fun turns hturns => uartReadEnd_eq hreply hfits hcaller hturns⟩
    · intro _ turns hturns
      exact uartReadEnd_eq hreply hfits hcaller hturns

/-! ### The functions that talk to a probe -/

variable {d : Dialogue} {commands : List String} {buf : Str}

/-- The commands that are left, when a command is answered with some bytes. -/
theorem Dialogue.stray_exchange_cons {command : String} (hreply : Replies device calls bytes calls')
    (hfits : bytes.length ≤ readEndSize) (hcaller : bytes.length ≤ buf.length)
    (hturns : bytes.length < turns) :
    Stray (d.exchange device turns (command :: commands) buf calls) ↔
      bytes ≠ [] ∧ d.accepts (overwrite buf 0 bytes) ∧
        Stray (d.exchange device turns commands (overwrite buf 0 bytes) calls') := by
  rw [exchange, uartReadEnd_eq hreply hfits hcaller hturns]
  dsimp only
  split_ifs with hpos hok
  · rw [stray_map, and_iff_right (List.length_pos_iff.mp hpos), and_iff_right hok]
  · simp [hok, not_stray_ok]
  · simp [List.length_eq_zero_iff.mp (Nat.eq_zero_of_not_pos hpos), not_stray_ok]

/-- A run that stays in the arrays gets answers that fit. -/
theorem Dialogue.repliesFit (h : ∀ turns, readEndSize < turns →
      ¬Stray (d.exchange device turns commands buf calls)) :
    d.RepliesFit device commands buf calls := by
  induction commands generalizing buf calls with
  | nil => trivial
  | cons command commands ih =>
      have hfit : ReplyFits device calls buf.length := by
        by_contra hnot
        have hstray := uartReadEnd_stray hnot (Nat.lt_succ_self readEndSize)
        apply h _ (Nat.lt_succ_self readEndSize)
        rw [exchange]
        rcases hstray with hstray | hstray <;> rw [hstray]
        · exact .inl rfl
        · exact .inr rfl
      obtain ⟨bytes, calls', hreply, hfits, hcaller⟩ := hfit
      refine ⟨bytes, calls', hreply, hfits, hcaller, ?_⟩
      intro hne hok
      apply ih
      intro turns hturns hstray
      exact h turns hturns
        ((stray_exchange_cons hreply hfits hcaller (by omega)).mpr ⟨hne, hok, hstray⟩)

/-- A run that gets answers that fit stays in the arrays. -/
theorem Dialogue.RepliesFit.not_stray (h : d.RepliesFit device commands buf calls) (turns : ℕ) :
    ¬Stray (d.exchange device turns commands buf calls) := by
  induction commands generalizing buf calls with
  | nil => exact not_stray_ok _
  | cons command commands ih =>
      obtain ⟨bytes, calls', hreply, hfits, hcaller, hrest⟩ := h
      have hcall : ¬Stray (uartReadEnd device turns calls buf) :=
        not_stray_uartReadEnd ⟨bytes, calls', hreply, hfits, hcaller⟩
      rw [exchange]
      cases hrun : uartReadEnd device turns calls buf with
      | error fault =>
          rw [hrun, stray_error] at hcall
          exact mt stray_error.mp hcall
      | ok r =>
          have hmore := uartReadEnd_mono (Nat.le_add_right turns (bytes.length + 1))
            (show uartReadEnd device turns calls buf ≠ .error .turns by rw [hrun]; simp)
          rw [hrun, uartReadEnd_eq hreply hfits hcaller (by omega)] at hmore
          obtain rfl := Except.ok.inj hmore
          dsimp only
          split_ifs with hpos hok
          · rw [stray_map]
            exact ih (hrest (List.length_pos_iff.mp hpos) hok)
          · exact not_stray_ok _
          · exact not_stray_ok _

theorem Dialogue.safe_iff (d : Dialogue) (device : ℕ → SerialRead) (lcdChannel : ℕ) :
    d.Safe device lcdChannel ↔ invalidChannel lcdChannel ∨
      d.RepliesFit device d.commands (List.replicate replySize nul) 0 := by
  constructor
  · intro h
    apply or_iff_not_imp_left.mpr
    intro hvalid
    apply repliesFit
    intro turns _ hstray
    exact h turns (by rwa [call, if_neg hvalid])
  · intro h turns
    rw [call]
    split_ifs with hinvalid
    · exact not_stray_ok _
    · exact (h.resolve_left hinvalid).not_stray turns

/-- From any call on, `uart_read_end` assembles the answer exactly when it ends and both arrays
hold it. A function that talks to a probe stays in the arrays exactly when all answers it waits
for end and have at most 32 bytes. -/
theorem answers_assembled_iff (device : ℕ → SerialRead) :
    (∀ calls pReadBuf,
      Assembles device calls pReadBuf ↔ ReplyFits device calls pReadBuf.length) ∧
    ∀ (d : Dialogue) lcdChannel, d.Safe device lcdChannel ↔ invalidChannel lcdChannel ∨
      d.RepliesFit device d.commands (List.replicate replySize nul) 0 := by
  refine ⟨assembles_iff device, ?_⟩
  intro d lcdChannel
  exact d.safe_iff device lcdChannel

/-- An answer of 33 bytes, in one read, is too long for every one of the functions. -/
theorem not_assembled_long :
    ∃ device : ℕ → SerialRead, ¬Assembles device 0 (List.replicate replySize nul) ∧
      ∀ d ∈ Dialogue.functions, ¬d.Safe device 0 := by
  have hne : List.replicate 32 '0' ++ ['\r'] ≠ [] := by simp
  have hle : (List.replicate 32 '0' ++ ['\r']).length ≤ maxBuffSize := by simp [maxBuffSize]
  let device : ℕ → SerialRead := fun _ => .received _ hne hle
  have hreply : Replies device 0 (List.replicate 32 '0' ++ ['\r']) 1 :=
    .ended rfl List.getLast?_concat
  have hlong : ∀ bytes calls', Replies device 0 bytes calls' → ¬bytes.length ≤ replySize := by
    intro bytes calls' h
    rw [(h.unique hreply).1, replySize, List.length_append, List.length_replicate,
      List.length_singleton]
    omega
  have hunsafe : ∀ (d : Dialogue) command commands, d.commands = command :: commands →
      ¬d.Safe device 0 := by
    intro d command commands hcommands h
    rw [Dialogue.safe_iff, hcommands] at h
    rcases h with hinvalid | ⟨bytes, calls', h, -, hcaller, -⟩
    · exact Nat.not_lt_zero _ hinvalid
    · exact hlong bytes calls' h (hcaller.trans List.length_replicate.le)
  refine ⟨device, ?_, ?_⟩
  · intro h
    obtain ⟨bytes, calls', h, -, hcaller⟩ := (assembles_iff ..).mp h
    exact hlong bytes calls' h (hcaller.trans List.length_replicate.le)
  · intro d hd
    simp only [Dialogue.functions, List.mem_cons, List.not_mem_nil, or_false] at hd
    rcases hd with rfl | rfl | rfl | rfl | rfl | rfl <;> exact hunsafe _ _ _ rfl

end PanelTester.Lcd
