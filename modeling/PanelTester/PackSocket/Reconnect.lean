import PanelTester.PackSocket.Delivery

/-!
Connections after one another. The accept loop hands every connection to the same
receiver, and nothing empties it in between. A connection that was cut off leaves
what it left: `isolated_iff_atBoundary` says that the messages of the next connection
are safe from it exactly when the cut fell between two messages.
-/

namespace PanelTester.PackSocket

open Library

/-- The stream ends with the last byte of a message, or before the first. -/
def AtBoundary (msgs : List Message) (sendFd : ℕ) (stream : List UInt8) : Prop :=
  ∃ n, stream = (msgs.take n).flatMap (·.sent sendFd)

/-- Whatever messages the next connection brings, in whatever chunks, exactly they are
handed on. -/
def Isolated (s : SocketCmdClass) (sendFd : ℕ) (earlier : List (List UInt8)) : Prop :=
  ∀ (msgs : List Message) (args : List (List UInt8)), (∀ m ∈ msgs, m.FitsChunk) →
    args.flatten = msgs.flatMap (·.sent sendFd) →
    (∀ arg ∈ args, 1 ≤ arg.length ∧ arg.length ≤ recvMaxLen) →
    ∃ s' css₀ css, serverAccept s [earlier, args] = some (s', [css₀, css]) ∧
      css.flatten = msgs.map Message.delivered

/-! ### What a cut leaves behind -/

/-- The first fragments of a message stay pending. -/
theorem Message.acceptAll_take (m : Message) {j : ℕ} (hj : j < m.infos.length) :
    acceptAll [] ((m.infos.take j).map frameBytes) = (m.infos.take j, []) := by
  have hlast := m.lastNo_toNat
  rw [← m.length_infos] at hlast
  have hrun := acceptAll_incomplete (List.forall_mem_nil _) (List.forall_mem_nil _)
    (m.infos.take j) (fun w hw => m.fragment_of_mem (List.mem_of_mem_take hw))
    (by rw [List.length_take]; simp; omega)
  exact hrun.1

/-- The frames of a cut stream end a message, or leave its first fragments pending. -/
theorem acceptAll_cut {msgs : List Message} {frames : List (List UInt8)}
    (h : frames <+: framesOf msgs) :
    (∃ n, frames = framesOf (msgs.take n)) ∨
      ∃ m ∈ msgs, ∃ j, 0 < j ∧ j < m.infos.length ∧
        (acceptAll [] frames).1 = m.infos.take j := by
  induction msgs generalizing frames with
  | nil => exact .inl ⟨0, List.prefix_nil.mp h⟩
  | cons m msgs ih =>
      have hframes : framesOf (m :: msgs) = m.frames ++ framesOf msgs := rfl
      rw [hframes] at h
      by_cases hlen : frames.length < m.frames.length
      · have hpre : frames <+: m.frames :=
          List.prefix_of_prefix_length_le h (List.prefix_append _ _) hlen.le
        have htake : (m.infos.take frames.length).map frameBytes = frames := by
          rw [List.map_take]
          exact (List.prefix_iff_eq_take.mp hpre).symm
        by_cases hnil : frames = []
        · exact .inl ⟨0, hnil⟩
        · have hj : frames.length < m.infos.length := by
            rwa [Message.frames, List.length_map] at hlen
          have hrun := m.acceptAll_take hj
          rw [htake] at hrun
          exact .inr ⟨m, List.mem_cons_self, _, List.length_pos_iff.mpr hnil, hj, by rw [hrun]⟩
      · obtain ⟨rest, rfl⟩ : m.frames <+: frames :=
          List.prefix_of_prefix_length_le (List.prefix_append _ _) h (by omega)
        rw [List.prefix_append_right_inj] at h
        obtain ⟨hall, -⟩ := m.acceptAll_frames (List.forall_mem_nil _)
        have hrest : (acceptAll [] (m.frames ++ rest)).1 = (acceptAll [] rest).1 := by
          rw [acceptAll_append, hall]
        rw [hrest]
        rcases ih h with ⟨n, rfl⟩ | ⟨m', hm', hj⟩
        · exact .inl ⟨n + 1, rfl⟩
        · exact .inr ⟨m', List.mem_cons_of_mem m hm', hj⟩

/-! ### Messages that show what was left -/

/-- A message without payload, in one frame. -/
def emptyMessage (cmd : UInt16) : Message where
  cmd := cmd
  type := 0
  ipnum := 0
  fragments := [[]]
  nonempty := by decide
  count_le := by decide
  fits := by decide

theorem emptyMessage_fitsChunk (cmd : UInt16) : (emptyMessage cmd).FitsChunk := by
  intro f hf
  rw [List.mem_singleton.mp hf]
  decide

/-- A message in two fragments of at most a byte. -/
def pairOf (cmd : UInt16) (f g : List UInt8) (hf : f.length ≤ 1) (hg : g.length ≤ 1) :
    Message where
  cmd := cmd
  type := 0
  ipnum := 0
  fragments := [f, g]
  nonempty := by simp
  count_le := by simp
  fits := by
    intro x hx
    have hlen : x.length ≤ 1 := by
      rcases List.mem_pair.mp hx with rfl | rfl
      · exact hf
      · exact hg
    have hmax : headLen + 1 + 4 ≤ fifoMaxLen := by decide
    omega

section

variable {s : SocketCmdClass} {queue : List UInt8} {pending : List SocketCmdInfo}

/-- The sent frame of an empty message. -/
def emptyFrame (cmd : UInt16) : List UInt8 :=
  frameBytes ((emptyMessage cmd).info 0 [])

theorem emptyFrame_zero : emptyFrame 0 = 0x47 :: 0x47 :: List.replicate 18 0 := by decide

/-- Behind what is queued, the bytes of an empty message are read as part of another
command. -/
theorem exists_cmd_ne (hne : queue ≠ []) :
    ∃ cmd, wordBE16 (byteAt (queue ++ emptyFrame cmd) 2) (byteAt (queue ++ emptyFrame cmd) 3) ≠
      cmd := by
  match queue with
  | [] => exact absurd rfl hne
  | [a] => exact ⟨0, by rw [emptyFrame_zero]; exact show wordBE16 0x47 0 ≠ 0 by decide⟩
  | [a, b] => exact ⟨0, by rw [emptyFrame_zero]; exact show wordBE16 0x47 0x47 ≠ 0 by decide⟩
  | [a, b, c] =>
      refine ⟨0, ?_⟩
      intro heq
      rw [emptyFrame_zero] at heq
      have hword : (wordBE16 c 0x47).toNat = 0 := congrArg UInt16.toNat heq
      simp only [wordBE16_toNat, UInt8.reduceToNat] at hword
      omega
  | a :: b :: c :: d :: rest =>
      by_cases hcd : wordBE16 c d = 0
      · exact ⟨1, fun heq => absurd (hcd.symm.trans heq) (by decide)⟩
      · exact ⟨0, hcd⟩

/-- A frame completed by new bytes reaches into them. -/
theorem nextFrame_append_rest {m b r : List UInt8} (hstop : nextFrame queue = none)
    (hnext : nextFrame (queue ++ m) = some (b, r)) : r.length < m.length := by
  obtain ⟨n, hn, -, rfl⟩ := nextFrame_eq_some hnext
  obtain ⟨heq, hge, hle, hsync⟩ := frameLen_eq_some hn
  have hhead : headLen = 16 := rfl
  have hlt : queue.length < n := by
    by_contra hge'
    rw [validLen_append (by omega)] at heq
    rw [byteAt_append (by omega), byteAt_append (by omega)] at hsync
    have hlong : frameLen queue = some n := by
      rw [frameLen, if_pos ⟨by omega, hsync, by omega⟩, heq]
    rw [nextFrame, hlong] at hstop
    exact absurd hstop (by simp)
  rw [List.length_drop, List.length_append]
  rw [List.length_append] at hle
  omega

theorem nextFrame_of_short {r : List UInt8} (hr : r.length < 20) : nextFrame r = none := by
  rw [nextFrame, frameLen, if_neg fun h => by have := h.1; simp [headLen] at this; omega]
  rfl

/-- An empty message behind queued bytes is not handed on. -/
theorem queued_spoils (h : Refines s queue pending) (hstop : nextFrame queue = none)
    {cmd : UInt16} (hroom : queue.length + (emptyFrame cmd).length ≤ fifoMaxLen)
    (hcmd : wordBE16 (byteAt (queue ++ emptyFrame cmd) 2) (byteAt (queue ++ emptyFrame cmd) 3) ≠
      cmd) :
    ∃ s' cs, recvChunk s (emptyFrame cmd) = some (s', cs) ∧
      cs ≠ [(emptyMessage cmd).delivered] := by
  cases hnext : nextFrame (queue ++ emptyFrame cmd) with
  | none =>
      obtain ⟨s', hrecv, -⟩ :=
        recvChunk_spec h hroom (by rw [drain_stop hnext]; rfl)
      rw [drain_stop hnext] at hrecv
      exact ⟨s', _, hrecv, by simp [acceptAll]⟩
  | some p =>
      obtain ⟨b, r⟩ := p
      have hrest := nextFrame_of_short (nextFrame_append_rest hstop hnext)
      obtain ⟨s', hrecv, -⟩ := recvChunk_frame h hnext hrest hroom
      refine ⟨s', _, hrecv, fun hout => hcmd ?_⟩
      obtain ⟨n, hn, rfl, -⟩ := nextFrame_eq_some hnext
      have hge := (frameLen_eq_some hn).2.1
      have hhead : headLen = 16 := rfl
      have hcmdOut : (accept pending ((queue ++ emptyFrame cmd).take n)).2.toList.map
          SocketCmd.cmd = [cmd] := by
        rw [hout]
        rfl
      rw [← byteAt_take (show 2 < n by omega), ← byteAt_take (show 3 < n by omega)]
      simp only [accept] at hcmdOut
      split at hcmdOut
      · simpa [frameInfo] using hcmdOut
      · simp at hcmdOut

/-! ### A pending message -/

theorem complete_cons_own {cmd : UInt16} {w : SocketCmdInfo} {ws : List SocketCmdInfo}
    (hown : ∀ v ∈ w :: ws, v.cmd = cmd) :
    RecvList.complete cmd (w :: ws) = decide (w.lastNo.toNat + 1 ≤ (w :: ws).length) := by
  have hcount : (w :: ws).countP (·.cmd == cmd) = (w :: ws).length :=
    List.countP_eq_length.mpr fun v hv => by simpa using hown v hv
  rw [RecvList.complete, hcount, List.find?_cons_of_pos (by simpa using hown w List.mem_cons_self)]

/-- Removing nodes of a single command is clean. -/
theorem cleanRemoval_own {cmd : UInt16} {vs : List SocketCmdInfo} (hown : ∀ v ∈ vs, v.cmd = cmd) :
    RecvList.cleanRemoval cmd vs = true := by
  have hnil : vs.dropWhile (·.cmd == cmd) = [] :=
    List.dropWhile_eq_nil_iff.mpr fun v hv => by simpa using hown v hv
  rw [RecvList.cleanRemoval, hnil]
  rfl

/-- The frames of a message, each in a chunk. -/
theorem serverRecv_frames (h : Refines s [] pending) {m : Message} (hfit : m.FitsChunk)
    (hclean : acceptAllClean pending m.frames = true) :
    ∃ s' css, serverRecv s m.frames = some (s', css) ∧
      css.flatten = (acceptAll pending m.frames).2 := by
  have hframes : framesOf [m] = m.frames := List.append_nil _
  have hdrain := drain_framesOf [m]
  rw [hframes] at hdrain
  have hcut : m.frames.flatten <+: (framesOf [m]).flatten := by rw [hframes]
  have hchunks : ∀ b ∈ m.frames, b.length ≤ recvMaxLen := by
    intro b hb
    obtain ⟨f, hf, hlen⟩ := m.length_of_mem hb
    rw [hlen]
    exact hfit f hf
  obtain ⟨s', css, hrun, hout, -⟩ :=
    serverRecv_stream h (by simpa using hfit) hcut hchunks (by rwa [hdrain])
  rw [hdrain] at hout
  exact ⟨s', css, hrun, hout⟩

section

variable {m : Message} {j : ℕ} {v : SocketCmdInfo}

/-- A frame of another message with the same command is counted as one more fragment. -/
theorem complete_take_append (hj : 0 < j) (hlt : j < m.infos.length) (hv : v.cmd = m.cmd) :
    (∀ w ∈ m.infos.take j ++ [v], w.cmd = m.cmd) ∧
      RecvList.complete m.cmd (m.infos.take j ++ [v]) = decide (m.infos.length ≤ j + 1) := by
  have hown : ∀ w ∈ m.infos.take j ++ [v], w.cmd = m.cmd := by
    intro w hw
    rcases List.mem_append.mp hw with hw | hw
    · exact (m.fragment_of_mem (List.mem_of_mem_take hw)).cmd_eq
    · rwa [List.mem_singleton.mp hw]
  have hlast := m.lastNo_toNat
  have hlength := m.length_infos
  have hlen : (m.infos.take j).length = j := by rw [List.length_take]; omega
  cases htake : m.infos.take j with
  | nil => simp [htake] at hlen; omega
  | cons w ws =>
      have hw : w ∈ m.infos := List.mem_of_mem_take (htake ▸ List.mem_cons_self)
      rw [htake, List.cons_append] at hown
      rw [htake] at hlen
      refine ⟨hown, ?_⟩
      rw [List.cons_append, complete_cons_own hown, (m.fragment_of_mem hw).lastNo_eq,
        decide_eq_decide, ← List.cons_append, List.length_append, hlen, List.length_singleton]
      omega

theorem accept_take_incomplete (hj : 0 < j) (hlt : j + 1 < m.infos.length)
    {lastNo : UInt16} (hv : Fragment m.cmd lastNo v) :
    accept (m.infos.take j) (frameBytes v) = (m.infos.take j ++ [v], none) ∧
      acceptClean (m.infos.take j) (frameBytes v) = true := by
  obtain ⟨-, hcomplete⟩ := complete_take_append hj (by omega) hv.cmd_eq
  rw [decide_eq_false (by omega)] at hcomplete
  simp [accept, acceptClean, link_frameBytes hv.wellFormed hv.checked,
    frameInfo_frameBytes hv.wellFormed, hv.cmd_eq, hcomplete]

theorem accept_take_complete (hj : 0 < j) (hlt : j + 1 = m.infos.length)
    {lastNo : UInt16} (hv : Fragment m.cmd lastNo v) :
    acceptClean (m.infos.take j) (frameBytes v) = true ∧
      ∃ c, accept (m.infos.take j) (frameBytes v) = ([], some c) ∧
        c.pcmd = (m.infos.take j).flatMap SocketCmdInfo.pValid ++ v.pValid := by
  obtain ⟨hown, hcomplete⟩ := complete_take_append hj (by omega) hv.cmd_eq
  rw [decide_eq_true (by omega)] at hcomplete
  have hnone : (m.infos.take j ++ [v]).filter (·.cmd != m.cmd) = [] :=
    List.filter_eq_nil_iff.mpr fun w hw => by simpa using hown w hw
  have hall : (m.infos.take j ++ [v]).filter (·.cmd == m.cmd) = m.infos.take j ++ [v] :=
    List.filter_eq_self.mpr fun w hw => by simpa using hown w hw
  simp only [accept, acceptClean, link_frameBytes hv.wellFormed hv.checked,
    frameInfo_frameBytes hv.wellFormed, hv.cmd_eq, hcomplete, if_true, hnone,
    cleanRemoval_own hown]
  exact ⟨by simp, _, rfl, by simp [RecvList.payloads, hall]⟩

end

/-- Fragments of a message left pending spoil a later message of the same command: it is
held back when more are missing, and otherwise takes the old payload along. -/
theorem pending_spoils {m : Message} {j : ℕ} (hj : 0 < j) (hlt : j < m.infos.length)
    (h : Refines s [] (m.infos.take j)) :
    ∃ m' : Message, m'.FitsChunk ∧ ∃ s' css, serverRecv s m'.frames = some (s', css) ∧
      css.flatten ≠ [m'.delivered] := by
  by_cases hmore : j + 1 < m.infos.length
  · have hv : Fragment m.cmd 0 ((emptyMessage m.cmd).info 0 []) :=
      ⟨sendInfo_cmd .., rfl, sendInfo_wellFormed .., sendInfo_checked ..⟩
    obtain ⟨haccept, hclean⟩ := accept_take_incomplete hj hmore hv
    have hframes : (emptyMessage m.cmd).frames =
        [frameBytes ((emptyMessage m.cmd).info 0 [])] := rfl
    have hfit := emptyMessage_fitsChunk m.cmd
    obtain ⟨s', css, hrun, hout⟩ := serverRecv_frames h hfit
      (by simp [hframes, acceptAllClean, hclean])
    refine ⟨_, hfit, s', css, hrun, ?_⟩
    rw [hout, hframes]
    simp [acceptAll, haccept]
  · obtain ⟨f, g, hf, hg, hne⟩ : ∃ f g : List UInt8, f.length ≤ 1 ∧ g.length ≤ 1 ∧
        (m.infos.take j).flatMap SocketCmdInfo.pValid ++ f ≠ f ++ g := by
      by_cases hold : (m.infos.take j).flatMap SocketCmdInfo.pValid = []
      · exact ⟨[], [0], by simp, by simp, by simp [hold]⟩
      · refine ⟨[0], [], by simp, by simp, fun heq => hold ?_⟩
        have hlen := congrArg List.length heq
        exact List.length_eq_zero_iff.mp (by simpa using hlen)
    have hfit : (pairOf m.cmd f g hf hg).FitsChunk := by
      intro x hx
      have hx' : x = f ∨ x = g := by simpa [pairOf] using hx
      simp only [headLen, recvMaxLen, fifoMaxLen]
      rcases hx' with rfl | rfl <;> omega
    have hv : ∀ i x, Fragment m.cmd 1 ((pairOf m.cmd f g hf hg).info i x) := fun i x =>
      ⟨sendInfo_cmd .., rfl, sendInfo_wellFormed .., sendInfo_checked ..⟩
    obtain ⟨hclean, c, haccept, hc⟩ :=
      accept_take_complete hj (by omega) (hv 0 f)
    have hpValid : ((pairOf m.cmd f g hf hg).info 0 f).pValid = f :=
      sendInfo_pValid _ _ _ _ (by omega)
    rw [hpValid] at hc
    obtain ⟨hsecond, hcleanSecond⟩ := acceptAll_incomplete (List.forall_mem_nil _)
      (List.forall_mem_nil _) [(pairOf m.cmd f g hf hg).info 1 g]
      (by simpa using hv 1 g) (show 0 + 1 ≤ (1 : UInt16).toNat by decide)
    have hframes : (pairOf m.cmd f g hf hg).frames =
        [frameBytes ((pairOf m.cmd f g hf hg).info 0 f),
          frameBytes ((pairOf m.cmd f g hf hg).info 1 g)] := rfl
    obtain ⟨s', css, hrun, hout⟩ := serverRecv_frames h hfit (by
      rw [hframes, acceptAllClean, hclean, haccept]
      simpa using hcleanSecond)
    refine ⟨_, hfit, s', css, hrun, fun hdel => hne ?_⟩
    rw [hout, hframes, acceptAll, haccept] at hdel
    simp only [List.map_cons, List.map_nil, List.append_nil] at hsecond
    simp only [hsecond, Option.toList_some, List.append_nil, List.cons.injEq, and_true] at hdel
    rw [← hc, hdel]
    simp [Message.delivered, Message.payload, pairOf]

end

/-! ### The accept loop -/

theorem serverAccept_pair {s s' : SocketCmdClass} {conn conn' : List (List UInt8)}
    {css css' : List (List SocketCmd)} :
    serverAccept s [conn, conn'] = some (s', [css, css']) ↔
      ∃ s₁, serverRecv s conn = some (s₁, css) ∧ serverRecv s₁ conn' = some (s', css') := by
  simp only [serverAccept, Option.bind_eq_bind]
  constructor
  · intro h
    obtain ⟨⟨s₁, css₁⟩, hrecv, h⟩ := Option.bind_eq_some_iff.mp h
    obtain ⟨⟨s₂, r⟩, h₂, h⟩ := Option.bind_eq_some_iff.mp h
    obtain ⟨⟨s₃, css₃⟩, hrecv', h₂⟩ := Option.bind_eq_some_iff.mp h₂
    simp only [Option.bind_some, Option.some.injEq, Prod.mk.injEq] at h h₂
    obtain ⟨rfl, rfl⟩ := h₂
    obtain ⟨rfl, hcss⟩ := h
    simp only [List.cons.injEq, and_true] at hcss
    obtain ⟨rfl, rfl⟩ := hcss
    exact ⟨s₁, hrecv, hrecv'⟩
  · rintro ⟨s₁, hrecv, hrecv'⟩
    simp [hrecv, hrecv']

/-- What the receiver holds after a connection that was cut off. -/
theorem serverRecv_earlier (mem : Vector UInt8 fifoMaxLen) {msgs : List Message}
    (hfit : ∀ m ∈ msgs, m.FitsChunk) {earlier : List (List UInt8)}
    (hcut : earlier.flatten <+: (framesOf msgs).flatten)
    (hchunks : ∀ arg ∈ earlier, arg.length ≤ recvMaxLen) :
    ∃ s css, serverRecv (initSocketCmdClass mem) earlier = some (s, css) ∧
      Refines (initCmdFifo s) (drain nextFrame earlier.flatten).2
        (acceptAll [] (drain nextFrame earlier.flatten).1).1 := by
  have hfresh := initSocketCmdClass_refines mem
  obtain ⟨s, css, hrun, -, href, -⟩ := serverRecv_cut hfresh hfit hcut hchunks
  cases earlier with
  | nil =>
      obtain ⟨rfl, -⟩ := Prod.mk.inj (Option.some.inj hrun)
      exact ⟨_, [], rfl, href⟩
  | cons arg earlier =>
      rw [serverRecv_initCmdFifo] at hrun
      rw [← href.toQueued.initCmdFifo] at href
      exact ⟨s, css, hrun, href⟩

section

variable {s s₁ : SocketCmdClass} {sendFd : ℕ} {earlier : List (List UInt8)}
  {css₀ : List (List SocketCmd)}

/-- Isolation says what the state left behind does with the next connection. -/
theorem isolated_iff (hrun : serverRecv s earlier = some (s₁, css₀)) :
    Isolated s sendFd earlier ↔
      ∀ (msgs : List Message) (args : List (List UInt8)), (∀ m ∈ msgs, m.FitsChunk) →
        args.flatten = (framesOf msgs).flatten →
        (∀ arg ∈ args, 1 ≤ arg.length ∧ arg.length ≤ recvMaxLen) →
        ∃ css, (∃ s', serverRecv (initCmdFifo s₁) args = some (s', css)) ∧
          css.flatten = msgs.map Message.delivered := by
  simp only [Isolated, flatMap_sent, serverAccept_pair, hrun, serverRecv_initCmdFifo_iff,
    Option.some.injEq, Prod.mk.injEq]
  constructor
  · intro h msgs args hfit hstream hchunks
    obtain ⟨s', css₀, css, ⟨s₂, ⟨rfl, rfl⟩, hrecv⟩, hout⟩ := h msgs args hfit hstream hchunks
    exact ⟨css, ⟨s', hrecv⟩, hout⟩
  · intro h msgs args hfit hstream hchunks
    obtain ⟨css, ⟨s', hrecv⟩, hout⟩ := h msgs args hfit hstream hchunks
    exact ⟨s', css₀, css, ⟨s₁, ⟨rfl, rfl⟩, hrecv⟩, hout⟩

/-- A message that is not handed on frame by frame refutes isolation. -/
theorem not_isolated_of_spoiled (hrun : serverRecv s earlier = some (s₁, css₀)) {m : Message}
    (hfit : m.FitsChunk) {s' : SocketCmdClass} {css : List (List SocketCmd)}
    (hrecv : serverRecv (initCmdFifo s₁) m.frames = some (s', css))
    (hne : css.flatten ≠ [m.delivered]) : ¬ Isolated s sendFd earlier := by
  rw [isolated_iff hrun]
  intro h
  have hframes : framesOf [m] = m.frames := List.append_nil _
  obtain ⟨css', ⟨s₂, hrecv'⟩, hout⟩ := h [m] m.frames (by simpa using hfit) (by rw [hframes])
    (by
      intro b hb
      obtain ⟨f, hf, hlen⟩ := m.length_of_mem hb
      have := hfit f hf
      omega)
  obtain ⟨-, rfl⟩ := Prod.mk.inj (Option.some.inj (hrecv.symm.trans hrecv'))
  exact hne hout

end

/-- The messages of the next connection are delivered, each once, in order and with its
own payload, whatever they are and however they are chunked, if and only if the earlier
connection was cut between two messages. -/
theorem isolated_iff_atBoundary (mem : Vector UInt8 fifoMaxLen) (sendFd : ℕ)
    (msgs₀ : List Message) (hfit₀ : ∀ m ∈ msgs₀, m.FitsChunk) (earlier : List (List UInt8))
    (hcut : earlier.flatten <+: msgs₀.flatMap (·.sent sendFd))
    (hchunks : ∀ arg ∈ earlier, 1 ≤ arg.length ∧ arg.length ≤ recvMaxLen) :
    Isolated (initSocketCmdClass mem) sendFd earlier ↔
      AtBoundary msgs₀ sendFd earlier.flatten := by
  rw [flatMap_sent] at hcut
  obtain ⟨s, css₀, hrun, href⟩ :=
    serverRecv_earlier mem hfit₀ hcut fun arg harg => (hchunks arg harg).2
  constructor
  · intro hisolated
    obtain ⟨hframes, hsplit, hrest⟩ := drain_framesOf_cut hcut
    by_cases hqueue : (drain nextFrame earlier.flatten).2 = []
    · rcases acceptAll_cut hframes with ⟨n, hn⟩ | ⟨m, -, j, hj, hlt, hpending⟩
      · refine ⟨n, ?_⟩
        rw [flatMap_sent, hsplit, hqueue, List.append_nil, hn]
      · rw [hqueue, hpending] at href
        obtain ⟨m', hfit, s', css, hrecv, hne⟩ := pending_spoils hj hlt href
        exact absurd hisolated (not_isolated_of_spoiled hrun hfit hrecv hne)
    · have hshort : (drain nextFrame earlier.flatten).2.length + 20 ≤ fifoMaxLen := by
        obtain ⟨b, hb, hpre, -⟩ := hrest.resolve_left hqueue
        have hle := hpre.length_le.trans (length_le_of_mem_framesOf hfit₀ hb)
        simp only [recvMaxLen, fifoMaxLen] at hle ⊢
        omega
      obtain ⟨cmd, hcmd⟩ := exists_cmd_ne hqueue
      obtain ⟨s', cs, hrecv, hne⟩ :=
        queued_spoils href (next_drain nextFrame_resumable _) hshort hcmd
      have hfit : (emptyMessage cmd).FitsChunk := emptyMessage_fitsChunk cmd
      have hone : serverRecv (initCmdFifo s) (emptyMessage cmd).frames = some (s', [cs]) := by
        have hframes : (emptyMessage cmd).frames = [emptyFrame cmd] := rfl
        simp [hframes, serverRecv, hrecv]
      exact absurd hisolated (not_isolated_of_spoiled hrun hfit hone (by simpa using hne))
  · rintro ⟨n, hn⟩
    rw [isolated_iff hrun]
    intro msgs args hfit hstream hargs
    rw [flatMap_sent] at hn
    rw [hn, drain_framesOf, (acceptAll_framesOf _).1] at href
    obtain ⟨s', css, hrecv, hout, -⟩ := serverRecv_cut href hfit (by rw [hstream])
      fun arg harg => (hargs arg harg).2
    rw [hstream, drain_framesOf, (acceptAll_framesOf msgs).1] at hout
    exact ⟨css, ⟨s', hrecv⟩, hout⟩

/-! ### A connection cut inside a header -/

/-- A connection that brought one whole message. -/
theorem isolated_pairMessage :
    Isolated (initSocketCmdClass (Vector.replicate fifoMaxLen 0)) 3 [pairMessage.sent 3] :=
  (isolated_iff_atBoundary _ 3 [pairMessage] (by decide) [pairMessage.sent 3]
    (by simp) (by decide +kernel)).mpr ⟨1, by simp⟩

/-- A connection that brought only the first byte of a message. -/
theorem not_isolated_first_byte :
    ∃ (msgs₀ : List Message) (earlier : List (List UInt8)), (∀ m ∈ msgs₀, m.FitsChunk) ∧
      earlier.flatten <+: msgs₀.flatMap (·.sent 3) ∧
      (∀ arg ∈ earlier, 1 ≤ arg.length ∧ arg.length ≤ recvMaxLen) ∧
      ¬ Isolated (initSocketCmdClass (Vector.replicate fifoMaxLen 0)) 3 earlier := by
  have hfit : ∀ m ∈ [pairMessage], m.FitsChunk := by decide
  have hcut : [[0x47]].flatten <+: [pairMessage].flatMap (·.sent 3) := by decide +kernel
  refine ⟨[pairMessage], [[0x47]], hfit, hcut, by decide, ?_⟩
  rw [flatMap_sent] at hcut
  obtain ⟨s, css₀, hrun, href⟩ := serverRecv_earlier (Vector.replicate fifoMaxLen 0) hfit hcut
    (by decide)
  have hstop : nextFrame [0x47] = none := rfl
  have hdrain : drain nextFrame ([[0x47]] : List (List UInt8)).flatten = ([], [0x47]) :=
    drain_stop hstop
  have hcmd : wordBE16 (byteAt ([0x47] ++ emptyFrame 0) 2)
      (byteAt ([0x47] ++ emptyFrame 0) 3) ≠ 0 := by decide
  rw [hdrain] at href
  obtain ⟨s', cs, hrecv, hne⟩ := queued_spoils href hstop (by decide) hcmd
  have hone : serverRecv (initCmdFifo s) (emptyMessage 0).frames = some (s', [cs]) := by
    have hframes : (emptyMessage 0).frames = [emptyFrame 0] := rfl
    simp [hframes, serverRecv, hrecv]
  exact not_isolated_of_spoiled hrun (emptyMessage_fitsChunk 0) hone (by simpa using hne)

end PanelTester.PackSocket
