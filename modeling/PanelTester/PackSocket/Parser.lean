import PanelTester.PackSocket.Fifo
import PanelTester.PackSocket.RecvList

/-!
The receiver of `packsocket.c` and the receive loop of `server_start`. The
faithful part parses frames out of the FIFO, links their payloads into the
receive list and hands on complete commands; a run has no result when it reads a
freed node. Beside it stands what the receiver is for: a byte queue cut into
frames (`nextFrame`) and a list of pending fragments that each frame updates
(`accept`). `Refines` connects the two, and `recvChunk_spec` says that feeding a
chunk is draining the queue, as long as every removal is clean.
-/

namespace PanelTester.PackSocket

open Library

/-- `socket_cmd_class_t` -/
structure SocketCmdClass where
  gstRecvSocketCmdList : RecvList
  cmdFifo : CmdFifo

/-- `init_socket_cmd_class` on the zeroed service object, with the memory `malloc`
returned for the FIFO. -/
def initSocketCmdClass (mem : Vector UInt8 fifoMaxLen) : SocketCmdClass where
  gstRecvSocketCmdList := ⟨Heap.empty, none⟩
  cmdFifo := { cmd := mem.toList, read := 0, write := 0, len := 0, maxLen := 0, bInit := 0 }

/-- `init_cmd_fifo` -/
def initCmdFifo (s : SocketCmdClass) : SocketCmdClass :=
  if s.cmdFifo.bInit ≠ 1 then
    { gstRecvSocketCmdList := { s.gstRecvSocketCmdList with psockCmdListHead := none }
      cmdFifo := s.cmdFifo.initCmdFifo }
  else s

/-- `recvSocketCmd`: a chunk that does not fit is dropped. -/
def recvSocketCmd (s : SocketCmdClass) (pData : List UInt8) : SocketCmdClass :=
  let s := initCmdFifo s
  match s.cmdFifo.writeCmdFifo pData with
  | none => s
  | some f => { s with cmdFifo := f }

/-- The first half of the loop of `parseSocketCmd`: link the frame in if its check
value is right. -/
def linkFrame (l : RecvList) (pBuffer : List UInt8) : Option RecvList :=
  if crcOk pBuffer then
    RecvList.addRecvList { l with heap := l.heap.alloc ⟨frameInfo pBuffer, none⟩ } l.heap.size
  else some l

/-- The second half: join and remove the fragments of a complete command. -/
def deliver (l : RecvList) (info : SocketCmdInfo) : Option (RecvList × SocketCmd) := do
  let c ← l.collect info.cmd
    { cmd := info.cmd, type := info.type, ipnum := info.ipnum, len := 0, pcmd := [] }
  let l ← l.destoryRecvList2 info.cmd
  some (l, c)

/-- The body of the loop of `parseSocketCmd`, from the frame read into `pBuffer`. The
completion test is made for good and bad frames alike. -/
def handleFrame (l : RecvList) (pBuffer : List UInt8) : Option (RecvList × Option SocketCmd) := do
  let l ← linkFrame l pBuffer
  let done ← l.checkRecvList2 (frameInfo pBuffer).cmd
  if done then
    let (l, c) ← deliver l (frameInfo pBuffer)
    some (l, some c)
  else some (l, none)

/-- The loop of `parseSocketCmd`. -/
def parseLoop : ℕ → SocketCmdClass → Option (SocketCmdClass × Option SocketCmd)
  | 0, _ => none
  | fuel + 1, s =>
      match s.cmdFifo.readCmdTryRead with
      | none => some (s, none)
      | some readLen => do
          let (pBuffer, f) := s.cmdFifo.readCmdFifo readLen
          let (l, r) ← handleFrame s.gstRecvSocketCmdList pBuffer
          match r with
          | some c => some (⟨l, f⟩, some c)
          | none => parseLoop fuel ⟨l, f⟩

/-- `parseSocketCmd`; a frame takes at least one byte, so the fuel lasts. -/
def parseSocketCmd (s : SocketCmdClass) : Option (SocketCmdClass × Option SocketCmd) :=
  let s := initCmdFifo s
  parseLoop (s.cmdFifo.len + 1) s

/-- The inner loop of `server_start`: parse until there is no command. -/
def drainCmds : ℕ → SocketCmdClass → Option (SocketCmdClass × List SocketCmd)
  | 0, _ => none
  | fuel + 1, s => do
      let (s, r) ← parseSocketCmd s
      match r with
      | none => some (s, [])
      | some c => do
          let (s, cs) ← drainCmds fuel s
          some (s, c :: cs)

/-- One round of the receive loop of `server_start`. -/
def recvChunk (s : SocketCmdClass) (arg : List UInt8) :
    Option (SocketCmdClass × List SocketCmd) :=
  let s := recvSocketCmd s arg
  drainCmds (s.cmdFifo.len + 1) s

/-- The receive loop of `server_start` on the chunks `recv` returns: the commands
handed to `msgProc` after each of them. -/
def serverRecv (s : SocketCmdClass) :
    List (List UInt8) → Option (SocketCmdClass × List (List SocketCmd))
  | [] => some (s, [])
  | arg :: args => do
      let (s, cs) ← recvChunk s arg
      let (s, css) ← serverRecv s args
      some (s, cs :: css)

/-- The accept loop of `server_start`: the connections one after the other. The service
object, and the receiver in it, outlives them. -/
def serverAccept (s : SocketCmdClass) :
    List (List (List UInt8)) → Option (SocketCmdClass × List (List (List SocketCmd)))
  | [] => some (s, [])
  | args :: conns => do
      let (s, css) ← serverRecv s args
      let (s, r) ← serverAccept s conns
      some (s, css :: r)

/-- The chunk is dropped by `recvSocketCmd`. -/
def Dropped (s : SocketCmdClass) (arg : List UInt8) : Prop :=
  (initCmdFifo s).cmdFifo.writeCmdFifo arg = none

/-! ### The purpose of the receiver -/

/-- The pending fragments once the frame is linked in. -/
def link (pending : List SocketCmdInfo) (pBuffer : List UInt8) : List SocketCmdInfo :=
  if crcOk pBuffer then pending ++ [frameInfo pBuffer] else pending

/-- A frame arrives: the fragments left pending, and the command it completes. -/
def accept (pending : List SocketCmdInfo) (pBuffer : List UInt8) :
    List SocketCmdInfo × Option SocketCmd :=
  let info := frameInfo pBuffer
  let linked := link pending pBuffer
  if RecvList.complete info.cmd linked then
    (linked.filter (·.cmd != info.cmd), some
      { cmd := info.cmd, type := info.type, ipnum := info.ipnum
        len := (RecvList.payloads info.cmd linked).length
        pcmd := RecvList.payloads info.cmd linked })
  else (linked, none)

/-- The frame completes no command, or its removal is clean. -/
def acceptClean (pending : List SocketCmdInfo) (pBuffer : List UInt8) : Bool :=
  !RecvList.complete (frameInfo pBuffer).cmd (link pending pBuffer) ||
    RecvList.cleanRemoval (frameInfo pBuffer).cmd (link pending pBuffer)

/-- Frames arrive one after the other. -/
def acceptAll : List SocketCmdInfo → List (List UInt8) → List SocketCmdInfo × List SocketCmd
  | pending, [] => (pending, [])
  | pending, b :: bs =>
      let (pending', out) := accept pending b
      ((acceptAll pending' bs).1, out.toList ++ (acceptAll pending' bs).2)

/-- Every removal along these frames is clean. -/
def acceptAllClean : List SocketCmdInfo → List (List UInt8) → Bool
  | _, [] => true
  | pending, b :: bs => acceptClean pending b && acceptAllClean (accept pending b).1 bs

theorem acceptAll_append (pending : List SocketCmdInfo) (bs cs : List (List UInt8)) :
    acceptAll pending (bs ++ cs) =
      ((acceptAll (acceptAll pending bs).1 cs).1,
        (acceptAll pending bs).2 ++ (acceptAll (acceptAll pending bs).1 cs).2) := by
  induction bs generalizing pending with
  | nil => rfl
  | cons b bs ih => simp [acceptAll, ih]

theorem acceptAllClean_append (pending : List SocketCmdInfo) (bs cs : List (List UInt8)) :
    acceptAllClean pending (bs ++ cs) =
      (acceptAllClean pending bs && acceptAllClean (acceptAll pending bs).1 cs) := by
  induction bs generalizing pending with
  | nil => rfl
  | cons b bs ih => simp [acceptAllClean, acceptAll, ih, Bool.and_assoc]

/-- A received frame is long enough for its length field. -/
def FrameSized (b : List UInt8) : Prop := b.length = headLen + validLen b + 4

theorem frameInfo_wellFormed {b : List UInt8} (h : FrameSized b) : WellFormed (frameInfo b) := by
  refine ⟨rfl, ?_⟩
  rw [FrameSized] at h
  simp only [frameInfo, validBytes, List.length_take, List.length_drop, validLen] at h ⊢
  omega

theorem drain_frameSized {q : List UInt8} : ∀ b ∈ (drain nextFrame q).1, FrameSized b := by
  induction q using drain_induction nextFrame_resumable with
  | stop q hq => simp [drain_stop hq]
  | step q b r hq ih =>
      obtain ⟨n, hn, rfl, rfl⟩ := nextFrame_eq_some hq
      obtain ⟨heq, hge, hle, -⟩ := frameLen_eq_some hn
      rw [drain_step nextFrame_resumable hq]
      rintro c (_ | ⟨_, hc⟩)
      · have hvalid : validLen (q.take n) = validLen q := by
          rw [← validLen_take, List.take_take, Nat.min_eq_left (by omega), validLen_take]
        rw [FrameSized, hvalid, List.length_take, Nat.min_eq_left hle, heq]
      · exact ih c hc

/-- The pending fragments are frames of their own length. -/
def AllWellFormed (pending : List SocketCmdInfo) : Prop := ∀ v ∈ pending, WellFormed v

theorem link_wellFormed {pending : List SocketCmdInfo} {b : List UInt8}
    (h : AllWellFormed pending) (hb : FrameSized b) : AllWellFormed (link pending b) := by
  rw [link]
  split
  · intro v hv
    rcases List.mem_append.mp hv with hv | hv
    · exact h v hv
    · rw [List.mem_singleton.mp hv]
      exact frameInfo_wellFormed hb
  · exact h

theorem accept_wellFormed {pending : List SocketCmdInfo} {b : List UInt8}
    (h : AllWellFormed pending) (hb : FrameSized b) : AllWellFormed (accept pending b).1 := by
  have hlink := link_wellFormed h hb
  simp only [accept]
  split
  · exact fun v hv => hlink v (List.mem_of_mem_filter hv)
  · exact hlink

/-! ### The faithful receiver does this -/

theorem linkFrame_spec {l : RecvList} {pending : List SocketCmdInfo} (hl : l.Holds pending)
    (b : List UInt8) : ∃ l', linkFrame l b = some l' ∧ l'.Holds (link pending b) := by
  rw [linkFrame, link]
  split
  · exact RecvList.addRecvList_spec hl _
  · exact ⟨l, rfl, hl⟩

/-- One frame: the command handed on is that of `accept`, and the list is the pending
fragments again exactly when the removal was clean. -/
theorem handleFrame_spec {l : RecvList} {pending : List SocketCmdInfo} {b : List UInt8}
    (hl : l.Holds pending) (hwf : AllWellFormed pending) (hb : FrameSized b) :
    ∃ l', handleFrame l b = some (l', (accept pending b).2) ∧
      (acceptClean pending b = true → l'.Holds (accept pending b).1) ∧
      (acceptClean pending b = false → l'.Dangling) := by
  obtain ⟨l₁, hlink, hl₁⟩ := linkFrame_spec hl b
  have hlinkwf := link_wellFormed hwf hb
  have hcheck := RecvList.checkRecvList2_spec hl₁ (frameInfo b).cmd
  simp only [handleFrame, hlink, Option.bind_eq_bind, Option.bind_some, hcheck, accept, acceptClean]
  by_cases hcomplete : RecvList.complete (frameInfo b).cmd (link pending b) = true
  · obtain ⟨l₂, hdestroy, hclean, hdirty⟩ :=
      RecvList.destoryRecvList2_spec hl₁ (frameInfo b).cmd
    refine ⟨l₂, ?_, ?_, ?_⟩
    · rw [if_pos hcomplete, if_pos hcomplete]
      simp [deliver, RecvList.collect_spec hl₁ hlinkwf, hdestroy]
    · rw [if_pos hcomplete]
      simpa [hcomplete] using hclean
    · simpa [hcomplete] using hdirty
  · refine ⟨l₁, ?_, ?_, ?_⟩
    · rw [if_neg hcomplete, if_neg hcomplete]
    · rw [if_neg hcomplete]
      exact fun _ => hl₁
    · simp [hcomplete]

/-- On a damaged list no frame is handled. -/
theorem handleFrame_dangling {l : RecvList} (hl : l.Dangling) (b : List UInt8) :
    handleFrame l b = none := by
  rw [handleFrame, linkFrame]
  by_cases hcrc : crcOk b = true
  · rw [if_pos hcrc, hl.addRecvList]
    rfl
  · simp only [if_neg hcrc, Option.bind_eq_bind, Option.bind_some]
    cases hcheck : l.checkRecvList2 (frameInfo b).cmd with
    | none => rfl
    | some done =>
        cases done with
        | false => exact absurd hcheck (hl.checkRecvList2 _)
        | true => simp [deliver, hl.collect]

/-- The FIFO of the receiver is set up and holds these bytes. -/
structure Queued (s : SocketCmdClass) (queue : List UInt8) : Prop where
  init : s.cmdFifo.bInit = 1
  maxLen : s.cmdFifo.maxLen = fifoMaxLen
  good : s.cmdFifo.Good
  content : s.cmdFifo.content = queue

/-- The receiver stands for a byte queue and a list of pending fragments. -/
structure Refines (s : SocketCmdClass) (queue : List UInt8) (pending : List SocketCmdInfo) :
    Prop extends Queued s queue where
  holds : s.gstRecvSocketCmdList.Holds pending
  wellFormed : AllWellFormed pending

section

variable {s : SocketCmdClass} {queue : List UInt8} {pending : List SocketCmdInfo}

theorem Queued.initCmdFifo (h : Queued s queue) : initCmdFifo s = s := by
  simp [PackSocket.initCmdFifo, h.init]

theorem Queued.len (h : Queued s queue) : s.cmdFifo.len = queue.length := by
  rw [← h.content, h.good.length_content]

theorem Queued.length_le (h : Queued s queue) : queue.length ≤ fifoMaxLen := by
  rw [← h.len, ← h.maxLen]
  exact h.good.len_le

/-- A fresh receiver, set up by its first use, stands for nothing received. -/
theorem initSocketCmdClass_refines (mem : Vector UInt8 fifoMaxLen) :
    Refines (PackSocket.initCmdFifo (initSocketCmdClass mem)) [] [] where
  init := rfl
  maxLen := rfl
  good := by
    refine ⟨mem.length_toList, ?_, ?_, ?_⟩ <;>
      simp [PackSocket.initCmdFifo, initSocketCmdClass, CmdFifo.initCmdFifo, fifoMaxLen, wrap]
  content := rfl
  holds := ⟨[], rfl, rfl⟩
  wellFormed := by simp [AllWellFormed]

/-- A chunk that fits is queued. -/
theorem recvSocketCmd_queued (h : Queued s queue) {arg : List UInt8}
    (hfit : queue.length + arg.length ≤ fifoMaxLen) :
    Queued (recvSocketCmd s arg) (queue ++ arg) ∧
      (recvSocketCmd s arg).gstRecvSocketCmdList = s.gstRecvSocketCmdList := by
  have hroom : s.cmdFifo.len + arg.length ≤ s.cmdFifo.maxLen := by
    rw [h.len, h.maxLen]
    exact hfit
  obtain ⟨f', hwrite, hgood, hcontent, hmax, hinit⟩ := CmdFifo.writeCmdFifo_spec h.good hroom
  simp only [recvSocketCmd, h.initCmdFifo, hwrite, and_true]
  exact ⟨hinit.trans h.init, hmax.trans h.maxLen, hgood, by rw [hcontent, h.content]⟩

theorem recvSocketCmd_refines (h : Refines s queue pending) {arg : List UInt8}
    (hfit : queue.length + arg.length ≤ fifoMaxLen) :
    Refines (recvSocketCmd s arg) (queue ++ arg) pending := by
  obtain ⟨hqueued, hlist⟩ := recvSocketCmd_queued h.toQueued hfit
  exact ⟨hqueued, by rw [hlist]; exact h.holds, h.wellFormed⟩

/-- A chunk is dropped exactly when it does not fit. -/
theorem dropped_iff (h : Queued s queue) {arg : List UInt8} :
    Dropped s arg ↔ fifoMaxLen < queue.length + arg.length := by
  rw [Dropped, h.initCmdFifo, CmdFifo.writeCmdFifo_eq_none, h.len, h.maxLen]

theorem recvSocketCmd_dropped (h : Queued s queue) {arg : List UInt8} (hdrop : Dropped s arg) :
    recvSocketCmd s arg = s := by
  rw [Dropped, h.initCmdFifo] at hdrop
  simp only [recvSocketCmd, h.initCmdFifo, hdrop]

theorem initCmdFifo_initCmdFifo (s : SocketCmdClass) :
    initCmdFifo (initCmdFifo s) = initCmdFifo s := by
  unfold PackSocket.initCmdFifo
  by_cases hinit : s.cmdFifo.bInit = 1
  · simp [hinit]
  · simp [hinit, CmdFifo.initCmdFifo]

/-- The first use sets the receiver up. -/
theorem recvChunk_initCmdFifo (s : SocketCmdClass) (arg : List UInt8) :
    recvChunk (initCmdFifo s) arg = recvChunk s arg := by
  have hrecv : recvSocketCmd (initCmdFifo s) arg = recvSocketCmd s arg := by
    simp only [recvSocketCmd, initCmdFifo_initCmdFifo]
  simp only [recvChunk, hrecv]

/-! ### Draining -/

/-- Without a complete frame in the queue, parsing changes nothing and touches no
node. -/
theorem parseLoop_stop (h : Queued s queue) (hstop : nextFrame queue = none) (fuel : ℕ) :
    parseLoop (fuel + 1) s = some (s, none) := by
  have htry : s.cmdFifo.readCmdTryRead = none := by
    rw [CmdFifo.readCmdTryRead_eq h.good, h.content]
    simpa [nextFrame] using hstop
  simp only [parseLoop, htry]

/-- With one, it is read from the FIFO and handled. -/
theorem parseLoop_step (h : Queued s queue) {b r : List UInt8}
    (hnext : nextFrame queue = some (b, r)) (fuel : ℕ) :
    ∃ f, (∀ l, Queued ⟨l, f⟩ r) ∧ FrameSized b ∧
      parseLoop (fuel + 1) s =
        (handleFrame s.gstRecvSocketCmdList b).bind fun p =>
          match p.2 with
          | some c => some (⟨p.1, f⟩, some c)
          | none => parseLoop fuel ⟨p.1, f⟩ := by
  have hsized : FrameSized b := drain_frameSized (q := queue) b (by
    rw [drain_step nextFrame_resumable hnext]
    exact List.mem_cons_self)
  obtain ⟨n, hn, rfl, rfl⟩ := nextFrame_eq_some hnext
  have hle := (frameLen_eq_some hn).2.2.1
  have htry : s.cmdFifo.readCmdTryRead = some n := by
    rw [CmdFifo.readCmdTryRead_eq h.good, h.content, hn]
  obtain ⟨hbuf, hgood, hcontent, hmax, hinit⟩ :=
    CmdFifo.readCmdFifo_spec h.good (show n ≤ s.cmdFifo.len by rw [h.len]; exact hle)
  rw [h.content] at hbuf hcontent
  refine ⟨(s.cmdFifo.readCmdFifo n).2,
    fun l => ⟨hinit.trans h.init, hmax.trans h.maxLen, hgood, hcontent⟩, hsized, ?_⟩
  simp only [parseLoop, htry, hbuf, Option.bind_eq_bind]

/-- Parse on with the first call's fuel given. -/
def drainFrom (fuel fuel' : ℕ) (s : SocketCmdClass) :
    Option (SocketCmdClass × List SocketCmd) :=
  (parseLoop fuel s).bind fun p =>
    match p.2 with
    | none => some (p.1, [])
    | some c => (drainCmds fuel' p.1).bind fun q => some (q.1, c :: q.2)

theorem drainCmds_succ (h : Queued s queue) (fuel : ℕ) :
    drainCmds (fuel + 1) s = drainFrom (s.cmdFifo.len + 1) fuel s := by
  simp only [drainCmds, drainFrom, parseSocketCmd, h.initCmdFifo, Option.bind_eq_bind]

/-- Draining handles every complete frame of the queue, as long as the removals are
clean. -/
theorem drainFrom_spec (queue : List UInt8) :
    ∀ {s : SocketCmdClass} {pending : List SocketCmdInfo} {fuel fuel' : ℕ},
      Refines s queue pending → queue.length < fuel → queue.length ≤ fuel' →
      acceptAllClean pending (drain nextFrame queue).1 = true →
      ∃ s', drainFrom fuel fuel' s =
          some (s', (acceptAll pending (drain nextFrame queue).1).2) ∧
        Refines s' (drain nextFrame queue).2
          (acceptAll pending (drain nextFrame queue).1).1 := by
  induction queue using drain_induction nextFrame_resumable with
  | stop queue hstop =>
      intro s pending fuel fuel' href hfuel _ _
      obtain ⟨fuel, rfl⟩ := Nat.exists_eq_succ_of_ne_zero (by omega : fuel ≠ 0)
      rw [drain_stop hstop]
      exact ⟨s, by rw [drainFrom, parseLoop_stop href.toQueued hstop]; rfl, href⟩
  | step queue b r hnext ih =>
      intro s pending fuel fuel' href hfuel hfuel' hclean
      obtain ⟨fuel, rfl⟩ := Nat.exists_eq_succ_of_ne_zero (by omega : fuel ≠ 0)
      have hshrink := nextFrame_resumable.shrink hnext
      obtain ⟨f, hqueued, hsized, hparse⟩ := parseLoop_step href.toQueued hnext fuel
      obtain ⟨l, hhandle, hholds, -⟩ := handleFrame_spec href.holds href.wellFormed hsized
      rw [drain_step nextFrame_resumable hnext] at hclean ⊢
      simp only [acceptAllClean, Bool.and_eq_true] at hclean
      have href' : Refines ⟨l, f⟩ r (accept pending b).1 :=
        ⟨hqueued l, hholds hclean.1, accept_wellFormed href.wellFormed hsized⟩
      simp only [acceptAll]
      cases hout : (accept pending b).2 with
      | none =>
          have hskip : drainFrom (fuel + 1) fuel' s = drainFrom fuel fuel' ⟨l, f⟩ := by
            simp only [drainFrom, hparse, hhandle, hout, Option.bind_some]
          rw [hskip]
          exact ih href' (by omega) (by omega) hclean.2
      | some c =>
          obtain ⟨fuel', rfl⟩ := Nat.exists_eq_succ_of_ne_zero (by omega : fuel' ≠ 0)
          obtain ⟨s', hdrain, hs'⟩ := ih href' (Nat.lt_succ_self r.length)
            (show r.length ≤ fuel' by omega) hclean.2
          refine ⟨s', ?_, hs'⟩
          have hrest : drainCmds (fuel' + 1) ⟨l, f⟩ =
              some (s', (acceptAll (accept pending b).1 (drain nextFrame r).1).2) := by
            rw [drainCmds_succ href'.toQueued, href'.len, hdrain]
          simp only [drainFrom, hparse, hhandle, hout, Option.bind_some, hrest]
          rfl

/-- One round of the receive loop: the chunk joins the queue, the complete frames are
handled in order, and what is left of the queue waits. -/
theorem recvChunk_spec (h : Refines s queue pending) {arg : List UInt8}
    (hfit : queue.length + arg.length ≤ fifoMaxLen)
    (hclean : acceptAllClean pending (drain nextFrame (queue ++ arg)).1 = true) :
    ∃ s', recvChunk s arg =
        some (s', (acceptAll pending (drain nextFrame (queue ++ arg)).1).2) ∧
      Refines s' (drain nextFrame (queue ++ arg)).2
        (acceptAll pending (drain nextFrame (queue ++ arg)).1).1 := by
  have href := recvSocketCmd_refines h hfit
  simp only [recvChunk, drainCmds_succ href.toQueued]
  exact drainFrom_spec _ href (by rw [href.len]; omega) (by rw [href.len]) hclean

/-- One round that completes a single frame, whether the removal is clean or not. -/
theorem recvChunk_frame (h : Refines s queue pending) {arg b r : List UInt8}
    (hnext : nextFrame (queue ++ arg) = some (b, r)) (hrest : nextFrame r = none)
    (hfit : queue.length + arg.length ≤ fifoMaxLen) :
    ∃ s', recvChunk s arg = some (s', (accept pending b).2.toList) ∧
      (acceptClean pending b = true → Refines s' r (accept pending b).1) ∧
      (acceptClean pending b = false → Queued s' r ∧ s'.gstRecvSocketCmdList.Dangling) := by
  have href := recvSocketCmd_refines h hfit
  have hshrink := nextFrame_resumable.shrink hnext
  obtain ⟨f, hqueued, hsized, hparse⟩ :=
    parseLoop_step href.toQueued hnext (queue ++ arg).length
  obtain ⟨l, hhandle, hholds, hdangling⟩ := handleFrame_spec href.holds href.wellFormed hsized
  have hstop : ∀ n, parseLoop (n + 1) ⟨l, f⟩ = some (⟨l, f⟩, none) :=
    parseLoop_stop (hqueued l) hrest
  refine ⟨⟨l, f⟩, ?_, fun hclean => ?_, fun hdirty => ⟨hqueued l, hdangling hdirty⟩⟩
  · obtain ⟨n, hn⟩ := Nat.exists_eq_succ_of_ne_zero (Nat.ne_zero_of_lt hshrink)
    simp only [recvChunk, drainCmds_succ href.toQueued, href.len, drainFrom, hparse, hhandle]
    rw [hn]
    cases hout : (accept pending b).2 with
    | none => simp [hstop]
    | some c =>
        have hcmds : drainCmds (n + 1) ⟨l, f⟩ = some (⟨l, f⟩, []) := by
          rw [drainCmds_succ (hqueued l), drainFrom, hstop]
          rfl
        simp [hcmds]
  · exact ⟨hqueued l, hholds hclean, accept_wellFormed href.wellFormed hsized⟩

/-- A damaged list does not survive the next frame. -/
theorem recvChunk_dangling {arg b r : List UInt8} (h : Queued (recvSocketCmd s arg) queue)
    (hlist : (recvSocketCmd s arg).gstRecvSocketCmdList.Dangling)
    (hnext : nextFrame queue = some (b, r)) : recvChunk s arg = none := by
  obtain ⟨f, -, -, hparse⟩ := parseLoop_step h hnext (recvSocketCmd s arg).cmdFifo.len
  rw [recvChunk, drainCmds_succ h, drainFrom, hparse, handleFrame_dangling hlist]
  rfl

end

end PanelTester.PackSocket
