import PanelTester.PackSocket.Delivery

/-!
When the receiver can still deliver. `read_cmd_try_read` never skips a byte: queued
bytes that cannot begin a frame stay in front, and whatever arrives joins them
behind or is dropped. `canDeliver_iff` describes the states from which some
continuation of the input is handed on, among all states that a run from a fresh
receiver can reach, whatever bytes it was fed.
-/

namespace PanelTester.PackSocket

open Library

/-- Some continuation of the input completes a command. -/
def CanDeliver (s : SocketCmdClass) : Prop :=
  ∃ args, (∀ arg ∈ args, 1 ≤ arg.length ∧ arg.length ≤ recvMaxLen) ∧
    ∃ s' css, serverRecv s args = some (s', css) ∧ css.flatten ≠ []

/-- The queued bytes can begin a frame that fits the FIFO: no byte of the sync word is
wrong, and the length field, what is missing of it read as zero, is not too large. -/
def Syncable (queue : List UInt8) : Prop :=
  (queue.take 2).all (· == 0x47) = true ∧ headLen + validLen queue + 4 ≤ fifoMaxLen

instance (queue : List UInt8) : Decidable (Syncable queue) := by unfold Syncable; infer_instance

/-! ### What every run preserves -/

/-- The FIFO holds these bytes, and the receive list is either intact or runs into a
freed node. -/
structure Sound (s : SocketCmdClass) (queue : List UInt8) : Prop extends Queued s queue where
  list : (∃ pending, s.gstRecvSocketCmdList.Holds pending ∧ AllWellFormed pending) ∨
    s.gstRecvSocketCmdList.Dangling

section

variable {s : SocketCmdClass} {queue : List UInt8} {pending : List SocketCmdInfo}

theorem Refines.sound (h : Refines s queue pending) : Sound s queue :=
  ⟨h.toQueued, .inl ⟨pending, h.holds, h.wellFormed⟩⟩

theorem Sound.refines (h : Sound s queue) (hlist : ¬ s.gstRecvSocketCmdList.Dangling) :
    ∃ pending, Refines s queue pending := by
  obtain ⟨pending, hholds, hwf⟩ := h.list.resolve_right hlist
  exact ⟨pending, h.toQueued, hholds, hwf⟩

/-- A frame that is handled leaves a list of either kind. -/
theorem handleFrame_sound {l l' : RecvList} {b : List UInt8} {r : Option SocketCmd}
    (hl : (∃ pending, l.Holds pending ∧ AllWellFormed pending) ∨ l.Dangling)
    (hb : FrameSized b) (hhandle : handleFrame l b = some (l', r)) :
    (∃ pending, l'.Holds pending ∧ AllWellFormed pending) ∨ l'.Dangling := by
  rcases hl with ⟨pending, hholds, hwf⟩ | hdangling
  · obtain ⟨l₁, hspec, hclean, hdirty⟩ := handleFrame_spec hholds hwf hb
    obtain ⟨rfl, -⟩ := Prod.mk.inj (Option.some.inj (hspec.symm.trans hhandle))
    cases hstep : acceptClean pending b with
    | true => exact .inl ⟨_, hclean hstep, accept_wellFormed hwf hb⟩
    | false => exact .inr (hdirty hstep)
  · rw [handleFrame_dangling hdangling] at hhandle
    exact absurd hhandle (by simp)

theorem drainFrom_sound (queue : List UInt8) :
    ∀ {s s' : SocketCmdClass} {cs : List SocketCmd} {fuel fuel' : ℕ}, Sound s queue →
      drainFrom fuel fuel' s = some (s', cs) → Sound s' (drain nextFrame queue).2 := by
  induction queue using drain_induction nextFrame_resumable with
  | stop queue hstop =>
      intro s s' cs fuel fuel' h hdrain
      rw [drain_stop hstop]
      cases fuel with
      | zero => exact absurd hdrain (by simp [drainFrom, parseLoop])
      | succ fuel =>
          rw [drainFrom, parseLoop_stop h.toQueued hstop] at hdrain
          obtain ⟨rfl, -⟩ := Prod.mk.inj (Option.some.inj hdrain)
          exact h
  | step queue b r hnext ih =>
      intro s s' cs fuel fuel' h hdrain
      rw [drain_step nextFrame_resumable hnext]
      cases fuel with
      | zero => exact absurd hdrain (by simp [drainFrom, parseLoop])
      | succ fuel =>
          obtain ⟨f, hqueued, hsized, hparse⟩ := parseLoop_step h.toQueued hnext fuel
          rw [drainFrom, hparse] at hdrain
          cases hhandle : handleFrame s.gstRecvSocketCmdList b with
          | none => exact absurd hdrain (by simp [hhandle])
          | some p =>
              obtain ⟨l, out⟩ := p
              have h' : Sound ⟨l, f⟩ r := ⟨hqueued l, handleFrame_sound h.list hsized hhandle⟩
              rw [hhandle, Option.bind_some] at hdrain
              cases out with
              | none => exact ih h' hdrain
              | some c =>
                  have hcmds : (drainCmds fuel' ⟨l, f⟩).bind (fun q => some (q.1, c :: q.2)) =
                      some (s', cs) := hdrain
                  obtain ⟨p, hrest, hout⟩ := Option.bind_eq_some_iff.mp hcmds
                  obtain ⟨rfl, -⟩ := Prod.mk.inj (Option.some.inj hout)
                  cases fuel' with
                  | zero => exact absurd hrest (by simp [drainCmds])
                  | succ fuel' =>
                      rw [drainCmds_succ h'.toQueued] at hrest
                      exact ih h' hrest

/-- The chunk is queued or dropped. -/
theorem recvSocketCmd_cases (h : Queued s queue) (arg : List UInt8) :
    ∃ m, Queued (recvSocketCmd s arg) (queue ++ m) ∧
      (recvSocketCmd s arg).gstRecvSocketCmdList = s.gstRecvSocketCmdList := by
  by_cases hfit : queue.length + arg.length ≤ fifoMaxLen
  · exact ⟨arg, recvSocketCmd_queued h hfit⟩
  · rw [recvSocketCmd_dropped h ((dropped_iff h).mpr (by omega))]
    exact ⟨[], by rwa [List.append_nil], rfl⟩

theorem recvChunk_stop {arg : List UInt8} (h : Queued (recvSocketCmd s arg) queue)
    (hstop : nextFrame queue = none) : recvChunk s arg = some (recvSocketCmd s arg, []) := by
  rw [recvChunk, drainCmds_succ h, drainFrom, parseLoop_stop h hstop]
  rfl

theorem recvChunk_sound {s' : SocketCmdClass} {arg : List UInt8} {cs : List SocketCmd}
    (h : Sound s queue) (hrecv : recvChunk s arg = some (s', cs)) :
    ∃ queue', Sound s' queue' ∧ nextFrame queue' = none := by
  obtain ⟨m, hqueued, hlist⟩ := recvSocketCmd_cases h.toQueued arg
  have h₁ : Sound (recvSocketCmd s arg) (queue ++ m) := ⟨hqueued, by rw [hlist]; exact h.list⟩
  rw [recvChunk, drainCmds_succ hqueued] at hrecv
  exact ⟨_, drainFrom_sound (queue ++ m) h₁ hrecv, next_drain nextFrame_resumable _⟩

theorem serverRecv_sound {s' : SocketCmdClass} {args : List (List UInt8)}
    {css : List (List SocketCmd)} (h : Sound s queue) (hstop : nextFrame queue = none)
    (hrun : serverRecv s args = some (s', css)) :
    ∃ queue', Sound s' queue' ∧ nextFrame queue' = none := by
  induction args generalizing s queue css with
  | nil =>
      obtain ⟨rfl, -⟩ := Prod.mk.inj (Option.some.inj hrun)
      exact ⟨queue, h, hstop⟩
  | cons arg args ih =>
      obtain ⟨⟨s₁, cs⟩, hrecv, hrun⟩ := Option.bind_eq_some_iff.mp hrun
      obtain ⟨⟨s₂, css₂⟩, hrest, hout⟩ := Option.bind_eq_some_iff.mp hrun
      obtain ⟨rfl, -⟩ := Prod.mk.inj (Option.some.inj hout)
      obtain ⟨queue₁, h₁, hstop₁⟩ := recvChunk_sound h hrecv
      exact ih h₁ hstop₁ hrest

/-! ### Wedged receivers -/

theorem byteAt_eq_of_lt {m : List UInt8} {i : ℕ} (hi : i < queue.length) :
    byteAt (queue ++ m) i = queue[i] := by
  rw [byteAt_append hi]
  simp [byteAt, hi]

/-- The length field can only grow with the bytes still to come. -/
theorem validLen_le_append (queue m : List UInt8) : validLen queue ≤ validLen (queue ++ m) := by
  have hbyte : ∀ i, (byteAt queue i).toNat ≤ (byteAt (queue ++ m) i).toNat := by
    intro i
    by_cases hi : i < queue.length
    · rw [byteAt_append hi]
    · simp [byteAt, List.getElem?_eq_none (Nat.not_lt.mp hi)]
  have h₁ := hbyte 14
  have h₂ := hbyte 15
  simp only [validLen, wordBE16_toNat]
  omega

theorem syncHead_bytes {a b : UInt8} (h : wordBE16 a b = syncHead) : a = 0x47 ∧ b = 0x47 := by
  have hword := congrArg UInt16.toNat h
  have ha := a.toNat_lt
  have hb := b.toNat_lt
  rw [wordBE16_toNat] at hword
  simp only [syncHead, UInt16.reduceToNat] at hword
  refine ⟨UInt8.toNat_inj.mp ?_, UInt8.toNat_inj.mp ?_⟩ <;> simp only [UInt8.reduceToNat] <;> omega

/-- Bytes that cannot begin a frame never become one. -/
theorem nextFrame_of_not_syncable (hsync : ¬ Syncable queue) (m : List UInt8)
    (hlen : (queue ++ m).length ≤ fifoMaxLen) : nextFrame (queue ++ m) = none := by
  by_contra hnone
  obtain ⟨⟨b, r⟩, hnext⟩ := Option.ne_none_iff_exists'.mp hnone
  refine hsync ?_
  obtain ⟨n, hn, -, -⟩ := nextFrame_eq_some hnext
  obtain ⟨heq, -, hle, hsync⟩ := frameLen_eq_some hn
  have hgrow := validLen_le_append queue m
  obtain ⟨h₀, h₁⟩ := syncHead_bytes hsync
  refine ⟨List.all_eq_true.mpr fun b hb => beq_iff_eq.mpr ?_, by omega⟩
  obtain ⟨i, hi, rfl⟩ := List.mem_take_iff_getElem.mp hb
  have hi' : i = 0 ∨ i = 1 := by omega
  rcases hi' with rfl | rfl
  · rw [← h₀, byteAt_eq_of_lt]
  · rw [← h₁, byteAt_eq_of_lt]

/-- Whatever arrives behind such bytes, parsing finds no frame. -/
theorem serverRecv_wedged (h : Queued s queue)
    (hwedged : ∀ m, (queue ++ m).length ≤ fifoMaxLen → nextFrame (queue ++ m) = none)
    (args : List (List UInt8)) :
    ∃ s' css, serverRecv s args = some (s', css) ∧ css.flatten = [] ∧
      s'.gstRecvSocketCmdList = s.gstRecvSocketCmdList := by
  induction args generalizing s queue with
  | nil => exact ⟨s, [], rfl, rfl, rfl⟩
  | cons arg args ih =>
      obtain ⟨m, h₁, hlist⟩ := recvSocketCmd_cases h arg
      have hwedged₁ : ∀ m', (queue ++ m ++ m').length ≤ fifoMaxLen →
          nextFrame (queue ++ m ++ m') = none := by
        intro m' hm'
        rw [List.append_assoc] at hm' ⊢
        exact hwedged _ hm'
      have hrecv := recvChunk_stop h₁ (hwedged m h₁.length_le)
      obtain ⟨s', css, hrun, hout, hlist'⟩ := ih h₁ hwedged₁
      refine ⟨s', [] :: css, ?_, hout, hlist'.trans hlist⟩
      simp only [serverRecv, hrecv, hrun, Option.bind_eq_bind, Option.bind_some]

/-- With a damaged list, no frame is survived. -/
theorem serverRecv_dangling {s' : SocketCmdClass} {args : List (List UInt8)}
    {css : List (List SocketCmd)} (h : Queued s queue)
    (hlist : s.gstRecvSocketCmdList.Dangling) (hrun : serverRecv s args = some (s', css)) :
    css.flatten = [] := by
  induction args generalizing s queue css with
  | nil =>
      obtain ⟨-, rfl⟩ := Prod.mk.inj (Option.some.inj hrun)
      rfl
  | cons arg args ih =>
      obtain ⟨m, h₁, hsame⟩ := recvSocketCmd_cases h arg
      have hlist₁ : (recvSocketCmd s arg).gstRecvSocketCmdList.Dangling := hsame ▸ hlist
      obtain ⟨⟨s₁, cs⟩, hrecv, hrun⟩ := Option.bind_eq_some_iff.mp hrun
      obtain ⟨⟨s₂, css₂⟩, hrest, hout⟩ := Option.bind_eq_some_iff.mp hrun
      obtain ⟨rfl, rfl⟩ := Prod.mk.inj (Option.some.inj hout)
      cases hnext : nextFrame (queue ++ m) with
      | none =>
          obtain ⟨rfl, rfl⟩ := Prod.mk.inj (Option.some.inj
            ((recvChunk_stop h₁ hnext).symm.trans hrecv))
          have hflat : css₂.flatten = [] := ih h₁ hlist₁ hrest
          exact hflat
      | some p =>
          rw [recvChunk_dangling h₁ hlist₁ hnext] at hrecv
          exact absurd hrecv (by simp)

/-! ### Completing what is queued -/

/-- The bytes that make a frame of what is queued: the rest of the sync word, then
zeros. -/
def fillBytes (queue : List UInt8) : List UInt8 :=
  (List.range' queue.length (headLen + validLen queue + 4 - queue.length)).map fun i =>
    if i < 2 then 0x47 else 0

theorem length_fill (hle : queue.length ≤ headLen + validLen queue + 4) :
    (queue ++ fillBytes queue).length = headLen + validLen queue + 4 := by
  simp only [fillBytes, List.length_append, List.length_map, List.length_range']
  omega

theorem byteAt_fill {i : ℕ} (hi : i < headLen + validLen queue + 4) :
    byteAt (queue ++ fillBytes queue) i =
      if i < queue.length then byteAt queue i else if i < 2 then 0x47 else 0 := by
  by_cases hq : i < queue.length
  · rw [if_pos hq, byteAt_append hq]
  · have hidx : i - queue.length < headLen + validLen queue + 4 - queue.length := by omega
    rw [if_neg hq]
    simp only [byteAt, List.getD_eq_getElem?_getD]
    rw [List.getElem?_append_right (by omega), fillBytes, List.getElem?_map,
      List.getElem?_range' hidx]
    simp only [Option.map_some, Option.getD_some]
    rw [show queue.length + 1 * (i - queue.length) = i by omega]

theorem byteAt_of_ge {i : ℕ} (hi : queue.length ≤ i) : byteAt queue i = 0 := by
  simp [byteAt, List.getElem?_eq_none hi]

/-- Filled up like this, what is queued is one frame. -/
theorem nextFrame_fill (h : Syncable queue) (hstop : nextFrame queue = none) :
    queue.length < headLen + validLen queue + 4 ∧
      nextFrame (queue ++ fillBytes queue) = some (queue ++ fillBytes queue, []) := by
  have hsync : ∀ i < 2, i < queue.length → byteAt queue i = 0x47 := by
    intro i hi hlt
    have hmem : byteAt queue i ∈ queue.take 2 :=
      List.mem_take_iff_getElem.mpr ⟨i, by omega, by simp [byteAt, hlt]⟩
    exact beq_iff_eq.mp (List.all_eq_true.mp h.1 _ hmem)
  have hlt : queue.length < headLen + validLen queue + 4 := by
    by_contra hge
    have hlong : frameLen queue = some (headLen + validLen queue + 4) := by
      rw [frameLen, if_pos]
      refine ⟨by omega, ?_, by omega⟩
      rw [hsync 0 (by omega) (by omega), hsync 1 (by omega) (by omega)]
      rfl
    rw [nextFrame, hlong] at hstop
    exact absurd hstop (by simp)
  refine ⟨hlt, ?_⟩
  have hhead : headLen = 16 := rfl
  have hvalid : validLen (queue ++ fillBytes queue) = validLen queue := by
    have hbyte : ∀ i, 2 ≤ i → i < 16 → byteAt (queue ++ fillBytes queue) i = byteAt queue i := by
      intro i hge hi
      rw [byteAt_fill (by omega)]
      split
      · rfl
      · rw [if_neg (by omega), byteAt_of_ge (by omega)]
    rw [validLen, hbyte 14 (by omega) (by omega), hbyte 15 (by omega) (by omega)]
    rfl
  have hsync' : ∀ i < 2, byteAt (queue ++ fillBytes queue) i = 0x47 := by
    intro i hi
    rw [byteAt_fill (by omega), if_pos hi]
    split
    · exact hsync i hi ‹_›
    · rfl
  have hn : frameLen (queue ++ fillBytes queue) = some (queue ++ fillBytes queue).length := by
    rw [frameLen, if_pos, hvalid, length_fill hlt.le]
    rw [hvalid, length_fill hlt.le, hsync' 0 (by omega), hsync' 1 (by omega)]
    exact ⟨by omega, rfl, le_rfl⟩
  rw [nextFrame, hn]
  simp

/-- A frame fed byte by byte. -/
theorem serverRecv_bytes {m : List UInt8} (hm : m ≠ []) (h : Refines s queue pending)
    (hnext : nextFrame (queue ++ m) = some (queue ++ m, []))
    (hfit : (queue ++ m).length ≤ fifoMaxLen) :
    ∃ s' css, serverRecv s (m.map fun x => [x]) = some (s', css) ∧
      css.flatten = (accept pending (queue ++ m)).2.toList ∧
      (acceptClean pending (queue ++ m) = true →
        Refines s' [] (accept pending (queue ++ m)).1) := by
  induction m generalizing s queue with
  | nil => exact absurd rfl hm
  | cons x m ih =>
      have hroom : queue.length + [x].length ≤ fifoMaxLen := by
        simp at hfit ⊢
        omega
      have happend : queue ++ x :: m = queue ++ [x] ++ m := by simp
      cases m with
      | nil =>
          obtain ⟨s', hrecv, hclean, -⟩ := recvChunk_frame h hnext nextFrame_nil hroom
          refine ⟨s', [(accept pending (queue ++ [x])).2.toList], ?_, by simp, hclean⟩
          simp only [List.map_cons, List.map_nil, serverRecv, hrecv, Option.bind_eq_bind,
            Option.bind_some]
      | cons y m =>
          have hcut : queue ++ [x] <+: queue ++ x :: y :: m := ⟨y :: m, by simp⟩
          have hstop : nextFrame (queue ++ [x]) = none :=
            next_of_proper_cut nextFrame_resumable hnext hcut (by simp)
          rw [happend] at hnext hfit ⊢
          obtain ⟨s₁, hrecv, h₁⟩ := recvChunk_spec h hroom (by rw [drain_stop hstop]; rfl)
          rw [drain_stop hstop] at hrecv h₁
          obtain ⟨s', css, hrun, hout, hclean⟩ := ih (by simp) h₁ hnext hfit
          refine ⟨s', [] :: css, ?_, hout, hclean⟩
          rw [List.map_cons]
          simp only [serverRecv, hrecv, Option.bind_eq_bind, Option.bind_some, acceptAll, hrun]

theorem serverRecv_append {s₁ s₂ : SocketCmdClass} {as bs : List (List UInt8)}
    {css dss : List (List SocketCmd)} (h₁ : serverRecv s as = some (s₁, css))
    (h₂ : serverRecv s₁ bs = some (s₂, dss)) :
    serverRecv s (as ++ bs) = some (s₂, css ++ dss) := by
  induction as generalizing s css with
  | nil =>
      obtain ⟨rfl, rfl⟩ := Prod.mk.inj (Option.some.inj h₁)
      exact h₂
  | cons a as ih =>
      obtain ⟨⟨s', cs⟩, hrecv, h₁⟩ := Option.bind_eq_some_iff.mp h₁
      obtain ⟨⟨s'', css'⟩, hrest, hout⟩ := Option.bind_eq_some_iff.mp h₁
      obtain ⟨rfl, rfl⟩ := Prod.mk.inj (Option.some.inj hout)
      have hrun := ih hrest
      simp only [List.cons_append, serverRecv, hrecv, hrun, Option.bind_eq_bind,
        Option.bind_some]

/-! ### Completing a command -/

/-- An empty frame of command 0 that stands for a whole message. -/
def probe : SocketCmdInfo := sendInfo (packTypeCmd 0 0) 0 0 0 []

/-- How many frames of command 0 are missing besides one. -/
def missing (pending : List SocketCmdInfo) : ℕ :=
  match pending.find? (·.cmd == 0) with
  | none => 0
  | some f => f.lastNo.toNat - pending.countP (·.cmd == 0)

theorem accept_probe (pending : List SocketCmdInfo) :
    (accept pending (frameBytes probe)).2.isSome = true ∨
      (accept pending (frameBytes probe) = (pending ++ [probe], none) ∧
        acceptClean pending (frameBytes probe) = true ∧
        missing (pending ++ [probe]) < missing pending) := by
  have hwf : WellFormed probe := sendInfo_wellFormed ..
  have hchecked : Checked probe := sendInfo_checked ..
  have hcmd : probe.cmd = 0 := sendInfo_cmd ..
  have hlink : link pending (frameBytes probe) = pending ++ [probe] :=
    link_frameBytes hwf hchecked
  cases hcomplete : RecvList.complete 0 (pending ++ [probe]) with
  | true =>
      refine .inl ?_
      simp [accept, hlink, frameInfo_frameBytes hwf, hcmd, hcomplete]
  | false =>
      refine .inr ⟨?_, ?_, ?_⟩
      · simp [accept, hlink, frameInfo_frameBytes hwf, hcmd, hcomplete]
      · simp [acceptClean, hlink, frameInfo_frameBytes hwf, hcmd, hcomplete]
      · have hlast : probe.lastNo = 0 := rfl
        rw [RecvList.complete] at hcomplete
        unfold missing
        rw [List.find?_append, List.countP_append] at hcomplete ⊢
        cases hfind : pending.find? (·.cmd == 0) with
        | none => simp [hfind, hcmd, hlast] at hcomplete
        | some f =>
            simp [hfind, hcmd] at hcomplete ⊢
            omega

/-- From an empty queue, frames of one command are eventually handed on. -/
theorem canDeliver_of_empty (h : Refines s [] pending) : CanDeliver s := by
  induction hn : missing pending using Nat.strong_induction_on generalizing s pending with
  | _ n ih =>
      have hnext : nextFrame ([] ++ frameBytes probe) = some (frameBytes probe, []) :=
        nextFrame_frameBytes (sendInfo_wellFormed ..)
      have hlen : (frameBytes probe).length = 20 := rfl
      obtain ⟨s', hrecv, hclean, -⟩ := recvChunk_frame h hnext nextFrame_nil (by rw [hlen]; decide)
      have hprobe : 1 ≤ (frameBytes probe).length ∧ (frameBytes probe).length ≤ recvMaxLen := by
        rw [hlen]
        decide
      rcases accept_probe pending with hsome | ⟨haccept, hstep, hless⟩
      · refine ⟨[frameBytes probe], by simpa using hprobe, s',
          [(accept pending (frameBytes probe)).2.toList], ?_, ?_⟩
        · simp only [serverRecv, hrecv, Option.bind_eq_bind, Option.bind_some]
        · obtain ⟨c, hc⟩ := Option.isSome_iff_exists.mp hsome
          simp [hc]
      · rw [haccept] at hrecv hclean
        obtain ⟨args, hargs, s₂, css, hrun, hout⟩ := ih _ (hn ▸ hless) (hclean hstep) rfl
        refine ⟨frameBytes probe :: args, ?_, s₂, [] :: css, ?_, hout⟩
        · rintro arg (_ | ⟨_, harg⟩)
          · exact hprobe
          · exact hargs arg harg
        · simp only [serverRecv, hrecv, hrun, Option.bind_eq_bind, Option.bind_some,
            Option.toList_none]

/-- An intact receiver whose queue can begin a frame can deliver. -/
theorem canDeliver_of_syncable (h : Refines s queue pending) (hsync : Syncable queue)
    (hstop : nextFrame queue = none) : CanDeliver s := by
  obtain ⟨hlt, hnext⟩ := nextFrame_fill hsync hstop
  have hlen := length_fill hlt.le
  have hne : fillBytes queue ≠ [] := by
    intro hnil
    rw [hnil, List.append_nil] at hlen
    omega
  obtain ⟨s₁, css, hrun, hout, hclean⟩ :=
    serverRecv_bytes hne h hnext (by rw [hlen]; exact hsync.2)
  have hargs : ∀ arg ∈ (fillBytes queue).map fun x => [x],
      1 ≤ arg.length ∧ arg.length ≤ recvMaxLen := by
    intro arg harg
    obtain ⟨x, -, rfl⟩ := List.mem_map.mp harg
    exact ⟨le_rfl, show 1 ≤ recvMaxLen by decide⟩
  cases hdone : (accept pending (queue ++ fillBytes queue)).2 with
  | some c =>
      refine ⟨_, hargs, s₁, css, hrun, ?_⟩
      rw [hout, hdone]
      simp
  | none =>
      have hstep : acceptClean pending (queue ++ fillBytes queue) = true := by
        rw [accept] at hdone
        rw [acceptClean]
        cases hcomplete : RecvList.complete (frameInfo (queue ++ fillBytes queue)).cmd
            (link pending (queue ++ fillBytes queue)) with
        | true => simp [hcomplete] at hdone
        | false => rfl
      obtain ⟨args, hargs', s₂, dss, hrun', hout'⟩ := canDeliver_of_empty (hclean hstep)
      refine ⟨_ ++ args, ?_, s₂, css ++ dss, serverRecv_append hrun hrun', ?_⟩
      · intro arg harg
        rcases List.mem_append.mp harg with harg | harg
        · exact hargs arg harg
        · exact hargs' arg harg
      · rw [List.flatten_append]
        simp [hout']

end

/-- A run from a fresh receiver. -/
theorem serverRecv_init_sound (mem : Vector UInt8 fifoMaxLen) {s : SocketCmdClass}
    {args : List (List UInt8)} {css : List (List SocketCmd)}
    (hrun : serverRecv (initSocketCmdClass mem) args = some (s, css)) :
    Sound (initCmdFifo s) s.cmdFifo.content ∧ nextFrame s.cmdFifo.content = none ∧
      (initCmdFifo s).gstRecvSocketCmdList = s.gstRecvSocketCmdList := by
  have hfresh := initSocketCmdClass_refines mem
  cases args with
  | nil =>
      obtain ⟨rfl, -⟩ := Prod.mk.inj (Option.some.inj hrun)
      exact ⟨hfresh.sound, rfl, rfl⟩
  | cons arg args =>
      rw [← serverRecv_initCmdFifo] at hrun
      obtain ⟨queue, h, hstop⟩ := serverRecv_sound hfresh.sound nextFrame_nil hrun
      rw [h.toQueued.initCmdFifo, h.content]
      exact ⟨h, hstop, rfl⟩

theorem canDeliver_initCmdFifo (s : SocketCmdClass) :
    CanDeliver (initCmdFifo s) ↔ CanDeliver s := by
  have hiff : ∀ args : List (List UInt8), args ≠ [] →
      serverRecv (initCmdFifo s) args = serverRecv s args := by
    intro args hargs
    obtain ⟨arg, args, rfl⟩ := List.exists_cons_of_ne_nil hargs
    exact serverRecv_initCmdFifo s arg args
  have hne : ∀ {s s' : SocketCmdClass} {args css}, serverRecv s args = some (s', css) →
      css.flatten ≠ [] → args ≠ [] := by
    rintro s s' args css hrun hout rfl
    obtain ⟨-, rfl⟩ := Prod.mk.inj (Option.some.inj hrun)
    exact hout rfl
  constructor
  · rintro ⟨args, hargs, s', css, hrun, hout⟩
    exact ⟨args, hargs, s', css, by rw [← hiff args (hne hrun hout), hrun], hout⟩
  · rintro ⟨args, hargs, s', css, hrun, hout⟩
    exact ⟨args, hargs, s', css, by rw [hiff args (hne hrun hout), hrun], hout⟩

/-- In every state a run can reach, some continuation is handed on if and only if the
queued bytes can begin a frame and the receive list is intact. -/
theorem canDeliver_iff (mem : Vector UInt8 fifoMaxLen) (args : List (List UInt8))
    (s : SocketCmdClass) (css : List (List SocketCmd))
    (hrun : serverRecv (initSocketCmdClass mem) args = some (s, css)) :
    CanDeliver s ↔ Syncable s.cmdFifo.content ∧ ¬ s.gstRecvSocketCmdList.Dangling := by
  obtain ⟨h, hstop, hsame⟩ := serverRecv_init_sound mem hrun
  rw [← canDeliver_initCmdFifo, ← hsame]
  constructor
  · rintro ⟨args', -, s', css', hrun', hout⟩
    refine ⟨?_, fun hdangling => hout (serverRecv_dangling h.toQueued hdangling hrun')⟩
    by_contra hsync
    obtain ⟨s₂, css₂, hrun₂, hnil, -⟩ :=
      serverRecv_wedged h.toQueued (nextFrame_of_not_syncable hsync) args'
    obtain ⟨-, rfl⟩ := Prod.mk.inj (Option.some.inj (hrun₂.symm.trans hrun'))
    exact hout hnil
  · rintro ⟨hsync, hlist⟩
    obtain ⟨pending, href⟩ := h.refines hlist
    exact canDeliver_of_syncable href hsync hstop

/-! ### A single byte -/

end PanelTester.PackSocket
