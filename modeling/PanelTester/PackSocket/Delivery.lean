import PanelTester.PackSocket.Parser

/-!
Messages over the TCP framing. A message is sent as consecutive fragments; the
receiver links them and hands the message on with the last one. The first part
follows one message through `accept`, the second the byte stream of a list of
messages through the receive loop, for any way `recv` may cut it.
-/

namespace PanelTester.PackSocket

open Library

/-- The largest chunk `server_start` asks `recv` for. -/
def recvMaxLen : ℕ := fifoMaxLen / 2

/-- A message in fragments: at least one, no more than `lastNo` can count, and no frame
longer than the FIFO. -/
structure Message where
  cmd : UInt16
  type : UInt16
  ipnum : UInt32
  fragments : List (List UInt8)
  nonempty : fragments ≠ []
  count_le : fragments.length ≤ 65536
  fits : ∀ f ∈ fragments, headLen + f.length + 4 ≤ fifoMaxLen

namespace Message

/-- No frame of the message is longer than a chunk. -/
def FitsChunk (m : Message) : Prop := ∀ f ∈ m.fragments, headLen + f.length + 4 ≤ recvMaxLen

instance (m : Message) : Decidable m.FitsChunk := by unfold FitsChunk; infer_instance

def payload (m : Message) : List UInt8 := m.fragments.flatten

/-- `lastNo` of the fragments. -/
def lastNo (m : Message) : UInt16 := UInt16.ofNat (m.fragments.length - 1)

/-- The frame of the `i`-th fragment. -/
def info (m : Message) (i : ℕ) (f : List UInt8) : SocketCmdInfo :=
  sendInfo (packTypeCmd m.type m.cmd) m.ipnum (UInt16.ofNat i) m.lastNo f

def infos (m : Message) : List SocketCmdInfo := m.fragments.zipIdx.map fun (f, i) => m.info i f

/-- The bytes of a message: one `sendSocketCmd` for each fragment. -/
def sent (m : Message) (sendFd : ℕ) : List UInt8 :=
  m.fragments.zipIdx.flatMap fun (f, i) =>
    sendSocketCmd sendFd (packTypeCmd m.type m.cmd) m.ipnum (UInt16.ofNat i) m.lastNo f

/-- What the receiver is to hand on. -/
def delivered (m : Message) : SocketCmd where
  cmd := m.cmd
  type := m.type
  ipnum := m.ipnum
  len := m.payload.length
  pcmd := m.payload

theorem sent_eq (m : Message) (sendFd : ℕ) : m.sent sendFd = m.infos.flatMap frameBytes := by
  have hfd : ¬ ((sendFd : Int) = -1) := by omega
  simp only [sent, sendSocketCmd, hfd, if_false, infos, List.flatMap_map]
  rfl

end Message

/-! ### One message -/

/-- Fragments of one command: valid frames with its number and a common count. -/
structure Fragment (cmd lastNo : UInt16) (v : SocketCmdInfo) : Prop where
  cmd_eq : v.cmd = cmd
  lastNo_eq : v.lastNo = lastNo
  wellFormed : WellFormed v
  checked : Checked v

/-- The command made of fragments, the last of which is `v`. -/
def completed (v : SocketCmdInfo) (vs : List SocketCmdInfo) : SocketCmd where
  cmd := v.cmd
  type := v.type
  ipnum := v.ipnum
  len := (vs.flatMap SocketCmdInfo.pValid).length
  pcmd := vs.flatMap SocketCmdInfo.pValid

/-- A valid frame is linked in. -/
theorem link_frameBytes {pending : List SocketCmdInfo} {v : SocketCmdInfo} (hwf : WellFormed v)
    (hchecked : Checked v) : link pending (frameBytes v) = pending ++ [v] := by
  rw [link, if_pos ((crcOk_frameBytes hwf).mpr hchecked), frameInfo_frameBytes hwf]

section

variable {cmd lastNo : UInt16} {pending vs : List SocketCmdInfo}

/-- Fragments are complete when there are as many as they say. -/
theorem complete_of_fragments
    (hvs : ∀ v ∈ vs.filter (·.cmd == cmd), Fragment cmd lastNo v) :
    RecvList.complete cmd vs = decide (lastNo.toNat + 1 ≤ (vs.filter (·.cmd == cmd)).length) := by
  rw [RecvList.complete]
  rw [List.countP_eq_length_filter, ← List.head?_filter]
  cases hown : vs.filter (·.cmd == cmd) with
  | nil => simp
  | cons v ws => simp [(hvs v (hown ▸ List.mem_cons_self)).lastNo_eq]

theorem filter_append_own (hother : ∀ w ∈ pending, w.cmd ≠ cmd)
    (hvs : ∀ v ∈ vs, Fragment cmd lastNo v) :
    (pending ++ vs).filter (·.cmd == cmd) = vs := by
  rw [List.filter_append, List.filter_eq_nil_iff.mpr fun w hw => by simpa using hother w hw,
    List.filter_eq_self.mpr fun v hv => by simpa using (hvs v hv).cmd_eq, List.nil_append]

theorem complete_append_fragments (hother : ∀ w ∈ pending, w.cmd ≠ cmd)
    (hvs : ∀ v ∈ vs, Fragment cmd lastNo v) :
    RecvList.complete cmd (pending ++ vs) = decide (lastNo.toNat + 1 ≤ vs.length) := by
  have hown := filter_append_own hother hvs
  rw [complete_of_fragments (by rwa [hown]), hown]

theorem payloads_append_fragments (hother : ∀ w ∈ pending, w.cmd ≠ cmd)
    (hvs : ∀ v ∈ vs, Fragment cmd lastNo v) :
    RecvList.payloads cmd (pending ++ vs) = vs.flatMap SocketCmdInfo.pValid := by
  rw [RecvList.payloads, filter_append_own hother hvs]

theorem filter_append_fragments (hother : ∀ w ∈ pending, w.cmd ≠ cmd)
    (hvs : ∀ v ∈ vs, Fragment cmd lastNo v) :
    (pending ++ vs).filter (·.cmd != cmd) = pending := by
  rw [List.filter_append, List.filter_eq_self.mpr fun w hw => by simpa using hother w hw,
    List.filter_eq_nil_iff.mpr fun v hv => by simpa using (hvs v hv).cmd_eq, List.append_nil]

/-- Removing fragments behind nodes of other commands is clean. -/
theorem cleanRemoval_append_fragments (hother : ∀ w ∈ pending, w.cmd ≠ cmd)
    (hvs : ∀ v ∈ vs, Fragment cmd lastNo v) :
    RecvList.cleanRemoval cmd (pending ++ vs) = true := by
  have hall : ∀ v ∈ vs, (v.cmd == cmd) = true := fun v hv => by simpa using (hvs v hv).cmd_eq
  rw [RecvList.cleanRemoval]
  cases pending with
  | nil =>
      rw [List.nil_append, List.dropWhile_eq_nil_iff.mpr hall]
      rfl
  | cons w pending =>
      have hw : w.cmd ≠ cmd := hother w List.mem_cons_self
      rw [List.cons_append, List.dropWhile_cons_of_neg (by simpa using hw), ← List.cons_append,
        List.dropWhile_append_of_pos fun u hu => by simpa using hother u hu, List.all_eq_true]
      exact fun v hv => hall v (List.dropWhile_subset _ hv)

/-- Too few fragments, arriving behind nodes of other commands and the fragments before
them, stay pending. -/
theorem acceptAll_incomplete (hother : ∀ w ∈ pending, w.cmd ≠ cmd)
    (hvs : ∀ v ∈ vs, Fragment cmd lastNo v) (rest : List SocketCmdInfo)
    (hrest : ∀ w ∈ rest, Fragment cmd lastNo w)
    (hcount : vs.length + rest.length ≤ lastNo.toNat) :
    acceptAll (pending ++ vs) (rest.map frameBytes) = (pending ++ (vs ++ rest), []) ∧
      acceptAllClean (pending ++ vs) (rest.map frameBytes) = true := by
  induction rest generalizing vs with
  | nil => simp [acceptAll, acceptAllClean]
  | cons w rest ih =>
      have hw := hrest w List.mem_cons_self
      have hlinked : ∀ u ∈ vs ++ [w], Fragment cmd lastNo u := by
        intro u hu
        rcases List.mem_append.mp hu with hu | hu
        · exact hvs u hu
        · rw [List.mem_singleton.mp hu]; exact hw
      have hincomplete : RecvList.complete cmd (pending ++ (vs ++ [w])) = false := by
        rw [complete_append_fragments hother hlinked]
        simp at hcount ⊢
        omega
      obtain ⟨hall, hclean⟩ := ih hlinked
        (fun u hu => hrest u (List.mem_cons_of_mem _ hu)) (by simp at hcount ⊢; omega)
      have happend : vs ++ [w] ++ rest = vs ++ w :: rest := by simp
      rw [happend] at hall
      simp only [List.map_cons, acceptAll, acceptAllClean, accept, acceptClean,
        link_frameBytes hw.wellFormed hw.checked, frameInfo_frameBytes hw.wellFormed,
        hw.cmd_eq, List.append_assoc, hincomplete] at hall hclean ⊢
      exact ⟨by simpa using hall, by simpa using hclean⟩

/-- The fragments of a message, arriving behind nodes of other commands: the last one
completes it. -/
theorem acceptAll_fragments (hother : ∀ w ∈ pending, w.cmd ≠ cmd) (v : SocketCmdInfo)
    (hvs : ∀ w ∈ vs, Fragment cmd lastNo w) (hv : Fragment cmd lastNo v)
    (hcount : vs.length = lastNo.toNat) :
    acceptAll pending ((vs ++ [v]).map frameBytes) = (pending, [completed v (vs ++ [v])]) ∧
      acceptAllClean pending ((vs ++ [v]).map frameBytes) = true := by
  have hlinked : ∀ w ∈ vs ++ [v], Fragment cmd lastNo w := by
    intro w hw
    rcases List.mem_append.mp hw with hw | hw
    · exact hvs w hw
    · rw [List.mem_singleton.mp hw]; exact hv
  have hcomplete : RecvList.complete cmd (pending ++ (vs ++ [v])) = true := by
    rw [complete_append_fragments hother hlinked]
    simp
    omega
  obtain ⟨hall, hclean⟩ :=
    acceptAll_incomplete hother (List.forall_mem_nil _) vs hvs (by simp; omega)
  rw [List.append_nil, List.nil_append] at hall
  rw [List.append_nil] at hclean
  rw [List.map_append, acceptAll_append, acceptAllClean_append, hall, hclean]
  simp only [List.map_cons, List.map_nil, acceptAll, acceptAllClean, accept,
    acceptClean, link_frameBytes hv.wellFormed hv.checked, frameInfo_frameBytes hv.wellFormed,
    hv.cmd_eq, List.append_assoc, hcomplete, if_true,
    filter_append_fragments hother hlinked, payloads_append_fragments hother hlinked,
    cleanRemoval_append_fragments hother hlinked]
  simp [completed, hv.cmd_eq]

end

namespace Message

variable (m : Message)

/-- The frames of a message. -/
def frames : List (List UInt8) := m.infos.map frameBytes

theorem sent_eq_frames (sendFd : ℕ) : m.sent sendFd = m.frames.flatten := by
  rw [sent_eq, frames, List.flatMap_def]

theorem infos_ne_nil : m.infos ≠ [] := by
  simp [infos, List.zipIdx_eq_nil_iff, m.nonempty]

theorem length_infos : m.infos.length = m.fragments.length := by
  simp [infos]

theorem lastNo_toNat : m.lastNo.toNat + 1 = m.fragments.length := by
  have hpos : 0 < m.fragments.length := List.length_pos_iff.mpr m.nonempty
  have hle := m.count_le
  rw [lastNo, UInt16.toNat_ofNat', Nat.mod_eq_of_lt (by omega)]
  omega

/-- A fragment is far below the 64 KiB its length field can hold. -/
theorem length_lt {f : List UInt8} (hf : f ∈ m.fragments) : f.length < 65536 := by
  have hfits := m.fits f hf
  simp only [fifoMaxLen] at hfits
  omega

theorem fragment_of_mem {v : SocketCmdInfo} (hv : v ∈ m.infos) :
    Fragment m.cmd m.lastNo v := by
  obtain ⟨⟨f, i⟩, -, rfl⟩ := List.mem_map.mp hv
  exact ⟨sendInfo_cmd .., rfl, sendInfo_wellFormed .., sendInfo_checked ..⟩

theorem type_of_mem {v : SocketCmdInfo} (hv : v ∈ m.infos) :
    v.type = m.type ∧ v.ipnum = m.ipnum := by
  obtain ⟨⟨f, i⟩, -, rfl⟩ := List.mem_map.mp hv
  exact ⟨sendInfo_type .., rfl⟩

theorem flatMap_pValid : m.infos.flatMap SocketCmdInfo.pValid = m.payload := by
  have hvalid : ∀ p ∈ m.fragments.zipIdx, (m.info p.2 p.1).pValid = p.1 := fun p hp =>
    sendInfo_pValid _ _ _ _ (m.length_lt (List.fst_mem_of_mem_zipIdx hp))
  rw [infos, List.flatMap_map, List.flatMap_def, List.map_congr_left hvalid,
    List.zipIdx_map_fst, payload]

/-- A message arrives behind fragments of other commands: it is handed on whole with
its last fragment. -/
theorem acceptAll_frames {pending : List SocketCmdInfo} (hother : ∀ w ∈ pending, w.cmd ≠ m.cmd) :
    acceptAll pending m.frames = (pending, [m.delivered]) ∧
      acceptAllClean pending m.frames = true := by
  have hsplit := List.dropLast_append_getLast m.infos_ne_nil
  have hlast := List.getLast_mem m.infos_ne_nil
  have hlength : m.infos.dropLast.length = m.lastNo.toNat := by
    have := m.lastNo_toNat
    rw [List.length_dropLast, m.length_infos]
    omega
  have hrun := acceptAll_fragments hother (m.infos.getLast m.infos_ne_nil)
    (fun w hw => m.fragment_of_mem (List.mem_of_mem_dropLast hw))
    (m.fragment_of_mem hlast) hlength
  rw [hsplit] at hrun
  have hcompleted : completed (m.infos.getLast m.infos_ne_nil) m.infos = m.delivered := by
    obtain ⟨htype, hipnum⟩ := m.type_of_mem hlast
    rw [completed, m.flatMap_pValid, (m.fragment_of_mem hlast).cmd_eq, htype, hipnum, delivered]
  rwa [hcompleted] at hrun

theorem nextFrame_of_mem {b : List UInt8} (hb : b ∈ m.frames) : nextFrame b = some (b, []) := by
  obtain ⟨v, hv, rfl⟩ := List.mem_map.mp hb
  exact nextFrame_frameBytes (m.fragment_of_mem hv).wellFormed

theorem length_of_mem {b : List UInt8} (hb : b ∈ m.frames) :
    ∃ f ∈ m.fragments, b.length = headLen + f.length + 4 := by
  obtain ⟨v, hv, rfl⟩ := List.mem_map.mp hb
  have hwf := (m.fragment_of_mem hv).wellFormed
  obtain ⟨⟨f, i⟩, hp, rfl⟩ := List.mem_map.mp hv
  have hmem := List.fst_mem_of_mem_zipIdx hp
  have hlen : (m.info i f).length.toNat = f.length := by
    simp only [info, sendInfo, UInt16.toNat_ofNat']
    exact Nat.mod_eq_of_lt (m.length_lt hmem)
  refine ⟨f, hmem, ?_⟩
  rw [length_frameBytes hwf, hlen, headLen]
  omega

end Message

/-! ### Runs of the receive loop -/

/-- No chunk of the run is dropped. -/
def NeverDrops : SocketCmdClass → List (List UInt8) → Prop
  | _, [] => True
  | s, arg :: args =>
      ¬ Dropped s arg ∧ ∀ s' cs, recvChunk s arg = some (s', cs) → NeverDrops s' args

/-- Every chunk fits behind the bytes still queued when it arrives. -/
def Fits : List UInt8 → List (List UInt8) → Prop
  | _, [] => True
  | queue, arg :: args =>
      queue.length + arg.length ≤ fifoMaxLen ∧ Fits (drain nextFrame (queue ++ arg)).2 args

section

variable {s : SocketCmdClass} {queue : List UInt8} {pending : List SocketCmdInfo}

/-- A run is the drained stream handed to `acceptAll`, as long as the chunks fit and the
removals are clean. -/
theorem serverRecv_spec {args : List (List UInt8)} (h : Refines s queue pending)
    (hfits : Fits queue args)
    (hclean : acceptAllClean pending (drainAll nextFrame queue args).1.flatten = true) :
    ∃ s' css, serverRecv s args = some (s', css) ∧
      css.flatten = (acceptAll pending (drainAll nextFrame queue args).1.flatten).2 ∧
      Refines s' (drainAll nextFrame queue args).2
        (acceptAll pending (drainAll nextFrame queue args).1.flatten).1 ∧
      NeverDrops s args := by
  induction args generalizing s queue pending with
  | nil => exact ⟨s, [], rfl, rfl, h, trivial⟩
  | cons arg args ih =>
      obtain ⟨hfit, hfits⟩ := hfits
      simp only [drainAll, List.flatten_cons] at hclean ⊢
      rw [acceptAllClean_append, Bool.and_eq_true] at hclean
      obtain ⟨s₁, hrecv, h₁⟩ := recvChunk_spec h hfit hclean.1
      obtain ⟨s', css, hrun, hout, h', hdrops⟩ := ih h₁ hfits hclean.2
      rw [acceptAll_append]
      refine ⟨s', (acceptAll pending (drain nextFrame (queue ++ arg)).1).2 :: css,
        ?_, ?_, h', ?_, ?_⟩
      · simp only [serverRecv, hrecv, hrun, Option.bind_eq_bind, Option.bind_some]
      · rw [List.flatten_cons, hout]
      · rw [dropped_iff h.toQueued]
        omega
      · intro s₂ cs hrecv'
        obtain ⟨rfl, -⟩ := Prod.mk.inj (Option.some.inj (hrecv.symm.trans hrecv'))
        exact hdrops

/-- Cut into chunks no longer than the largest frame's bound, a stream of frames fits:
what waits in the queue is less than a frame. -/
theorem fits_of_stream {frames : List (List UInt8)}
    (hnext : ∀ b ∈ frames, nextFrame b = some (b, []))
    (hlength : ∀ b ∈ frames, b.length ≤ recvMaxLen) {args : List (List UInt8)}
    (hargs : ∀ arg ∈ args, arg.length ≤ recvMaxLen) {p : List UInt8}
    (hp : p ++ args.flatten <+: frames.flatten) :
    Fits (drain nextFrame p).2 args := by
  induction args generalizing p with
  | nil => trivial
  | cons arg args ih =>
      rw [List.flatten_cons, ← List.append_assoc] at hp
      have hcut : p <+: frames.flatMap id := by
        rw [List.flatMap_id]
        exact (List.prefix_append p arg).trans ((List.prefix_append _ _).trans hp)
      have hleft : (drain nextFrame p).2.length < recvMaxLen := by
        rcases (drain_of_cut nextFrame_resumable hnext nextFrame_nil hcut).2.2
          with hnil | ⟨b, hb, hpre, hne⟩
        · rw [hnil]
          decide
        · have hlt : (drain nextFrame p).2.length < b.length :=
            hpre.length_le.lt_of_ne fun heq => hne (hpre.eq_of_length heq)
          exact hlt.trans_le (hlength b hb)
      refine ⟨?_, ?_⟩
      · have harg := hargs arg List.mem_cons_self
        have : recvMaxLen + recvMaxLen = fifoMaxLen := rfl
        omega
      · have hrest := ih (fun a ha => hargs a (List.mem_cons_of_mem _ ha)) hp
        rwa [drain_append nextFrame_resumable] at hrest

end

/-! ### Lists of messages -/

/-- The frames of a list of messages, sent one after the other. -/
def framesOf (msgs : List Message) : List (List UInt8) := msgs.flatMap Message.frames

theorem flatMap_sent (sendFd : ℕ) (msgs : List Message) :
    msgs.flatMap (·.sent sendFd) = (framesOf msgs).flatten := by
  simp only [framesOf, List.flatMap_def, List.flatten_flatten, List.map_map]
  congr 2
  funext m
  exact m.sent_eq_frames sendFd

theorem acceptAll_framesOf (msgs : List Message) :
    acceptAll [] (framesOf msgs) = ([], msgs.map Message.delivered) ∧
      acceptAllClean [] (framesOf msgs) = true := by
  induction msgs with
  | nil => exact ⟨rfl, rfl⟩
  | cons m msgs ih =>
      obtain ⟨hall, hclean⟩ := m.acceptAll_frames (List.forall_mem_nil _)
      have hframes : framesOf (m :: msgs) = m.frames ++ framesOf msgs := rfl
      rw [hframes, acceptAll_append, acceptAllClean_append, hall, hclean, ih.1, ih.2]
      exact ⟨rfl, rfl⟩

theorem nextFrame_of_mem_framesOf {msgs : List Message} {b : List UInt8}
    (hb : b ∈ framesOf msgs) : nextFrame b = some (b, []) := by
  obtain ⟨m, -, hb⟩ := List.mem_flatMap.mp hb
  exact m.nextFrame_of_mem hb

theorem length_le_of_mem_framesOf {msgs : List Message} (hfit : ∀ m ∈ msgs, m.FitsChunk)
    {b : List UInt8} (hb : b ∈ framesOf msgs) : b.length ≤ recvMaxLen := by
  obtain ⟨m, hm, hb⟩ := List.mem_flatMap.mp hb
  obtain ⟨f, hf, hlen⟩ := m.length_of_mem hb
  rw [hlen]
  exact hfit m hm f hf

theorem drain_framesOf (msgs : List Message) :
    drain nextFrame (framesOf msgs).flatten = (framesOf msgs, []) := by
  rw [← List.flatMap_id]
  exact drain_encode nextFrame_resumable (fun b hb => nextFrame_of_mem_framesOf hb) nextFrame_nil

/-- The first use sets the receiver up; after it, the two runs are the same. -/
theorem serverRecv_initCmdFifo (s : SocketCmdClass) (arg : List UInt8) (args : List (List UInt8)) :
    serverRecv (initCmdFifo s) (arg :: args) = serverRecv s (arg :: args) := by
  simp only [serverRecv, recvChunk_initCmdFifo]

theorem serverRecv_initCmdFifo_iff (s : SocketCmdClass) (args : List (List UInt8))
    (css : List (List SocketCmd)) :
    (∃ s', serverRecv (initCmdFifo s) args = some (s', css)) ↔
      ∃ s', serverRecv s args = some (s', css) := by
  cases args with
  | nil => simp [serverRecv]
  | cons arg args => rw [serverRecv_initCmdFifo]

theorem neverDrops_initCmdFifo {s : SocketCmdClass} {arg : List UInt8}
    {args : List (List UInt8)} (h : NeverDrops (initCmdFifo s) (arg :: args)) :
    NeverDrops s (arg :: args) := by
  simpa only [NeverDrops, Dropped, initCmdFifo_initCmdFifo, recvChunk_initCmdFifo] using h

/-- A stream of messages, cut off anywhere and chunked in any way, fed to a receiver
with an empty queue. -/
theorem serverRecv_stream {s : SocketCmdClass} {pending : List SocketCmdInfo}
    (h : Refines s [] pending) {msgs : List Message} (hfit : ∀ m ∈ msgs, m.FitsChunk)
    {args : List (List UInt8)} (hstream : args.flatten <+: (framesOf msgs).flatten)
    (hargs : ∀ arg ∈ args, arg.length ≤ recvMaxLen)
    (hclean : acceptAllClean pending (drain nextFrame args.flatten).1 = true) :
    ∃ s' css, serverRecv s args = some (s', css) ∧
      css.flatten = (acceptAll pending (drain nextFrame args.flatten).1).2 ∧
      Refines s' (drain nextFrame args.flatten).2
        (acceptAll pending (drain nextFrame args.flatten).1).1 ∧
      NeverDrops s args := by
  have hnext : ∀ b ∈ framesOf msgs, nextFrame b = some (b, []) := fun b hb =>
    nextFrame_of_mem_framesOf hb
  have hfits : Fits [] args := by
    have hfits := fits_of_stream hnext (fun b hb => length_le_of_mem_framesOf hfit hb) hargs
      (p := []) hstream
    rwa [drain_stop nextFrame_nil] at hfits
  have hdrain := drainAll_flatten nextFrame_resumable nextFrame_nil args
  rw [List.nil_append] at hdrain
  obtain ⟨hrecords, hrest⟩ := Prod.ext_iff.mp hdrain
  simp only at hrecords hrest
  have hrun := serverRecv_spec h hfits (by rw [hrecords]; exact hclean)
  rwa [hrecords, hrest] at hrun

/-- What is drained of a stream of messages that was cut off. -/
theorem drain_framesOf_cut {msgs : List Message} {p : List UInt8}
    (hp : p <+: (framesOf msgs).flatten) :
    (drain nextFrame p).1 <+: framesOf msgs ∧
      p = (drain nextFrame p).1.flatten ++ (drain nextFrame p).2 ∧
      ((drain nextFrame p).2 = [] ∨
        ∃ b ∈ framesOf msgs, (drain nextFrame p).2 <+: b ∧ (drain nextFrame p).2 ≠ b) := by
  have hcut : p <+: (framesOf msgs).flatMap id := by rwa [List.flatMap_id]
  have hdrain := drain_of_cut nextFrame_resumable
    (fun b hb => nextFrame_of_mem_framesOf hb) nextFrame_nil hcut
  simpa only [List.flatMap_id'] using hdrain

/-- Fed to a receiver that holds nothing, a cut stream makes no removal that is not
clean. -/
theorem serverRecv_cut {s : SocketCmdClass} (h : Refines s [] []) {msgs : List Message}
    (hfit : ∀ m ∈ msgs, m.FitsChunk) {args : List (List UInt8)}
    (hstream : args.flatten <+: (framesOf msgs).flatten)
    (hargs : ∀ arg ∈ args, arg.length ≤ recvMaxLen) :
    ∃ s' css, serverRecv s args = some (s', css) ∧
      css.flatten = (acceptAll [] (drain nextFrame args.flatten).1).2 ∧
      Refines s' (drain nextFrame args.flatten).2
        (acceptAll [] (drain nextFrame args.flatten).1).1 ∧
      NeverDrops s args := by
  apply serverRecv_stream h hfit hstream hargs
  obtain ⟨tail, htail⟩ := (drain_framesOf_cut hstream).1
  have hall := (acceptAll_framesOf msgs).2
  rw [← htail, acceptAllClean_append, Bool.and_eq_true] at hall
  exact hall.1

/-- Messages sent one after the other are handed on as they were sent, for every way
`recv` cuts the stream, and leave nothing behind. -/
theorem serverRecv_messages (mem : Vector UInt8 fifoMaxLen) (sendFd : ℕ) (msgs : List Message)
    (hfit : ∀ m ∈ msgs, m.FitsChunk) (args : List (List UInt8))
    (hstream : args.flatten = msgs.flatMap (·.sent sendFd))
    (hargs : ∀ arg ∈ args, 1 ≤ arg.length ∧ arg.length ≤ recvMaxLen) :
    ∃ s css, serverRecv (initSocketCmdClass mem) args = some (s, css) ∧
      css.flatten = msgs.map Message.delivered ∧
      NeverDrops (initSocketCmdClass mem) args ∧
      s.cmdFifo.len = 0 ∧ s.gstRecvSocketCmdList.psockCmdListHead = none := by
  rw [flatMap_sent] at hstream
  have hcut : args.flatten <+: (framesOf msgs).flatten := by rw [hstream]
  obtain ⟨s, css, hrun, hout, href, hdrops⟩ :=
    serverRecv_cut (initSocketCmdClass_refines mem) hfit hcut fun arg harg => (hargs arg harg).2
  rw [hstream, drain_framesOf, (acceptAll_framesOf msgs).1] at hout href
  cases args with
  | nil =>
      obtain ⟨-, rfl⟩ := Prod.mk.inj (Option.some.inj hrun)
      exact ⟨_, [], rfl, hout, trivial, rfl, rfl⟩
  | cons arg args =>
      rw [serverRecv_initCmdFifo] at hrun
      refine ⟨s, css, hrun, hout, neverDrops_initCmdFifo hdrops, href.len, ?_⟩
      obtain ⟨cells, hpath, hcells⟩ := href.holds
      obtain rfl := List.map_eq_nil_iff.mp hcells
      exact hpath

/-- A message of two fragments. -/
def pairMessage : Message where
  cmd := 7
  type := 2
  ipnum := 1
  fragments := [[1, 2], [3]]
  nonempty := by decide
  count_le := by decide
  fits := by decide

/-- The stream of `pairMessage`, cut inside the second header. -/
theorem serverRecv_pairMessage :
    ∃ s css, serverRecv (initSocketCmdClass (Vector.replicate fifoMaxLen 0))
        [(pairMessage.sent 3).take 30, (pairMessage.sent 3).drop 30] = some (s, css) ∧
      css.flatten = [⟨7, 2, 1, 3, [1, 2, 3]⟩] := by
  obtain ⟨s, css, hrun, hout, -⟩ :=
    serverRecv_messages (Vector.replicate fifoMaxLen 0) 3 [pairMessage] (by decide)
      [(pairMessage.sent 3).take 30, (pairMessage.sent 3).drop 30] (by simp) (by decide +kernel)
  exact ⟨s, css, hrun, hout⟩

end PanelTester.PackSocket
