import PanelTester.PackSocket.Wedge

/-!
What `sendSocketCmd` returns, and what its peer makes of the bytes that `send` accepts. Any
positive count is taken for success, and neither the length field nor the FIFO of the peer is
asked whether the payload fits.
-/

namespace PanelTester.PackSocket

open Library

/-- What `sendSocketCmd` returns, of the `send` that it calls with the bytes of the frame. -/
def sendSocketCmdRet (send : List UInt8 → ℤ) (sendFd : ℤ) (typeCmd ipnum : UInt32)
    (curNo lastNo : UInt16) (pData : List UInt8) : ℤ :=
  if sendFd = -1 then -1
  else if send (sendSocketCmd sendFd typeCmd ipnum curNo lastNo pData) ≤ 0 then -1
  else 0

section

variable (send : List UInt8 → ℤ) (sendFd : ℤ) (typeCmd ipnum : UInt32) (curNo lastNo : UInt16)
  (pData : List UInt8)

/-- The bytes of the frame that `send` accepts. -/
def accepted : List UInt8 :=
  (sendSocketCmd sendFd typeCmd ipnum curNo lastNo pData).take
    (send (sendSocketCmd sendFd typeCmd ipnum curNo lastNo pData)).toNat

/-- The frame with the whole payload and its check value. -/
def wholeInfo : SocketCmdInfo where
  sync := syncHead
  cmd := (typeCmd &&& 0xFFFF).toUInt16
  ipnum := ipnum
  curNo := curNo
  lastNo := lastNo
  type := (typeCmd >>> 16).toUInt16
  length := UInt16.ofNat pData.length
  pValid := pData
  crc := if pData.length = 0 then 0 else crc32Le crcPolyLe pData

end

/-- The receiver has taken the frame and nothing else: it waits as the one pending fragment, or it
was all of a command, which was handed on. -/
def Obtains (s : SocketCmdClass) (css : List (List SocketCmd)) (info : SocketCmdInfo) : Prop :=
  (s.gstRecvSocketCmdList.Holds [info] ∧ css.flatten = []) ∨
    (s.gstRecvSocketCmdList.Holds [] ∧ css.flatten = [completed info [info]])

/-- A call that reports success has given its peer the whole payload, however `recv` cuts what
`send` accepted; and a payload that the length field cannot hold, or a frame that is accepted in
part only, is reported. -/
structure CarriesWhole (send : List UInt8 → ℤ) (sendFd : ℤ) (typeCmd ipnum : UInt32)
    (curNo lastNo : UInt16) (pData : List UInt8) : Prop where
  whole : sendSocketCmdRet send sendFd typeCmd ipnum curNo lastNo pData = 0 →
    ∀ (mem : Vector UInt8 fifoMaxLen) (args : List (List UInt8)),
      args.flatten = accepted send sendFd typeCmd ipnum curNo lastNo pData →
      (∀ arg ∈ args, 1 ≤ arg.length ∧ arg.length ≤ recvMaxLen) →
      ∃ s css, serverRecv (initSocketCmdClass mem) args = some (s, css) ∧
        Obtains s css (wholeInfo typeCmd ipnum curNo lastNo pData)
  tooLong : 65536 ≤ pData.length →
    sendSocketCmdRet send sendFd typeCmd ipnum curNo lastNo pData ≠ 0
  partly : send (sendSocketCmd sendFd typeCmd ipnum curNo lastNo pData) <
      (sendSocketCmd sendFd typeCmd ipnum curNo lastNo pData).length →
    sendSocketCmdRet send sendFd typeCmd ipnum curNo lastNo pData ≠ 0

/-! ### A frame that fits the FIFO -/

/-- Chunks that fit the FIFO together fit it one by one. -/
theorem fits_of_flatten {queue : List UInt8} {args : List (List UInt8)}
    (hlen : queue.length + args.flatten.length ≤ fifoMaxLen) : Fits queue args := by
  induction args generalizing queue with
  | nil => trivial
  | cons arg args ih =>
    rw [List.flatten_cons, List.length_append] at hlen
    have hrest : (drain nextFrame (queue ++ arg)).2.length ≤ (queue ++ arg).length :=
      length_drain_le nextFrame_resumable _
    rw [List.length_append] at hrest
    exact ⟨by omega, ih (by omega)⟩

/-- A frame that arrives at an empty receiver waits or is handed on. -/
theorem acceptAll_single {info : SocketCmdInfo} (hwf : WellFormed info) (hchecked : Checked info) :
    acceptAllClean [] [frameBytes info] = true ∧
      (acceptAll [] [frameBytes info] = ([info], []) ∨
        acceptAll [] [frameBytes info] = ([], [completed info [info]])) := by
  have hfragment : Fragment info.cmd info.lastNo info := ⟨rfl, rfl, hwf, hchecked⟩
  have hother : ∀ w ∈ ([] : List SocketCmdInfo), w.cmd ≠ info.cmd := by simp
  have hbefore : ∀ w ∈ ([] : List SocketCmdInfo), Fragment info.cmd info.lastNo w := by simp
  rcases Nat.eq_zero_or_pos info.lastNo.toNat with hlast | hlast
  · obtain ⟨hall, hclean⟩ := acceptAll_fragments hother info hbefore hfragment hlast.symm
    exact ⟨hclean, .inr hall⟩
  · obtain ⟨hall, hclean⟩ :=
      acceptAll_incomplete hother hbefore [info] (by simpa using hfragment) hlast
    exact ⟨hclean, .inl hall⟩

/-- A frame that fits the FIFO is obtained, for every way `recv` cuts it. -/
theorem obtains_of_fits {info : SocketCmdInfo} (hwf : WellFormed info) (hchecked : Checked info)
    (hfit : (frameBytes info).length ≤ fifoMaxLen) (mem : Vector UInt8 fifoMaxLen)
    {args : List (List UInt8)} (hstream : args.flatten = frameBytes info) :
    ∃ s css, serverRecv (initSocketCmdClass mem) args = some (s, css) ∧ Obtains s css info := by
  have hnext := nextFrame_frameBytes hwf
  have hdrain : drain nextFrame (frameBytes info) = ([frameBytes info], []) := by
    rw [drain_step nextFrame_resumable hnext, drain_stop nextFrame_nil]
  have hall := drainAll_flatten nextFrame_resumable nextFrame_nil args
  rw [List.nil_append, hstream, hdrain] at hall
  obtain ⟨hrecords, -⟩ := Prod.mk.inj hall
  obtain ⟨hclean, haccept⟩ := acceptAll_single hwf hchecked
  have hfits : Fits [] args := fits_of_flatten (by rw [hstream]; simpa using hfit)
  obtain ⟨s, css, hrun, hout, href, -⟩ :=
    serverRecv_spec (initSocketCmdClass_refines mem) hfits (by rw [hrecords]; exact hclean)
  rw [hrecords] at hout href
  have hobtains : Obtains s css info := by
    rcases haccept with hpending | hdone
    · rw [hpending] at hout href
      exact .inl ⟨href.holds, hout⟩
    · rw [hdone] at hout href
      exact .inr ⟨href.holds, hout⟩
  cases args with
  | nil =>
    rw [List.flatten_nil] at hstream
    rw [← hstream] at hnext
    cases hnext
  | cons arg args =>
    rw [serverRecv_initCmdFifo] at hrun
    exact ⟨s, css, hrun, hobtains⟩

/-! ### A frame that does not -/

/-- A receiver that has handed on nothing and holds no fragment has obtained nothing. -/
theorem not_obtains {s : SocketCmdClass} {css : List (List SocketCmd)} {info : SocketCmdInfo}
    (hlist : s.gstRecvSocketCmdList.Holds []) (hout : css.flatten = []) :
    ¬ Obtains s css info := by
  rintro (⟨hholds, -⟩ | ⟨-, hcmd⟩)
  · exact List.cons_ne_nil _ _ (hholds.unique hlist)
  · rw [hout] at hcmd
    cases hcmd

/-- A frame that is longer than the FIFO, cut behind its header, is never obtained. -/
theorem not_obtains_of_long {info : SocketCmdInfo} (hwf : WellFormed info)
    (hlong : fifoMaxLen < (frameBytes info).length) (mem : Vector UInt8 fifoMaxLen) :
    ∃ args : List (List UInt8), args.flatten = frameBytes info ∧
      (∀ arg ∈ args, 1 ≤ arg.length ∧ arg.length ≤ recvMaxLen) ∧
      ∃ s css, serverRecv (initSocketCmdClass mem) args = some (s, css) ∧
        ∀ info', ¬ Obtains s css info' := by
  have hhead : headLen = 16 := rfl
  have hfifo : fifoMaxLen = 40960 := rfl
  have hlen : ((frameBytes info).take headLen).length = headLen := by
    rw [List.length_take]
    omega
  have hframe := length_frameBytes hwf
  -- with the header alone in the queue, nothing is a frame any more
  have hsync : ¬ Syncable ((frameBytes info).take headLen) := by
    rintro ⟨-, hfit⟩
    rw [validLen_take, validLen_frameBytes] at hfit
    omega
  have hwedged := nextFrame_of_not_syncable hsync
  have hstop : nextFrame ([] ++ (frameBytes info).take headLen) = none := by
    have hnone := hwedged [] (by rw [List.append_nil, hlen]; omega)
    rwa [List.append_nil] at hnone
  have hclean : acceptAllClean [] (drain nextFrame ([] ++ (frameBytes info).take headLen)).1 =
      true := by
    rw [drain_stop hstop]
    rfl
  obtain ⟨s₁, hrecv, href⟩ :=
    recvChunk_spec (initSocketCmdClass_refines mem) (by rw [hlen]; decide) hclean
  rw [drain_stop hstop] at hrecv href
  rw [recvChunk_initCmdFifo] at hrecv
  obtain ⟨s, css, hrun, hout, hlist⟩ := serverRecv_wedged href.toQueued hwedged
    (((frameBytes info).drop headLen).map fun x => [x])
  refine ⟨(frameBytes info).take headLen :: ((frameBytes info).drop headLen).map fun x => [x],
    ?_, ?_, s, [] :: css, ?_, fun info' => not_obtains ?_ hout⟩
  · rw [List.flatten_cons, ← List.flatMap_def, List.flatMap_singleton', List.take_append_drop]
  · rintro arg (_ | ⟨_, harg⟩)
    · rw [hlen]
      decide
    · obtain ⟨x, -, rfl⟩ := List.mem_map.1 harg
      exact ⟨le_rfl, show 1 ≤ recvMaxLen by decide⟩
  · simp only [serverRecv, hrecv, hrun, acceptAll, Option.bind_eq_bind, Option.bind_some]
  · rw [hlist]
    exact href.holds

/-! ### What is reported -/

section

variable {send : List UInt8 → ℤ} {sendFd : ℤ} {typeCmd ipnum : UInt32} {curNo lastNo : UInt16}
  {pData : List UInt8}

/-- A payload that the length field can hold is sent whole. -/
theorem wholeInfo_eq (hlen : pData.length < 65536) :
    wholeInfo typeCmd ipnum curNo lastNo pData = sendInfo typeCmd ipnum curNo lastNo pData := by
  have htake : pData.take (UInt16.ofNat pData.length).toNat = pData := by
    rw [UInt16.toNat_ofNat', Nat.mod_eq_of_lt hlen, List.take_length]
  rw [wholeInfo, sendInfo, htake]

theorem length_sendSocketCmd (hfd : sendFd ≠ -1) (hlen : pData.length < 65536) :
    (sendSocketCmd sendFd typeCmd ipnum curNo lastNo pData).length =
      headLen + pData.length + 4 := by
  rw [sendSocketCmd, if_neg hfd, length_frameBytes (sendInfo_wellFormed ..)]
  simp only [sendInfo, UInt16.toNat_ofNat', Nat.mod_eq_of_lt hlen, headLen]
  omega

theorem sendSocketCmdRet_eq_zero_iff :
    sendSocketCmdRet send sendFd typeCmd ipnum curNo lastNo pData = 0 ↔
      sendFd ≠ -1 ∧ 0 < send (sendSocketCmd sendFd typeCmd ipnum curNo lastNo pData) := by
  rw [sendSocketCmdRet]
  split_ifs with hfd hsent
  · simp [hfd]
  · simp
    omega
  · simp [hfd]
    omega

/-- When nothing is reported to be sent, the call keeps its promise. -/
theorem carriesWhole_of_error
    (h : sendSocketCmdRet send sendFd typeCmd ipnum curNo lastNo pData ≠ 0) :
    CarriesWhole send sendFd typeCmd ipnum curNo lastNo pData :=
  ⟨fun hzero => absurd hzero h, fun _ => h, fun _ => h⟩

/-- A frame that `send` accepts whole carries its payload when it fits the FIFO of the peer. -/
theorem carriesWhole_of_fits (hfd : sendFd ≠ -1)
    (hsent : send (sendSocketCmd sendFd typeCmd ipnum curNo lastNo pData) =
      (sendSocketCmd sendFd typeCmd ipnum curNo lastNo pData).length)
    (hfit : headLen + pData.length + 4 ≤ fifoMaxLen) :
    CarriesWhole send sendFd typeCmd ipnum curNo lastNo pData := by
  have hlen : pData.length < 65536 := by
    simp only [headLen, fifoMaxLen] at hfit
    omega
  have hframe : sendSocketCmd sendFd typeCmd ipnum curNo lastNo pData =
      frameBytes (wholeInfo typeCmd ipnum curNo lastNo pData) := by
    rw [sendSocketCmd, if_neg hfd, wholeInfo_eq hlen]
  refine ⟨fun _ mem args hstream _ => ?_, fun hlong => absurd hlong (by omega), fun hpart => ?_⟩
  · rw [accepted, hsent, Int.toNat_natCast, List.take_length, hframe] at hstream
    refine obtains_of_fits ?_ ?_ ?_ mem hstream
    · rw [wholeInfo_eq hlen]
      exact sendInfo_wellFormed ..
    · rw [wholeInfo_eq hlen]
      exact sendInfo_checked ..
    · rw [← hframe, length_sendSocketCmd hfd hlen]
      exact hfit
  · rw [hsent] at hpart
    exact absurd hpart (lt_irrefl _)

/-- A call keeps its promise exactly when it reports an error, because of its descriptor or of
`send`, or when `send` accepts the whole frame and the FIFO of the peer can hold it. -/
theorem sendSocketCmd_carriesWhole_iff (hsend : ∀ buf, send buf ≤ buf.length) :
    CarriesWhole send sendFd typeCmd ipnum curNo lastNo pData ↔
      sendFd = -1 ∨ send (sendSocketCmd sendFd typeCmd ipnum curNo lastNo pData) ≤ 0 ∨
        (send (sendSocketCmd sendFd typeCmd ipnum curNo lastNo pData) =
            (sendSocketCmd sendFd typeCmd ipnum curNo lastNo pData).length ∧
          headLen + pData.length + 4 ≤ fifoMaxLen) := by
  constructor
  · intro h
    by_cases hret : sendSocketCmdRet send sendFd typeCmd ipnum curNo lastNo pData = 0
    · obtain ⟨hfd, -⟩ := sendSocketCmdRet_eq_zero_iff.1 hret
      have hlen : pData.length < 65536 := not_le.1 fun hlong => h.tooLong hlong hret
      have hsent := le_antisymm (hsend _) (not_lt.1 fun hpart => h.partly hpart hret)
      refine .inr (.inr ⟨hsent, not_lt.1 fun hlong => ?_⟩)
      -- the peer cannot hold the frame
      have hframe : sendSocketCmd sendFd typeCmd ipnum curNo lastNo pData =
          frameBytes (sendInfo typeCmd ipnum curNo lastNo pData) := by
        rw [sendSocketCmd, if_neg hfd]
      have hsize : (sendSocketCmd sendFd typeCmd ipnum curNo lastNo pData).length =
          headLen + pData.length + 4 := length_sendSocketCmd hfd hlen
      rw [← hsize, hframe] at hlong
      obtain ⟨args, hstream, hargs, s, css, hrun, hnone⟩ :=
        not_obtains_of_long (sendInfo_wellFormed ..) hlong (Vector.replicate fifoMaxLen 0)
      have haccepted : args.flatten = accepted send sendFd typeCmd ipnum curNo lastNo pData := by
        rw [accepted, hsent, Int.toNat_natCast, List.take_length, hframe, hstream]
      obtain ⟨s', css', hrun', hobtains⟩ := h.whole hret _ args haccepted hargs
      obtain ⟨rfl, rfl⟩ := Prod.mk.inj (Option.some.inj (hrun.symm.trans hrun'))
      exact hnone _ hobtains
    · rw [sendSocketCmdRet_eq_zero_iff, not_and_or, not_not, not_lt] at hret
      exact hret.imp id .inl
  · rintro (hfd | herror | ⟨hsent, hfit⟩)
    · exact carriesWhole_of_error fun hzero => (sendSocketCmdRet_eq_zero_iff.1 hzero).1 hfd
    · exact carriesWhole_of_error fun hzero =>
        not_lt.2 herror (sendSocketCmdRet_eq_zero_iff.1 hzero).2
    · by_cases hfd : sendFd = -1
      · exact carriesWhole_of_error fun hzero => (sendSocketCmdRet_eq_zero_iff.1 hzero).1 hfd
      · exact carriesWhole_of_fits hfd hsent hfit

end

/-- A payload of one byte that is accepted whole. -/
theorem sendSocketCmd_carriesWhole_byte :
    CarriesWhole (fun buf => buf.length) 3 7 1 0 0 [1] :=
  (sendSocketCmd_carriesWhole_iff fun _ => le_rfl).2 (.inr (.inr ⟨rfl, by decide⟩))

/-- `send` accepts one byte of a frame, which is not reported. -/
theorem not_carriesWhole_partly :
    ¬ ∀ (send : List UInt8 → ℤ) (sendFd : ℤ) (typeCmd ipnum : UInt32) (curNo lastNo : UInt16)
      (pData : List UInt8), (∀ buf, send buf ≤ buf.length) →
        CarriesWhole send sendFd typeCmd ipnum curNo lastNo pData := by
  intro h
  have hcall := h (fun buf => min 1 buf.length) 3 7 1 0 0 [1] fun _ => min_le_right _ _
  exact hcall.partly (by decide) (by decide)

end PanelTester.PackSocket
