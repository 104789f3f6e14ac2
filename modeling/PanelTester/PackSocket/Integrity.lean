import PanelTester.PackSocket.Delivery

/-!
Lost, repeated and reordered fragments. The receiver never looks at `curNo`: it
counts the frames of a command that passed the check against the `lastNo` of the
first of them. `Piles` is that reassembler, with a pile of frames for every command
of its own, and `serverRecv_reassemble` says that the receive list shared by all
commands does the same, for every sequence of frames.
-/

namespace PanelTester.PackSocket

open Library

/-- The frames of each command accepted since it was last handed on. -/
abbrev Piles := UInt16 → List SocketCmdInfo

/-- There are as many frames as the first of them says. -/
def Full : List SocketCmdInfo → Bool
  | [] => false
  | f :: vs => decide ((f :: vs).length = f.lastNo.toNat + 1)

namespace Piles

/-- A frame that passes the check joins the pile of its command; a full pile is cleared. -/
def add (piles : Piles) (b : List UInt8) : Piles :=
  if crcOk b then
    let vs := piles (frameInfo b).cmd ++ [frameInfo b]
    Function.update piles (frameInfo b).cmd (if Full vs then [] else vs)
  else piles

/-- A command is handed on by a frame that passes the check and makes its pile full; its
payload is that of the pile, in order of arrival. -/
def handOn (piles : Piles) (b : List UInt8) : List SocketCmd :=
  let vs := piles (frameInfo b).cmd ++ [frameInfo b]
  if crcOk b && Full vs then [completed (frameInfo b) vs] else []

end Piles

/-- The commands handed on with each of these frames. -/
def reassemble : Piles → List (List UInt8) → List (List SocketCmd)
  | _, [] => []
  | piles, b :: bs => piles.handOn b :: reassemble (piles.add b) bs

/-- The nodes of every command are its pile, and no pile is full. -/
structure Sorted (pending : List SocketCmdInfo) (piles : Piles) : Prop where
  pile : ∀ cmd, pending.filter (·.cmd == cmd) = piles cmd
  short : ∀ cmd f, (piles cmd).head? = some f → (piles cmd).length ≤ f.lastNo.toNat

section

variable {pending : List SocketCmdInfo} {piles : Piles} {b : List UInt8}

theorem complete_eq_of_filter {cmd : UInt16} {vs ws : List SocketCmdInfo}
    (hown : vs.filter (·.cmd == cmd) = ws) :
    RecvList.complete cmd vs = ws.head?.any fun f => decide (f.lastNo.toNat + 1 ≤ ws.length) := by
  rw [RecvList.complete, List.countP_eq_length_filter, ← List.head?_filter, hown]
  cases ws <;> rfl

/-- Without a new node, no command is complete. -/
theorem Sorted.complete_pending (h : Sorted pending piles) (cmd : UInt16) :
    RecvList.complete cmd pending = false := by
  rw [complete_eq_of_filter (h.pile cmd)]
  cases hhead : (piles cmd).head? with
  | none => rfl
  | some f =>
      have hshort := h.short cmd f hhead
      simp
      omega

theorem filter_linked_own (v : SocketCmdInfo) :
    (pending ++ [v]).filter (·.cmd == v.cmd) = pending.filter (·.cmd == v.cmd) ++ [v] := by
  simp

/-- With one, its command is complete when the pile is full. -/
theorem Sorted.complete_linked (h : Sorted pending piles) (v : SocketCmdInfo) :
    RecvList.complete v.cmd (pending ++ [v]) = Full (piles v.cmd ++ [v]) := by
  rw [complete_eq_of_filter (filter_linked_own v), h.pile]
  cases hpile : piles v.cmd with
  | nil => simp [Full, eq_comm]
  | cons f vs =>
      have hshort := h.short v.cmd f (by rw [hpile]; rfl)
      rw [hpile, List.length_cons] at hshort
      simp only [List.cons_append, List.head?_cons, Option.any_some, Full, decide_eq_decide,
        List.length_cons, List.length_append, List.length_nil]
      omega

/-- The nodes of a command after the removal of another, or of its own. -/
theorem filter_removed (c d : UInt16) (vs : List SocketCmdInfo) :
    (vs.filter (·.cmd != c)).filter (·.cmd == d) =
      if d = c then [] else vs.filter (·.cmd == d) := by
  rw [List.filter_filter]
  split
  · subst d
    exact List.filter_eq_nil_iff.mpr fun w _ => by simp
  · apply List.filter_congr
    intro w _
    by_cases hw : w.cmd = d
    · simp [hw, ‹¬ d = c›]
    · simp [hw]

theorem Sorted.filter_linked (h : Sorted pending piles) (v : SocketCmdInfo) (cmd : UInt16) :
    (pending ++ [v]).filter (·.cmd == cmd) =
      if cmd = v.cmd then piles cmd ++ [v] else piles cmd := by
  rw [List.filter_append, h.pile]
  split
  · subst cmd
    simp
  · simp [Ne.symm ‹¬ cmd = v.cmd›]

/-- The pile of a command that was handed on is gone from the list. -/
theorem Sorted.remove (h : Sorted pending piles) (v : SocketCmdInfo) :
    Sorted ((pending ++ [v]).filter (·.cmd != v.cmd)) (Function.update piles v.cmd []) where
  pile cmd := by
    rw [filter_removed, h.filter_linked, Function.update_apply]
    split <;> rfl
  short cmd f hf := by
    rw [Function.update_apply] at hf ⊢
    split at hf
    · simp at hf
    · rw [if_neg ‹_›]
      exact h.short cmd f hf

/-- A pile that is not full yet grows by the new frame. -/
theorem Sorted.append (h : Sorted pending piles) {v : SocketCmdInfo}
    (hfull : Full (piles v.cmd ++ [v]) = false) :
    Sorted (pending ++ [v]) (Function.update piles v.cmd (piles v.cmd ++ [v])) where
  pile cmd := by
    rw [h.filter_linked, Function.update_apply]
    split
    · subst cmd; rfl
    · rfl
  short cmd f hf := by
    rw [Function.update_apply] at hf ⊢
    split at hf
    · rw [if_pos ‹_›]
      cases hpile : piles v.cmd with
      | nil =>
          rw [hpile] at hf hfull
          obtain rfl : v = f := by simpa using hf
          simp [Full] at hfull ⊢
          omega
      | cons g vs =>
          rw [hpile] at hf hfull
          obtain rfl : g = f := by simpa using hf
          have hshort := h.short v.cmd g (by rw [hpile]; rfl)
          rw [hpile] at hshort
          simp [Full] at hfull hshort ⊢
          omega
    · rw [if_neg ‹_›]
      exact h.short cmd f hf

/-- One frame does the same to the shared list and to the piles. -/
theorem Sorted.accept (h : Sorted pending piles) (b : List UInt8) :
    (accept pending b).2.toList = piles.handOn b ∧
      Sorted (PackSocket.accept pending b).1 (piles.add b) := by
  rw [PackSocket.accept, link, Piles.handOn, Piles.add]
  by_cases hcrc : crcOk b = true
  · have hcomplete := h.complete_linked (frameInfo b)
    have hpayloads : RecvList.payloads (frameInfo b).cmd (pending ++ [frameInfo b]) =
        (piles (frameInfo b).cmd ++ [frameInfo b]).flatMap SocketCmdInfo.pValid := by
      rw [RecvList.payloads, h.filter_linked, if_pos rfl]
    simp only [hcrc, if_true, hcomplete, Bool.true_and]
    cases hfull : Full (piles (frameInfo b).cmd ++ [frameInfo b]) with
    | true =>
        simp only [if_true, hpayloads]
        exact ⟨rfl, h.remove (frameInfo b)⟩
    | false =>
        simp only [Bool.false_eq_true, if_false]
        exact ⟨rfl, h.append hfull⟩
  · simp only [hcrc, if_false, h.complete_pending, Bool.false_eq_true]
    exact ⟨by simp, h⟩

end

/-! ### The run -/

section

variable {s s' : SocketCmdClass} {pending : List SocketCmdInfo} {piles : Piles}

/-- The frames arrive one by one, each complete and no longer than the FIFO. -/
def Frames (bs : List (List UInt8)) : Prop :=
  ∀ b ∈ bs, nextFrame b = some (b, []) ∧ b.length ≤ fifoMaxLen

instance (bs : List (List UInt8)) : Decidable (Frames bs) := by unfold Frames; infer_instance

/-- Every run that reads no freed node hands on what the piles do. -/
theorem serverRecv_piles {bs : List (List UInt8)} {css : List (List SocketCmd)}
    (h : Refines s [] pending) (hsorted : Sorted pending piles) (hframes : Frames bs)
    (hrun : serverRecv s bs = some (s', css)) : css = reassemble piles bs := by
  induction bs generalizing s pending piles css with
  | nil =>
      obtain ⟨-, rfl⟩ := Prod.mk.inj (Option.some.inj hrun)
      rfl
  | cons b bs ih =>
      obtain ⟨hnext, hlen⟩ := hframes b List.mem_cons_self
      have htail : Frames bs := fun c hc => hframes c (List.mem_cons_of_mem b hc)
      have hnext' : nextFrame ([] ++ b) = some (b, []) := hnext
      obtain ⟨s₁, hrecv, hclean, hdirty⟩ :=
        recvChunk_frame h hnext' nextFrame_nil (show 0 + b.length ≤ fifoMaxLen by omega)
      obtain ⟨⟨s₂, cs⟩, hrecv', hrun⟩ := Option.bind_eq_some_iff.mp hrun
      obtain ⟨⟨s₃, css₃⟩, hrest, hout⟩ := Option.bind_eq_some_iff.mp hrun
      obtain ⟨rfl, rfl⟩ := Prod.mk.inj (Option.some.inj hout)
      obtain ⟨rfl, rfl⟩ := Prod.mk.inj (Option.some.inj (hrecv.symm.trans hrecv'))
      obtain ⟨hhand, hsorted'⟩ := hsorted.accept b
      rw [reassemble, hhand]
      cases hstep : acceptClean pending b with
      | true => rw [ih (hclean hstep) hsorted' htail hrest]
      | false =>
          -- the list is damaged, so there is no further frame
          cases bs with
          | nil =>
              obtain ⟨-, rfl⟩ := Prod.mk.inj (Option.some.inj hrest)
              rfl
          | cons c bs =>
              obtain ⟨hnext₂, hlen₂⟩ := htail c List.mem_cons_self
              obtain ⟨hqueued, hdangling⟩ := hdirty hstep
              obtain ⟨hqueued₂, hlist⟩ :=
                recvSocketCmd_queued hqueued (show 0 + c.length ≤ fifoMaxLen by omega)
              obtain ⟨⟨s₄, cs₄⟩, hrecv₂, -⟩ := Option.bind_eq_some_iff.mp hrest
              rw [recvChunk_dangling hqueued₂ (hlist ▸ hdangling) hnext₂] at hrecv₂
              exact absurd hrecv₂ (by simp)

/-- With clean removals, every sequence of frames is received. -/
theorem serverRecv_of_clean {bs : List (List UInt8)} (h : Refines s [] pending)
    (hframes : Frames bs) (hclean : acceptAllClean pending bs = true) :
    ∃ s' css, serverRecv s bs = some (s', css) := by
  induction bs generalizing s pending with
  | nil => exact ⟨s, [], rfl⟩
  | cons b bs ih =>
      obtain ⟨hnext, hlen⟩ := hframes b List.mem_cons_self
      have hnext' : nextFrame ([] ++ b) = some (b, []) := hnext
      obtain ⟨s₁, hrecv, h₁, -⟩ :=
        recvChunk_frame h hnext' nextFrame_nil (show 0 + b.length ≤ fifoMaxLen by omega)
      rw [acceptAllClean, Bool.and_eq_true] at hclean
      obtain ⟨s', css, hrun⟩ :=
        ih (h₁ hclean.1) (fun c hc => hframes c (List.mem_cons_of_mem b hc)) hclean.2
      refine ⟨s', (accept pending b).2.toList :: css, ?_⟩
      simp only [serverRecv, hrecv, hrun, Option.bind_eq_bind, Option.bind_some]

end

theorem sorted_nil : Sorted [] fun _ => [] := ⟨fun _ => rfl, fun _ _ h => by simp at h⟩

/-- For every sequence of frames: a command is handed on only by a frame of it that passes
the check, exactly when as many such frames have arrived since it was last handed on as
the first of them says, with their payloads in order of arrival; a frame that fails the
check neither contributes to a command nor hands one on. -/
theorem serverRecv_reassemble (mem : Vector UInt8 fifoMaxLen) (bs : List (List UInt8))
    (hframes : Frames bs) (s : SocketCmdClass) (css : List (List SocketCmd))
    (hrun : serverRecv (initSocketCmdClass mem) bs = some (s, css)) :
    css = reassemble (fun _ => []) bs := by
  obtain ⟨s', hrun'⟩ := (serverRecv_initCmdFifo_iff _ bs css).mpr ⟨s, hrun⟩
  exact serverRecv_piles (initSocketCmdClass_refines mem) sorted_nil hframes hrun'

/-! ### A repeated fragment -/

/-- The command is made of the frames 0 to `lastNo` of one message, each once and in that
order. -/
def WholeMessage (bs : List (List UInt8)) (c : SocketCmd) : Prop :=
  ∃ vs : List SocketCmdInfo, vs ≠ [] ∧ (∀ v ∈ vs, v ∈ bs.map frameInfo) ∧
    (∀ i (h : i < vs.length), vs[i].cmd = c.cmd ∧ vs[i].curNo.toNat = i ∧
      vs[i].lastNo.toNat + 1 = vs.length) ∧
    c.pcmd = vs.flatMap SocketCmdInfo.pValid

/-- The first fragment of `pairMessage`. -/
def firstFragment : List UInt8 := frameBytes (pairMessage.info 0 [1, 2])

theorem serverRecv_init_of_clean (mem : Vector UInt8 fifoMaxLen) {bs : List (List UInt8)}
    (hframes : Frames bs) (hclean : acceptAllClean [] bs = true) :
    ∃ s css, serverRecv (initSocketCmdClass mem) bs = some (s, css) := by
  obtain ⟨s, css, hrun⟩ :=
    serverRecv_of_clean (initSocketCmdClass_refines mem) hframes hclean
  obtain ⟨s', hrun'⟩ := (serverRecv_initCmdFifo_iff _ bs css).mp ⟨s, hrun⟩
  exact ⟨s', css, hrun'⟩

/-- The fragment arrives twice and is joined with itself. -/
theorem serverRecv_repeated :
    ∃ s, serverRecv (initSocketCmdClass (Vector.replicate fifoMaxLen 0))
      [firstFragment, firstFragment] = some (s, [[], [⟨7, 2, 1, 4, [1, 2, 1, 2]⟩]]) := by
  have hframes : Frames [firstFragment, firstFragment] := by decide +kernel
  obtain ⟨s, css, hrun⟩ := serverRecv_init_of_clean (Vector.replicate fifoMaxLen 0) hframes
    (by decide +kernel)
  have hcss := serverRecv_reassemble (Vector.replicate fifoMaxLen 0) _ hframes s css hrun
  have hout : reassemble (fun _ => []) [firstFragment, firstFragment] =
      [[], [⟨7, 2, 1, 4, [1, 2, 1, 2]⟩]] := by decide +kernel
  exact ⟨s, by rw [hrun, hcss, hout]⟩

/-- Two copies of a first fragment are handed on as a command, without the second. -/
theorem exists_not_wholeMessage :
    ∃ bs s css, Frames bs ∧
      serverRecv (initSocketCmdClass (Vector.replicate fifoMaxLen 0)) bs = some (s, css) ∧
      ∃ c ∈ css.flatten, ¬ WholeMessage bs c := by
  have hframes : Frames [firstFragment, firstFragment] := by decide +kernel
  obtain ⟨s, css, hrun⟩ := serverRecv_init_of_clean (Vector.replicate fifoMaxLen 0) hframes
    (by decide +kernel)
  obtain ⟨s', hrun'⟩ := (serverRecv_initCmdFifo_iff _ _ css).mpr ⟨s, hrun⟩
  have hcss := serverRecv_piles (initSocketCmdClass_refines _) sorted_nil hframes hrun'
  have hout : reassemble (fun _ => []) [firstFragment, firstFragment] =
      [[], [⟨7, 2, 1, 4, [1, 2, 1, 2]⟩]] := by decide +kernel
  refine ⟨_, s, css, hframes, hrun, ⟨7, 2, 1, 4, [1, 2, 1, 2]⟩, by rw [hcss, hout]; simp, ?_⟩
  rintro ⟨vs, hne, hmem, hnumbers, -⟩
  have hfirst : ∀ v ∈ vs, v.curNo = 0 ∧ v.lastNo = 1 := by
    intro v hv
    have heq : v = frameInfo firstFragment := by simpa using hmem v hv
    rw [heq]
    decide +kernel
  have hpos : 0 < vs.length := List.length_pos_iff.mpr hne
  have hlen : vs.length = 2 := by
    rw [← (hnumbers 0 hpos).2.2, (hfirst _ (List.getElem_mem hpos)).2]
    rfl
  have hcur := (hnumbers 1 (by omega)).2.1
  rw [(hfirst _ (List.getElem_mem _)).1] at hcur
  exact absurd hcur (by decide)

end PanelTester.PackSocket
