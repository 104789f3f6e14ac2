import PanelTester.PackSocket.Delivery

/-!
Messages whose fragments interleave. All commands share one receive list, so a
message may be completed while fragments of others stand before, between and
behind its own. Every frame is parsed as it arrives; `DeliversEach` says that it
is handled as if its command had the list to itself, and
`deliversEach_iff_cleanDeliveries` that this is so exactly as long as no node of
the completed message lies between nodes of others.
-/

namespace PanelTester.PackSocket

open Library

/-- The frames of these messages arrive, each message's own in order. -/
structure Interleaving (msgs : List Message) (arrivals : List SocketCmdInfo) : Prop where
  distinct : (msgs.map Message.cmd).Nodup
  own : ∀ m ∈ msgs, arrivals.filter (·.cmd == m.cmd) = m.infos
  known : ∀ v ∈ arrivals, ∃ m ∈ msgs, v.cmd = m.cmd

/-- The frame is the last of its message. -/
def IsLast (v : SocketCmdInfo) : Prop := v.curNo = v.lastNo

instance (v : SocketCmdInfo) : Decidable (IsLast v) := by unfold IsLast; infer_instance

/-- The list after a frame: a completed message takes its own nodes along, and no other. -/
def pendingAfter (pending : List SocketCmdInfo) (v : SocketCmdInfo) : List SocketCmdInfo :=
  if IsLast v then (pending ++ [v]).filter (·.cmd != v.cmd) else pending ++ [v]

/-- What a frame is to hand on: its message, if it is the last frame. -/
def handedOn (msgs : List Message) (v : SocketCmdInfo) : List SocketCmd :=
  (msgs.filter fun m => m.cmd == v.cmd && decide (IsLast v)).map Message.delivered

/-- The receive list is intact and holds `pending`, and so on after every arrival, which
hands on what it is to hand on. -/
def DeliversEach (msgs : List Message) : SocketCmdClass → List SocketCmdInfo →
    List SocketCmdInfo → Prop
  | s, pending, [] => s.gstRecvSocketCmdList.Holds pending
  | s, pending, v :: arrivals =>
      s.gstRecvSocketCmdList.Holds pending ∧
        ∃ s', recvChunk s (frameBytes v) = some (s', handedOn msgs v) ∧
          DeliversEach msgs s' (pendingAfter pending v) arrivals

/-- Whenever a message is completed, no node of it lies between nodes of others. -/
def cleanDeliveries : List SocketCmdInfo → List SocketCmdInfo → Bool
  | _, [] => true
  | pending, v :: arrivals =>
      (!decide (IsLast v) || RecvList.cleanRemoval v.cmd (pending ++ [v])) &&
        cleanDeliveries (pendingAfter pending v) arrivals

/-! ### What is pending of each message -/

section

variable {m : Message} {pending : List SocketCmdInfo} {v : SocketCmdInfo}

theorem Message.curNo_of_getElem? {i : ℕ} (h : m.infos[i]? = some v) : v.curNo.toNat = i := by
  have hlt : i < m.fragments.length := by
    rw [← m.length_infos]
    exact (List.getElem?_eq_some_iff.mp h).1
  have hle := m.count_le
  rw [infos, List.getElem?_map, List.getElem?_zipIdx, List.getElem?_eq_getElem hlt] at h
  obtain rfl := Option.some.inj h
  simp only [info, sendInfo, UInt16.toNat_ofNat', Nat.zero_add]
  exact Nat.mod_eq_of_lt (by omega)

/-- The next frame of a message, behind its pending ones; `rest` is still to come. -/
structure Next (m : Message) (pending : List SocketCmdInfo) (v : SocketCmdInfo)
    (rest : List SocketCmdInfo) : Prop where
  split : pending.filter (·.cmd == m.cmd) ++ v :: rest = m.infos

namespace Next

variable {rest : List SocketCmdInfo}

theorem mem (h : Next m pending v rest) : v ∈ m.infos := h.split ▸ by simp

theorem fragment (h : Next m pending v rest) : Fragment m.cmd m.lastNo v :=
  m.fragment_of_mem h.mem

theorem cmd_eq (h : Next m pending v rest) : v.cmd = m.cmd := h.fragment.cmd_eq

/-- The nodes of the command once the frame is linked in. -/
theorem filter_linked (h : Next m pending v rest) :
    (pending ++ [v]).filter (·.cmd == m.cmd) = pending.filter (·.cmd == m.cmd) ++ [v] := by
  simp [List.filter_append, h.cmd_eq]

theorem isLast_iff (h : Next m pending v rest) : IsLast v ↔ rest = [] := by
  have hcur : v.curNo.toNat = (pending.filter (·.cmd == m.cmd)).length :=
    m.curNo_of_getElem? (by rw [← h.split]; simp)
  have hcount : (m.infos).length = m.lastNo.toNat + 1 := by
    rw [m.length_infos, m.lastNo_toNat]
  rw [← h.split, List.length_append, List.length_cons] at hcount
  rw [IsLast, ← UInt16.toNat_inj, hcur, h.fragment.lastNo_eq, ← List.length_eq_zero_iff]
  omega

/-- The message is complete with its last frame, and not before. -/
theorem complete_iff (h : Next m pending v rest) :
    RecvList.complete m.cmd (pending ++ [v]) = decide (IsLast v) := by
  have hown : ∀ w ∈ (pending ++ [v]).filter (·.cmd == m.cmd), Fragment m.cmd m.lastNo w := by
    intro w hw
    rw [h.filter_linked] at hw
    refine m.fragment_of_mem (h.split ▸ ?_)
    rcases List.mem_append.mp hw with hw | hw
    · exact List.mem_append_left _ hw
    · exact List.mem_append_right _ (List.mem_singleton.mp hw ▸ List.mem_cons_self)
  have hcount : (m.infos).length = m.lastNo.toNat + 1 := by
    rw [m.length_infos, m.lastNo_toNat]
  rw [← h.split, List.length_append, List.length_cons] at hcount
  rw [complete_of_fragments hown, h.filter_linked, decide_eq_decide, h.isLast_iff,
    List.length_append, List.length_singleton, ← List.length_eq_zero_iff]
  omega

theorem payloads_linked (h : Next m pending v []) :
    RecvList.payloads m.cmd (pending ++ [v]) = m.payload := by
  rw [RecvList.payloads, h.filter_linked, h.split, m.flatMap_pValid]

/-- A frame is accepted as if its command had the list to itself. -/
theorem accept_eq (h : Next m pending v rest) :
    accept pending (frameBytes v) =
      (pendingAfter pending v, if IsLast v then some m.delivered else none) := by
  have hwf := h.fragment.wellFormed
  simp only [accept, link_frameBytes hwf h.fragment.checked, frameInfo_frameBytes hwf, h.cmd_eq,
    h.complete_iff, decide_eq_true_eq, pendingAfter]
  by_cases hlast : IsLast v
  · obtain rfl := h.isLast_iff.mp hlast
    obtain ⟨htype, hipnum⟩ := m.type_of_mem h.mem
    simp only [hlast, if_true, h.payloads_linked, htype, hipnum, Message.delivered]
  · simp only [hlast, if_false]

theorem acceptClean_eq (h : Next m pending v rest) :
    acceptClean pending (frameBytes v) =
      (!decide (IsLast v) || RecvList.cleanRemoval v.cmd (pending ++ [v])) := by
  have hwf := h.fragment.wellFormed
  rw [acceptClean, link_frameBytes hwf h.fragment.checked, frameInfo_frameBytes hwf, h.cmd_eq,
    h.complete_iff]

end Next

end

theorem filter_eq_singleton {α β : Type*} [DecidableEq β] {f : α → β} {l : List α} {a : α}
    (hnodup : (l.map f).Nodup) (ha : a ∈ l) : l.filter (fun b => f b == f a) = [a] := by
  induction l with
  | nil => simp at ha
  | cons b l ih =>
      rw [List.map_cons, List.nodup_cons] at hnodup
      rcases List.mem_cons.mp ha with rfl | ha
      · rw [List.filter_cons_of_pos (by simp), List.filter_eq_nil_iff.mpr]
        intro c hc
        simpa using fun heq : f c = f a => hnodup.1 (heq ▸ List.mem_map_of_mem hc)
      · rw [List.filter_cons_of_neg, ih hnodup.2 ha]
        simpa using fun heq : f b = f a => hnodup.1 (heq ▸ List.mem_map_of_mem ha)

/-- What is handed on is what the message's own frames make it. -/
theorem handedOn_eq {msgs : List Message} {m : Message} {v : SocketCmdInfo}
    (hdistinct : (msgs.map Message.cmd).Nodup) (hm : m ∈ msgs) (hv : v.cmd = m.cmd) :
    handedOn msgs v = (if IsLast v then some m.delivered else none).toList := by
  rw [handedOn]
  by_cases hlast : IsLast v
  · simp [hlast, hv, filter_eq_singleton hdistinct hm]
  · simp [hlast]

/-! ### The run -/

/-- Of each message, the pending frames are those that have arrived, until all have. -/
def Underway (m : Message) (pending arrivals : List SocketCmdInfo) : Prop :=
  (arrivals.filter (·.cmd == m.cmd) ≠ [] ∧
      pending.filter (·.cmd == m.cmd) ++ arrivals.filter (·.cmd == m.cmd) = m.infos) ∨
    (arrivals.filter (·.cmd == m.cmd) = [] ∧ pending.filter (·.cmd == m.cmd) = [])

section

variable {msgs : List Message} {pending arrivals : List SocketCmdInfo} {v : SocketCmdInfo}

theorem Underway.next {m : Message} (h : Underway m pending (v :: arrivals)) (hv : v.cmd = m.cmd) :
    Next m pending v (arrivals.filter (·.cmd == m.cmd)) := by
  have hcons : (v :: arrivals).filter (·.cmd == m.cmd) =
      v :: arrivals.filter (·.cmd == m.cmd) := List.filter_cons_of_pos (by simpa using hv)
  rw [Underway, hcons] at h
  exact ⟨(h.resolve_right fun hnil => by simp at hnil).2⟩

/-- A frame of the message moves from what is to come to what is pending, or completes
the message; a frame of another message leaves both alone. -/
theorem Underway.step {m : Message} (h : Underway m pending (v :: arrivals)) :
    Underway m (pendingAfter pending v) arrivals := by
  by_cases hv : v.cmd = m.cmd
  · have hnext := h.next hv
    by_cases hlast : IsLast v
    · refine .inr ⟨hnext.isLast_iff.mp hlast, ?_⟩
      rw [pendingAfter, if_pos hlast, hv, List.filter_filter, List.filter_eq_nil_iff]
      simp
    · refine .inl ⟨fun hnil => hlast (hnext.isLast_iff.mpr hnil), ?_⟩
      rw [pendingAfter, if_neg hlast, hnext.filter_linked, List.append_assoc]
      exact hnext.split
  · have hcons : (v :: arrivals).filter (·.cmd == m.cmd) = arrivals.filter (·.cmd == m.cmd) :=
      List.filter_cons_of_neg (by simpa using hv)
    have hafter : (pendingAfter pending v).filter (·.cmd == m.cmd) =
        pending.filter (·.cmd == m.cmd) := by
      have hlinked : (pending ++ [v]).filter (·.cmd == m.cmd) =
          pending.filter (·.cmd == m.cmd) := by
        rw [List.filter_append, List.filter_cons_of_neg (by simpa using hv)]
        simp
      rw [pendingAfter]
      split
      · rw [List.filter_filter, ← hlinked]
        apply List.filter_congr
        intro w _
        by_cases hw : w.cmd = m.cmd
        · simp [hw, Ne.symm hv]
        · simp [hw]
      · exact hlinked
    rwa [Underway, hcons, ← hafter] at h

theorem Interleaving.underway (h : Interleaving msgs arrivals) :
    ∀ m ∈ msgs, Underway m [] arrivals := by
  intro m hm
  refine .inl ⟨?_, by rw [h.own m hm]; rfl⟩
  rw [h.own m hm]
  exact m.infos_ne_nil

/-- From any point of a run: it goes on as it should exactly as long as the removals are
clean. -/
theorem deliversEach_iff {s : SocketCmdClass} (hdistinct : (msgs.map Message.cmd).Nodup)
    (h : Refines s [] pending) (hunderway : ∀ m ∈ msgs, Underway m pending arrivals)
    (hknown : ∀ v ∈ arrivals, ∃ m ∈ msgs, v.cmd = m.cmd) :
    DeliversEach msgs s pending arrivals ↔ cleanDeliveries pending arrivals = true := by
  induction arrivals generalizing s pending with
  | nil => exact iff_of_true h.holds rfl
  | cons v arrivals ih =>
      obtain ⟨m, hm, hv⟩ := hknown v List.mem_cons_self
      have hnext := (hunderway m hm).next hv
      have hframe : nextFrame ([] ++ frameBytes v) = some (frameBytes v, []) :=
        nextFrame_frameBytes hnext.fragment.wellFormed
      have hfit : ([] : List UInt8).length + (frameBytes v).length ≤ fifoMaxLen := by
        obtain ⟨f, hf, hlen⟩ := m.length_of_mem (List.mem_map_of_mem hnext.mem)
        rw [hlen, List.length_nil, Nat.zero_add]
        exact m.fits f hf
      obtain ⟨s', hrecv, hclean, hdirty⟩ := recvChunk_frame h hframe nextFrame_nil hfit
      rw [hnext.accept_eq, ← handedOn_eq hdistinct hm hv] at hrecv
      rw [hnext.accept_eq] at hclean
      rw [cleanDeliveries, ← hnext.acceptClean_eq, Bool.and_eq_true]
      cases hstep : acceptClean pending (frameBytes v) with
      | true =>
          have hrest := ih (hclean hstep) (fun m hm => (hunderway m hm).step)
            fun w hw => hknown w (List.mem_cons_of_mem v hw)
          rw [← hrest]
          constructor
          · rintro ⟨-, s₂, hrecv₂, hdel⟩
            obtain ⟨rfl, -⟩ := Prod.mk.inj (Option.some.inj (hrecv.symm.trans hrecv₂))
            exact ⟨rfl, hdel⟩
          · exact fun hdel => ⟨h.holds, s', hrecv, hdel.2⟩
      | false =>
          -- the freed node is still linked, so the list after this frame is not intact
          refine iff_of_false ?_ (by simp)
          rintro ⟨-, s₂, hrecv₂, hdel⟩
          obtain ⟨rfl, -⟩ := Prod.mk.inj (Option.some.inj (hrecv.symm.trans hrecv₂))
          have hholds : s'.gstRecvSocketCmdList.Holds (pendingAfter pending v) := by
            cases arrivals with
            | nil => exact hdel
            | cons w arrivals => exact hdel.1
          exact hholds.not_dangling (hdirty hstep).2

theorem deliversEach_initCmdFifo (s : SocketCmdClass) (hs : s.gstRecvSocketCmdList.Holds [])
    (hs' : (initCmdFifo s).gstRecvSocketCmdList.Holds []) :
    DeliversEach msgs (initCmdFifo s) [] arrivals ↔ DeliversEach msgs s [] arrivals := by
  cases arrivals with
  | nil => exact iff_of_true hs' hs
  | cons v arrivals => simp only [DeliversEach, recvChunk_initCmdFifo, hs, hs']

end

/-- Interleaved messages are each handed on with their last frame, and take exactly their
own nodes off the list, if and only if no node of a completed message lies between nodes
of others. -/
theorem deliversEach_iff_cleanDeliveries (mem : Vector UInt8 fifoMaxLen) (msgs : List Message)
    (arrivals : List SocketCmdInfo) (h : Interleaving msgs arrivals) :
    DeliversEach msgs (initSocketCmdClass mem) [] arrivals ↔
      cleanDeliveries [] arrivals = true := by
  have href := initSocketCmdClass_refines mem
  have hfresh : (initSocketCmdClass mem).gstRecvSocketCmdList.Holds [] := ⟨[], rfl, rfl⟩
  rw [← deliversEach_initCmdFifo _ hfresh href.holds]
  exact deliversEach_iff h.distinct href h.underway h.known

/-! ### Two messages of three fragments -/

def firstMessage : Message where
  cmd := 7
  type := 2
  ipnum := 1
  fragments := [[1], [2], [3]]
  nonempty := by decide
  count_le := by decide
  fits := by decide

def secondMessage : Message where
  cmd := 8
  type := 2
  ipnum := 1
  fragments := [[4], [5], [6]]
  nonempty := by decide
  count_le := by decide
  fits := by decide

/-- The second message begins inside the first one and ends after it. -/
def overlapping : List SocketCmdInfo :=
  [firstMessage.info 0 [1], secondMessage.info 0 [4], firstMessage.info 1 [2],
    firstMessage.info 2 [3], secondMessage.info 1 [5], secondMessage.info 2 [6]]

/-- The fragments alternate, so one of the first message lies between two of the second. -/
def alternating : List SocketCmdInfo :=
  [firstMessage.info 0 [1], secondMessage.info 0 [4], firstMessage.info 1 [2],
    secondMessage.info 1 [5], firstMessage.info 2 [3], secondMessage.info 2 [6]]

theorem deliversEach_overlapping :
    DeliversEach [firstMessage, secondMessage]
      (initSocketCmdClass (Vector.replicate fifoMaxLen 0)) [] overlapping := by
  have h : Interleaving [firstMessage, secondMessage] overlapping :=
    ⟨by decide, by decide +kernel, by decide +kernel⟩
  exact (deliversEach_iff_cleanDeliveries (Vector.replicate fifoMaxLen 0) _ _ h).mpr
    (by decide +kernel)

/-- In alternation, the first message takes a node with it that stays linked. -/
theorem not_deliversEach_alternating :
    ∃ msgs arrivals, Interleaving msgs arrivals ∧
      ¬ DeliversEach msgs (initSocketCmdClass (Vector.replicate fifoMaxLen 0)) [] arrivals := by
  have h : Interleaving [firstMessage, secondMessage] alternating :=
    ⟨by decide, by decide +kernel, by decide +kernel⟩
  have href := initSocketCmdClass_refines (Vector.replicate fifoMaxLen 0)
  have hfresh : (initSocketCmdClass
      (Vector.replicate fifoMaxLen 0)).gstRecvSocketCmdList.Holds [] := ⟨[], rfl, rfl⟩
  refine ⟨_, _, h, ?_⟩
  intro hdel
  rw [← deliversEach_initCmdFifo _ hfresh href.holds,
    deliversEach_iff h.distinct href h.underway h.known] at hdel
  exact absurd hdel (by decide +kernel)

end PanelTester.PackSocket
