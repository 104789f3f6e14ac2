import PanelTester.MsOS.Event

/-!
What a wait for events is documented to be, and when the event group does it. The modes of
`EventWaitMode` say what flags a wait requires and whether it clears them; a group that serves its
slots one after the other in this way is `documentedDispatch`. The dispatcher differs from it when
flags are set that a waiting call did not ask for, and behind a call that cleared flags, which the
dispatcher still gives to the calls behind it.
-/

namespace PanelTester.MsOS

/-! ### Flags -/

/-- All flags of `f` are among those of `r`. -/
theorem and_not_eq_zero_iff {r f : UInt32} : f &&& ~~~r = 0 ↔ r &&& f = f := by
  constructor
  · intro h
    have hsplit : f &&& (r ||| ~~~r) = (f &&& r) ||| (f &&& ~~~r) :=
      UInt32.toBitVec_inj.mp (BitVec.and_or_distrib_left)
    rw [h, UInt32.or_zero, UInt32.or_not_self, UInt32.and_neg_one] at hsplit
    rw [UInt32.and_comm]
    exact hsplit.symm
  · intro h
    rw [← h, UInt32.and_comm r f, UInt32.and_assoc, UInt32.and_not_self, UInt32.and_zero]

/-- Flags are taken away twice. -/
theorem and_not_and_not_and (r f : UInt32) : f &&& ~~~(r &&& f) = f &&& ~~~r := by
  have hnot : ~~~(r &&& f) = ~~~r ||| ~~~f := UInt32.toBitVec_inj.mp BitVec.not_and
  have hsplit : f &&& (~~~r ||| ~~~f) = (f &&& ~~~r) ||| (f &&& ~~~f) :=
    UInt32.toBitVec_inj.mp BitVec.and_or_distrib_left
  rw [hnot, hsplit, UInt32.and_not_self, UInt32.or_zero]

/-! ### What a wait is -/

namespace EventWaitMode

/-- The requested flags that are required are set. -/
def Holds (requestEventFlag eventFlag : UInt32) : EventWaitMode → Prop
  | and | andClear => requestEventFlag &&& eventFlag = requestEventFlag
  | or | orClear => requestEventFlag &&& eventFlag ≠ 0

instance (r f : UInt32) : (mode : EventWaitMode) → Decidable (mode.Holds r f)
  | and | andClear => inferInstanceAs (Decidable (_ = _))
  | or | orClear => inferInstanceAs (Decidable (_ ≠ _))

/-- The flags of a wait that is successful are cleared. -/
def clears : EventWaitMode → Bool
  | and | or => false
  | andClear | orClear => true

end EventWaitMode

/-- A wait as it is documented: the flags that are retrieved if it is granted, and the flags of
the group behind it. -/
def documentedWait (requestEventFlag : UInt32) (mode : EventWaitMode) (eventFlag : UInt32) :
    Option UInt32 × UInt32 :=
  if mode.Holds requestEventFlag eventFlag then
    (some (requestEventFlag &&& eventFlag),
      if mode.clears then eventFlag &&& ~~~requestEventFlag else eventFlag)
  else (none, eventFlag)

/-- The wait of a slot, as it is documented. -/
def EventNode.documented (eventFlag : UInt32) (node : EventNode) :
    UInt32 × EventNode × Option UInt32 :=
  if node.Waits then
    let (retrieved, eventFlag) := documentedWait node.requestEventFlag
      node.requestEventMode eventFlag
    (eventFlag, if retrieved.isSome then node.free else node, retrieved)
  else (eventFlag, node, none)

/-- A pass in which every wait is served as it is documented. -/
def MSOSEvent.documentedDispatch (e : MSOSEvent) : UInt32 × List (EventNode × Option UInt32) :=
  serveNodes EventNode.documented e.eventFlag e.pEventContainer

/-! ### Runs -/

/-- A message for the task of the group, or a call of `MsOS_WaitEvent` that does not wait. -/
inductive EventRequest
  | message (m : EventMessage)
  | poll (u32WaitEventFlag : UInt32) (eWaitMode : EventWaitMode)

namespace MSOSEvent

/-- The group behind a pass. -/
def behind (r : UInt32 × List (EventNode × Option UInt32)) : MSOSEvent where
  eventFlag := r.1
  pEventContainer := r.2.map Prod.fst

/-- The group behind a request. -/
def request (e : MSOSEvent) : EventRequest → Option MSOSEvent
  | .message m => (e.processMessage m).map fun e => behind e.disptchEventList
  | .poll u32WaitEventFlag eWaitMode =>
      some { e with eventFlag := (e.waitEventPoll u32WaitEventFlag eWaitMode).2 }

/-- A request is served as it is documented. -/
def ServesAsDocumented (e : MSOSEvent) : EventRequest → Prop
  | .message m =>
      ∃ e', e.processMessage m = some e' ∧ e'.disptchEventList = e'.documentedDispatch
  | .poll u32WaitEventFlag eWaitMode =>
      e.waitEventPoll u32WaitEventFlag eWaitMode =
        documentedWait u32WaitEventFlag eWaitMode e.eventFlag

/-- So is every request of a run. -/
def RunAsDocumented : MSOSEvent → List EventRequest → Prop
  | _, [] => True
  | e, r :: rs => e.ServesAsDocumented r ∧ ∀ e', e.request r = some e' → RunAsDocumented e' rs

end MSOSEvent

/-- What the dispatcher tests. -/
def EventNode.Passes (u32EventFlag : UInt32) (node : EventNode) : Prop :=
  match node.requestEventMode with
  | .and | .andClear => node.requestEventFlag = u32EventFlag
  | .or | .orClear => node.requestEventFlag &&& u32EventFlag ≠ 0

/-- Up to the first call that clears flags, whoever can be granted its wait has asked for all
flags there are; behind it, nobody passes the test, nor asks for no flags at all. -/
def PassFits (f : UInt32) : List EventNode → Prop
  | [] => True
  | node :: nodes =>
      if node.Waits ∧ node.requestEventMode.Holds node.requestEventFlag f then
        f &&& ~~~node.requestEventFlag = 0 ∧
          if node.requestEventMode.clears ∧ f ≠ 0 then
            ∀ n ∈ nodes, n.Waits → ¬ n.Passes f ∧ ¬ n.requestEventMode.Holds n.requestEventFlag 0
          else PassFits f nodes
      else PassFits f nodes

namespace MSOSEvent

/-- A message finds a slot if it needs one, and a pass that fits; a call that does not want to
wait asks for any of its flags, or cannot be granted its wait. -/
def Fits (e : MSOSEvent) : EventRequest → Prop
  | .message m =>
      (∀ f mode p sem call, m = .waitEvent f mode p sem call →
        ∃ node ∈ e.pEventContainer, ¬ node.Waits) ∧
      ∀ e', e.processMessage m = some e' → PassFits e'.eventFlag e'.pEventContainer
  | .poll u32WaitEventFlag eWaitMode =>
      eWaitMode = .or ∨ eWaitMode = .orClear ∨ ¬ eWaitMode.Holds u32WaitEventFlag e.eventFlag

def RunFits : MSOSEvent → List EventRequest → Prop
  | _, [] => True
  | e, r :: rs => e.Fits r ∧ ∀ e', e.request r = some e' → RunFits e' rs

end MSOSEvent

/-! ### One slot -/

section

variable {f g : UInt32} {node : EventNode} {nodes : List EventNode}

instance (f : UInt32) (node : EventNode) : Decidable (node.Passes f) := by
  unfold EventNode.Passes
  cases node.requestEventMode <;> exact inferInstance

theorem EventNode.dispatch_eq (f g : UInt32) (node : EventNode) :
    node.dispatch f g =
      if node.Waits ∧ node.Passes f then
        (if node.requestEventMode.clears then g &&& ~~~f else g, node.free, some f)
      else (g, node, none) := by
  by_cases hw : node.Waits
  · cases hmode : node.requestEventMode <;>
      simp [EventNode.dispatch, EventNode.Passes, EventWaitMode.clears, hw, hmode]
  · simp [EventNode.dispatch, hw]

theorem EventNode.documented_eq (g : UInt32) (node : EventNode) :
    node.documented g =
      if node.Waits ∧ node.requestEventMode.Holds node.requestEventFlag g then
        (if node.requestEventMode.clears then g &&& ~~~node.requestEventFlag else g, node.free,
          some (node.requestEventFlag &&& g))
      else (g, node, none) := by
  by_cases hw : node.Waits
  · by_cases hh : node.requestEventMode.Holds node.requestEventFlag g <;>
      simp [EventNode.documented, documentedWait, hw, hh]
  · simp [EventNode.documented, hw]

/-- Where all flags are asked for, the test is the condition. -/
theorem EventNode.passes_iff (h : f &&& ~~~node.requestEventFlag = 0) :
    node.Passes f ↔ node.requestEventMode.Holds node.requestEventFlag f := by
  have hand := and_not_eq_zero_iff.mp h
  rw [EventNode.Passes]
  cases node.requestEventMode
  case and => exact ⟨fun heq => by rw [heq]; exact UInt32.and_self, fun hh => hh.symm.trans hand⟩
  case andClear => exact ⟨fun heq => by rw [heq]; exact UInt32.and_self,
    fun hh => hh.symm.trans hand⟩
  case or => exact Iff.rfl
  case orClear => exact Iff.rfl

/-- With its test passed, a slot has its condition. -/
theorem EventNode.Passes.holds (h : node.Passes f) :
    node.requestEventMode.Holds node.requestEventFlag f := by
  rw [EventNode.Passes] at h
  cases hmode : node.requestEventMode <;> rw [hmode] at h
  case and => exact h ▸ UInt32.and_self
  case andClear => exact h ▸ UInt32.and_self
  case or => exact h
  case orClear => exact h

/-- A slot whose wait cannot be granted is left alone by both. -/
theorem EventNode.eq_of_not_holds (h : ¬ (node.Waits ∧
    node.requestEventMode.Holds node.requestEventFlag f)) :
    node.dispatch f f = (f, node, none) ∧ node.documented f = (f, node, none) := by
  rw [EventNode.dispatch_eq, EventNode.documented_eq, if_neg h]
  exact ⟨if_neg fun hp => h ⟨hp.1, hp.2.holds⟩, rfl⟩

/-- One whose wait can be granted is served alike exactly when all flags are asked for. -/
theorem EventNode.eq_iff_of_holds
    (h : node.Waits ∧ node.requestEventMode.Holds node.requestEventFlag f) :
    (node.dispatch f f).2 = (node.documented f).2 ↔ f &&& ~~~node.requestEventFlag = 0 := by
  rw [EventNode.dispatch_eq, EventNode.documented_eq, if_pos h, and_not_eq_zero_iff]
  constructor
  · intro heq
    split at heq
    · exact (Option.some.inj (Prod.mk.inj heq).2).symm
    · exact nomatch (Prod.mk.inj heq).2
  · intro hand
    rw [if_pos ⟨h.1, (EventNode.passes_iff (and_not_eq_zero_iff.mpr hand)).mpr h.2⟩, hand]

/-- The flags behind it, then. -/
theorem EventNode.flag_of_holds (h : node.Waits ∧
    node.requestEventMode.Holds node.requestEventFlag f)
    (hf : f &&& ~~~node.requestEventFlag = 0) :
    (node.dispatch f f).1 = (if node.requestEventMode.clears then 0 else f) ∧
      (node.documented f).1 = if node.requestEventMode.clears then 0 else f := by
  rw [EventNode.dispatch_eq, EventNode.documented_eq, if_pos h,
    if_pos ⟨h.1, (EventNode.passes_iff hf).mpr h.2⟩]
  cases node.requestEventMode.clears
  · exact ⟨rfl, rfl⟩
  · exact ⟨UInt32.and_not_self, hf⟩

/-- With no flags left, a slot is served alike exactly when nobody grants it its wait. -/
theorem EventNode.eq_iff_of_cleared (hf : f ≠ 0) :
    (node.dispatch f 0).2 = (node.documented 0).2 ↔
      (node.Waits → ¬ node.Passes f ∧ ¬ node.requestEventMode.Holds node.requestEventFlag 0) := by
  rw [EventNode.dispatch_eq, EventNode.documented_eq]
  by_cases hw : node.Waits
  · by_cases hp : node.Passes f <;>
      by_cases hh : node.requestEventMode.Holds node.requestEventFlag 0 <;> simp [hw, hp, hh, hf]
  · simp [hw]

theorem EventNode.flag_of_cleared (node : EventNode) (f : UInt32) :
    (node.dispatch f 0).1 = 0 ∧ (node.documented 0).1 = 0 := by
  rw [EventNode.dispatch_eq, EventNode.documented_eq]
  constructor <;> split <;> simp

/-! ### A pass -/

theorem serveNodes_cons (serve : UInt32 → EventNode → UInt32 × EventNode × Option UInt32)
    (g : UInt32)
    (node : EventNode) (nodes : List EventNode) :
    serveNodes serve g (node :: nodes) =
      ((serveNodes serve (serve g node).1 nodes).1,
        (serve g node).2 :: (serveNodes serve (serve g node).1 nodes).2) := rfl

theorem serveNodes_cons_eq_iff {s t : UInt32 → EventNode → UInt32 × EventNode × Option UInt32}
    (hflag : (s g node).2 = (t g node).2 → (s g node).1 = (t g node).1) :
    serveNodes s g (node :: nodes) = serveNodes t g (node :: nodes) ↔
      (s g node).2 = (t g node).2 ∧
        serveNodes s (s g node).1 nodes = serveNodes t (s g node).1 nodes := by
  rw [serveNodes_cons, serveNodes_cons, Prod.mk.injEq, List.cons.injEq]
  constructor
  · rintro ⟨hf, heq, hrest⟩
    rw [← hflag heq] at hf hrest
    exact ⟨heq, Prod.ext hf hrest⟩
  · rintro ⟨heq, hrest⟩
    rw [← hflag heq, hrest]
    exact ⟨rfl, heq, rfl⟩

/-- Behind a call that cleared the flags. -/
theorem pass_iff_of_cleared (hf : f ≠ 0) (nodes : List EventNode) :
    serveNodes (EventNode.dispatch f) 0 nodes = serveNodes EventNode.documented 0 nodes ↔
      ∀ n ∈ nodes, n.Waits → ¬ n.Passes f ∧ ¬ n.requestEventMode.Holds n.requestEventFlag 0 := by
  induction nodes with
  | nil => simp [serveNodes]
  | cons node nodes ih =>
      obtain ⟨hcode, hdoc⟩ := node.flag_of_cleared f
      rw [serveNodes_cons_eq_iff fun _ => hcode.trans hdoc.symm, hcode, ih,
        EventNode.eq_iff_of_cleared hf, List.forall_mem_cons]

theorem pass_iff (f : UInt32) (nodes : List EventNode) :
    serveNodes (EventNode.dispatch f) f nodes = serveNodes EventNode.documented f nodes ↔
      PassFits f nodes := by
  induction nodes with
  | nil => simp [serveNodes, PassFits]
  | cons node nodes ih =>
      rw [PassFits]
      by_cases hh : node.Waits ∧ node.requestEventMode.Holds node.requestEventFlag f
      · rw [if_pos hh, serveNodes_cons_eq_iff, EventNode.eq_iff_of_holds hh]
        · apply and_congr_right
          intro hf
          rw [(EventNode.flag_of_holds hh hf).1]
          by_cases hclears : node.requestEventMode.clears = true
          · by_cases hzero : f = 0
            · rw [if_pos hclears, if_neg (by simp [hzero]), ← ih, hzero]
            · rw [if_pos hclears, if_pos ⟨hclears, hzero⟩, pass_iff_of_cleared hzero]
          · rw [if_neg hclears, if_neg (by simp [hclears]), ih]
        · intro heq
          have hf := (EventNode.eq_iff_of_holds hh).mp heq
          exact (EventNode.flag_of_holds hh hf).1.trans (EventNode.flag_of_holds hh hf).2.symm
      · obtain ⟨hcode, hdoc⟩ := EventNode.eq_of_not_holds hh
        rw [if_neg hh, serveNodes_cons_eq_iff fun _ => by rw [hcode, hdoc], hcode, hdoc]
        simpa using ih

/-! ### A request -/

theorem waitEventPoll_eq_iff (e : MSOSEvent) (r : UInt32) (mode : EventWaitMode) :
    e.waitEventPoll r mode = documentedWait r mode e.eventFlag ↔
      mode = .or ∨ mode = .orClear ∨ ¬ mode.Holds r e.eventFlag := by
  have hcleared := and_not_and_not_and r e.eventFlag
  by_cases hh : mode.Holds r e.eventFlag
  · rw [documentedWait, if_pos hh]
    cases mode
    case and => simp [MSOSEvent.waitEventPoll, hh]
    case andClear => simp [MSOSEvent.waitEventPoll, hh]
    case or =>
      have hset : r &&& e.eventFlag ≠ 0 := hh
      simp [MSOSEvent.waitEventPoll, hset, EventWaitMode.clears]
    case orClear =>
      have hset : r &&& e.eventFlag ≠ 0 := hh
      simp [MSOSEvent.waitEventPoll, hset, EventWaitMode.clears, hcleared]
  · rw [documentedWait, if_neg hh]
    cases mode
    case and => simp [MSOSEvent.waitEventPoll, hh]
    case andClear => simp [MSOSEvent.waitEventPoll, hh]
    case or =>
      have hunset : r &&& e.eventFlag = 0 := not_not.mp hh
      simp [MSOSEvent.waitEventPoll, hunset]
    case orClear =>
      have hunset : r &&& e.eventFlag = 0 := not_not.mp hh
      simp [MSOSEvent.waitEventPoll, hunset]

namespace MSOSEvent

/-- The assertion holds when a slot is free. -/
theorem addEventList_isSome_iff (e : MSOSEvent) (node : EventNode) :
    (e.addEventList node).isSome ↔ ∃ n ∈ e.pEventContainer, ¬ n.Waits := by
  rw [addEventList, Option.isSome_map, List.findIdx?_isSome, List.any_eq_true]
  simp [EventNode.Waits]

theorem processMessage_isSome_iff (e : MSOSEvent) (m : EventMessage) :
    (∃ e', e.processMessage m = some e') ↔
      ∀ f mode p sem call, m = .waitEvent f mode p sem call →
        ∃ n ∈ e.pEventContainer, ¬ n.Waits := by
  cases m with
  | clearEvent f => simp [processMessage]
  | setEvent f => simp [processMessage]
  | releaseEvent sem call => simp [processMessage]
  | waitEvent f mode p sem call =>
      rw [← Option.isSome_iff_exists, processMessage, addEventList_isSome_iff]
      constructor
      · intro h _ _ _ _ _ _
        exact h
      · intro h
        exact h f mode p sem call rfl

theorem servesAsDocumented_iff (e : MSOSEvent) (r : EventRequest) :
    e.ServesAsDocumented r ↔ e.Fits r := by
  cases r with
  | poll f mode => exact waitEventPoll_eq_iff e f mode
  | message m =>
      constructor
      · rintro ⟨e', heq, hpass⟩
        refine ⟨(processMessage_isSome_iff e m).mp ⟨e', heq⟩, ?_⟩
        intro e'' heq'
        obtain rfl := Option.some.inj (heq.symm.trans heq')
        exact (pass_iff _ _).mp hpass
      · rintro ⟨hslot, hfits⟩
        obtain ⟨e', heq⟩ := (processMessage_isSome_iff e m).mpr hslot
        exact ⟨e', heq, (pass_iff _ _).mpr (hfits e' heq)⟩

/-- From any state of a group, all waits of a run are served as they are documented exactly when
every request fits where it is made. -/
theorem runAsDocumented_iff (e : MSOSEvent) (rs : List EventRequest) :
    e.RunAsDocumented rs ↔ e.RunFits rs := by
  induction rs generalizing e with
  | nil => exact Iff.rfl
  | cons r rs ih =>
      refine and_congr (servesAsDocumented_iff e r) (forall_congr' fun e' => ?_)
      exact imp_congr_right fun _ => ih e'

/-- A wait for one flag of two that are set is not granted. -/
theorem not_runAsDocumented_and :
    ¬ ∀ rs : List EventRequest, initEventList.RunAsDocumented rs := by
  intro h
  obtain ⟨-, hrun⟩ := h [.message (.setEvent 3), .message (.waitEvent 1 .and 100 200 0)]
  obtain ⟨⟨e', heq, hpass⟩, -⟩ := hrun _ rfl
  obtain rfl := Option.some.inj heq
  exact absurd hpass (by decide)

end MSOSEvent

end

end PanelTester.MsOS
