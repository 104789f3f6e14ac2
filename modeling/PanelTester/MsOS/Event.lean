import Mathlib.Tactic

/-!
The event group of `MsOS_event.c`: flags, and a container of slots for the calls that wait for
some of them. A task of its own takes messages from a queue; after each it looks through the
slots and grants what it can (`disptchEventList`). A call that does not want to wait looks at the
flags itself (`waitEventPoll`).
-/

namespace PanelTester.MsOS

/-- `EVENT_NODE_NUM` -/
def eventNodeNum : ℕ := 32

/-- `EventWaitMode` -/
inductive EventWaitMode
  | and
  | or
  | andClear
  | orClear
  deriving DecidableEq, Repr

/-- `Event_node_t`; the slot is free when there is no semaphore. `call` says for whom it is
taken, and is not read by any step. -/
structure EventNode where
  eventSemaphore : Option ℕ
  requestEventFlag : UInt32
  requestEventMode : EventWaitMode
  returnEventAddr : ℕ
  call : ℕ
  deriving DecidableEq, Repr

/-- `EVENT_MESSAGE`, with what is read of it for its `MessageID`. -/
inductive EventMessage
  | clearEvent (param1 : UInt32)
  | setEvent (param1 : UInt32)
  | waitEvent (param1 : UInt32) (param2 : EventWaitMode) (result returnSemaphore call : ℕ)
  | releaseEvent (returnSemaphore call : ℕ)
  deriving DecidableEq, Repr

/-- The flags and the container of `MSOS_event`. -/
structure MSOSEvent where
  eventFlag : UInt32
  pEventContainer : List EventNode
  deriving DecidableEq, Repr

namespace EventNode

/-- A call waits in the slot. -/
def Waits (node : EventNode) : Prop := node.eventSemaphore ≠ none

instance (node : EventNode) : Decidable node.Waits := inferInstanceAs (Decidable (_ ≠ _))

def free (node : EventNode) : EventNode := { node with eventSemaphore := none }

/-- A turn of the loop of `_DisptchEventList`: the flags and the slot behind it, and what is
stored for the call if it is granted its wait. -/
def dispatch (u32EventFlag eventFlag : UInt32) (node : EventNode) :
    UInt32 × EventNode × Option UInt32 :=
  if node.Waits then
    match node.requestEventMode with
    | .and =>
        if node.requestEventFlag = u32EventFlag then (eventFlag, node.free, some u32EventFlag)
        else (eventFlag, node, none)
    | .or =>
        if node.requestEventFlag &&& u32EventFlag ≠ 0 then (eventFlag, node.free, some u32EventFlag)
        else (eventFlag, node, none)
    | .andClear =>
        if node.requestEventFlag = u32EventFlag then
          (eventFlag &&& ~~~u32EventFlag, node.free, some u32EventFlag)
        else (eventFlag, node, none)
    | .orClear =>
        if node.requestEventFlag &&& u32EventFlag ≠ 0 then
          (eventFlag &&& ~~~u32EventFlag, node.free, some u32EventFlag)
        else (eventFlag, node, none)
  else (eventFlag, node, none)

end EventNode

/-- A pass over the slots: the flags behind it, and every slot with what was stored for it. -/
def serveNodes (serve : UInt32 → EventNode → UInt32 × EventNode × Option UInt32)
    (eventFlag : UInt32) :
    List EventNode → UInt32 × List (EventNode × Option UInt32)
  | [] => (eventFlag, [])
  | node :: nodes =>
      let (eventFlag, result) := serve eventFlag node
      let (eventFlag, results) := serveNodes serve eventFlag nodes
      (eventFlag, result :: results)

namespace MSOSEvent

/-- `_InitEventList`, and the flags of a new group. -/
def initEventList : MSOSEvent where
  eventFlag := 0
  pEventContainer := List.replicate eventNodeNum ⟨none, 0, .and, 0, 0⟩

/-- `_AddEventList`; no slot is free where the assertion fails. -/
def addEventList (e : MSOSEvent) (node : EventNode) : Option MSOSEvent :=
  (e.pEventContainer.findIdx? (·.eventSemaphore = none)).map fun i =>
    { e with pEventContainer := e.pEventContainer.set i node }

/-- The slot that `_RemoveEventList` finds. -/
def findEventList (e : MSOSEvent) (eventSemaphore : ℕ) : Option ℕ :=
  e.pEventContainer.findIdx? (·.eventSemaphore = some eventSemaphore)

/-- `_RemoveEventList` -/
def removeEventList (e : MSOSEvent) (eventSemaphore : ℕ) : MSOSEvent :=
  match e.findEventList eventSemaphore with
  | none => e
  | some i => { e with pEventContainer := e.pEventContainer.modify i EventNode.free }

/-- The message in `MsOS_EventTask`. -/
def processMessage (e : MSOSEvent) : EventMessage → Option MSOSEvent
  | .clearEvent param1 => some { e with eventFlag := e.eventFlag &&& ~~~param1 }
  | .setEvent param1 => some { e with eventFlag := e.eventFlag ||| param1 }
  | .waitEvent param1 param2 result returnSemaphore call =>
      e.addEventList
        { eventSemaphore := some returnSemaphore
          requestEventFlag := param1
          requestEventMode := param2
          returnEventAddr := result
          call := call }
  | .releaseEvent returnSemaphore _ => some (e.removeEventList returnSemaphore)

/-- `_DisptchEventList` -/
def disptchEventList (e : MSOSEvent) : UInt32 × List (EventNode × Option UInt32) :=
  serveNodes (EventNode.dispatch e.eventFlag) e.eventFlag e.pEventContainer

/-- `MsOS_WaitEvent` with `u32WaitMs` 0: what it returns, with the flags it retrieved when that
is 1, and the flags behind it. -/
def waitEventPoll (e : MSOSEvent) (u32WaitEventFlag : UInt32) (eWaitMode : EventWaitMode) :
    Option UInt32 × UInt32 :=
  let retrieved := u32WaitEventFlag &&& e.eventFlag
  let orClear :=
    if retrieved ≠ 0 then (some retrieved, e.eventFlag &&& ~~~retrieved) else (none, e.eventFlag)
  match eWaitMode with
  | .or => if retrieved ≠ 0 then (some retrieved, e.eventFlag) else orClear
  | .orClear => orClear
  | .and | .andClear => (none, e.eventFlag)

end MSOSEvent

end PanelTester.MsOS
