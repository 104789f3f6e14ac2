import PanelTester.MsOS.Event
import PanelTester.Library.Steps

/-!
The event group with its task and the calls of `MsOS_WaitEvent` that wait. A call owns a cell for
the result and a semaphore; it sends a request, waits for the semaphore, and when its time is
over sends another request to be forgotten and returns 0, which leaves cell and semaphore to the
task. Every queue and semaphore operation is one step, and so is the use of a cell; the task holds
the lock semaphore from a message to the end of the pass behind it. Memory remembers for whom it
was allocated, so that a use of what was freed, or is another call's by now, is a fault.
-/

namespace PanelTester.MsOS

open Library

/-- Where a call of `MsOS_WaitEvent` is. -/
inductive WaitPlace
  | start
  | send
  | obtain
  | release
  | read
  | free (flags : UInt32)
  | delete (flags : UInt32)
  /-- It returned 1 with these flags, or 0. -/
  | returned (flags : Option UInt32)
  deriving DecidableEq

/-- A call of `MsOS_WaitEvent`, and what was done for it: what the dispatcher granted it, which
flags it cleared for that, and how often its memory was freed. -/
structure WaitCall where
  place : WaitPlace
  u32WaitEventFlag : UInt32
  eWaitMode : EventWaitMode
  result : ℕ
  returnSemaphore : ℕ
  granted : Option UInt32
  cleared : UInt32
  resultFreed : ℕ
  semaphoreFreed : ℕ

/-- Where `MsOS_EventTask` is: in a pass with the flags from before it, at a slot, or with the
result of that slot stored. -/
inductive EventTask
  | receive
  | serve (m : EventMessage)
  | dispatch (u32EventFlag : UInt32) (i : ℕ)
  | grant (u32EventFlag : UInt32) (i : ℕ)
  deriving DecidableEq

/-- An event group with all its calls. A cell and a semaphore are there together with the call
they were allocated for. `polls` are the calls that did not wait, with what they returned and the
flags before and behind. -/
structure EventState where
  event : MSOSEvent
  queue : List EventMessage
  task : EventTask
  cells : ℕ → Option (ℕ × UInt32)
  semaphores : ℕ → Option (ℕ × ℕ)
  calls : ℕ → WaitCall
  polls : List (Option UInt32 × UInt32 × UInt32)
  fault : Bool

/-- What a call, or the task, does next. -/
inductive EventAct
  | call (i : ℕ) (u32WaitEventFlag : UInt32) (eWaitMode : EventWaitMode)
      (result returnSemaphore : ℕ) (content : UInt32)
  | send (i : ℕ)
  | obtain (i : ℕ)
  | timeout (i : ℕ)
  | release (i : ℕ)
  | read (i : ℕ)
  | free (i : ℕ)
  | delete (i : ℕ)
  /-- `MsOS_SetEvent`, `MsOS_ClearEvent` -/
  | setEvent (u32EventFlag : UInt32)
  | clearEvent (u32EventFlag : UInt32)
  | poll (u32WaitEventFlag : UInt32) (eWaitMode : EventWaitMode)
  | receive
  | serve
  | dispatch
  | grant

namespace WaitCall

/-- The request of a call, in its slot. -/
def node (c : WaitCall) (i : ℕ) : EventNode where
  eventSemaphore := some c.returnSemaphore
  requestEventFlag := c.u32WaitEventFlag
  requestEventMode := c.eWaitMode
  returnEventAddr := c.result
  call := i

def waitMessage (c : WaitCall) (i : ℕ) : EventMessage :=
  .waitEvent c.u32WaitEventFlag c.eWaitMode c.result c.returnSemaphore i

def releaseMessage (c : WaitCall) (i : ℕ) : EventMessage := .releaseEvent c.returnSemaphore i

/-- A call before it is made. -/
def fresh : WaitCall where
  place := .start
  u32WaitEventFlag := 0
  eWaitMode := .and
  result := 0
  returnSemaphore := 0
  granted := none
  cleared := 0
  resultFreed := 0
  semaphoreFreed := 0

end WaitCall

namespace EventState

/-- What is in a cell of call `i`. -/
def content (s : EventState) (i p : ℕ) : Option UInt32 :=
  (s.cells p).bind fun cell => if cell.1 = i then some cell.2 else none

/-- The count of a semaphore of call `i`. -/
def permits (s : EventState) (i p : ℕ) : Option ℕ :=
  (s.semaphores p).bind fun semaphore => if semaphore.1 = i then some semaphore.2 else none

/-- The record of call `i` is changed. -/
def setCall (s : EventState) (i : ℕ) (c : WaitCall) : EventState :=
  { s with calls := Function.update s.calls i c }

/-- The queue has room for a message. -/
def Room (s : EventState) : Prop := s.queue.length < eventNodeNum

instance (s : EventState) : Decidable s.Room := inferInstanceAs (Decidable (_ < _))

/-- The lock semaphore is free. -/
def Unlocked (s : EventState) : Prop := s.task = .receive ∨ ∃ m, s.task = .serve m

/-- The next message is in the hands of the task. -/
def received (s : EventState) : Option EventState :=
  match s.queue with
  | [] => none
  | m :: queue => some { s with queue := queue, task := .serve m }

/-- The message, behind which a pass begins. -/
def served (s : EventState) (m : EventMessage) : Option EventState := do
  let event ← s.event.processMessage m
  let s' : EventState := { s with event := event, task := .dispatch event.eventFlag 0 }
  match m with
  | .releaseEvent returnSemaphore _ =>
      match s.event.findEventList returnSemaphore with
      | none => some s'
      | some k => do
          let node ← s.event.pEventContainer[k]?
          let _ ← s.content node.call node.returnEventAddr
          let _ ← s.permits node.call returnSemaphore
          let c := s.calls node.call
          some
            { s' with
              cells := Function.update s.cells node.returnEventAddr none
              semaphores := Function.update s.semaphores returnSemaphore none
              calls := Function.update s.calls node.call
                { c with
                  resultFreed := c.resultFreed + 1
                  semaphoreFreed := c.semaphoreFreed + 1 } }
  | _ => some s'

/-- A slot is looked at, and the result stored where its wait is granted; the lock is released
behind the last one. -/
def dispatched (s : EventState) (u32EventFlag : UInt32) (i : ℕ) : Option EventState :=
  match s.event.pEventContainer[i]? with
  | none => some { s with task := .receive }
  | some node =>
      match (node.dispatch u32EventFlag s.event.eventFlag).2.2 with
      | none => some { s with task := .dispatch u32EventFlag (i + 1) }
      | some flags => do
          let _ ← s.content node.call node.returnEventAddr
          some
            { s with
              cells := Function.update s.cells node.returnEventAddr (some (node.call, flags))
              calls := Function.update s.calls node.call
                { s.calls node.call with granted := some flags }
              task := .grant u32EventFlag i }

/-- The semaphore of a slot is released, and the slot freed. -/
def granted (s : EventState) (u32EventFlag : UInt32) (i : ℕ) : Option EventState := do
  let node ← s.event.pEventContainer[i]?
  let p ← node.eventSemaphore
  let n ← s.permits node.call p
  let (eventFlag, node', _) := node.dispatch u32EventFlag s.event.eventFlag
  some
    { s with
      event :=
        { eventFlag := eventFlag, pEventContainer := s.event.pEventContainer.set i node' }
      semaphores := Function.update s.semaphores p (some (node.call, n + 1))
      calls := Function.update s.calls node.call
        { s.calls node.call with cleared := s.event.eventFlag &&& ~~~eventFlag }
      task := .dispatch u32EventFlag (i + 1) }

/-- A step; there is no result where memory is not there, or an assertion fails. -/
def perform (s : EventState) : EventAct → Option EventState
  | .call i u32WaitEventFlag eWaitMode result returnSemaphore content =>
      some
        { s with
          cells := Function.update s.cells result (some (i, content))
          semaphores := Function.update s.semaphores returnSemaphore (some (i, 0))
          calls := Function.update s.calls i
            { WaitCall.fresh with
              place := .send
              u32WaitEventFlag := u32WaitEventFlag
              eWaitMode := eWaitMode
              result := result
              returnSemaphore := returnSemaphore } }
  | .send i =>
      some
        { s.setCall i { s.calls i with place := .obtain } with
          queue := s.queue ++ [(s.calls i).waitMessage i] }
  | .obtain i => do
      let n ← s.permits i (s.calls i).returnSemaphore
      some
        { s.setCall i { s.calls i with place := .read } with
          semaphores := Function.update s.semaphores (s.calls i).returnSemaphore (some (i, n - 1)) }
  | .timeout i => do
      let _ ← s.permits i (s.calls i).returnSemaphore
      some (s.setCall i { s.calls i with place := .release })
  | .release i =>
      some
        { s.setCall i { s.calls i with place := .returned none } with
          queue := s.queue ++ [(s.calls i).releaseMessage i] }
  | .read i => do
      let flags ← s.content i (s.calls i).result
      some (s.setCall i { s.calls i with place := .free flags })
  | .free i => do
      let _ ← s.content i (s.calls i).result
      match (s.calls i).place with
      | .free flags =>
          some
            { s.setCall i
                { s.calls i with
                  place := .delete flags
                  resultFreed := (s.calls i).resultFreed + 1 } with
              cells := Function.update s.cells (s.calls i).result none }
      | _ => none
  | .delete i => do
      let _ ← s.permits i (s.calls i).returnSemaphore
      match (s.calls i).place with
      | .delete flags =>
          some
            { s.setCall i
                { s.calls i with
                  place := .returned (some flags)
                  semaphoreFreed := (s.calls i).semaphoreFreed + 1 } with
              semaphores := Function.update s.semaphores (s.calls i).returnSemaphore none }
      | _ => none
  | .setEvent u32EventFlag => some { s with queue := s.queue ++ [.setEvent u32EventFlag] }
  | .clearEvent u32EventFlag => some { s with queue := s.queue ++ [.clearEvent u32EventFlag] }
  | .poll u32WaitEventFlag eWaitMode =>
      let (retrieved, eventFlag) := s.event.waitEventPoll u32WaitEventFlag eWaitMode
      some
        { s with
          event := { s.event with eventFlag := eventFlag }
          polls := s.polls ++ [(retrieved, s.event.eventFlag, eventFlag)] }
  | .receive => s.received
  | .serve =>
      match s.task with
      | .serve m => s.served m
      | _ => none
  | .dispatch =>
      match s.task with
      | .dispatch u32EventFlag i => s.dispatched u32EventFlag i
      | _ => none
  | .grant =>
      match s.task with
      | .grant u32EventFlag i => s.granted u32EventFlag i
      | _ => none

/-- A step can be made. -/
def Enabled (s : EventState) : EventAct → Prop
  | .call i _ _ result returnSemaphore _ =>
      (s.calls i).place = .start ∧ s.cells result = none ∧ s.semaphores returnSemaphore = none
  | .send i => (s.calls i).place = .send ∧ s.Room
  | .obtain i =>
      (s.calls i).place = .obtain ∧
        ∀ semaphore ∈ s.semaphores (s.calls i).returnSemaphore, semaphore.2 ≠ 0
  | .timeout i => (s.calls i).place = .obtain
  | .release i => (s.calls i).place = .release ∧ s.Room
  | .read i => (s.calls i).place = .read
  | .free i => ∃ flags, (s.calls i).place = .free flags
  | .delete i => ∃ flags, (s.calls i).place = .delete flags
  | .setEvent _ | .clearEvent _ => s.Room
  | .poll _ _ => s.Unlocked
  | .receive => s.task = .receive ∧ s.queue ≠ []
  | .serve => ∃ m, s.task = .serve m
  | .dispatch => ∃ f i, s.task = .dispatch f i
  | .grant => ∃ f i, s.task = .grant f i

/-- What a step leads to. -/
def next (s : EventState) (a : EventAct) : EventState := (s.perform a).getD { s with fault := true }

/-- A new group, before any call. -/
def new : EventState where
  event := MSOSEvent.initEventList
  queue := []
  task := .receive
  cells := fun _ => none
  semaphores := fun _ => none
  calls := fun _ => WaitCall.fresh
  polls := []
  fault := false

end EventState

/-- An event group with its task and calls, from its creation. -/
def eventGroup : StepSystem EventState EventAct where
  start := EventState.new
  enabled := EventState.Enabled
  next := EventState.next

end PanelTester.MsOS
