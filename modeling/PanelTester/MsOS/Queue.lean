import PanelTester.Library.DoublyLinked
import PanelTester.Library.Calls

/-!
The message queue of `MsOS_queue.c`. The nodes live in an array; a free list and a used
list run through them, and two counting semaphores say how many nodes each list has to
give. A section under the lock semaphore is one step, and so is every operation on
a semaphore; between them any other call may run. The history beside the queue is not
read by any step: it records which messages were put in, and what was received.
-/

namespace PanelTester.MsOS

open Library

/-- The payload of `MsOS_MsgNode`. -/
structure Msg where
  msgRealSize : ℕ
  msg : List UInt8
  deriving DecidableEq, Repr

/-- `MsOS_queue`, less the lock semaphore, which is free between two steps. -/
structure MsOSQueue where
  sendSemaphore : ℕ
  recvSemaphore : ℕ
  maxNumOfMsgs : ℕ
  maxSizeOfMsg : ℕ
  pMsgList : Mem Msg
  pFreeHead : Option ℕ
  pUsedHead : Option ℕ

namespace MsOSQueue

/-- The head of the free or of the used list. -/
def head (q : MsOSQueue) (bFree : Bool) : Option ℕ := if bFree then q.pFreeHead else q.pUsedHead

def setHead (q : MsOSQueue) (bFree : Bool) (p : Option ℕ) : MsOSQueue :=
  if bFree then { q with pFreeHead := p } else { q with pUsedHead := p }

/-- `_AddToListTail`; there is no result when the `prev` pointer of the head is null. -/
def addToListTail (q : MsOSQueue) (bFree : Bool) (pNode : ℕ) : Option MsOSQueue :=
  match q.head bFree with
  | none =>
      let m := q.pMsgList.setPrev pNode (some pNode)
      some ({ q with pMsgList := m.setNext pNode none }.setHead bFree (some pNode))
  | some pCur => do
      let m := q.pMsgList.setPrev pNode (q.pMsgList pCur).prev
      let m := m.setNext pNode none
      let prev ← (m pCur).prev
      let m := m.setNext prev (some pNode)
      some { q with pMsgList := m.setPrev pCur (some pNode) }

/-- `_RemoveFromListHead`: the node, or null, and the queue. -/
def removeFromListHead (q : MsOSQueue) (bFree : Bool) : Option ℕ × MsOSQueue :=
  match q.head bFree with
  | none => (none, q.setHead bFree none)
  | some pCur =>
      let m := match (q.pMsgList pCur).next with
        | none => q.pMsgList
        | some next => q.pMsgList.setPrev next (q.pMsgList pCur).prev
      (some pCur, { q with pMsgList := m }.setHead bFree (q.pMsgList pCur).next)

/-- The message in a node, as far as it was written. -/
def payload (q : MsOSQueue) (pNode : ℕ) : List UInt8 :=
  (q.pMsgList pNode).val.msg.take (q.pMsgList pNode).val.msgRealSize

/-- The copy of `MsOS_SendToQueue` into its node. -/
def copyIn (q : MsOSQueue) (pNode : ℕ) (pu8Message : List UInt8) : MsOSQueue :=
  let msg := pu8Message ++ (q.pMsgList pNode).val.msg.drop pu8Message.length
  { q with pMsgList := q.pMsgList.setVal pNode { msgRealSize := pu8Message.length, msg := msg } }

/-- The copy of `MsOS_RecvFromQueue` out of its node: the bytes and the actual size. -/
def copyOut (q : MsOSQueue) (pNode : ℕ) (u32IntendedSize : ℕ) : List UInt8 × ℕ :=
  let node := (q.pMsgList pNode).val
  if node.msgRealSize ≤ u32IntendedSize then (node.msg.take node.msgRealSize, node.msgRealSize)
  else (node.msg.take u32IntendedSize, u32IntendedSize)

end MsOSQueue

/-- `MsOS_MSG_SIZE` -/
def msgSize (maxSizeOfMsg : ℕ) : ℕ := (maxSizeOfMsg + 3) / 4 * 4

/-- `MsOS_CreateQueue`, once both allocations succeeded. -/
def createQueue (u32QueueSize u32MessageSize : ℕ) : Option MsOSQueue :=
  if u32QueueSize = 0 ∨ u32MessageSize > 0x100 then none
  else if u32MessageSize = 0 ∨ u32MessageSize > 0x100 then none
  else do
    let msgq : MsOSQueue :=
      { sendSemaphore := 0
        recvSemaphore := 0
        maxNumOfMsgs := u32QueueSize
        maxSizeOfMsg := u32MessageSize
        pMsgList := fun _ =>
          ⟨none, none, { msgRealSize := 0, msg := List.replicate (msgSize u32MessageSize) 0 }⟩
        pFreeHead := none
        pUsedHead := none }
    let msgq ← (List.range u32QueueSize).foldlM (fun q i => q.addToListTail true i) msgq
    some { msgq with sendSemaphore := u32QueueSize, recvSemaphore := 0 }

/-! ### Calls -/

/-- What a call received: the position of its message among those queued, and what it
was given. -/
structure Receipt where
  seq : ℕ
  u32IntendedSize : ℕ
  pu8Message : List UInt8
  u32ActualSize : ℕ

/-- The messages in the order they were put into the used list, how many were taken out
of it, and what was received. -/
structure History where
  queued : List (List UInt8)
  taken : ℕ
  received : List Receipt

/-- The queue with its history. -/
structure Shared where
  queue : MsOSQueue
  history : History

/-- A call in progress: what it does next, with its arguments and the node it holds.
`pu8Message` are the `u32Size` bytes of the argument. -/
inductive Call
  | sendObtain (pu8Message : List UInt8)
  | sendClaim (pu8Message : List UInt8)
  | sendCopy (pu8Message : List UInt8) (pNode : ℕ)
  | sendReject (pNode : ℕ)
  | sendInsert (pu8Message : List UInt8) (pNode : ℕ)
  | sendPost
  | recvObtain (u32IntendedSize : ℕ)
  | recvTake (u32IntendedSize : ℕ)
  | recvCopy (u32IntendedSize : ℕ) (pNode : ℕ) (seq : ℕ)
  | recvFree (pNode : ℕ)
  | recvPost

/-- The steps of `MsOS_SendToQueue` and `MsOS_RecvFromQueue`. -/
inductive Move : Shared → Call → Shared → Option Call → Prop
  /-- `QueueClaim`: no permit in time, or a permit. -/
  | sendTimeout {s m} : Move s (.sendObtain m) s none
  | sendObtain {s m} (h : 0 < s.queue.sendSemaphore) :
      Move s (.sendObtain m)
        { s with queue := { s.queue with sendSemaphore := s.queue.sendSemaphore - 1 } }
        (some (.sendClaim m))
  /-- `QueueClaim`, under the lock; the call returns when there is no node. -/
  | sendClaim {s m pNode q} (h : s.queue.removeFromListHead true = (some pNode, q)) :
      Move s (.sendClaim m) { s with queue := q } (some (.sendCopy m pNode))
  | sendClaimNull {s m q} (h : s.queue.removeFromListHead true = (none, q)) :
      Move s (.sendClaim m) { s with queue := q } none
  /-- `MsOS_SendToQueue`: the copy, or the message is too long and the node goes back. -/
  | sendCopy {s m pNode} (h : s.queue.maxSizeOfMsg ≥ m.length) :
      Move s (.sendCopy m pNode) { s with queue := s.queue.copyIn pNode m }
        (some (.sendInsert m pNode))
  | sendTooLong {s m pNode} (h : ¬ s.queue.maxSizeOfMsg ≥ m.length) :
      Move s (.sendCopy m pNode) s (some (.sendReject pNode))
  | sendReject {s pNode q} (h : s.queue.addToListTail true pNode = some q) :
      Move s (.sendReject pNode) { s with queue := q } none
  /-- `QueueSend`, under the lock, and its release of the semaphore. -/
  | sendInsert {s m pNode q} (h : s.queue.addToListTail false pNode = some q) :
      Move s (.sendInsert m pNode)
        ⟨q, { s.history with queued := s.history.queued ++ [m] }⟩ (some .sendPost)
  | sendPost {s} :
      Move s .sendPost
        { s with queue := { s.queue with recvSemaphore := s.queue.recvSemaphore + 1 } } none
  /-- `QueueRecv`: no permit in time, or a permit. -/
  | recvTimeout {s size} : Move s (.recvObtain size) s none
  | recvObtain {s size} (h : 0 < s.queue.recvSemaphore) :
      Move s (.recvObtain size)
        { s with queue := { s.queue with recvSemaphore := s.queue.recvSemaphore - 1 } }
        (some (.recvTake size))
  /-- `QueueRecv`, under the lock; the call returns when there is no node. -/
  | recvTake {s size pNode q} (h : s.queue.removeFromListHead false = (some pNode, q)) :
      Move s (.recvTake size) ⟨q, { s.history with taken := s.history.taken + 1 }⟩
        (some (.recvCopy size pNode s.history.taken))
  | recvTakeNull {s size q} (h : s.queue.removeFromListHead false = (none, q)) :
      Move s (.recvTake size) { s with queue := q } none
  /-- `MsOS_RecvFromQueue`: the copy. -/
  | recvCopy {s size pNode seq} :
      Move s (.recvCopy size pNode seq)
        { s with history := { s.history with received := s.history.received ++
          [⟨seq, size, (s.queue.copyOut pNode size).1, (s.queue.copyOut pNode size).2⟩] } }
        (some (.recvFree pNode))
  /-- `QueueFree`, under the lock, and its release of the semaphore. -/
  | recvFree {s pNode q} (h : s.queue.addToListTail true pNode = some q) :
      Move s (.recvFree pNode) { s with queue := q } (some .recvPost)
  | recvPost {s} :
      Move s .recvPost
        { s with queue := { s.queue with sendSemaphore := s.queue.sendSemaphore + 1 } } none

/-- The calls on a queue: senders bring no more than `maxSizeOfMsg` bytes. -/
def queueCalls (maxSizeOfMsg : ℕ) : CallSystem Shared Call where
  start c := (∃ m : List UInt8, m.length ≤ maxSizeOfMsg ∧ c = .sendObtain m) ∨
    ∃ size, c = .recvObtain size
  move := Move

end PanelTester.MsOS
