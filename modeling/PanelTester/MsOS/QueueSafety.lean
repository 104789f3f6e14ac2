import PanelTester.MsOS.Queue

/-!
Safety of the message queue under every interleaving of calls. The invariant counts, for
each list, the permits of its semaphore and the calls that are between their semaphore
and the lock: a sender with a permit but no node yet, a receiver that gave its node back
but not yet the permit. `queue_safe` reads the safety of the queue off the invariant.
-/

namespace PanelTester.MsOS

open Library CallSystem

/-! ### The two list operations -/

namespace MsOSQueue

variable {q q' : MsOSQueue}

@[simp] theorem head_setHead (q : MsOSQueue) (b : Bool) (p : Option ℕ) :
    (q.setHead b p).head b = p := by
  cases b <;> rfl

@[simp] theorem head_setHead_not (q : MsOSQueue) (b : Bool) (p : Option ℕ) :
    (q.setHead b p).head (!b) = q.head (!b) := by
  cases b <;> rfl

@[simp] theorem pMsgList_setHead (q : MsOSQueue) (b : Bool) (p : Option ℕ) :
    (q.setHead b p).pMsgList = q.pMsgList := by
  cases b <;> rfl

/-- Only links and heads differ. -/
structure Same (q q' : MsOSQueue) : Prop where
  sendSemaphore : q'.sendSemaphore = q.sendSemaphore
  recvSemaphore : q'.recvSemaphore = q.recvSemaphore
  maxSizeOfMsg : q'.maxSizeOfMsg = q.maxSizeOfMsg
  val : ∀ i, (q'.pMsgList i).val = (q.pMsgList i).val

theorem Same.payload (h : Same q q') (pNode : ℕ) : q'.payload pNode = q.payload pNode := by
  rw [MsOSQueue.payload, h.val, MsOSQueue.payload]

theorem same_setHead {m : Mem Msg} (hval : ∀ i, (m i).val = (q.pMsgList i).val) (b : Bool)
    (p : Option ℕ) : Same q ({ q with pMsgList := m }.setHead b p) := by
  cases b <;> exact ⟨rfl, rfl, rfl, hval⟩

section

variable {b : Bool} {own other : List ℕ} {x a : ℕ}

/-- A node on neither list is appended to one of them. -/
theorem addToListTail_spec (hown : IsList q.pMsgList (q.head b) own)
    (hother : IsList q.pMsgList (q.head !b) other) (hx : x ∉ own) (hxo : x ∉ other)
    (hdisjoint : ∀ c ∈ own, c ∉ other) :
    ∃ q', q.addToListTail b x = some q' ∧ IsList q'.pMsgList (q'.head b) (own ++ [x]) ∧
      IsList q'.pMsgList (q'.head !b) other ∧ Same q q' := by
  have hne : ∀ c ∈ other, c ≠ x := fun c hc hcx => hxo (hcx ▸ hc)
  rw [addToListTail]
  cases own with
  | nil =>
      rw [hown.head_eq]
      refine ⟨_, rfl, ?_, ?_, ?_⟩
      · rw [head_setHead, pMsgList_setHead]
        exact isList_singleton (by simp) (by simp)
      · rw [head_setHead_not, pMsgList_setHead]
        exact hother.congr fun c hc => by simp [hne c hc]
      · exact same_setHead (by simp) b _
  | cons a l =>
      have hhead : q.head b = some a := hown.head_eq
      rw [hhead] at hown ⊢
      obtain ⟨y, hy⟩ : ∃ y, (a :: l).getLast? = some y :=
        ⟨_, List.getLast?_eq_some_getLast (by simp)⟩
      have hprev : (q.pMsgList a).prev = some y := (hown.tail_eq a rfl).trans hy
      have hxa : a ≠ x := fun heq => hx (heq ▸ List.mem_cons_self)
      have hyo : ∀ c ∈ other, c ≠ y ∧ c ≠ a := fun c hc =>
        ⟨fun heq => hdisjoint y (List.mem_of_mem_getLast? hy) (heq ▸ hc),
          fun heq => hdisjoint a List.mem_cons_self (heq ▸ hc)⟩
      simp only [Mem.setNext_prev, Mem.setPrev_prev, hxa, if_false, hprev, Option.bind_eq_bind,
        Option.bind_some]
      refine ⟨_, rfl, ?_, ?_, ⟨rfl, rfl, rfl, fun i => by simp⟩⟩
      · have hconcat := hown.concat hy hx
        rwa [← hhead] at hconcat
      · exact hother.congr fun c hc => by simp [hne c hc, hyo c hc]

/-- The head of a list is removed. -/
theorem removeFromListHead_spec (hown : IsList q.pMsgList (q.head b) (a :: own))
    (hother : IsList q.pMsgList (q.head !b) other) (hdisjoint : ∀ c ∈ a :: own, c ∉ other) :
    ∃ q', q.removeFromListHead b = (some a, q') ∧ IsList q'.pMsgList (q'.head b) own ∧
      IsList q'.pMsgList (q'.head !b) other ∧ Same q q' := by
  have hhead : q.head b = some a := hown.head_eq
  have htail := (hhead ▸ hown).tail
  have hnext : (q.pMsgList a).next = own.head? := by
    have hzero := hown.next_eq 0 (by simp)
    simpa [List.head?_eq_getElem?] using hzero
  rw [removeFromListHead]
  rw [hhead]
  refine ⟨_, rfl, ?_, ?_, ?_⟩
  · rw [head_setHead, pMsgList_setHead]
    exact htail
  · rw [head_setHead_not, pMsgList_setHead]
    apply hother.congr
    intro c hc
    cases hn : (q.pMsgList a).next with
    | none => exact ⟨rfl, rfl⟩
    | some d =>
        have hd : d ∈ own := List.mem_of_mem_head? (hnext.symm.trans hn)
        have hcd : c ≠ d := fun heq =>
          hdisjoint d (List.mem_cons_of_mem a hd) (heq ▸ hc)
        simp [hcd]
  · refine same_setHead (fun i => ?_) b _
    cases (q.pMsgList a).next <;> simp

end

end MsOSQueue

/-! ### What calls hold and owe -/

namespace Call

/-- The node a call holds. -/
def held : Call → List ℕ
  | .sendCopy _ pNode | .sendReject pNode | .sendInsert _ pNode | .recvCopy _ pNode _
  | .recvFree pNode => [pNode]
  | _ => []

/-- A node of the free list that no permit of `sendSemaphore` stands for: the call has
the permit, or has yet to give it back. -/
def freeDue : Call → ℕ
  | .sendClaim _ | .recvPost => 1
  | _ => 0

/-- The same for the used list and `recvSemaphore`. -/
def usedDue : Call → ℕ
  | .recvTake _ | .sendPost => 1
  | _ => 0

/-- The message a call has taken and not yet copied. -/
def seqs : Call → List ℕ
  | .recvCopy _ _ seq => [seq]
  | _ => []

/-- What is known of the message a call is about. -/
def Knows (size : ℕ) (s : Shared) : Call → Prop
  | .sendObtain m | .sendClaim m | .sendCopy m _ => m.length ≤ size
  | .sendInsert m pNode => s.queue.payload pNode = m
  | .sendReject _ => False
  | .recvCopy _ pNode seq => s.history.queued[seq]? = some (s.queue.payload pNode)
  | _ => True

theorem Knows.mono {size : ℕ} {s s' : Shared} {c : Call} (h : c.Knows size s)
    (hpayload : ∀ p ∈ c.held, s'.queue.payload p = s.queue.payload p)
    (hqueued : s.history.queued <+: s'.history.queued) : c.Knows size s' := by
  cases c with
  | sendInsert m pNode => exact (hpayload pNode (by simp [held])).trans h
  | recvCopy size pNode seq =>
      obtain ⟨ms, hms⟩ := hqueued
      have hlt := (List.getElem?_eq_some_iff.mp h).1
      show s'.history.queued[seq]? = _
      rw [← hms, List.getElem?_append_left hlt, hpayload pNode (by simp [held])]
      exact h
  | _ => exact h

end Call

def heldBy (calls : Multiset Call) : Multiset ℕ := calls.bind fun c => (c.held : Multiset ℕ)

def seqsOf (calls : Multiset Call) : Multiset ℕ := calls.bind fun c => (c.seqs : Multiset ℕ)

def freeDue (calls : Multiset Call) : ℕ := (calls.map Call.freeDue).sum

def usedDue (calls : Multiset Call) : ℕ := (calls.map Call.usedDue).sum

section

variable (c : Call) (calls : Multiset Call)

@[simp] theorem heldBy_cons : heldBy (c ::ₘ calls) = (c.held : Multiset ℕ) + heldBy calls :=
  Multiset.cons_bind ..

@[simp] theorem seqsOf_cons : seqsOf (c ::ₘ calls) = (c.seqs : Multiset ℕ) + seqsOf calls :=
  Multiset.cons_bind ..

@[simp] theorem freeDue_cons : freeDue (c ::ₘ calls) = c.freeDue + freeDue calls := by
  simp [freeDue]

@[simp] theorem usedDue_cons : usedDue (c ::ₘ calls) = c.usedDue + usedDue calls := by
  simp [usedDue]

end

theorem mem_heldBy {calls : Multiset Call} {c : Call} {p : ℕ} (hc : c ∈ calls) (hp : p ∈ c.held) :
    p ∈ heldBy calls :=
  Multiset.mem_bind.mpr ⟨c, hc, hp⟩

/-! ### Nodes and permits -/

/-- Where the nodes are, and which permits they stand for; `lost` nodes of the free list stand
for none. -/
structure Counts (n size : ℕ) (free used : List ℕ) (s : Shared) (lost : ℕ)
    (calls : Multiset Call) : Prop where
  maxSizeOfMsg : s.queue.maxSizeOfMsg = size
  freeList : IsList s.queue.pMsgList s.queue.pFreeHead free
  usedList : IsList s.queue.pMsgList s.queue.pUsedHead used
  partition : ((free ++ used : List ℕ) : Multiset ℕ) + heldBy calls = Multiset.range n
  freePermits : free.length = s.queue.sendSemaphore + freeDue calls + lost
  usedPermits : used.length = s.queue.recvSemaphore + usedDue calls

namespace Counts

variable {n size lost : ℕ} {free used : List ℕ} {s : Shared} {calls : Multiset Call} {c : Call}

theorem nodup (h : Counts n size free used s lost calls) :
    (((free ++ used : List ℕ) : Multiset ℕ) + heldBy calls).Nodup := by
  rw [h.partition]
  exact Multiset.nodup_range n

theorem disjoint (h : Counts n size free used s lost calls) : ∀ p ∈ free, p ∉ used := by
  have hlists := (Multiset.nodup_add.mp h.nodup).1
  rw [Multiset.coe_nodup, List.nodup_append'] at hlists
  exact fun p hp hp' => hlists.2.2 hp hp'

/-- A node is held by one call and is on no list. -/
theorem held (h : Counts n size free used s lost (c ::ₘ calls)) {p : ℕ} (hp : p ∈ c.held) :
    p ∉ free ∧ p ∉ used ∧ p ∉ heldBy calls := by
  have hnodup := h.nodup
  rw [heldBy_cons] at hnodup
  obtain ⟨-, hcalls, hdisjoint⟩ := Multiset.nodup_add.mp hnodup
  have hnot : p ∉ ((free ++ used : List ℕ) : Multiset ℕ) := fun hmem =>
    Multiset.disjoint_left.mp hdisjoint hmem (Multiset.mem_add.mpr (.inl hp))
  rw [Multiset.mem_coe, List.mem_append, not_or] at hnot
  exact ⟨hnot.1, hnot.2,
    fun hmem => Multiset.disjoint_left.mp (Multiset.nodup_add.mp hcalls).2.2 hp hmem⟩

/-- A call begins. -/
theorem start (h : Counts n size free used s lost calls) (hheld : c.held = [])
    (hfree : c.freeDue = 0) (hused : c.usedDue = 0) :
    Counts n size free used s lost (c ::ₘ calls) := by
  refine { h with partition := ?_, freePermits := ?_, usedPermits := ?_ }
  · simpa [hheld] using h.partition
  · simpa [hfree] using h.freePermits
  · simpa [hused] using h.usedPermits

/-- A call that holds no node takes a permit, gives one back or times out. -/
theorem semaphores (h : Counts n size free used s lost (c ::ₘ calls)) {r : Option Call}
    {ss rs : ℕ} (hheld : c.held = []) (hr : ∀ d ∈ r, d.held = [])
    (hfree : ss + r.elim 0 Call.freeDue = s.queue.sendSemaphore + c.freeDue)
    (hused : rs + r.elim 0 Call.usedDue = s.queue.recvSemaphore + c.usedDue) :
    Counts n size free used
      { s with queue := { s.queue with sendSemaphore := ss, recvSemaphore := rs } } lost
      (resume r calls) := by
  have hpartition := h.partition
  have hfreePermits := h.freePermits
  have husedPermits := h.usedPermits
  rw [heldBy_cons, hheld] at hpartition
  rw [freeDue_cons] at hfreePermits
  rw [usedDue_cons] at husedPermits
  refine { h with partition := ?_, freePermits := ?_, usedPermits := ?_ }
  · cases r with
    | none => simpa using hpartition
    | some d => simpa [hr d rfl] using hpartition
  · cases r with
    | none => simp at hfree ⊢; omega
    | some d => simp at hfree ⊢; omega
  · cases r with
    | none => simp at hused ⊢; omega
    | some d => simp at hused ⊢; omega

/-- With a permit for it, the free list has a node. -/
theorem removeFree {m : List UInt8}
    (h : Counts n size free used s lost (.sendClaim m ::ₘ calls)) :
    ∃ pNode free' q', free = pNode :: free' ∧
      s.queue.removeFromListHead true = (some pNode, q') ∧
      IsList q'.pMsgList q'.pFreeHead free' ∧ IsList q'.pMsgList q'.pUsedHead used ∧
      s.queue.Same q' := by
  have hpermits := h.freePermits
  rw [freeDue_cons] at hpermits
  cases free with
  | nil =>
      simp only [Call.freeDue, List.length_nil] at hpermits
      omega
  | cons pNode free' =>
      obtain ⟨q', hremove, hfree, hused, hsame⟩ := MsOSQueue.removeFromListHead_spec
        (q := s.queue) (b := true) h.freeList h.usedList h.disjoint
      exact ⟨pNode, free', q', rfl, hremove, hfree, hused, hsame⟩

/-- With a permit for it, the used list has a node. -/
theorem removeUsed {k : ℕ} (h : Counts n size free used s lost (.recvTake k ::ₘ calls)) :
    ∃ pNode used' q', used = pNode :: used' ∧
      s.queue.removeFromListHead false = (some pNode, q') ∧
      IsList q'.pMsgList q'.pFreeHead free ∧ IsList q'.pMsgList q'.pUsedHead used' ∧
      s.queue.Same q' := by
  have hpermits := h.usedPermits
  rw [usedDue_cons] at hpermits
  cases used with
  | nil =>
      simp only [Call.usedDue, List.length_nil] at hpermits
      omega
  | cons pNode used' =>
      obtain ⟨q', hremove, hused, hfree, hsame⟩ := MsOSQueue.removeFromListHead_spec
        (q := s.queue) (b := false) h.usedList h.freeList
        fun p hp hp' => h.disjoint p hp' hp
      exact ⟨pNode, used', q', rfl, hremove, hfree, hused, hsame⟩

/-- A call puts the node that it holds on the free list. -/
theorem addFree (h : Counts n size free used s lost (c ::ₘ calls)) {pNode : ℕ}
    (hheld : pNode ∈ c.held) :
    ∃ q', s.queue.addToListTail true pNode = some q' ∧
      IsList q'.pMsgList q'.pFreeHead (free ++ [pNode]) ∧
      IsList q'.pMsgList q'.pUsedHead used ∧ s.queue.Same q' := by
  obtain ⟨hnotFree, hnotUsed, -⟩ := h.held hheld
  exact MsOSQueue.addToListTail_spec (q := s.queue) (b := true) h.freeList h.usedList hnotFree
    hnotUsed h.disjoint

/-- A call puts the node that it holds on the used list. -/
theorem addUsed (h : Counts n size free used s lost (c ::ₘ calls)) {pNode : ℕ}
    (hheld : pNode ∈ c.held) :
    ∃ q', s.queue.addToListTail false pNode = some q' ∧
      IsList q'.pMsgList q'.pUsedHead (used ++ [pNode]) ∧
      IsList q'.pMsgList q'.pFreeHead free ∧ s.queue.Same q' := by
  obtain ⟨hnotFree, hnotUsed, -⟩ := h.held hheld
  exact MsOSQueue.addToListTail_spec (q := s.queue) (b := false) h.usedList h.freeList hnotUsed
    hnotFree fun p hp hp' => h.disjoint p hp' hp

/-- A section under the lock moves a node between a list and the call. -/
theorem lists (h : Counts n size free used s lost (c ::ₘ calls)) {r : Option Call} {lost' : ℕ}
    {q : MsOSQueue} {free' used' : List ℕ} {h' : History} (hsame : s.queue.Same q)
    (hfree : IsList q.pMsgList q.pFreeHead free') (hused : IsList q.pMsgList q.pUsedHead used')
    (hnodes : ((free' ++ used' ++ r.elim [] Call.held : List ℕ) : Multiset ℕ) =
      ((free ++ used ++ c.held : List ℕ) : Multiset ℕ))
    (hfreeDue : free'.length + c.freeDue + lost =
      free.length + r.elim 0 Call.freeDue + lost')
    (husedDue : used'.length + c.usedDue = used.length + r.elim 0 Call.usedDue) :
    Counts n size free' used' ⟨q, h'⟩ lost' (resume r calls) where
  maxSizeOfMsg := hsame.maxSizeOfMsg.trans h.maxSizeOfMsg
  freeList := hfree
  usedList := hused
  partition := by
    have hpartition := h.partition
    have hheldBy : heldBy (resume r calls) =
        ((r.elim [] Call.held : List ℕ) : Multiset ℕ) + heldBy calls := by
      cases r with
      | none => simp
      | some d => exact heldBy_cons d calls
    rw [← Multiset.coe_add, ← Multiset.coe_add _ c.held] at hnodes
    rw [heldBy_cons, ← add_assoc, ← hnodes, add_assoc, ← hheldBy] at hpartition
    exact hpartition
  freePermits := by
    have hpermits := h.freePermits
    rw [freeDue_cons] at hpermits
    show _ = q.sendSemaphore + _ + _
    rw [hsame.sendSemaphore]
    cases r with
    | none => simp at hfreeDue ⊢; omega
    | some d => simp at hfreeDue ⊢; omega
  usedPermits := by
    have hpermits := h.usedPermits
    rw [usedDue_cons] at hpermits
    show _ = q.recvSemaphore + _
    rw [hsame.recvSemaphore]
    cases r with
    | none => simp at husedDue ⊢; omega
    | some d => simp at husedDue ⊢; omega

/-- A sender gets its node. -/
theorem sendClaim {m : List UInt8} {pNode : ℕ} {q : MsOSQueue}
    (h : Counts n size free used s lost (.sendClaim m ::ₘ calls))
    (hremove : s.queue.removeFromListHead true = (some pNode, q)) :
    ∃ free', Counts n size free' used { s with queue := q } lost (.sendCopy m pNode ::ₘ calls) ∧
      s.queue.Same q := by
  obtain ⟨a, free', q', rfl, hremove', hfree, hused, hsame⟩ := h.removeFree
  obtain ⟨ha, rfl⟩ := Prod.mk.inj (hremove'.symm.trans hremove)
  obtain rfl := Option.some.inj ha
  refine ⟨free', h.lists (r := some (.sendCopy m a)) hsame hfree hused ?_
    (by simp [Call.freeDue]) (by simp [Call.usedDue]), hsame⟩
  rw [Multiset.coe_eq_coe]
  simpa [Call.held] using (List.perm_append_singleton a (free' ++ used))

/-- A sender puts its node in. -/
theorem sendInsert {m : List UInt8} {pNode : ℕ} {q : MsOSQueue}
    (h : Counts n size free used s lost (.sendInsert m pNode ::ₘ calls)) (h' : History)
    (hadd : s.queue.addToListTail false pNode = some q) :
    Counts n size free (used ++ [pNode]) ⟨q, h'⟩ lost (.sendPost ::ₘ calls) ∧
      s.queue.Same q := by
  have hheld : pNode ∈ (Call.sendInsert m pNode).held := by simp [Call.held]
  obtain ⟨q', hadd', hused, hfree, hsame⟩ := h.addUsed hheld
  obtain rfl := Option.some.inj (hadd'.symm.trans hadd)
  refine ⟨h.lists (r := some .sendPost) hsame hfree hused ?_ (by simp [Call.freeDue])
    (by simp [Call.usedDue]), hsame⟩
  simp [Call.held]

/-- A receiver takes the oldest node. -/
theorem recvTake {k pNode : ℕ} {q : MsOSQueue}
    (h : Counts n size free used s lost (.recvTake k ::ₘ calls))
    (hremove : s.queue.removeFromListHead false = (some pNode, q)) (seq : ℕ) (h' : History) :
    ∃ used', used = pNode :: used' ∧
      Counts n size free used' ⟨q, h'⟩ lost (.recvCopy k pNode seq ::ₘ calls) ∧
      s.queue.Same q := by
  obtain ⟨a, used', q', rfl, hremove', hfree, hused, hsame⟩ := h.removeUsed
  obtain ⟨ha, rfl⟩ := Prod.mk.inj (hremove'.symm.trans hremove)
  obtain rfl := Option.some.inj ha
  refine ⟨used', rfl, h.lists (r := some (.recvCopy k a seq)) hsame hfree hused ?_
    (by simp [Call.freeDue]) (by simp [Call.usedDue]), hsame⟩
  rw [Multiset.coe_eq_coe]
  simpa [Call.held] using (List.perm_append_singleton a used').append_left free

/-- A receiver gives its node back. -/
theorem recvFree {pNode : ℕ} {q : MsOSQueue}
    (h : Counts n size free used s lost (.recvFree pNode ::ₘ calls)) (h' : History)
    (hadd : s.queue.addToListTail true pNode = some q) :
    Counts n size (free ++ [pNode]) used ⟨q, h'⟩ lost (.recvPost ::ₘ calls) ∧
      s.queue.Same q := by
  have hheld : pNode ∈ (Call.recvFree pNode).held := by simp [Call.held]
  obtain ⟨q', hadd', hfree, hused, hsame⟩ := h.addFree hheld
  obtain rfl := Option.some.inj (hadd'.symm.trans hadd)
  refine ⟨h.lists (r := some .recvPost) hsame hfree hused ?_ (by simp [Call.freeDue])
    (by simp [Call.usedDue]), hsame⟩
  rw [Multiset.coe_eq_coe]
  simpa [Call.held] using (List.perm_append_singleton pNode used).symm.append_left free

/-- A sender gives its node back, and keeps the permit. -/
theorem sendReject {pNode : ℕ} {q : MsOSQueue}
    (h : Counts n size free used s lost (.sendReject pNode ::ₘ calls)) (h' : History)
    (hadd : s.queue.addToListTail true pNode = some q) :
    Counts n size (free ++ [pNode]) used ⟨q, h'⟩ (lost + 1) calls ∧ s.queue.Same q := by
  have hheld : pNode ∈ (Call.sendReject pNode).held := by simp [Call.held]
  obtain ⟨q', hadd', hfree, hused, hsame⟩ := h.addFree hheld
  obtain rfl := Option.some.inj (hadd'.symm.trans hadd)
  refine ⟨h.lists (r := none) hsame hfree hused ?_ ?_ (by simp [Call.usedDue]), hsame⟩
  · rw [Multiset.coe_eq_coe]
    simpa [Call.held] using (List.perm_append_singleton pNode used).symm.append_left free
  · simp [Call.freeDue]
    omega

/-- A call goes on with the node and the permits that it has. -/
theorem goOn (h : Counts n size free used s lost (c ::ₘ calls)) {d : Call} (h' : History)
    (hheld : d.held = c.held) (hfree : d.freeDue = c.freeDue) (hused : d.usedDue = c.usedDue) :
    Counts n size free used ⟨s.queue, h'⟩ lost (d ::ₘ calls) where
  maxSizeOfMsg := h.maxSizeOfMsg
  freeList := h.freeList
  usedList := h.usedList
  partition := by simpa [hheld] using h.partition
  freePermits := by simpa [hfree] using h.freePermits
  usedPermits := by simpa [hused] using h.usedPermits

/-- A sender copies its message into its node. -/
theorem sendCopy {m : List UInt8} {pNode : ℕ}
    (h : Counts n size free used s lost (.sendCopy m pNode ::ₘ calls)) :
    Counts n size free used { s with queue := s.queue.copyIn pNode m } lost
      (.sendInsert m pNode ::ₘ calls) where
  maxSizeOfMsg := h.maxSizeOfMsg
  freeList := h.freeList.congr fun p _ => by simp [MsOSQueue.copyIn]
  usedList := h.usedList.congr fun p _ => by simp [MsOSQueue.copyIn]
  partition := by simpa [Call.held] using h.partition
  freePermits := by simpa [Call.freeDue, MsOSQueue.copyIn] using h.freePermits
  usedPermits := by simpa [Call.usedDue, MsOSQueue.copyIn] using h.usedPermits

end Counts

/-! ### The invariant of calls that send what fits -/

/-- What was received is the queued message, cut to the intended size. -/
structure Receipt.Matches (h : History) (r : Receipt) (m : List UInt8) : Prop where
  queued : h.queued[r.seq]? = some m
  message : r.pu8Message = m.take r.u32IntendedSize
  size : r.u32ActualSize = min m.length r.u32IntendedSize

/-- The invariant of the queue with its calls, for the nodes of the two lists. -/
structure Inv (n size : ℕ) (free used : List ℕ) (s : Shared) (calls : Multiset Call) : Prop where
  maxSizeOfMsg : s.queue.maxSizeOfMsg = size
  sized : ∀ i, (s.queue.pMsgList i).val.msgRealSize ≤ (s.queue.pMsgList i).val.msg.length
  freeList : IsList s.queue.pMsgList s.queue.pFreeHead free
  usedList : IsList s.queue.pMsgList s.queue.pUsedHead used
  partition : ((free ++ used : List ℕ) : Multiset ℕ) + heldBy calls = Multiset.range n
  freePermits : free.length = s.queue.sendSemaphore + freeDue calls
  usedPermits : used.length = s.queue.recvSemaphore + usedDue calls
  taken_le : s.history.taken ≤ s.history.queued.length
  waiting : used.map s.queue.payload = s.history.queued.drop s.history.taken
  knows : ∀ c ∈ calls, c.Knows size s
  receipts : ∀ r ∈ s.history.received, ∃ m, r.Matches s.history m
  once : (s.history.received.map Receipt.seq : Multiset ℕ) + seqsOf calls =
    Multiset.range s.history.taken

namespace Inv

variable {n size : ℕ} {free used : List ℕ} {s : Shared} {calls : Multiset Call} {c : Call}

theorem counts (h : Inv n size free used s calls) : Counts n size free used s 0 calls :=
  ⟨h.maxSizeOfMsg, h.freeList, h.usedList, h.partition, h.freePermits, h.usedPermits⟩

theorem knows_tail (h : Inv n size free used s (c ::ₘ calls)) : ∀ d ∈ calls, d.Knows size s :=
  fun d hd => h.knows d (Multiset.mem_cons_of_mem hd)

theorem knows_head (h : Inv n size free used s (c ::ₘ calls)) : c.Knows size s :=
  h.knows c (Multiset.mem_cons_self c calls)

/-- What is known of the calls once one of them moved. -/
theorem knows_resume {s' : Shared} {r : Option Call} (h : Inv n size free used s (c ::ₘ calls))
    (hr : ∀ d ∈ r, d.Knows size s')
    (hpayload : ∀ p ∈ heldBy calls, s'.queue.payload p = s.queue.payload p)
    (hqueued : s.history.queued <+: s'.history.queued) :
    ∀ d ∈ resume r calls, d.Knows size s' := by
  have htail : ∀ d ∈ calls, d.Knows size s' := fun d hd =>
    (h.knows_tail d hd).mono (fun p hp => hpayload p (mem_heldBy hd hp)) hqueued
  cases r with
  | none => exact htail
  | some e =>
      intro d hd
      rcases Multiset.mem_cons.mp hd with rfl | hd
      · exact hr d rfl
      · exact htail d hd

/-- A call begins. -/
theorem start (h : Inv n size free used s calls) (hheld : c.held = []) (hfree : c.freeDue = 0)
    (hused : c.usedDue = 0) (hseqs : c.seqs = []) (hknows : c.Knows size s) :
    Inv n size free used s (c ::ₘ calls) := by
  have hcounts := h.counts.start hheld hfree hused
  refine { h with partition := hcounts.partition, freePermits := hcounts.freePermits,
                  usedPermits := hcounts.usedPermits, knows := ?_, once := ?_ }
  · intro d hd
    rcases Multiset.mem_cons.mp hd with rfl | hd
    · exact hknows
    · exact h.knows d hd
  · simpa [hseqs] using h.once

/-- A call that holds no node takes a permit, gives one back or times out. -/
theorem semaphores (h : Inv n size free used s (c ::ₘ calls)) {r : Option Call} {ss rs : ℕ}
    (hheld : c.held = []) (hseqs : c.seqs = [])
    (hr : ∀ d ∈ r, d.held = [] ∧ d.seqs = [] ∧ d.Knows size s)
    (hfree : ss + r.elim 0 Call.freeDue = s.queue.sendSemaphore + c.freeDue)
    (hused : rs + r.elim 0 Call.usedDue = s.queue.recvSemaphore + c.usedDue) :
    Inv n size free used
      { s with queue := { s.queue with sendSemaphore := ss, recvSemaphore := rs } }
      (resume r calls) := by
  have honce := h.once
  have hcounts := h.counts.semaphores hheld (fun d hd => (hr d hd).1) hfree hused
  rw [seqsOf_cons, hseqs] at honce
  refine { h with partition := hcounts.partition, freePermits := hcounts.freePermits,
                  usedPermits := hcounts.usedPermits, knows := ?_, once := ?_ }
  · exact h.knows_resume (fun d hd => (hr d hd).2.2.mono (fun _ _ => rfl) List.prefix_rfl)
      (fun _ _ => rfl) List.prefix_rfl
  · cases r with
    | none => simpa using honce
    | some d => simpa [(hr d rfl).2.1] using honce

/-- A section under the lock moves a node between a list and the call: what it must
settle for the history. -/
theorem lists (h : Inv n size free used s (c ::ₘ calls)) {d : Call} {q : MsOSQueue}
    {free' used' : List ℕ} {h' : History} (hsame : s.queue.Same q)
    (hcounts : Counts n size free' used' ⟨q, h'⟩ 0 (d ::ₘ calls))
    (hqueued : s.history.queued <+: h'.queued) (htaken : h'.taken ≤ h'.queued.length)
    (hwaiting : used'.map s.queue.payload = h'.queued.drop h'.taken)
    (hknows : d.Knows size ⟨q, h'⟩) (hreceived : h'.received = s.history.received)
    (hseqs : Multiset.range h'.taken + (c.seqs : Multiset ℕ) =
      Multiset.range s.history.taken + (d.seqs : Multiset ℕ)) :
    Inv n size free' used' ⟨q, h'⟩ (d ::ₘ calls) where
  maxSizeOfMsg := hcounts.maxSizeOfMsg
  sized i := by rw [hsame.val]; exact h.sized i
  freeList := hcounts.freeList
  usedList := hcounts.usedList
  partition := hcounts.partition
  freePermits := hcounts.freePermits
  usedPermits := hcounts.usedPermits
  taken_le := htaken
  waiting := by
    rw [← hwaiting]
    exact List.map_congr_left fun p _ => hsame.payload p
  knows := by
    refine h.knows_resume (r := some d) ?_ (fun p _ => hsame.payload p) hqueued
    rintro e ⟨⟩
    exact hknows
  receipts r hr := by
    rw [hreceived] at hr
    obtain ⟨m, hm⟩ := h.receipts r hr
    obtain ⟨ms, hms⟩ := hqueued
    refine ⟨m, ⟨?_, hm.message, hm.size⟩⟩
    rw [← hms, List.getElem?_append_left (List.getElem?_eq_some_iff.mp hm.queued).1, hm.queued]
  once := by
    have honce := h.once
    rw [seqsOf_cons] at honce ⊢
    rw [hreceived]
    refine add_right_cancel (b := (c.seqs : Multiset ℕ)) ?_
    rw [hseqs, ← honce]
    abel

/-- A sender gets its node. -/
theorem sendClaim {m : List UInt8} {pNode : ℕ} {q : MsOSQueue}
    (h : Inv n size free used s (.sendClaim m ::ₘ calls))
    (hremove : s.queue.removeFromListHead true = (some pNode, q)) :
    ∃ free', Inv n size free' used { s with queue := q } (.sendCopy m pNode ::ₘ calls) := by
  obtain ⟨free', hcounts, hsame⟩ := h.counts.sendClaim hremove
  exact ⟨free', h.lists hsame hcounts List.prefix_rfl h.taken_le h.waiting h.knows_head rfl rfl⟩

/-- A sender puts its node and message in. -/
theorem sendInsert {m : List UInt8} {pNode : ℕ} {q : MsOSQueue}
    (h : Inv n size free used s (.sendInsert m pNode ::ₘ calls))
    (hadd : s.queue.addToListTail false pNode = some q) :
    Inv n size free (used ++ [pNode]) ⟨q, { s.history with queued := s.history.queued ++ [m] }⟩
      (.sendPost ::ₘ calls) := by
  obtain ⟨hcounts, hsame⟩ := h.counts.sendInsert _ hadd
  have hpayload : s.queue.payload pNode = m := h.knows_head
  have htaken := h.taken_le
  refine h.lists hsame hcounts (List.prefix_append _ _) ?_ ?_ trivial rfl rfl
  · simp only [List.length_append, List.length_singleton]
    omega
  · rw [List.map_append, h.waiting, List.drop_append_of_le_length htaken, List.map_singleton,
      hpayload]

/-- A receiver takes the oldest message. -/
theorem recvTake {k pNode : ℕ} {q : MsOSQueue}
    (h : Inv n size free used s (.recvTake k ::ₘ calls))
    (hremove : s.queue.removeFromListHead false = (some pNode, q)) :
    ∃ used', Inv n size free used' ⟨q, { s.history with taken := s.history.taken + 1 }⟩
      (.recvCopy k pNode s.history.taken ::ₘ calls) := by
  obtain ⟨used', rfl, hcounts, hsame⟩ := h.counts.recvTake hremove s.history.taken
    { s.history with taken := s.history.taken + 1 }
  have hwaiting := h.waiting
  rw [List.map_cons] at hwaiting
  have hhead : s.history.queued[s.history.taken]? = some (s.queue.payload pNode) := by
    rw [← List.head?_drop, ← hwaiting]
    rfl
  have hlt := (List.getElem?_eq_some_iff.mp hhead).1
  refine ⟨used', h.lists hsame hcounts List.prefix_rfl hlt ?_ ?_ rfl ?_⟩
  · rw [← List.drop_drop, ← hwaiting]
    rfl
  · show s.history.queued[s.history.taken]? = some (q.payload pNode)
    rw [hhead, hsame.payload]
  · simp only [Call.seqs, Multiset.coe_nil, add_zero, Multiset.coe_singleton]
    rw [Multiset.range_succ, add_comm, Multiset.singleton_add]

/-- A receiver gives its node back. -/
theorem recvFree {pNode : ℕ} {q : MsOSQueue}
    (h : Inv n size free used s (.recvFree pNode ::ₘ calls))
    (hadd : s.queue.addToListTail true pNode = some q) :
    Inv n size (free ++ [pNode]) used { s with queue := q } (.recvPost ::ₘ calls) := by
  obtain ⟨hcounts, hsame⟩ := h.counts.recvFree _ hadd
  exact h.lists hsame hcounts List.prefix_rfl h.taken_le h.waiting trivial rfl rfl

/-- A sender copies its message into its node. -/
theorem sendCopy {m : List UInt8} {pNode : ℕ}
    (h : Inv n size free used s (.sendCopy m pNode ::ₘ calls)) :
    Inv n size free used { s with queue := s.queue.copyIn pNode m }
      (.sendInsert m pNode ::ₘ calls) := by
  obtain ⟨-, hnotUsed, hnotHeld⟩ := h.counts.held (p := pNode) (by simp [Call.held])
  have hcounts := h.counts.sendCopy
  have hown : (s.queue.copyIn pNode m).payload pNode = m := by
    simp [MsOSQueue.payload, MsOSQueue.copyIn]
  have hother : ∀ p, p ≠ pNode → (s.queue.copyIn pNode m).payload p = s.queue.payload p := by
    intro p hp
    simp [MsOSQueue.payload, MsOSQueue.copyIn, hp]
  exact {
    maxSizeOfMsg := h.maxSizeOfMsg
    sized := fun i => by
      by_cases hi : i = pNode
      · subst i
        simp [MsOSQueue.copyIn]
      · simpa [MsOSQueue.copyIn, hi] using h.sized i
    freeList := hcounts.freeList
    usedList := hcounts.usedList
    partition := hcounts.partition
    freePermits := hcounts.freePermits
    usedPermits := hcounts.usedPermits
    taken_le := h.taken_le
    waiting := by
      rw [← h.waiting]
      exact List.map_congr_left fun p hp => hother p fun heq => hnotUsed (heq ▸ hp)
    knows := by
      refine h.knows_resume (r := some (.sendInsert m pNode)) ?_
        (fun p hp => hother p fun heq => hnotHeld (heq ▸ hp)) List.prefix_rfl
      rintro d ⟨⟩
      exact hown
    receipts := h.receipts
    once := by simpa [Call.seqs] using h.once }

/-- What a receiver copies out is the message it took. -/
theorem copyOut_matches {k pNode seq : ℕ}
    (h : Inv n size free used s (.recvCopy k pNode seq ::ₘ calls)) :
    Receipt.Matches s.history
      ⟨seq, k, (s.queue.copyOut pNode k).1, (s.queue.copyOut pNode k).2⟩
      (s.queue.payload pNode) := by
  have hsized := h.sized pNode
  refine ⟨h.knows_head, ?_, ?_⟩
  · simp only [MsOSQueue.copyOut, MsOSQueue.payload]
    split
    · rw [List.take_take, Nat.min_eq_right ‹_›]
    · rw [List.take_take, Nat.min_eq_left (by omega)]
  · simp only [MsOSQueue.copyOut, MsOSQueue.payload, List.length_take]
    split <;> simp <;> omega

/-- A receiver copies the message out. -/
theorem recvCopy {k pNode seq : ℕ}
    (h : Inv n size free used s (.recvCopy k pNode seq ::ₘ calls)) :
    Inv n size free used
      { s with history := { s.history with received := s.history.received ++
        [⟨seq, k, (s.queue.copyOut pNode k).1, (s.queue.copyOut pNode k).2⟩] } }
      (.recvFree pNode ::ₘ calls) := by
  have hcounts := h.counts.goOn (d := .recvFree pNode) s.history rfl rfl rfl
  refine { h with partition := hcounts.partition, freePermits := hcounts.freePermits,
                  usedPermits := hcounts.usedPermits, knows := ?_, receipts := ?_, once := ?_ }
  · refine h.knows_resume (r := some (.recvFree pNode)) ?_ (fun _ _ => rfl) List.prefix_rfl
    rintro d ⟨⟩
    trivial
  · intro r hr
    rcases List.mem_append.mp hr with hr | hr
    · obtain ⟨m, hm⟩ := h.receipts r hr
      exact ⟨m, hm.queued, hm.message, hm.size⟩
    · obtain rfl := List.mem_singleton.mp hr
      have hmatches := h.copyOut_matches
      exact ⟨_, hmatches.queued, hmatches.message, hmatches.size⟩
  · have honce := h.once
    rw [← honce]
    simp [Call.seqs, ← Multiset.coe_add, add_assoc]

/-- Every step of every call keeps the invariant. -/
theorem move {s' : Shared} {r : Option Call} (h : Inv n size free used s (c ::ₘ calls))
    (hmove : Move s c s' r) : ∃ free' used', Inv n size free' used' s' (resume r calls) := by
  cases hmove with
  | sendTimeout => exact ⟨free, used, h.semaphores rfl rfl (by simp) rfl rfl⟩
  | sendObtain hpos =>
      refine ⟨free, used, h.semaphores rfl rfl ?_ ?_ rfl⟩
      · rintro d ⟨⟩
        exact ⟨rfl, rfl, h.knows_head⟩
      · exact Nat.sub_add_cancel hpos
  | sendClaim hremove =>
      obtain ⟨free', h'⟩ := h.sendClaim hremove
      exact ⟨free', used, h'⟩
  | sendClaimNull hremove =>
      obtain ⟨pNode, free', q', -, hremove', -⟩ := h.counts.removeFree
      exact absurd (hremove'.symm.trans hremove) (by simp)
  | sendCopy => exact ⟨free, used, h.sendCopy⟩
  | sendTooLong hlong => exact absurd (h.maxSizeOfMsg ▸ h.knows_head) hlong
  | sendReject => exact absurd h.knows_head id
  | sendInsert hadd => exact ⟨free, _, h.sendInsert hadd⟩
  | sendPost => exact ⟨free, used, h.semaphores rfl rfl (by simp) rfl rfl⟩
  | recvTimeout => exact ⟨free, used, h.semaphores rfl rfl (by simp) rfl rfl⟩
  | recvObtain hpos =>
      refine ⟨free, used, h.semaphores rfl rfl ?_ rfl ?_⟩
      · rintro d ⟨⟩
        exact ⟨rfl, rfl, trivial⟩
      · exact Nat.sub_add_cancel hpos
  | recvTake hremove =>
      obtain ⟨used', h'⟩ := h.recvTake hremove
      exact ⟨free, used', h'⟩
  | recvTakeNull hremove =>
      obtain ⟨pNode, used', q', -, hremove', -⟩ := h.counts.removeUsed
      exact absurd (hremove'.symm.trans hremove) (by simp)
  | recvCopy => exact ⟨free, used, h.recvCopy⟩
  | recvFree hadd => exact ⟨_, used, h.recvFree hadd⟩
  | recvPost => exact ⟨free, used, h.semaphores rfl rfl (by simp) rfl rfl⟩

end Inv

/-! ### The new queue -/

/-- The loop of `MsOS_CreateQueue` puts the nodes it visits behind those already there. -/
theorem foldlM_addToListTail {used : List ℕ} (new : List ℕ) :
    ∀ (q : MsOSQueue) (free : List ℕ), IsList q.pMsgList q.pFreeHead free →
      IsList q.pMsgList q.pUsedHead used → (free ++ new).Nodup → (∀ p ∈ free ++ new, p ∉ used) →
      ∃ q', new.foldlM (fun q i => q.addToListTail true i) q = some q' ∧
        IsList q'.pMsgList q'.pFreeHead (free ++ new) ∧ IsList q'.pMsgList q'.pUsedHead used ∧
        q.Same q' := by
  induction new with
  | nil =>
      intro q free hfree hused _ _
      refine ⟨q, rfl, ?_, hused, ⟨rfl, rfl, rfl, fun _ => rfl⟩⟩
      rwa [List.append_nil]
  | cons i new ih =>
      intro q free hfree hused hnodup hdisjoint
      have hi : i ∉ free := fun hmem =>
        (List.nodup_append'.mp hnodup).2.2 hmem List.mem_cons_self
      obtain ⟨q₁, hadd, hfree₁, hused₁, hsame₁⟩ := MsOSQueue.addToListTail_spec (q := q)
        (b := true) hfree hused hi (hdisjoint i (by simp)) fun p hp => hdisjoint p (by simp [hp])
      have hassoc : (free ++ [i]) ++ new = free ++ i :: new := List.append_cons ..|>.symm
      obtain ⟨q₂, hfold, hfree₂, hused₂, hsame₂⟩ := ih q₁ _ hfree₁ hused₁ (hassoc ▸ hnodup)
        (hassoc ▸ hdisjoint)
      refine ⟨q₂, ?_, hassoc ▸ hfree₂, hused₂, ⟨?_, ?_, ?_, fun j => ?_⟩⟩
      · rw [List.foldlM_cons, hadd]
        exact hfold
      · exact hsame₂.sendSemaphore.trans hsame₁.sendSemaphore
      · exact hsame₂.recvSemaphore.trans hsame₁.recvSemaphore
      · exact hsame₂.maxSizeOfMsg.trans hsame₁.maxSizeOfMsg
      · exact (hsame₂.val j).trans (hsame₁.val j)

/-- A queue can be created, and the invariant holds of it before any call. -/
theorem createQueue_inv {n size : ℕ} (hn : 1 ≤ n) (hsize : 1 ≤ size ∧ size ≤ 0x100) :
    ∃ q, createQueue n size = some q ∧
      Inv n size (List.range n) [] ⟨q, ⟨[], 0, []⟩⟩ 0 := by
  rw [createQueue]
  rw [if_neg (by omega), if_neg (by omega)]
  obtain ⟨q, hfold, hfree, hused, hsame⟩ := foldlM_addToListTail (List.range n)
    ⟨0, 0, n, size, fun _ => ⟨none, none, 0, List.replicate (msgSize size) 0⟩, none, none⟩ []
    (isList_nil _) (isList_nil _) (by simpa using List.nodup_range) (by simp)
  refine ⟨{ q with sendSemaphore := n, recvSemaphore := 0 }, ?_, ?_⟩
  · simp only [hfold, Option.bind_eq_bind, Option.bind_some]
  exact {
    maxSizeOfMsg := hsame.maxSizeOfMsg
    sized := fun i => by
      rw [hsame.val]
      simp
    freeList := hfree
    usedList := hused
    partition := by simp [heldBy, Multiset.range]
    freePermits := by simp [freeDue]
    usedPermits := by simp [usedDue]
    taken_le := le_rfl
    waiting := rfl
    knows := by simp
    receipts := by simp
    once := by simp [seqsOf] }

/-! ### Safety -/

/-- What is promised of a queue of `n` nodes while calls are in progress. -/
structure Safe (n : ℕ) (s : Shared) (calls : Multiset Call) : Prop where
  /-- The two lists are well formed, every node is on one of them or held by one call, and
  the used list carries the messages not yet taken, in the order they were queued. -/
  lists : ∃ free used, IsList s.queue.pMsgList s.queue.pFreeHead free ∧
    IsList s.queue.pMsgList s.queue.pUsedHead used ∧
    ((free ++ used : List ℕ) : Multiset ℕ) + heldBy calls = Multiset.range n ∧
    used.map s.queue.payload = s.history.queued.drop s.history.taken
  /-- A caller that obtained its semaphore gets a node. -/
  claims : ∀ m, Call.sendClaim m ∈ calls →
    ∃ pNode q, s.queue.removeFromListHead true = (some pNode, q)
  takes : ∀ k, Call.recvTake k ∈ calls →
    ∃ pNode q, s.queue.removeFromListHead false = (some pNode, q)
  /-- A node that a call holds can be put on either list. -/
  inserts : ∀ p ∈ heldBy calls, ∀ b, ∃ q, s.queue.addToListTail b p = some q
  /-- What was received is what was queued, cut to the intended size. -/
  received : ∀ r ∈ s.history.received, ∃ m, r.Matches s.history m
  /-- Each of the first `taken` messages was received once, or is about to be. -/
  once : (s.history.received.map Receipt.seq : Multiset ℕ) + seqsOf calls =
    Multiset.range s.history.taken
  taken_le : s.history.taken ≤ s.history.queued.length

theorem Inv.safe {n size : ℕ} {free used : List ℕ} {s : Shared} {calls : Multiset Call}
    (h : Inv n size free used s calls) : Safe n s calls where
  lists := ⟨free, used, h.freeList, h.usedList, h.partition, h.waiting⟩
  claims m hm := by
    obtain ⟨calls', rfl⟩ := Multiset.exists_cons_of_mem hm
    obtain ⟨pNode, -, q, -, hremove, -⟩ := h.counts.removeFree
    exact ⟨pNode, q, hremove⟩
  takes k hk := by
    obtain ⟨calls', rfl⟩ := Multiset.exists_cons_of_mem hk
    obtain ⟨pNode, -, q, -, hremove, -⟩ := h.counts.removeUsed
    exact ⟨pNode, q, hremove⟩
  inserts p hp b := by
    obtain ⟨c, hc, hpc⟩ := Multiset.mem_bind.mp hp
    obtain ⟨calls', rfl⟩ := Multiset.exists_cons_of_mem hc
    have hheld : p ∈ c.held := by simpa using hpc
    cases b with
    | false =>
        obtain ⟨q, hadd, -⟩ := h.counts.addUsed hheld
        exact ⟨q, hadd⟩
    | true =>
        obtain ⟨q, hadd, -⟩ := h.counts.addFree hheld
        exact ⟨q, hadd⟩
  received := h.receipts
  once := h.once
  taken_le := h.taken_le

/-- A new queue is safe under every interleaving of calls, senders bringing no more than
its message size. -/
theorem queue_safe (n size : ℕ) (hn : 1 ≤ n) (hsize : 1 ≤ size ∧ size ≤ 0x100) :
    ∃ q, createQueue n size = some q ∧ ∀ s calls,
      (queueCalls size).Reachable ⟨q, ⟨[], 0, []⟩⟩ (s, calls) → Safe n s calls := by
  obtain ⟨q, hcreate, hinit⟩ := createQueue_inv hn hsize
  refine ⟨q, hcreate, ?_⟩
  intro s calls hreach
  have hinv : ∃ free used, Inv n size free used s calls := by
    refine hreach.invariant (I := fun s calls => ∃ free used, Inv n size free used s calls)
      ⟨_, _, hinit⟩ ?_ ?_
    · rintro s calls c hstart ⟨free, used, h⟩
      rcases hstart with ⟨m, hm, rfl⟩ | ⟨k, rfl⟩
      · exact ⟨free, used, h.start rfl rfl rfl rfl hm⟩
      · exact ⟨free, used, h.start rfl rfl rfl rfl trivial⟩
    · rintro s s' calls c r hmove ⟨free, used, h⟩
      exact h.move hmove
  obtain ⟨free, used, h⟩ := hinv
  exact h.safe

theorem queue_safe_three : ∃ q, createQueue 3 16 = some q ∧ ∀ s calls,
    (queueCalls 16).Reachable ⟨q, ⟨[], 0, []⟩⟩ (s, calls) → Safe 3 s calls :=
  queue_safe 3 16 (by decide) (by decide)

end PanelTester.MsOS
