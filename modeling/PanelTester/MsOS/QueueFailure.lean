import PanelTester.MsOS.QueueSafety

/-!
Sends that fail. A call that times out leaves the queue as it was. A call with a message that is
too long gives its node back, but not the permit it obtained: the queue then takes one message
less, for ever. `queue_failure` says this of every state that calls of any kind lead to, and
what is left of an empty queue after a run.
-/

namespace PanelTester.MsOS

open Library CallSystem

/-- The queue, and how many sends were rejected once they had a permit. -/
structure Counted extends Shared where
  rejected : ℕ

/-- The rejections in the step that a call makes. -/
def Call.rejects : Call → ℕ
  | .sendReject _ => 1
  | _ => 0

/-- The calls on a queue, whatever senders bring. -/
def anyCalls : CallSystem Counted Call where
  start c := (∃ m, c = .sendObtain m) ∨ ∃ size, c = .recvObtain size
  move s c s' r := Move s.toShared c s'.toShared r ∧ s'.rejected = s.rejected + c.rejects

/-- What a call returns that ended in this state. -/
def Call.returned : Call → ℕ
  | .sendPost => 1
  | .recvPost => 1
  | _ => 0

/-- So many messages can be sent one after the other without blocking. -/
def CanSend : ℕ → Counted → Prop
  | 0, _ => True
  | k + 1, s => ∃ m s', anyCalls.Alone s (.sendObtain m) s' .sendPost ∧ CanSend k s'

/-- These messages can be received one after the other without blocking. -/
def CanReceive : List (List UInt8) → Counted → Prop
  | [], _ => True
  | m :: ms, s => ∃ s', anyCalls.Alone s (.recvObtain s.queue.maxSizeOfMsg) s' .recvPost ∧
      (s'.history.received.getLast?.map Receipt.pu8Message) = some m ∧ CanReceive ms s'

/-- What a later caller can tell is the same. -/
structure Unchanged (s s' : Counted) : Prop where
  canSend : ∀ k, CanSend k s' ↔ CanSend k s
  canReceive : ∀ ms, CanReceive ms s' ↔ CanReceive ms s

/-- Whenever `MsOS_SendToQueue` returns 0 for this message, the queue is as before. -/
def FailsUnchanged (s : Counted) (m : List UInt8) : Prop :=
  ∀ s' e, anyCalls.Alone s (.sendObtain m) s' e → e.returned = 0 → Unchanged s s'

/-! ### The invariant -/

/-- Nodes and permits in a state that calls of any kind lead to. -/
def Counting (n size : ℕ) (s : Counted) (calls : Multiset Call) : Prop :=
  ∃ free used, Counts n size free used s.toShared s.rejected calls

section

variable {n size : ℕ} {s s' : Counted} {calls : Multiset Call} {c : Call} {r : Option Call}

theorem Counting.start (h : Counting n size s calls) (hc : anyCalls.start c) :
    Counting n size s (c ::ₘ calls) := by
  obtain ⟨free, used, h⟩ := h
  rcases hc with ⟨m, rfl⟩ | ⟨k, rfl⟩
  · exact ⟨free, used, h.start rfl rfl rfl⟩
  · exact ⟨free, used, h.start rfl rfl rfl⟩

/-- Every step of every call keeps count. -/
theorem Counting.move (h : Counting n size s (c ::ₘ calls)) (hmove : anyCalls.move s c s' r) :
    Counting n size s' (resume r calls) := by
  obtain ⟨free, used, h⟩ := h
  obtain ⟨⟨queue, history⟩, rejected⟩ := s
  obtain ⟨shared', rejected'⟩ := s'
  obtain ⟨hmove, hrejected⟩ := hmove
  dsimp only at h hmove hrejected
  subst hrejected
  show ∃ free used, Counts n size free used shared' _ _
  cases hmove with
  | sendTimeout => exact ⟨free, used, h.semaphores rfl (by simp) rfl rfl⟩
  | sendObtain hpos =>
      exact ⟨free, used, h.semaphores rfl (by rintro d ⟨⟩; rfl) (Nat.sub_add_cancel hpos) rfl⟩
  | sendClaim hremove =>
      obtain ⟨free', h', -⟩ := h.sendClaim hremove
      exact ⟨free', used, h'⟩
  | sendClaimNull hremove =>
      obtain ⟨pNode, free', q', -, hremove', -⟩ := h.removeFree
      exact absurd (hremove'.symm.trans hremove) (by simp)
  | sendCopy => exact ⟨free, used, h.sendCopy⟩
  | sendTooLong => exact ⟨free, used, h.goOn _ rfl rfl rfl⟩
  | sendReject hadd => exact ⟨_, used, (h.sendReject _ hadd).1⟩
  | sendInsert hadd => exact ⟨free, _, (h.sendInsert _ hadd).1⟩
  | sendPost => exact ⟨free, used, h.semaphores rfl (by simp) rfl rfl⟩
  | recvTimeout => exact ⟨free, used, h.semaphores rfl (by simp) rfl rfl⟩
  | recvObtain hpos =>
      exact ⟨free, used, h.semaphores rfl (by rintro d ⟨⟩; rfl) rfl (Nat.sub_add_cancel hpos)⟩
  | recvTake hremove =>
      obtain ⟨used', -, h', -⟩ := h.recvTake hremove _ _
      exact ⟨free, used', h'⟩
  | recvTakeNull hremove =>
      obtain ⟨pNode, used', q', -, hremove', -⟩ := h.removeUsed
      exact absurd (hremove'.symm.trans hremove) (by simp)
  | recvCopy => exact ⟨free, used, h.goOn _ rfl rfl rfl⟩
  | recvFree hadd => exact ⟨_, used, (h.recvFree _ hadd).1⟩
  | recvPost => exact ⟨free, used, h.semaphores rfl (by simp) rfl rfl⟩

theorem Counting.reachable {q : MsOSQueue} (hinit : Counting n size ⟨⟨q, ⟨[], 0, []⟩⟩, 0⟩ 0)
    (h : anyCalls.Reachable ⟨⟨q, ⟨[], 0, []⟩⟩, 0⟩ (s, calls)) : Counting n size s calls :=
  h.invariant (I := Counting n size) hinit (fun hc h => h.start hc) fun hmove h => h.move hmove

end

/-! ### A send that has a permit -/

/-- The states of a send from its permit on. -/
inductive Permitted (size : ℕ) (m : List UInt8) : Call → Prop
  | claim : Permitted size m (.sendClaim m)
  | copy {pNode : ℕ} : Permitted size m (.sendCopy m pNode)
  | reject {pNode : ℕ} (h : size < m.length) : Permitted size m (.sendReject pNode)
  | insert {pNode : ℕ} (h : m.length ≤ size) : Permitted size m (.sendInsert m pNode)
  | post (h : m.length ≤ size) : Permitted size m .sendPost

/-- How a send with a permit ends. -/
def Ended (size : ℕ) (m : List UInt8) (e : Call) : Prop :=
  m.length ≤ size ∧ e = .sendPost ∨ size < m.length ∧ ∃ pNode, e = .sendReject pNode

section

variable {n size : ℕ} {s s' : Counted} {calls : Multiset Call} {c e : Call} {r : Option Call}
  {m : List UInt8}

/-- How many steps a send has left at most. -/
def Call.stepsLeft : Call → ℕ
  | .sendClaim _ => 4
  | .sendCopy _ _ => 3
  | .sendInsert _ _ => 2
  | _ => 1

/-- A step of a send with a permit leaves the other permits alone. -/
theorem Permitted.move (hc : Permitted size m c) (h : Counting n size s (c ::ₘ calls))
    (hmove : anyCalls.move s c s' r) :
    s'.queue.sendSemaphore = s.queue.sendSemaphore ∧
      (∀ d ∈ r, Permitted size m d ∧ d.stepsLeft < c.stepsLeft) ∧
      (r = none → Ended size m c) := by
  obtain ⟨free, used, h⟩ := h
  obtain ⟨⟨queue, history⟩, rejected⟩ := s
  obtain ⟨shared', rejected'⟩ := s'
  obtain ⟨hmove, -⟩ := hmove
  have hsize : queue.maxSizeOfMsg = size := h.maxSizeOfMsg
  dsimp only at h hmove
  cases hc with
  | claim =>
      cases hmove with
      | sendClaim hremove =>
          obtain ⟨-, -, hsame⟩ := h.sendClaim hremove
          exact ⟨hsame.sendSemaphore, by rintro d ⟨⟩; exact ⟨.copy, Nat.lt_succ_self 3⟩, by simp⟩
      | sendClaimNull hremove =>
          obtain ⟨pNode, free', q', -, hremove', -⟩ := h.removeFree
          exact absurd (hremove'.symm.trans hremove) (by simp)
  | copy =>
      cases hmove with
      | sendCopy hfits =>
          exact ⟨rfl, by rintro d ⟨⟩; exact ⟨.insert (hsize ▸ hfits), Nat.lt_succ_self 2⟩, by simp⟩
      | sendTooLong hlong =>
          refine ⟨rfl, ?_, by simp⟩
          rintro d ⟨⟩
          exact ⟨.reject (hsize ▸ not_le.mp hlong), by simp [Call.stepsLeft]⟩
  | reject hlong =>
      cases hmove with
      | sendReject hadd =>
          exact ⟨(h.sendReject history hadd).2.sendSemaphore, by simp,
            fun _ => .inr ⟨hlong, _, rfl⟩⟩
  | insert hfits =>
      cases hmove with
      | sendInsert hadd =>
          exact ⟨(h.sendInsert history hadd).2.sendSemaphore,
            by rintro d ⟨⟩; exact ⟨.post hfits, Nat.lt_succ_self 1⟩, by simp⟩
  | post hfits =>
      cases hmove with
      | sendPost => exact ⟨rfl, by simp, fun _ => .inl ⟨hfits, rfl⟩⟩

/-- A send with a permit can always go on. -/
theorem Permitted.progress (hc : Permitted size m c) (h : Counting n size s (c ::ₘ calls)) :
    ∃ s' r, anyCalls.move s c s' r := by
  obtain ⟨free, used, h⟩ := h
  have hsize : s.queue.maxSizeOfMsg = size := h.maxSizeOfMsg
  cases hc with
  | claim =>
      obtain ⟨pNode, free', q', -, hremove, -⟩ := h.removeFree
      exact ⟨⟨_, _⟩, _, .sendClaim hremove, rfl⟩
  | copy =>
      by_cases hfits : m.length ≤ s.queue.maxSizeOfMsg
      · exact ⟨⟨_, _⟩, _, .sendCopy hfits, rfl⟩
      · exact ⟨⟨_, _⟩, _, .sendTooLong hfits, rfl⟩
  | reject hlong =>
      obtain ⟨q', hadd, -⟩ := h.addFree List.mem_cons_self
      exact ⟨⟨_, _⟩, _, .sendReject hadd, rfl⟩
  | insert hfits =>
      obtain ⟨q', hadd, -⟩ := h.addUsed List.mem_cons_self
      exact ⟨⟨_, _⟩, _, .sendInsert hadd, rfl⟩
  | post hfits => exact ⟨⟨_, _⟩, _, .sendPost, rfl⟩

/-- A send with a permit takes no other permit, and ends by the size of its message. -/
theorem Permitted.alone (hc : Permitted size m c) (h : Counting n size s (c ::ₘ calls))
    (hrun : anyCalls.Alone s c s' e) :
    s'.queue.sendSemaphore = s.queue.sendSemaphore ∧ Ended size m e := by
  induction hrun with
  | ret hmove =>
      obtain ⟨hsem, -, hend⟩ := hc.move h hmove
      exact ⟨hsem, hend rfl⟩
  | go hmove _ ih =>
      obtain ⟨hsem, hnext, -⟩ := hc.move h hmove
      obtain ⟨hsem', hend⟩ := ih (hnext _ rfl).1 (h.move hmove)
      exact ⟨hsem'.trans hsem, hend⟩

/-- A send with a permit comes to its end. -/
theorem Permitted.exists_alone (hc : Permitted size m c) (h : Counting n size s (c ::ₘ calls)) :
    ∃ s' e, anyCalls.Alone s c s' e := by
  generalize hleft : c.stepsLeft = left
  induction left using Nat.strong_induction_on generalizing c s with
  | _ left ih =>
      obtain ⟨s₁, r, hmove⟩ := hc.progress h
      obtain ⟨-, hnext, -⟩ := hc.move h hmove
      cases r with
      | none => exact ⟨s₁, c, .ret hmove⟩
      | some d =>
          obtain ⟨hd, hlt⟩ := hnext d rfl
          obtain ⟨s', e, hrun⟩ := ih _ (hleft ▸ hlt) hd (h.move hmove) rfl
          exact ⟨s', e, .go hmove hrun⟩

end

/-! ### Sends that run alone -/

section

variable {n size : ℕ} {s s' : Counted} {calls : Multiset Call} {c e : Call} {m : List UInt8}

theorem Counting.alone (h : Counting n size s (c ::ₘ calls)) (hrun : anyCalls.Alone s c s' e) :
    Counting n size s' calls := by
  induction hrun with
  | ret hmove => exact h.move hmove
  | go hmove _ ih => exact ih (h.move hmove)

/-- A send times out, or takes one permit for good and ends by the size of its message. -/
theorem alone_send (h : Counting n size s calls) (hrun : anyCalls.Alone s (.sendObtain m) s' e) :
    s' = s ∧ e = .sendObtain m ∨
      s'.queue.sendSemaphore + 1 = s.queue.sendSemaphore ∧ Ended size m e := by
  have hstart : Counting n size s (.sendObtain m ::ₘ calls) := h.start (.inl ⟨m, rfl⟩)
  cases hrun with
  | ret hmove =>
      obtain ⟨shared, rejected⟩ := s
      obtain ⟨shared', rejected'⟩ := s'
      obtain ⟨hmove, hrejected⟩ := hmove
      dsimp only at hmove hrejected
      subst hrejected
      cases hmove
      exact .inl ⟨rfl, rfl⟩
  | @go _ s₁ _ _ d _ hmove hrest =>
      have hnext := hstart.move hmove
      obtain ⟨shared, rejected⟩ := s
      obtain ⟨shared₁, rejected₁⟩ := s₁
      obtain ⟨hmove, -⟩ := hmove
      dsimp only at hmove
      cases hmove with
      | sendObtain hpos =>
          obtain ⟨hsem, hend⟩ := Permitted.claim.alone hnext hrest
          refine .inr ⟨?_, hend⟩
          rw [hsem]
          exact Nat.sub_add_cancel hpos

/-- With a permit left, a send can go on to its end. -/
theorem exists_alone_send (h : Counting n size s calls) (hpos : 0 < s.queue.sendSemaphore)
    (m : List UInt8) :
    ∃ s' e, anyCalls.Alone s (.sendObtain m) s' e ∧
      s'.queue.sendSemaphore + 1 = s.queue.sendSemaphore ∧ Ended size m e := by
  have hstart : Counting n size s (.sendObtain m ::ₘ calls) := h.start (.inl ⟨m, rfl⟩)
  have hobtain : anyCalls.move s (.sendObtain m)
      ⟨{ s.toShared with
        queue := { s.queue with sendSemaphore := s.queue.sendSemaphore - 1 } }, s.rejected⟩
      (some (.sendClaim m)) := ⟨.sendObtain hpos, rfl⟩
  obtain ⟨s', e, hrest⟩ := Permitted.claim.exists_alone (hstart.move hobtain)
  obtain ⟨hsem, hend⟩ := Permitted.claim.alone (hstart.move hobtain) hrest
  refine ⟨s', e, .go hobtain hrest, ?_, hend⟩
  rw [hsem]
  exact Nat.sub_add_cancel hpos

/-- The permits say how many messages can be sent. -/
theorem canSend_iff (h : Counting n size s calls) (k : ℕ) :
    CanSend k s ↔ k ≤ s.queue.sendSemaphore := by
  induction k generalizing s with
  | zero => exact iff_of_true trivial (Nat.zero_le _)
  | succ k ih =>
      constructor
      · rintro ⟨m, s', hrun, hrest⟩
        have hstart := h.start (.inl ⟨m, rfl⟩)
        rcases alone_send h hrun with ⟨-, he⟩ | ⟨hsem, -⟩
        · exact absurd he (by simp)
        · have hle := (ih (hstart.alone hrun)).mp hrest
          omega
      · intro hle
        obtain ⟨s', e, hrun, hsem, hend⟩ := exists_alone_send h (by omega) []
        have hstart := h.start (.inl ⟨[], rfl⟩)
        rcases hend with ⟨-, rfl⟩ | ⟨hlong, -⟩
        · exact ⟨[], s', hrun, (ih (hstart.alone hrun)).mpr (by omega)⟩
        · exact absurd hlong (Nat.not_lt_zero _)

/-- A failed send leaves the queue as it was unless it had a permit. -/
theorem failsUnchanged_iff (h : Counting n size s calls) (m : List UInt8) :
    FailsUnchanged s m ↔ m.length ≤ size ∨ s.queue.sendSemaphore = 0 := by
  constructor
  · intro hunchanged
    by_contra hnot
    obtain ⟨hlong, hpos⟩ := not_or.mp hnot
    obtain ⟨s', e, hrun, hsem, hend⟩ := exists_alone_send h (Nat.pos_of_ne_zero hpos) m
    rcases hend with ⟨hfits, -⟩ | ⟨-, pNode, rfl⟩
    · exact hlong hfits
    · have hsame := (hunchanged s' _ hrun rfl).canSend s.queue.sendSemaphore
      have hstart := h.start (.inl ⟨m, rfl⟩)
      rw [canSend_iff (hstart.alone hrun), canSend_iff h] at hsame
      have hle := hsame.mpr le_rfl
      omega
  · intro hcondition s' e hrun hreturned
    rcases alone_send h hrun with ⟨rfl, -⟩ | ⟨hsem, ⟨-, rfl⟩ | ⟨hlong, -⟩⟩
    · exact ⟨fun _ => Iff.rfl, fun _ => Iff.rfl⟩
    · exact absurd hreturned Nat.one_ne_zero
    · omega

/-- Each rejected send has taken one message from what an empty queue holds. -/
theorem canSend_drained_iff (h : Counting n size s 0) (hempty : s.queue.pUsedHead = none) :
    CanSend n s ↔ s.rejected = 0 := by
  rw [canSend_iff h]
  obtain ⟨free, used, h⟩ := h
  obtain rfl : used = [] := by
    have hhead := h.usedList.head_eq
    rw [hempty] at hhead
    exact List.head?_eq_none_iff.mp hhead.symm
  have hnodes := congrArg Multiset.card h.partition
  have hpermits := h.freePermits
  simp only [heldBy, freeDue, List.append_nil, Multiset.zero_bind, add_zero, Multiset.coe_card,
    Multiset.card_range, Multiset.map_zero, Multiset.sum_zero] at hnodes hpermits
  omega

end

/-! ### All runs -/

/-- What failed sends leave of a queue of `n` messages, in every state that calls of any kind lead
to: a send that fails changes nothing if it fits, or finds no permit; and an empty queue takes
`n` messages if no send was rejected. -/
theorem queue_failure (n size : ℕ) (hn : 1 ≤ n) (hsize : 1 ≤ size ∧ size ≤ 0x100) :
    ∃ q, createQueue n size = some q ∧ ∀ s calls,
      anyCalls.Reachable ⟨⟨q, ⟨[], 0, []⟩⟩, 0⟩ (s, calls) →
        (∀ m, FailsUnchanged s m ↔ m.length ≤ size ∨ s.queue.sendSemaphore = 0) ∧
        (calls = 0 → s.queue.pUsedHead = none → (CanSend n s ↔ s.rejected = 0)) := by
  obtain ⟨q, hcreate, hinit⟩ := createQueue_inv hn hsize
  refine ⟨q, hcreate, ?_⟩
  intro s calls hreach
  have hcounting := Counting.reachable ⟨_, _, hinit.counts⟩ hreach
  refine ⟨failsUnchanged_iff hcounting, ?_⟩
  rintro rfl hempty
  exact canSend_drained_iff hcounting hempty

theorem queue_failure_three : ∃ q, createQueue 3 16 = some q ∧ ∀ s calls,
    anyCalls.Reachable ⟨⟨q, ⟨[], 0, []⟩⟩, 0⟩ (s, calls) →
      (∀ m, FailsUnchanged s m ↔ m.length ≤ 16 ∨ s.queue.sendSemaphore = 0) ∧
      (calls = 0 → s.queue.pUsedHead = none → (CanSend 3 s ↔ s.rejected = 0)) :=
  queue_failure 3 16 (by decide) (by decide)

/-- Two bytes for a queue of messages of one byte. -/
theorem not_failsUnchanged_long : ∃ q, createQueue 1 1 = some q ∧
    ¬ FailsUnchanged ⟨⟨q, ⟨[], 0, []⟩⟩, 0⟩ [0, 0] := by
  obtain ⟨q, hcreate, hinit⟩ :=
    createQueue_inv (le_refl 1) (show 1 ≤ 1 ∧ 1 ≤ 0x100 by decide)
  refine ⟨q, hcreate, ?_⟩
  intro hunchanged
  have hcounting : Counting 1 1 ⟨⟨q, ⟨[], 0, []⟩⟩, 0⟩ 0 := ⟨_, _, hinit.counts⟩
  have hpermits : q.sendSemaphore = 1 := by simpa [freeDue] using hinit.freePermits.symm
  rcases (failsUnchanged_iff hcounting _).mp hunchanged with hfits | hnone
  · exact absurd hfits (by decide)
  · exact absurd (hpermits.symm.trans hnone) (by decide)

end PanelTester.MsOS
