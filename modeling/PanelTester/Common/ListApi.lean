import PanelTester.Library.CircularList

/-!
The list of nodes of `listApi.cpp`, over the circular list of `mList.h`, by which a producer hands
nodes to a consumer. What `takeFirst` and `add2Tail` do under the mutex of the list is one step;
whatever order the threads make these steps in, they do to the ring what they do to a queue.
-/

namespace PanelTester.Common

open Library

variable {α : Type*}

/-! ### `mList.h` -/

/-- `init_list_head` -/
def initListHead (m : Mem α) (pHead : ℕ) : Mem α :=
  (m.setNext pHead (some pHead)).setPrev pHead (some pHead)

/-- `__list_add` -/
def listAddBetween (m : Mem α) (pNew pPrev pNext : ℕ) : Mem α :=
  (((m.setPrev pNext (some pNew)).setNext pNew (some pNext)).setPrev pNew (some pPrev)).setNext
    pPrev (some pNew)

/-- `list_add_tail`; there is no result when a pointer it follows is NULL. -/
def listAddTail (m : Mem α) (pNew pHead : ℕ) : Option (Mem α) :=
  (m pHead).prev.map fun pPrev => listAddBetween m pNew pPrev pHead

/-- `__list_del` -/
def listDelBetween (m : Mem α) (pPrev pNext : ℕ) : Mem α :=
  (m.setPrev pNext (some pPrev)).setNext pPrev (some pNext)

/-- `list_del` -/
def listDel (m : Mem α) (pEntry : ℕ) : Option (Mem α) :=
  (m pEntry).prev.bind fun pPrev =>
    (m pEntry).next.map fun pNext =>
      ((listDelBetween m pPrev pNext).setNext pEntry none).setPrev pEntry none

/-- `list_take_first` of a head that is there. -/
def listTakeFirst (m : Mem α) (pHead : ℕ) : Option (Option ℕ × Mem α) :=
  if (m pHead).next = some pHead then some (none, m)
  else (m pHead).next.bind fun pNode => (listDel m pNode).map fun m => (some pNode, m)

/-- The loop of `list_count`, which has no result when it does not end. -/
def listCountLoop (m : Mem α) (pHead : ℕ) : ℕ → Option ℕ → ℕ → Option ℕ
  | 0, _, _ => none
  | _ + 1, none, _ => none
  | n + 1, some pTemp, cnt =>
      if pTemp = pHead then some cnt else listCountLoop m pHead n (m pTemp).next (cnt + 1)

/-- `list_count`, for a number of turns. -/
def listCount (m : Mem α) (pHead turns : ℕ) : Option ℕ :=
  listCountLoop m pHead turns (m pHead).next 0

/-! ### `listApi.cpp` -/

/-- `listM_t`: the `index` of every node, the node that is the head, and how often `signal` was
given and not taken. -/
structure ListM (α : Type*) where
  index : Mem α
  head : Option ℕ
  signal : ℕ

namespace ListM

/-- `takeFirst` -/
def takeFirst (pM : ListM α) : Option (Option ℕ × ListM α) :=
  match pM.head with
  | none => some (none, pM)
  | some head =>
      (listTakeFirst pM.index head).map fun r => (r.1, { pM with index := r.2 })

/-- `add2Tail`; `pData` is NULL or a node. -/
def add2Tail (pM : ListM α) (pData : Option ℕ) : Option (ℤ × ListM α) :=
  match pM.head, pData with
  | some head, some pData =>
      (listAddTail pM.index pData head).map fun index =>
        (0, { pM with index := index, signal := pM.signal + 1 })
  | _, _ => some (-1, pM)

/-- `listMMalloc`, as far as the list goes. -/
def listMMalloc (m : Mem α) (head : ℕ) : ListM α where
  index := initListHead m head
  head := some head
  signal := 0

end ListM

/-! ### A ring -/

variable {m : Mem α} {head x : ℕ} {l : List ℕ}

theorem initListHead_isRing (m : Mem α) (head : ℕ) : IsRing (initListHead m head) head [] :=
  isRing_nil (by simp [initListHead, Linked])

/-- A node that is not in the ring is added behind the last one. -/
theorem listAddTail_spec (h : IsRing m head l) (hx : x ∉ head :: l) :
    ∃ m', listAddTail m x head = some m' ∧ IsRing m' head (l ++ [x]) := by
  refine ⟨listAddBetween m x (l.getLastD head) head, ?_, h.concat h.prev_head hx⟩
  rw [listAddTail, h.prev_head]
  rfl

/-- The first node of a ring that has one is taken. -/
theorem listTakeFirst_cons (h : IsRing m head (x :: l)) :
    ∃ m', listTakeFirst m head = some (some x, m') ∧ IsRing m' head l := by
  obtain ⟨n, -, hnext, -⟩ := h.exists_next (List.mem_cons_of_mem head List.mem_cons_self)
  have hfirst : (m head).next = some x := h.next_head
  have hprev : (m x).prev = some head := by
    obtain ⟨c, -, hc⟩ := h.exists_next (List.mem_cons_self (a := head) (l := x :: l))
    obtain rfl := Option.some.inj (hc.1.symm.trans hfirst)
    exact hc.2
  have hne : x ≠ head := fun heq => (List.nodup_cons.mp h.nodup).1 (heq ▸ List.mem_cons_self)
  refine ⟨_, ?_, h.tail hnext⟩
  simp only [listTakeFirst, hfirst, Option.some.injEq, hne, if_false, listDel, hprev, hnext,
    Option.bind_some, Option.map_some, listDelBetween]

theorem listTakeFirst_nil (h : IsRing m head []) : listTakeFirst m head = some (none, m) := by
  have hself : (m head).next = some head := h.next_head
  rw [listTakeFirst, if_pos hself]

/-- The loop of `list_count`, from a node to the head. -/
theorem listCountLoop_eq {a : ℕ} (hchain : (a :: l ++ [head]).IsChain (Linked m))
    (hhead : head ∉ l) {turns : ℕ} (hturns : l.length < turns) (cnt : ℕ) :
    listCountLoop m head turns (m a).next cnt = some (cnt + l.length) := by
  induction l generalizing a turns cnt with
  | nil =>
      obtain ⟨n, rfl⟩ := Nat.exists_eq_add_of_lt hturns
      have hlink : Linked m a head := (List.isChain_cons_cons.mp hchain).1
      rw [hlink.1, listCountLoop, if_pos rfl]
      rfl
  | cons b l ih =>
      obtain ⟨hbhead, hl⟩ := not_or.mp (List.mem_cons.not.mp hhead)
      obtain ⟨n, rfl⟩ := Nat.exists_eq_add_of_lt hturns
      obtain ⟨hlink, hrest⟩ := List.isChain_cons_cons.mp hchain
      rw [hlink.1, listCountLoop, if_neg (Ne.symm hbhead),
        ih hrest hl (by rw [List.length_cons]; omega), List.length_cons]
      congr 1
      omega

/-- `list_count` ends, and counts the nodes. -/
theorem listCount_eq (h : IsRing m head l) {turns : ℕ} (hturns : l.length < turns) :
    listCount m head turns = some l.length := by
  rw [listCount, listCountLoop_eq h.chain (List.nodup_cons.mp h.nodup).1 hturns, Nat.zero_add]

/-! ### A run -/

/-- What a thread does to the list. -/
inductive ListCall
  | add2Tail (pData : ℕ)
  | takeFirst
  deriving DecidableEq

/-- What it returns. -/
inductive ListReturn
  | added (ret : ℤ)
  | taken (pNode : Option ℕ)
  deriving DecidableEq

namespace ListM

/-- A call on the list. -/
def perform (pM : ListM α) : ListCall → Option (ListReturn × ListM α)
  | .add2Tail pData => (pM.add2Tail (some pData)).map fun r => (.added r.1, r.2)
  | .takeFirst => pM.takeFirst.map fun r => (.taken r.1, r.2)

/-- A run on the list, which has no result when a pointer that is followed is NULL. -/
def run (pM : ListM α) : List ListCall → Option (List ListReturn × ListM α)
  | [] => some ([], pM)
  | call :: calls =>
      (pM.perform call).bind fun r => (r.2.run calls).map fun rest => (r.1 :: rest.1, rest.2)

end ListM

/-- The same call on a queue of nodes. -/
def handOver (q : List ℕ) : ListCall → ListReturn × List ℕ
  | .add2Tail pData => (.added 0, q ++ [pData])
  | .takeFirst => (.taken q.head?, q.tail)

def handOverRun (q : List ℕ) : List ListCall → List ListReturn × List ℕ
  | [] => ([], q)
  | call :: calls =>
      let rest := handOverRun (handOver q call).2 calls
      ((handOver q call).1 :: rest.1, rest.2)

/-- A node is not added while it is in the list; the head never is. -/
def AddsOnce (head : ℕ) (q : List ℕ) : List ListCall → Prop
  | [] => True
  | call :: calls =>
      (∀ pData, call = .add2Tail pData → pData ∉ head :: q) ∧
        AddsOnce head (handOver q call).2 calls

/-- The nodes that were added, in their order. -/
def addedNodes : List ListCall → List ℕ
  | [] => []
  | .add2Tail pData :: calls => pData :: addedNodes calls
  | .takeFirst :: calls => addedNodes calls

/-- The nodes that were taken, in their order. -/
def takenNodes : List ListReturn → List ℕ
  | [] => []
  | .added _ :: rets => takenNodes rets
  | .taken pNode :: rets => pNode.toList ++ takenNodes rets

/-- What was taken, and then what is left, is what was there, and then what was added. -/
theorem takenNodes_append (q : List ℕ) (calls : List ListCall) :
    takenNodes (handOverRun q calls).1 ++ (handOverRun q calls).2 = q ++ addedNodes calls := by
  induction calls generalizing q with
  | nil => exact (List.append_nil q).symm
  | cons call calls ih =>
      cases call with
      | add2Tail pData =>
          have hrest := ih (q ++ [pData])
          rw [List.append_assoc] at hrest
          exact hrest
      | takeFirst =>
          show q.head?.toList ++ takenNodes (handOverRun q.tail calls).1 ++ _ = q ++ _
          rw [List.append_assoc]
          show q.head?.toList ++ (_ ++ (handOverRun q.tail calls).2) = q ++ addedNodes calls
          rw [ih q.tail, ← List.append_assoc]
          congr 1
          cases q <;> rfl

namespace ListM

/-- The list is a ring of the nodes of a queue. -/
structure Holds (pM : ListM α) (head : ℕ) (q : List ℕ) : Prop where
  head_eq : pM.head = some head
  ring : IsRing pM.index head q

variable {pM : ListM α} {q : List ℕ}

theorem listMMalloc_holds (m : Mem α) (head : ℕ) : (listMMalloc m head).Holds head [] :=
  ⟨rfl, initListHead_isRing m head⟩

/-- A call does to the list what it does to the queue. -/
theorem Holds.perform (h : pM.Holds head q) {call : ListCall}
    (hadd : ∀ pData, call = .add2Tail pData → pData ∉ head :: q) :
    ∃ pM', pM.perform call = some ((handOver q call).1, pM') ∧
      pM'.Holds head (handOver q call).2 := by
  cases call with
  | add2Tail pData =>
      obtain ⟨m', hm', hring⟩ := listAddTail_spec h.ring (hadd pData rfl)
      refine ⟨{ pM with index := m', signal := pM.signal + 1 }, ?_, h.head_eq, hring⟩
      simp [ListM.perform, ListM.add2Tail, h.head_eq, hm', handOver]
  | takeFirst =>
      cases q with
      | nil =>
          refine ⟨pM, ?_, h⟩
          rw [ListM.perform, ListM.takeFirst, h.head_eq]
          show ((listTakeFirst pM.index head).map _).map _ = _
          rw [listTakeFirst_nil h.ring, ← h.head_eq]
          rfl
      | cons x q =>
          obtain ⟨m', hm', hring⟩ := listTakeFirst_cons h.ring
          refine ⟨{ pM with index := m' }, ?_, h.head_eq, hring⟩
          simp [ListM.perform, ListM.takeFirst, h.head_eq, hm', handOver]

/-- A run does to the list what it does to the queue. -/
theorem Holds.run (h : pM.Holds head q) {calls : List ListCall} (hadds : AddsOnce head q calls) :
    ∃ pM', pM.run calls = some ((handOverRun q calls).1, pM') ∧
      pM'.Holds head (handOverRun q calls).2 := by
  induction calls generalizing pM q with
  | nil => exact ⟨pM, rfl, h⟩
  | cons call calls ih =>
      obtain ⟨pM₁, hcall, h₁⟩ := h.perform hadds.1
      obtain ⟨pM₂, hrun, h₂⟩ := ih h₁ hadds.2
      refine ⟨pM₂, ?_, h₂⟩
      rw [ListM.run, hcall, Option.bind_some, hrun]
      rfl

/-- Every run of `add2Tail` and `takeFirst` on a new list returns what a queue of nodes returns,
and leaves a ring of the nodes of the queue: its links are inverse to each other and go through
every node once, and `list_count` counts the nodes. Nodes are taken in the order they were added,
each of them once. -/
theorem listM_hands_over (m : Mem α) (head : ℕ) {calls : List ListCall}
    (hadds : AddsOnce head [] calls) :
    ∃ pM, (listMMalloc m head).run calls = some ((handOverRun [] calls).1, pM) ∧
      pM.head = some head ∧ IsRing pM.index head (handOverRun [] calls).2 ∧
      (∀ a ∈ head :: (handOverRun [] calls).2, ∀ b ∈ head :: (handOverRun [] calls).2,
        (pM.index a).next = some b ↔ (pM.index b).prev = some a) ∧
      (∀ turns, (handOverRun [] calls).2.length < turns →
        listCount pM.index head turns = some (handOverRun [] calls).2.length) ∧
      takenNodes (handOverRun [] calls).1 ++ (handOverRun [] calls).2 = addedNodes calls := by
  obtain ⟨pM, hrun, hholds⟩ := (listMMalloc_holds m head).run hadds
  refine ⟨pM, hrun, hholds.head_eq, hholds.ring, ?_, ?_, takenNodes_append [] calls⟩
  · intro a ha b hb
    exact hholds.ring.next_iff_prev ha hb
  · intro turns hturns
    exact listCount_eq hholds.ring hturns

theorem listM_hands_over_two :
    ∃ pM : ListM Unit, (listMMalloc (fun _ => ⟨none, none, ()⟩) 0).run
        [.add2Tail 1, .add2Tail 2, .takeFirst, .takeFirst, .takeFirst] =
      some ([.added 0, .added 0, .taken (some 1), .taken (some 2), .taken none], pM) := by
  have hadds : AddsOnce 0 [] [.add2Tail 1, .add2Tail 2, .takeFirst, .takeFirst, .takeFirst] :=
    ⟨by simp, by simp [handOver], by simp, by simp, by simp, trivial⟩
  obtain ⟨pM, hrun, -⟩ := listM_hands_over (fun _ => (⟨none, none, ()⟩ : Node Unit)) 0 hadds
  exact ⟨pM, hrun⟩

end ListM

end PanelTester.Common
