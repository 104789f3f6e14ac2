import PanelTester.FileSync.LoopList

/-!
All operations of `loop.c`, as a deque. A ring of `size` cells holds `size - 1` items: what
is pushed at one end of a full ring takes the place of the item at the other end, and
`del_func` is called on that item. A run of operations does to the ring what it does to a
list, and calls `del_func` on the items that the list loses to a push or a clear.
`loop_get_from_head` reads the cells behind the head without going back to the first cell.
-/

namespace PanelTester.FileSync

open Library

namespace LoopList

variable {α : Type*}

/-! ### The operations at both ends -/

/-- The item that `loop_push_to_tail` calls `del_func` on. -/
def pushToTailDeleted (l : LoopList α) : List α :=
  if (l.tail + 1) % l.size = l.head then l.items[l.head]?.toList else []

/-- `loop_push_to_head` -/
def pushToHead (l : LoopList α) (data : α) : LoopList α :=
  { l with
    tail :=
      if (l.size + l.head - 1) % l.size = l.tail then (l.size + l.tail - 1) % l.size else l.tail
    head := (l.size + l.head - 1) % l.size
    items := l.items.set ((l.size + l.head - 1) % l.size) data }

/-- The item that `loop_push_to_head` calls `del_func` on. -/
def pushToHeadDeleted (l : LoopList α) : List α :=
  if (l.size + l.head - 1) % l.size = l.tail then l.items[(l.size + l.tail - 1) % l.size]?.toList
  else []

/-- `loop_pop_from_head` -/
def popFromHead (l : LoopList α) : Option α × LoopList α :=
  if l.tail ≠ l.head then (l.items[l.head]?, { l with head := (l.head + 1) % l.size })
  else (none, l)

/-- `loop_pop_from_tail` -/
def popFromTail (l : LoopList α) : Option α × LoopList α :=
  if l.tail ≠ l.head then
    (l.items[(l.size + l.tail - 1) % l.size]?, { l with tail := (l.size + l.tail - 1) % l.size })
  else (none, l)

/-- The items that `loop_clear` calls `del_func` on, from index `i` to the tail. -/
def deletedLoop (l : LoopList α) : ℕ → ℕ → List α
  | 0, _ => []
  | n + 1, i =>
      if i = l.tail then [] else l.items[i]?.toList ++ l.deletedLoop n ((i + 1) % l.size)

def clearDeleted (l : LoopList α) : List α := l.deletedLoop l.size l.head

/-- `loop_is_empty` -/
def isEmpty (l : LoopList α) : Bool := l.head = l.tail

/-- `loop_is_full` -/
def isFull (l : LoopList α) : Bool := (l.size + l.head - 1) % l.size = l.tail

/-! ### What they do to the contents -/

variable {l : LoopList α}

/-- The contents are what the cells from the head on hold. -/
theorem Valid.contents_eq (h : l.Valid) {q : List α} (hlength : l.length = q.length)
    (hget : ∀ i < q.length, l.items[wrap l.size (l.head + i)]? = q[i]?) : l.contents = q := by
  apply List.ext_getElem?
  intro i
  by_cases hi : i < q.length
  · rw [h.getElem?_contents (by omega), hget i hi]
  · rw [List.getElem?_eq_none (by rw [h.length_contents]; omega),
      List.getElem?_eq_none (Nat.not_lt.mp hi)]

/-- The index before another one, as it is computed. -/
theorem pred_index {size i : ℕ} (h : i < size) : (size + i - 1) % size = wrap size (size + i - 1) :=
  mod_eq_wrap (by omega)

theorem Valid.isFull_iff (h : l.Valid) : l.isFull ↔ l.length + 1 = l.size := by
  have hhead := h.head
  have htail := h.tail
  rw [isFull, decide_eq_true_iff, pred_index hhead]
  unfold length wrap
  split_ifs <;> omega

theorem Valid.full_tail_iff (h : l.Valid) :
    (l.tail + 1) % l.size = l.head ↔ l.length + 1 = l.size := by
  have hhead := h.head
  have htail := h.tail
  rw [mod_eq_wrap (by omega)]
  unfold length wrap
  split_ifs <;> omega

theorem Valid.isEmpty_iff (h : l.Valid) : l.isEmpty ↔ l.length = 0 := by
  have hhead := h.head
  have htail := h.tail
  rw [isEmpty, decide_eq_true_iff]
  rw [length, wrap]
  split_ifs <;> omega

theorem Valid.head_item (h : l.Valid) :
    l.contents.head? = if l.length = 0 then none else l.items[l.head]? := by
  rw [List.head?_eq_getElem?]
  split
  · exact List.getElem?_eq_none (by rw [h.length_contents]; omega)
  · rw [h.getElem?_contents (by omega), Nat.add_zero, wrap, if_pos h.head]

theorem Valid.last_item (h : l.Valid) : l.contents.getLast? =
    if l.length = 0 then none else l.items[(l.size + l.tail - 1) % l.size]? := by
  rw [List.getLast?_eq_getElem?, h.length_contents]
  split
  · exact List.getElem?_eq_none (by rw [h.length_contents]; omega)
  · rw [h.getElem?_contents (by omega), h.remove_tail (by omega)]

theorem Valid.pushToTailDeleted_eq (h : l.Valid) (hsize : 2 ≤ l.size) :
    l.pushToTailDeleted = if l.length + 1 = l.size then l.contents.head?.toList else [] := by
  rw [pushToTailDeleted, h.head_item]
  simp only [h.full_tail_iff]
  split
  · rw [if_neg (by omega)]
  · rfl

theorem Valid.pushToHeadDeleted_eq (h : l.Valid) (hsize : 2 ≤ l.size) :
    l.pushToHeadDeleted = if l.length + 1 = l.size then l.contents.getLast?.toList else [] := by
  have hfull := h.isFull_iff
  rw [isFull, decide_eq_true_iff] at hfull
  rw [pushToHeadDeleted, h.last_item]
  simp only [hfull]
  split
  · rw [if_neg (by omega)]
  · rfl

/-- A push at the head; a full ring loses its last item. -/
theorem Valid.pushToHead (h : l.Valid) (hsize : 2 ≤ l.size) (data : α) :
    (l.pushToHead data).Valid ∧ (l.pushToHead data).contents =
      data :: (if l.length + 1 = l.size then l.contents.dropLast else l.contents) := by
  have hhead := h.head
  have htail := h.tail
  have hlt := h.length_lt
  have hcontents := h.length_contents
  have hfull := h.isFull_iff
  rw [isFull, decide_eq_true_iff] at hfull
  have hheadEq : (l.pushToHead data).head = wrap l.size (l.size + l.head - 1) := pred_index hhead
  have hheadLt : wrap l.size (l.size + l.head - 1) < l.size := wrap_lt (by omega)
  have htailEq : (l.pushToHead data).tail =
      if l.length + 1 = l.size then wrap l.size (l.size + l.tail - 1) else l.tail := by
    show (if _ then _ else _) = _
    rw [pred_index htail]
    simp only [hfull]
  have hitems : (l.pushToHead data).items =
      l.items.set (wrap l.size (l.size + l.head - 1)) data := by
    show l.items.set _ data = _
    rw [pred_index hhead]
  have hvalid : (l.pushToHead data).Valid := by
    refine ⟨hheadEq ▸ hheadLt, ?_, (List.length_set ..).trans h.items⟩
    show _ < l.size
    rw [htailEq]
    split
    · exact wrap_lt (by omega)
    · exact htail
  have hlength : (l.pushToHead data).length =
      if l.length + 1 = l.size then l.length else l.length + 1 := by
    show wrap l.size ((l.pushToHead data).tail + (l.size - (l.pushToHead data).head)) = _
    rw [htailEq, hheadEq]
    unfold length wrap
    split_ifs <;> omega
  refine ⟨hvalid, hvalid.contents_eq ?_ ?_⟩
  · rw [hlength, List.length_cons]
    split_ifs
    · rw [List.length_dropLast]
      omega
    · omega
  · intro i hi
    show (l.pushToHead data).items[wrap l.size ((l.pushToHead data).head + i)]? = _
    rw [hitems, hheadEq]
    cases i with
    | zero =>
        -- the new item
        have hindex : wrap l.size (wrap l.size (l.size + l.head - 1)) =
            wrap l.size (l.size + l.head - 1) := if_pos hheadLt
        rw [Nat.add_zero, hindex, List.getElem?_set_self (h.items.symm ▸ hheadLt)]
        rfl
    | succ i =>
        -- an item that was there, one place further from the head
        have hindex : wrap l.size (wrap l.size (l.size + l.head - 1) + (i + 1)) =
            wrap l.size (l.head + i) := by
          rw [List.length_cons] at hi
          have hbound : i < l.size := by
            split_ifs at hi
            · rw [List.length_dropLast] at hi
              omega
            · omega
          unfold wrap
          split_ifs <;> omega
        rw [List.length_cons] at hi
        rw [hindex, List.getElem?_cons_succ]
        -- the cell of the new item is not one of those that are kept
        have hother : i + 1 < l.size →
            wrap l.size (l.size + l.head - 1) ≠ wrap l.size (l.head + i) := by
          intro hbound
          unfold wrap
          split_ifs <;> omega
        split_ifs at hi ⊢ with hcap
        · rw [List.length_dropLast] at hi
          rw [List.getElem?_set_ne (hother (by omega)), List.getElem?_dropLast,
            if_pos (by omega), h.getElem?_contents (by omega)]
        · rw [List.getElem?_set_ne (hother (by omega)), h.getElem?_contents (by omega)]

theorem Valid.popFromHead (h : l.Valid) : (l.popFromHead).1 = l.contents.head? ∧
    (l.popFromHead).2.Valid ∧ (l.popFromHead).2.contents = l.contents.tail := by
  have hhead := h.head
  have htail := h.tail
  have hlt := h.length_lt
  have hcontents := h.length_contents
  have hempty := h.isEmpty_iff
  rw [isEmpty, decide_eq_true_iff] at hempty
  rw [LoopList.popFromHead, h.head_item]
  by_cases hne : l.tail ≠ l.head
  · have hpos : l.length ≠ 0 := fun hzero => hne (hempty.mpr hzero).symm
    rw [if_pos hne, if_neg hpos]
    have hnext : (l.head + 1) % l.size = wrap l.size (l.head + 1) := mod_eq_wrap (by omega)
    have hvalid : Valid { l with head := (l.head + 1) % l.size } :=
      ⟨Nat.mod_lt _ (by omega), htail, h.items⟩
    refine ⟨rfl, hvalid, hvalid.contents_eq ?_ ?_⟩
    · show wrap l.size (l.tail + (l.size - (l.head + 1) % l.size)) = _
      rw [List.length_tail, hcontents, hnext]
      unfold length wrap
      split_ifs <;> omega
    · intro i hi
      rw [List.length_tail] at hi
      show l.items[wrap l.size ((l.head + 1) % l.size + i)]? = _
      have hindex :
          wrap l.size (wrap l.size (l.head + 1) + i) = wrap l.size (l.head + (i + 1)) := by
        unfold wrap
        split_ifs <;> omega
      rw [hnext, hindex, List.getElem?_tail, h.getElem?_contents (by omega)]
  · have hzero : l.length = 0 := hempty.mp (not_ne_iff.mp hne).symm
    have hnil : l.contents = [] := List.length_eq_zero_iff.mp (hcontents.trans hzero)
    rw [if_neg hne, if_pos hzero]
    exact ⟨rfl, h, by rw [hnil]; rfl⟩

theorem Valid.popFromTail (h : l.Valid) : (l.popFromTail).1 = l.contents.getLast? ∧
    (l.popFromTail).2.Valid ∧ (l.popFromTail).2.contents = l.contents.dropLast := by
  have hhead := h.head
  have htail := h.tail
  have hlt := h.length_lt
  have hcontents := h.length_contents
  have hempty := h.isEmpty_iff
  rw [isEmpty, decide_eq_true_iff] at hempty
  rw [LoopList.popFromTail, h.last_item]
  by_cases hne : l.tail ≠ l.head
  · have hpos : l.length ≠ 0 := fun hzero => hne (hempty.mpr hzero).symm
    rw [if_pos hne, if_neg hpos]
    have hvalid : Valid { l with tail := (l.size + l.tail - 1) % l.size } :=
      ⟨hhead, Nat.mod_lt _ (by omega), h.items⟩
    have hlength :
        LoopList.length { l with tail := (l.size + l.tail - 1) % l.size } = l.length - 1 := by
      show wrap l.size ((l.size + l.tail - 1) % l.size + (l.size - l.head)) = _
      rw [pred_index htail]
      unfold length wrap at hpos ⊢
      split_ifs at hpos ⊢ <;> omega
    refine ⟨rfl, hvalid, hvalid.contents_eq ?_ ?_⟩
    · rw [List.length_dropLast, hcontents, hlength]
    · intro i hi
      show l.items[wrap l.size (l.head + i)]? = _
      rw [List.getElem?_dropLast, if_pos (by rwa [List.length_dropLast] at hi)]
      rw [List.length_dropLast] at hi
      rw [h.getElem?_contents (by omega)]
  · have hzero : l.length = 0 := hempty.mp (not_ne_iff.mp hne).symm
    have hnil : l.contents = [] := List.length_eq_zero_iff.mp (hcontents.trans hzero)
    rw [if_neg hne, if_pos hzero]
    exact ⟨rfl, h, by rw [hnil]; rfl⟩

theorem Valid.deletedLoop_eq (h : l.Valid) {n i : ℕ} (hi : i ≤ l.length) (hn : l.length - i < n) :
    l.deletedLoop n (wrap l.size (l.head + i)) = l.contents.drop i := by
  have hcontents := h.length_contents
  induction n generalizing i with
  | zero => omega
  | succ n ih =>
      rw [deletedLoop]
      rcases hi.lt_or_eq with hlt | rfl
      · have hget : i < l.contents.length := by omega
        rw [if_neg (h.index_ne_tail hlt), ← h.getElem?_contents hlt, h.index_succ hlt,
          ih hlt (by omega), List.getElem?_eq_getElem hget, List.drop_eq_getElem_cons hget]
        rfl
      · rw [if_pos h.tail_eq.symm, ← hcontents, List.drop_length]

theorem Valid.clearDeleted_eq (h : l.Valid) : l.clearDeleted = l.contents := by
  have hloop := h.deletedLoop_eq (n := l.size) (Nat.zero_le _) (by have := h.length_lt; omega)
  rwa [Nat.add_zero, show wrap l.size l.head = l.head from if_pos h.head, List.drop_zero] at hloop

/-! ### A run -/

/-- An operation on a list. -/
inductive Op (α : Type*)
  | pushToTail (data : α)
  | pushToHead (data : α)
  | popFromHead
  | popFromTail
  | remove (data : α)
  | search (search : α → Bool)
  | clear

/-- What an operation returns, where it returns an item, and the items it calls `del_func`
on. -/
structure Outcome (α : Type*) where
  returned : Option α
  deleted : List α

section

variable [DecidableEq α]

/-- An operation on the ring, where there is a `del_func` or not. -/
def perform (delFunc : Bool) (l : LoopList α) : Op α → Outcome α × LoopList α
  | .pushToTail data => (⟨none, if delFunc then l.pushToTailDeleted else []⟩, l.pushToTail data)
  | .pushToHead data => (⟨none, if delFunc then l.pushToHeadDeleted else []⟩, l.pushToHead data)
  | .popFromHead => (⟨l.popFromHead.1, []⟩, l.popFromHead.2)
  | .popFromTail => (⟨l.popFromTail.1, []⟩, l.popFromTail.2)
  | .remove data => (⟨none, []⟩, l.remove data)
  | .search search => (⟨l.search search, []⟩, l)
  | .clear => (⟨none, if delFunc then l.clearDeleted else []⟩, l.clear)

/-- The same operation on a deque with room for `capacity` items. -/
def dequePerform (delFunc : Bool) (capacity : ℕ) (q : List α) : Op α → Outcome α × List α
  | .pushToTail data =>
      if q.length = capacity then
        (⟨none, if delFunc then q.head?.toList else []⟩, q.tail ++ [data])
      else (⟨none, []⟩, q ++ [data])
  | .pushToHead data =>
      if q.length = capacity then
        (⟨none, if delFunc then q.getLast?.toList else []⟩, data :: q.dropLast)
      else (⟨none, []⟩, data :: q)
  | .popFromHead => (⟨q.head?, []⟩, q.tail)
  | .popFromTail => (⟨q.getLast?, []⟩, q.dropLast)
  | .remove data => (⟨none, []⟩, q.erase data)
  | .search search => (⟨q.find? search, []⟩, q)
  | .clear => (⟨none, if delFunc then q else []⟩, [])

/-- A run on the ring: the outcome of every operation, and the ring behind the last one. -/
def run (delFunc : Bool) (l : LoopList α) : List (Op α) → List (Outcome α) × LoopList α
  | [] => ([], l)
  | op :: ops =>
      let rest := (l.perform delFunc op).2.run delFunc ops
      ((l.perform delFunc op).1 :: rest.1, rest.2)

/-- The same run on a deque. -/
def dequeRun (delFunc : Bool) (capacity : ℕ) (q : List α) :
    List (Op α) → List (Outcome α) × List α
  | [] => ([], q)
  | op :: ops =>
      let rest := dequeRun delFunc capacity (dequePerform delFunc capacity q op).2 ops
      ((dequePerform delFunc capacity q op).1 :: rest.1, rest.2)

theorem perform_size (delFunc : Bool) (l : LoopList α) (op : Op α) :
    (l.perform delFunc op).2.size = l.size := by
  cases op with
  | popFromHead =>
      show (LoopList.popFromHead l).2.size = l.size
      rw [LoopList.popFromHead]
      split <;> rfl
  | popFromTail =>
      show (LoopList.popFromTail l).2.size = l.size
      rw [LoopList.popFromTail]
      split <;> rfl
  | remove data =>
      show (LoopList.remove l data).size = l.size
      rw [LoopList.remove]
      split <;> rfl
  | pushToTail data => rfl
  | pushToHead data => rfl
  | search search => rfl
  | clear => rfl

/-- An operation does to the ring what it does to its contents. -/
theorem Valid.perform (h : l.Valid) (hsize : 2 ≤ l.size) (delFunc : Bool) (op : Op α) :
    (l.perform delFunc op).2.Valid ∧
      (l.perform delFunc op).1 = (dequePerform delFunc (l.size - 1) l.contents op).1 ∧
      (l.perform delFunc op).2.contents =
        (dequePerform delFunc (l.size - 1) l.contents op).2 := by
  have hcontents := h.length_contents
  have hfull : l.contents.length = l.size - 1 ↔ l.length + 1 = l.size := by omega
  cases op with
  | pushToTail data =>
      have hqueue := h.contents_pushToTail data
      refine ⟨h.pushToTail data, ?_, ?_⟩
      · rw [LoopList.perform, dequePerform, h.pushToTailDeleted_eq hsize]
        simp only [hfull]
        split_ifs <;> rfl
      · rw [LoopList.perform, dequePerform]
        simp only [hfull]
        rw [hqueue]
        by_cases hcap : l.length + 1 = l.size
        · rw [if_pos hcap, if_pos hcap]
          exact List.tail_append_of_ne_nil (List.ne_nil_of_length_pos (by omega))
        · rw [if_neg hcap, if_neg hcap]
  | pushToHead data =>
      obtain ⟨hvalid, hqueue⟩ := h.pushToHead hsize data
      refine ⟨hvalid, ?_, ?_⟩
      · rw [LoopList.perform, dequePerform, h.pushToHeadDeleted_eq hsize]
        simp only [hfull]
        split_ifs <;> rfl
      · rw [LoopList.perform, dequePerform]
        simp only [hfull]
        rw [hqueue]
        split_ifs <;> rfl
  | popFromHead =>
      obtain ⟨hitem, hvalid, hqueue⟩ := h.popFromHead
      exact ⟨hvalid, congrArg (Outcome.mk · []) hitem, hqueue⟩
  | popFromTail =>
      obtain ⟨hitem, hvalid, hqueue⟩ := h.popFromTail
      exact ⟨hvalid, congrArg (Outcome.mk · []) hitem, hqueue⟩
  | remove data => exact ⟨(h.remove data).1, rfl, (h.remove data).2⟩
  | search search => exact ⟨h, congrArg (Outcome.mk · []) (h.search_eq search), rfl⟩
  | clear =>
      refine ⟨h.clear, ?_, h.contents_clear⟩
      rw [LoopList.perform, dequePerform, h.clearDeleted_eq]

theorem Valid.run (h : l.Valid) (hsize : 2 ≤ l.size) (delFunc : Bool) (ops : List (Op α)) :
    (l.run delFunc ops).2.Valid ∧ (l.run delFunc ops).2.size = l.size ∧
      (l.run delFunc ops).1 = (dequeRun delFunc (l.size - 1) l.contents ops).1 ∧
      (l.run delFunc ops).2.contents = (dequeRun delFunc (l.size - 1) l.contents ops).2 := by
  induction ops generalizing l with
  | nil => exact ⟨h, rfl, rfl, rfl⟩
  | cons op ops ih =>
      have hkept := perform_size delFunc l op
      obtain ⟨hvalid, houtcome, hqueue⟩ := h.perform hsize delFunc op
      obtain ⟨hvalid', hsize', houtcomes, hqueue'⟩ := ih hvalid (hkept ▸ hsize)
      rw [hkept, hqueue] at houtcomes hqueue'
      refine ⟨hvalid', hsize'.trans hkept, ?_, hqueue'⟩
      show _ :: _ = _ :: _
      rw [houtcome, houtcomes]

/-- Every run on a new ring is the run on an empty deque that has room for one item less than
the ring has cells. -/
theorem loop_refines_deque [Inhabited α] {size : ℕ} (hsize : 2 ≤ size) (delFunc : Bool)
    (ops : List (Op α)) :
    ((create size).run delFunc ops).1 = (dequeRun delFunc (size - 1) [] ops).1 ∧
      ((create size).run delFunc ops).2.contents = (dequeRun delFunc (size - 1) [] ops).2 ∧
      ((create size).run delFunc ops).2.head < size ∧
      ((create size).run delFunc ops).2.tail < size ∧
      (((create size).run delFunc ops).2.isFull ↔
        (dequeRun delFunc (size - 1) [] ops).2.length = size - 1) ∧
      (((create size).run delFunc ops).2.isEmpty ↔
        (dequeRun delFunc (size - 1) [] ops).2 = []) := by
  have hcreate : (create size : LoopList α).contents = [] := contents_create (by omega)
  obtain ⟨hvalid, hkept, houtcomes, hqueue⟩ :=
    (create_valid (by omega) : (create size : LoopList α).Valid).run hsize delFunc ops
  rw [hcreate] at houtcomes hqueue
  have hlength := hvalid.length_contents
  rw [hqueue] at hlength
  have hsame : ((create size).run delFunc ops).2.size = size := hkept
  have hhead := hvalid.head
  have htail := hvalid.tail
  rw [hsame] at hhead htail
  refine ⟨houtcomes, hqueue, hhead, htail, ?_, ?_⟩
  · rw [hvalid.isFull_iff, hsame]
    show _ ↔ (dequeRun delFunc ((create size : LoopList α).size - 1) [] ops).2.length = size - 1
    omega
  · rw [hvalid.isEmpty_iff, ← hlength]
    exact List.length_eq_zero_iff

theorem loop_refines_deque_three :
    ((create 3).run true [Op.pushToTail 1, .pushToTail 2, .pushToHead 3, .remove 1]).1 =
        (dequeRun true 2 [] [Op.pushToTail 1, .pushToTail 2, .pushToHead 3, .remove 1]).1 ∧
      ((create 3).run true [Op.pushToTail 1, .pushToTail 2, .pushToHead 3, .remove 1]).2.contents =
        [3] := by
  obtain ⟨houtcomes, hqueue, -⟩ := loop_refines_deque (show 2 ≤ 3 by decide) true
    [Op.pushToTail 1, .pushToTail 2, .pushToHead 3, .remove 1]
  exact ⟨houtcomes, hqueue.trans (by decide)⟩

end

/-! ### An item at an offset -/

/-- `loop_create`, with the cells that `malloc` brings. -/
def createOver (items : List α) : LoopList α where
  size := items.length
  head := 0
  tail := 0
  items := items

/-- `loop_get_from_head`; there is no result when it reads behind the cells. -/
def getFromHead (l : LoopList α) (offset : ℕ) : Option α := l.items[l.head + offset]?

theorem createOver_valid {items : List α} (h : 0 < items.length) : (createOver items).Valid :=
  ⟨h, h, rfl⟩

theorem contents_createOver {items : List α} (h : 0 < items.length) :
    (createOver items).contents = [] := by
  have hlength : (createOver items).length = 0 := by
    show wrap items.length (0 + (items.length - 0)) = 0
    rw [wrap]
    split_ifs <;> omega
  exact List.length_eq_zero_iff.mp ((createOver_valid h).length_contents.trans hlength)

/-- In front of the end of the cells, an item is where it is looked for. -/
theorem Valid.getFromHead_eq (h : l.Valid) {offset : ℕ} (hoffset : offset < l.length)
    (hin : l.head + offset < l.size) : l.getFromHead offset = l.contents[offset]? := by
  rw [h.getElem?_contents hoffset, wrap, if_pos hin, getFromHead]

/-- A ring of pointers has the item at an offset, or NULL, where `loop_get_from_head` looks for
it exactly when that cell is one of the ring and, behind the last item, holds NULL. -/
theorem Valid.getFromHead_iff {β : Type*} {l : LoopList (Option β)} (h : l.Valid) (offset : ℕ) :
    l.getFromHead offset = some l.contents[offset]?.join ↔
      l.head + offset < l.size ∧
        (l.contents.length ≤ offset → l.items[l.head + offset]? = some none) := by
  have hcontents := h.length_contents
  rcases Nat.lt_or_ge (l.head + offset) l.size with hin | hout
  · rcases Nat.lt_or_ge offset l.length with hlive | hfree
    · have hget : offset < l.contents.length := by omega
      rw [h.getFromHead_eq hlive hin, List.getElem?_eq_getElem hget]
      refine iff_of_true rfl ⟨hin, ?_⟩
      intro hbehind
      omega
    · rw [List.getElem?_eq_none (by omega), getFromHead]
      constructor
      · intro hnull
        exact ⟨hin, fun _ => hnull⟩
      · rintro ⟨-, hnull⟩
        exact hnull (by omega)
  · have hbehind : l.getFromHead offset = none :=
      List.getElem?_eq_none (h.items.le.trans hout)
    rw [hbehind]
    refine iff_of_false (fun hsome => Option.some_ne_none _ hsome.symm) ?_
    rintro ⟨hin, -⟩
    omega

/-- After every run on a new ring of pointers, `loop_get_from_head` returns what the deque has at
the offset, and NULL behind its end, exactly when the offset does not go over the end of the
cells, and the cell there, if it is behind the last item, holds NULL. -/
theorem getFromHead_correct_iff {β : Type*} [DecidableEq β] {items : List (Option β)}
    (hsize : 2 ≤ items.length) (delFunc : Bool) (ops : List (Op (Option β)))
    {l : LoopList (Option β)} (hrun : ((createOver items).run delFunc ops).2 = l) (offset : ℕ) :
    l.getFromHead offset =
        some (dequeRun delFunc (items.length - 1) [] ops).2[offset]?.join ↔
      l.head + offset < items.length ∧
        ((dequeRun delFunc (items.length - 1) [] ops).2.length ≤ offset →
          l.items[l.head + offset]? = some none) := by
  have hpos : 0 < items.length := by omega
  obtain ⟨hvalid, hkept, -, hqueue⟩ := (createOver_valid hpos).run hsize delFunc ops
  rw [contents_createOver hpos, hrun] at hqueue
  rw [hrun] at hvalid hkept
  have hiff := hvalid.getFromHead_iff offset
  rw [hqueue, show l.size = items.length from hkept] at hiff
  exact hiff

theorem getFromHead_correct_unwrapped :
    ((createOver [none, none, none]).run false
        [Op.pushToTail (some 1), .pushToTail (some 2)]).2.getFromHead 1 = some (some 2) :=
  (getFromHead_correct_iff (show 2 ≤ [none, none, none].length by decide) false
    [Op.pushToTail (some 1), .pushToTail (some 2)] rfl 1).mpr (by decide)

/-- The second of two items is at the front of the cells, and is looked for behind them. -/
theorem not_getFromHead_correct_wrapped :
    ((createOver [none, none, none]).run false
          [Op.pushToTail (some 1), .pushToTail (some 2), .popFromHead, .popFromHead,
            .pushToTail (some 3), .pushToTail (some 4)]).2.getFromHead 1 ≠
      some (dequeRun false 2 []
          [Op.pushToTail (some 1), .pushToTail (some 2), .popFromHead, .popFromHead,
            .pushToTail (some 3), .pushToTail (some 4)]).2[1]?.join := by
  decide

end LoopList

end PanelTester.FileSync
