import PanelTester.Library.Ring

/-!
The bounded queue of `loop.c`, used for the records of the local database and for the
receive sets. One cell of the ring stays free, and what is pushed onto a full ring takes the
place of the oldest item. `contents` is the queue from head to tail; every operation is
described by what it does to `contents`.
-/

namespace PanelTester.FileSync

open Library

/-- `loop_list_t` -/
structure LoopList (α : Type*) where
  size : ℕ
  head : ℕ
  tail : ℕ
  items : List α
  deriving DecidableEq

namespace LoopList

variable {α : Type*}

/-- `loop_create` -/
def create [Inhabited α] (size : ℕ) : LoopList α where
  size := size
  head := 0
  tail := 0
  items := List.replicate size default

/-- `loop_push_to_tail` -/
def pushToTail (l : LoopList α) (data : α) : LoopList α :=
  { l with
    head := if (l.tail + 1) % l.size = l.head then (l.head + 1) % l.size else l.head
    items := l.items.set l.tail data
    tail := (l.tail + 1) % l.size }

/-- The index of the first item from `i` to the tail that is searched for. -/
def findLoop (l : LoopList α) (search : α → Bool) : ℕ → ℕ → Option ℕ
  | 0, _ => none
  | n + 1, i =>
      if i = l.tail then none
      else if l.items[i]?.any search then some i
      else l.findLoop search n ((i + 1) % l.size)

def find (l : LoopList α) (search : α → Bool) : Option ℕ := l.findLoop search l.size l.head

/-- `loop_search` -/
def search (l : LoopList α) (search : α → Bool) : Option α :=
  (l.find search).bind fun i => l.items[i]?

/-- An item is changed where it is. -/
def modify (l : LoopList α) (search : α → Bool) (f : α → α) : LoopList α :=
  match l.find search with
  | none => l
  | some i => { l with items := l.items.modify i f }

/-- The items behind `i` move up, as far as the new tail. -/
def shiftLoop (size tail : ℕ) : ℕ → ℕ → List α → List α
  | 0, _, items => items
  | n + 1, i, items =>
      if i = tail then items
      else
        match items[(i + 1) % size]? with
        | none => items
        | some data => shiftLoop size tail n ((i + 1) % size) (items.set i data)

/-- `loop_remove` -/
def remove [DecidableEq α] (l : LoopList α) (data : α) : LoopList α :=
  match l.find (· = data) with
  | none => l
  | some i =>
      let tail := (l.size + l.tail - 1) % l.size
      { l with tail := tail, items := shiftLoop l.size tail l.size i l.items }

/-- `loop_clear` -/
def clear (l : LoopList α) : LoopList α := { l with head := 0, tail := 0 }

/-! ### Contents -/

/-- How many items there are. -/
def length (l : LoopList α) : ℕ := wrap l.size (l.tail + (l.size - l.head))

/-- The items, from head to tail. -/
def contents (l : LoopList α) : List α := ringContent l.items l.head l.length

/-- The indices are within the ring. -/
structure Valid (l : LoopList α) : Prop where
  head : l.head < l.size
  tail : l.tail < l.size
  items : l.items.length = l.size

variable {l : LoopList α}

theorem Valid.length_lt (h : l.Valid) : l.length < l.size :=
  wrap_lt (by have := h.head; have := h.tail; omega)

theorem Valid.length_contents (h : l.Valid) : l.contents.length = l.length :=
  length_ringContent (h.items.symm ▸ h.head.le) (h.items.symm ▸ h.length_lt.le)

/-- The tail is behind the items. -/
theorem Valid.tail_eq (h : l.Valid) : l.tail = wrap l.size (l.head + l.length) := by
  have hhead := h.head
  have htail := h.tail
  unfold length wrap
  split_ifs <;> omega

/-- The index of an item. -/
theorem Valid.index_lt (h : l.Valid) {i : ℕ} (hi : i ≤ l.length) :
    wrap l.size (l.head + i) < l.size :=
  wrap_lt (by have := h.head; have := h.length_lt; omega)

theorem Valid.index_ne_tail (h : l.Valid) {i : ℕ} (hi : i < l.length) :
    wrap l.size (l.head + i) ≠ l.tail := by
  rw [h.tail_eq]
  have hhead := h.head
  have hlt := h.length_lt
  unfold wrap
  split_ifs <;> omega

theorem Valid.getElem?_contents (h : l.Valid) {i : ℕ} (hi : i < l.length) :
    l.contents[i]? = l.items[wrap l.size (l.head + i)]? := by
  rw [contents, getElem?_ringContent (h.items.symm ▸ h.head) (h.items.symm ▸ h.length_lt.le) hi,
    h.items]

theorem Valid.index_succ (h : l.Valid) {i : ℕ} (hi : i < l.length) :
    (wrap l.size (l.head + i) + 1) % l.size = wrap l.size (l.head + (i + 1)) := by
  have hhead := h.head
  have hlt := h.length_lt
  have hindex := h.index_lt hi.le
  rw [mod_eq_wrap (by omega)]
  unfold wrap at hindex ⊢
  split_ifs at hindex ⊢ <;> omega

theorem create_valid [Inhabited α] {size : ℕ} (h : 0 < size) : (create size : LoopList α).Valid :=
  ⟨h, h, List.length_replicate⟩

theorem contents_create [Inhabited α] {size : ℕ} (h : 0 < size) :
    (create size : LoopList α).contents = [] := by
  have hlength : (create size : LoopList α).length = 0 := by
    show wrap size (0 + (size - 0)) = 0
    rw [wrap]
    split_ifs <;> omega
  exact List.length_eq_zero_iff.mp ((create_valid h).length_contents.trans hlength)

theorem Valid.clear (h : l.Valid) : l.clear.Valid :=
  ⟨Nat.zero_lt_of_lt h.head, Nat.zero_lt_of_lt h.head, h.items⟩

theorem Valid.contents_clear (h : l.Valid) : l.clear.contents = [] := by
  have hlength : l.clear.length = 0 := by
    have hhead := h.head
    show wrap l.size (0 + (l.size - 0)) = 0
    rw [wrap]
    split_ifs <;> omega
  exact List.length_eq_zero_iff.mp (h.clear.length_contents.trans hlength)

/-! ### A push -/

theorem Valid.pushToTail (h : l.Valid) (data : α) : (l.pushToTail data).Valid := by
  have hpos := Nat.zero_lt_of_lt h.head
  refine ⟨?_, Nat.mod_lt _ hpos, List.length_set.trans h.items⟩
  show (if _ then _ else _) < l.size
  split
  · exact Nat.mod_lt _ hpos
  · exact h.head

theorem Valid.pushToTail_head (h : l.Valid) (data : α) :
    (l.pushToTail data).head =
      if l.length + 1 = l.size then wrap l.size (l.head + 1) else l.head := by
  have hhead := h.head
  have htail := h.tail
  show (if (l.tail + 1) % l.size = l.head then (l.head + 1) % l.size else l.head) = _
  rw [mod_eq_wrap (by omega), mod_eq_wrap (by omega)]
  have hfull : wrap l.size (l.tail + 1) = l.head ↔ l.length + 1 = l.size := by
    unfold length wrap
    split_ifs <;> omega
  simp only [hfull]

theorem Valid.length_pushToTail (h : l.Valid) (data : α) :
    (l.pushToTail data).length = if l.length + 1 = l.size then l.length else l.length + 1 := by
  have hhead := h.head
  have htail := h.tail
  have hnext : (l.pushToTail data).tail = wrap l.size (l.tail + 1) := mod_eq_wrap (by omega)
  show wrap l.size ((l.pushToTail data).tail + (l.size - (l.pushToTail data).head)) = _
  rw [hnext, h.pushToTail_head]
  unfold length wrap
  split_ifs <;> omega

/-- An item is pushed onto the ring; a full ring loses its first item. -/
theorem Valid.contents_pushToTail (h : l.Valid) (data : α) :
    (l.pushToTail data).contents =
      if l.length + 1 = l.size then (l.contents ++ [data]).tail else l.contents ++ [data] := by
  have hhead := h.head
  have hlt := h.length_lt
  have hpush := h.pushToTail data
  have hcontents := h.length_contents
  have hset : ∀ j, j < l.size → (l.items.set l.tail data)[j]? =
      if j = l.tail then some data else l.items[j]? := by
    intro j hj
    rw [List.getElem?_set]
    by_cases hjt : l.tail = j
    · rw [if_pos hjt, if_pos hjt.symm, if_pos (by rw [h.items]; exact h.tail)]
    · rw [if_neg hjt, if_neg (Ne.symm hjt)]
  -- the cell behind the last item is the one that is written
  have hcell : ∀ j, j ≤ l.length →
      (l.items.set l.tail data)[wrap l.size (l.head + j)]? = (l.contents ++ [data])[j]? := by
    intro j hj
    rw [hset _ (h.index_lt hj)]
    rcases hj.lt_or_eq with hj | rfl
    · rw [if_neg (h.index_ne_tail hj), List.getElem?_append_left (by omega), h.getElem?_contents hj]
    · rw [if_pos h.tail_eq.symm, ← hcontents, List.getElem?_concat_length]
  apply List.ext_getElem?
  intro i
  by_cases hi : i < (l.pushToTail data).length
  · rw [hpush.getElem?_contents hi]
    show (l.items.set l.tail data)[wrap l.size ((l.pushToTail data).head + i)]? = _
    rw [h.pushToTail_head]
    rw [h.length_pushToTail] at hi
    split_ifs at hi ⊢ with hsize
    · have hindex : wrap l.size (wrap l.size (l.head + 1) + i) =
        wrap l.size (l.head + (i + 1)) := by
        unfold wrap
        split_ifs <;> omega
      rw [hindex, hcell _ hi, List.getElem?_tail]
    · exact hcell _ (by omega)
  · rw [List.getElem?_eq_none (by rw [hpush.length_contents]; omega), List.getElem?_eq_none]
    rw [h.length_pushToTail] at hi
    split_ifs at hi ⊢
    · rw [List.length_tail, List.length_append, List.length_singleton]
      omega
    · rw [List.length_append, List.length_singleton]
      omega

/-! ### Searches -/

theorem Valid.findLoop_eq (h : l.Valid) (search : α → Bool) {i n : ℕ} (hi : i ≤ l.length)
    (hn : l.length - i < n) :
    l.findLoop search n (wrap l.size (l.head + i)) =
      ((l.contents.drop i).findIdx? search).map fun j => wrap l.size (l.head + (i + j)) := by
  induction n generalizing i with
  | zero => omega
  | succ n ih =>
      have hcontents := h.length_contents
      rw [findLoop]
      rcases hi.lt_or_eq with hlt | rfl
      · obtain ⟨x, hx⟩ : ∃ x, l.contents[i]? = some x :=
          ⟨l.contents[i], List.getElem?_eq_getElem (by omega)⟩
        obtain ⟨hget, hxi⟩ := List.getElem?_eq_some_iff.mp hx
        rw [if_neg (h.index_ne_tail hlt), ← h.getElem?_contents hlt, hx, h.index_succ hlt,
          ih hlt (by omega), List.drop_eq_getElem_cons hget, hxi, List.findIdx?_cons]
        by_cases hs : search x = true
        · simp [hs]
        · simp only [Option.any_some, hs, Bool.false_eq_true, if_false, Option.map_map]
          congr 1
          funext j
          simp only [Function.comp_apply]
          congr 1
          omega
      · rw [if_pos h.tail_eq.symm, ← hcontents, List.drop_length]
        rfl

theorem Valid.find_eq (h : l.Valid) (search : α → Bool) :
    l.find search = (l.contents.findIdx? search).map fun j => wrap l.size (l.head + j) := by
  have hloop := h.findLoop_eq search (Nat.zero_le _) (n := l.size) (by have := h.length_lt; omega)
  have hhead : wrap l.size (l.head + 0) = l.head := if_pos h.head
  rw [hhead, List.drop_zero] at hloop
  rw [find, hloop]
  simp only [Nat.zero_add]

theorem Valid.getElem?_find (h : l.Valid) {search : α → Bool} {j : ℕ}
    (hj : l.contents.findIdx? search = some j) :
    j < l.length ∧ l.items[wrap l.size (l.head + j)]? = l.contents[j]? := by
  have hlt : j < l.length := by
    obtain ⟨hlt, -⟩ := List.findIdx?_eq_some_iff_getElem.mp hj
    exact h.length_contents ▸ hlt
  exact ⟨hlt, (h.getElem?_contents hlt).symm⟩

/-- The first item that is searched for. -/
theorem Valid.search_eq (h : l.Valid) (search : α → Bool) :
    l.search search = l.contents.find? search := by
  rw [LoopList.search, h.find_eq, List.find?_eq_bind_findIdx?_getElem?]
  cases hj : l.contents.findIdx? search with
  | none => rfl
  | some j => exact (h.getElem?_find hj).2

theorem Valid.modify (h : l.Valid) (search : α → Bool) (f : α → α) : (l.modify search f).Valid := by
  rw [LoopList.modify]
  split
  · exact h
  · exact ⟨h.head, h.tail, (List.length_modify ..).trans h.items⟩

theorem Valid.contents_modify (h : l.Valid) (search : α → Bool) (f : α → α) :
    (l.modify search f).contents =
      (l.contents.findIdx? search).elim l.contents fun j => l.contents.modify j f := by
  rw [LoopList.modify, h.find_eq]
  cases hj : l.contents.findIdx? search with
  | none => rfl
  | some j =>
      obtain ⟨hlt, -⟩ := h.getElem?_find hj
      have hvalid : LoopList.Valid { l with
          items := l.items.modify (wrap l.size (l.head + j)) f } :=
        ⟨h.head, h.tail, (List.length_modify ..).trans h.items⟩
      show LoopList.contents { l with items := l.items.modify (wrap l.size (l.head + j)) f } =
        l.contents.modify j f
      apply List.ext_getElem?
      intro i
      by_cases hi : i < l.length
      · refine (hvalid.getElem?_contents hi).trans ?_
        show (l.items.modify _ f)[wrap l.size (l.head + i)]? = _
        rw [List.getElem?_modify, List.getElem?_modify, h.getElem?_contents hi]
        have hsame : wrap l.size (l.head + j) = wrap l.size (l.head + i) ↔ j = i := by
          have := h.head
          have := h.length_lt
          unfold wrap
          split_ifs <;> omega
        simp only [hsame]
      · rw [List.getElem?_eq_none, List.getElem?_eq_none]
        · rw [List.length_modify, h.length_contents]
          omega
        · rw [hvalid.length_contents]
          exact Nat.not_lt.mp hi

/-! ### A removal -/

/-- The positions of the ring differ. -/
theorem Valid.index_inj (h : l.Valid) {i j : ℕ} (hi : i < l.size) (hj : j < l.size) :
    wrap l.size (l.head + i) = wrap l.size (l.head + j) ↔ i = j := by
  have := h.head
  unfold wrap
  split_ifs <;> omega

/-- What the move of the items from position `j` on leaves in the cells of the ring. -/
theorem Valid.getElem?_shiftLoop (h : l.Valid) {n j : ℕ} {items : List α} (hj : j < l.length)
    (hn : l.length - j ≤ n) (hitems : items.length = l.size) :
    (shiftLoop l.size (wrap l.size (l.head + (l.length - 1))) n
      (wrap l.size (l.head + j)) items).length =
        l.size ∧
      ∀ i < l.length,
        (shiftLoop l.size (wrap l.size (l.head + (l.length - 1))) n (wrap l.size (l.head + j))
          items)[wrap l.size (l.head + i)]? =
          if j ≤ i ∧ i < l.length - 1 then items[wrap l.size (l.head + (i + 1))]?
          else items[wrap l.size (l.head + i)]? := by
  have hsize := h.length_lt
  induction n generalizing j items with
  | zero => omega
  | succ n ih =>
      have hends : wrap l.size (l.head + j) = wrap l.size (l.head + (l.length - 1)) ↔
          j = l.length - 1 := h.index_inj (by omega) (by omega)
      rw [shiftLoop, h.index_succ hj]
      by_cases hlast : j = l.length - 1
      · rw [if_pos (hends.mpr hlast)]
        refine ⟨hitems, ?_⟩
        intro i hi
        rw [if_neg (by omega)]
      · have hnext : j + 1 < l.length := by omega
        have hcell : wrap l.size (l.head + (j + 1)) < items.length := hitems ▸ h.index_lt hnext.le
        rw [if_neg (mt hends.mp hlast), List.getElem?_eq_getElem hcell]
        obtain ⟨hlength, hget⟩ := ih hnext (by omega)
          ((List.length_set ..).trans hitems : (items.set (wrap l.size (l.head + j))
            items[wrap l.size (l.head + (j + 1))]).length = l.size)
        refine ⟨hlength, fun i hi => (hget i hi).trans ?_⟩
        have hat : wrap l.size (l.head + j) < items.length := hitems ▸ h.index_lt hj.le
        have hset : ∀ k < l.length, (items.set (wrap l.size (l.head + j))
            items[wrap l.size (l.head + (j + 1))])[wrap l.size (l.head + k)]? =
            if j = k then items[wrap l.size (l.head + (j + 1))]? else
              items[wrap l.size (l.head + k)]? := by
          intro k hk
          rw [List.getElem?_set, if_pos hat, List.getElem?_eq_getElem hcell]
          simp only [h.index_inj (show j < l.size by omega) (show k < l.size by omega)]
        rcases Nat.lt_trichotomy i j with hlt | rfl | hgt
        · rw [if_neg (by omega), if_neg (by omega), hset i hi, if_neg (by omega)]
        · rw [if_neg (by omega), if_pos (by omega), hset i hi, if_pos rfl]
        · by_cases hin : i < l.length - 1
          · rw [if_pos (by omega), if_pos (by omega), hset (i + 1) (by omega), if_neg (by omega)]
          · rw [if_neg (by omega), if_neg (by omega), hset i hi, if_neg (by omega)]

theorem Valid.remove_tail (h : l.Valid) (hpos : 0 < l.length) :
    (l.size + l.tail - 1) % l.size = wrap l.size (l.head + (l.length - 1)) := by
  have hhead := h.head
  have hlt := h.length_lt
  have htail := h.tail
  rw [mod_eq_wrap (by omega), h.tail_eq]
  unfold wrap
  split_ifs <;> omega

variable [DecidableEq α]

/-- The first item that is equal is taken out. -/
theorem Valid.remove (h : l.Valid) (data : α) :
    (l.remove data).Valid ∧ (l.remove data).contents = l.contents.erase data := by
  have herase : l.contents.erase data =
      match l.contents.findIdx? (· = data) with
      | none => l.contents
      | some j => l.contents.eraseIdx j := by
    rw [List.erase_eq_eraseIdx, List.idxOf?]
    have hsame : (fun x : α => x == data) = fun x => decide (x = data) := by
      funext x
      exact beq_eq_decide x data
    rw [hsame]
    cases l.contents.findIdx? fun x => decide (x = data) <;> rfl
  rw [LoopList.remove, h.find_eq, herase]
  cases hj : l.contents.findIdx? (· = data) with
  | none => exact ⟨h, rfl⟩
  | some j =>
      obtain ⟨hlt, -⟩ := h.getElem?_find hj
      have htail := h.remove_tail (by omega)
      obtain ⟨hitems, hget⟩ := h.getElem?_shiftLoop hlt (n := l.size)
        (by have := h.length_lt; omega)
        h.items
      have hvalid : LoopList.Valid { l with
          tail := wrap l.size (l.head + (l.length - 1))
          items := shiftLoop l.size (wrap l.size (l.head + (l.length - 1))) l.size
            (wrap l.size (l.head + j)) l.items } :=
        ⟨h.head, h.index_lt (Nat.sub_le _ _), hitems⟩
      have hlength : LoopList.length { l with
          tail := wrap l.size (l.head + (l.length - 1))
          items := shiftLoop l.size (wrap l.size (l.head + (l.length - 1))) l.size
            (wrap l.size (l.head + j)) l.items } = l.length - 1 := by
        have hhead := h.head
        have hlt' := h.length_lt
        show wrap l.size (wrap l.size (l.head + (l.length - 1)) + (l.size - l.head)) = _
        unfold wrap
        split_ifs <;> omega
      simp only [Option.map_some, htail]
      refine ⟨hvalid, ?_⟩
      apply List.ext_getElem?
      intro i
      by_cases hi : i < l.length - 1
      · rw [hvalid.getElem?_contents (by omega)]
        apply (hget i (by omega)).trans
        rw [List.getElem?_eraseIdx]
        by_cases hij : i < j
        · rw [if_neg (by omega), if_pos hij, h.getElem?_contents (by omega)]
        · rw [if_pos (by omega), if_neg hij, h.getElem?_contents (by omega)]
      · have hcontents := h.length_contents
        rw [List.getElem?_eq_none, List.getElem?_eq_none]
        · rw [List.length_eraseIdx_of_lt (by omega)]
          omega
        · rw [hvalid.length_contents]
          omega

end LoopList

end PanelTester.FileSync
