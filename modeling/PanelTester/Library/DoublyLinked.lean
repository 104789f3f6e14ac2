import Mathlib.Tactic
import Mathlib.Data.List.Nodup

/-!
Intrusive doubly linked lists in an array of nodes, in the form where the `prev`
pointer of the head is the tail of the list, so that appending needs no walk.
`IsList m head l` says that the nodes `l` are such a list. Appending a node
(`IsList.concat`) and removing the head (`IsList.tail`) are given with the writes that
do it; `IsList.congr` is the frame rule.
-/

namespace PanelTester.Library

/-- A node: its links, as indices of nodes, and what it carries. -/
structure Node (α : Type*) where
  prev : Option ℕ
  next : Option ℕ
  val : α
  deriving DecidableEq, Repr

/-- The nodes, by their index. -/
abbrev Mem (α : Type*) := ℕ → Node α

namespace Mem

variable {α : Type*}

def setPrev (m : Mem α) (i : ℕ) (p : Option ℕ) : Mem α := Function.update m i { m i with prev := p }

def setNext (m : Mem α) (i : ℕ) (n : Option ℕ) : Mem α := Function.update m i { m i with next := n }

def setVal (m : Mem α) (i : ℕ) (v : α) : Mem α := Function.update m i { m i with val := v }

variable (m : Mem α) (i j : ℕ) (p : Option ℕ) (v : α)

@[simp] theorem setPrev_prev : (m.setPrev i p j).prev = if j = i then p else (m j).prev := by
  rw [setPrev]
  by_cases h : j = i
  · subst h; simp
  · simp [h]

@[simp] theorem setPrev_next : (m.setPrev i p j).next = (m j).next := by
  rw [setPrev]
  by_cases h : j = i
  · subst h; simp
  · simp [h]

@[simp] theorem setPrev_val : (m.setPrev i p j).val = (m j).val := by
  rw [setPrev]
  by_cases h : j = i
  · subst h; simp
  · simp [h]

@[simp] theorem setNext_prev : (m.setNext i p j).prev = (m j).prev := by
  rw [setNext]
  by_cases h : j = i
  · subst h; simp
  · simp [h]

@[simp] theorem setNext_next : (m.setNext i p j).next = if j = i then p else (m j).next := by
  rw [setNext]
  by_cases h : j = i
  · subst h; simp
  · simp [h]

@[simp] theorem setNext_val : (m.setNext i p j).val = (m j).val := by
  rw [setNext]
  by_cases h : j = i
  · subst h; simp
  · simp [h]

@[simp] theorem setVal_prev : (m.setVal i v j).prev = (m j).prev := by
  rw [setVal]
  by_cases h : j = i
  · subst h; simp
  · simp [h]

@[simp] theorem setVal_next : (m.setVal i v j).next = (m j).next := by
  rw [setVal]
  by_cases h : j = i
  · subst h; simp
  · simp [h]

@[simp] theorem setVal_val : (m.setVal i v j).val = if j = i then v else (m j).val := by
  rw [setVal]
  by_cases h : j = i
  · subst h; simp
  · simp [h]

end Mem

variable {α : Type*} {m m' : Mem α} {head : Option ℕ} {l : List ℕ} {a b x : ℕ}

/-- From `head`, the `next` pointers visit `l` and end, the `prev` pointers go back, and
the head's own one goes to the tail. -/
structure IsList (m : Mem α) (head : Option ℕ) (l : List ℕ) : Prop where
  head_eq : head = l.head?
  nodup : l.Nodup
  next_eq : ∀ i (h : i < l.length), (m l[i]).next = l[i + 1]?
  prev_eq : ∀ i (h : i + 1 < l.length), (m l[i + 1]).prev = some l[i]
  tail_eq : ∀ a, l.head? = some a → (m a).prev = l.getLast?

theorem isList_nil (m : Mem α) : IsList m none [] where
  head_eq := rfl
  nodup := List.nodup_nil
  next_eq i h := by simp at h
  prev_eq i h := by simp at h
  tail_eq a h := by simp at h

theorem isList_singleton (hprev : (m x).prev = some x) (hnext : (m x).next = none) :
    IsList m (some x) [x] where
  head_eq := rfl
  nodup := List.nodup_singleton x
  next_eq i h := by
    obtain rfl : i = 0 := by simpa using h
    exact hnext
  prev_eq i h := by simp at h
  tail_eq a h := by
    obtain rfl : x = a := by simpa using h
    exact hprev

/-- Only the links of its own nodes make a list. -/
theorem IsList.congr (h : IsList m head l)
    (hagree : ∀ c ∈ l, (m' c).prev = (m c).prev ∧ (m' c).next = (m c).next) :
    IsList m' head l where
  head_eq := h.head_eq
  nodup := h.nodup
  next_eq i hi := by rw [(hagree _ (List.getElem_mem hi)).2, h.next_eq i hi]
  prev_eq i hi := by rw [(hagree _ (List.getElem_mem hi)).1, h.prev_eq i hi]
  tail_eq a ha := by rw [(hagree a (List.mem_of_mem_head? ha)).1, h.tail_eq a ha]

/-- Append a node behind the tail `b` of a list with head `a`. -/
theorem IsList.concat (h : IsList m (some a) l) (hlast : l.getLast? = some b) (hx : x ∉ l) :
    IsList ((((m.setPrev x (some b)).setNext x none).setNext b (some x)).setPrev a (some x))
      (some a) (l ++ [x]) := by
  have ha : l.head? = some a := h.head_eq.symm
  have hamem : a ∈ l := List.mem_of_mem_head? ha
  have hbmem : b ∈ l := List.mem_of_mem_getLast? hlast
  have hpos : 0 < l.length := List.length_pos_of_mem hamem
  have hzero : l[0] = a := by
    rw [List.head?_eq_getElem?, List.getElem?_eq_getElem hpos] at ha
    exact Option.some.inj ha
  have hend : l[l.length - 1] = b := by
    rw [List.getLast?_eq_getElem?, List.getElem?_eq_getElem (by omega)] at hlast
    exact Option.some.inj hlast
  have hne : ∀ c ∈ l, c ≠ x := fun c hc hcx => hx (hcx ▸ hc)
  refine ⟨?_, ?_, ?_, ?_, ?_⟩
  · rw [List.head?_append, ha]
    rfl
  · exact List.nodup_append.mpr ⟨h.nodup, List.nodup_singleton x, by simpa using hne⟩
  · intro i hi
    rw [List.length_append, List.length_singleton] at hi
    by_cases hlt : i < l.length
    · rw [List.getElem_append_left hlt]
      simp only [Mem.setPrev_next, Mem.setNext_next, hne _ (List.getElem_mem hlt), if_false]
      by_cases hi' : i = l.length - 1
      · rw [if_pos (by rw [← hend]; congr 1), List.getElem?_append_right (by omega)]
        simp [hi', Nat.sub_add_cancel hpos]
      · rw [if_neg fun heq => hi' ((h.nodup.getElem_inj_iff).mp (heq.trans hend.symm)),
          h.next_eq i hlt, List.getElem?_append_left (by omega)]
    · obtain rfl : i = l.length := by omega
      have hxb : x ≠ b := fun heq => hx (heq ▸ hbmem)
      simp [hxb]
  · intro i hi
    rw [List.length_append, List.length_singleton] at hi
    have hlt : i < l.length := by omega
    rw [List.getElem_append_left hlt]
    by_cases hlt' : i + 1 < l.length
    · have hmem := List.getElem_mem hlt'
      have hna : l[i + 1] ≠ a := fun heq => by
        have := (h.nodup.getElem_inj_iff).mp (heq.trans hzero.symm)
        omega
      rw [List.getElem_append_left hlt']
      simp only [Mem.setPrev_prev, Mem.setNext_prev, hna, hne _ hmem, if_false]
      exact h.prev_eq i hlt'
    · have hxa : x ≠ a := fun heq => hx (heq ▸ hamem)
      obtain rfl : i = l.length - 1 := by omega
      rw [List.getElem_append_right (by omega)]
      simp [hxa, hend]
  · intro c hc
    obtain rfl : a = c := by
      rw [List.head?_append, ha] at hc
      simpa using hc
    rw [List.getLast?_append]
    simp

/-- Remove the head `a` of a list: its tail is remembered in the next head. -/
theorem IsList.tail (h : IsList m (some a) (a :: l)) :
    IsList (match (m a).next with
      | none => m
      | some c => m.setPrev c (m a).prev) (m a).next l := by
  have hnext : (m a).next = l.head? := by
    have := h.next_eq 0 (by simp)
    simpa [List.head?_eq_getElem?] using this
  cases l with
  | nil => rw [hnext]; exact isList_nil m
  | cons c l =>
      rw [hnext]
      have hnodup := (List.nodup_cons.mp h.nodup).2
      refine ⟨rfl, hnodup, ?_, ?_, ?_⟩
      · intro i hi
        have := h.next_eq (i + 1) (by simpa using hi)
        simpa using this
      · intro i hi
        have hne : (c :: l)[i + 1] ≠ c := fun heq => by
          have hzero : (c :: l)[0] = c := rfl
          have := (hnodup.getElem_inj_iff).mp (heq.trans hzero.symm)
          omega
        have := h.prev_eq (i + 1) (by simpa using hi)
        simp only [List.head?_cons, Mem.setPrev_prev, hne, if_false]
        simpa using this
      · intro d hd
        obtain rfl : c = d := by simpa using hd
        have := h.tail_eq a rfl
        simp [this]

end PanelTester.Library
