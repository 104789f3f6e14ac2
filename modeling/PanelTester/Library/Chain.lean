import Mathlib.Data.List.Nodup

/-!
Doubly linked lists with a null pointer at both ends. The nodes of a list are addresses, their two
links are kept by address, and `Chain` says that the links go through the nodes of a part of a list,
from one end to the other and back. What an edit does is said part by part: the parts in front of it
and behind it keep their links but for one at the seam (`Chain.relast`, `Chain.rehead`).
-/

namespace PanelTester.Library

/-- The links of all nodes. -/
structure Links where
  next : ℕ → Option ℕ
  prev : ℕ → Option ℕ

namespace Links

/-- The link of a node is set, unless the pointer to it is null. -/
def setNext (m : Links) (x v : Option ℕ) : Links :=
  { m with next := fun a => if x = some a then v else m.next a }

def setPrev (m : Links) (x v : Option ℕ) : Links :=
  { m with prev := fun a => if x = some a then v else m.prev a }

/-- The nodes are linked one after the other, between two pointers. -/
def Chain (m : Links) : Option ℕ → List ℕ → Option ℕ → Prop
  | _, [], _ => True
  | before, a :: as, after =>
      m.prev a = before ∧ m.next a = as.head?.or after ∧ m.Chain (some a) as after

/-- `n` steps along the links, up to the end. -/
def walk (m : Links) : ℕ → Option ℕ → Option ℕ
  | 0, c => c
  | _ + 1, none => none
  | n + 1, some a => m.walk n (m.next a)

/-- The last node from a node on. -/
def last (m : Links) : ℕ → ℕ → Option ℕ
  | 0, _ => none
  | fuel + 1, a =>
      match m.next a with
      | none => some a
      | some b => m.last fuel b

section

variable {m m' : Links} {before after p q x v : Option ℕ} {a : ℕ} {as xs ys : List ℕ}

theorem setNext_next : (m.setNext x v).next a = if x = some a then v else m.next a := rfl

theorem setNext_prev : (m.setNext x v).prev a = m.prev a := rfl

theorem setPrev_next : (m.setPrev x v).next a = m.next a := rfl

theorem setPrev_prev : (m.setPrev x v).prev a = if x = some a then v else m.prev a := rfl

theorem chain_cons : m.Chain before (a :: as) after ↔
    m.prev a = before ∧ m.next a = as.head?.or after ∧ m.Chain (some a) as after := Iff.rfl

/-- Two parts, with the seam between them. -/
theorem chain_append : m.Chain before (xs ++ ys) after ↔
    m.Chain before xs (ys.head?.or after) ∧ m.Chain (xs.getLast?.or before) ys after := by
  induction xs generalizing before with
  | nil => simp [Chain]
  | cons x xs ih =>
      have hseam : (x :: xs).getLast?.or before = xs.getLast?.or (some x) := by
        rw [List.getLast?_cons, Option.some_or]
        cases xs.getLast? <;> rfl
      rw [List.cons_append, chain_cons, chain_cons, ih, List.head?_append, Option.or_assoc,
        and_assoc, and_assoc, hseam]

/-- Links that are the same. -/
theorem Chain.congr (h : m.Chain before as after)
    (hsame : ∀ a ∈ as, m'.next a = m.next a ∧ m'.prev a = m.prev a) :
    m'.Chain before as after := by
  induction as generalizing before with
  | nil => trivial
  | cons a as ih =>
      obtain ⟨hprev, hnext, hrest⟩ := h
      obtain ⟨⟨hn, hp⟩, hsame⟩ := List.forall_mem_cons.mp hsame
      exact ⟨hp.trans hprev, hn.trans hnext, ih hrest hsame⟩

/-- The last node gets another one behind it. -/
theorem Chain.relast (h : m.Chain before xs p) (hnodup : xs.Nodup)
    (hnext : ∀ a ∈ xs, m'.next a = if xs.getLast? = some a then q else m.next a)
    (hprev : ∀ a ∈ xs, m'.prev a = m.prev a) : m'.Chain before xs q := by
  induction xs generalizing before with
  | nil => trivial
  | cons a xs ih =>
      obtain ⟨hfront, hback, hrest⟩ := h
      obtain ⟨hn, hnext⟩ := List.forall_mem_cons.mp hnext
      obtain ⟨hp, hprev⟩ := List.forall_mem_cons.mp hprev
      obtain ⟨hnot, hnodup⟩ := List.nodup_cons.mp hnodup
      refine ⟨hp.trans hfront, ?_, ?_⟩
      · cases xs with
        | nil => exact hn.trans (if_pos rfl)
        | cons b xs =>
            have hlast : (a :: b :: xs).getLast? ≠ some a := by
              rw [List.getLast?_cons_cons]
              exact fun heq => hnot (List.mem_of_getLast? heq)
            rw [hn, if_neg hlast, hback]
            rfl
      · cases xs with
        | nil => trivial
        | cons b xs =>
            simp only [List.getLast?_cons_cons] at hnext
            exact ih hrest hnodup hnext hprev

/-- The first node gets another one in front of it. -/
theorem Chain.rehead (h : m.Chain p ys after) (hnodup : ys.Nodup)
    (hnext : ∀ a ∈ ys, m'.next a = m.next a)
    (hprev : ∀ a ∈ ys, m'.prev a = if ys.head? = some a then q else m.prev a) :
    m'.Chain q ys after := by
  cases ys with
  | nil => trivial
  | cons b ys =>
      obtain ⟨-, hback, hrest⟩ := h
      obtain ⟨hnot, -⟩ := List.nodup_cons.mp hnodup
      obtain ⟨hn, hnext⟩ := List.forall_mem_cons.mp hnext
      obtain ⟨hp, hprev⟩ := List.forall_mem_cons.mp hprev
      refine ⟨hp.trans (if_pos rfl), hn.trans hback, hrest.congr fun a ha => ⟨hnext a ha, ?_⟩⟩
      rw [hprev a ha, if_neg]
      rintro heq
      exact hnot (Option.some.inj heq ▸ ha)

/-- A walk through a list. -/
theorem Chain.walk (h : m.Chain before as none) (n : ℕ) : m.walk n as.head? = as[n]? := by
  induction n generalizing before as with
  | zero => cases as <;> rfl
  | succ n ih =>
      cases as with
      | nil => rfl
      | cons a as =>
          obtain ⟨-, hnext, hrest⟩ := h
          rw [List.head?_cons, Links.walk, hnext, Option.or_none, ih hrest]
          rfl

/-- The last node is found, by as many steps as there are nodes. -/
theorem Chain.last (h : m.Chain before (a :: as) none) {fuel : ℕ} (hfuel : as.length < fuel) :
    m.last fuel a = (a :: as).getLast? := by
  induction as generalizing before a fuel with
  | nil =>
      obtain ⟨fuel, rfl⟩ := Nat.exists_eq_add_of_lt hfuel
      rw [Links.last, h.2.1]
      rfl
  | cons b as ih =>
      obtain ⟨fuel, rfl⟩ := Nat.exists_eq_add_of_lt (Nat.zero_lt_of_lt hfuel)
      rw [List.length_cons] at hfuel
      rw [Links.last, h.2.1]
      exact (ih h.2.2 (by omega)).trans List.getLast?_cons_cons.symm

end

end Links

end PanelTester.Library
