import PanelTester.Library.DoublyLinked
import Mathlib.Data.List.Chain

/-!
Circular doubly linked lists with a head that is not a member. `IsRing m head l` says that the
links between consecutive nodes of `head, l, head` are there in both directions. A node is put
in between two neighbours (`IsRing.concat`) or taken out from between them (`IsRing.tail`) with
the writes that do it, whichever of the nodes are the same.
-/

namespace PanelTester.Library

variable {α : Type*} {m : Mem α} {head x p : ℕ} {l : List ℕ}

/-- A chain is kept when the pairs are that begin in front of its end. -/
theorem isChain_imp_of_mem {β : Type*} {R S : β → β → Prop} {l : List β} (h : l.IsChain R)
    (himp : ∀ a ∈ l.dropLast, ∀ b ∈ l.tail, R a b → S a b) : l.IsChain S := by
  induction h with
  | nil => exact .nil
  | singleton a => exact .singleton a
  | @cons_cons a b l hab _ ih =>
      refine .cons_cons (himp a (by simp) b (by simp) hab) (ih ?_)
      intro c hc d hd
      exact himp c (by simp [hc]) d (List.mem_cons_of_mem b hd)

/-- The link from one node to the next, and back. -/
def Linked (m : Mem α) (a b : ℕ) : Prop := (m a).next = some b ∧ (m b).prev = some a

/-- From the head, the links go through the nodes of `l`, each of them once, and back to the
head. -/
structure IsRing (m : Mem α) (head : ℕ) (l : List ℕ) : Prop where
  nodup : (head :: l).Nodup
  chain : (head :: l ++ [head]).IsChain (Linked m)

theorem isRing_nil (h : Linked m head head) : IsRing m head [] where
  nodup := List.nodup_singleton head
  chain := .cons_cons h (.singleton head)

/-- The node behind the head. -/
theorem IsRing.next_head (h : IsRing m head l) : (m head).next = some (l.headD head) := by
  have hchain := h.chain
  cases l with
  | nil => exact (List.isChain_cons_cons.mp hchain).1.1
  | cons a l => exact (List.isChain_cons_cons.mp hchain).1.1

/-- A ring ends with its last node. -/
theorem eq_concat_last (head : ℕ) (l : List ℕ) :
    head :: l = (head :: l).dropLast ++ [l.getLastD head] := by
  rw [← List.getLast_eq_getLastD (List.cons_ne_nil head l), List.dropLast_append_getLast]

/-- The link that closes a ring, apart from the others. -/
theorem isChain_closed_iff : (head :: l ++ [head]).IsChain (Linked m) ↔
    (head :: l).IsChain (Linked m) ∧ Linked m (l.getLastD head) head := by
  conv_lhs => rw [eq_concat_last head l, List.append_assoc, List.singleton_append,
    List.isChain_append_cons_cons, ← eq_concat_last head l]
  exact and_congr_right fun _ => and_iff_left (.singleton head)

theorem IsRing.prev_head (h : IsRing m head l) : (m head).prev = some (l.getLastD head) :=
  (isChain_closed_iff.mp h.chain).2.2

/-- A node that is not at the end is not the last one. -/
theorem IsRing.ne_last (h : IsRing m head l) {a : ℕ} (ha : a ∈ (head :: l).dropLast) :
    a ≠ l.getLastD head := by
  have hnodup := h.nodup
  rw [eq_concat_last head l] at hnodup
  rintro rfl
  exact (List.nodup_append.mp hnodup).2.2 _ ha _ (List.mem_singleton_self _) rfl

/-- A node is put in between the last one and the head. -/
theorem IsRing.concat (h : IsRing m head l) (hp : (m head).prev = some p) (hx : x ∉ head :: l) :
    IsRing ((((m.setPrev head (some x)).setNext x (some head)).setPrev x (some p)).setNext p
      (some x)) head (l ++ [x]) := by
  obtain ⟨hhead, hl⟩ := not_or.mp (List.mem_cons.not.mp hx)
  have hlast : l.getLastD head = p := Option.some.inj (h.prev_head.symm.trans hp)
  have hmem : p ∈ head :: l := hlast ▸ List.getLastD_mem_cons
  have hxp : x ≠ p := fun heq => hx (heq ▸ hmem)
  obtain ⟨hfront, -⟩ := isChain_closed_iff.mp h.chain
  have hnodup := List.nodup_cons.mp h.nodup
  refine ⟨?_, isChain_closed_iff.mpr ⟨?_, ?_⟩⟩
  · rw [← List.cons_append, List.nodup_append]
    refine ⟨h.nodup, List.nodup_singleton x, ?_⟩
    intro a ha b hb heq
    exact hx (List.mem_singleton.mp hb ▸ heq ▸ ha)
  · -- the links in front of the last node stay, and one goes from it to the new node
    rw [← List.cons_append, eq_concat_last head l, List.append_assoc, List.singleton_append,
      List.isChain_append_cons_cons, ← eq_concat_last head l, hlast]
    refine ⟨isChain_imp_of_mem hfront ?_, ?_, .singleton x⟩
    · intro a ha b hb hab
      have hap : a ≠ p := hlast ▸ h.ne_last ha
      have hax : a ≠ x := fun heq => hx (heq ▸ List.mem_of_mem_dropLast ha)
      have hbx : b ≠ x := fun heq => hl (heq ▸ hb)
      have hbhead : b ≠ head := fun heq => hnodup.1 (heq ▸ hb)
      simpa [Linked, hap, hax, hbx, hbhead] using hab
    · simp [Linked]
  · rw [List.getLastD_concat]
    simp [Linked, hxp, Ne.symm hhead]

/-- The node behind the head is taken out, and keeps no links. -/
theorem IsRing.tail (h : IsRing m head (x :: l)) {n : ℕ} (hn : (m x).next = some n) :
    IsRing ((((m.setPrev n (some head)).setNext head (some n)).setNext x none).setPrev x none)
      head l := by
  have hnodup := List.nodup_cons.mp h.nodup
  have hnodupl := List.nodup_cons.mp hnodup.2
  obtain ⟨hhx, hhl⟩ := not_or.mp (List.mem_cons.not.mp hnodup.1)
  obtain ⟨-, hrest⟩ := List.isChain_cons_cons.mp h.chain
  refine ⟨List.nodup_cons.mpr ⟨hhl, hnodupl.2⟩, ?_⟩
  cases l with
  | nil =>
      obtain rfl : n = head :=
        Option.some.inj (hn.symm.trans (List.isChain_cons_cons.mp hrest).1.1)
      exact .cons_cons (by simp [Linked, hhx]) (.singleton n)
  | cons b l =>
      obtain ⟨hlink, hback⟩ := List.isChain_cons_cons.mp hrest
      obtain rfl : n = b := Option.some.inj (hn.symm.trans hlink.1)
      obtain ⟨hxn, hxl⟩ := not_or.mp (List.mem_cons.not.mp hnodupl.1)
      have hnl := (List.nodup_cons.mp hnodupl.2).1
      obtain ⟨hhn, -⟩ := not_or.mp (List.mem_cons.not.mp hhl)
      refine .cons_cons (by simp [Linked, hhx, Ne.symm hxn]) ?_
      apply isChain_imp_of_mem hback
      intro a ha d hd had
      change a ∈ (n :: l ++ [head]).dropLast at ha
      change d ∈ l ++ [head] at hd
      rw [List.dropLast_concat] at ha
      have hax : a ≠ x := fun heq => hnodupl.1 (heq ▸ ha)
      have hahead : a ≠ head := fun heq => hhl (heq ▸ ha)
      have hdn : d ≠ n := by
        rintro rfl
        rcases List.mem_append.mp hd with hd | hd
        · exact hnl hd
        · exact hhn (List.mem_singleton.mp hd).symm
      have hdx : d ≠ x := by
        rintro rfl
        rcases List.mem_append.mp hd with hd | hd
        · exact hxl hd
        · exact hhx (List.mem_singleton.mp hd).symm
      simpa [Linked, hax, hahead, hdn, hdx] using had

/-! ### What a ring says of its nodes -/

/-- Every node has a link to a node of the ring. -/
theorem IsRing.exists_next (h : IsRing m head l) {a : ℕ} (ha : a ∈ head :: l) :
    ∃ b ∈ head :: l, Linked m a b := by
  obtain ⟨s, t, hst⟩ := List.append_of_mem ha
  have hchain := h.chain
  rw [hst, List.append_assoc, List.cons_append, List.isChain_split] at hchain
  cases t with
  | nil => exact ⟨head, List.mem_cons_self, (List.isChain_cons_cons.mp hchain.2).1⟩
  | cons b t =>
      refine ⟨b, ?_, (List.isChain_cons_cons.mp hchain.2).1⟩
      rw [hst]
      simp

/-- Every node has a link from a node of the ring. -/
theorem IsRing.exists_prev (h : IsRing m head l) {b : ℕ} (hb : b ∈ head :: l) :
    ∃ a ∈ head :: l, Linked m a b := by
  rcases List.mem_cons.mp hb with rfl | hb
  · exact ⟨_, List.getLastD_mem_cons, (isChain_closed_iff.mp h.chain).2⟩
  · obtain ⟨s, t, rfl⟩ := List.append_of_mem hb
    have hchain := h.chain
    rw [List.cons_append, List.append_assoc, List.cons_append, ← List.cons_append,
      eq_concat_last head s, List.append_assoc, List.singleton_append,
      List.isChain_append_cons_cons] at hchain
    refine ⟨s.getLastD head, ?_, hchain.2.1⟩
    rw [← List.cons_append]
    exact List.mem_append_left _ List.getLastD_mem_cons

/-- The two directions of the links are inverse to each other. -/
theorem IsRing.next_iff_prev (h : IsRing m head l) {a b : ℕ} (ha : a ∈ head :: l)
    (hb : b ∈ head :: l) : (m a).next = some b ↔ (m b).prev = some a := by
  constructor
  · intro hnext
    obtain ⟨c, -, hc⟩ := h.exists_next ha
    obtain rfl := Option.some.inj (hc.1.symm.trans hnext)
    exact hc.2
  · intro hprev
    obtain ⟨c, -, hc⟩ := h.exists_prev hb
    obtain rfl := Option.some.inj (hc.2.symm.trans hprev)
    exact hc.1

end PanelTester.Library
