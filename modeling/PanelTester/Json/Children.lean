import Mathlib.Data.Int.Notation
import Mathlib.Data.Nat.Basic
import Mathlib.Order.Basic
import PanelTester.Library.Chain

/-!
The children of a cJSON item as they are linked in memory: `next` and `prev` lead through them up to
null pointers, and the item has a pointer to the first. The calls that add, insert and detach a
child write single links; over any run of them, on the children of any items, the links stand for
lists that change as the calls say (`nodes_run`).
-/

namespace PanelTester.Json

open Library

/-- The items by their addresses: the links among the children of an item, and the first child. -/
structure Nodes where
  links : Links
  child : ℕ → Option ℕ

/-- `cJSON_GetArrayItem` -/
def cJSONGetArrayItem (m : Nodes) (array : ℕ) (item : ℤ) : Option ℕ :=
  m.links.walk item.toNat (m.child array)

/-- `suffix_object` -/
def suffixObject (links : Links) (prev item : ℕ) : Links :=
  (links.setNext (some prev) (some item)).setPrev (some item) (some prev)

/-- `cJSON_AddItemToArray`; no result where its loop takes more than `fuel` turns. -/
def cJSONAddItemToArray (fuel : ℕ) (m : Nodes) (array : ℕ) (item : Option ℕ) : Option Nodes :=
  match item with
  | none => some m
  | some item =>
      match m.child array with
      | none => some { m with child := Function.update m.child array (some item) }
      | some c =>
          (m.links.last fuel c).map fun c => { m with links := suffixObject m.links c item }

/-- `cJSON_DetachItemFromArray` -/
def cJSONDetachItemFromArray (m : Nodes) (array : ℕ) (which : ℤ) : Option ℕ × Nodes :=
  match m.links.walk which.toNat (m.child array) with
  | none => (none, m)
  | some c =>
      let links := m.links.setNext (m.links.prev c) (m.links.next c)
      let links := links.setPrev (links.next c) (links.prev c)
      let child :=
        if m.child array = some c then Function.update m.child array (links.next c) else m.child
      (some c, ⟨(links.setNext (some c) none).setPrev (some c) none, child⟩)

/-- How an item is put in front of `c`, the last line of the function below; no result where a null
pointer is followed. -/
def putFront (links : Links) (child : ℕ → Option ℕ) (array c newitem : ℕ) : Option Nodes :=
  if child array = some c then some ⟨links, Function.update child array (some newitem)⟩
  else (links.prev newitem).map fun b => ⟨links.setNext (some b) (some newitem), child⟩

/-- `cJSON_InsertItemInArray` -/
def cJSONInsertItemInArray (fuel : ℕ) (m : Nodes) (array : ℕ) (which : ℤ) (newitem : ℕ) :
    Option Nodes :=
  match m.links.walk which.toNat (m.child array) with
  | none => cJSONAddItemToArray fuel m array (some newitem)
  | some c =>
      let links := m.links.setNext (some newitem) (some c)
      let links := links.setPrev (some newitem) (links.prev c)
      let links := links.setPrev (some c) (some newitem)
      putFront links m.child array c newitem

/-! ### The lists that the links stand for -/

/-- The children of each item are a list; no item is in two of them, and an item in none has null
links. -/
structure Nodes.Holds (m : Nodes) (lists : ℕ → List ℕ) : Prop where
  child : ∀ array, m.child array = (lists array).head?
  chain : ∀ array, m.links.Chain none (lists array) none
  nodup : ∀ array, (lists array).Nodup
  disjoint : ∀ array array' a, a ∈ lists array → a ∈ lists array' → array = array'
  free : ∀ a, (∀ array, a ∉ lists array) → m.links.next a = none ∧ m.links.prev a = none

/-- One of the lists is replaced, by links that were changed in it alone. -/
theorem Nodes.Holds.update {m : Nodes} {lists : ℕ → List ℕ} (h : m.Holds lists) {array : ℕ}
    {as : List ℕ} {links : Links} (hchain : links.Chain none as none) (hnodup : as.Nodup)
    (hnew : ∀ a ∈ as, a ∈ lists array ∨ ∀ array', a ∉ lists array')
    (hframe : ∀ a, a ∉ lists array → a ∉ as →
      links.next a = m.links.next a ∧ links.prev a = m.links.prev a)
    (hfree : ∀ a ∈ lists array, a ∉ as → links.next a = none ∧ links.prev a = none) :
    Nodes.Holds ⟨links, Function.update m.child array as.head?⟩
      (Function.update lists array as) := by
  have hother : ∀ array', array' ≠ array → ∀ a ∈ lists array', a ∉ lists array ∧ a ∉ as := by
    intro array' hne a ha
    have hnot : a ∉ lists array := fun hmem => hne (h.disjoint array' array a ha hmem)
    exact ⟨hnot, fun hmem => (hnew a hmem).elim hnot fun hnone => hnone array' ha⟩
  have hlists : ∀ array', Function.update lists array as array' =
      if array' = array then as else lists array' := fun array' => Function.update_apply _ _ _ _
  refine ⟨?_, ?_, ?_, ?_, ?_⟩
  · intro array'
    show Function.update m.child array as.head? array' = _
    rcases eq_or_ne array' array with rfl | hne
    · rw [Function.update_self, Function.update_self]
    · rw [Function.update_of_ne hne, Function.update_of_ne hne, h.child]
  · intro array'
    rcases eq_or_ne array' array with rfl | hne
    · rwa [Function.update_self]
    · rw [Function.update_of_ne hne]
      refine (h.chain array').congr fun a ha => ?_
      obtain ⟨hnot, hnot'⟩ := hother array' hne a ha
      exact hframe a hnot hnot'
  · intro array'
    rcases eq_or_ne array' array with rfl | hne
    · rwa [Function.update_self]
    · rw [Function.update_of_ne hne]
      exact h.nodup array'
  · intro x y a hx hy
    rw [hlists] at hx hy
    split_ifs at hx hy with hxa hya hya
    · rw [hxa, hya]
    · exact absurd hx (hother y hya a hy).2
    · exact absurd hy (hother x hxa a hx).2
    · exact h.disjoint x y a hx hy
  · intro a hnone
    have hnot : a ∉ as := by
      have hself := hnone array
      rwa [Function.update_self] at hself
    by_cases hmem : a ∈ lists array
    · exact hfree a hmem hnot
    · obtain ⟨hnext, hprev⟩ := hframe a hmem hnot
      rw [hnext, hprev]
      refine h.free a fun array' => ?_
      rcases eq_or_ne array' array with rfl | hne
      · exact hmem
      · have hself := hnone array'
        rwa [Function.update_of_ne hne] at hself

/-! ### A place in a list -/

theorem exists_split {as : List ℕ} {n c : ℕ} (h : as[n]? = some c) :
    ∃ xs ys, as = xs ++ c :: ys ∧ xs.length = n := by
  obtain ⟨hlt, rfl⟩ := List.getElem?_eq_some_iff.mp h
  refine ⟨as.take n, as.drop (n + 1), ?_, List.length_take_of_le hlt.le⟩
  rw [← List.drop_eq_getElem_cons hlt, List.take_append_drop]

/-- What is known of the places around an item of a list. -/
structure Split (m : Links) (xs : List ℕ) (c : ℕ) (ys : List ℕ) : Prop where
  front : m.Chain none xs (some c)
  prev : m.prev c = xs.getLast?
  next : m.next c = ys.head?
  back : m.Chain (some c) ys none
  nodup_xs : xs.Nodup
  nodup_ys : ys.Nodup
  not_mem_xs : c ∉ xs
  not_mem_ys : c ∉ ys
  apart : ∀ a ∈ xs, a ∉ ys

theorem split_of_chain {m : Links} {xs ys : List ℕ} {c : ℕ}
    (h : m.Chain none (xs ++ c :: ys) none) (hnodup : (xs ++ c :: ys).Nodup) : Split m xs c ys := by
  obtain ⟨hfront, hprev, hnext, hback⟩ := Links.chain_append.mp h
  obtain ⟨hxs, hcys, happart⟩ := List.nodup_append.mp hnodup
  obtain ⟨hc, hys⟩ := List.nodup_cons.mp hcys
  rw [Option.or_none] at hprev hnext
  exact ⟨hfront, hprev, hnext, hback, hxs, hys, fun hmem => happart c hmem c (by simp) rfl, hc,
    fun a ha hmem => happart a ha a (List.mem_cons_of_mem _ hmem) rfl⟩

theorem getLast?_ne {xs : List ℕ} {a : ℕ} (h : a ∉ xs) : xs.getLast? ≠ some a :=
  fun heq => h (List.mem_of_getLast? heq)

theorem head?_ne {xs : List ℕ} {a : ℕ} (h : a ∉ xs) : xs.head? ≠ some a :=
  fun heq => h (List.mem_of_head? heq)

theorem some_ne {xs : List ℕ} {a b : ℕ} (h : a ∉ xs) (hb : b ∈ xs) : some a ≠ some b :=
  fun heq => h (Option.some.inj heq ▸ hb)

theorem eq_of_mem_split {xs ys : List ℕ} {a c : ℕ} (h : a ∈ xs ++ c :: ys) (hxs : a ∉ xs)
    (hys : a ∉ ys) : a = c := by
  rcases List.mem_append.mp h with h | h
  · exact absurd h hxs
  · exact (List.mem_cons.mp h).resolve_right hys

/-! ### The calls -/

section

variable {m : Nodes} {lists : ℕ → List ℕ} {array c n : ℕ} {xs ys : List ℕ}

/-- The children of an item, with a place among them. -/
theorem Nodes.Holds.split (h : m.Holds lists) (hsplit : lists array = xs ++ c :: ys) :
    Split m.links xs c ys := by
  have hchain := h.chain array
  have hnodup := h.nodup array
  rw [hsplit] at hchain hnodup
  exact split_of_chain hchain hnodup

theorem Nodes.Holds.walk (h : m.Holds lists) (array i : ℕ) :
    m.links.walk i (m.child array) = (lists array)[i]? := by
  rw [h.child]
  exact (h.chain array).walk i

theorem Nodes.Holds.walk_split (h : m.Holds lists) (hsplit : lists array = xs ++ c :: ys)
    {which : ℤ} (hwhich : which.toNat = xs.length) :
    m.links.walk which.toNat (m.child array) = some c := by
  rw [h.walk, hsplit, hwhich, List.getElem?_append_right le_rfl, Nat.sub_self]
  rfl

/-- The first child, where something else is put in the place of an item. -/
theorem Nodes.Holds.child_split (h : m.Holds lists) (hsplit : lists array = xs ++ c :: ys)
    (v : Option ℕ) :
    (if m.child array = some c then Function.update m.child array v else m.child) =
      Function.update m.child array (xs.head?.or v) := by
  have hplace := h.split hsplit
  have hchild : m.child array = (xs ++ c :: ys).head? := by rw [h.child, hsplit]
  cases xs with
  | nil =>
      rw [hchild]
      exact if_pos rfl
  | cons b xs =>
      have hne : b ≠ c := fun heq => hplace.not_mem_xs (heq ▸ List.mem_cons_self)
      rw [if_neg (by simp [hchild, hne])]
      exact (Function.update_eq_self_iff.mpr (by simp [hchild])).symm

theorem putFront_eq (h : m.Holds lists) (hsplit : lists array = xs ++ c :: ys) {links : Links}
    (hprev : links.prev n = xs.getLast?) :
    putFront links m.child array c n = some ⟨links.setNext xs.getLast? (some n),
      Function.update m.child array (xs.head?.or (some n))⟩ := by
  have hchild := h.child_split hsplit (some n)
  rw [putFront, ← hchild, hprev]
  split_ifs with hfirst
  · have hnil : xs = [] := by
      rw [h.child, hsplit] at hfirst
      cases xs with
      | nil => rfl
      | cons b xs =>
          exact absurd (Option.some.inj hfirst ▸ List.mem_cons_self) (h.split hsplit).not_mem_xs
    rw [hnil]
    rfl
  · have hne : xs ≠ [] := by
      rintro rfl
      rw [h.child, hsplit] at hfirst
      exact hfirst rfl
    rw [List.getLast?_eq_some_getLast hne]
    rfl

/-- The place of an item is given to others, with it or without it. -/
theorem Nodes.Holds.splice (h : m.Holds lists) (hsplit : lists array = xs ++ c :: ys)
    (mid : List ℕ) (hmid : mid.Nodup) (hnew : ∀ a ∈ mid, a = c ∨ ∀ array, a ∉ lists array)
    {links : Links} (hchain : links.Chain none (xs ++ (mid ++ ys)) none)
    (hframe : ∀ a, a ∉ xs → a ∉ ys → a ∉ mid → a ≠ c →
      links.next a = m.links.next a ∧ links.prev a = m.links.prev a)
    (hfree : c ∉ mid → links.next c = none ∧ links.prev c = none) :
    Nodes.Holds ⟨links, Function.update m.child array (xs ++ (mid ++ ys)).head?⟩
      (Function.update lists array (xs ++ (mid ++ ys))) := by
  have hplace := h.split hsplit
  have hxs : ∀ a ∈ xs, a ∈ lists array := fun a ha => hsplit ▸ List.mem_append_left _ ha
  have hys : ∀ a ∈ ys, a ∈ lists array := fun a ha =>
    hsplit ▸ List.mem_append_right _ (List.mem_cons_of_mem _ ha)
  have hold : ∀ a ∈ mid, a ∉ xs ∧ a ∉ ys := by
    intro a ha
    rcases hnew a ha with rfl | hnone
    · exact ⟨hplace.not_mem_xs, hplace.not_mem_ys⟩
    · exact ⟨fun hmem => hnone array (hxs a hmem), fun hmem => hnone array (hys a hmem)⟩
  refine h.update hchain ?_ ?_ ?_ ?_
  · refine List.nodup_append.mpr ⟨hplace.nodup_xs,
      List.nodup_append.mpr ⟨hmid, hplace.nodup_ys, ?_⟩, ?_⟩
    · rintro a ha b hb rfl
      exact (hold a ha).2 hb
    · rintro a ha b hb rfl
      exact (List.mem_append.mp hb).elim (fun hb => (hold a hb).1 ha) (hplace.apart a ha)
  · intro a ha
    rcases List.mem_append.mp ha with ha | ha
    · exact .inl (hxs a ha)
    · rcases List.mem_append.mp ha with ha | ha
      · refine (hnew a ha).imp_left ?_
        rintro rfl
        rw [hsplit]
        exact List.mem_append_right _ List.mem_cons_self
      · exact .inl (hys a ha)
  · intro a hnot hnot'
    rw [hsplit, List.mem_append, List.mem_cons, not_or, not_or] at hnot
    rw [List.mem_append, List.mem_append, not_or, not_or] at hnot'
    exact hframe a hnot.1 hnot.2.2 hnot'.2.1 hnot.2.1
  · intro a ha hnot
    rw [List.mem_append, List.mem_append, not_or, not_or] at hnot
    obtain rfl := eq_of_mem_split (hsplit ▸ ha) hnot.1 hnot.2.2
    exact hfree hnot.2.1

/-- An item is taken out. -/
theorem Nodes.Holds.detach (h : m.Holds lists) (hsplit : lists array = xs ++ c :: ys) {which : ℤ}
    (hwhich : which.toNat = xs.length) :
    (cJSONDetachItemFromArray m array which).1 = some c ∧
      (cJSONDetachItemFromArray m array which).2.Holds
        (Function.update lists array (xs ++ ys)) := by
  have hplace := h.split hsplit
  have hwalk := h.walk_split hsplit hwhich
  have hlast := getLast?_ne hplace.not_mem_xs
  rw [cJSONDetachItemFromArray, hwalk]
  refine ⟨rfl, ?_⟩
  simp only [Links.setNext_next, Links.setNext_prev, Links.setPrev_next, hplace.prev, hplace.next,
    if_neg hlast]
  rw [h.child_split hsplit, ← List.head?_append]
  refine h.splice hsplit [] List.nodup_nil (by simp) ?_ ?_ ?_
  · refine Links.chain_append.mpr ⟨?_, ?_⟩
    · refine hplace.front.relast hplace.nodup_xs ?_ ?_
      · intro a ha
        have hne := some_ne hplace.not_mem_xs ha
        simp [Links.setNext_next, Links.setPrev_next, hne]
      · intro a ha
        have hne := some_ne hplace.not_mem_xs ha
        simp [Links.setNext_prev, Links.setPrev_prev, hne, head?_ne (hplace.apart a ha)]
    · refine hplace.back.rehead hplace.nodup_ys ?_ ?_
      · intro a ha
        have hne := some_ne hplace.not_mem_ys ha
        have hnot : a ∉ xs := fun hmem => hplace.apart a hmem ha
        simp [Links.setNext_next, Links.setPrev_next, hne, getLast?_ne hnot]
      · intro a ha
        have hne := some_ne hplace.not_mem_ys ha
        simp [Links.setNext_prev, Links.setPrev_prev, hne]
  · intro a hxs hys _ hac
    have hne : some c ≠ some a := fun heq => hac (Option.some.inj heq).symm
    simp [Links.setNext_next, Links.setNext_prev, Links.setPrev_next, Links.setPrev_prev, hne,
      getLast?_ne hxs, head?_ne hys]
  · exact fun _ => ⟨if_pos rfl, if_pos rfl⟩

/-- An item is put in front of another one. -/
theorem Nodes.Holds.insert (h : m.Holds lists) (hsplit : lists array = xs ++ c :: ys)
    (hn : ∀ array, n ∉ lists array) {which : ℤ} (hwhich : which.toNat = xs.length) (fuel : ℕ) :
    ∃ m', cJSONInsertItemInArray fuel m array which n = some m' ∧
      m'.Holds (Function.update lists array (xs ++ n :: c :: ys)) := by
  have hplace := h.split hsplit
  have hwalk := h.walk_split hsplit hwhich
  have hunused : ∀ a ∈ xs ++ c :: ys, some n ≠ some a := fun a ha =>
    some_ne (hn array) (hsplit ▸ ha)
  have hnc : some n ≠ some c := hunused c (by simp)
  have hcn : some c ≠ some n := hnc.symm
  have hnxs : n ∉ xs := fun hmem => hunused n (List.mem_append_left _ hmem) rfl
  have hprev : (((m.links.setNext (some n) (some c)).setPrev (some n)
      ((m.links.setNext (some n) (some c)).prev c)).setPrev (some c) (some n)).prev n =
      xs.getLast? := by
    rw [Links.setPrev_prev, if_neg hcn, Links.setPrev_prev, if_pos rfl, Links.setNext_prev,
      hplace.prev]
  rw [cJSONInsertItemInArray, hwalk]
  refine ⟨_, putFront_eq h hsplit hprev, ?_⟩
  have hhead : xs.head?.or (some n) = (xs ++ n :: c :: ys).head? := by
    rw [List.head?_append]
    rfl
  rw [hhead]
  refine h.splice hsplit [n, c] ?_ ?_ ?_ ?_ ?_
  · exact List.nodup_cons.mpr ⟨fun hmem => hnc (congrArg some (List.mem_singleton.mp hmem)),
      List.nodup_singleton c⟩
  · intro a ha
    rcases List.mem_pair.mp ha with rfl | rfl
    · exact .inr hn
    · exact .inl rfl
  · refine Links.chain_append.mpr ⟨?_, ?_, ?_, ?_, ?_, ?_⟩
    · refine hplace.front.relast hplace.nodup_xs ?_ ?_
      · intro a ha
        have hne := hunused a (List.mem_append_left _ ha)
        simp [Links.setNext_next, Links.setPrev_next, hne]
      · intro a ha
        have hne := hunused a (List.mem_append_left _ ha)
        have hca := some_ne hplace.not_mem_xs ha
        simp [Links.setNext_prev, Links.setPrev_prev, hne, hca]
    · rw [Links.setNext_prev, hprev, Option.or_none]
    · simp [Links.setNext_next, Links.setPrev_next, getLast?_ne hnxs]
    · simp [Links.setNext_prev, Links.setPrev_prev]
    · simp [Links.setNext_next, Links.setPrev_next, getLast?_ne hplace.not_mem_xs, hnc,
        hplace.next]
    · refine hplace.back.congr fun a ha => ?_
      have hne := hunused a (by simp [ha])
      have hca := some_ne hplace.not_mem_ys ha
      have hnot : a ∉ xs := fun hmem => hplace.apart a hmem ha
      simp [Links.setNext_next, Links.setPrev_next, Links.setNext_prev, Links.setPrev_prev, hne,
        hca, getLast?_ne hnot]
  · intro a hxs hys hmid hac
    have hne : some n ≠ some a := fun heq => hmid (Option.some.inj heq ▸ List.mem_cons_self)
    have hca : some c ≠ some a := fun heq => hac (Option.some.inj heq).symm
    simp [Links.setNext_next, Links.setNext_prev, Links.setPrev_next, Links.setPrev_prev, hne,
      hca, getLast?_ne hxs]
  · exact fun hnot => absurd (List.mem_pair.mpr (.inr rfl)) hnot

/-- An item is put behind the others. -/
theorem Nodes.Holds.add (h : m.Holds lists) (hn : ∀ array, n ∉ lists array) {fuel : ℕ}
    (hfuel : (lists array).length ≤ fuel) :
    ∃ m', cJSONAddItemToArray fuel m array (some n) = some m' ∧
      m'.Holds (Function.update lists array (lists array ++ [n])) := by
  have hchain := h.chain array
  have hchild := h.child array
  have hfree := h.free n hn
  have hnodup : (lists array ++ [n]).Nodup := by
    refine List.nodup_append.mpr ⟨h.nodup array, List.nodup_singleton n, ?_⟩
    rintro a ha b hb rfl
    exact hn array (List.mem_singleton.mp hb ▸ ha)
  have hnew : ∀ a ∈ lists array ++ [n], a ∈ lists array ∨ ∀ array', a ∉ lists array' := by
    intro a ha
    rcases List.mem_append.mp ha with ha | ha
    · exact .inl ha
    · exact .inr (List.mem_singleton.mp ha ▸ hn)
  have hkept : ∀ a ∈ lists array, a ∉ lists array ++ [n] → False := fun a ha hnot =>
    hnot (List.mem_append_left _ ha)
  rw [cJSONAddItemToArray]
  cases hlist : lists array with
  | nil =>
      rw [hlist] at hchild hnodup hnew hkept
      rw [hchild]
      refine ⟨_, rfl, ?_⟩
      show Nodes.Holds ⟨m.links, Function.update m.child array ([] ++ [n]).head?⟩ _
      apply h.update
      · exact ⟨hfree.2, hfree.1, trivial⟩
      · exact hnodup
      · rwa [hlist]
      · exact fun _ _ _ => ⟨rfl, rfl⟩
      · rw [hlist]
        exact fun a ha hnot => (hkept a ha hnot).elim
  | cons c cs =>
      rw [hlist] at hchild hnodup hnew hkept hchain hfuel
      obtain ⟨b, hb⟩ : ∃ b, (c :: cs).getLast? = some b :=
        ⟨_, List.getLast?_eq_some_getLast (List.cons_ne_nil c cs)⟩
      have hnb : n ≠ b := by
        rintro rfl
        exact hn array (hlist ▸ List.mem_of_getLast? hb)
      have hbn : some b ≠ some n := fun heq => hnb (Option.some.inj heq).symm
      have hlast : m.links.last fuel c = some b := (hchain.last hfuel).trans hb
      rw [hchild]
      simp only [List.head?_cons, hlast, Option.map_some]
      refine ⟨_, rfl, ?_⟩
      have hself : m.child = Function.update m.child array (c :: cs ++ [n]).head? := by
        refine (Function.update_eq_self_iff.mpr ?_).symm
        rw [hchild]
        rfl
      rw [hself]
      apply h.update
      · refine Links.chain_append.mpr ⟨?_, ?_, ?_, trivial⟩
        · refine hchain.relast (hlist ▸ h.nodup array) ?_ ?_
          · intro a ha
            rw [suffixObject, Links.setPrev_next, Links.setNext_next, hb]
            rfl
          · intro a ha
            have hne : some n ≠ some a := some_ne (hn array) (hlist ▸ ha)
            rw [suffixObject, Links.setPrev_prev, if_neg hne, Links.setNext_prev]
        · rw [suffixObject, Links.setPrev_prev, if_pos rfl, hb]
          rfl
        · rw [suffixObject, Links.setPrev_next, Links.setNext_next, if_neg hbn, hfree.1]
          rfl
      · exact hnodup
      · rwa [hlist]
      · intro a hnot hnew
        rw [hlist] at hnot
        have hne : some n ≠ some a := fun heq =>
          hnew (Option.some.inj heq ▸ List.mem_append_right _ (List.mem_singleton_self n))
        have hba : some b ≠ some a := fun heq =>
          hnot (Option.some.inj heq ▸ List.mem_of_getLast? hb)
        simp [suffixObject, Links.setNext_next, Links.setNext_prev, Links.setPrev_next,
          Links.setPrev_prev, hne, hba]
      · rw [hlist]
        exact fun a ha hnot => (hkept a ha hnot).elim

end

/-! ### Runs -/

/-- A call on the children of an item. -/
inductive ArrayCall
  | add (item : ℕ)
  | insert (which : ℤ) (newitem : ℕ)
  | detach (which : ℤ)

/-- What a call does to the links, and the item it returns. -/
def ArrayCall.perform (fuel : ℕ) (m : Nodes) (array : ℕ) : ArrayCall → Option (Option ℕ × Nodes)
  | .add item => (cJSONAddItemToArray fuel m array (some item)).map fun m => (none, m)
  | .insert which newitem =>
      (cJSONInsertItemInArray fuel m array which newitem).map fun m => (none, m)
  | .detach which => some (cJSONDetachItemFromArray m array which)

/-- What a call does to a list. -/
def ArrayCall.onList (as : List ℕ) : ArrayCall → Option ℕ × List ℕ
  | .add item => (none, as ++ [item])
  | .insert which newitem =>
      (none, as.take which.toNat ++ newitem :: as.drop which.toNat)
  | .detach which => (as[which.toNat]?, as.eraseIdx which.toNat)

/-- The item that a call puts into a list. -/
def ArrayCall.item : ArrayCall → Option ℕ
  | .add item => some item
  | .insert _ newitem => some newitem
  | .detach _ => none

theorem ArrayCall.length_onList_le (as : List ℕ) (call : ArrayCall) :
    (call.onList as).2.length ≤ as.length + 1 := by
  cases call with
  | add item => exact List.length_append.le
  | insert which newitem =>
      rw [onList, List.length_append, List.length_cons, List.length_take, List.length_drop]
      omega
  | detach which => exact (List.length_eraseIdx_le _ _).trans (Nat.le_succ _)

/-- A call does to the links what it does to the list. -/
theorem Nodes.Holds.perform {m : Nodes} {lists : ℕ → List ℕ} (h : m.Holds lists) (array : ℕ)
    {call : ArrayCall} (hitem : ∀ n ∈ call.item, ∀ array, n ∉ lists array) {fuel : ℕ}
    (hfuel : (lists array).length ≤ fuel) :
    ∃ m', call.perform fuel m array = some ((call.onList (lists array)).1, m') ∧
      m'.Holds (Function.update lists array (call.onList (lists array)).2) := by
  cases call with
  | add item =>
      obtain ⟨m', hadd, hholds⟩ := h.add (hitem item rfl) hfuel
      exact ⟨m', by rw [ArrayCall.perform, hadd]; rfl, hholds⟩
  | insert which newitem =>
      cases hplace : (lists array)[which.toNat]? with
      | none =>
          obtain ⟨m', hadd, hholds⟩ := h.add (hitem newitem rfl) hfuel
          have hlen := List.getElem?_eq_none_iff.mp hplace
          refine ⟨m', ?_, ?_⟩
          · rw [ArrayCall.perform, cJSONInsertItemInArray, h.walk, hplace]
            exact congrArg _ hadd
          · rwa [ArrayCall.onList, List.take_of_length_le hlen, List.drop_of_length_le hlen]
      | some c =>
          obtain ⟨xs, ys, hsplit, hlen⟩ := exists_split hplace
          obtain ⟨m', hinsert, hholds⟩ := h.insert hsplit (hitem newitem rfl) hlen.symm fuel
          refine ⟨m', by rw [ArrayCall.perform, hinsert]; rfl, ?_⟩
          rwa [ArrayCall.onList, hsplit, ← hlen, List.take_left, List.drop_left]
  | detach which =>
      cases hplace : (lists array)[which.toNat]? with
      | none =>
          have hlen := List.getElem?_eq_none_iff.mp hplace
          refine ⟨m, ?_, ?_⟩
          · rw [ArrayCall.perform, cJSONDetachItemFromArray, h.walk, ArrayCall.onList, hplace]
          · rwa [ArrayCall.onList, List.eraseIdx_of_length_le hlen, Function.update_eq_self]
      | some c =>
          obtain ⟨xs, ys, hsplit, hlen⟩ := exists_split hplace
          obtain ⟨hitem, hholds⟩ := h.detach hsplit hlen.symm
          refine ⟨(cJSONDetachItemFromArray m array which).2, ?_, ?_⟩
          · rw [ArrayCall.perform, ArrayCall.onList, hplace, ← hitem]
          · rwa [ArrayCall.onList, hsplit, ← hlen, List.eraseIdx_append_of_length_le le_rfl,
              Nat.sub_self]

/-- Calls one after the other, each on the children of an item. -/
def Nodes.run (fuel : ℕ) (m : Nodes) : List (ℕ × ArrayCall) → Option (List (Option ℕ) × Nodes)
  | [] => some ([], m)
  | (array, call) :: calls =>
      (call.perform fuel m array).bind fun r =>
        (Nodes.run fuel r.2 calls).map fun s => (r.1 :: s.1, s.2)

/-- The same calls on lists. -/
def onLists (lists : ℕ → List ℕ) : List (ℕ × ArrayCall) → List (Option ℕ) × (ℕ → List ℕ)
  | [] => ([], lists)
  | (array, call) :: calls =>
      let r := call.onList (lists array)
      let s := onLists (Function.update lists array r.2) calls
      (r.1 :: s.1, s.2)

/-- An item that is put into a list is in none then. -/
def AddsUnused (lists : ℕ → List ℕ) : List (ℕ × ArrayCall) → Prop
  | [] => True
  | (array, call) :: calls =>
      (∀ n ∈ call.item, ∀ array, n ∉ lists array) ∧
        AddsUnused (Function.update lists array (call.onList (lists array)).2) calls

theorem Nodes.Holds.run {m : Nodes} {lists : ℕ → List ℕ} (h : m.Holds lists)
    {calls : List (ℕ × ArrayCall)} (hadds : AddsUnused lists calls) {fuel : ℕ}
    (hfuel : ∀ array, (lists array).length + calls.length ≤ fuel) :
    ∃ m', m.run fuel calls = some ((onLists lists calls).1, m') ∧
      m'.Holds (onLists lists calls).2 := by
  induction calls generalizing m lists with
  | nil => exact ⟨m, rfl, h⟩
  | cons entry calls ih =>
      obtain ⟨array, call⟩ := entry
      obtain ⟨hitem, hadds⟩ := hadds
      obtain ⟨m₁, hcall, h₁⟩ := h.perform array hitem
        ((Nat.le_add_right _ _).trans (hfuel array))
      have hfuel₁ : ∀ array', (Function.update lists array (call.onList (lists array)).2
          array').length + calls.length ≤ fuel := by
        intro array'
        have hlen := call.length_onList_le (lists array)
        have hle := hfuel array'
        rw [List.length_cons] at hle
        rcases eq_or_ne array' array with rfl | hne
        · rw [Function.update_self]
          omega
        · rw [Function.update_of_ne hne]
          omega
      obtain ⟨m₂, hrun, h₂⟩ := ih h₁ hadds hfuel₁
      refine ⟨m₂, ?_, h₂⟩
      rw [Nodes.run, hcall, Option.bind_some, hrun]
      rfl

/-- No item has children or is one. -/
def Nodes.empty : Nodes := ⟨⟨fun _ => none, fun _ => none⟩, fun _ => none⟩

theorem Nodes.holds_empty : Nodes.empty.Holds fun _ => [] where
  child _ := rfl
  chain _ := trivial
  nodup _ := List.nodup_nil
  disjoint _ _ _ ha := absurd ha List.not_mem_nil
  free _ _ := ⟨rfl, rfl⟩

/-- Any run of calls on the children of any items, from new items: no null pointer is followed, the
items are returned and found as those of lists are, the links go through each list in both
directions, and an item that is in no list has null links, so that its release frees it alone. -/
theorem nodes_run {calls : List (ℕ × ArrayCall)} (hadds : AddsUnused (fun _ => []) calls)
    {fuel : ℕ} (hfuel : calls.length ≤ fuel) :
    ∃ m, Nodes.empty.run fuel calls = some ((onLists (fun _ => []) calls).1, m) ∧
      (∀ array item, cJSONGetArrayItem m array item =
        ((onLists (fun _ => []) calls).2 array)[item.toNat]?) ∧
      (∀ array, m.links.Chain none ((onLists (fun _ => []) calls).2 array) none) ∧
      ∀ a, (∀ array, a ∉ (onLists (fun _ => []) calls).2 array) →
        m.links.next a = none ∧ m.links.prev a = none := by
  obtain ⟨m, hrun, hholds⟩ := Nodes.holds_empty.run hadds fun _ => by simpa using hfuel
  exact ⟨m, hrun, fun array item => hholds.walk array item.toNat, hholds.chain, hholds.free⟩

/-- Items are added, one is moved to the children of another item. -/
theorem nodes_run_moved :
    ∃ m, Nodes.empty.run 9 [(0, .add 1), (0, .add 2), (0, .insert 1 3), (0, .detach 0),
        (9, .add 1)] = some ([none, none, none, some 1, none], m) ∧
      cJSONGetArrayItem m 0 0 = some 3 ∧ cJSONGetArrayItem m 0 1 = some 2 ∧
      cJSONGetArrayItem m 9 0 = some 1 := by
  have hadds : AddsUnused (fun _ => []) [(0, .add 1), (0, .add 2), (0, .insert 1 3),
      (0, .detach 0), (9, .add 1)] := by
    refine ⟨?_, ?_, ?_, ?_, ?_, trivial⟩ <;> rintro n ⟨⟩ array
    · exact List.not_mem_nil
    all_goals
      simp only [ArrayCall.onList, Function.update_apply]
      split_ifs <;> simp
  obtain ⟨m, hrun, hget, -⟩ := nodes_run hadds (by decide : 5 ≤ 9)
  exact ⟨m, hrun, hget 0 0, hget 0 1, hget 9 0⟩

end PanelTester.Json
