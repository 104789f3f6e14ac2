import Mathlib.Tactic

/-!
Singly linked lists in a heap. A heap is a sequence of cells; an address is an
index, freed cells stay as holes, and addresses are never handed out twice, so
that reading a freed cell is visible as a failed read. `Path h p l q` says that
following `next` from `p` visits exactly the cells `l` and arrives at `q`; a
list is a path to the null pointer, and a list damaged by a stale pointer is a
path to a hole.
-/

namespace PanelTester.Library

/-- A list cell: its value and the address of the next cell. -/
structure Cell (α : Type*) where
  val : α
  next : Option ℕ
  deriving DecidableEq, Repr

/-- A heap of list cells; `none` is a freed cell. -/
structure Heap (α : Type*) where
  cells : List (Option (Cell α))
  deriving DecidableEq, Repr

namespace Heap

variable {α : Type*}

def empty : Heap α := ⟨[]⟩

def size (h : Heap α) : ℕ := h.cells.length

/-- The cell at an address, unless it was freed or never allocated. -/
def read (h : Heap α) (p : ℕ) : Option (Cell α) := h.cells[p]?.join

def write (h : Heap α) (p : ℕ) (c : Cell α) : Heap α := ⟨h.cells.set p (some c)⟩

def free (h : Heap α) (p : ℕ) : Heap α := ⟨h.cells.set p none⟩

/-- Allocate a cell; its address is the old size of the heap. -/
def alloc (h : Heap α) (c : Cell α) : Heap α := ⟨h.cells ++ [some c]⟩

theorem lt_size_of_read {h : Heap α} {p : ℕ} {c : Cell α} (hp : h.read p = some c) :
    p < h.size := by
  by_contra hge
  rw [read, List.getElem?_eq_none (Nat.not_lt.mp hge)] at hp
  simp at hp

@[simp] theorem read_size (h : Heap α) : h.read h.size = none := by
  simp [read, size]

theorem read_write_self {h : Heap α} {p : ℕ} {c : Cell α} (d : Cell α)
    (hp : h.read p = some c) : (h.write p d).read p = some d := by
  have hlt := lt_size_of_read hp
  simp only [size] at hlt
  simp [read, write, hlt]

theorem read_write_of_ne {h : Heap α} {p q : ℕ} (c : Cell α) (hne : q ≠ p) :
    (h.write p c).read q = h.read q := by
  simp [read, write, List.getElem?_set_ne hne.symm]

@[simp] theorem read_free_self (h : Heap α) (p : ℕ) : (h.free p).read p = none := by
  simp only [read, free, List.getElem?_set_self']
  cases h.cells[p]? <;> rfl

theorem read_free_of_ne {h : Heap α} {p q : ℕ} (hne : q ≠ p) :
    (h.free p).read q = h.read q := by
  simp [read, free, List.getElem?_set_ne hne.symm]

theorem read_free (h : Heap α) (p q : ℕ) :
    (h.free p).read q = if q = p then none else h.read q := by
  split
  · subst q; exact read_free_self h p
  · exact read_free_of_ne ‹_›

@[simp] theorem read_alloc_self (h : Heap α) (c : Cell α) :
    (h.alloc c).read h.size = some c := by
  simp [read, alloc, size]

theorem read_alloc_of_lt {h : Heap α} {p : ℕ} (c : Cell α) (hp : p < h.size) :
    (h.alloc c).read p = h.read p := by
  simp only [size] at hp
  simp [read, alloc, List.getElem?_append_left hp]

@[simp] theorem size_write (h : Heap α) (p : ℕ) (c : Cell α) : (h.write p c).size = h.size := by
  simp [write, size]

@[simp] theorem size_free (h : Heap α) (p : ℕ) : (h.free p).size = h.size := by
  simp [free, size]

@[simp] theorem size_alloc (h : Heap α) (c : Cell α) : (h.alloc c).size = h.size + 1 := by
  simp [alloc, size]

/-- Following `next` from `p` visits the cells `l`, given with their addresses,
and arrives at `q`. -/
def Path (h : Heap α) : Option ℕ → List (ℕ × α) → Option ℕ → Prop
  | p, [], q => p = q
  | p, (a, v) :: l, q => p = some a ∧ ∃ n, h.read a = some ⟨v, n⟩ ∧ Path h n l q

/-- Following `next` from `p` arrives at a freed cell. -/
def Dangles (h : Heap α) (p : Option ℕ) : Prop :=
  ∃ l q, h.Path p l (some q) ∧ q < h.size ∧ h.read q = none

variable {h h' : Heap α}

@[simp] theorem path_nil {p q : Option ℕ} : h.Path p [] q ↔ p = q := Iff.rfl

@[simp] theorem path_cons {p q : Option ℕ} {a : ℕ} {v : α} {l : List (ℕ × α)} :
    h.Path p ((a, v) :: l) q ↔
      p = some a ∧ ∃ n, h.read a = some ⟨v, n⟩ ∧ h.Path n l q := Iff.rfl

theorem path_append {p q : Option ℕ} {l m : List (ℕ × α)} :
    h.Path p (l ++ m) q ↔ ∃ r, h.Path p l r ∧ h.Path r m q := by
  induction l generalizing p with
  | nil => simp
  | cons c l ih =>
      obtain ⟨a, v⟩ := c
      simp only [List.cons_append, path_cons, ih]
      constructor
      · rintro ⟨hp, n, hn, r, hl, hm⟩
        exact ⟨r, ⟨hp, n, hn, hl⟩, hm⟩
      · rintro ⟨r, ⟨hp, n, hn, hl⟩, hm⟩
        exact ⟨hp, n, hn, r, hl, hm⟩

theorem path_concat {p q : Option ℕ} {l : List (ℕ × α)} {a : ℕ} {v : α} :
    h.Path p (l ++ [(a, v)]) q ↔ h.Path p l (some a) ∧ h.read a = some ⟨v, q⟩ := by
  rw [path_append]
  constructor
  · rintro ⟨r, hl, rfl, n, hn, rfl⟩
    exact ⟨hl, hn⟩
  · rintro ⟨hl, hn⟩
    exact ⟨some a, hl, rfl, q, hn, rfl⟩

/-- A heap that agrees on the visited cells has the same path. -/
theorem Path.congr {p q : Option ℕ} {l : List (ℕ × α)} (hpath : h.Path p l q)
    (hagree : ∀ a ∈ l.map Prod.fst, h'.read a = h.read a) : h'.Path p l q := by
  induction l generalizing p with
  | nil => exact hpath
  | cons c l ih =>
      obtain ⟨a, v⟩ := c
      obtain ⟨hp, n, hn, hl⟩ := hpath
      have ha : h'.read a = h.read a := hagree a (by simp)
      exact ⟨hp, n, ha.trans hn, ih hl fun b hb => hagree b (by
        rw [List.map_cons]; exact List.mem_cons_of_mem _ hb)⟩

/-- Every visited cell holds its value. -/
theorem Path.read_mem {p q : Option ℕ} {l : List (ℕ × α)} (hpath : h.Path p l q)
    {a : ℕ} {v : α} (hmem : (a, v) ∈ l) : ∃ n, h.read a = some ⟨v, n⟩ := by
  induction l generalizing p with
  | nil => simp at hmem
  | cons c l ih =>
      obtain ⟨b, w⟩ := c
      obtain ⟨-, n, hn, hl⟩ := hpath
      rcases List.mem_cons.mp hmem with heq | hmem
      · obtain ⟨rfl, rfl⟩ := Prod.mk.injEq .. ▸ heq
        exact ⟨n, hn⟩
      · exact ih hl hmem

/-- Redirecting the last visited cell redirects the path. -/
theorem Path.relink {p q : Option ℕ} {l : List (ℕ × α)} {a : ℕ} {v : α}
    (hpath : h.Path p (l ++ [(a, v)]) q) (ha : a ∉ l.map Prod.fst) (r : Option ℕ) :
    (h.write a ⟨v, r⟩).Path p (l ++ [(a, v)]) r := by
  obtain ⟨hl, hread⟩ := path_concat.mp hpath
  refine path_concat.mpr ⟨hl.congr fun b hb => ?_, read_write_self _ hread⟩
  exact read_write_of_ne _ fun hba => ha (hba ▸ hb)

theorem Path.lt_size {p q : Option ℕ} {l : List (ℕ × α)} (hpath : h.Path p l q)
    {a : ℕ} (ha : a ∈ l.map Prod.fst) : a < h.size := by
  obtain ⟨⟨b, v⟩, hmem, rfl⟩ := List.mem_map.mp ha
  obtain ⟨n, hn⟩ := hpath.read_mem hmem
  exact lt_size_of_read hn

/-- A pointer starts at most one list. -/
theorem Path.unique {p : Option ℕ} {l l' : List (ℕ × α)} (hl : h.Path p l none)
    (hl' : h.Path p l' none) : l = l' := by
  induction l generalizing p l' with
  | nil =>
      cases l' with
      | nil => rfl
      | cons c l' => exact absurd (hl.symm.trans hl'.1) (by simp)
  | cons c l ih =>
      obtain ⟨a, v⟩ := c
      obtain ⟨rfl, n, hn, hrest⟩ := hl
      cases l' with
      | nil => exact absurd hl' (by simp)
      | cons c' l' =>
          obtain ⟨a', v'⟩ := c'
          obtain ⟨hp', n', hn', hrest'⟩ := hl'
          obtain rfl : a = a' := Option.some.inj hp'
          obtain ⟨rfl, rfl⟩ := Cell.mk.injEq .. ▸ Option.some.inj (hn.symm.trans hn')
          rw [ih hrest hrest']

/-- The cells of a list are distinct: a list does not loop. -/
theorem Path.nodup {p : Option ℕ} {l : List (ℕ × α)} (hl : h.Path p l none) :
    (l.map Prod.fst).Nodup := by
  induction l generalizing p with
  | nil => simp
  | cons c l ih =>
      obtain ⟨a, v⟩ := c
      obtain ⟨rfl, n, hn, hrest⟩ := hl
      rw [List.map_cons, List.nodup_cons]
      refine ⟨fun hmem => ?_, ih hrest⟩
      obtain ⟨⟨b, w⟩, hbw, rfl⟩ := List.mem_map.mp hmem
      obtain ⟨front, back, rfl⟩ := List.append_of_mem hbw
      obtain ⟨r, -, hback⟩ := path_append.mp hrest
      obtain ⟨rfl, n', hn', htail⟩ := hback
      have hwhole : h.Path (some b) ((b, v) :: (front ++ (b, w) :: back)) none :=
        ⟨rfl, n, hn, hrest⟩
      have hshort : h.Path (some b) ((b, w) :: back) none := ⟨rfl, n', hn', htail⟩
      have hlen := congrArg List.length (hwhole.unique hshort)
      simp at hlen
      omega

/-- A visited cell is not visited before. -/
theorem Path.not_mem_front {p : Option ℕ} {l m : List (ℕ × α)} {a : ℕ} {v : α}
    (hpath : h.Path p (l ++ (a, v) :: m) none) : a ∉ l.map Prod.fst := by
  have hnodup := hpath.nodup
  rw [List.map_append, List.map_cons, List.nodup_append'] at hnodup
  exact fun ha => hnodup.2.2 ha List.mem_cons_self

/-- A list visits no more cells than the heap has. -/
theorem Path.length_le {p : Option ℕ} {l : List (ℕ × α)} (hl : h.Path p l none) :
    l.length ≤ h.size := by
  have hsub : l.map Prod.fst ⊆ List.range h.size := fun a ha =>
    List.mem_range.mpr (hl.lt_size ha)
  simpa using (hl.nodup.subperm hsub).length_le

/-- Allocation does not repair a stale pointer. -/
theorem Dangles.alloc {p : Option ℕ} (hp : h.Dangles p) (c : Cell α) : (h.alloc c).Dangles p := by
  obtain ⟨l, q, hl, hlt, hq⟩ := hp
  refine ⟨l, q, hl.congr fun a ha => read_alloc_of_lt c (hl.lt_size ha), ?_, ?_⟩
  · rw [size_alloc]
    omega
  · rw [read_alloc_of_lt c hlt, hq]

/-- A list does not dangle. -/
theorem Path.not_dangles {p : Option ℕ} {l : List (ℕ × α)} (hl : h.Path p l none) :
    ¬ h.Dangles p := by
  rintro ⟨m, q, hm, -, hq⟩
  induction m generalizing p l with
  | nil =>
      cases l with
      | nil => exact absurd (hl.symm.trans hm) (by simp)
      | cons c l =>
          obtain ⟨hp, n, hn, -⟩ := hl
          obtain rfl : q = c.1 := Option.some.inj (hm.symm.trans hp)
          simp [hq] at hn
  | cons c m ih =>
      obtain ⟨a, v⟩ := c
      obtain ⟨rfl, n, hn, hrest⟩ := hm
      cases l with
      | nil => exact absurd hl (by simp)
      | cons c' l =>
          obtain ⟨a', v'⟩ := c'
          obtain ⟨hp', n', hn', hrest'⟩ := hl
          obtain rfl : a = a' := Option.some.inj hp'
          obtain ⟨-, rfl⟩ := Cell.mk.injEq .. ▸ Option.some.inj (hn.symm.trans hn')
          exact ih hrest' hrest

end Heap

end PanelTester.Library
