import Mathlib.Tactic

/-!
A list cut into fragments of a common length. The number of the fragments is that of the whole
ones plus one, so the last one is shorter than the others, and empty when the length is a
multiple of theirs.
-/

namespace PanelTester.Library

variable {α : Type*}

/-- The fragment with the number `i`. -/
def fragment (k : ℕ) (l : List α) (i : ℕ) : List α := (l.drop (i * k)).take k

/-- The fragments of length `k` of a list, with what is left as the last one. -/
def fragments (k : ℕ) (l : List α) : List (List α) :=
  (List.range (l.length / k + 1)).map (fragment k l)

@[simp] theorem length_fragments (k : ℕ) (l : List α) :
    (fragments k l).length = l.length / k + 1 := by
  simp [fragments]

theorem fragments_ne_nil (k : ℕ) (l : List α) : fragments k l ≠ [] :=
  List.ne_nil_of_length_eq_add_one (length_fragments k l)

theorem length_fragment_le (k : ℕ) (l : List α) (i : ℕ) : (fragment k l i).length ≤ k :=
  List.length_take_le _ _

theorem length_le_of_mem_fragments {k : ℕ} {l f : List α} (hf : f ∈ fragments k l) :
    f.length ≤ k := by
  obtain ⟨i, -, rfl⟩ := List.mem_map.1 hf
  exact length_fragment_le k l i

/-- The first fragments are the beginning of the list. -/
theorem flatten_fragment_range (k : ℕ) (l : List α) (n : ℕ) :
    ((List.range n).map (fragment k l)).flatten = l.take (n * k) := by
  induction n with
  | zero => simp
  | succ n ih =>
    rw [List.range_succ, List.map_append, List.flatten_append, ih, Nat.succ_mul, List.take_add]
    simp [fragment]

/-- All fragments are the whole of it. -/
theorem flatten_fragments {k : ℕ} (hk : 0 < k) (l : List α) : (fragments k l).flatten = l := by
  rw [fragments, flatten_fragment_range]
  apply List.take_of_length_le
  exact (Nat.lt_div_mul_add hk).le.trans_eq (Nat.succ_mul _ _).symm

/-- Behind whole fragments only, an empty one comes last. -/
theorem fragment_last_eq_nil {k : ℕ} {l : List α} (hdvd : k ∣ l.length) :
    fragment k l (l.length / k) = [] := by
  rw [fragment, Nat.div_mul_cancel hdvd, List.drop_length, List.take_nil]

end PanelTester.Library
