import Mathlib.Tactic

/-!
Counting doubled flags. A protocol that opens and closes its frames with two flags side
by side, and keeps flags out of what is between, can be credited one pair for each
opening and closing it sees: `flagPairs` is how many a stream has to give. Losing bytes
of the stream never adds a pair (`flagPairs_drop_le`).
-/

namespace PanelTester.Library

variable {α : Type*} [DecidableEq α] (flag : α)

/-- The places where two flags stand side by side; `h` says that a flag came before. -/
def flagPairs : Bool → List α → ℕ
  | _, [] => 0
  | h, b :: s => (if h = true ∧ b = flag then 1 else 0) + flagPairs (decide (b = flag)) s

variable {flag}

@[simp] theorem flagPairs_nil (h : Bool) : flagPairs flag h [] = 0 := rfl

@[simp] theorem flagPairs_true_flag (s : List α) :
    flagPairs flag true (flag :: s) = flagPairs flag true s + 1 := by
  simp [flagPairs, Nat.add_comm]

@[simp] theorem flagPairs_false_flag (s : List α) :
    flagPairs flag false (flag :: s) = flagPairs flag true s := by
  simp [flagPairs]

theorem flagPairs_cons_of_ne {b : α} (hb : b ≠ flag) (h : Bool) (s : List α) :
    flagPairs flag h (b :: s) = flagPairs flag false s := by
  simp [flagPairs, hb]

variable (flag)

theorem flagPairs_mono (h : Bool) (s : List α) :
    flagPairs flag false s ≤ flagPairs flag h s ∧ flagPairs flag h s ≤ flagPairs flag true s := by
  cases s with
  | nil => simp
  | cons b s => cases h <;> simp [flagPairs]

/-- The first byte of a stream is lost. -/
theorem flagPairs_tail_le (h : Bool) (b : α) (s : List α) :
    flagPairs flag false s ≤ flagPairs flag h (b :: s) :=
  calc flagPairs flag false s ≤ flagPairs flag (decide (b = flag)) s := (flagPairs_mono flag _ s).1
    _ ≤ flagPairs flag h (b :: s) := Nat.le_add_left ..

theorem flagPairs_append_le (h : Bool) (x s : List α) :
    flagPairs flag false s ≤ flagPairs flag h (x ++ s) := by
  induction x generalizing h with
  | nil => exact (flagPairs_mono flag h s).1
  | cons b x ih => exact (ih false).trans (flagPairs_tail_le flag h b (x ++ s))

theorem flagPairs_drop_le (h : Bool) {m n : ℕ} (hmn : m ≤ n) (s : List α) :
    flagPairs flag false (s.drop n) ≤ flagPairs flag h (s.drop m) := by
  obtain ⟨k, rfl⟩ := Nat.exists_eq_add_of_le hmn
  rw [← List.drop_drop]
  conv_rhs => rw [← List.take_append_drop k (s.drop m)]
  exact flagPairs_append_le flag h _ _

variable {flag}

/-- What has no flag has nothing to give. -/
theorem flagPairs_append_of_notMem {x : List α} (hx : flag ∉ x) (hne : x ≠ []) (h : Bool)
    (s : List α) : flagPairs flag h (x ++ s) = flagPairs flag false s := by
  induction x generalizing h with
  | nil => exact absurd rfl hne
  | cons b x ih =>
      have hb : b ≠ flag := fun heq => hx (heq ▸ List.mem_cons_self)
      rw [List.cons_append, flagPairs_cons_of_ne hb]
      by_cases hxe : x = []
      · rw [hxe, List.nil_append]
      · exact ih (fun hmem => hx (List.mem_cons_of_mem b hmem)) hxe false

end PanelTester.Library
