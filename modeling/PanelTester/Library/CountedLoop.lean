import Mathlib.Tactic

/-!
The loop `for (i = 0; i < n; i++)`, whose turns may fail. It ends well when its turns keep an
invariant, and when it ends well, each of its turns did. `forLoop_rows` is the invariant rule of a
loop over the columns in a loop over the rows.
-/

namespace PanelTester.Library

variable {ε σ : Type}

/-- `for (i = 0; i < n; i++)` -/
def forLoop : ℕ → (ℕ → σ → Except ε σ) → σ → Except ε σ
  | 0, _, s => .ok s
  | n + 1, body, s => forLoop n body s >>= body n

theorem ok_bind {α β : Type} (a : α) (f : α → Except ε β) :
    ((Except.ok a : Except ε α) >>= f) = f a := rfl

/-- A sequence that ends well ends well in both parts. -/
theorem bind_eq_ok {α β : Type} {x : Except ε α} {f : α → Except ε β} {b : β} :
    (x >>= f) = .ok b ↔ ∃ a, x = .ok a ∧ f a = .ok b := by
  cases x with
  | error e =>
      refine iff_of_false (fun h => by cases h) ?_
      rintro ⟨_, h, _⟩
      cases h
  | ok a =>
      rw [ok_bind]
      constructor
      · intro h
        exact ⟨a, rfl, h⟩
      · rintro ⟨_, h, hf⟩
        cases h
        exact hf

variable {n : ℕ} {body : ℕ → σ → Except ε σ} {s : σ}

theorem forLoop_invariant (I : ℕ → σ → Prop) (hstart : I 0 s)
    (hturn : ∀ i < n, ∀ s, I i s → ∃ s', body i s = .ok s' ∧ I (i + 1) s') :
    ∃ s', forLoop n body s = .ok s' ∧ I n s' := by
  induction n with
  | zero => exact ⟨s, rfl, hstart⟩
  | succ n ih =>
      obtain ⟨t, hloop, ht⟩ := ih fun i hi => hturn i (hi.trans (Nat.lt_succ_self n))
      obtain ⟨s', hbody, hs'⟩ := hturn n (Nat.lt_succ_self n) t ht
      refine ⟨s', ?_, hs'⟩
      rw [forLoop, hloop]
      exact hbody

/-- A turn of a loop that ends well. -/
theorem exists_turn {s' : σ} {i : ℕ} (h : forLoop n body s = .ok s') (hi : i < n) :
    ∃ t t', body i t = .ok t' := by
  induction n generalizing s' with
  | zero => exact absurd hi (Nat.not_lt_zero i)
  | succ n ih =>
      obtain ⟨t, hloop, hbody⟩ := bind_eq_ok.mp h
      rcases Nat.lt_succ_iff_lt_or_eq.mp hi with hlt | rfl
      · exact ih hloop hlt
      · exact ⟨t, s', hbody⟩

/-- The place of a column in a row, of rows of one size. -/
theorem place_lt {rows columns i j : ℕ} (hi : i < rows) (hj : j < columns) :
    i * columns + j < rows * columns := by
  have hrow : (i + 1) * columns ≤ rows * columns := Nat.mul_le_mul_right columns hi
  rw [Nat.succ_mul] at hrow
  omega

theorem place_div {columns i j : ℕ} (hj : j < columns) : (i * columns + j) / columns = i := by
  rw [Nat.mul_comm, Nat.mul_add_div (Nat.zero_lt_of_lt hj), Nat.div_eq_of_lt hj, Nat.add_zero]

theorem place_mod {columns i j : ℕ} (hj : j < columns) : (i * columns + j) % columns = j := by
  rw [Nat.mul_comm, Nat.mul_add_mod, Nat.mod_eq_of_lt hj]

/-- The turns are counted through, row by row. -/
theorem forLoop_rows {rows columns : ℕ} {turn : ℕ → ℕ → σ → Except ε σ} (I : ℕ → σ → Prop)
    (hstart : I 0 s)
    (hturn : ∀ i < rows, ∀ j < columns, ∀ s, I (i * columns + j) s →
      ∃ s', turn i j s = .ok s' ∧ I (i * columns + (j + 1)) s') :
    ∃ s', forLoop rows (fun i => forLoop columns (turn i)) s = .ok s' ∧
      I (rows * columns) s' := by
  apply forLoop_invariant fun i => I (i * columns)
  · rwa [Nat.zero_mul]
  · intro i hi s hs
    rw [Nat.succ_mul]
    exact forLoop_invariant (fun j => I (i * columns + j)) hs (hturn i hi)

end PanelTester.Library
