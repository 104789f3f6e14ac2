import Mathlib.Tactic

/-!
Systems that make one labelled step after the other. What is promised of a system often
holds only of the runs whose steps meet a condition; `Reachable P` are the states of those runs.
`Reachable.invariant` is the induction on the steps so far, `Reachable.mono` weakens the
condition, and `Reachable.run` makes the steps of a list. `run_step_iff` is about runs of steps
that have at most one result: which of them go through is read off step by step, and by
`foldlM_isSome_iff` from the list of steps alone, where the state does not decide it.
-/

namespace PanelTester.Library

/-- A system: where it starts, which steps it can make in a state, and what they lead to. -/
structure StepSystem (σ α : Type*) where
  start : σ
  enabled : σ → α → Prop
  next : σ → α → σ

namespace StepSystem

variable {σ α : Type*} (S : StepSystem σ α)

/-- The states that are reached by steps that meet a condition. -/
inductive Reachable (P : σ → α → Prop) : σ → Prop
  | start : Reachable P S.start
  | step {s : σ} {a : α} (h : Reachable P s) (enabled : S.enabled s a) (fits : P s a) :
      Reachable P (S.next s a)

/-- The steps of a list can be made one after the other, and meet a condition. -/
def RunOk (P : σ → α → Prop) : σ → List α → Prop
  | _, [] => True
  | s, a :: as => S.enabled s a ∧ P s a ∧ RunOk P (S.next s a) as

variable {S} {P Q : σ → α → Prop} {s : σ}

/-- What holds at the start, and is kept by the steps, holds in every state that is reached. -/
theorem Reachable.invariant {I : σ → Prop} (start : I S.start)
    (step : ∀ s a, S.enabled s a → P s a → I s → I (S.next s a)) (h : S.Reachable P s) : I s := by
  induction h with
  | start => exact start
  | step _ enabled fits ih => exact step _ _ enabled fits ih

theorem Reachable.mono (hPQ : ∀ s a, P s a → Q s a) (h : S.Reachable P s) : S.Reachable Q s := by
  induction h with
  | start => exact .start
  | step _ enabled fits ih => exact .step ih enabled (hPQ _ _ fits)

theorem Reachable.run {as : List α} (h : S.Reachable P s) (hrun : S.RunOk P s as) :
    S.Reachable P (as.foldl S.next s) := by
  induction as generalizing s with
  | nil => exact h
  | cons a as ih => exact ih (.step h hrun.1 hrun.2.1) hrun.2.2

end StepSystem

/-- A run that begins with the step `r`. The step has a good result exactly when it fits; behind
it the rest of the run is good exactly when it fits. -/
theorem run_step_iff {β : Type*} {r : Option β} {Good Rest Rest' : β → Prop} {Fits : Prop}
    (step : Fits → ∃ b, r = some b ∧ Good b ∧ (Rest b ↔ Rest' b))
    (fits : ∀ b, r = some b → Good b → Fits) :
    (∃ b, r = some b ∧ Good b ∧ Rest b) ↔ Fits ∧ ∀ b, r = some b → Rest' b := by
  constructor
  · rintro ⟨b, hb, hgood, hrest⟩
    obtain ⟨b', hb', -, hiff⟩ := step (fits b hb hgood)
    obtain rfl := Option.some.inj (hb.symm.trans hb')
    refine ⟨fits b hb hgood, ?_⟩
    intro c hc
    obtain rfl := Option.some.inj (hb.symm.trans hc)
    exact hiff.1 hrest
  · rintro ⟨hfits, hrest⟩
    obtain ⟨b, hb, hgood, hiff⟩ := step hfits
    exact ⟨b, hb, hgood, hiff.2 (hrest b hb)⟩

theorem exists_map_eq_some_iff {α β : Type*} {x : Option α} {f : α → β} :
    (∃ b, x.map f = some b) ↔ ∃ a, x = some a := by
  cases x with
  | none => simp
  | some a => simp

/-- Steps whose success does not depend on the state go through exactly when each of them does. -/
theorem foldlM_isSome_iff {σ α : Type*} {f : σ → α → Option σ} {P : α → Prop} {as : List α}
    (h : ∀ s, ∀ a ∈ as, (∃ s', f s a = some s') ↔ P a) (s : σ) :
    (∃ s', as.foldlM f s = some s') ↔ ∀ a ∈ as, P a := by
  induction as generalizing s with
  | nil => exact iff_of_true ⟨s, rfl⟩ fun a ha => absurd ha List.not_mem_nil
  | cons a as ih =>
      have hrest := fun s => ih (fun s b hb => h s b (List.mem_cons_of_mem _ hb)) s
      rw [List.foldlM_cons, List.forall_mem_cons, ← h s a List.mem_cons_self]
      constructor
      · rintro ⟨s', hrun⟩
        obtain ⟨t, hstep, hrun⟩ := Option.bind_eq_some_iff.mp hrun
        exact ⟨⟨t, hstep⟩, (hrest t).mp ⟨s', hrun⟩⟩
      · rintro ⟨⟨t, hstep⟩, hall⟩
        obtain ⟨s', hrun⟩ := (hrest t).mpr hall
        exact ⟨s', Option.bind_eq_some_iff.mpr ⟨t, hstep, hrun⟩⟩

end PanelTester.Library
