import Mathlib.Tactic

/-!
Tokens that each end with a separator. `tokens` are the ones that are complete and `rest` is
what follows the last separator. `tokens_induction` goes through a text token by token;
`tokens_append` and `rest_append` are about a text that arrives in two parts.
-/

namespace PanelTester.Library

variable {α : Type*} [DecidableEq α]

/-- What is ended by a separator. -/
def tokens (sep : α) (s : List α) : List (List α) := (s.splitOn sep).dropLast

/-- What follows the last separator. -/
def rest (sep : α) (s : List α) : List α := (s.splitOn sep).getLast (List.splitOn_ne_nil sep s)

variable {sep : α}

theorem tokens_of_notMem {t : List α} (h : sep ∉ t) : tokens sep t = [] := by
  rw [tokens, List.splitOn_eq_singleton h]
  rfl

theorem rest_of_notMem {t : List α} (h : sep ∉ t) : rest sep t = t := by
  have hsplit := List.splitOn_eq_singleton h
  rw [rest, List.getLast_congr _ (List.cons_ne_nil t []) hsplit]
  rfl

theorem splitOn_cons_sep {t : List α} (h : sep ∉ t) (s : List α) :
    (t ++ sep :: s).splitOn sep = t :: s.splitOn sep := by
  rw [List.splitOn_append_cons_self, List.splitOn_eq_singleton h]
  rfl

theorem tokens_cons {t : List α} (h : sep ∉ t) (s : List α) :
    tokens sep (t ++ sep :: s) = t :: tokens sep s := by
  rw [tokens, splitOn_cons_sep h, List.dropLast_cons_of_ne_nil (List.splitOn_ne_nil sep s), tokens]

theorem rest_cons {t : List α} (h : sep ∉ t) (s : List α) :
    rest sep (t ++ sep :: s) = rest sep s := by
  rw [rest, List.getLast_congr _ (List.cons_ne_nil _ _) (splitOn_cons_sep h s),
    List.getLast_cons (List.splitOn_ne_nil sep s), rest]

/-- Induction along the tokens of a text. -/
theorem tokens_induction (sep : α) {P : List α → Prop} (stop : ∀ t, sep ∉ t → P t)
    (step : ∀ t s, sep ∉ t → P s → P (t ++ sep :: s)) (s : List α) : P s := by
  induction hn : s.length using Nat.strong_induction_on generalizing s with
  | _ n ih =>
      by_cases hmem : sep ∈ s
      · obtain ⟨t, s, rfl, ht⟩ := List.eq_append_cons_of_mem hmem
        refine step t s ht (ih s.length ?_ s rfl)
        rw [← hn, List.length_append, List.length_cons]
        omega
      · exact stop s hmem

theorem tokens_append (s m : List α) :
    tokens sep (s ++ m) = tokens sep s ++ tokens sep (rest sep s ++ m) := by
  induction s using tokens_induction sep with
  | stop t ht => rw [tokens_of_notMem ht, rest_of_notMem ht, List.nil_append]
  | step t s ht ih =>
      rw [List.append_assoc, List.cons_append, tokens_cons ht, tokens_cons ht, rest_cons ht, ih,
        List.cons_append]

theorem rest_append (s m : List α) : rest sep (s ++ m) = rest sep (rest sep s ++ m) := by
  induction s using tokens_induction sep with
  | stop t ht => rw [rest_of_notMem ht]
  | step t s ht ih => rw [List.append_assoc, List.cons_append, rest_cons ht, rest_cons ht, ih]

/-- A text is made of its tokens and what follows them. -/
theorem rest_subset (s : List α) : rest sep s ⊆ s := by
  induction s using tokens_induction sep with
  | stop t ht => rw [rest_of_notMem ht]; exact List.Subset.refl t
  | step t s ht ih =>
      rw [rest_cons ht]
      exact fun x hx => List.mem_append_right t (List.mem_cons_of_mem sep (ih hx))

end PanelTester.Library
