import PanelTester.Library.CString

/-!
The conversion `%[` of `sscanf`, which takes the longest run of the characters of a class and fails
on an empty one, strings without blanks at their ends, and the line that `fgets` reads. What a run
is behind which it stops is given by the class alone (`scanset_append`), so that a format is
followed conversion by conversion.
-/

namespace PanelTester.Library

/-- `%[` with the characters of a class: what is read, and what stands behind it. -/
def scanset (p : Char → Bool) (s : Str) : Option (Str × Str) :=
  if s.takeWhile p = [] then none else some (s.takeWhile p, s.dropWhile p)

/-- A string without the blanks at both of its ends. -/
def strip (s : Str) : Str := (s.dropWhile isSpace).rdropWhile isSpace

/-- No blank is at the ends. -/
structure Trimmed (s : Str) : Prop where
  head : ∀ c ∈ s.head?, isSpace c = false
  last : ∀ c ∈ s.getLast?, isSpace c = false

variable {p : Char → Bool} {s t : Str}

theorem takeWhile_eq_nil (h : ∀ c ∈ t.head?, p c = false) : t.takeWhile p = [] := by
  cases t with
  | nil => rfl
  | cons c t => rw [List.takeWhile_cons, h c rfl]; rfl

theorem dropWhile_eq_self (h : ∀ c ∈ t.head?, p c = false) : t.dropWhile p = t := by
  cases t with
  | nil => rfl
  | cons c t => rw [List.dropWhile_cons, h c rfl]; rfl

/-- A run of the class, up to something else, is what is read. -/
theorem scanset_append (hne : s ≠ []) (hs : ∀ c ∈ s, p c) (ht : ∀ c ∈ t.head?, p c = false) :
    scanset p (s ++ t) = some (s, t) := by
  have htake : (s ++ t).takeWhile p = s := by
    rw [List.takeWhile_append_of_pos hs, takeWhile_eq_nil ht, List.append_nil]
  have hdrop : (s ++ t).dropWhile p = t := by
    rw [List.dropWhile_append_of_pos hs, dropWhile_eq_self ht]
  rw [scanset, htake, hdrop, if_neg hne]

/-- Something else is no run. -/
theorem scanset_eq_none (h : ∀ c ∈ t.head?, p c = false) : scanset p t = none := by
  rw [scanset, takeWhile_eq_nil h, if_pos rfl]

theorem scanset_eq_some {r : Str × Str} (h : scanset p s = some r) : s = r.1 ++ r.2 := by
  obtain ⟨-, hr⟩ := Option.ite_none_left_eq_some.mp h
  obtain rfl := Option.some.inj hr
  exact (List.takeWhile_append_dropWhile).symm

/-! ### Blanks at the ends -/

theorem rdropWhile_blank (hs : ∀ c ∈ s.getLast?, isSpace c = false) (ht : ∀ c ∈ t, isSpace c) :
    (s ++ t).rdropWhile isSpace = s := by
  have hlast : ∀ c ∈ s.reverse.head?, isSpace c = false := by
    rwa [List.head?_reverse]
  have ht' : ∀ c ∈ t.reverse, isSpace c := fun c hc => ht c (List.mem_reverse.mp hc)
  rw [List.rdropWhile, List.reverse_append, List.dropWhile_append_of_pos ht',
    dropWhile_eq_self hlast, List.reverse_reverse]

theorem Trimmed.strip_append (h : Trimmed s) (hne : s ≠ []) (ht : ∀ c ∈ t, isSpace c) :
    strip (s ++ t) = s := by
  have hhead : ∀ c ∈ (s ++ t).head?, isSpace c = false := by
    rw [List.head?_append_of_ne_nil _ hne]
    exact h.head
  rw [strip, dropWhile_eq_self hhead, rdropWhile_blank h.last ht]

theorem Trimmed.strip_eq (h : Trimmed s) : strip s = s := by
  have hstrip := rdropWhile_blank (t := []) h.last (by simp)
  rw [List.append_nil] at hstrip
  rw [strip, dropWhile_eq_self h.head, hstrip]

/-! ### Lines -/

/-- A line that fits the buffer is read as a whole. -/
theorem takeLine_line {n : ℕ} (hs : '\n' ∉ s) (hn : s.length < n) (t : Str) :
    takeLine n (s ++ '\n' :: t) = (s ++ ['\n'], t) := by
  induction s generalizing n with
  | nil =>
      obtain ⟨m, rfl⟩ := Nat.exists_eq_add_of_lt hn
      rfl
  | cons c s ih =>
      have hc : c ≠ '\n' := fun heq => hs (heq ▸ List.mem_cons_self)
      have hs := List.not_mem_of_not_mem_cons hs
      cases n with
      | zero => exact absurd hn (Nat.not_lt_zero _)
      | succ n =>
          rw [List.cons_append, takeLine, if_neg hc, ih hs (by simpa using hn)]
          rfl

theorem fgets_line {size : ℕ} (hs : '\n' ∉ s) (hsize : s.length + 2 ≤ size) (t : Str) :
    fgets size (s ++ '\n' :: t) = some (s ++ ['\n'], t) := by
  rw [fgets, if_neg (by simp), takeLine_line hs (by omega)]

end PanelTester.Library
