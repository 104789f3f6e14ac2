import Mathlib.Tactic

/-!
Resumable parsers. A parser takes one record off the front of its input, or
waits. When what it takes does not depend on what follows, cutting the input
into chunks and keeping the unparsed rest between them changes nothing:
`drainAll_flatten` is that statement, and `drain_encode` and `drain_of_cut`
describe the runs on an encoded list of records and on its prefixes.
-/

namespace PanelTester.Library

variable {α β : Type*}

/-- What is asked of a parser: a record takes at least one cell, and the record
taken does not depend on the cells after it. -/
structure Resumable (next : List α → Option (β × List α)) : Prop where
  shrink : ∀ {l b r}, next l = some (b, r) → r.length < l.length
  append : ∀ {l b r} (m : List α), next l = some (b, r) → next (l ++ m) = some (b, r ++ m)

/-- Take records off the input while there are any, at most `fuel` of them. -/
def drainLoop (next : List α → Option (β × List α)) : ℕ → List α → List β × List α
  | 0, l => ([], l)
  | fuel + 1, l =>
      match next l with
      | none => ([], l)
      | some (b, r) => (b :: (drainLoop next fuel r).1, (drainLoop next fuel r).2)

/-- Take every complete record off the input; the second component is the rest. -/
def drain (next : List α → Option (β × List α)) (l : List α) : List β × List α :=
  drainLoop next l.length l

/-- Feed chunks one after the other, draining after each; one output per chunk. -/
def drainAll (next : List α → Option (β × List α)) :
    List α → List (List α) → List (List β) × List α
  | q, [] => ([], q)
  | q, c :: cs =>
      ((drain next (q ++ c)).1 :: (drainAll next (drain next (q ++ c)).2 cs).1,
        (drainAll next (drain next (q ++ c)).2 cs).2)

section

variable {next : List α → Option (β × List α)}

theorem drainLoop_fuel (h : Resumable next) {m n : ℕ} {l : List α} (hm : l.length ≤ m)
    (hn : l.length ≤ n) : drainLoop next m l = drainLoop next n l := by
  induction m generalizing n l with
  | zero =>
      have hl : l = [] := List.length_eq_zero_iff.mp (by omega)
      subst hl
      cases n with
      | zero => rfl
      | succ n =>
          cases hnext : next [] with
          | none => simp [drainLoop, hnext]
          | some p => exact absurd (h.shrink hnext) (by simp)
  | succ m ih =>
      cases hnext : next l with
      | none => cases n <;> simp [drainLoop, hnext]
      | some p =>
          obtain ⟨b, r⟩ := p
          have hr := h.shrink hnext
          cases n with
          | zero => omega
          | succ n =>
              simp only [drainLoop, hnext]
              rw [ih (show r.length ≤ m by omega) (show r.length ≤ n by omega)]

theorem drain_stop {l : List α} (hl : next l = none) : drain next l = ([], l) := by
  rw [drain]
  cases l with
  | nil => rfl
  | cons a l => simp [drainLoop, hl]

theorem drain_step (h : Resumable next) {l r : List α} {b : β} (hl : next l = some (b, r)) :
    drain next l = (b :: (drain next r).1, (drain next r).2) := by
  have hr := h.shrink hl
  unfold drain
  cases hlen : l.length with
  | zero => omega
  | succ n =>
      simp only [drainLoop, hl]
      rw [drainLoop_fuel h (show r.length ≤ n by omega) le_rfl]

/-- Induction along the records of an input. -/
theorem drain_induction (h : Resumable next) {P : List α → Prop}
    (stop : ∀ l, next l = none → P l)
    (step : ∀ l b r, next l = some (b, r) → P r → P l) (l : List α) : P l := by
  induction hn : l.length using Nat.strong_induction_on generalizing l with
  | _ n ih =>
      cases hl : next l with
      | none => exact stop l hl
      | some p => exact step l p.1 p.2 hl (ih _ (hn ▸ h.shrink hl) _ rfl)

/-- What is left is no more than there was. -/
theorem length_drain_le (h : Resumable next) (l : List α) : (drain next l).2.length ≤ l.length := by
  induction l using drain_induction h with
  | stop l hl => rw [drain_stop hl]
  | step l b r hl ih =>
      rw [drain_step h hl]
      exact ih.trans (h.shrink hl).le

/-- After draining, the parser waits. -/
theorem next_drain (h : Resumable next) (l : List α) : next (drain next l).2 = none := by
  induction l using drain_induction h with
  | stop l hl => rwa [drain_stop hl]
  | step l b r hl ih => rwa [drain_step h hl]

/-- Draining a longer input is draining the shorter one and then its rest. -/
theorem drain_append (h : Resumable next) (l m : List α) :
    drain next (l ++ m) =
      ((drain next l).1 ++ (drain next ((drain next l).2 ++ m)).1,
        (drain next ((drain next l).2 ++ m)).2) := by
  induction l using drain_induction h with
  | stop l hl => simp [drain_stop hl]
  | step l b r hl ih =>
      rw [drain_step h (h.append m hl), drain_step h hl, ih]
      simp

/-- Cutting the input into chunks does not change the records or the rest. -/
theorem drainAll_flatten (h : Resumable next) {q : List α} (hq : next q = none)
    (cs : List (List α)) :
    ((drainAll next q cs).1.flatten, (drainAll next q cs).2) = drain next (q ++ cs.flatten) := by
  induction cs generalizing q with
  | nil => simp [drainAll, drain_stop hq]
  | cons c cs ih =>
      obtain ⟨hrecords, hrest⟩ := Prod.ext_iff.mp (ih (next_drain h (q ++ c)))
      simp only at hrecords hrest
      simp only [drainAll, List.flatten_cons]
      rw [← List.append_assoc, drain_append h (q ++ c), hrecords, hrest]

end

section

variable {next : List α → Option (β × List α)} {enc : β → List α}

/-- Draining an encoded list of records gives the records back. -/
theorem drain_encode (h : Resumable next) {bs : List β}
    (henc : ∀ b ∈ bs, next (enc b) = some (b, [])) (hnil : next [] = none) :
    drain next (bs.flatMap enc) = (bs, []) := by
  induction bs with
  | nil => simp [drain_stop hnil]
  | cons b bs ih =>
      have hb := h.append (bs.flatMap enc) (henc b List.mem_cons_self)
      rw [List.flatMap_cons, drain_step h hb, List.nil_append,
        ih fun c hc => henc c (List.mem_cons_of_mem b hc)]

/-- A parser waits on every proper prefix of an encoded record. -/
theorem next_of_proper_cut (h : Resumable next) {b : β} {e p : List α}
    (henc : next e = some (b, [])) (hp : p <+: e) (hne : p ≠ e) : next p = none := by
  obtain ⟨m, hm⟩ := hp
  cases hnext : next p with
  | none => rfl
  | some v =>
      obtain ⟨c, r⟩ := v
      have happ := h.append m hnext
      rw [hm, henc, Option.some.injEq, Prod.mk.injEq] at happ
      have hnil : m = [] := (List.append_eq_nil_iff.mp happ.2.symm).2
      exact absurd (by rw [← hm, hnil, List.append_nil]) hne

/-- A prefix of an encoded list of records drains to some first records and a
proper prefix of the next one. -/
theorem drain_of_cut (h : Resumable next) {bs : List β} {p : List α}
    (henc : ∀ b ∈ bs, next (enc b) = some (b, [])) (hnil : next [] = none)
    (hp : p <+: bs.flatMap enc) :
    (drain next p).1 <+: bs ∧
      p = (drain next p).1.flatMap enc ++ (drain next p).2 ∧
      ((drain next p).2 = [] ∨
        ∃ b ∈ bs, (drain next p).2 <+: enc b ∧ (drain next p).2 ≠ enc b) := by
  induction bs generalizing p with
  | nil =>
      have hp' : p = [] := by simpa using hp
      subst hp'
      simp [drain_stop hnil]
  | cons b bs ih =>
      have hb := henc b List.mem_cons_self
      by_cases hlen : p.length < (enc b).length
      · have hpre : p <+: enc b := by
          refine List.prefix_of_prefix_length_le hp ?_ hlen.le
          rw [List.flatMap_cons]
          exact List.prefix_append _ _
        have hne : p ≠ enc b := fun he => absurd hlen (by simp [he])
        rw [drain_stop (next_of_proper_cut h hb hpre hne)]
        exact ⟨List.nil_prefix, by simp, .inr ⟨b, List.mem_cons_self, hpre, hne⟩⟩
      · have hpre : enc b <+: p := by
          refine List.prefix_of_prefix_length_le ?_ hp (by omega)
          rw [List.flatMap_cons]
          exact List.prefix_append _ _
        obtain ⟨q, rfl⟩ := hpre
        rw [List.flatMap_cons, List.prefix_append_right_inj] at hp
        obtain ⟨ih₁, ih₂, ih₃⟩ := ih (fun c hc => henc c (List.mem_cons_of_mem b hc)) hp
        rw [drain_step h (h.append q hb), List.nil_append]
        refine ⟨by simpa using ih₁, ?_, ?_⟩
        · rw [List.flatMap_cons, List.append_assoc, ← ih₂]
        · exact ih₃.imp id fun ⟨c, hc, hcp⟩ => ⟨c, List.mem_cons_of_mem b hc, hcp⟩

end

end PanelTester.Library
