import Mathlib.Tactic
import Mathlib.Data.Multiset.Bind

/-!
Concurrent calls over a shared state. A call is in a state of its own, its program
counter and what it holds; in one step, any call in progress may move and change the
shared state, return, or a new call may begin. `Reachable.invariant` is the induction
on the steps so far: what begins to hold and is kept by the step of any one call,
whatever the others are, holds under every interleaving of any number of calls. `Alone` are the
runs of one call while the others wait.
-/

namespace PanelTester.Library

/-- How calls begin, and what a call in some state can do next: it goes on in another
state, or returns. -/
structure CallSystem (σ κ : Type*) where
  start : κ → Prop
  move : σ → κ → σ → Option κ → Prop

namespace CallSystem

variable {σ κ : Type*} (S : CallSystem σ κ)

/-- The calls in progress once one of them went on or returned. -/
def resume (r : Option κ) (calls : Multiset κ) : Multiset κ := r.elim calls (· ::ₘ calls)

@[simp] theorem resume_none (calls : Multiset κ) : resume none calls = calls := rfl

@[simp] theorem resume_some (c : κ) (calls : Multiset κ) :
    resume (some c) calls = c ::ₘ calls := rfl

/-- One step of the whole: a call begins, or one of those in progress moves. -/
inductive Step : σ × Multiset κ → σ × Multiset κ → Prop
  | start {s : σ} {calls : Multiset κ} {c : κ} (h : S.start c) : Step (s, calls) (s, c ::ₘ calls)
  | move {s s' : σ} {calls : Multiset κ} {c : κ} {r : Option κ} (h : S.move s c s' r) :
      Step (s, c ::ₘ calls) (s', resume r calls)

/-- What some interleaving of calls leads to. -/
inductive Reachable (s₀ : σ) : σ × Multiset κ → Prop
  | init : Reachable s₀ (s₀, 0)
  | step {x y : σ × Multiset κ} (h : Reachable s₀ x) (hstep : S.Step x y) : Reachable s₀ y

/-- A call goes on until it returns, and no other call moves. The last argument is the state of
the call from which it returned. -/
inductive Alone : σ → κ → σ → κ → Prop
  | ret {s s' : σ} {c : κ} (h : S.move s c s' none) : Alone s c s' c
  | go {s s₁ s' : σ} {c d e : κ} (h : S.move s c s₁ (some d)) (hrest : Alone s₁ d s' e) :
      Alone s c s' e

variable {S}

/-- What holds before any call, and is kept by every start and every move, holds under
every interleaving. -/
theorem Reachable.invariant {I : σ → Multiset κ → Prop} {s₀ : σ} (init : I s₀ 0)
    (start : ∀ {s calls c}, S.start c → I s calls → I s (c ::ₘ calls))
    (move : ∀ {s s' calls c r}, S.move s c s' r → I s (c ::ₘ calls) → I s' (resume r calls))
    {s : σ} {calls : Multiset κ} (h : S.Reachable s₀ (s, calls)) : I s calls := by
  generalize hx : (s, calls) = x at h
  induction h generalizing s calls with
  | init =>
      obtain ⟨rfl, rfl⟩ := Prod.mk.inj hx
      exact init
  | step h hstep ih =>
      subst hx
      cases hstep with
      | start hstart => exact start hstart (ih rfl)
      | move hmove => exact move hmove (ih rfl)

end CallSystem

end PanelTester.Library
