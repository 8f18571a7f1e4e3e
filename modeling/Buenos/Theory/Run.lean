/-
# Theory.Run -- runs of a labelled system, free and guarded

A system has initial states and a partial step function: `step s a = none` says
that action `a` cannot be taken in `s`.  `Reachable` states are those of every
run; `ReachableWhen ok` states are those of the runs in which every action `a`
taken in a state `s` satisfies `ok s a`.  A guard is a condition on an action and
the state before it, never on what the action computes.

`ReachableWhen.invariant` is the one induction over runs: a property that holds
initially and is kept by every guarded step holds of every guarded run.
-/
import Mathlib.Tactic.Common

namespace Buenos.Theory

set_option autoImplicit false

universe u v

structure System (σ : Type u) (α : Type v) where
  initial : σ → Prop
  step : σ → α → Option σ

namespace System

variable {σ : Type u} {α : Type v} (M : System σ α)

/-- The states of the runs whose actions all satisfy the guard. -/
inductive ReachableWhen (ok : σ → α → Prop) : σ → Prop
  | start {s : σ} : M.initial s → ReachableWhen ok s
  | step {s t : σ} {a : α} :
      ReachableWhen ok s → ok s a → M.step s a = some t → ReachableWhen ok t

/-- The states of all runs. -/
def Reachable (s : σ) : Prop := M.ReachableWhen (fun _ _ => True) s

variable {M}

/-- **Induction over guarded runs.** -/
theorem ReachableWhen.invariant {ok : σ → α → Prop} {I : σ → Prop}
    (start : ∀ s, M.initial s → I s)
    (keep : ∀ s a t, I s → ok s a → M.step s a = some t → I t) {s : σ}
    (reached : M.ReachableWhen ok s) : I s := by
  induction reached with
  | start first => exact start _ first
  | step _ allowed taken ih => exact keep _ _ _ ih allowed taken

theorem Reachable.invariant {I : σ → Prop} (start : ∀ s, M.initial s → I s)
    (keep : ∀ s a t, I s → M.step s a = some t → I t) {s : σ} (reached : M.Reachable s) : I s :=
  ReachableWhen.invariant start (fun s a t holds _ taken => keep s a t holds taken) reached

theorem ReachableWhen.mono {ok ok' : σ → α → Prop} (weaker : ∀ s a, ok s a → ok' s a) {s : σ}
    (reached : M.ReachableWhen ok s) : M.ReachableWhen ok' s := by
  induction reached with
  | start first => exact .start first
  | step _ allowed taken ih => exact .step ih (weaker _ _ allowed) taken

theorem ReachableWhen.reachable {ok : σ → α → Prop} {s : σ} (reached : M.ReachableWhen ok s) :
    M.Reachable s :=
  reached.mono fun _ _ _ => trivial

theorem Reachable.start {s : σ} (first : M.initial s) : M.Reachable s :=
  ReachableWhen.start first

theorem Reachable.next {s t : σ} {a : α} (reached : M.Reachable s) (taken : M.step s a = some t) :
    M.Reachable t :=
  ReachableWhen.step reached trivial taken

/-- Take a list of actions in order. -/
def exec (M : System σ α) : σ → List α → Option σ
  | s, [] => some s
  | s, a :: as => (M.step s a).bind fun t => exec M t as

/-- A run taken action by action reaches its last state. -/
theorem Reachable.exec {s t : σ} {as : List α} (reached : M.Reachable s)
    (ran : M.exec s as = some t) : M.Reachable t := by
  induction as generalizing s with
  | nil =>
      simp only [System.exec, Option.some.injEq] at ran
      exact ran ▸ reached
  | cons a as ih =>
      simp only [System.exec, Option.bind_eq_some_iff] at ran
      obtain ⟨u, taken, rest⟩ := ran
      exact ih (reached.next taken) rest

/-- Every action of the list satisfies the guard where it is taken. -/
def Guarded (M : System σ α) (ok : σ → α → Prop) : σ → List α → Prop
  | _, [] => True
  | s, a :: as => ok s a ∧ (M.step s a).elim True fun t => Guarded M ok t as

theorem guarded_of_forall {ok : σ → α → Prop} {as : List α} (all : ∀ a ∈ as, ∀ s, ok s a) (s : σ) :
    M.Guarded ok s as := by
  induction as generalizing s with
  | nil => trivial
  | cons a as ih =>
      refine ⟨all a List.mem_cons_self s, ?_⟩
      cases M.step s a with
      | none => trivial
      | some t => exact ih (fun b mem => all b (List.mem_cons_of_mem _ mem)) t

/-- A property that every guarded step keeps holds after guarded actions. -/
theorem Guarded.invariant {ok : σ → α → Prop} {I : σ → Prop}
    (keep : ∀ s a t, I s → ok s a → M.step s a = some t → I t) {s t : σ} {as : List α}
    (guarded : M.Guarded ok s as) (ran : M.exec s as = some t) (holds : I s) : I t := by
  induction as generalizing s with
  | nil =>
      simp only [System.exec, Option.some.injEq] at ran
      exact ran ▸ holds
  | cons a as ih =>
      simp only [System.exec, Option.bind_eq_some_iff] at ran
      obtain ⟨u, taken, rest⟩ := ran
      have tail := guarded.2
      rw [taken] at tail
      exact ih tail rest (keep s a u holds guarded.1 taken)

theorem ReachableWhen.exec {ok : σ → α → Prop} {s t : σ} {as : List α}
    (reached : M.ReachableWhen ok s) (guarded : M.Guarded ok s as)
    (ran : M.exec s as = some t) : M.ReachableWhen ok t := by
  induction as generalizing s with
  | nil =>
      simp only [System.exec, Option.some.injEq] at ran
      exact ran ▸ reached
  | cons a as ih =>
      simp only [System.exec, Option.bind_eq_some_iff] at ran
      obtain ⟨u, taken, rest⟩ := ran
      have tail := guarded.2
      rw [taken] at tail
      exact ih (.step reached guarded.1 taken) tail rest

end System

end Buenos.Theory
