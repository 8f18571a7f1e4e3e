/-
# Theory.Fifo -- queues that a system serves in order

A queue that is read off the states of a system.  Some actions serve: they take its first
member, and anything may join behind.  The others only let members join behind.  Then the
member at position `k` is the one that the serving action after `k` others takes, whatever
joins meanwhile: `Fifo.served`.
-/
import Buenos.Theory.Run

namespace Buenos.Theory

set_option autoImplicit false

universe u v w

/-- Every step of a run keeps the order of `queue`; the actions that `serves` marks take the
first member. -/
structure Fifo {σ : Type u} {α : Type v} {β : Type w} (M : System σ α) (queue : σ → List β)
    (serves : α → Bool) : Prop where
  joins : ∀ {s t : σ} {a : α}, M.Reachable s → M.step s a = some t → serves a = false →
    queue s <+: queue t
  takes : ∀ {s t : σ} {a : α}, M.Reachable s → M.step s a = some t → serves a = true →
    queue s ≠ [] → (queue s).tail <+: queue t

namespace Fifo

variable {σ : Type u} {α : Type v} {β : Type w} {M : System σ α} {queue : σ → List β}
  {serves : α → Bool}

theorem getElem?_of_prefix {l m : List β} {k : Nat} {x : β} (isPrefix : l <+: m)
    (there : l[k]? = some x) : m[k]? = some x := by
  obtain ⟨rest, rfl⟩ := isPrefix
  obtain ⟨inside, -⟩ := List.getElem?_eq_some_iff.1 there
  rw [List.getElem?_append_left inside]
  exact there

/-- **Bounded waiting.**  The member at position `k` is first when `k` serving actions have
been taken, and the next one takes it. -/
theorem served (fifo : Fifo M queue serves) {s t : σ} {as : List α} {k : Nat} {x : β}
    (reached : M.Reachable s) (ran : M.exec s as = some t) (there : (queue s)[k]? = some x)
    (many : k < as.countP serves) :
    ∃ pre a post u v, as = pre ++ a :: post ∧ M.exec s pre = some u ∧ pre.countP serves = k ∧
      serves a = true ∧ (queue u).head? = some x ∧ M.step u a = some v ∧ M.exec v post = some t := by
  induction as generalizing s k with
  | nil => exact absurd many (Nat.not_lt_zero k)
  | cons a as ih =>
      simp only [System.exec, Option.bind_eq_some_iff] at ran
      obtain ⟨m, taken, rest⟩ := ran
      -- The action serves somebody else, nobody, or `x` itself.
      by_cases serving : serves a = true
      · cases k with
        | zero =>
            refine ⟨[], a, as, s, m, rfl, rfl, rfl, serving, ?_, taken, rest⟩
            rw [← there, List.head?_eq_getElem?]
        | succ k =>
            have waiting : queue s ≠ [] := by
              intro empty
              rw [empty] at there
              cases there
            have later : (queue m)[k]? = some x :=
              getElem?_of_prefix (fifo.takes reached taken serving waiting)
                (by rw [List.getElem?_tail]; exact there)
            rw [List.countP_cons_of_pos serving] at many
            obtain ⟨pre, b, post, u, v, rfl, ran, count, now, first, moved, after⟩ :=
              ih (reached.next taken) rest later (by omega)
            refine ⟨a :: pre, b, post, u, v, rfl, ?_, ?_, now, first, moved, after⟩
            · rw [System.exec, taken]
              exact ran
            · rw [List.countP_cons_of_pos serving, count]
      · have later : (queue m)[k]? = some x :=
          getElem?_of_prefix (fifo.joins reached taken (by simpa using serving)) there
        rw [List.countP_cons_of_neg serving] at many
        obtain ⟨pre, b, post, u, v, rfl, ran, count, now, first, moved, after⟩ :=
          ih (reached.next taken) rest later many
        refine ⟨a :: pre, b, post, u, v, rfl, ?_, ?_, now, first, moved, after⟩
        · rw [System.exec, taken]
          exact ran
        · rw [List.countP_cons_of_neg serving, count]

end Fifo

end Buenos.Theory
