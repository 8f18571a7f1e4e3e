/-
# Theory.Prog -- state-passing programs that return or stop

A sequential program over a state `σ` either returns a value and a new state or
stops: an assertion fails, a semaphore would put the caller to sleep, an array is
indexed past its end, a device reports an error, or a loop runs forever.  A stopped program returns
nothing, so a statement about "every call that returns" is a statement about
`Prog.Returns`.

Two readings of a program carry all later proofs.  `m.Ends s Q` says that `m`
returns from `s` and its result satisfies `Q`; `m.Keeps s Q` says that if it
returns then its result satisfies `Q`.  `bind_returned` turns a composite run
into the runs of its parts, and the rules below do the same for the two readings.
-/
import Mathlib.Tactic.Common

namespace Buenos.Theory

set_option autoImplicit false

universe u v

/-- Why a program stops without returning. -/
inductive Stop where
  | assertion
  | asleep
  | outOfBounds
  | device
  | forever
  deriving DecidableEq, Repr

inductive Outcome (α : Type u) where
  | returned (value : α)
  | stopped (why : Stop)
  deriving DecidableEq, Repr

def Prog (σ : Type u) (α : Type v) := σ → Outcome (α × σ)

namespace Prog

variable {σ : Type u} {α β : Type v}

instance : Monad (Prog σ) where
  pure a := fun s => .returned (a, s)
  bind m f := fun s =>
    match m s with
    | .returned (a, t) => f a t
    | .stopped why => .stopped why

/-- Stop here, whatever the state. -/
def stop (why : Stop) : Prog σ α := fun _ => .stopped why

/-- Read a part of the state. -/
def gets (f : σ → α) : Prog σ α := fun s => .returned (f s, s)

def modify (f : σ → σ) : Prog σ PUnit := fun s => .returned (⟨⟩, f s)

/-- Stop unless `p` holds of the state. -/
def assert (p : σ → Bool) (why : Stop) : Prog σ PUnit := fun s =>
  if p s then .returned (⟨⟩, s) else .stopped why

/-- Run a program on the part of the state that `get` reads and `put` replaces. -/
def zoom {ρ : Type u} (get : σ → ρ) (put : ρ → σ → σ) (m : Prog ρ α) : Prog σ α := fun s =>
  match m (get s) with
  | .returned (a, r) => .returned (a, put r s)
  | .stopped why => .stopped why

@[simp] theorem pure_apply (a : α) (s : σ) : (pure a : Prog σ α) s = .returned (a, s) := rfl

@[simp] theorem stop_apply (why : Stop) (s : σ) : (stop why : Prog σ α) s = .stopped why := rfl

@[simp] theorem gets_apply (f : σ → α) (s : σ) : gets f s = .returned (f s, s) := rfl

@[simp] theorem modify_apply (f : σ → σ) (s : σ) :
    (modify f : Prog σ PUnit.{v + 1}) s = .returned (⟨⟩, f s) := rfl

theorem assert_apply (p : σ → Bool) (why : Stop) (s : σ) :
    (assert p why : Prog σ PUnit.{v + 1}) s =
      if p s then .returned (⟨⟩, s) else .stopped why := rfl

@[simp] theorem ite_apply (c : Prop) [Decidable c] (m n : Prog σ α) (s : σ) :
    (if c then m else n) s = if c then m s else n s := by
  split <;> rfl

theorem bind_apply (m : Prog σ α) (f : α → Prog σ β) (s : σ) :
    (m >>= f) s = match m s with
      | .returned (a, t) => f a t
      | .stopped why => .stopped why := rfl

/-- The first program's run decides where the second one starts. -/
theorem bind_of_returned {m : Prog σ α} {f : α → Prog σ β} {s t : σ} {a : α}
    (first : m s = .returned (a, t)) : (m >>= f) s = f a t := by
  rw [bind_apply, first]

theorem bind_of_stopped {m : Prog σ α} {f : α → Prog σ β} {s : σ} {why : Stop}
    (first : m s = .stopped why) : (m >>= f) s = .stopped why := by
  rw [bind_apply, first]

@[simp] theorem bind_pure_apply (a : α) (f : α → Prog σ β) (s : σ) :
    (pure a >>= f) s = f a s := rfl

@[simp] theorem bind_gets_apply (g : σ → α) (f : α → Prog σ β) (s : σ) :
    (gets g >>= f) s = f (g s) s := rfl

@[simp] theorem bind_modify_apply (g : σ → σ) (f : PUnit.{v + 1} → Prog σ β) (s : σ) :
    ((modify g : Prog σ PUnit.{v + 1}) >>= f) s = f ⟨⟩ (g s) := rfl

theorem bind_assert_apply (p : σ → Bool) (why : Stop) (f : PUnit.{v + 1} → Prog σ β) (s : σ) :
    ((assert p why : Prog σ PUnit.{v + 1}) >>= f) s = if p s then f ⟨⟩ s else .stopped why := by
  rw [bind_apply, assert_apply]
  cases p s <;> rfl

@[simp] theorem bind_stop_apply (why : Stop) (f : α → Prog σ β) (s : σ) :
    ((stop why : Prog σ α) >>= f) s = .stopped why := rfl

@[simp] theorem bind_ite_apply (c : Prop) [Decidable c] (m n : Prog σ α) (f : α → Prog σ β)
    (s : σ) : ((if c then m else n) >>= f) s = if c then (m >>= f) s else (n >>= f) s := by
  split <;> rfl

/-- What follows both branches follows the choice. -/
theorem ite_bind (c : Prop) [Decidable c] (m n : Prog σ α) (f : α → Prog σ β) :
    (if c then m >>= f else n >>= f) = (if c then m else n) >>= f := by
  split <;> rfl

/-- A composite program returns exactly when both parts do. -/
theorem bind_returned {m : Prog σ α} {f : α → Prog σ β} {s u : σ} {b : β} :
    (m >>= f) s = .returned (b, u) ↔
      ∃ a t, m s = .returned (a, t) ∧ f a t = .returned (b, u) := by
  rw [bind_apply]
  constructor
  · intro ran
    cases first : m s with
    | stopped why => simp [first] at ran
    | returned pair =>
        obtain ⟨a, t⟩ := pair
        exact ⟨a, t, rfl, by simpa [first] using ran⟩
  · rintro ⟨a, t, first, second⟩
    simp [first, second]

theorem bind_assoc {γ : Type v} (m : Prog σ α) (f : α → Prog σ β) (g : β → Prog σ γ) :
    (m >>= f) >>= g = m >>= fun a => f a >>= g := by
  funext s
  rw [bind_apply, bind_apply, bind_apply]
  cases m s <;> rfl

theorem pure_bind (a : α) (f : α → Prog σ β) : (pure a >>= f) = f a := rfl

theorem bind_congr {m : Prog σ α} {f g : α → Prog σ β} (same : ∀ a, f a = g a) :
    m >>= f = m >>= g := by
  rw [funext same]

theorem bind_pure (m : Prog σ α) : (m >>= fun a => pure a) = m := by
  funext s
  rw [bind_apply]
  cases m s <;> rfl

theorem bind_unit (m : Prog σ PUnit.{v + 1}) : (m >>= fun _ => pure ⟨⟩) = m := bind_pure m

theorem zoom_of_returned {ρ : Type u} {get : σ → ρ} {put : ρ → σ → σ} {m : Prog ρ α} {s : σ} {r : ρ}
    {a : α} (ran : m (get s) = .returned (a, r)) :
    zoom get put m s = .returned (a, put r s) := by
  rw [zoom, ran]

theorem zoom_returned {ρ : Type u} {get : σ → ρ} {put : ρ → σ → σ} {m : Prog ρ α} {s t : σ} {a : α} :
    zoom get put m s = .returned (a, t) ↔
      ∃ r, m (get s) = .returned (a, r) ∧ t = put r s := by
  rw [zoom]
  constructor
  · intro ran
    cases inner : m (get s) with
    | stopped why => simp [inner] at ran
    | returned pair =>
        obtain ⟨b, r⟩ := pair
        simp only [inner, Outcome.returned.injEq, Prod.mk.injEq] at ran
        exact ⟨r, by rw [ran.1], ran.2.symm⟩
  · rintro ⟨r, inner, rfl⟩
    rw [inner]

/-- What `m` answers from `s`, if it returns. -/
def answer (m : Prog σ α) (s : σ) : Option α :=
  match m s with
  | .returned (a, _) => some a
  | .stopped _ => none

theorem answer_eq_some {m : Prog σ α} {s : σ} {a : α} :
    m.answer s = some a ↔ ∃ t, m s = .returned (a, t) := by
  rw [answer]
  cases m s with
  | stopped why => simp
  | returned pair =>
      obtain ⟨b, t⟩ := pair
      simp

/-! ## Total and partial readings -/

/-- `m` returns from `s`, with a result satisfying `Q`. -/
def Ends (m : Prog σ α) (s : σ) (Q : α → σ → Prop) : Prop :=
  ∃ a t, m s = .returned (a, t) ∧ Q a t

/-- If `m` returns from `s`, its result satisfies `Q`. -/
def Keeps (m : Prog σ α) (s : σ) (Q : α → σ → Prop) : Prop :=
  ∀ a t, m s = .returned (a, t) → Q a t

theorem Ends.keeps {m : Prog σ α} {s : σ} {Q : α → σ → Prop} (ends : m.Ends s Q) :
    m.Keeps s Q := by
  obtain ⟨a, t, ran, holds⟩ := ends
  intro a' t' ran'
  rw [ran] at ran'
  cases ran'
  exact holds

theorem ends_iff {m : Prog σ α} {s t : σ} {a : α} {Q : α → σ → Prop}
    (ran : m s = .returned (a, t)) : m.Ends s Q ↔ Q a t := by
  constructor
  · intro ends
    exact ends.keeps a t ran
  · intro holds
    exact ⟨a, t, ran, holds⟩

theorem ends_congr {m n : Prog σ α} {s t : σ} {Q : α → σ → Prop} (same : m s = n t) :
    m.Ends s Q ↔ n.Ends t Q := by
  unfold Ends
  rw [same]

theorem Ends.bind {m : Prog σ α} {f : α → Prog σ β} {s : σ} {Q : α → σ → Prop}
    {R : β → σ → Prop} (first : m.Ends s Q) (rest : ∀ a t, Q a t → (f a).Ends t R) :
    (m >>= f).Ends s R := by
  obtain ⟨a, t, ran, holds⟩ := first
  obtain ⟨b, u, ran', holds'⟩ := rest a t holds
  exact ⟨b, u, bind_returned.2 ⟨a, t, ran, ran'⟩, holds'⟩

theorem Ends.mono {m : Prog σ α} {s : σ} {Q R : α → σ → Prop} (ends : m.Ends s Q)
    (weaker : ∀ a t, Q a t → R a t) : m.Ends s R := by
  obtain ⟨a, t, ran, holds⟩ := ends
  exact ⟨a, t, ran, weaker a t holds⟩

theorem Keeps.bind {m : Prog σ α} {f : α → Prog σ β} {s : σ} {Q : α → σ → Prop}
    {R : β → σ → Prop} (first : m.Keeps s Q) (rest : ∀ a t, Q a t → (f a).Keeps t R) :
    (m >>= f).Keeps s R := by
  intro b u ran
  obtain ⟨a, t, ran₁, ran₂⟩ := bind_returned.1 ran
  exact rest a t (first a t ran₁) b u ran₂

theorem Keeps.pure {s : σ} {a : α} {Q : α → σ → Prop} (holds : Q a s) :
    (Pure.pure a : Prog σ α).Keeps s Q := by
  intro b t ran
  cases ran
  exact holds

theorem Keeps.gets_bind {g : σ → α} {f : α → Prog σ β} {s : σ} {Q : β → σ → Prop}
    (rest : (f (g s)).Keeps s Q) : (Prog.gets g >>= f).Keeps s Q := rest

theorem Keeps.modify_bind {g : σ → σ} {f : PUnit.{v + 1} → Prog σ β} {s : σ} {Q : β → σ → Prop}
    (rest : (f ⟨⟩).Keeps (g s) Q) : ((Prog.modify g : Prog σ PUnit.{v + 1}) >>= f).Keeps s Q := rest

theorem Keeps.assert_bind {p : σ → Bool} {why : Stop} {f : PUnit.{v + 1} → Prog σ β} {s : σ}
    {Q : β → σ → Prop} (rest : p s = true → (f ⟨⟩).Keeps s Q) :
    ((Prog.assert p why : Prog σ PUnit.{v + 1}) >>= f).Keeps s Q := by
  intro b t ran
  rw [bind_assert_apply] at ran
  split at ran
  · rename_i holds
    exact rest holds b t ran
  · cases ran

theorem Keeps.ite {c : Prop} [Decidable c] {m n : Prog σ α} {s : σ} {Q : α → σ → Prop}
    (yes : m.Keeps s Q) (no : n.Keeps s Q) : (if c then m else n).Keeps s Q := by
  split
  · exact yes
  · exact no

theorem Keeps.zoom {ρ : Type u} {get : σ → ρ} {put : ρ → σ → σ} {m : Prog ρ α} {s : σ}
    {Q : α → σ → Prop} (keeps : m.Keeps (get s) fun a r => Q a (put r s)) :
    (Prog.zoom get put m).Keeps s Q := by
  intro a t ran
  obtain ⟨r, inner, rfl⟩ := zoom_returned.1 ran
  exact keeps a r inner

theorem Keeps.mono {m : Prog σ α} {s : σ} {Q R : α → σ → Prop} (keeps : m.Keeps s Q)
    (weaker : ∀ a t, Q a t → R a t) : m.Keeps s R :=
  fun a t ran => weaker a t (keeps a t ran)

/-! ## What a program leaves alone -/

section Fixes

universe w

variable {γ : Type w} {f : σ → γ}

/-- A run that returns leaves what `f` reads as it was. -/
def Fixes (f : σ → γ) (m : Prog σ α) : Prop := ∀ s, m.Keeps s fun _ t => f t = f s

theorem Fixes.bind {m : Prog σ α} {g : α → Prog σ β} (first : Fixes f m)
    (rest : ∀ a, Fixes f (g a)) : Fixes f (m >>= g) := by
  intro s
  refine (first s).bind fun a t same => ?_
  exact (rest a t).mono fun _ _ later => later.trans same

theorem Fixes.pure (a : α) : Fixes f (Pure.pure a : Prog σ α) := fun _ => .pure rfl

theorem Fixes.ite {c : Prop} [Decidable c] {m n : Prog σ α} (yes : Fixes f m) (no : Fixes f n) :
    Fixes f (if c then m else n) := fun s => .ite (yes s) (no s)

theorem Fixes.gets (g : σ → α) : Fixes f (Prog.gets g) := by
  intro s a t ran
  cases ran
  rfl

theorem Fixes.modify {g : σ → σ} (same : ∀ s, f (g s) = f s) :
    Fixes f (Prog.modify g : Prog σ PUnit.{v + 1}) := by
  intro s a t ran
  cases ran
  exact same s

end Fixes

/-! ## What a program does step by step -/

section Follows

variable {R : σ → σ → Prop}

/-- A run that returns goes along `R`, a relation between earlier and later states. -/
def Follows (R : σ → σ → Prop) (m : Prog σ α) : Prop := ∀ s, m.Keeps s fun _ t => R s t

theorem Follows.bind [IsTrans σ R] {m : Prog σ α} {f : α → Prog σ β} (first : Follows R m)
    (rest : ∀ a, Follows R (f a)) : Follows R (m >>= f) := by
  intro s
  refine (first s).bind fun a t here => ?_
  exact (rest a t).mono fun _ _ later => Trans.trans here later

theorem Follows.pure [Std.Refl R] (a : α) : Follows R (Pure.pure a : Prog σ α) :=
  fun s => .pure (Std.Refl.refl s)

theorem Follows.ite {c : Prop} [Decidable c] {m n : Prog σ α} (yes : Follows R m)
    (no : Follows R n) : Follows R (if c then m else n) := fun s => .ite (yes s) (no s)

theorem Follows.gets [Std.Refl R] (g : σ → α) : Follows R (Prog.gets g) := by
  intro s a t ran
  cases ran
  exact Std.Refl.refl s

theorem Follows.assert [Std.Refl R] (p : σ → Bool) (why : Stop) :
    Follows R (Prog.assert p why : Prog σ PUnit.{v + 1}) := by
  intro s a t ran
  rw [assert_apply] at ran
  split at ran
  · cases ran
    exact Std.Refl.refl s
  · cases ran

theorem Follows.modify {g : σ → σ} (along : ∀ s, R s (g s)) :
    Follows R (Prog.modify g : Prog σ PUnit.{v + 1}) := by
  intro s a t ran
  cases ran
  exact along s

/-- A part that succeeds or fails, and what follows in each case. -/
theorem Follows.branch [IsTrans σ R] {β : Type} {m : Prog σ Bool} {yes no : Prog σ β}
    (first : Follows R m) (success : Follows R yes) (failure : Follows R no) :
    Follows R (do let ok ← m; if ok then yes else no) :=
  first.bind fun _ => .ite success failure

end Follows

end Prog

end Buenos.Theory
