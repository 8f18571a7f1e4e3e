/-
# Theory.Threads -- code that shares a state with other threads

A piece of `Code` reads and writes a shared state, takes and gives semaphores, checks
assertions and calls functions outside.  It has two readings.  `Code.run` executes it alone,
as a `Prog`.  `pool` lets any number of threads execute such code at once: every
instruction is one step, a call outside takes as long as it likes and answers anything, and
the trace records who wrote, called and returned what.  A thread passes a semaphore only
while its value is positive.

`pool_holds` is the proof rule.  Give every thread a ghost value, what it holds and knows,
and find an invariant of the state, the trace and all ghosts.  `Code.Safe` is then a
condition on one thread's code: each instruction, from any state in which the invariant
holds, keeps it for some new ghost of that thread.  It composes along `bind`
(`Code.Safe.bind`), so code is proved safe in the order in which it is written.
-/
import Buenos.Theory.Prog
import Buenos.Theory.Run
import Mathlib.Logic.Function.Basic

namespace Buenos.Theory

set_option autoImplicit false

/-- The shared state's semaphores, its named writes and its assertions. -/
structure Shared (S K W L : Type) where
  value : S → K → Int
  add : S → K → Int → S
  apply : W → S → S
  holds : L → S → Bool

namespace Shared

variable {S K W L : Type} (M : Shared S K W L)

def semP (k : K) : Prog S Unit := fun s =>
  if 0 < M.value s k then .returned ((), M.add s k (-1)) else .stopped .asleep

def semV (k : K) : Prog S Unit := Prog.modify fun s => M.add s k 1

end Shared

/-- What a thread has still to do. -/
inductive Code (S K W L C R α : Type) : Type
  | done (a : α)
  | read (next : S → Code S K W L C R α)
  | write (w : W) (next : Code S K W L C R α)
  | check (l : L) (next : Code S K W L C R α)
  | take (k : K) (next : Code S K W L C R α)
  | give (k : K) (next : Code S K W L C R α)
  | call (c : C) (next : R → Code S K W L C R α)

namespace Code

variable {S K W L C R α β : Type}

def bind : Code S K W L C R α → (α → Code S K W L C R β) → Code S K W L C R β
  | done a, f => f a
  | read next, f => read fun s => (next s).bind f
  | write w next, f => write w (next.bind f)
  | check l next, f => check l (next.bind f)
  | take k next, f => take k (next.bind f)
  | give k next, f => give k (next.bind f)
  | call c next, f => call c fun r => (next r).bind f

instance : Monad (Code S K W L C R) where
  pure := done
  bind := bind

/-- Look at the shared state. -/
def gets (f : S → α) : Code S K W L C R α := read fun s => done (f s)

def set (w : W) : Code S K W L C R Unit := write w (done ())

def assert (l : L) : Code S K W L C R Unit := check l (done ())

def semP (k : K) : Code S K W L C R Unit := take k (done ())

def semV (k : K) : Code S K W L C R Unit := give k (done ())

/-- Call a function outside and wait for its answer. -/
def ask (c : C) : Code S K W L C R R := call c done

/-! ## Alone -/

/-- Execute the code with no other thread; `answer` is the code outside. -/
def run (M : Shared S K W L) (answer : C → Prog S R) : Code S K W L C R α → Prog S α
  | done a => pure a
  | read next => Prog.gets id >>= fun s => (next s).run M answer
  | write w next => Prog.modify (M.apply w) >>= fun _ => next.run M answer
  | check l next => Prog.assert (M.holds l) .assertion >>= fun _ => next.run M answer
  | take k next => M.semP k >>= fun _ => next.run M answer
  | give k next => M.semV k >>= fun _ => next.run M answer
  | call c next => answer c >>= fun r => (next r).run M answer

section Run

variable {M : Shared S K W L} {answer : C → Prog S R}

@[simp] theorem run_pure (a : α) :
    run M answer (pure a : Code S K W L C R α) = (pure a : Prog S α) := rfl

@[simp] theorem run_gets (f : S → α) :
    run M answer (gets f : Code S K W L C R α) = Prog.gets f := rfl

@[simp] theorem run_set (w : W) :
    run M answer (set w : Code S K W L C R Unit) = Prog.modify (M.apply w) := rfl

@[simp] theorem run_assert (l : L) :
    run M answer (assert l : Code S K W L C R Unit) = Prog.assert (M.holds l) .assertion :=
  Prog.bind_unit _

@[simp] theorem run_semP (k : K) :
    run M answer (semP k : Code S K W L C R Unit) = M.semP k := Prog.bind_unit _

@[simp] theorem run_semV (k : K) :
    run M answer (semV k : Code S K W L C R Unit) = M.semV k := rfl

@[simp] theorem run_ask (c : C) : run M answer (ask c : Code S K W L C R R) = answer c :=
  Prog.bind_pure _

/-- **Running code in sequence.** -/
@[simp] theorem run_bind (c : Code S K W L C R α) (f : α → Code S K W L C R β) :
    run M answer (c >>= f) = run M answer c >>= fun a => run M answer (f a) := by
  change run M answer (c.bind f) = _
  induction c with
  | done a => rfl
  | read next ih =>
      rw [bind, run, run, Prog.bind_assoc]
      simp only [ih]
  | write w next ih => rw [bind, run, run, Prog.bind_assoc, ih]
  | check l next ih => rw [bind, run, run, Prog.bind_assoc, ih]
  | take k next ih => rw [bind, run, run, Prog.bind_assoc, ih]
  | give k next ih => rw [bind, run, run, Prog.bind_assoc, ih]
  | call c next ih =>
      rw [bind, run, run, Prog.bind_assoc]
      simp only [ih]

@[simp] theorem run_ite (p : Prop) [Decidable p] (c d : Code S K W L C R α) :
    run M answer (if p then c else d) = if p then run M answer c else run M answer d := by
  split <;> rfl

end Run

end Code

/-! ## Together -/

/-- What a thread does that others can learn of. -/
inductive Event (W C R : Type) : Type
  | entered
  | wrote (w : W)
  | called (c : C)
  | answered (c : C) (r : R)
  | returned (value : Int)
  deriving DecidableEq

/-- Events with the thread and the entry point it is in, the latest first. -/
abbrev Trace (O W C R : Type) := List (Nat × O × Event W C R)

/-- A thread inside an entry point: at an instruction, or waiting for an answer. -/
inductive Stage (S K W L C R : Type) : Type
  | running (code : Code S K W L C R Int)
  | waiting (c : C) (next : R → Code S K W L C R Int)

structure Pool (S K W L C R O : Type) where
  shared : S
  threads : Nat → Option (O × Stage S K W L C R)
  trace : Trace O W C R

/-- A thread enters an entry point, takes its next step, or gets its answer. -/
inductive Move (O R : Type) : Type
  | enter (t : Nat) (o : O)
  | step (t : Nat)
  | answer (t : Nat) (r : R)

section Together

variable {S K W L C R O H : Type}

def Pool.place (s : Pool S K W L C R O) (t : Nat) (o : O) (c : Code S K W L C R Int) :
    Pool S K W L C R O :=
  { s with threads := Function.update s.threads t (some (o, .running c)) }

def Pool.log (s : Pool S K W L C R O) (t : Nat) (o : O) (e : Event W C R) : Pool S K W L C R O :=
  { s with trace := (t, o, e) :: s.trace }

def Pool.next (M : Shared S K W L) (s : Pool S K W L C R O) (t : Nat) (o : O) :
    Code S K W L C R Int → Option (Pool S K W L C R O)
  | .done a =>
      some { s.log t o (.returned a) with threads := Function.update s.threads t none }
  | .read next => some (s.place t o (next s.shared))
  | .write w next => some { (s.place t o next).log t o (.wrote w) with shared := M.apply w s.shared }
  | .check l next => if M.holds l s.shared then some (s.place t o next) else none
  | .take k next =>
      if 0 < M.value s.shared k then
        some { s.place t o next with shared := M.add s.shared k (-1) }
      else none
  | .give k next => some { s.place t o next with shared := M.add s.shared k 1 }
  | .call c next =>
      some { s.log t o (.called c) with
        threads := Function.update s.threads t (some (o, .waiting c next)) }

/-- Threads that execute the entry points `body`, any number at once. -/
def pool (M : Shared S K W L) (body : O → Code S K W L C R Int) (start : S) :
    System (Pool S K W L C R O) (Move O R) where
  initial s := s = { shared := start, threads := fun _ => none, trace := [] }
  step s m := match m with
    | .enter t o => match s.threads t with
        | none => some ((s.place t o (body o)).log t o .entered)
        | some _ => none
    | .step t => match s.threads t with
        | some (o, .running c) => s.next M t o c
        | _ => none
    | .answer t r => match s.threads t with
        | some (o, .waiting c next) => some ((s.place t o (next r)).log t o (.answered c r))
        | _ => none

/-! ## Binary semaphores -/

/-- A binary semaphore is free, or held by exactly one thread. -/
def Mutex (value : Int) (holds : Nat → Prop) : Prop :=
  (value = 1 ∧ ∀ t, ¬holds t) ∨ (value = 0 ∧ ∃ t, holds t ∧ ∀ t', holds t' → t' = t)

namespace Mutex

variable {value : Int} (p : H → Prop) {g : Nat → H}

theorem unique (mutex : Mutex value fun t => p (g t)) {t t' : Nat} (first : p (g t))
    (second : p (g t')) : t' = t := by
  rcases mutex with ⟨-, free⟩ | ⟨-, owner, -, only⟩
  · exact absurd first (free t)
  · rw [only t first, only t' second]

theorem take (mutex : Mutex value fun t => p (g t)) (positive : 0 < value) (t : Nat) {h' : H}
    (taken : p h') :
    Mutex (value + -1) fun t' => p (Function.update g t h' t') := by
  rcases mutex with ⟨rfl, free⟩ | ⟨rfl, -⟩
  · refine Or.inr ⟨rfl, t, by simpa using taken, fun t' held => ?_⟩
    by_contra other
    simp only [Function.update_of_ne other] at held
    exact free t' held
  · exact absurd positive (by decide)

theorem give (mutex : Mutex value fun t => p (g t)) {t : Nat} {h' : H} (held : p (g t))
    (given : ¬p h') :
    Mutex (value + 1) fun t' => p (Function.update g t h' t') := by
  rcases mutex with ⟨-, free⟩ | ⟨rfl, owner, -, only⟩
  · exact absurd held (free t)
  · refine Or.inl ⟨rfl, fun t' => ?_⟩
    by_cases here : t' = t
    · subst here
      simpa using given
    · simp only [Function.update_of_ne here]
      intro other
      exact here ((only t' other).trans (only t held).symm)

theorem keep (mutex : Mutex value fun t => p (g t)) {t : Nat} {h' : H} (same : p h' ↔ p (g t)) :
    Mutex value fun t' => p (Function.update g t h' t') := by
  have pointwise : ∀ t', p (Function.update g t h' t') ↔ p (g t') := by
    intro t'
    by_cases here : t' = t
    · subst here
      simpa using same
    · rw [Function.update_of_ne here]
  simpa only [Mutex, pointwise] using mutex

end Mutex

/-! ## The proof rule -/

/-- What the proof of a pool rests on: an invariant of the state, the trace and all ghosts,
the ghost of a thread outside, the assertions that must not fail, the ghosts that a thread
can have during a call, and the entries that its callers make. -/
structure Discipline (S L W C R O H : Type) where
  inv : S → Trace O W C R → (Nat → H) → Prop
  idle : H
  must : L → Prop
  during : O → C → H → Prop
  allowed : Trace O W C R → O → Prop

def record (t : Nat) (o : O) (e : Option (Event W C R)) (tr : Trace O W C R) : Trace O W C R :=
  match e with
  | none => tr
  | some e => (t, o, e) :: tr

namespace Discipline

variable (D : Discipline S L W C R O H)

/-- In a state with `pre`, a thread with ghost `h` may do `f`, and has then the ghost `h'`. -/
def Moves (o : O) (h h' : H) (pre : S → Prop) (f : S → S) (e : Option (Event W C R)) : Prop :=
  ∀ s tr g t, D.inv s tr g → g t = h → pre s →
    D.inv (f s) (record t o e tr) (Function.update g t h')

/-- A thread with ghost `h` may return `a`. -/
def Leaves (o : O) (a : Int) (h : H) : Prop :=
  D.Moves o h D.idle (fun _ => True) id (some (.returned a))

end Discipline

namespace Code

variable {α β : Type} (M : Shared S K W L) (D : Discipline S L W C R O H) (o : O)

/-- Every instruction keeps the invariant, and the code ends with `Q`. -/
def Safe (Q : α → H → Prop) : Code S K W L C R α → H → Prop
  | done a, h => Q a h
  | read next, h => ∀ s tr g t, D.inv s tr g → g t = h →
      ∃ h', D.inv s tr (Function.update g t h') ∧ Safe Q (next s) h'
  | write w next, h =>
      ∃ h', D.Moves o h h' (fun _ => True) (M.apply w) (some (.wrote w)) ∧ Safe Q next h'
  | check l next, h =>
      (D.must l → ∀ s tr g t, D.inv s tr g → g t = h → M.holds l s = true) ∧
        ∃ h', D.Moves o h h' (fun s => M.holds l s = true) id none ∧ Safe Q next h'
  | take k next, h =>
      ∃ h', D.Moves o h h' (fun s => 0 < M.value s k) (fun s => M.add s k (-1)) none ∧
        Safe Q next h'
  | give k next, h =>
      ∃ h', D.Moves o h h' (fun _ => True) (fun s => M.add s k 1) none ∧ Safe Q next h'
  | call c next, h =>
      ∃ h', D.during o c h' ∧ D.Moves o h h' (fun _ => True) id (some (.called c)) ∧
        ∀ r, ∃ h'', D.Moves o h' h'' (fun _ => True) id (some (.answered c r)) ∧
          Safe Q (next r) h''

variable {M D o}

theorem Safe.mono {Q Q' : α → H → Prop} (weaker : ∀ a h, Q a h → Q' a h)
    {c : Code S K W L C R α} {h : H} (safe : c.Safe M D o Q h) : c.Safe M D o Q' h := by
  induction c generalizing h with
  | done a => exact weaker a h safe
  | read next ih =>
      intro s tr g t holds here
      obtain ⟨h', kept, rest⟩ := safe s tr g t holds here
      exact ⟨h', kept, ih s rest⟩
  | write w next ih =>
      obtain ⟨h', kept, rest⟩ := safe
      exact ⟨h', kept, ih rest⟩
  | check l next ih =>
      obtain ⟨never, h', kept, rest⟩ := safe
      exact ⟨never, h', kept, ih rest⟩
  | take k next ih =>
      obtain ⟨h', kept, rest⟩ := safe
      exact ⟨h', kept, ih rest⟩
  | give k next ih =>
      obtain ⟨h', kept, rest⟩ := safe
      exact ⟨h', kept, ih rest⟩
  | call c next ih =>
      obtain ⟨h', inside, kept, rest⟩ := safe
      refine ⟨h', inside, kept, fun r => ?_⟩
      obtain ⟨h'', answered, rest⟩ := rest r
      exact ⟨h'', answered, ih r rest⟩

/-- **Code in sequence is safe when its parts are.** -/
theorem Safe.bind {Q : α → H → Prop} {Q' : β → H → Prop} {c : Code S K W L C R α}
    {f : α → Code S K W L C R β} {h : H} (first : c.Safe M D o Q h)
    (rest : ∀ a h', Q a h' → (f a).Safe M D o Q' h') : (c >>= f).Safe M D o Q' h := by
  change (c.bind f).Safe M D o Q' h
  induction c generalizing h with
  | done a => exact rest a h first
  | read next ih =>
      intro s tr g t holds here
      obtain ⟨h', kept, later⟩ := first s tr g t holds here
      exact ⟨h', kept, ih s later⟩
  | write w next ih =>
      obtain ⟨h', kept, later⟩ := first
      exact ⟨h', kept, ih later⟩
  | check l next ih =>
      obtain ⟨never, h', kept, later⟩ := first
      exact ⟨never, h', kept, ih later⟩
  | take k next ih =>
      obtain ⟨h', kept, later⟩ := first
      exact ⟨h', kept, ih later⟩
  | give k next ih =>
      obtain ⟨h', kept, later⟩ := first
      exact ⟨h', kept, ih later⟩
  | call c next ih =>
      obtain ⟨h', inside, kept, later⟩ := first
      refine ⟨h', inside, kept, fun r => ?_⟩
      obtain ⟨h'', answered, later⟩ := later r
      exact ⟨h'', answered, ih r later⟩

/-- Reading changes nothing; what was read may teach the thread something. -/
theorem Safe.gets {Q : β → H → Prop} {f : S → α} {k : α → Code S K W L C R β} {h : H}
    (rest : ∀ s tr g t, D.inv s tr g → g t = h →
      ∃ h', D.inv s tr (Function.update g t h') ∧ (k (f s)).Safe M D o Q h') :
    (Code.gets f >>= k).Safe M D o Q h := rest

theorem Safe.gets_same {Q : β → H → Prop} {f : S → α} {k : α → Code S K W L C R β} {h : H}
    (rest : ∀ s, (k (f s)).Safe M D o Q h) : (Code.gets f >>= k).Safe M D o Q h := by
  intro s tr g t holds here
  refine ⟨h, ?_, rest s⟩
  rwa [← here, Function.update_eq_self]

theorem Safe.set {Q : β → H → Prop} {w : W} {k : Unit → Code S K W L C R β} {h h' : H}
    (moves : D.Moves o h h' (fun _ => True) (M.apply w) (some (.wrote w)))
    (rest : (k ()).Safe M D o Q h') : (Code.set w >>= k).Safe M D o Q h := ⟨h', moves, rest⟩

theorem Safe.assert {Q : β → H → Prop} {l : L} {k : Unit → Code S K W L C R β} {h h' : H}
    (passes : D.must l → ∀ s tr g t, D.inv s tr g → g t = h → M.holds l s = true)
    (moves : D.Moves o h h' (fun s => M.holds l s = true) id none)
    (rest : (k ()).Safe M D o Q h') : (Code.assert l >>= k).Safe M D o Q h :=
  ⟨passes, h', moves, rest⟩

theorem Safe.semP {Q : β → H → Prop} {sem : K} {k : Unit → Code S K W L C R β} {h h' : H}
    (moves : D.Moves o h h' (fun s => 0 < M.value s sem) (fun s => M.add s sem (-1)) none)
    (rest : (k ()).Safe M D o Q h') : (Code.semP sem >>= k).Safe M D o Q h := ⟨h', moves, rest⟩

theorem Safe.semV {Q : β → H → Prop} {sem : K} {k : Unit → Code S K W L C R β} {h h' : H}
    (moves : D.Moves o h h' (fun _ => True) (fun s => M.add s sem 1) none)
    (rest : (k ()).Safe M D o Q h') : (Code.semV sem >>= k).Safe M D o Q h := ⟨h', moves, rest⟩

theorem Safe.ask {Q : β → H → Prop} {c : C} {k : R → Code S K W L C R β} {h h' : H}
    (inside : D.during o c h')
    (moves : D.Moves o h h' (fun _ => True) id (some (.called c)))
    (rest : ∀ r, ∃ h'', D.Moves o h' h'' (fun _ => True) id (some (.answered c r)) ∧
      (k r).Safe M D o Q h'') : (Code.ask c >>= k).Safe M D o Q h := ⟨h', inside, moves, rest⟩

theorem Safe.pure {Q : α → H → Prop} {a : α} {h : H} (holds : Q a h) :
    (Pure.pure a : Code S K W L C R α).Safe M D o Q h := holds

theorem Safe.ite {Q : α → H → Prop} {p : Prop} [Decidable p] {c d : Code S K W L C R α} {h : H}
    (yes : p → c.Safe M D o Q h) (no : ¬p → d.Safe M D o Q h) :
    (if p then c else d).Safe M D o Q h := by
  split
  · exact yes ‹_›
  · exact no ‹_›

end Code

namespace Discipline

variable (M : Shared S K W L) (D : Discipline S L W C R O H)

/-- The ghost fits where the thread is. -/
def Fits : Option (O × Stage S K W L C R) → H → Prop
  | none, h => h = D.idle
  | some (o, .running c), h => c.Safe M D o (D.Leaves o) h
  | some (o, .waiting c next), h => D.during o c h ∧
      ∀ r, ∃ h', D.Moves o h h' (fun _ => True) id (some (.answered c r)) ∧
        (next r).Safe M D o (D.Leaves o) h'

/-- Entries that callers make are safe. -/
def Entry (body : O → Code S K W L C R Int) : Prop :=
  ∀ o, (∃ tr, D.allowed tr o) → ∃ h,
    (∀ s tr g t, D.inv s tr g → g t = D.idle → D.allowed tr o →
      D.inv s ((t, o, .entered) :: tr) (Function.update g t h)) ∧
    (body o).Safe M D o (D.Leaves o) h

/-- Callers enter where they may. -/
def Guard (s : Pool S K W L C R O) : Move O R → Prop
  | .enter _ o => D.allowed s.trace o
  | _ => True

/-- The ghosts `g` explain the pool. -/
structure Explains (g : Nat → H) (s : Pool S K W L C R O) : Prop where
  inv : D.inv s.shared s.trace g
  fits : ∀ t, D.Fits M (s.threads t) (g t)

variable {M D}

/-- One thread moved: the others are where they were. -/
theorem Explains.update {g : Nat → H} {s : Pool S K W L C R O} (holds : D.Explains M g s) {t : Nat}
    {h : H} {shared : S} {trace : Trace O W C R} {thread : Option (O × Stage S K W L C R)}
    (inv : D.inv shared trace (Function.update g t h)) (fits : D.Fits M thread h) :
    D.Explains M (Function.update g t h)
      { shared := shared, threads := Function.update s.threads t thread, trace := trace } := by
  refine ⟨inv, fun t' => ?_⟩
  by_cases here : t' = t
  · subst here
    simpa using fits
  · simpa [here] using holds.fits t'

/-- The step lemma: a thread's next instruction. -/
theorem Explains.next {g : Nat → H} {s s' : Pool S K W L C R O} (holds : D.Explains M g s) {t : Nat}
    {o : O} {c : Code S K W L C R Int} (there : s.threads t = some (o, .running c))
    (taken : s.next M t o c = some s') : ∃ g', D.Explains M g' s' := by
  have safe := holds.fits t
  rw [there] at safe
  cases c with
  | done a =>
      cases taken
      exact ⟨_, holds.update (safe _ _ _ t holds.inv rfl trivial) rfl⟩
  | read next =>
      cases taken
      obtain ⟨h', kept, rest⟩ := safe _ _ _ t holds.inv rfl
      exact ⟨_, holds.update kept rest⟩
  | write w next =>
      cases taken
      obtain ⟨h', kept, rest⟩ := safe
      exact ⟨_, holds.update (kept _ _ _ t holds.inv rfl trivial) rest⟩
  | check l next =>
      obtain ⟨-, h', kept, rest⟩ := safe
      simp only [Pool.next] at taken
      split at taken
      · rename_i passed
        cases taken
        exact ⟨_, holds.update (kept _ _ _ t holds.inv rfl passed) rest⟩
      · cases taken
  | take k next =>
      obtain ⟨h', kept, rest⟩ := safe
      simp only [Pool.next] at taken
      split at taken
      · rename_i positive
        cases taken
        exact ⟨_, holds.update (kept _ _ _ t holds.inv rfl positive) rest⟩
      · cases taken
  | give k next =>
      cases taken
      obtain ⟨h', kept, rest⟩ := safe
      exact ⟨_, holds.update (kept _ _ _ t holds.inv rfl trivial) rest⟩
  | call c next =>
      cases taken
      obtain ⟨h', inside, kept, rest⟩ := safe
      exact ⟨_, holds.update (kept _ _ _ t holds.inv rfl trivial) ⟨inside, rest⟩⟩

variable {body : O → Code S K W L C R Int} {start : S}

theorem Explains.step {g : Nat → H} {s s' : Pool S K W L C R O} (holds : D.Explains M g s)
    (entry : D.Entry M body) {m : Move O R} (allowed : D.Guard s m)
    (taken : (pool M body start).step s m = some s') : ∃ g', D.Explains M g' s' := by
  cases m with
  | enter t o =>
      simp only [pool] at taken
      split at taken
      · rename_i outside
        cases taken
        obtain ⟨h, kept, safe⟩ := entry o ⟨_, allowed⟩
        have idle := holds.fits t
        rw [outside] at idle
        exact ⟨_, holds.update (kept _ _ _ t holds.inv idle allowed) safe⟩
      · cases taken
  | step t =>
      simp only [pool] at taken
      split at taken
      · rename_i o c there
        exact holds.next there taken
      · cases taken
  | answer t r =>
      simp only [pool] at taken
      split at taken
      · rename_i o c next there
        cases taken
        have fits := holds.fits t
        rw [there] at fits
        obtain ⟨h', kept, safe⟩ := fits.2 r
        exact ⟨_, holds.update (kept _ _ _ t holds.inv rfl trivial) safe⟩
      · cases taken

/-- **The rule.** In every run some ghosts explain the pool. -/
theorem explains_reachable (init : D.inv start [] fun _ => D.idle) (entry : D.Entry M body)
    {s : Pool S K W L C R O} (reached : (pool M body start).ReachableWhen D.Guard s) :
    ∃ g, D.Explains M g s := by
  apply reached.invariant
  · rintro s rfl
    exact ⟨fun _ => D.idle, init, fun _ => rfl⟩
  · rintro s m s' ⟨g, holds⟩ allowed taken
    exact holds.step entry allowed taken

/-- A thread at an assertion that must not fail passes it. -/
theorem Explains.passes {g : Nat → H} {s : Pool S K W L C R O} (holds : D.Explains M g s) {t : Nat}
    {o : O} {l : L} {next : Code S K W L C R Int}
    (there : s.threads t = some (o, .running (.check l next))) (must : D.must l) :
    M.holds l s.shared = true := by
  have safe := holds.fits t
  rw [there] at safe
  exact safe.1 must _ _ _ t holds.inv rfl

theorem Explains.calling {g : Nat → H} {s : Pool S K W L C R O} (holds : D.Explains M g s) {t : Nat}
    {o : O} {c : C} {next : R → Code S K W L C R Int}
    (there : s.threads t = some (o, .waiting c next)) : D.during o c (g t) := by
  have fits := holds.fits t
  rw [there] at fits
  exact fits.1

end Discipline

end Together

end Buenos.Theory
