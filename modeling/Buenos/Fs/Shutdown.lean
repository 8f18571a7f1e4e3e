/-
# Fs.Shutdown -- the protocol of vfs_deinit

Any number of threads are inside the VFS, some of them in `vfs_deinit`.  `vfs_op_sem` guards
the counter of operations and the usable flag; `vfs_unmount_sem` hands a drained VFS to a
waiting `vfs_deinit`.

A thread's ghost says whether it holds `vfs_op_sem`, whether it is counted, and what it
knows of the flag and the counter.  Two facts never change back: the VFS stays unusable,
and once no operation is counted in an unusable VFS it stays drained (`Drained`).  They are
what a thread may know without holding the lock, and what the first forced unmount
establishes for the rest of the run (`Shut.forced`).  How often a filesystem is unmounted is counted
in `Fs.Unmounts`.
-/
import Buenos.Fs.Unmounts

namespace Buenos.Fs

open Buenos.Lib Buenos.Theory

set_option autoImplicit false

variable {σ : Type}

/-- The thread is between a successful `vfs_start_op` and the decrement in `vfs_end_op`. -/
def inside (t : Nat) : VfsTrace → Bool
  | [] => false
  | (t', _, .wrote .opStarted) :: tr => t' == t || inside t tr
  | (t', _, .wrote .opEnded) :: tr => t' != t && inside t tr
  | _ :: tr => inside t tr

/-- No operation is in progress and none can start. -/
def Drained (s : Vfs σ) : Prop := s.vfsUsable = false ∧ s.vfsOps = 0

namespace Shutdown

inductive Known where
  | nothing
  | usable
  | unusable
  | drained
  deriving DecidableEq

/-- What a thread holds and knows. -/
structure Hold where
  opLock : Bool
  counted : Bool
  known : Known

def outside : Hold := ⟨false, false, .nothing⟩

/-- Inside an operation, `vfs_op_sem` not held. -/
def operating : Hold := ⟨false, true, .nothing⟩

/-- A thread may know that the VFS is usable only while it holds `vfs_op_sem`. -/
def Hold.Knows (h : Hold) (s : Vfs σ) : Prop :=
  match h.known with
  | .nothing => True
  | .usable => h.opLock = true ∧ s.vfsUsable = true
  | .unusable => s.vfsUsable = false
  | .drained => Drained s

/-- A driver call made by `vfs_deinit`. -/
def Forced (e : Nat × VfsCall × Event VfsWrite (Nat × DriverCall) Reply) : Prop :=
  e.2.1 = .deinit ∧ ∃ r, e.2.2 = .called r

/-- The order of events: nothing starts once the flag is cleared, `vfs_deinit` calls only
`unmount`, and after such a call nobody else calls a driver. -/
structure Logged (tr : VfsTrace) : Prop where
  order : tr.Pairwise fun new old => new.2.2 = .wrote .opStarted → old.2.2 ≠ .wrote .unusable
  only : ∀ e ∈ tr, e.2.1 = .deinit → ∀ r, e.2.2 = .called r → r.2 = .unmount
  last : tr.Pairwise fun new old => Forced old → ∀ r, new.2.2 = .called r → new.2.1 = .deinit

structure Shut (s : Vfs σ) (tr : VfsTrace) (g : Nat → Hold) : Prop where
  lock : Mutex s.vfsOpSem fun t => (g t).opLock = true
  ghost : ∀ t, (g t).counted = inside t tr
  counter : ∃ T : Finset Nat, (∀ t, t ∈ T ↔ inside t tr = true) ∧ s.vfsOps = T.card
  knows : ∀ t, (g t).Knows s
  wake : 0 < s.vfsUnmountSem → Drained s
  closed : s.vfsUsable = false ↔ ∃ e ∈ tr, e.2.2 = .wrote .unusable
  forced : (∃ e ∈ tr, Forced e) → Drained s
  logged : Logged tr

/-- The discipline of the shutdown protocol. -/
def shutdown : Discipline (Vfs σ) VfsCheck VfsWrite (Nat × DriverCall) Reply VfsCall Hold where
  inv := Shut
  idle := outside
  must l := l = .opsNonneg ∨ l = .opsZero
  during o c h := (o = .deinit ∧ c.2 = .unmount) ∨ h.counted = true
  allowed _ _ := True

section Moves

variable {s s' : Vfs σ} {tr : VfsTrace} {g : Nat → Hold}

/-- Events that say nothing about the protocol. -/
def Quiet : Option (Event VfsWrite (Nat × DriverCall) Reply) → Prop
  | some (.wrote w) => w ≠ .opStarted ∧ w ≠ .opEnded ∧ w ≠ .unusable
  | some (.called _) => False
  | _ => True

/-- Nothing that the protocol looks at has changed. -/
structure SameOps (s s' : Vfs σ) : Prop where
  opSem : s'.vfsOpSem = s.vfsOpSem
  unmountSem : s'.vfsUnmountSem = s.vfsUnmountSem
  ops : s'.vfsOps = s.vfsOps
  usable : s'.vfsUsable = s.vfsUsable

theorem Drained.congr (drained : Drained s) (same : SameOps s s') : Drained s' :=
  ⟨same.usable.trans drained.1, same.ops.trans drained.2⟩

theorem SameOps.symm (same : SameOps s s') : SameOps s' s :=
  ⟨same.opSem.symm, same.unmountSem.symm, same.ops.symm, same.usable.symm⟩

theorem Hold.Knows.step {h : Hold} (knows : h.Knows s) (usable : s'.vfsUsable = s.vfsUsable)
    (drained : Drained s → Drained s') : h.Knows s' := by
  obtain ⟨opLock, counted, known⟩ := h
  cases known with
  | nothing => trivial
  | usable => exact ⟨knows.1, usable.trans knows.2⟩
  | unusable => exact usable.trans knows
  | drained => exact drained knows

/-- A write to other variables. -/
theorem Shut.congr (shut : Shut s tr g) (same : SameOps s s') : Shut s' tr g := by
  obtain ⟨T, members, count⟩ := shut.counter
  exact {
    lock := by rw [same.opSem]; exact shut.lock
    ghost := shut.ghost
    counter := ⟨T, members, same.ops.trans count⟩
    knows := fun t => (shut.knows t).step same.usable fun drained => Drained.congr drained same
    wake := fun given => Drained.congr (shut.wake (same.unmountSem ▸ given)) same
    closed := by rw [same.usable]; exact shut.closed
    forced := fun called => Drained.congr (shut.forced called) same
    logged := shut.logged }

theorem inside_quiet {e : Event VfsWrite (Nat × DriverCall) Reply} (quiet : Quiet (some e))
    (t t' : Nat) (o : VfsCall) : inside t ((t', o, e) :: tr) = inside t tr := by
  match e with
  | .entered => rfl
  | .wrote w =>
      obtain ⟨notStarted, notEnded, -⟩ := quiet
      cases w <;> first | rfl | contradiction
  | .called _ => exact quiet.elim
  | .answered _ _ => rfl
  | .returned _ => rfl

/-- An event that is no call. -/
theorem Logged.cons (logged : Logged tr) {e : Event VfsWrite (Nat × DriverCall) Reply}
    (notCalled : ∀ r, e ≠ .called r) (t : Nat) (o : VfsCall)
    (open' : e = .wrote .opStarted → ∀ old ∈ tr, old.2.2 ≠ .wrote .unusable) :
    Logged ((t, o, e) :: tr) where
  order := List.pairwise_cons.2 ⟨fun old mem started => open' started old mem, logged.order⟩
  only := by
    intro old mem deinit r called
    rcases List.mem_cons.1 mem with rfl | mem
    · exact absurd called (notCalled r)
    · exact logged.only old mem deinit r called
  last := List.pairwise_cons.2 ⟨fun _ _ _ r called => absurd called (notCalled r), logged.last⟩

theorem forced_cons {e : Event VfsWrite (Nat × DriverCall) Reply}
    (notCalled : ∀ r, e ≠ .called r) (t : Nat) (o : VfsCall)
    (called : ∃ old ∈ (t, o, e) :: tr, Forced old) : ∃ old ∈ tr, Forced old := by
  obtain ⟨old, mem, forced⟩ := called
  rcases List.mem_cons.1 mem with rfl | mem
  · obtain ⟨-, r, called⟩ := forced
    exact absurd called (notCalled r)
  · exact ⟨old, mem, forced⟩

/-- A quiet event in the trace. -/
theorem Shut.log (shut : Shut s tr g) {e : Event VfsWrite (Nat × DriverCall) Reply}
    (quiet : Quiet (some e)) (t : Nat) (o : VfsCall) : Shut s ((t, o, e) :: tr) g := by
  have notStarted : e ≠ .wrote .opStarted := by
    rintro rfl
    exact quiet.1 rfl
  have notUnusable : e ≠ .wrote .unusable := by
    rintro rfl
    exact quiet.2.2 rfl
  have notCalled : ∀ r, e ≠ .called r := by
    rintro r rfl
    exact quiet
  obtain ⟨T, members, count⟩ := shut.counter
  exact {
    lock := shut.lock
    ghost := fun t' => by rw [inside_quiet quiet]; exact shut.ghost t'
    counter := ⟨T, fun t' => by rw [inside_quiet quiet]; exact members t', count⟩
    knows := shut.knows
    wake := shut.wake
    closed := by
      rw [shut.closed]
      simp [notUnusable]
    forced := fun called => shut.forced (forced_cons notCalled t o called)
    logged := shut.logged.cons notCalled t o fun started => absurd started notStarted }

/-- A thread gets another ghost, and the lock a value that fits. -/
theorem Shut.relock (shut : Shut s tr g) (t : Nat) {h' : Hold} {value : Int}
    (lock : Mutex value fun t' => (Function.update g t h' t').opLock = true)
    (counted : h'.counted = (g t).counted) (knows : h'.Knows { s with vfsOpSem := value }) :
    Shut { s with vfsOpSem := value } tr (Function.update g t h') where
  lock := lock
  ghost t' := by
    by_cases here : t' = t
    · subst here
      rw [Function.update_self, counted, shut.ghost]
    · rw [Function.update_of_ne here, shut.ghost]
  counter := shut.counter
  knows t' := by
    by_cases here : t' = t
    · subst here
      rwa [Function.update_self]
    · rw [Function.update_of_ne here]
      exact shut.knows t'
  wake := shut.wake
  closed := shut.closed
  forced := shut.forced
  logged := shut.logged

/-- A thread knows something else. -/
theorem Shut.learn (shut : Shut s tr g) (t : Nat) (known : Known)
    (knows : Hold.Knows { g t with known := known } s) :
    Shut s tr (Function.update g t { g t with known := known }) :=
  shut.relock t (shut.lock.keep (fun h : Hold => h.opLock = true) Iff.rfl) rfl knows

theorem Shut.drained_of_known (shut : Shut s tr g) {t : Nat} (known : (g t).known = .drained) :
    Drained s := by
  have knows := shut.knows t
  rw [Hold.Knows, known] at knows
  exact knows

theorem Shut.notCounted (shut : Shut s tr g) (drained : Drained s) (t : Nat) :
    (g t).counted = false := by
  obtain ⟨T, members, count⟩ := shut.counter
  cases counted : (g t).counted with
  | false => rfl
  | true =>
      have mem : t ∈ T := (members t).2 (by rw [← shut.ghost]; exact counted)
      have positive := Finset.card_pos.2 ⟨t, mem⟩
      have none := drained.2
      omega

variable (o : VfsCall)

/-- A step that the protocol does not look at. -/
theorem moves_quiet (h : Hold) {pre : Vfs σ → Prop} {f : Vfs σ → Vfs σ}
    {e : Option (Event VfsWrite (Nat × DriverCall) Reply)} (same : ∀ s, SameOps s (f s))
    (quiet : Quiet e) : shutdown.Moves o h h pre f e := by
  rintro s tr g t shut rfl -
  rw [Function.update_eq_self]
  have next := shut.congr (same s)
  match e with
  | none => exact next
  | some e => exact next.log quiet t o

/-- `semaphore_P(vfs_op_sem)`. -/
theorem moves_takeOp (counted : Bool) {known : Known} (silent : known ≠ .usable) :
    shutdown.Moves o ⟨false, counted, known⟩ ⟨true, counted, known⟩
      (fun s : Vfs σ => 0 < s.sem .vfsOp) (fun s => s.addSem .vfsOp (-1)) none := by
  intro s tr g t shut here positive
  have taken := shut.lock.take (fun h : Hold => h.opLock = true) positive t
    (show Hold.opLock ⟨true, counted, known⟩ = true from rfl)
  refine shut.relock t taken (by rw [here]) ?_
  have knows := shut.knows t
  rw [here] at knows
  cases known with
  | usable => exact absurd rfl silent
  | nothing => exact knows
  | unusable => exact knows
  | drained => exact knows

/-- `semaphore_V(vfs_op_sem)`. -/
theorem moves_giveOp (counted : Bool) (known : Known) :
    shutdown.Moves o ⟨true, counted, known⟩ ⟨false, counted, .nothing⟩
      (fun _ : Vfs σ => True) (fun s => s.addSem .vfsOp 1) none := by
  rintro s tr g t shut here -
  have given := shut.lock.give (fun h : Hold => h.opLock = true) (by rw [here])
    (show ¬Hold.opLock ⟨false, counted, .nothing⟩ = true from Bool.false_ne_true)
  exact shut.relock t given (by rw [here]) trivial

/-- `vfs_ops++`, by a thread that has seen the flag set. -/
theorem moves_opStarted :
    shutdown.Moves o ⟨true, false, .usable⟩ ⟨true, true, .nothing⟩
      (fun _ : Vfs σ => True) VfsWrite.opStarted.apply (some (.wrote .opStarted)) := by
  rintro s tr g t shut here -
  have usable : s.vfsUsable = true := by
    have knows := shut.knows t
    rw [here] at knows
    exact knows.2
  have notDrained : ¬Drained s := fun drained => by
    rw [drained.1] at usable
    cases usable
  obtain ⟨T, members, count⟩ := shut.counter
  have fresh : t ∉ T := by
    rw [members, ← shut.ghost, here]
    exact Bool.false_ne_true
  refine ⟨?_, ?_, ?_, ?_, ?_, ?_, ?_, ?_⟩
  · exact shut.lock.keep (fun h : Hold => h.opLock = true) (by rw [here])
  · intro t'
    by_cases self : t' = t
    · subst self
      simp [record, inside]
    · rw [Function.update_of_ne self, shut.ghost]
      simp [record, inside, Ne.symm self]
  · refine ⟨insert t T, fun t' => ?_, ?_⟩
    · rw [Finset.mem_insert, members]
      simp [record, inside, @eq_comm _ t t']
    · rw [Finset.card_insert_of_notMem fresh]
      simp [VfsWrite.apply, count]
  · intro t'
    by_cases self : t' = t
    · subst self
      rw [Function.update_self]
      trivial
    · rw [Function.update_of_ne self]
      exact (shut.knows t').step rfl fun drained => absurd drained notDrained
  · exact fun given => absurd (shut.wake given) notDrained
  · change s.vfsUsable = false ↔ _
    rw [shut.closed]
    simp [record]
  · exact fun called => absurd (shut.forced (forced_cons (by simp) t o called)) notDrained
  · refine shut.logged.cons (by simp) t o fun _ e mem unusable => ?_
    rw [shut.closed.2 ⟨e, mem, unusable⟩] at usable
    cases usable

/-- `vfs_ops--`. -/
theorem moves_opEnded :
    shutdown.Moves o ⟨true, true, .nothing⟩ ⟨true, false, .nothing⟩
      (fun _ : Vfs σ => True) VfsWrite.opEnded.apply (some (.wrote .opEnded)) := by
  rintro s tr g t shut here -
  have notDrained : ¬Drained s := fun drained => by
    have none := shut.notCounted drained t
    rw [here] at none
    cases none
  obtain ⟨T, members, count⟩ := shut.counter
  have mem : t ∈ T := by rw [members, ← shut.ghost, here]
  refine ⟨?_, ?_, ?_, ?_, ?_, ?_, ?_, ?_⟩
  · exact shut.lock.keep (fun h : Hold => h.opLock = true) (by rw [here])
  · intro t'
    by_cases self : t' = t
    · subst self
      simp [record, inside]
    · rw [Function.update_of_ne self, shut.ghost]
      simp [record, inside, Ne.symm self]
  · refine ⟨T.erase t, fun t' => ?_, ?_⟩
    · rw [Finset.mem_erase, members]
      simp [record, inside, @eq_comm _ t t']
    · have positive := Finset.card_pos.2 ⟨t, mem⟩
      rw [Finset.card_erase_of_mem mem]
      simp only [VfsWrite.apply, count]
      omega
  · intro t'
    by_cases self : t' = t
    · subst self
      rw [Function.update_self]
      trivial
    · rw [Function.update_of_ne self]
      exact (shut.knows t').step rfl fun drained => absurd drained notDrained
  · exact fun given => absurd (shut.wake given) notDrained
  · change s.vfsUsable = false ↔ _
    rw [shut.closed]
    simp [record]
  · exact fun called => absurd (shut.forced (forced_cons (by simp) t o called)) notDrained
  · exact shut.logged.cons (by simp) t o (by simp)

/-- `vfs_usable = 0`. -/
theorem moves_unusable :
    shutdown.Moves o ⟨true, false, .nothing⟩ ⟨true, false, .unusable⟩
      (fun _ : Vfs σ => True) VfsWrite.unusable.apply (some (.wrote .unusable)) := by
  rintro s tr g t shut here -
  refine ⟨?_, ?_, ?_, ?_, ?_, ?_, ?_, ?_⟩
  · exact shut.lock.keep (fun h : Hold => h.opLock = true) (by rw [here])
  · intro t'
    by_cases self : t' = t
    · subst self
      have before := shut.ghost t'
      rw [here] at before
      simpa [record, inside] using before
    · rw [Function.update_of_ne self, shut.ghost]
      rfl
  · exact shut.counter
  · intro t'
    by_cases self : t' = t
    · subst self
      rw [Function.update_self]
      rfl
    · rw [Function.update_of_ne self]
      have knows := shut.knows t'
      cases known : (g t').known with
      | nothing => simp only [Hold.Knows, known]
      | usable =>
          -- only this thread holds the lock under which the flag may be relied on
          simp only [Hold.Knows, known] at knows
          exact absurd (shut.lock.unique (fun h : Hold => h.opLock = true)
            (by rw [here]) knows.1) self
      | unusable =>
          simp only [Hold.Knows, known]
          rfl
      | drained =>
          simp only [Hold.Knows, known] at knows ⊢
          exact ⟨rfl, knows.2⟩
  · exact fun given => ⟨rfl, (shut.wake given).2⟩
  · exact iff_of_true rfl ⟨_, List.mem_cons_self, rfl⟩
  · exact fun called => ⟨rfl, (shut.forced (forced_cons (by simp) t o called)).2⟩
  · exact shut.logged.cons (by simp) t o (by simp)

/-- `semaphore_V(vfs_unmount_sem)`, by a thread that knows that the VFS is drained. -/
theorem moves_giveUnmount (h : Hold) (known : h.known = .drained) :
    shutdown.Moves o h h (fun _ : Vfs σ => True) (fun s => s.addSem .vfsUnmount 1) none := by
  rintro s tr g t shut rfl -
  rw [Function.update_eq_self]
  have drained := shut.drained_of_known known
  exact { shut with wake := fun _ => drained }

/-- `semaphore_P(vfs_unmount_sem)`: what it hands over is a drained VFS. -/
theorem moves_takeUnmount :
    shutdown.Moves o ⟨false, false, .nothing⟩ ⟨false, false, .drained⟩
      (fun s : Vfs σ => 0 < s.sem .vfsUnmount) (fun s => s.addSem .vfsUnmount (-1)) none := by
  intro s tr g t shut here given
  have drained := shut.wake given
  have learned := shut.learn t .drained (by rw [here]; exact drained)
  rw [here] at learned
  exact { learned with wake := fun _ => drained }

/-- A driver call inside an operation. -/
theorem moves_call (h : Hold) (counted : h.counted = true) (r : Nat × DriverCall)
    (other : o ≠ .deinit) :
    shutdown.Moves o h h (fun _ : Vfs σ => True) id (some (.called r)) := by
  rintro s tr g t shut rfl -
  rw [Function.update_eq_self]
  have notDrained : ¬Drained s := fun drained => by
    rw [shut.notCounted drained t] at counted
    cases counted
  have noForced : ¬∃ e ∈ tr, Forced e := fun called => notDrained (shut.forced called)
  exact {
    lock := shut.lock
    ghost := shut.ghost
    counter := shut.counter
    knows := shut.knows
    wake := shut.wake
    closed := by
      rw [id, shut.closed]
      simp [record]
    forced := by
      rintro ⟨e, mem, deinit, r', called⟩
      rcases List.mem_cons.1 mem with rfl | mem
      · exact absurd deinit other
      · exact absurd ⟨e, mem, deinit, r', called⟩ noForced
    logged := {
      order := List.pairwise_cons.2 ⟨by simp, shut.logged.order⟩
      only := by
        intro e mem deinit r' called
        rcases List.mem_cons.1 mem with rfl | mem
        · exact absurd deinit other
        · exact shut.logged.only e mem deinit r' called
      last := List.pairwise_cons.2
        ⟨fun e mem forced => absurd ⟨e, mem, forced⟩ noForced, shut.logged.last⟩ } }

/-- A forced unmount. -/
theorem moves_forced (h : Hold) (known : h.known = .drained) (fs : Nat) :
    shutdown.Moves .deinit h h (fun _ : Vfs σ => True) id (some (.called (fs, .unmount))) := by
  rintro s tr g t shut rfl -
  rw [Function.update_eq_self]
  have drained := shut.drained_of_known known
  exact {
    lock := shut.lock
    ghost := shut.ghost
    counter := shut.counter
    knows := shut.knows
    wake := shut.wake
    closed := by
      rw [id, shut.closed]
      simp [record]
    forced := fun _ => drained
    logged := {
      order := List.pairwise_cons.2 ⟨by simp, shut.logged.order⟩
      only := by
        intro e mem deinit r' called
        rcases List.mem_cons.1 mem with rfl | mem
        · cases called
          rfl
        · exact shut.logged.only e mem deinit r' called
      last := List.pairwise_cons.2 ⟨fun _ _ _ _ _ => rfl, shut.logged.last⟩ } }

end Moves

/-! ## The code -/

section Code

variable {o : VfsCall} {α : Type} {Q : α → Hold → Prop}

/-- The code keeps the discipline, from the ghost `h`. -/
abbrev Keeps (o : VfsCall) (Q : α → Hold → Prop) (c : VfsCode σ α) (h : Hold) : Prop :=
  c.Safe vfsShared shutdown o Q h

/-- Semaphores other than those of the protocol. -/
def Table (k : VfsSem) : Prop := k = .vfsTable ∨ k = .openfileTable

theorem sameOps_addSem {k : VfsSem} (table : Table k) (s : Vfs σ) (d : Int) :
    SameOps s (s.addSem k d) := by
  rcases table with rfl | rfl
  · exact ⟨rfl, rfl, rfl, rfl⟩
  · exact ⟨rfl, rfl, rfl, rfl⟩

variable {h : Hold}

theorem keeps_semP {k : VfsSem} (table : Table k) {c : Unit → VfsCode σ α}
    (rest : Keeps o Q (c ()) h) : Keeps o Q (Code.semP k >>= c) h :=
  Code.Safe.semP (moves_quiet o h (fun s => sameOps_addSem table s _) trivial) rest

theorem keeps_semV {k : VfsSem} (table : Table k) {c : Unit → VfsCode σ α}
    (rest : Keeps o Q (c ()) h) : Keeps o Q (Code.semV k >>= c) h :=
  Code.Safe.semV (moves_quiet o h (fun s => sameOps_addSem table s _) trivial) rest

theorem keeps_set {w : VfsWrite} (quiet : Quiet (some (.wrote w))) {c : Unit → VfsCode σ α}
    (rest : Keeps o Q (c ()) h) : Keeps o Q (Code.set w >>= c) h := by
  refine Code.Safe.set (moves_quiet o h (fun s => ?_) quiet) rest
  obtain ⟨notStarted, notEnded, notUnusable⟩ := quiet
  cases w with
  | opStarted => contradiction
  | opEnded => contradiction
  | unusable => contradiction
  | _ => exact ⟨rfl, rfl, rfl, rfl⟩

theorem keeps_assert {l : VfsCheck} (other : ¬(l = .opsNonneg ∨ l = .opsZero))
    {c : Unit → VfsCode σ α} (rest : Keeps o Q (c ()) h) : Keeps o Q (Code.assert l >>= c) h :=
  Code.Safe.assert (fun must => absurd must other)
    (moves_quiet o h (fun _ => ⟨rfl, rfl, rfl, rfl⟩) trivial) rest

/-- A driver call by an operation that is counted. -/
theorem keeps_driver (other : o ≠ .deinit) (counted : h.counted = true) {fs : Nat}
    {request : DriverCall} {c : Int → VfsCode σ α} (rest : ∀ ret, Keeps o Q (c ret) h) :
    Keeps o Q (VfsCode.driver fs request >>= c) h :=
  safe_driver (r := (fs, request)) (Or.inr counted) (moves_call o h counted _ other)
    (fun _ => moves_quiet o h (fun _ => ⟨rfl, rfl, rfl, rfl⟩) trivial) rest

theorem keeps_verifyOpen {file : Int} {c : Nat → VfsCode σ α}
    (rest : Keeps o Q (c file.toNat) h) : Keeps o Q (VfsCode.vfsVerifyOpen file >>= c) h :=
  safe_verifyOpen (keeps_assert (by simp) rest)

theorem keeps_crash {Q : Int → Hold → Prop} {h' : Hold} (done : Q 0 h') :
    Keeps o Q (VfsCode.crash : VfsCode σ Int) h :=
  safe_crash (by rintro (must | must) <;> cases must) done

theorem keeps_startOp :
    Keeps o (fun ret h' => (ret = VFS_OK ∧ h' = operating) ∨ (ret = VFS_UNUSABLE ∧ h' = outside))
      (VfsCode.vfsStartOp : VfsCode σ Int) outside := by
  refine Code.Safe.semP (moves_takeOp o false (by decide)) ?_
  refine Code.Safe.gets fun s tr g t shut here => ?_
  cases usable : s.vfsUsable with
  | true =>
      have learned := shut.learn t .usable (by rw [here]; exact ⟨rfl, usable⟩)
      rw [here] at learned
      refine ⟨_, learned, ?_⟩
      refine Code.Safe.set (moves_opStarted o) ?_
      exact Code.Safe.semV (moves_giveOp o true .nothing) (Or.inl ⟨rfl, rfl⟩)
  | false =>
      refine ⟨⟨true, false, .nothing⟩, ?_, ?_⟩
      · rwa [← here, Function.update_eq_self]
      · exact Code.Safe.semV (moves_giveOp o false .nothing) (Or.inr ⟨rfl, rfl⟩)

/-- An operation that is refused, or starts and runs its body. -/
theorem keeps_operation {Q : Int → Hold → Prop} {c : VfsCode σ Int}
    (refused : Q VFS_UNUSABLE outside) (body : Keeps o Q c operating) :
    Keeps o Q (do
      let started ← VfsCode.vfsStartOp
      if started ≠ VFS_OK then pure VFS_UNUSABLE else c) outside := by
  refine Code.Safe.bind keeps_startOp ?_
  rintro started h' (⟨rfl, rfl⟩ | ⟨rfl, rfl⟩)
  · exact body
  · exact refused

/-- `vfs_end_op`: the last operation of an unusable VFS hands it over. -/
theorem keeps_endOp :
    Keeps o (fun _ h' => h' = outside) (VfsCode.vfsEndOp : VfsCode σ Unit) operating := by
  refine Code.Safe.semP (moves_takeOp o true (by decide)) ?_
  refine Code.Safe.set (moves_opEnded o) ?_
  refine Code.Safe.assert (fun _ s tr g t shut here => ?_)
    (moves_quiet o _ (fun _ => ⟨rfl, rfl, rfl, rfl⟩) trivial) ?_
  · obtain ⟨T, -, count⟩ := shut.counter
    simp [vfsShared, count]
  refine Code.Safe.gets fun s tr g t shut here => ?_
  cases wake : (!s.vfsUsable && s.vfsOps == 0) with
  | true =>
      simp only [Bool.and_eq_true, Bool.not_eq_true', beq_iff_eq] at wake
      have learned := shut.learn t .drained (by rw [here]; exact wake)
      rw [here] at learned
      refine ⟨_, learned, ?_⟩
      refine Code.Safe.semV (moves_giveUnmount o _ rfl) ?_
      exact Code.Safe.semV (moves_giveOp o false .drained) rfl
  | false =>
      refine ⟨⟨true, false, .nothing⟩, ?_, ?_⟩
      · rwa [← here, Function.update_eq_self]
      · exact Code.Safe.semV (moves_giveOp o false .nothing) rfl

theorem keeps_leave {a : α} (done : Q a outside) :
    Keeps o Q (VfsCode.leave a : VfsCode σ α) operating := by
  refine Code.Safe.bind keeps_endOp ?_
  rintro _ h' rfl
  exact done

end Code

/-! ## The entry points -/

section Entries

variable {o : VfsCall}

/-- A thread with ghost `h` may return `a`. -/
abbrev Done (σ : Type) (o : VfsCall) (a : Int) (h : Hold) : Prop :=
  Discipline.Leaves (shutdown : Discipline (Vfs σ) VfsCheck VfsWrite (Nat × DriverCall) Reply
    VfsCall Hold) o a h

/-- The rest of an entry point keeps the discipline until it returns. -/
abbrev Whole (σ : Type) (o : VfsCall) (c : VfsCode σ Int) (h : Hold) : Prop :=
  Keeps o (Done σ o) c h

theorem leaves (o : VfsCall) (a : Int) : Done σ o a outside :=
  moves_quiet o outside (fun _ => ⟨rfl, rfl, rfl, rfl⟩) trivial

/-- Give the mount table back and leave. -/
theorem keeps_release (a : Int) :
    Whole σ o (do Code.semV .vfsTable; VfsCode.leave a) operating :=
  keeps_semV (Or.inl rfl) (keeps_leave (leaves o a))

/-- Give both tables back and leave. -/
theorem keeps_releaseBoth (a : Int) :
    Whole σ o
      (do Code.semV .openfileTable; Code.semV .vfsTable; VfsCode.leave a) operating :=
  keeps_semV (Or.inr rfl) (keeps_release a)

theorem keeps_mount (fs : Nat) (name : Name) :
    Whole σ o (VfsCode.vfsMount fs name) outside := by
  refine keeps_assert (by simp) (keeps_operation (leaves o _) ?_)
  refine keeps_semP (Or.inl rfl) (Code.Safe.gets_same fun s => ?_)
  cases freeMount s with
  | none => exact keeps_release _
  | some row =>
      refine Code.Safe.gets_same fun s => ?_
      cases findMountpoint s name with
      | some _ => exact keeps_release _
      | none => exact keeps_set (by simp [Quiet]) (keeps_release _)

theorem keeps_unmount (other : o ≠ .deinit) (name : Name) :
    Whole σ o (VfsCode.vfsUnmount name) outside := by
  refine keeps_operation (leaves o _) (keeps_semP (Or.inl rfl) (Code.Safe.gets_same fun s => ?_))
  split
  · exact keeps_release _
  · refine keeps_semP (Or.inr rfl) (Code.Safe.gets_same fun s => ?_)
    split
    · exact keeps_releaseBoth _
    · exact keeps_driver other rfl fun _ => keeps_set (by simp [Quiet]) (keeps_releaseBoth _)

theorem keeps_open (other : o ≠ .deinit) (pathname : Name) :
    Whole σ o (VfsCode.vfsOpen pathname) outside := by
  refine keeps_operation (leaves o _) ?_
  split
  · exact keeps_leave (leaves o _)
  · refine keeps_semP (Or.inl rfl) (keeps_semP (Or.inr rfl) (Code.Safe.gets_same fun s => ?_))
    split
    · exact keeps_releaseBoth _
    · refine Code.Safe.gets_same fun s => ?_
      split
      · exact keeps_releaseBoth _
      · refine keeps_set (by simp [Quiet]) (keeps_semV (Or.inr rfl) (keeps_semV (Or.inl rfl) ?_))
        refine keeps_driver other rfl fun fileid => Code.Safe.ite (fun _ => ?_) (fun _ => ?_)
        · refine keeps_semP (Or.inr rfl) (keeps_set (by simp [Quiet]) ?_)
          exact keeps_semV (Or.inr rfl) (keeps_leave (leaves o _))
        · exact keeps_set (by simp [Quiet]) (keeps_leave (leaves o _))

theorem keeps_close (other : o ≠ .deinit) (file : Int) :
    Whole σ o (VfsCode.vfsClose file) outside := by
  refine keeps_operation (leaves o _) (keeps_semP (Or.inr rfl) ?_)
  refine keeps_verifyOpen (Code.Safe.gets_same fun s => ?_)
  split
  · exact keeps_crash (leaves o _)
  · refine keeps_driver other rfl fun ret => keeps_set (by simp [Quiet]) ?_
    exact keeps_semV (Or.inr rfl) (keeps_leave (leaves o _))

theorem keeps_seek (file seekPosition : Int) :
    Whole σ o (VfsCode.vfsSeek file seekPosition) outside := by
  refine keeps_operation (leaves o _) (keeps_assert (by simp) (keeps_semP (Or.inr rfl) ?_))
  refine keeps_verifyOpen (keeps_set (by simp [Quiet]) ?_)
  exact keeps_semV (Or.inr rfl) (keeps_leave (leaves o _))

theorem keeps_advance (row : Nat) (ret : Int) :
    Keeps o (fun _ h' => h' = operating) (VfsCode.advance row ret : VfsCode σ Unit) operating := by
  unfold VfsCode.advance
  split
  · refine keeps_semP (Or.inr rfl) (keeps_set (by simp [Quiet]) ?_)
    exact keeps_semV (c := pure) (Or.inr rfl) rfl
  · rfl

/-- A transfer: the driver call, then the seek position. -/
theorem keeps_transfer (other : o ≠ .deinit) (fs row : Nat) (request : DriverCall) :
    Whole σ o (do
      let ret ← VfsCode.driver fs request
      VfsCode.advance row ret
      VfsCode.leave ret) operating := by
  refine keeps_driver other rfl fun ret => Code.Safe.bind (keeps_advance row ret) ?_
  rintro _ h' rfl
  exact keeps_leave (leaves o _)

theorem keeps_read (other : o ≠ .deinit) (file : Int) (buffer : Bool) (bufsize : Int) :
    Whole σ o (VfsCode.vfsRead file buffer bufsize) outside := by
  refine keeps_operation (leaves o _) (keeps_verifyOpen (Code.Safe.gets_same fun s => ?_))
  refine keeps_assert (by simp) ?_
  split
  · exact keeps_crash (leaves o _)
  · exact keeps_transfer other _ _ _

theorem keeps_write (other : o ≠ .deinit) (file : Int) (buffer : Option (List Byte))
    (datasize : Int) : Whole σ o (VfsCode.vfsWrite file buffer datasize) outside := by
  refine keeps_operation (leaves o _) (keeps_verifyOpen (Code.Safe.gets_same fun s => ?_))
  refine keeps_assert (by simp) ?_
  split
  · exact keeps_transfer other _ _ _
  · exact keeps_crash (leaves o _)

theorem keeps_onVolume (other : o ≠ .deinit) (volumename : Name) (request : DriverCall) :
    Whole σ o (VfsCode.onVolume volumename request) operating := by
  refine keeps_semP (Or.inl rfl) (Code.Safe.gets_same fun s => ?_)
  split
  · exact keeps_release _
  · exact keeps_driver other rfl fun ret => keeps_release ret

theorem keeps_onPath (other : o ≠ .deinit) (pathname : Name) (request : Name → DriverCall) :
    Whole σ o (VfsCode.onPath pathname request) outside := by
  refine keeps_operation (leaves o _) ?_
  split
  · exact keeps_leave (leaves o _)
  · exact keeps_onVolume other _ _

/-- The ghost of `vfs_deinit` once it may unmount. -/
def sweeping : Hold := ⟨true, false, .drained⟩

theorem keeps_unmountRows (rows : List Nat) :
    Keeps .deinit (fun _ h' => h' = sweeping) (VfsCode.unmountRows rows : VfsCode σ Unit)
      sweeping := by
  induction rows with
  | nil => rfl
  | cons row rows ih =>
      rw [VfsCode.unmountRows]
      refine Code.Safe.gets_same fun s => ?_
      split
      · exact ih
      · rename_i fs _
        exact safe_driver (r := (fs, .unmount)) (Or.inl ⟨rfl, rfl⟩) (moves_forced sweeping rfl fs)
          (fun _ => moves_quiet _ _ (fun _ => ⟨rfl, rfl, rfl, rfl⟩) trivial)
          fun _ => keeps_set (by simp [Quiet]) ih

/-- The second half of `vfs_deinit`. -/
theorem keeps_sweep :
    Keeps .deinit (fun _ h' => h' = outside)
      (do
        Code.semP .vfsTable
        Code.semP .openfileTable
        VfsCode.unmountRows (List.range CONFIG_MAX_FILESYSTEMS)
        Code.semV .openfileTable
        Code.semV .vfsTable
        Code.semV .vfsOp : VfsCode σ Unit) sweeping := by
  refine keeps_semP (Or.inl rfl) (keeps_semP (Or.inr rfl) ?_)
  refine Code.Safe.bind (keeps_unmountRows _) ?_
  rintro _ h' rfl
  refine keeps_semV (Or.inr rfl) (keeps_semV (Or.inl rfl) ?_)
  exact Code.Safe.semV (k := pure) (moves_giveOp _ false .drained) rfl

/-- `vfs_deinit` unmounts when it sees a drained VFS, at once or when it is woken. -/
theorem keeps_deinit : Whole σ .deinit (VfsCall.deinit.code) outside := by
  refine Code.Safe.bind (Q := fun _ h' => h' = outside) ?_ ?_
  · rw [VfsCode.vfsDeinit]
    refine Code.Safe.semP (moves_takeOp _ false (by decide)) ?_
    refine Code.Safe.set (moves_unusable _) ?_
    refine Code.Safe.gets fun s tr g t shut here => ?_
    cases pending : decide (0 < s.vfsOps) with
    | true =>
        refine ⟨⟨true, false, .unusable⟩, ?_, ?_⟩
        · rwa [← here, Function.update_eq_self]
        refine Code.Safe.semV (moves_giveOp _ false .unusable) ?_
        refine Code.Safe.semP (moves_takeUnmount _) ?_
        refine Code.Safe.semP (moves_takeOp _ false (by decide)) ?_
        refine Code.Safe.assert (fun _ s tr g t shut here => ?_)
          (moves_quiet _ _ (fun _ => ⟨rfl, rfl, rfl, rfl⟩) trivial) keeps_sweep
        have drained := shut.drained_of_known (t := t) (by rw [here])
        simpa [vfsShared] using drained.2
    | false =>
        have unusable : s.vfsUsable = false := by
          have knows := shut.knows t
          rw [here] at knows
          exact knows
        obtain ⟨T, -, count⟩ := shut.counter
        have none : s.vfsOps = 0 := by
          have idle := of_decide_eq_false pending
          omega
        have learned := shut.learn t .drained (by rw [here]; exact ⟨unusable, none⟩)
        rw [here] at learned
        exact ⟨_, learned, keeps_sweep⟩
  · rintro _ h' rfl
    exact leaves .deinit 0

theorem keeps_code (o : VfsCall) : Whole σ o o.code outside := by
  cases o with
  | mount fs name => exact keeps_mount fs name
  | unmount name => exact keeps_unmount (by simp) name
  | openFile pathname => exact keeps_open (by simp) pathname
  | close openfile => exact keeps_close (by simp) openfile
  | seek openfile seekPosition => exact keeps_seek openfile seekPosition
  | read openfile buffer bufsize => exact keeps_read (by simp) openfile buffer bufsize
  | write openfile buffer datasize => exact keeps_write (by simp) openfile buffer datasize
  | create pathname size => exact keeps_assert (by simp) (keeps_onPath (by simp) pathname _)
  | remove pathname => exact keeps_onPath (by simp) pathname _
  | getfree filesystem =>
      exact keeps_operation (leaves _ _) (keeps_onVolume (by simp) filesystem _)
  | filecount pathname => exact keeps_onPath (by simp) pathname _
  | file pathname idx => exact keeps_onPath (by simp) pathname _
  | deinit => exact keeps_deinit

end Entries

/-! ## Every run -/

theorem shut_start (internal : Nat → σ) : Shut (vfsInit internal) [] fun _ => outside where
  lock := Or.inl ⟨rfl, fun _ => Bool.false_ne_true⟩
  ghost _ := rfl
  counter := ⟨∅, by simp [inside], rfl⟩
  knows _ := trivial
  wake given := absurd given (Int.lt_irrefl 0)
  closed := by simp [vfsInit]
  forced := by rintro ⟨_, mem, -⟩; cases mem
  logged := ⟨List.Pairwise.nil, by simp, List.Pairwise.nil⟩

theorem entry : shutdown.Entry vfsShared (VfsCall.code (σ := σ)) := by
  rintro o -
  refine ⟨outside, ?_, keeps_code o⟩
  intro s tr g t shut idle _
  have same : g t = outside := idle
  rw [← same, Function.update_eq_self]
  exact shut.log (show Quiet (some .entered) from trivial) t o

theorem explained {internal : Nat → σ} {s : VfsPool σ} (reached : (vfsPool internal).Reachable s) :
    ∃ g, shutdown.Explains vfsShared g s := by
  apply Discipline.explains_reachable (shut_start internal) entry
  exact reached.mono fun _ m _ => by cases m <;> trivial

end Shutdown

/-- **The shutdown protocol.**  In every run of any number of threads in the VFS, some of
them in `vfs_deinit`: the counter counts the operations in progress; its two assertions hold
wherever a thread reaches them; the flag is cleared exactly by `vfs_deinit`, and no operation
starts after that; and once `vfs_deinit` has called a filesystem's `unmount`, the only driver
functions that run or are called are its own unmounts.  No filesystem is unmounted more often than
it was mounted. -/
theorem vfsDeinit_protocol (internal : Nat → σ) (s : VfsPool σ)
    (reached : (vfsPool internal).Reachable s) :
    (∃ T : Finset Nat, (∀ t, t ∈ T ↔ inside t s.trace = true) ∧ s.shared.vfsOps = T.card) ∧
      (∀ t o l next, s.threads t = some (o, .running (.check l next)) →
        l = .opsNonneg ∨ l = .opsZero → vfsShared.holds l s.shared = true) ∧
      (s.shared.vfsUsable = false ↔ ∃ e ∈ s.trace, e.2.2 = .wrote .unusable) ∧
      (s.trace.Pairwise fun new old =>
        new.2.2 = .wrote .opStarted → old.2.2 ≠ .wrote .unusable) ∧
      (∀ t fs, (t, .deinit, .called (fs, .unmount)) ∈ s.trace → ∀ t' o r next,
        s.threads t' = some (o, .waiting r next) → o = .deinit ∧ r.2 = .unmount) ∧
      (s.trace.Pairwise fun new old => ∀ fs r, old.2.1 = .deinit →
        old.2.2 = .called (fs, .unmount) → new.2.2 = .called r →
          new.2.1 = .deinit ∧ r.2 = .unmount) ∧
      ∀ fs, unmounts fs s.trace ≤ mounts fs s.trace := by
  obtain ⟨g, holds⟩ := Shutdown.explained reached
  have shut : Shutdown.Shut s.shared s.trace g := holds.inv
  refine ⟨shut.counter, fun t o l next there must => holds.passes there must, shut.closed,
    shut.logged.order, ?_, ?_, unmounts_le_mounts reached⟩
  · intro t fs called t' o r next there
    have drained := shut.forced ⟨_, called, rfl, _, rfl⟩
    rcases holds.calling there with forced | counted
    · exact forced
    · rw [shut.notCounted drained t'] at counted
      cases counted
  · apply shut.logged.last.imp_of_mem
    intro new old mem _ quiet fs r deinit forced called
    have byDeinit := quiet ⟨deinit, _, forced⟩ r called
    exact ⟨byDeinit, shut.logged.only new mem byDeinit r called⟩

/-- A mount is in progress when `vfs_deinit` arrives; it ends, and hands over. -/
def lateMount : List (Move VfsCall Reply) :=
  .enter 0 (.mount 7 [leftBracket]) :: List.replicate 10 (.step 0) ++
    .enter 1 .deinit :: List.replicate 4 (.step 1) ++ List.replicate 6 (.step 0) ++
      List.replicate 7 (.step 1)

theorem lateMount_forced :
    (((vfsPool fun _ => ()).exec
      { shared := vfsInit fun _ => (), threads := fun _ => none, trace := [] } lateMount).any
        fun s => decide ((s.trace.map fun e => (e.1, e.2.1, match e.2.2 with
          | .called r => some r
          | _ => none)).head? = some (1, .deinit, some (7, .unmount)) ∧
            mounts 7 s.trace = 1)) = true := by
  decide +kernel

/-- Volume 7 is being unmounted by `vfs_deinit`, once, and no driver function runs besides. -/
theorem vfsDeinit_protocol_lateMount :
    ∃ s, (vfsPool fun _ => ()).Reachable s ∧
      (1, .deinit, .called (7, .unmount)) ∈ s.trace ∧ unmounts 7 s.trace ≤ 1 ∧
        ∀ t o r next, s.threads t = some (o, .waiting r next) → o = .deinit ∧ r.2 = .unmount := by
  obtain ⟨s, ran, computed⟩ := (Option.any_eq_true _ _).1 lateMount_forced
  obtain ⟨forced, once⟩ := of_decide_eq_true computed
  have reached : (vfsPool fun _ => ()).Reachable s := (System.Reachable.start rfl).exec ran
  have called : (1, .deinit, .called (7, .unmount)) ∈ s.trace := by
    obtain ⟨e, mem, shape⟩ := List.mem_map.1 (List.mem_of_head? forced)
    obtain ⟨t, o, event⟩ := e
    simp only [Prod.mk.injEq] at shape
    obtain ⟨rfl, rfl, event⟩ := shape
    split at event
    · cases event
      exact mem
    · cases event
  obtain ⟨-, -, -, -, only, -, spent⟩ := vfsDeinit_protocol (fun _ => ()) s reached
  exact ⟨s, reached, called, once ▸ spent 7, only 1 7 called⟩

end Buenos.Fs
