/-
# Net.PopPages -- who owns a frame's page

A page belongs to the pool, to another part of the kernel, to the thread that
allocated it or to a queue slot.  A slot whose frame has been freed still points to
the page until the pointer is overwritten or cleared; it is `Dead` and owns nothing.

The service thread gives up its locks before it discards a frame, and it marks a
slot busy only for a transfer.  So a push on a full queue can evict the very slot
that is being discarded.  Without that (`EvictsOther`) every page has one owner.
-/
import Buenos.Net.Pop
import Buenos.Theory.Exclusive

namespace Buenos.Net

open Buenos.Lib Buenos.Theory

set_option autoImplicit false

/-- The page a thread has allocated and not yet given away. -/
def Thread.page : Thread → Option Nat
  | .idle | .stored => none
  | .holding p | .filled p | .scanning p | .chosen p _ | .evicted p _ | .refused p => some p

/-- The page whose frame a thread is pushing. -/
def Thread.carries : Thread → Option Nat
  | .filled p | .scanning p | .chosen p _ | .evicted p _ => some p
  | .idle | .stored | .holding _ | .refused _ => none

/-- Between `semaphore_P` and `semaphore_V` of `pop_queue_sem`. -/
def Thread.locking : Thread → Bool
  | .scanning _ | .chosen _ _ | .evicted _ _ => true
  | _ => false

/-- The slot the service thread is working on. -/
def Service.slot : Service → Option Nat
  | .discard k _ | .discarded k | .transfer _ k _ _ _ => some k
  | .ready | .waiting => none

/-- The page the service thread has yet to free. -/
def Service.page : Service → Option Nat
  | .discard _ p => some p
  | .transfer .wake _ _ _ _ | .transfer .clear _ _ _ _ => none
  | .transfer _ _ p _ _ => some p
  | .ready | .waiting | .discarded _ => none

/-- The slot whose frame the service thread has freed. -/
def Service.freed : Service → Option Nat
  | .discarded k | .transfer .wake k _ _ _ | .transfer .clear k _ _ _ => some k
  | _ => none

/-- The slot still points to a page that was freed. -/
def Dead (s : State) (i : Nat) : Prop :=
  s.service.freed = some i ∨ ∃ t p, s.threads t = .evicted p i

inductive Owner where
  | pool
  | other
  | thread (t : Nat)
  | slot (i : Nat)
  deriving DecidableEq

def owns (s : State) : Owner → Nat → Prop
  | .pool, p => s.reserved p = false
  | .other, p => s.foreign p = true
  | .thread t, p => (s.threads t).page = some p
  | .slot i, p => i < CONFIG_POP_QUEUE_SIZE ∧ (s.queue i).frame = some p ∧ ¬ Dead s i

/-- Every page has one owner, and no assertion of the page pool has failed. -/
def PagesOwned (s : State) : Prop := s.panicked = false ∧ Exclusive (owns s)

/-- A push does not evict the slot that is being discarded. -/
def EvictsOther (s : State) : Act → Prop
  | .evict t => ∀ p k, s.threads t = .chosen p k →
      (∀ page, s.service ≠ .discard k page) ∧ s.service ≠ .discarded k
  | _ => True

structure PageInv (cfg : Config) (s : State) : Prop where
  sound : s.panicked = false
  one : Exclusive (owns s)
  kernel : ∀ p, p < cfg.staticEnd ∨ cfg.numPages ≤ p → s.foreign p = true
  holder : ∀ t, (s.threads t).locking = true ↔ s.holder = some t
  chosen : ∀ t p k, s.threads t = .chosen p k →
    k < CONFIG_POP_QUEUE_SIZE ∧ ((s.queue k).frame ≠ none → (s.queue k).busy = false)
  evicted : ∀ t p k, s.threads t = .evicted p k →
    k < CONFIG_POP_QUEUE_SIZE ∧ s.service.slot ≠ some k
  serving : ∀ k, s.service.slot = some k →
    k < CONFIG_POP_QUEUE_SIZE ∧ (s.queue k).frame ≠ none ∧
      ∀ p, s.service.page = some p → (s.queue k).frame = some p
  busy : ∀ stage k p bytes wake, s.service = .transfer stage k p bytes wake →
    (s.queue k).busy = true

theorem pageInv_boot {cfg : Config} {s : State} (boot : Boot cfg s) : PageInv cfg s := by
  refine ⟨boot.panicked, ?_, boot.kernel, ?_, ?_, ?_, ?_, ?_⟩
  · intro p
    have none : ∀ o, owns s o p → o = .pool ∨ o = .other := by
      intro o has
      cases o with
      | pool => exact Or.inl rfl
      | other => exact Or.inr rfl
      | thread t => simp [owns, boot.threads, Thread.page] at has
      | slot i => simp [owns, boot.queue] at has
    cases whose : s.foreign p with
    | false =>
        refine ⟨.pool, by simp [owns, boot.reserved, whose], fun o has => ?_⟩
        rcases none o has with rfl | rfl
        · rfl
        · simp [owns, whose] at has
    | true =>
        refine ⟨.other, by simp [owns, whose], fun o has => ?_⟩
        rcases none o has with rfl | rfl
        · simp [owns, boot.reserved, whose] at has
        · rfl
  · intro t
    simp [boot.threads, boot.holder, Thread.locking]
  · intro t p k chosen
    simp [boot.threads] at chosen
  · intro t p k evicted
    simp [boot.threads] at evicted
  · intro k serving
    simp [boot.service, Service.slot] at serving
  · intro stage k p bytes wake serving
    simp [boot.service] at serving

/-! ## Steps in which no page changes hands -/

/-- Nothing that ownership depends on changed, except that threads may have moved on
with their pages. -/
structure SameOwners (s t : State) : Prop where
  reserved : t.reserved = s.reserved
  foreign : t.foreign = s.foreign
  frames : ∀ i, (t.queue i).frame = (s.queue i).frame
  pages : ∀ u, (t.threads u).page = (s.threads u).page
  dead : ∀ i, Dead t i ↔ Dead s i

theorem SameOwners.owns {s t : State} (same : SameOwners s t) (o : Owner) (p : Nat) :
    owns t o p ↔ owns s o p := by
  cases o with
  | pool => simp only [Net.owns, same.reserved]
  | other => simp only [Net.owns, same.foreign]
  | thread u => simp only [Net.owns, same.pages]
  | slot i => simp only [Net.owns, same.frames, same.dead]

/-- Only the sockets, the calls and the service semaphore changed. -/
structure Outside (s t : State) : Prop where
  reserved : t.reserved = s.reserved
  foreign : t.foreign = s.foreign
  panicked : t.panicked = s.panicked
  queue : t.queue = s.queue
  holder : t.holder = s.holder
  threads : t.threads = s.threads
  service : t.service = s.service
  mem : t.mem = s.mem

theorem PageInv.outside {cfg : Config} {s t : State} (inv : PageInv cfg s) (same : Outside s t) :
    PageInv cfg t := by
  obtain ⟨reserved, foreign, panicked, queue, holder, threads, service, -⟩ := same
  have owners : SameOwners s t :=
    ⟨reserved, foreign, fun _ => by rw [queue], fun _ => by rw [threads], fun _ => by
      simp only [Dead, service, threads]⟩
  refine ⟨panicked.trans inv.sound, inv.one.congr owners.owns, ?_, ?_, ?_, ?_, ?_, ?_⟩
  · rw [foreign]; exact inv.kernel
  · rw [threads, holder]; exact inv.holder
  · rw [threads, queue]; exact inv.chosen
  · rw [threads, service]; exact inv.evicted
  · rw [service, queue]; exact inv.serving
  · rw [service, queue]; exact inv.busy

/-! ## Threads that push -/

section Threads

variable {cfg : Config} {s u : State} {t : Nat}

theorem setThread_threads (s : State) (t : Nat) (th : Thread) (v : Nat) :
    (setThread s t th).threads v = if v = t then th else s.threads v := by
  simp [setThread, Function.update_apply]

/-- One thread is inside the critical section exactly if it holds the lock. -/
def Locked (s : State) : Prop := ∀ t, (s.threads t).locking = true ↔ s.holder = some t

section Lock

variable {th : Thread} (locked : Locked s)
  (threads : ∀ v, u.threads v = if v = t then th else s.threads v)
include locked threads

theorem locked_stays (same : th.locking = (s.threads t).locking) (holder : u.holder = s.holder) :
    Locked u := by
  intro v
  rw [threads, holder, ← locked v]
  split
  · rename_i here
    rw [here, same]
  · rfl

theorem locked_takes (free : s.holder = none) (inside : th.locking = true)
    (holder : u.holder = some t) : Locked u := by
  intro v
  rw [threads, holder]
  split
  · rename_i here
    simp [here, inside]
  · rename_i elsewhere
    rw [locked v, free]
    simpa using fun same : t = v => elsewhere same.symm

theorem locked_gives (inside : (s.threads t).locking = true) (outside : th.locking = false)
    (holder : u.holder = none) : Locked u := by
  intro v
  rw [threads, holder]
  split
  · simp [outside]
  · rename_i elsewhere
    rw [locked v, (locked t).1 inside]
    simpa using fun same : t = v => elsewhere same.symm

end Lock

/-- Thread `t` moves on with its page; the queue and the service thread stay where they
were. -/
structure Advances (s u : State) (t : Nat) (th : Thread) : Prop where
  reserved : u.reserved = s.reserved
  foreign : u.foreign = s.foreign
  panicked : u.panicked = s.panicked
  queue : u.queue = s.queue
  service : u.service = s.service
  threads : ∀ v, u.threads v = if v = t then th else s.threads v
  page : th.page = (s.threads t).page
  before : ∀ p k, s.threads t ≠ .evicted p k
  locked : Locked u

theorem PageInv.advances (inv : PageInv cfg s) (th : Thread) (adv : Advances s u t th)
    (chosen : ∀ p k, th = .chosen p k →
      k < CONFIG_POP_QUEUE_SIZE ∧ ((s.queue k).frame ≠ none → (s.queue k).busy = false))
    (evicted : ∀ p k, th ≠ .evicted p k) : PageInv cfg u := by
  have page : ∀ v, (u.threads v).page = (s.threads v).page := by
    intro v
    rw [adv.threads]
    split
    · rename_i same
      rw [same, adv.page]
    · rfl
  have evictedAt : ∀ v p k, u.threads v = .evicted p k ↔ s.threads v = .evicted p k := by
    intro v p k
    rw [adv.threads]
    split
    · rename_i same
      subst same
      exact ⟨fun h => absurd h (evicted p k), fun h => absurd h (adv.before p k)⟩
    · rfl
  have owners : SameOwners s u :=
    ⟨adv.reserved, adv.foreign, fun _ => by rw [adv.queue], page, fun _ => by
      simp only [Dead, adv.service, evictedAt]⟩
  refine ⟨adv.panicked.trans inv.sound, inv.one.congr owners.owns, ?_, adv.locked, ?_, ?_, ?_, ?_⟩
  · rw [adv.foreign]; exact inv.kernel
  · intro v p k at_
    rw [adv.queue]
    rw [adv.threads] at at_
    split at at_
    · exact chosen p k at_
    · exact inv.chosen v p k at_
  · intro v p k at_
    rw [adv.service]
    exact inv.evicted v p k ((evictedAt v p k).1 at_)
  · rw [adv.service, adv.queue]; exact inv.serving
  · rw [adv.service, adv.queue]; exact inv.busy

theorem fill_pageInv (inv : PageInv cfg s) {frame : Frame} (taken : fill s t frame = some u) :
    PageInv cfg u := by
  unfold fill at taken
  split at taken
  · rename_i p at_
    cases taken
    have threads := setThread_threads s t (.filled p)
    exact inv.advances (.filled p)
      ⟨rfl, rfl, rfl, rfl, rfl, threads, by simp [at_, Thread.page], by simp [at_],
        locked_stays inv.holder threads (by simp [at_, Thread.locking]) rfl⟩
      (by simp) (by simp)
  · cases taken

theorem lockQueue_pageInv (inv : PageInv cfg s) (taken : lockQueue s t = some u) :
    PageInv cfg u := by
  unfold lockQueue at taken
  split at taken
  · rename_i p at_ free
    cases taken
    have threads := setThread_threads s t (.scanning p)
    exact inv.advances (.scanning p)
      ⟨rfl, rfl, rfl, rfl, rfl, threads, by simp [at_, Thread.page], by simp [at_],
        locked_takes inv.holder threads free rfl rfl⟩
      (by simp) (by simp)
  · cases taken

theorem freeSlot_some {queue : Nat → PopQueueEntry} {k : Nat} (found : freeSlot queue = some k) :
    k < CONFIG_POP_QUEUE_SIZE ∧ (queue k).frame = none := by
  have member := List.mem_of_find?_eq_some found
  have free := List.find?_some found
  simp only [List.mem_range, decide_eq_true_eq] at member free
  exact ⟨member, free⟩

theorem oldestFrom_some {queue : Nat → PopQueueEntry} (slots : List Nat) {oldest : Option Nat}
    {k : Nat} (found : oldestFrom queue slots oldest = some k) :
    oldest = some k ∨ k ∈ slots ∧ (queue k).busy = false := by
  induction slots generalizing oldest with
  | nil => exact Or.inl found
  | cons i rest ih =>
      have kept : oldestFrom queue rest oldest = some k →
          oldest = some k ∨ k ∈ i :: rest ∧ (queue k).busy = false := fun later =>
        (ih later).imp id fun ⟨member, idle⟩ => ⟨List.mem_cons_of_mem i member, idle⟩
      have taken : (queue i).busy = false → oldestFrom queue rest (some i) = some k →
          oldest = some k ∨ k ∈ i :: rest ∧ (queue k).busy = false := by
        intro idle later
        rcases ih later with same | ⟨member, free⟩
        · cases same
          exact Or.inr ⟨List.mem_cons_self, idle⟩
        · exact Or.inr ⟨List.mem_cons_of_mem i member, free⟩
      unfold oldestFrom at found
      split at found
      · exact kept found
      · rename_i idle
        exact taken idle found
      · rename_i idle
        split at found
        · exact taken idle found
        · exact kept found

theorem chooseSlot_some {queue : Nat → PopQueueEntry} {now : BitVec 32} {k : Nat}
    (found : chooseSlot queue now = some k) :
    k < CONFIG_POP_QUEUE_SIZE ∧ ((queue k).frame ≠ none → (queue k).busy = false) := by
  unfold chooseSlot at found
  split at found
  · rename_i i _ free
    cases found
    obtain ⟨bound, none⟩ := freeSlot_some free
    exact ⟨bound, fun some => absurd none some⟩
  · cases found
  · rename_i j _ oldest
    split at found
    · cases found
    · cases found
      rcases oldestFrom_some _ oldest with none | ⟨member, idle⟩
      · cases none
      · exact ⟨List.mem_range.1 member, fun _ => idle⟩

theorem choose_pageInv (inv : PageInv cfg s) {now : BitVec 32} (taken : choose s t now = some u) :
    PageInv cfg u := by
  unfold choose at taken
  split at taken
  · rename_i p at_
    split at taken
    · rename_i k found
      cases taken
      have threads := setThread_threads s t (.chosen p k)
      refine inv.advances (.chosen p k)
        ⟨rfl, rfl, rfl, rfl, rfl, threads, by simp [at_, Thread.page], by simp [at_],
          locked_stays inv.holder threads (by simp [at_, Thread.locking]) rfl⟩
        (fun p' k' same => ?_) (by simp)
      cases same
      exact chooseSlot_some found
    · cases taken
      have threads := setThread_threads s t (.refused p)
      exact inv.advances (.refused p)
        ⟨rfl, rfl, rfl, rfl, rfl, threads, by simp [at_, Thread.page], by simp [at_],
          locked_gives inv.holder threads (by simp [at_, Thread.locking]) rfl rfl⟩
        (by simp) (by simp)
  · cases taken

theorem signalPush_pageInv (inv : PageInv cfg s) (taken : signalPush s t = some u) :
    PageInv cfg u := by
  unfold signalPush at taken
  split at taken
  · rename_i at_
    cases taken
    have threads := setThread_threads s t .idle
    exact inv.advances .idle
      ⟨rfl, rfl, rfl, rfl, rfl, threads, by simp [at_, Thread.page], by simp [at_],
        locked_stays inv.holder threads (by simp [at_, Thread.locking]) rfl⟩
      (by simp) (by simp)
  · cases taken

theorem firstFreePage_some {p : Nat} (found : firstFreePage cfg s = some p) :
    p < cfg.numPages ∧ s.reserved p = false := by
  have member := List.mem_of_find?_eq_some found
  have free := List.find?_some found
  simp only [List.mem_range, Bool.not_eq_true'] at member free
  exact ⟨member, free⟩

/-- A page that a thread or a slot owns passes the checks of `pagepool_free_phys_page`. -/
theorem freePage_of_owned (inv : PageInv cfg s) {o : Owner} {p : Nat} (has : owns s o p)
    (notPool : o ≠ .pool) (notOther : o ≠ .other) (same : u.reserved = s.reserved) :
    freePage cfg u p = setReserved u p false := by
  have reserved : s.reserved p = true := by
    cases r : s.reserved p with
    | true => rfl
    | false => exact absurd (inv.one.unique has (show owns s .pool p from r)) notPool
  have high : cfg.staticEnd ≤ p := by
    by_contra low
    exact notOther (inv.one.unique has (show owns s .other p from inv.kernel p (Or.inl (by omega))))
  rw [freePage, if_pos ⟨high, same ▸ reserved⟩]

@[simp] theorem setReserved_reserved (p q : Nat) (r : Bool) :
    (setReserved s p r).reserved q = if q = p then r else s.reserved q := by
  simp [setReserved, Function.update_apply]

theorem alloc_pageInv (inv : PageInv cfg s) (taken : alloc cfg s t = some u) : PageInv cfg u := by
  unfold alloc at taken
  split at taken
  · rename_i p at_ found
    cases taken
    obtain ⟨-, free⟩ := firstFreePage_some found
    have only : ∀ o, owns s o p → o = .pool := fun o has =>
      inv.one.unique has (show owns s .pool p from free)
    have threads := setThread_threads (setReserved s p true) t (.holding p)
    have evictedAt : ∀ v p' k, (setThread (setReserved s p true) t (.holding p)).threads v =
        .evicted p' k ↔ s.threads v = .evicted p' k := by
      intro v p' k
      rw [threads]
      split
      · rename_i here
        simp [here, at_]
      · rfl
    have dead : ∀ i, Dead (setThread (setReserved s p true) t (.holding p)) i ↔ Dead s i :=
      fun i => or_congr Iff.rfl (exists_congr fun v => exists_congr fun p' => evictedAt v p' i)
    refine ⟨inv.sound, inv.one.move p (.thread t) ?_ ?_, inv.kernel, ?_, ?_, ?_,
      inv.serving, inv.busy⟩
    · intro o
      cases o with
      | pool => simp [owns, setThread]
      | other =>
          have : s.foreign p ≠ true := fun has => by cases only .other has
          simpa [owns, setThread, setReserved] using this
      | thread v =>
          simp only [owns, threads, Owner.thread.injEq]
          split
          · rename_i here
            simp [here, Thread.page]
          · rename_i elsewhere
            refine iff_of_false (fun has => ?_) elsewhere
            cases only (.thread v) has
      | slot i =>
          refine iff_of_false (fun has => ?_) (by simp)
          cases only (.slot i) ⟨has.1, has.2.1, fun d => has.2.2 ((dead i).2 d)⟩
    · intro o q other
      cases o with
      | pool => simp [owns, setThread, other]
      | other => exact Iff.rfl
      | thread v =>
          simp only [owns, threads]
          split
          · rename_i here
            simp [here, at_, Thread.page, Ne.symm other]
          · rfl
      | slot i => exact and_congr Iff.rfl (and_congr Iff.rfl (not_congr (dead i)))
    · exact locked_stays inv.holder threads (by simp [at_, Thread.locking]) rfl
    · intro v p' k at'
      rw [threads] at at'
      split at at'
      · cases at'
      · exact inv.chosen v p' k at'
    · intro v p' k at'
      exact inv.evicted v p' k ((evictedAt v p' k).1 at')
  · cases taken

/-- Two threads are not in the critical section at once. -/
theorem PageInv.alone (inv : PageInv cfg s) {v w : Nat} (first : (s.threads v).locking = true)
    (second : (s.threads w).locking = true) : v = w := by
  have hv := (inv.holder v).1 first
  rw [(inv.holder w).1 second] at hv
  exact (Option.some.inj hv).symm

/-- The slot about to be evicted is not one the service thread works on. -/
theorem PageInv.not_serving (inv : PageInv cfg s) (other : EvictsOther s (.evict t)) {p k : Nat}
    (at_ : s.threads t = .chosen p k) : s.service.slot ≠ some k := by
  intro serving
  have idle := (inv.chosen t p k at_).2 (inv.serving k serving).2.1
  obtain ⟨notDiscard, notDiscarded⟩ := other p k at_
  cases service : s.service with
  | ready | waiting => simp [service, Service.slot] at serving
  | discard k' page =>
      simp only [service, Service.slot, Option.some.injEq] at serving
      exact notDiscard page (serving ▸ service)
  | discarded k' =>
      simp only [service, Service.slot, Option.some.injEq] at serving
      exact notDiscarded (serving ▸ service)
  | transfer stage k' page bytes wake =>
      simp only [service, Service.slot, Option.some.injEq] at serving
      have busy := inv.busy _ _ _ _ _ service
      rw [serving, idle] at busy
      cases busy

theorem slot_of_freed {service : Service} {k : Nat} (freed : service.freed = some k) :
    service.slot = some k := by
  cases service with
  | transfer stage k' page bytes wake => cases stage <;> simp_all [Service.freed, Service.slot]
  | _ => simp_all [Service.freed, Service.slot]

/-- A slot's page goes back to the pool, and the slot is dead. -/
theorem exclusive_freed {k page : Nat} (one : Exclusive (owns s)) (has : owns s (.slot k) page)
    (reserved : ∀ q, u.reserved q = if q = page then false else s.reserved q)
    (foreign : u.foreign = s.foreign) (frames : ∀ i, (u.queue i).frame = (s.queue i).frame)
    (pages : ∀ v, (u.threads v).page = (s.threads v).page)
    (dead : ∀ i, Dead u i ↔ Dead s i ∨ i = k) : Exclusive (owns u) := by
  have slots : ∀ i q, owns u (.slot i) q ↔ owns s (.slot i) q ∧ i ≠ k := by
    intro i q
    simp only [owns, frames, dead, not_or, ne_eq]
    constructor
    · rintro ⟨bound, frame, alive, other⟩
      exact ⟨⟨bound, frame, alive⟩, other⟩
    · rintro ⟨⟨bound, frame, alive⟩, other⟩
      exact ⟨bound, frame, alive, other⟩
  refine one.move page .pool (fun o => ?_) (fun o q elsewhere => ?_)
  · cases o with
    | pool => simp [owns, reserved]
    | other =>
        refine iff_of_false (fun has' => ?_) (by simp)
        cases one.unique has (show owns s .other page by simpa [owns, foreign] using has')
    | thread v =>
        refine iff_of_false (fun has' => ?_) (by simp)
        cases one.unique has (show owns s (.thread v) page by simpa [owns, pages] using has')
    | slot i =>
        refine iff_of_false (fun has' => ?_) (by simp)
        obtain ⟨before, other⟩ := (slots i page).1 has'
        cases one.unique has before
        exact other rfl
  · cases o with
    | pool => simp [owns, reserved, elsewhere]
    | other => simp [owns, foreign]
    | thread v => simp [owns, pages]
    | slot i =>
        refine (slots i q).trans (and_iff_left_of_imp ?_)
        rintro before rfl
        have same := has.2.1.symm.trans before.2.1
        exact elsewhere (Option.some.inj same).symm

theorem evict_pageInv (inv : PageInv cfg s) (other : EvictsOther s (.evict t))
    (taken : evict cfg s t = some u) : PageInv cfg u := by
  unfold evict at taken
  split at taken
  · rename_i p k at_
    have unserved := inv.not_serving other at_
    have bound := (inv.chosen t p k at_).1
    have threads := setThread_threads s t (.evicted p k)
    have dead : ∀ i, Dead (setThread s t (.evicted p k)) i ↔ Dead s i ∨ i = k := by
      intro i
      simp only [Dead, threads]
      constructor
      · rintro (freed | ⟨v, p', at'⟩)
        · exact Or.inl (Or.inl freed)
        · split at at'
          · cases at'
            exact Or.inr rfl
          · exact Or.inl (Or.inr ⟨v, p', at'⟩)
      · rintro ((freed | ⟨v, p', at'⟩) | rfl)
        · exact Or.inl freed
        · refine Or.inr ⟨v, p', ?_⟩
          rwa [if_neg]
          rintro rfl
          rw [at_] at at'
          cases at'
        · exact Or.inr ⟨t, p, if_pos rfl⟩
    have page : ∀ v, ((setThread s t (.evicted p k)).threads v).page = (s.threads v).page := by
      intro v
      rw [threads]
      split
      · rename_i here
        simp [here, at_, Thread.page]
      · rfl
    have chosen : ∀ v p' k', (setThread s t (.evicted p k)).threads v = .chosen p' k' →
        k' < CONFIG_POP_QUEUE_SIZE ∧ ((s.queue k').frame ≠ none → (s.queue k').busy = false) := by
      intro v p' k' at'
      rw [threads] at at'
      split at at'
      · cases at'
      · exact inv.chosen v p' k' at'
    have evicted : ∀ v p' k', (setThread s t (.evicted p k)).threads v = .evicted p' k' →
        k' < CONFIG_POP_QUEUE_SIZE ∧ s.service.slot ≠ some k' := by
      intro v p' k' at'
      rw [threads] at at'
      split at at'
      · cases at'
        exact ⟨bound, unserved⟩
      · exact inv.evicted v p' k' at'
    have locked : Locked (setThread s t (.evicted p k)) :=
      locked_stays inv.holder threads (by simp [at_, Thread.locking]) rfl
    split at taken
    · rename_i old frame
      cases taken
      have alive : ¬ Dead s k := by
        rintro (freed | ⟨v, p', at'⟩)
        · exact unserved (slot_of_freed freed)
        · have := inv.alone (v := v) (w := t) (by simp [at', Thread.locking])
            (by simp [at_, Thread.locking])
          rw [this, at_] at at'
          cases at'
      have has : owns s (.slot k) old := ⟨bound, frame, alive⟩
      rw [freePage_of_owned (u := setThread s t (.evicted p k)) inv has (by simp) (by simp) rfl]
      exact ⟨inv.sound, exclusive_freed inv.one has (setReserved_reserved old · false) rfl
        (fun _ => rfl) page dead, inv.kernel, locked, chosen, evicted, inv.serving, inv.busy⟩
    · rename_i frame
      cases taken
      refine ⟨inv.sound, inv.one.congr fun o q => ?_, inv.kernel, locked, chosen, evicted,
        inv.serving, inv.busy⟩
      cases o with
      | pool => exact Iff.rfl
      | other => exact Iff.rfl
      | thread v => exact iff_of_eq (congrArg (· = some q) (page v))
      | slot i =>
          refine and_congr Iff.rfl (and_congr_right fun frame' => ?_)
          refine not_congr ((dead i).trans (or_iff_left ?_))
          rintro rfl
          have frame' : (s.queue i).frame = some q := frame'
          rw [frame] at frame'
          cases frame'
  · cases taken

theorem store_pageInv (inv : PageInv cfg s) {now : BitVec 32} (taken : store s t now = some u) :
    PageInv cfg u := by
  unfold store at taken
  split at taken
  · rename_i p k at_
    obtain ⟨bound, unserved⟩ := inv.evicted t p k at_
    cases taken
    have threads := setThread_threads s t .stored
    have inside : (s.threads t).locking = true := by simp [at_, Thread.locking]
    have alone : ∀ v, v ≠ t → (s.threads v).locking = false := by
      intro v elsewhere
      cases other : (s.threads v).locking with
      | false => rfl
      | true => exact absurd (inv.alone other inside) elsewhere
    have deadBefore : ∀ i, Dead s i ↔ s.service.freed = some i ∨ i = k := by
      intro i
      refine or_congr Iff.rfl ⟨?_, ?_⟩
      · rintro ⟨v, p', at'⟩
        have here : v = t := inv.alone (by simp [at', Thread.locking]) inside
        rw [here, at_] at at'
        cases at'
        rfl
      · rintro rfl
        exact ⟨t, p, at_⟩
    have noneInside : ∀ v, ((setThread s t .stored).threads v).locking = false := by
      intro v
      rw [threads]
      split
      · rfl
      · rename_i elsewhere
        exact alone v elsewhere
    have mine : owns s (.thread t) p := by simp [owns, at_, Thread.page]
    refine ⟨inv.sound, inv.one.move p (.slot k) ?_ ?_, inv.kernel,
      locked_gives inv.holder threads inside rfl rfl, ?_, ?_, ?_, ?_⟩
    · intro o
      cases o with
      | pool =>
          refine iff_of_false (fun has => ?_) (by simp)
          cases inv.one.unique mine (show owns s .pool p from has)
      | other =>
          refine iff_of_false (fun has => ?_) (by simp)
          cases inv.one.unique mine (show owns s .other p from has)
      | thread v =>
          refine iff_of_false (fun has => ?_) (by simp)
          simp only [owns, threads] at has
          split at has
          · cases has
          · rename_i elsewhere
            have := inv.one.unique mine (show owns s (.thread v) p from has)
            cases this
            exact elsewhere rfl
      | slot i =>
          by_cases here : i = k
          · subst here
            refine iff_of_true ⟨bound, by simp, ?_⟩ rfl
            rintro (freed | ⟨v, p', at'⟩)
            · exact unserved (slot_of_freed freed)
            · have := noneInside v
              rw [show (setThread s t .stored).threads v = .evicted p' i from at'] at this
              cases this
          · refine iff_of_false (fun has => ?_) (by simpa using here)
            have frame : (s.queue i).frame = some p := by simpa [here] using has.2.1
            have := inv.one.unique mine (show owns s (.slot i) p from ⟨has.1, frame, fun d => by
              rcases (deadBefore i).1 d with freed | same
              · exact has.2.2 (Or.inl freed)
              · exact here same⟩)
            cases this
    · intro o q elsewhere
      cases o with
      | pool => exact Iff.rfl
      | other => exact Iff.rfl
      | thread v =>
          simp only [owns, threads]
          split
          · rename_i here
            simp [here, at_, Thread.page, Ne.symm elsewhere]
          · rfl
      | slot i =>
          by_cases here : i = k
          · subst here
            refine iff_of_false (fun has => ?_) (fun has => ?_)
            · have : some p = some q := by simpa using has.2.1
              exact elsewhere (Option.some.inj this).symm
            · exact has.2.2 ((deadBefore i).2 (Or.inr rfl))
          · refine and_congr Iff.rfl (and_congr (by simp [here]) (not_congr ?_))
            rw [deadBefore]
            refine or_congr Iff.rfl (iff_of_false ?_ here)
            rintro ⟨v, p', at'⟩
            have := noneInside v
            rw [show (setThread s t .stored).threads v = .evicted p' i from at'] at this
            cases this
    · intro v p' k' at'
      have := noneInside v
      rw [show (setThread s t .stored).threads v = .chosen p' k' from at'] at this
      cases this
    · intro v p' k' at'
      have := noneInside v
      rw [show (setThread s t .stored).threads v = .evicted p' k' from at'] at this
      cases this
    · intro k' serving
      have other : k' ≠ k := fun same => unserved (same ▸ serving)
      simpa [other, setThread] using inv.serving k' serving
    · intro stage k' p' bytes wake service
      have other : k' ≠ k := by
        rintro rfl
        exact unserved (by rw [show s.service = _ from service]; rfl)
      simpa [other] using inv.busy stage k' p' bytes wake service
  · cases taken

theorem afterRefusal_pageInv (inv : PageInv cfg s) (taken : afterRefusal cfg s t = some u) :
    PageInv cfg u := by
  unfold afterRefusal at taken
  split at taken
  · rename_i p at_
    split at taken
    · cases taken
      have threads := setThread_threads s t (.holding p)
      exact inv.advances (.holding p)
        ⟨rfl, rfl, rfl, rfl, rfl, threads, by simp [at_, Thread.page], by simp [at_],
          locked_stays inv.holder threads (by simp [at_, Thread.locking]) rfl⟩
        (by simp) (by simp)
    · cases taken
      have threads := setThread_threads s t .idle
      have mine : owns s (.thread t) p := by simp [owns, at_, Thread.page]
      rw [freePage_of_owned (u := setThread s t .idle) inv mine (by simp) (by simp) rfl]
      have evictedAt : ∀ v p' k, (setThread s t .idle).threads v = .evicted p' k ↔
          s.threads v = .evicted p' k := by
        intro v p' k
        rw [threads]
        split
        · rename_i here
          simp [here, at_]
        · rfl
      have dead : ∀ i, Dead (setReserved (setThread s t .idle) p false) i ↔ Dead s i :=
        fun i => or_congr Iff.rfl (exists_congr fun v => exists_congr fun p' => evictedAt v p' i)
      refine ⟨inv.sound, inv.one.move p .pool (fun o => ?_) (fun o q other => ?_),
        inv.kernel, locked_stays inv.holder threads (by simp [at_, Thread.locking]) rfl, ?_, ?_,
        inv.serving, inv.busy⟩
      · cases o with
        | pool => simp [owns]
        | other =>
            refine iff_of_false (fun has => ?_) (by simp)
            cases inv.one.unique mine (show owns s .other p from has)
        | thread v =>
            refine iff_of_false (fun has => ?_) (by simp)
            have has : ((setThread s t .idle).threads v).page = some p := has
            rw [threads] at has
            split at has
            · cases has
            · rename_i elsewhere
              cases inv.one.unique mine (show owns s (.thread v) p from has)
              exact elsewhere rfl
        | slot i =>
            refine iff_of_false (fun has => ?_) (by simp)
            cases inv.one.unique mine (show owns s (.slot i) p from
              ⟨has.1, has.2.1, fun d => has.2.2 ((dead i).2 d)⟩)
      · cases o with
        | pool => simp [owns, other, setThread]
        | other => exact Iff.rfl
        | thread v =>
            show ((setThread s t .idle).threads v).page = some q ↔ _
            rw [threads]
            split
            · rename_i here
              simp [owns, here, at_, Thread.page, Ne.symm other]
            · exact Iff.rfl
        | slot i => exact and_congr Iff.rfl (and_congr Iff.rfl (not_congr (dead i)))
      · intro v p' k at'
        have at' : (setThread s t .idle).threads v = .chosen p' k := at'
        rw [threads] at at'
        split at at'
        · cases at'
        · exact inv.chosen v p' k at'
      · intro v p' k at'
        exact inv.evicted v p' k ((evictedAt v p' k).1 at')
  · cases taken

end Threads

/-! ## Other parts of the kernel -/

section Others

variable {cfg : Config} {s u : State}

theorem otherAlloc_pageInv (inv : PageInv cfg s) (taken : otherAlloc cfg s = some u) :
    PageInv cfg u := by
  obtain ⟨p, found, rfl⟩ := Option.map_eq_some_iff.1 taken
  obtain ⟨-, free⟩ := firstFreePage_some found
  have only : ∀ o, owns s o p → o = .pool := fun o has =>
    inv.one.unique has (show owns s .pool p from free)
  refine ⟨inv.sound, inv.one.move p .other (fun o => ?_) (fun o q other => ?_), ?_,
    inv.holder, inv.chosen, inv.evicted, inv.serving, inv.busy⟩
  · cases o with
    | pool => simp [owns]
    | other => simp [owns]
    | thread v => exact iff_of_false (fun has => by cases only (.thread v) has) (by simp)
    | slot i => exact iff_of_false (fun has => by cases only (.slot i) has) (by simp)
  · cases o with
    | pool => simp [owns, other]
    | other => simp [owns, other]
    | thread v => exact Iff.rfl
    | slot i => exact Iff.rfl
  · intro q kernel
    simp [Function.update_apply, inv.kernel q kernel]

theorem otherFree_pageInv (inv : PageInv cfg s) {p : Nat} (taken : otherFree cfg s p = some u) :
    PageInv cfg u := by
  unfold otherFree at taken
  split at taken
  · rename_i ready
    obtain ⟨low, high, theirs⟩ := ready
    cases taken
    have only : ∀ o, owns s o p → o = .other := fun o has =>
      inv.one.unique has (show owns s .other p from theirs)
    have reserved : s.reserved p = true := by
      cases r : s.reserved p with
      | true => rfl
      | false => cases only .pool r
    rw [freePage, if_pos ⟨low, reserved⟩]
    refine ⟨inv.sound, inv.one.move p .pool (fun o => ?_) (fun o q other => ?_), ?_,
      inv.holder, inv.chosen, inv.evicted, inv.serving, inv.busy⟩
    · cases o with
      | pool => simp [owns]
      | other => simp [owns]
      | thread v => exact iff_of_false (fun has => by cases only (.thread v) has) (by simp)
      | slot i => exact iff_of_false (fun has => by cases only (.slot i) has) (by simp)
    · cases o with
      | pool => simp [owns, other]
      | other => simp [owns, other]
      | thread v => exact Iff.rfl
      | slot i => exact Iff.rfl
    · intro q kernel
      have other : q ≠ p := by omega
      simpa [other, setReserved] using inv.kernel q kernel
  · cases taken

end Others

/-! ## The service thread -/

section Service

variable {cfg : Config} {s u : State}

theorem pick_pageInv (inv : PageInv cfg s) (taken : pick s = some u) : PageInv cfg u := by
  obtain ⟨ready, free, scanned⟩ := pick_scanned taken
  have outside : ∀ v, (s.threads v).locking = false := by
    intro v
    cases inside : (s.threads v).locking with
    | false => rfl
    | true => simpa [free] using (inv.holder v).1 inside
  have threads : u.threads = s.threads := by rw [scanned.rest]
  have freed : u.service.freed = none := by
    cases scanned.picked with
    | nothing service => simp [service, Service.freed]
    | discard k page service _ _ => simp [service, Service.freed]
    | transfer k page x service _ _ _ _ _ _ => simp [service, Service.freed]
  have freedBefore : s.service.freed = none := by rw [ready]; rfl
  have owners : SameOwners s u :=
    ⟨by rw [scanned.rest], by rw [scanned.rest], scanned.frame, fun _ => by rw [threads],
      fun _ => by simp only [Dead, freed, freedBefore, threads]⟩
  refine ⟨by rw [scanned.rest]; exact inv.sound, inv.one.congr owners.owns,
    by rw [scanned.rest]; exact inv.kernel, by rw [scanned.rest]; exact inv.holder, ?_, ?_, ?_, ?_⟩
  · intro v p k at_
    have := outside v
    rw [threads] at at_
    simp [at_, Thread.locking] at this
  · intro v p k at_
    have := outside v
    rw [threads] at at_
    simp [at_, Thread.locking] at this
  · intro k serving
    cases scanned.picked with
    | nothing service => simp [service, Service.slot] at serving
    | discard k' page service member frame =>
        simp only [service, Service.slot, Option.some.injEq] at serving
        subst serving
        exact ⟨List.mem_range.1 member, by simp [scanned.frame, frame],
          by simp [service, Service.page, scanned.frame, frame]⟩
    | transfer k' page x service member frame _ _ _ _ =>
        simp only [service, Service.slot, Option.some.injEq] at serving
        subst serving
        exact ⟨List.mem_range.1 member, by simp [scanned.frame, frame],
          by simp [service, Service.page, scanned.frame, frame]⟩
  · intro stage k p bytes wake serving
    cases scanned.picked with
    | nothing service => rw [service] at serving; cases serving
    | discard k' page service member frame => rw [service] at serving; cases serving
    | transfer k' page x service _ _ busy _ _ _ =>
        rw [service] at serving
        cases serving
        exact busy

/-- The service thread moves on within its action; no page changes hands. -/
structure Serves (s u : State) : Prop where
  reserved : u.reserved = s.reserved
  foreign : u.foreign = s.foreign
  panicked : u.panicked = s.panicked
  queue : u.queue = s.queue
  holder : u.holder = s.holder
  threads : u.threads = s.threads
  slot : u.service.slot = s.service.slot
  page : u.service.page = s.service.page
  freed : u.service.freed = s.service.freed
  busy : ∀ stage k p bytes wake, u.service = .transfer stage k p bytes wake →
    ∃ stage' p' bytes' wake', s.service = .transfer stage' k p' bytes' wake'

theorem PageInv.serves (inv : PageInv cfg s) (same : Serves s u) : PageInv cfg u := by
  have owners : SameOwners s u :=
    ⟨same.reserved, same.foreign, fun _ => by rw [same.queue], fun _ => by rw [same.threads],
      fun _ => by simp only [Dead, same.freed, same.threads]⟩
  refine ⟨same.panicked.trans inv.sound, inv.one.congr owners.owns, ?_, ?_, ?_, ?_, ?_, ?_⟩
  · rw [same.foreign]; exact inv.kernel
  · rw [same.threads, same.holder]; exact inv.holder
  · rw [same.threads, same.queue]; exact inv.chosen
  · rw [same.threads, same.slot]; exact inv.evicted
  · rw [same.slot, same.page, same.queue]; exact inv.serving
  · intro stage k p bytes wake service
    obtain ⟨stage', p', bytes', wake', before⟩ := same.busy stage k p bytes wake service
    rw [same.queue]
    exact inv.busy _ _ _ _ _ before

/-- `network_free_frame(f)` in an action of the service thread. -/
theorem serviceFree_pageInv (inv : PageInv cfg s) {k page : Nat} {service : Service}
    (slot : s.service.slot = some k) (pageOf : s.service.page = some page)
    (alive : s.service.freed = none) (slot' : service.slot = some k) (page' : service.page = none)
    (freed' : service.freed = some k)
    (busy : ∀ stage k p bytes wake, service = .transfer stage k p bytes wake →
      ∃ stage' p' bytes' wake', s.service = .transfer stage' k p' bytes' wake') :
    PageInv cfg (freePage cfg (setService s service) page) := by
  obtain ⟨bound, _, frame⟩ := inv.serving k slot
  have living : ¬ Dead s k := by
    rintro (freed | ⟨v, p, at_⟩)
    · rw [alive] at freed
      cases freed
    · exact (inv.evicted v p k at_).2 slot
  have has : owns s (.slot k) page := ⟨bound, frame page pageOf, living⟩
  rw [freePage_of_owned (u := setService s service) inv has (by simp) (by simp) rfl]
  have dead : ∀ i, Dead (setReserved (setService s service) page false) i ↔ Dead s i ∨ i = k := by
    intro i
    show service.freed = some i ∨ _ ↔ _
    simp only [Dead, alive, freed', Option.some.injEq]
    constructor
    · rintro (rfl | evicted)
      · exact Or.inr rfl
      · exact Or.inl (Or.inr evicted)
    · rintro ((none | evicted) | rfl)
      · cases none
      · exact Or.inr evicted
      · exact Or.inl rfl
  refine ⟨inv.sound, exclusive_freed inv.one has (setReserved_reserved page · false) rfl
    (fun _ => rfl) (fun _ => rfl) dead, inv.kernel, inv.holder, inv.chosen, ?_, ?_, ?_⟩
  · intro v p k' at_
    have := inv.evicted v p k' at_
    exact ⟨this.1, fun same => this.2 (slot.trans (slot'.symm.trans same))⟩
  · intro k' serving
    have here : k = k' := Option.some.inj (slot'.symm.trans serving)
    subst here
    exact ⟨bound, (inv.serving k slot).2.1, fun p yet => by
      rw [show (setReserved (setService s service) page false).service.page = none from page'] at yet
      cases yet⟩
  · intro stage k' p bytes wake same
    obtain ⟨stage', p', bytes', wake', before⟩ := busy stage k' p bytes wake same
    exact inv.busy _ _ _ _ _ before

/-- `pop_queue[slot].frame = NULL` after the frame has been freed. -/
theorem clearSlot_pageInv (inv : PageInv cfg s) {k : Nat} (slot : s.service.slot = some k)
    (freed : s.service.freed = some k) : PageInv cfg (clearSlot s k) := by
  have frame : ∀ i, ((clearSlot s k).queue i).frame = if i = k then none else (s.queue i).frame := by
    intro i
    by_cases here : i = k <;> simp [clearSlot, here]
  have busy : ∀ i, ((clearSlot s k).queue i).busy = (s.queue i).busy := by
    intro i
    by_cases here : i = k
    · subst here; simp [clearSlot]
    · simp [clearSlot, here]
  have dead : ∀ i, i ≠ k → (Dead (clearSlot s k) i ↔ Dead s i) := by
    intro i other
    simp only [Dead, freed, Option.some.injEq, Ne.symm other, false_or]
    exact or_iff_right (by simp [clearSlot, Service.freed])
  refine ⟨inv.sound, inv.one.congr fun o p => ?_, inv.kernel, inv.holder, ?_, ?_, ?_, ?_⟩
  · cases o with
    | pool => exact Iff.rfl
    | other => exact Iff.rfl
    | thread v => exact Iff.rfl
    | slot i =>
        simp only [owns, frame]
        by_cases here : i = k
        · subst here
          simp [Dead, freed]
        · rw [if_neg here, dead i here]
  · intro v p k' at_
    obtain ⟨bound, idle⟩ := inv.chosen v p k' at_
    refine ⟨bound, fun some => ?_⟩
    rw [busy]
    rw [frame] at some
    split at some
    · exact absurd rfl some
    · exact idle some
  · intro v p k' at_
    exact ⟨(inv.evicted v p k' at_).1, by simp [clearSlot, Service.slot]⟩
  · intro k' serving
    simp [clearSlot, Service.slot] at serving
  · intro stage k' p bytes wake serving
    simp [clearSlot] at serving

theorem complete_outside (s : State) (x : Nat) (sem : Semaphore) :
    Outside s (complete s x sem) := by
  unfold complete
  split
  · split <;> exact ⟨rfl, rfl, rfl, rfl, rfl, rfl, rfl, rfl⟩
  · exact ⟨rfl, rfl, rfl, rfl, rfl, rfl, rfl, rfl⟩

theorem transferStep_pageInv (inv : PageInv cfg s) {stage : Stage} {k page bytes x : Nat}
    {wake : Option Nat} (service : s.service = .transfer stage k page bytes wake)
    (taken : transferStep cfg s k page bytes wake x stage = some u) : PageInv cfg u := by
  have slot : s.service.slot = some k := by rw [service]; rfl
  have moves : ∀ {v : State}, v.reserved = s.reserved → v.foreign = s.foreign →
      v.panicked = s.panicked → v.queue = s.queue → v.holder = s.holder →
      v.threads = s.threads → (∃ stage' bytes' wake',
        v.service = .transfer stage' k page bytes' wake' ∧
        v.service.page = s.service.page ∧ v.service.freed = s.service.freed) → PageInv cfg v := by
    rintro v h₁ h₂ h₃ h₄ h₅ h₆ ⟨stage', bytes', wake', at_, samePage, sameFreed⟩
    refine inv.serves ⟨h₁, h₂, h₃, h₄, h₅, h₆, ?_, samePage, sameFreed, ?_⟩
    · rw [at_, slot]; rfl
    · intro _ _ _ _ _ at'
      rw [at_] at at'
      cases at'
      exact ⟨_, _, _, _, service⟩
  cases stage with
  | copy | sender | copied | sport =>
      obtain ⟨c, -, rfl⟩ := Option.map_eq_some_iff.1 taken
      exact moves rfl rfl rfl rfl rfl rfl ⟨_, _, _, rfl, by rw [service]; rfl, by rw [service]; rfl⟩
  | rbuf | bufsize | zeroSender | zeroCopied | zeroSport =>
      cases taken
      exact moves rfl rfl rfl rfl rfl rfl ⟨_, _, _, rfl, by rw [service]; rfl, by rw [service]; rfl⟩
  | free =>
      cases taken
      exact serviceFree_pageInv inv slot (by rw [service]; rfl) (by rw [service]; rfl) rfl rfl rfl
        fun _ _ _ _ _ at_ => by cases at_; exact ⟨_, _, _, _, service⟩
  | wake =>
      obtain ⟨sem, -, rfl⟩ := Option.map_eq_some_iff.1 taken
      obtain ⟨h₁, h₂, h₃, h₄, h₅, h₆, h₇, -⟩ :=
        complete_outside (setService s (.transfer .clear k page bytes wake)) x sem
      exact moves h₁ h₂ h₃ h₄ h₅ h₆
        ⟨_, _, _, h₇, by rw [h₇, service]; rfl, by rw [h₇, service]; rfl⟩
  | clear =>
      cases taken
      exact clearSlot_pageInv inv slot (by rw [service]; rfl)

theorem serve_pageInv (inv : PageInv cfg s) (taken : serve cfg s = some u) : PageInv cfg u := by
  unfold serve at taken
  split at taken
  · cases taken
  · rename_i k page service
    cases taken
    exact serviceFree_pageInv inv (by rw [service]; rfl) (by rw [service]; rfl)
      (by rw [service]; rfl) rfl rfl rfl fun _ _ _ _ _ at_ => by cases at_
  · rename_i k service
    cases taken
    exact clearSlot_pageInv inv (by rw [service]; rfl) (by rw [service]; rfl)
  · rename_i stage k page bytes wake service
    obtain ⟨x, -, taken⟩ := Option.bind_eq_some_iff.1 taken
    exact transferStep_pageInv inv service taken
  · rename_i service
    split at taken
    · cases taken
      exact inv.serves ⟨rfl, rfl, rfl, rfl, rfl, rfl, by rw [service]; rfl, by rw [service]; rfl,
        by rw [service]; rfl, by rintro _ _ _ _ _ ⟨⟩⟩
    · cases taken

end Service

/-! ## Runs -/

section Runs

variable {cfg : Config} {s u : State}

theorem socketOpen_outside (s : State) (protocol : BitVec 8) (port : BitVec 16) (created : Bool) :
    Outside s (socketOpen s protocol port created) := by
  unfold socketOpen
  split
  · exact ⟨rfl, rfl, rfl, rfl, rfl, rfl, rfl, rfl⟩
  · split
    · split <;> exact ⟨rfl, rfl, rfl, rfl, rfl, rfl, rfl, rfl⟩
    · exact ⟨rfl, rfl, rfl, rfl, rfl, rfl, rfl, rfl⟩

theorem socketClose_outside (s : State) (x : Nat) : Outside s (socketClose s x) := by
  unfold socketClose
  split <;> exact ⟨rfl, rfl, rfl, rfl, rfl, rfl, rfl, rfl⟩

theorem register_outside (s : State) (x buflength : Nat) : Outside s (register s x buflength) := by
  unfold register
  split <;> exact ⟨rfl, rfl, rfl, rfl, rfl, rfl, rfl, rfl⟩

theorem signalRecv_outside {c : Nat} (taken : signalRecv s c = some u) : Outside s u := by
  unfold signalRecv at taken
  split at taken
  · cases taken
    exact ⟨rfl, rfl, rfl, rfl, rfl, rfl, rfl, rfl⟩
  · cases taken

theorem awaitComplete_outside {c : Nat} (taken : awaitComplete s c = some u) : Outside s u := by
  unfold awaitComplete at taken
  split at taken
  · obtain ⟨sem, -, rfl⟩ := Option.map_eq_some_iff.1 taken
    split <;> exact ⟨rfl, rfl, rfl, rfl, rfl, rfl, rfl, rfl⟩
  · cases taken

/-- One step keeps every page with one owner, unless it evicts the slot that is being
discarded. -/
theorem pageInv_step {a : Act} (inv : PageInv cfg s) (other : EvictsOther s a)
    (taken : step cfg s a = some u) : PageInv cfg u := by
  unfold step at taken
  rw [inv.sound] at taken
  cases a with
  | alloc t => exact alloc_pageInv inv taken
  | fill t frame => exact fill_pageInv inv taken
  | lockQueue t => exact lockQueue_pageInv inv taken
  | choose t now => exact choose_pageInv inv taken
  | evict t => exact evict_pageInv inv other taken
  | store t now => exact store_pageInv inv taken
  | signalPush t => exact signalPush_pageInv inv taken
  | afterRefusal t => exact afterRefusal_pageInv inv taken
  | socketOpen protocol port created =>
      cases taken
      exact inv.outside (socketOpen_outside s protocol port created)
  | socketClose x =>
      simp only [act, Bool.false_eq_true, if_false] at taken
      split at taken
      · cases taken
        exact inv.outside (socketClose_outside s x)
      · cases taken
  | register x buflength =>
      simp only [act, Bool.false_eq_true, if_false] at taken
      split at taken
      · cases taken
        exact inv.outside (register_outside s x buflength)
      · cases taken
  | signalRecv c => exact inv.outside (signalRecv_outside taken)
  | awaitComplete c => exact inv.outside (awaitComplete_outside taken)
  | pick => exact pick_pageInv inv taken
  | serve => exact serve_pageInv inv taken
  | otherAlloc => exact otherAlloc_pageInv inv taken
  | otherFree p => exact otherFree_pageInv inv taken

/-- **Every frame page has one owner.**  In every run in which no push evicts the slot
that the service thread is discarding, each page belongs to exactly one of the pool,
the thread that allocated it, a queue slot and the rest of the kernel, and no
assertion of the page pool fails. -/
theorem pages_owned (reached : (system cfg).ReachableWhen EvictsOther s) : PagesOwned s := by
  have inv : PageInv cfg s := System.ReachableWhen.invariant (I := PageInv cfg)
    (fun _ boot => pageInv_boot boot) (fun _ _ _ inv other taken => pageInv_step inv other taken)
    reached
  exact ⟨inv.sound, inv.one⟩

end Runs

/-! ## A full queue -/

/-- A machine with forty pages, whose threads are all receivers. -/
def smallMachine : Config where
  numPages := 40
  staticEnd := 1
  receiver _ := true

def booted : State where
  reserved p := p < 1 || 40 ≤ p
  foreign p := p < 1 || 40 ≤ p
  mem _ := ⟨0, 0, 0, 0, 0, []⟩
  panicked := false
  queue _ := ⟨none, none, 0, 0, false⟩
  holder := none
  threads _ := .idle
  sockets _ := ⟨0, 0, none, none, 0, none, none, none⟩
  calls _ := ⟨0, 0, .registered, [], none, none, none, none⟩
  nextCall := 0
  nextSerial := 0
  line _ := []
  service := .ready
  serviceSem := 0

theorem booted_boot : (system smallMachine).initial booted where
  reserved _ := rfl
  kernel p kernel := by
    simp only [smallMachine] at kernel
    simpa [booted] using kernel
  panicked := rfl
  queue _ := rfl
  holder := rfl
  threads _ := rfl
  sockets _ := rfl
  nextCall := rfl
  line _ := rfl
  service := rfl

/-- Four bytes for `port`. -/
def packet (port : BitVec 16) : Frame := ⟨0, 7, 1, port, 4, [1, 2, 3, 4]⟩

/-- Thread `t` receives a frame and pushes it at time `now`. -/
def pushFrame (t : Nat) (frame : Frame) (now : BitVec 32) : List Act :=
  [.alloc t, .fill t frame, .lockQueue t, .choose t now, .evict t, .store t now, .signalPush t]

/-- The queue is full of frames for a port nobody listens to; the service thread picks
the first for discarding, a push evicts it, and the service thread frees it. -/
def evictsDiscarded : List Act :=
  (List.replicate 32 (pushFrame 0 (packet 5) 0)).flatten ++ [.pick] ++ pushFrame 0 (packet 5) 1000 ++
    [.serve]

/-- The page of slot 0 is freed twice. -/
theorem pages_not_owned : ¬ ∀ s, (system smallMachine).Reachable s → PagesOwned s := by
  intro claim
  have run : ((system smallMachine).exec booted evictsDiscarded).any State.panicked = true := by
    decide +kernel
  obtain ⟨s, ran, panicked⟩ := (Option.any_eq_true _ _).1 run
  have reached := (System.Reachable.start booted_boot).exec ran
  rw [(claim s reached).1] at panicked
  cases panicked

/-- Two frames are pushed and one is discarded: all pages have their owners. -/
theorem pages_owned_discard :
    ∃ s, (system smallMachine).exec booted (pushFrame 0 (packet 5) 0 ++ pushFrame 1 (packet 6) 0 ++
        [.pick, .serve, .serve]) = some s ∧ PagesOwned s := by
  obtain ⟨s, ran⟩ : ∃ s, (system smallMachine).exec booted (pushFrame 0 (packet 5) 0 ++
      pushFrame 1 (packet 6) 0 ++ [.pick, .serve, .serve]) = some s :=
    Option.isSome_iff_exists.1 (by decide +kernel)
  refine ⟨s, ran, pages_owned
    ((System.ReachableWhen.start booted_boot).exec ?_ ran)⟩
  refine ⟨trivial, trivial, trivial, trivial, ?_, trivial, trivial, trivial, trivial, trivial, trivial,
    ?_, trivial, trivial, trivial, trivial, trivial, trivial⟩
  · exact fun _ _ _ => ⟨fun _ h => (nomatch h), fun h => (nomatch h)⟩
  · exact fun _ _ _ => ⟨fun _ h => (nomatch h), fun h => (nomatch h)⟩

end Buenos.Net
