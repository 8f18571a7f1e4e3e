/-
# Kernel.Placement -- where every thread is

The links of the thread table carry the ready list and 127 chains at once.  `Links`
says that they do so without interfering: each is a list, no thread is on two of them.
The lemmas about it say what each list operation of the source does to the lists.

`Placed` adds what the columns of the table say about a thread, and is the invariant
of every interleaving (`placed_reachable`): a thread is on the ready list exactly when
it is READY, on the chain of its resource exactly when `sleeps_on` is set, and the
current thread of a CPU exactly when it is RUNNING or DYING.
-/
import Buenos.Kernel.Thread
import Mathlib.Data.Finset.Card
import Mathlib.Data.Int.Interval

namespace Buenos.Kernel

open Buenos.Lib Buenos.Theory

set_option autoImplicit false

/-- The rows of the table that hold threads other than the idle thread. -/
def IsTid (t : Int) : Prop := 0 < t ∧ t < 32

/-- A list without repetitions has fewer members than the table has rows. -/
theorem length_lt_of_nodup {l : List Int} (nodup : l.Nodup) (tids : ∀ t ∈ l, IsTid t) :
    l.length < CONFIG_MAX_THREADS := by
  have inside : l.toFinset ⊆ Finset.Ioo (0 : Int) 32 := by
    intro t mem
    exact Finset.mem_Ioo.2 (tids t (List.mem_toFinset.1 mem))
  have bound := Finset.card_le_card inside
  rw [List.toFinset_card_of_nodup nodup, Int.card_Ioo] at bound
  unfold CONFIG_MAX_THREADS
  omega

/-- The links carry the ready list `ready` and the chains `chain`, and nothing is on two
lists. -/
structure Links (s : Threads) (ready : List Int) (chain : Nat → List Int) : Prop where
  readyLinked : Linked s.next s.head ready
  tail : s.tail = ready.getLast?.getD (-1)
  chainLinked : ∀ h, Linked s.next (s.sleepqHashtable h) (chain h)
  readyNodup : ready.Nodup
  chainNodup : ∀ h, (chain h).Nodup
  apart : ∀ h, ∀ t ∈ chain h, t ∉ ready
  chainsApart : ∀ h k, h ≠ k → ∀ t ∈ chain h, t ∉ chain k
  readyTids : ∀ t ∈ ready, IsTid t
  chainTids : ∀ h, ∀ t ∈ chain h, IsTid t

/-- The columns that the list operations leave alone. -/
structure SameThreads (s t : Threads) : Prop where
  state : t.state = s.state
  sleepsOn : t.sleepsOn = s.sleepsOn
  current : t.schedulerCurrentThread = s.schedulerCurrentThread
  nextTid : t.nextTid = s.nextTid

namespace Links

variable {s : Threads} {ready : List Int} {chain : Nat → List Int}

/-- The lists do not depend on the other columns. -/
theorem of_eq {t : Threads} (links : Links s ready chain) (next : t.next = s.next)
    (head : t.head = s.head) (tail : t.tail = s.tail)
    (table : t.sleepqHashtable = s.sleepqHashtable) : Links t ready chain where
  readyLinked := by rw [next, head]; exact links.readyLinked
  tail := by rw [tail]; exact links.tail
  chainLinked := fun h => by rw [next, table]; exact links.chainLinked h
  readyNodup := links.readyNodup
  chainNodup := links.chainNodup
  apart := links.apart
  chainsApart := links.chainsApart
  readyTids := links.readyTids
  chainTids := links.chainTids

/-- Appending to the ready list a thread that is on no list. -/
theorem addToReady (links : Links s ready chain) {t : Int} (tid : IsTid t) (notReady : t ∉ ready)
    (notChained : ∀ h, t ∉ chain h) :
    ∃ u, schedulerAddToReadyList t s = .returned ((), u) ∧ Links u (ready ++ [t]) chain ∧
      SameThreads s u ∧ u.sleepqHashtable = s.sleepqHashtable ∧
        ∀ x, x ∉ ready → x ≠ t → u.next x = s.next x := by
  obtain ⟨positive, below⟩ := tid
  have step : schedulerAddToReadyList t s =
      .returned ((), if s.tail < 0 then { s.setNext t (-1) with head := t, tail := t }
        else { (s.setNext s.tail t).setNext t (-1) with tail := t }) := by
    have small : 0 ≤ t ∧ t < 32 := ⟨by omega, below⟩
    simp [schedulerAddToReadyList, Prog.bind_apply, Prog.assert_apply, IDLE_THREAD_TID,
      CONFIG_MAX_THREADS, show t ≠ 0 by omega, small]
  refine ⟨_, step, ?_, ?_, ?_, ?_⟩
  · have fresh : (ready ++ [t]).Nodup := by
      rw [List.nodup_append]
      refine ⟨links.readyNodup, List.nodup_singleton t, ?_⟩
      rintro a mem b single rfl
      rw [List.mem_singleton] at single
      exact notReady (single ▸ mem)
    have apart : ∀ h, ∀ u ∈ chain h, u ∉ ready ++ [t] := by
      intro h u mem inside
      rcases List.mem_append.1 inside with old | new
      · exact links.apart h u mem old
      · rw [List.mem_singleton] at new
        exact notChained h (new ▸ mem)
    have tids : ∀ u ∈ ready ++ [t], IsTid u := by
      intro u mem
      rcases List.mem_append.1 mem with old | new
      · exact links.readyTids u old
      · rw [List.mem_singleton] at new
        exact new ▸ ⟨positive, below⟩
    have last : (ready ++ [t]).getLast?.getD (-1) = t := by simp
    have ne : ∀ h, ∀ u ∈ chain h, u ≠ t := by
      rintro h u mem rfl
      exact notChained h mem
    by_cases empty : s.tail < 0
    · rw [if_pos empty]
      have none : ready = [] := by
        cases found : ready.getLast? with
        | none => simpa using found
        | some p =>
            have := (links.readyTids p (List.mem_of_getLast? found)).1
            have tail := links.tail
            rw [found, Option.getD_some] at tail
            omega
      subst none
      exact
        { readyLinked := Linked.single positive
          tail := last.symm
          chainLinked := fun h => (links.chainLinked h).congr fun u mem =>
            Function.update_of_ne (ne h u mem) _ _
          readyNodup := fresh
          chainNodup := links.chainNodup
          apart := apart
          chainsApart := links.chainsApart
          readyTids := tids
          chainTids := links.chainTids }
    · rw [if_neg empty]
      have tail := links.tail
      obtain ⟨p, found⟩ : ∃ p, ready.getLast? = some p := by
        cases found : ready.getLast? with
        | none =>
            rw [found, Option.getD_none] at tail
            omega
        | some p => exact ⟨p, rfl⟩
      rw [found, Option.getD_some] at tail
      have member := List.mem_of_getLast? found
      exact
        { readyLinked := by
            rw [tail]
            exact links.readyLinked.snoc links.readyNodup found notReady positive
          tail := last.symm
          chainLinked := fun h => (links.chainLinked h).congr fun u mem => by
            have notLast : u ≠ s.tail := by
              rintro rfl
              exact links.apart h _ mem (tail ▸ member)
            simp [Threads.setNext, Function.update_of_ne (ne h u mem),
              Function.update_of_ne notLast]
          readyNodup := fresh
          chainNodup := links.chainNodup
          apart := apart
          chainsApart := links.chainsApart
          readyTids := tids
          chainTids := links.chainTids }
  · split <;> exact ⟨rfl, rfl, rfl, rfl⟩
  · split <;> rfl
  · intro x notReady' ne
    by_cases empty : s.tail < 0
    · rw [if_pos empty]
      exact Function.update_of_ne ne _ _
    · rw [if_neg empty]
      have tail := links.tail
      have notTail : x ≠ s.tail := by
        rintro rfl
        cases found : ready.getLast? with
        | none =>
            rw [found, Option.getD_none] at tail
            omega
        | some p =>
            rw [found, Option.getD_some] at tail
            exact notReady' (tail ▸ List.mem_of_getLast? found)
      simp [Threads.setNext, Function.update_of_ne ne, Function.update_of_ne notTail]

/-- Removing the first ready thread; without one the idle thread is next. -/
theorem removeFirst (links : Links s ready chain) (states : ∀ t ∈ ready, s.state t = .ready) :
    ∃ u, schedulerRemoveFirstReady s = .returned (ready.head?.getD 0, u) ∧
      Links u ready.tail chain ∧ SameThreads s u ∧ u.sleepqHashtable = s.sleepqHashtable := by
  cases ready with
  | nil =>
      have negative := Linked.nil_iff.1 links.readyLinked
      refine ⟨s, ?_, links, ⟨rfl, rfl, rfl, rfl⟩, rfl⟩
      have idle : ¬ s.head = 0 := by omega
      have none : ¬ 0 ≤ s.head := by omega
      simp [schedulerRemoveFirstReady, Prog.bind_apply, Prog.assert_apply, IDLE_THREAD_TID, idle,
        none]
  | cons t rest =>
      obtain ⟨head, positive, linked⟩ := Linked.cons_iff.1 links.readyLinked
      have ready := states t List.mem_cons_self
      have nodup := List.nodup_cons.1 links.readyNodup
      refine ⟨{ s with tail := if s.tail = t then -1 else s.tail, head := s.next s.head }, ?_, ?_,
        ⟨rfl, rfl, rfl, rfl⟩, rfl⟩
      · have idle : ¬ t = 0 := by omega
        have some : 0 ≤ t := by omega
        simp [schedulerRemoveFirstReady, Prog.bind_apply, Prog.assert_apply, IDLE_THREAD_TID, head,
          idle, some, ready]
      · have tail := links.tail
        rw [List.getLast?_cons, Option.getD_some] at tail
        exact
          { readyLinked := by
              rw [head]
              exact linked
            tail := by
              dsimp only [List.tail_cons]
              cases found : rest.getLast? with
              | none =>
                  rw [found, Option.getD_none] at tail
                  rw [if_pos tail, Option.getD_none]
              | some p =>
                  rw [found, Option.getD_some] at tail
                  have ne : p ≠ t := by
                    rintro rfl
                    exact nodup.1 (List.mem_of_getLast? found)
                  rw [if_neg (by rw [tail]; exact ne), Option.getD_some, tail]
            chainLinked := links.chainLinked
            readyNodup := nodup.2
            chainNodup := links.chainNodup
            apart := fun h u mem inside => links.apart h u mem (List.mem_cons_of_mem _ inside)
            chainsApart := links.chainsApart
            readyTids := fun u mem => links.readyTids u (List.mem_cons_of_mem _ mem)
            chainTids := links.chainTids }

/-! ## The chains -/

/-- The lists after chain `h` has become `l`, when the links of the others are kept. -/
theorem setChain {u : Threads} (links : Links s ready chain) {h : Nat} {l : List Int}
    (linked : Linked u.next (u.sleepqHashtable h) l) (nodup : l.Nodup)
    (members : ∀ t ∈ l, IsTid t ∧ t ∉ ready ∧ ∀ k, k ≠ h → t ∉ chain k)
    (kept : ∀ k, k ≠ h → u.sleepqHashtable k = s.sleepqHashtable k ∧
      ∀ t ∈ chain k, u.next t = s.next t)
    (readyKept : ∀ t ∈ ready, u.next t = s.next t) (head : u.head = s.head)
    (tail : u.tail = s.tail) : Links u ready (Function.update chain h l) where
  readyLinked := by
    rw [head]
    exact links.readyLinked.congr readyKept
  tail := by rw [tail]; exact links.tail
  chainLinked := fun k => by
    by_cases same : k = h
    · subst same
      rw [Function.update_self]
      exact linked
    · rw [Function.update_of_ne same, (kept k same).1]
      exact (links.chainLinked k).congr (kept k same).2
  readyNodup := links.readyNodup
  chainNodup := fun k => by
    by_cases same : k = h
    · subst same
      rw [Function.update_self]
      exact nodup
    · rw [Function.update_of_ne same]
      exact links.chainNodup k
  apart := fun k t mem => by
    by_cases same : k = h
    · subst same
      rw [Function.update_self] at mem
      exact (members t mem).2.1
    · rw [Function.update_of_ne same] at mem
      exact links.apart k t mem
  chainsApart := fun k k' ne t mem => by
    by_cases same : k = h
    · subst same
      rw [Function.update_self] at mem
      rw [Function.update_of_ne (Ne.symm ne)]
      exact (members t mem).2.2 k' (Ne.symm ne)
    · rw [Function.update_of_ne same] at mem
      by_cases same' : k' = h
      · subst same'
        rw [Function.update_self]
        intro inside
        exact (members t inside).2.2 k same mem
      · rw [Function.update_of_ne same']
        exact links.chainsApart k k' ne t mem
  readyTids := links.readyTids
  chainTids := fun k t mem => by
    by_cases same : k = h
    · subst same
      rw [Function.update_self] at mem
      exact (members t mem).1
    · rw [Function.update_of_ne same] at mem
      exact links.chainTids k t mem

/-- A thread that is on no list queues itself at the end of its resource's chain. -/
theorem enqueue (links : Links s ready chain) {cpu : Nat} (resource : Word)
    (tid : IsTid (s.schedulerCurrentThread cpu)) (notReady : s.schedulerCurrentThread cpu ∉ ready)
    (notChained : ∀ h, s.schedulerCurrentThread cpu ∉ chain h) :
    ∃ u, sleepqAdd cpu resource s = .returned ((), u) ∧
      Links u ready (Function.update chain (sleepqHash resource)
        (chain (sleepqHash resource) ++ [s.schedulerCurrentThread cpu])) ∧
      SameThreads (s.setSleepsOn (s.schedulerCurrentThread cpu) resource) u := by
  obtain ⟨t, current⟩ : ∃ t, t = s.schedulerCurrentThread cpu := ⟨_, rfl⟩
  obtain ⟨h, hash⟩ : ∃ h, h = sleepqHash resource := ⟨_, rfl⟩
  rw [← current] at tid notReady notChained
  rw [← current, ← hash]
  obtain ⟨positive, below⟩ := tid
  have members : ∀ x ∈ chain h ++ [t], IsTid x ∧ x ∉ ready ∧ ∀ k, k ≠ h → x ∉ chain k := by
    intro x mem
    rcases List.mem_append.1 mem with old | new
    · exact ⟨links.chainTids h x old, links.apart h x old,
        fun k ne => links.chainsApart h k (Ne.symm ne) x old⟩
    · obtain rfl := List.mem_singleton.1 new
      exact ⟨⟨positive, below⟩, notReady, fun k _ => notChained k⟩
  have nodup : (chain h ++ [t]).Nodup := by
    rw [List.nodup_append]
    refine ⟨links.chainNodup h, List.nodup_singleton t, ?_⟩
    rintro x mem y single rfl
    rw [List.mem_singleton] at single
    exact notChained h (single ▸ mem)
  have ne : ∀ k, ∀ x ∈ chain k, x ≠ t := by
    rintro k x mem rfl
    exact notChained k mem
  have neReady : ∀ x ∈ ready, x ≠ t := by
    rintro x mem rfl
    exact notReady mem
  have idle : t ≠ IDLE_THREAD_TID := by
    unfold IDLE_THREAD_TID
    omega
  by_cases empty : s.sleepqHashtable h ≤ 0
  · have none := (links.chainLinked h).eq_nil_of_nonpos empty
    refine ⟨((s.setNext t (-1)).setSleepsOn t resource).setSlot h t, ?_, ?_, ⟨rfl, rfl, rfl, rfl⟩⟩
    · simp [sleepqAdd, Prog.bind_apply, Prog.assert_apply, ← current, ← hash, idle,
        Threads.setNext, Threads.setSleepsOn, empty]
    · refine links.setChain ?_ nodup members ?_ ?_ rfl rfl
      · rw [none]
        simp only [Threads.setSlot, Function.update_self]
        exact Linked.single positive
      · intro k apart
        exact ⟨Function.update_of_ne apart _ _, fun x mem => Function.update_of_ne (ne k x mem) _ _⟩
      · exact fun x mem => Function.update_of_ne (neReady x mem) _ _
  · have linked := links.chainLinked h
    cases chained : chain h with
    | nil =>
        rw [chained] at linked
        have := Linked.nil_iff.1 linked
        omega
    | cons first rest =>
        rw [chained] at linked
        obtain ⟨start, firstPositive, tail⟩ := Linked.cons_iff.1 linked
        have notEmpty : ¬ first ≤ 0 := by omega
        have firstNe : first ≠ t := ne h first (by rw [chained]; exact List.mem_cons_self)
        have kept : Linked (Function.update s.next t (-1)) (s.next first) rest := tail.congr
          fun x mem => Function.update_of_ne
            (ne h x (by rw [chained]; exact List.mem_cons_of_mem _ mem)) _ _
        have short := length_lt_of_nodup (links.chainNodup h) (links.chainTids h)
        rw [chained, List.length_cons] at short
        obtain ⟨stop, -, found⟩ := search_end (fun _ => false) (fun _ _ => rfl) first kept
          (n := CONFIG_MAX_THREADS) (by omega)
        obtain ⟨p, last⟩ : ∃ p, p = rest.getLast?.getD first := ⟨_, rfl⟩
        have lastOf : (chain h).getLast? = some p := by
          rw [chained, List.getLast?_cons, last]
        have member := List.mem_of_getLast? lastOf
        have pNe : p ≠ t := ne h p member
        rw [← last] at found
        refine ⟨((s.setNext t (-1)).setSleepsOn t resource).setNext p t, ?_, ?_,
          ⟨rfl, rfl, rfl, rfl⟩⟩
        · rw [sleepqAdd, Prog.bind_gets_apply, ← current, Prog.bind_modify_apply]
          simp only [Prog.bind_apply, Prog.assert_apply, idle, ne_eq, not_false_eq_true,
            decide_true, if_true, Prog.gets_apply, ← hash, Prog.ite_apply]
          simp only [Threads.setNext, Threads.setSleepsOn, start, notEmpty, if_false,
            Function.update_of_ne firstNe, found, Prog.modify_apply]
        · rw [← chained]
          refine links.setChain ?_ nodup members ?_ ?_ rfl rfl
          · have snoc := (links.chainLinked h).snoc (links.chainNodup h) lastOf (notChained h)
              positive
            rw [Function.update_comm pNe] at snoc
            exact snoc
          · intro k apart
            refine ⟨rfl, fun x mem => ?_⟩
            have xNe : x ≠ p := by
              rintro rfl
              exact links.chainsApart k h apart x mem member
            simp [Threads.setNext, Threads.setSleepsOn, Function.update_of_ne xNe,
              Function.update_of_ne (ne k x mem)]
          · intro x mem
            have xNe : x ≠ p := by
              rintro rfl
              exact links.apart h x member mem
            simp [Threads.setNext, Threads.setSleepsOn, Function.update_of_ne xNe,
              Function.update_of_ne (neReady x mem)]

end Links

/-- What waking `w` does to the columns that say how a thread is. -/
structure Woken (s u : Threads) (w : Int) : Prop where
  state : u.state = if s.state w = .sleeping then Function.update s.state w .ready else s.state
  sleepsOn : u.sleepsOn = Function.update s.sleepsOn w 0
  current : u.schedulerCurrentThread = s.schedulerCurrentThread
  nextTid : u.nextTid = s.nextTid

namespace Links

variable {s : Threads} {ready : List Int} {chain : Nat → List Int}

/-- The chain without `w`, before `w` is made ready. -/
theorem unlink (links : Links s ready chain) {h : Nat} {pre post : List Int} {w : Int}
    (split : chain h = pre ++ w :: post) :
    Links (((if pre.getLast?.getD (-1) ≤ 0 then s.setSlot h (s.next w)
        else s.setNext (pre.getLast?.getD (-1)) (s.next w)).setSleepsOn w 0).setNext w (-1))
      ready (Function.update chain h (pre ++ post)) := by
  have nodup := links.chainNodup h
  have linked := links.chainLinked h
  rw [split] at nodup linked
  have sub : ∀ x ∈ pre ++ post, x ∈ chain h := by
    intro x mem
    rw [split]
    simp only [List.mem_append, List.mem_cons] at mem ⊢
    tauto
  have member : w ∈ chain h := by rw [split]; simp
  have members : ∀ x ∈ pre ++ post, IsTid x ∧ x ∉ ready ∧ ∀ k, k ≠ h → x ∉ chain k :=
    fun x mem => ⟨links.chainTids h x (sub x mem), links.apart h x (sub x mem),
      fun k ne => links.chainsApart h k (Ne.symm ne) x (sub x mem)⟩
  have nodup' : (pre ++ post).Nodup :=
    nodup.sublist (List.Sublist.append_left (List.sublist_cons_self w post) pre)
  have otherChain : ∀ k, k ≠ h → ∀ x ∈ chain k, ∀ y ∈ chain h, x ≠ y := by
    rintro k ne x mem y mem' rfl
    exact links.chainsApart k h ne x mem mem'
  have otherReady : ∀ x ∈ ready, ∀ y ∈ chain h, x ≠ y := by
    rintro x mem y mem' rfl
    exact links.apart h x mem' mem
  cases last : pre.getLast? with
  | none =>
      have none : pre = [] := by simpa using last
      subst none
      simp only [Option.getD_none, show (-1 : Int) ≤ 0 by decide, if_true]
      refine links.setChain ?_ nodup' members ?_ ?_ rfl rfl
      · simp only [Threads.setNext, Threads.setSleepsOn, Threads.setSlot, Function.update_self]
        exact linked.behead nodup
      · exact fun k ne => ⟨Function.update_of_ne ne _ _,
          fun x mem => Function.update_of_ne (otherChain k ne x mem w member) _ _⟩
      · exact fun x mem => Function.update_of_ne (otherReady x mem w member) _ _
  | some p =>
      have inPre := List.mem_of_getLast? last
      have pMember : p ∈ chain h := sub p (List.mem_append_left _ inPre)
      have positive := (links.chainTids h p pMember).1
      simp only [Option.getD_some, show ¬ p ≤ 0 by omega, if_false]
      refine links.setChain ?_ nodup' members ?_ ?_ rfl rfl
      · exact linked.cut nodup last
      · intro k ne
        refine ⟨rfl, fun x mem => ?_⟩
        simp [Threads.setNext, Threads.setSleepsOn,
          Function.update_of_ne (otherChain k ne x mem w member),
          Function.update_of_ne (otherChain k ne x mem p pMember)]
      · intro x mem
        simp [Threads.setNext, Threads.setSleepsOn,
          Function.update_of_ne (otherReady x mem w member),
          Function.update_of_ne (otherReady x mem p pMember)]

/-- **Waking one thread** takes it out of its chain and, if it sleeps, puts it at the end
of the ready list. -/
theorem wake (links : Links s ready chain) {h : Nat} {pre post : List Int} {w : Int}
    (split : chain h = pre ++ w :: post) :
    ∃ u, wakeThread h (pre.getLast?.getD (-1)) w s = .returned ((), u) ∧
      Links u (if s.state w = .sleeping then ready ++ [w] else ready)
        (Function.update chain h (pre ++ post)) ∧
      Woken s u w ∧ ∀ x ∈ post, u.next x = s.next x := by
  obtain ⟨m, mid⟩ : ∃ m, m = ((if pre.getLast?.getD (-1) ≤ 0 then s.setSlot h (s.next w)
        else s.setNext (pre.getLast?.getD (-1)) (s.next w)).setSleepsOn w 0).setNext w (-1) :=
    ⟨_, rfl⟩
  have unlinked := links.unlink split
  rw [← mid] at unlinked
  have nodup := links.chainNodup h
  rw [split] at nodup
  have parts := List.nodup_append.1 nodup
  have member : w ∈ chain h := by rw [split]; simp
  have state : m.state = s.state := by rw [mid]; split <;> rfl
  have sleepsOn : m.sleepsOn = Function.update s.sleepsOn w 0 := by rw [mid]; split <;> rfl
  have current : m.schedulerCurrentThread = s.schedulerCurrentThread := by
    rw [mid]; split <;> rfl
  have nextTid : m.nextTid = s.nextTid := by rw [mid]; split <;> rfl
  have kept : ∀ x ∈ post, m.next x = s.next x := by
    intro x mem
    have neW : x ≠ w := by
      rintro rfl
      exact (List.nodup_cons.1 parts.2.1).1 mem
    have neP : 0 < pre.getLast?.getD (-1) → x ≠ pre.getLast?.getD (-1) := by
      intro positive
      cases last : pre.getLast? with
      | none => simp [last] at positive
      | some p =>
          rw [Option.getD_some]
          rintro rfl
          exact parts.2.2 x (List.mem_of_getLast? last) x (List.mem_cons_of_mem _ mem) rfl
    rw [mid]
    by_cases first : pre.getLast?.getD (-1) ≤ 0
    · rw [if_pos first]
      exact Function.update_of_ne neW _ _
    · rw [if_neg first]
      simp only [Threads.setNext, Threads.setSleepsOn, Function.update_of_ne neW,
        Function.update_of_ne (neP (by omega))]
  have step : wakeThread h (pre.getLast?.getD (-1)) w s =
      if s.state w = .sleeping then schedulerAddToReadyList w (m.setState w .ready)
      else .returned ((), m) := by
    simp only [wakeThread, Prog.bind_modify_apply, Prog.bind_gets_apply, Prog.ite_apply,
      Prog.pure_apply]
    rw [← mid, state]
  rw [step]
  by_cases sleeping : s.state w = .sleeping
  · simp only [sleeping, if_true]
    have links' : Links (m.setState w .ready) ready (Function.update chain h (pre ++ post)) :=
      unlinked.of_eq rfl rfl rfl rfl
    obtain ⟨u, ran, added, same, -, frame⟩ := links'.addToReady (links.chainTids h w member)
      (links.apart h w member) (fun k => by
        by_cases this : k = h
        · subst this
          rw [Function.update_self]
          intro inside
          rcases List.mem_append.1 inside with early | late
          · exact parts.2.2 w early w List.mem_cons_self rfl
          · exact (List.nodup_cons.1 parts.2.1).1 late
        · rw [Function.update_of_ne this]
          exact links.chainsApart h k (Ne.symm this) w member)
    refine ⟨u, ran, added, ⟨?_, ?_, ?_, ?_⟩, ?_⟩
    · rw [same.state, if_pos sleeping, Threads.setState, state]
    · rw [same.sleepsOn]
      exact sleepsOn
    · rw [same.current]
      exact current
    · rw [same.nextTid]
      exact nextTid
    · intro x mem
      have inChain : x ∈ chain h := by
        rw [split]
        exact List.mem_append_right _ (List.mem_cons_of_mem _ mem)
      rw [frame x (links.apart h x inChain) (by
        rintro rfl
        exact (List.nodup_cons.1 parts.2.1).1 mem)]
      exact kept x mem
  · simp only [sleeping, if_false]
    exact ⟨m, rfl, unlinked, ⟨by rw [if_neg sleeping]; exact state, sleepsOn, current, nextTid⟩,
      kept⟩

/-- **`sleepq_wake`** wakes the first thread of the chain that waits for `resource`, if
there is one. -/
theorem sleepqWake_cases (links : Links s ready chain) (resource : Word) :
    ((∀ t ∈ chain (sleepqHash resource), s.sleepsOn t ≠ resource) ∧
        sleepqWake resource s = .returned ((), s)) ∨
      ∃ pre w post u, chain (sleepqHash resource) = pre ++ w :: post ∧
        (∀ t ∈ pre, s.sleepsOn t ≠ resource) ∧ s.sleepsOn w = resource ∧
        sleepqWake resource s = .returned ((), u) ∧
        Links u (if s.state w = .sleeping then ready ++ [w] else ready)
          (Function.update chain (sleepqHash resource) (pre ++ post)) ∧ Woken s u w := by
  obtain ⟨h, hash⟩ : ∃ h, h = sleepqHash resource := ⟨_, rfl⟩
  rw [← hash]
  have short := length_lt_of_nodup (links.chainNodup h) (links.chainTids h)
  have linked := links.chainLinked h
  cases found : (chain h).find? fun t => decide (s.sleepsOn t = resource) with
  | none =>
      left
      rw [List.find?_eq_none] at found
      refine ⟨fun t mem => by simpa using found t mem, ?_⟩
      obtain ⟨stop, negative, walked⟩ := search_end
        (fun t => decide (s.sleepsOn t = resource))
        (fun t mem => by simpa using found t mem) (-1) linked short
      rw [sleepqWake, Prog.bind_gets_apply]
      unfold findWaiter
      rw [← hash, walked]
      simp only [show ¬ 0 < stop by omega, if_false, Prog.pure_apply]
  | some w =>
      right
      rw [List.find?_eq_some_iff_append] at found
      obtain ⟨hit, pre, post, split, missed⟩ := found
      have missed' : ∀ t ∈ pre, decide (s.sleepsOn t = resource) = false := fun t mem => by
        simpa using missed t mem
      rw [split, List.length_append] at short
      have walked := search_found _ missed' hit (-1) (split ▸ linked)
        (n := CONFIG_MAX_THREADS) (by omega)
      have positive : 0 < w := (links.chainTids h w (by rw [split]; simp)).1
      obtain ⟨u, ran, links', woken, -⟩ := links.wake split
      refine ⟨pre, w, post, u, split, fun t mem => by simpa using missed' t mem,
        by simpa using hit, ?_, links', woken⟩
      rw [sleepqWake, Prog.bind_gets_apply]
      unfold findWaiter
      rw [← hash, walked]
      simp only [positive, if_true]
      exact ran

end Links

/-- What waking all of `woken` does to the columns that say how a thread is. -/
structure WokenAll (s u : Threads) (woken : List Int) : Prop where
  state : ∀ t, u.state t = if t ∈ woken ∧ s.state t = .sleeping then .ready else s.state t
  sleepsOn : ∀ t, u.sleepsOn t = if t ∈ woken then 0 else s.sleepsOn t
  current : u.schedulerCurrentThread = s.schedulerCurrentThread
  nextTid : u.nextTid = s.nextTid

theorem WokenAll.nil (s : Threads) : WokenAll s s [] :=
  ⟨fun t => by simp, fun t => by simp, rfl, rfl⟩

theorem WokenAll.cons {s m u : Threads} {w : Int} {woken : List Int} (first : Woken s m w)
    (rest : WokenAll m u woken) (fresh : w ∉ woken) : WokenAll s u (w :: woken) where
  state := fun t => by
    rw [rest.state, first.state]
    by_cases same : t = w
    · subst same
      by_cases sleeping : s.state t = .sleeping
      · simp [fresh, sleeping]
      · simp [fresh, sleeping]
    · by_cases sleeping : s.state w = .sleeping
      · simp [same, sleeping]
      · simp [same, sleeping]
  sleepsOn := fun t => by
    rw [rest.sleepsOn, first.sleepsOn]
    by_cases same : t = w
    · subst same
      simp [fresh]
    · simp [same]
  current := rest.current.trans first.current
  nextTid := rest.nextTid.trans first.nextTid

/-- The members of a list that wait for `resource`, and those that do not. -/
def waitersIn (s : Threads) (resource : Word) (l : List Int) : List Int :=
  l.filter fun t => s.sleepsOn t = resource

def othersIn (s : Threads) (resource : Word) (l : List Int) : List Int :=
  l.filter fun t => s.sleepsOn t ≠ resource

def sleepersIn (s : Threads) (l : List Int) : List Int := l.filter fun t => s.state t = .sleeping

/-- The split of a list at its first waiter. -/
theorem waitersIn_split {s : Threads} {resource : Word} {pre : List Int} {w : Int}
    (post : List Int)
    (missed : ∀ t ∈ pre, s.sleepsOn t ≠ resource) (hit : s.sleepsOn w = resource) :
    waitersIn s resource (pre ++ w :: post) = w :: waitersIn s resource post ∧
      othersIn s resource (pre ++ w :: post) = pre ++ othersIn s resource post := by
  have none : pre.filter (fun t => decide (s.sleepsOn t = resource)) = [] := by
    rw [List.filter_eq_nil_iff]
    intro t mem
    simpa using missed t mem
  have all : pre.filter (fun t => decide (s.sleepsOn t ≠ resource)) = pre := by
    rw [List.filter_eq_self]
    intro t mem
    simpa using missed t mem
  unfold waitersIn othersIn
  constructor
  · rw [List.filter_append, none, List.filter_cons_of_pos (by simpa using hit), List.nil_append]
  · rw [List.filter_append, all, List.filter_cons_of_neg (by simpa using hit)]

theorem waitersIn_of_missed {s : Threads} {resource : Word} {l : List Int}
    (missed : ∀ t ∈ l, s.sleepsOn t ≠ resource) :
    waitersIn s resource l = [] ∧ othersIn s resource l = l := by
  unfold waitersIn othersIn
  rw [List.filter_eq_nil_iff, List.filter_eq_self]
  exact ⟨fun t mem => by simpa using missed t mem, fun t mem => by simpa using missed t mem⟩

/-- Waking a thread does not change what the rest of its chain waits for. -/
theorem Woken.filters {s u : Threads} {w : Int} (woken : Woken s u w) (resource : Word)
    {l : List Int} (apart : w ∉ l) :
    waitersIn u resource l = waitersIn s resource l ∧
      othersIn u resource l = othersIn s resource l ∧
        ∀ k : List Int, (∀ t ∈ k, t ∈ l) → sleepersIn u k = sleepersIn s k := by
  have same : ∀ t ∈ l, u.sleepsOn t = s.sleepsOn t := by
    intro t mem
    rw [woken.sleepsOn, Function.update_of_ne]
    rintro rfl
    exact apart mem
  refine ⟨?_, ?_, ?_⟩
  · exact List.filter_congr fun t mem => by rw [same t mem]
  · exact List.filter_congr fun t mem => by rw [same t mem]
  · intro k sub
    apply List.filter_congr
    intro t mem
    have ne : t ≠ w := by
      rintro rfl
      exact apart (sub t mem)
    rw [woken.state]
    split
    · rw [Function.update_of_ne ne]
    · rfl

namespace Links

variable {s : Threads} {ready : List Int} {chain : Nat → List Int}

/-- **The loop of `sleepq_wake_all`**, when the members `kept` of the chain have been
passed and the members `rest` are still to come. -/
theorem wakeAllFrom_runs (resource : Word) (n : Nat) :
    ∀ {s : Threads} {ready : List Int} {chain : Nat → List Int} {kept rest : List Int} {first : Int},
      Links s ready chain → chain (sleepqHash resource) = kept ++ rest →
      (∀ t ∈ kept, s.sleepsOn t ≠ resource) → Linked s.next first rest → rest.length < n →
      ∃ u, wakeAllFrom resource n (kept.getLast?.getD (-1)) first s = .returned ((), u) ∧
        Links u (ready ++ sleepersIn s (waitersIn s resource rest))
          (Function.update chain (sleepqHash resource) (kept ++ othersIn s resource rest)) ∧
        WokenAll s u (waitersIn s resource rest) := by
  induction n with
  | zero =>
      intro s ready chain kept rest first _ _ _ _ long
      omega
  | succ n ih =>
      intro s ready chain kept rest first links split passed linked long
      obtain ⟨h, hash⟩ : ∃ h, h = sleepqHash resource := ⟨_, rfl⟩
      rw [← hash] at split ⊢
      have short := length_lt_of_nodup (links.chainNodup h) (links.chainTids h)
      rw [split, List.length_append] at short
      have done : ∀ missed : ∀ t ∈ rest, s.sleepsOn t ≠ resource,
          Links s (ready ++ sleepersIn s (waitersIn s resource rest))
            (Function.update chain h (kept ++ othersIn s resource rest)) ∧
          WokenAll s s (waitersIn s resource rest) := by
        intro missed
        obtain ⟨none, all⟩ := waitersIn_of_missed missed
        rw [none, all, ← split, Function.update_eq_self]
        exact ⟨by simpa [sleepersIn] using links, .nil s⟩
      cases found : rest.find? fun t => decide (s.sleepsOn t = resource) with
      | none =>
          rw [List.find?_eq_none] at found
          have missed : ∀ t ∈ rest, s.sleepsOn t ≠ resource := fun t mem => by
            simpa using found t mem
          refine ⟨s, ?_, done missed⟩
          obtain ⟨stop, negative, walked⟩ := search_end
            (fun t => decide (s.sleepsOn t = resource))
            (fun t mem => by simpa using found t mem) (kept.getLast?.getD (-1)) linked
            (n := CONFIG_MAX_THREADS) (by omega)
          rw [wakeAllFrom]
          by_cases positive : 0 < first
          · rw [if_pos positive, Prog.bind_gets_apply]
            unfold findWaiter
            rw [walked]
            simp only [show ¬ 0 < stop by omega, if_false, Prog.pure_apply]
          · rw [if_neg positive]
            rfl
      | some w =>
          rw [List.find?_eq_some_iff_append] at found
          obtain ⟨hit, pre, post, restSplit, missed⟩ := found
          have hit' : s.sleepsOn w = resource := by simpa using hit
          have missed' : ∀ t ∈ pre, s.sleepsOn t ≠ resource := fun t mem => by
            simpa using missed t mem
          subst restSplit
          have walked := search_found
            (fun t => decide (s.sleepsOn t = resource)) (fun t mem => by
              simpa using missed' t mem) hit (kept.getLast?.getD (-1)) linked
            (n := CONFIG_MAX_THREADS)
            (by simp only [List.length_append] at short; omega)
          have prevEq : pre.getLast?.getD (kept.getLast?.getD (-1)) =
              (kept ++ pre).getLast?.getD (-1) := by
            rw [List.getLast?_append]
            cases pre.getLast? <;> rfl
          rw [prevEq] at walked
          have split' : chain h = (kept ++ pre) ++ w :: post := by
            rw [split, List.append_assoc]
          have nodup := links.chainNodup h
          rw [split'] at nodup
          have apart : w ∉ post := (List.nodup_cons.1 (List.nodup_append.1 nodup).2.1).1
          have fresh : w ∉ kept ++ pre := fun mem =>
            (List.nodup_append.1 nodup).2.2 w mem w List.mem_cons_self rfl
          have positive : 0 < w := (links.chainTids h w (by rw [split']; simp)).1
          have started : 0 < first := by
            obtain ⟨stop, -, seg⟩ := linked
            cases pre with
            | nil =>
                obtain ⟨rfl, this, -⟩ := seg
                exact this
            | cons x pre =>
                obtain ⟨rfl, this, -⟩ := seg
                exact this
          obtain ⟨m, ran, links', woken, frame⟩ := links.wake split'
          obtain ⟨sameW, sameO, sameS⟩ := woken.filters resource apart
          have tail : Linked m.next (s.next w) post := by
            obtain ⟨stop, negative, seg⟩ := linked
            obtain ⟨mid, -, rfl, -, rest⟩ := Seg.append_iff.1 seg
            exact ⟨stop, negative, rest.congr frame⟩
          have passed' : ∀ t ∈ kept ++ pre, m.sleepsOn t ≠ resource := by
            intro t mem
            have ne : t ≠ w := by
              rintro rfl
              exact fresh mem
            rw [woken.sleepsOn, Function.update_of_ne ne]
            rcases List.mem_append.1 mem with early | late
            · exact passed t early
            · exact missed' t late
          obtain ⟨u, ran', links'', all⟩ := ih links'
            (by rw [← hash, Function.update_self]) passed' tail
            (by simp only [List.length_append, List.length_cons] at long; omega)
          obtain ⟨waiters, others⟩ := waitersIn_split post missed' hit'
          rw [sameW] at all
          refine ⟨u, ?_, ?_, ?_⟩
          · rw [wakeAllFrom, if_pos started, Prog.bind_gets_apply]
            unfold findWaiter
            rw [walked]
            simp only [positive, if_true, Prog.bind_gets_apply]
            rw [← hash, Prog.bind_of_returned ran]
            exact ran'
          · rw [waiters, others]
            rw [← hash, sameW, sameO, Function.update_idem,
              sameS (waitersIn s resource post) fun t mem => (List.mem_filter.1 mem).1,
              List.append_assoc] at links''
            have readyEq : ready ++ sleepersIn s (w :: waitersIn s resource post) =
                (if s.state w = .sleeping then ready ++ [w] else ready) ++
                  sleepersIn s (waitersIn s resource post) := by
              unfold sleepersIn
              by_cases sleeping : s.state w = .sleeping
              · rw [if_pos sleeping, List.filter_cons_of_pos (by simpa using sleeping),
                  List.append_assoc]
                rfl
              · rw [if_neg sleeping, List.filter_cons_of_neg (by simpa using sleeping)]
            rw [readyEq]
            exact links''
          · rw [waiters]
            exact all.cons woken fun mem => apart (List.mem_filter.1 mem).1

/-- **`sleepq_wake_all`** wakes all threads of the chain that wait for `resource`. -/
theorem sleepqWakeAll_runs (links : Links s ready chain) (resource : Word) :
    ∃ u, sleepqWakeAll resource s = .returned ((), u) ∧
      Links u (ready ++ sleepersIn s (waitersIn s resource (chain (sleepqHash resource))))
        (Function.update chain (sleepqHash resource)
          (othersIn s resource (chain (sleepqHash resource)))) ∧
      WokenAll s u (waitersIn s resource (chain (sleepqHash resource))) := by
  have short := length_lt_of_nodup (links.chainNodup (sleepqHash resource))
    (links.chainTids (sleepqHash resource))
  have runs := @wakeAllFrom_runs resource CONFIG_MAX_THREADS s ready chain []
    (chain (sleepqHash resource)) (s.sleepqHashtable (sleepqHash resource))
  exact runs links rfl (by simp) (links.chainLinked _) short

end Links

end Buenos.Kernel
