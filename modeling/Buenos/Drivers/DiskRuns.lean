/-
# Drivers.DiskRuns -- every run of the disk driver

Whatever threads and interrupts do, the requests that entered the queue are those whose
semaphore was raised, the one that is served and those in the queue, in this order
(`diskQueue`).
-/
import Buenos.Drivers.DiskQueue

namespace Buenos.Drivers.DiskQueue

open Buenos.Lib Buenos.Theory

set_option autoImplicit false

/-! ## The driver between two sections -/

def quiet : Status where
  rbusy := false
  wbusy := false
  rirq := false
  wirq := false

def busyWith : Operation → Status
  | .read => { quiet with rbusy := true }
  | .write => { quiet with wbusy := true }

def completed : Operation → Status
  | .read => { quiet with rirq := true }
  | .write => { quiet with wirq := true }

namespace Driver

/-- The requests in flight, in the order in which they entered. -/
def flight (d : Driver) (queue : List Nat) : List Nat := d.requestServed.toList ++ queue

/-- The disk does nothing, or works on the request served, or has completed it. -/
def Working (d : Driver) : Prop :=
  match d.requestServed with
  | none => d.status = quiet
  | some r =>
      d.status = busyWith (d.request r).operation ∨ d.status = completed (d.request r).operation

structure Sound (d : Driver) (queue : List Nat) : Prop where
  chain : Chain (fun r => (d.request r).next) d.requestQueue queue
  entered : d.entered = d.issued ++ queue.map d.entry
  issued : d.issued = d.raised ++ d.requestServed.toList.map d.entry
  nodup : (d.flight queue).Nodup
  working : d.Working

/-- Only links of requests in flight change. -/
structure Keeps (d d' : Driver) (flight : List Nat) : Prop where
  entry : ∀ r, d'.entry r = d.entry r
  returnValue : ∀ r, (d'.request r).returnValue = (d.request r).returnValue
  next : ∀ r, r ∉ flight → (d'.request r).next = (d.request r).next
  semaphore : d'.semaphore = d.semaphore

variable {d d' : Driver} {queue : List Nat}

theorem Sound.inFlight_eq (sound : d.Sound queue) :
    d.inFlight = (d.flight queue).map d.entry := by
  rw [Driver.inFlight, sound.entered, sound.issued, List.append_assoc, List.drop_left, flight,
    List.map_append]

theorem next_setNext (d : Driver) (r : Nat) (next : Option Nat) :
    (fun q => ((d.setNext r next).request q).next) =
      Function.update (fun q => (d.request q).next) r next := by
  funext q
  by_cases here : q = r
  · subst here
    simp [setNext, setRequest]
  · simp [setNext, setRequest, here]

theorem entry_setNext (d : Driver) (r : Nat) (next : Option Nat) (q : Nat) :
    (d.setNext r next).entry q = d.entry q := by
  by_cases here : q = r
  · subst here
    simp [entry, setNext, setRequest]
  · simp [entry, setNext, setRequest, here]

theorem request_setNext (d : Driver) (r : Nat) (next : Option Nat) (q : Nat) :
    ((d.setNext r next).request q).returnValue = (d.request q).returnValue ∧
      ((d.setNext r next).request q).operation = (d.request q).operation ∧
      (q ≠ r → (d.setNext r next).request q = d.request q) := by
  by_cases here : q = r
  · subst here
    simp [setNext, setRequest]
  · simp [setNext, setRequest, here]

@[simp] theorem serve_request (d : Driver) (r : Nat) :
    (d.serve r).request = (d.setNext r none).request := rfl

theorem serve_entry (d : Driver) (r q : Nat) : (d.serve r).entry q = d.entry q :=
  entry_setNext d r none q

theorem serve_issued (d : Driver) (r : Nat) : (d.serve r).issued = d.issued ++ [d.entry r] :=
  congrArg (fun e => d.issued ++ [e]) (entry_setNext _ r none r)

theorem serve_requestQueue (d : Driver) (r : Nat) : (d.serve r).requestQueue = (d.request r).next := rfl

theorem serve_requestServed (d : Driver) (r : Nat) : (d.serve r).requestServed = some r := rfl

theorem command_quiet (operation : Operation) : quiet.command operation = busyWith operation := by
  cases operation <;> rfl

theorem serve_status (d : Driver) (r : Nat) (idle : d.status = quiet) :
    (d.serve r).status = busyWith ((d.serve r).request r).operation := by
  rw [← command_quiet, ← idle]
  rfl

end Driver

open Driver

variable {rejects : Word → Bool} {d : Driver} {queue : List Nat}

/-! ## The parts of the driver -/

theorem Status.eq_quiet {status : Status} (quiet_ : status = quiet) :
    (status.rbusy || status.wbusy) = false := by
  rw [quiet_]
  rfl

variable (rejects) in
/-- **disk_next_request.**  On an idle disk the first request of the queue is served, and
nothing else happens. -/
theorem diskNextRequest_spec (sound : d.Sound queue) (idle : d.requestServed = none) :
    diskNextRequest rejects d = .error .diskError ∨
      ∃ d' queue', diskNextRequest rejects d = .ok d' ∧ d'.Sound queue' ∧ d.Keeps d' queue ∧
        d'.flight queue' = queue ∧ (d'.requestServed = none → queue' = []) ∧ d'.raised = d.raised := by
  have working := sound.working
  simp only [Driver.Working, idle] at working
  have free := Status.eq_quiet working
  have start := sound.chain.start_eq
  cases queue with
  | nil =>
      have empty : d.requestQueue = none := start
      refine Or.inr ⟨d, [], ?_, sound, ⟨fun _ => rfl, fun _ => rfl, fun _ _ => rfl, rfl⟩, ?_,
        fun _ => rfl, rfl⟩
      · simp [diskNextRequest, free, idle, empty]
      · simp [Driver.flight, idle]
  | cons r rest =>
      have first : d.requestQueue = some r := start
      have chain := sound.chain
      rw [first] at chain
      have nodup : (r :: rest).Nodup := by simpa [Driver.flight, idle] using sound.nodup
      by_cases bad : rejects ((d.serve r).request r).block
      · left
        simp only [diskNextRequest, free, idle, first, bad]
        simp
      · right
        refine ⟨d.serve r, rest, ?_, ⟨?_, ?_, ?_, ?_, ?_⟩, ⟨d.serve_entry r, ?_, ?_, ?_⟩, ?_, ?_, ?_⟩
        · simp only [diskNextRequest, free, idle, first, bad]
          simp
        · rw [serve_request, serve_requestQueue, next_setNext]
          exact chain.behead nodup
        · rw [serve_issued, show (d.serve r).entered = d.entered from rfl, sound.entered,
            List.append_assoc]
          simp [serve_entry]
        · have issued := sound.issued
          rw [idle] at issued
          rw [serve_issued, serve_requestServed, issued, show (d.serve r).raised = d.raised from rfl]
          simp [serve_entry]
        · exact nodup
        · rw [Driver.Working, serve_requestServed]
          exact Or.inl (serve_status d r working)
        · exact fun q => (request_setNext d r none q).1
        · intro q outside
          rw [serve_request, (request_setNext d r none q).2.2 (by rintro rfl; exact outside (by simp))]
        · rfl
        · rfl
        · intro none_
          cases none_
        · rfl

/-- **disksched_schedule.**  The request is behind all others. -/
theorem diskschedSchedule_spec {turns r : Nat} (sound : d.Sound queue) (fresh : r ∉ d.flight queue)
    (last : (d.request r).next = none) (enough : queue.length < turns) :
    ∃ d', diskschedSchedule turns d r = .ok d' ∧ d'.Sound (queue ++ [r]) ∧ d.Keeps d' queue ∧
      d'.requestServed = d.requestServed ∧ d'.raised = d.raised := by
  have outside : r ∉ queue := fun member => fresh (List.mem_append_right _ member)
  have nodup : (d.flight (queue ++ [r])).Nodup := by
    rw [Driver.flight, ← List.append_assoc]
    refine List.nodup_append.2 ⟨sound.nodup, List.nodup_singleton r, ?_⟩
    rintro a first b second rfl
    rw [List.mem_singleton.1 second] at first
    exact fresh first
  have start := sound.chain.start_eq
  rcases List.eq_nil_or_concat queue with rfl | ⟨l, p, rfl⟩
  · have empty : d.requestQueue = none := start
    refine ⟨{ d with entered := d.entered ++ [d.entry r], requestQueue := some r }, ?_,
      ⟨⟨rfl, last⟩, ?_, sound.issued, nodup, sound.working⟩,
      ⟨fun _ => rfl, fun _ => rfl, fun _ _ => rfl, rfl⟩, rfl, rfl⟩
    · simp [diskschedSchedule, empty]
    · have entered := sound.entered
      simp only [List.map_nil, List.append_nil] at entered
      exact congrArg (fun log => log ++ [d.entry r]) entered
  · obtain ⟨q, first⟩ : ∃ q, d.requestQueue = some q := by
      rw [start]
      cases l with
      | nil => exact ⟨_, rfl⟩
      | cons b l => exact ⟨_, rfl⟩
    have chain := sound.chain
    rw [List.concat_eq_append] at *
    have walk : lastFrom (fun r => (d.request r).next) turns q = some p := by
      rw [first] at chain
      exact chain.lastFrom_eq (by simp at enough; omega)
    have apart : r ≠ p := by
      rintro rfl
      exact outside (by simp)
    have same : ({ d with entered := d.entered ++ [d.entry r] }.setNext p (some r)).entry =
        d.entry := funext fun q => entry_setNext _ p _ q
    refine ⟨{ d with entered := d.entered ++ [d.entry r] }.setNext p (some r), ?_,
      ⟨?_, ?_, ?_, nodup, ?_⟩, ⟨?_, ?_, ?_, rfl⟩, rfl, rfl⟩
    · simp only [diskschedSchedule, first, walk]
    · rw [next_setNext]
      exact chain.snoc (List.nodup_append.1 sound.nodup).2.1 outside last
    · rw [same, List.map_append, ← List.append_assoc]
      exact congrArg (fun log => log ++ [d.entry r]) sound.entered
    · rw [same]
      exact sound.issued
    · have working := sound.working
      unfold Driver.Working at working ⊢
      change match d.requestServed with
        | none => d.status = quiet
        | some r' => _
      cases served : d.requestServed with
      | none =>
          rw [served] at working
          exact working
      | some r' =>
          rw [served] at working
          change d.status = busyWith _ ∨ d.status = completed _
          rw [(request_setNext _ p _ r').2.1]
          exact working
    · exact entry_setNext _ p _
    · exact fun q => (request_setNext _ p _ q).1
    · exact fun q away => congrArg Request.next
        ((request_setNext _ p _ q).2.2 (by rintro rfl; exact away (by simp)))

variable (rejects) in
/-- **disk_submit_request** under the spinlock: the request is the last one in flight, and
none waits while the disk is idle. -/
theorem diskSubmit_spec {turns r : Nat} (sound : d.Sound queue)
    (fresh : r ∉ d.flight queue) (last : (d.request r).next = none) (enough : queue.length < turns) :
    diskSubmit rejects turns d r = .error .diskError ∨
      ∃ d' queue', diskSubmit rejects turns d r = .ok d' ∧ d'.Sound queue' ∧
        d.Keeps d' (d.flight queue ++ [r]) ∧ d'.flight queue' = d.flight queue ++ [r] ∧
        (d'.requestServed = none → queue' = []) ∧ d'.raised = d.raised := by
  obtain ⟨d₁, scheduled, sound₁, keeps₁, served₁, raised₁⟩ :=
    diskschedSchedule_spec sound fresh last enough
  have flight₁ : d₁.flight (queue ++ [r]) = d.flight queue ++ [r] := by
    rw [Driver.flight, Driver.flight, served₁, List.append_assoc]
  by_cases idle : d₁.requestServed = none
  · have run : diskSubmit rejects turns d r = diskNextRequest rejects d₁ := by
      simp only [diskSubmit, scheduled, idle, if_true]
    rw [run]
    rcases diskNextRequest_spec rejects sound₁ idle with
      bad | ⟨d₂, queue₂, ran, sound₂, keeps₂, flight₂, serving₂, raised₂⟩
    · exact Or.inl bad
    · have all : d.flight queue = queue := by
        rw [Driver.flight, ← served₁, idle]
        rfl
      refine Or.inr ⟨d₂, queue₂, ran, sound₂, ?_, ?_, serving₂, raised₂.trans raised₁⟩
      · refine ⟨fun q => (keeps₂.entry q).trans (keeps₁.entry q),
          fun q => (keeps₂.returnValue q).trans (keeps₁.returnValue q), ?_,
          keeps₂.semaphore.trans keeps₁.semaphore⟩
        intro q away
        rw [all] at away
        rw [keeps₂.next q away]
        exact keeps₁.next q fun member => away (List.mem_append_left _ member)
      · rw [flight₂, all]
  · refine Or.inr ⟨d₁, queue ++ [r], ?_, sound₁, ?_, flight₁, fun none_ => absurd none_ idle, raised₁⟩
    · simp only [diskSubmit, scheduled, idle, if_false]
    · refine ⟨keeps₁.entry, keeps₁.returnValue, ?_, keeps₁.semaphore⟩
      intro q away
      refine keeps₁.next q fun member => away ?_
      exact List.mem_append_left _ (List.mem_append_right _ member)

/-- The served request is complete and its semaphore raised. -/
def Driver.served (d : Driver) (r i : Nat) : Driver :=
  { Driver.raise
      ({ d with status := { d.status with wirq := false, rirq := false } }.setRequest r
        { d.request r with returnValue := 0 }) r i with
    requestServed := none }

theorem served_request (d : Driver) (r i q : Nat) :
    ((d.served r i).request q).next = (d.request q).next ∧
      (d.served r i).entry q = d.entry q ∧
      ((d.served r i).request q).returnValue =
        if q = r then 0 else (d.request q).returnValue := by
  by_cases here : q = r
  · subst here
    simp [Driver.served, Driver.raise, Driver.setRequest, Driver.entry]
  · simp [Driver.served, Driver.raise, Driver.setRequest, Driver.entry, here]

theorem served_raised (d : Driver) (r i : Nat) : (d.served r i).raised = d.raised ++ [d.entry r] := by
  simp [Driver.served, Driver.raise, Driver.setRequest, Driver.entry]

theorem served_sound {r i : Nat} (sound : d.Sound queue) (serves : d.requestServed = some r)
    (done : d.status = completed (d.request r).operation) : (d.served r i).Sound queue := by
  have entry : (d.served r i).entry = d.entry := funext fun q => (served_request d r i q).2.1
  refine ⟨sound.chain.congr fun q _ => (served_request d r i q).1, ?_, ?_, ?_, ?_⟩
  · rw [entry]
    exact sound.entered
  · have issued := sound.issued
    rw [serves] at issued
    rw [entry, served_raised]
    exact issued.trans (List.append_nil _).symm
  · have nodup := sound.nodup
    rw [Driver.flight, serves] at nodup
    exact (List.nodup_cons.1 nodup).2
  · change ({ d.status with wirq := false, rirq := false } : Status) = quiet
    rw [done]
    cases (d.request r).operation <;> rfl

variable (rejects) in
/-- **disk_interrupt_handle** under the spinlock: nothing happens when the disk has not
completed a command, and otherwise the request served is complete. -/
theorem diskInterruptHandle_spec (sound : d.Sound queue)
    (sems : ∀ r, d.requestServed = some r → ∃ i, (d.request r).sem = some i) :
    ((d.status.rirq || d.status.wirq) = false ∧ diskInterruptHandle rejects d = .ok d) ∨
      ∃ r i, d.requestServed = some r ∧ (d.request r).sem = some i ∧
        (d.status.rirq || d.status.wirq) = true ∧
        (diskInterruptHandle rejects d = .error .diskError ∨
          ∃ d' queue', diskInterruptHandle rejects d = .ok d' ∧ d'.Sound queue' ∧
            (d.served r i).Keeps d' queue ∧ d'.flight queue' = queue ∧
            (d'.requestServed = none → queue' = []) ∧ d'.raised = d.raised ++ [d.entry r]) := by
  cases irq : d.status.rirq || d.status.wirq with
  | false =>
      refine Or.inl ⟨rfl, ?_⟩
      simp only [diskInterruptHandle, irq]
      rfl
  | true =>
      right
      have working := sound.working
      unfold Driver.Working at working
      cases serves : d.requestServed with
      | none =>
          rw [serves] at working
          simp only at working
          rw [working] at irq
          cases irq
      | some r =>
          rw [serves] at working
          obtain ⟨i, sem⟩ := sems r serves
          have done : d.status = completed (d.request r).operation := by
            rcases working with busy | done
            · rw [busy] at irq
              cases operation : (d.request r).operation <;> rw [operation] at irq <;> cases irq
            · exact done
          have run : diskInterruptHandle rejects d = diskNextRequest rejects (d.served r i) := by
            have same : (({ d with status := { d.status with wirq := false, rirq := false } }.setRequest r
                { d.request r with returnValue := 0 }).request r).sem = some i := by
              simp [Driver.setRequest, sem]
            unfold diskInterruptHandle
            rw [irq, Bool.not_true, if_neg Bool.false_ne_true]
            simp only [serves]
            split
            · rename_i none_
              rw [serves] at same
              exact absurd (same.symm.trans none_) (by simp)
            · rename_i j some_
              rw [serves] at same
              have here : i = j := Option.some.inj (same.symm.trans some_)
              rw [← here, Driver.served, serves]
          refine ⟨r, i, rfl, sem, rfl, ?_⟩
          rw [run]
          rcases diskNextRequest_spec rejects (served_sound (i := i) sound serves done) rfl with
            bad | ⟨d', queue', ran, sound', keeps, flight, serving, raised⟩
          · exact Or.inl bad
          · exact Or.inr ⟨d', queue', ran, sound', keeps, flight, serving, raised.trans (served_raised d r i)⟩

/-! ## Threads and semaphores -/

namespace State

/-- What holds of the request and the semaphore of a thread in the driver. -/
def ThreadOk (s : State) (flight : List Nat) (t : Nat) : Phase → Prop
  | .idle => True
  | .ready r semNull =>
      r ∉ flight ∧ (s.driver.request r).next = none ∧ ∃ i, (s.driver.request r).sem = some i ∧
        if semNull then s.use i = .submit t ∧ s.driver.semaphore i = 0 else s.use i = .other
  | .waiting r =>
      ∃ i, (s.driver.request r).sem = some i ∧ s.use i = .submit t ∧
        ((r ∈ flight ∧ s.driver.semaphore i = 0) ∨
          (r ∉ flight ∧ s.driver.semaphore i = 1 ∧ (s.driver.request r).returnValue = 0))
  | .woken r =>
      r ∉ flight ∧ (s.driver.request r).returnValue = 0 ∧
        ∃ i, (s.driver.request r).sem = some i ∧ s.use i = .submit t

/-- A request in flight has a semaphore, of other code or of the thread that waits for it. -/
def FlightOk (s : State) (r : Nat) : Prop :=
  ∃ i, (s.driver.request r).sem = some i ∧
    (s.use i = .other ∨ ∃ t, s.phase t = .waiting r ∧ s.use i = .submit t)

structure Sound (s : State) (queue : List Nat) : Prop where
  driver : s.driver.Sound queue
  serving : s.driver.requestServed = none → queue = []
  flight : ∀ r ∈ s.driver.flight queue, s.FlightOk r
  threads : ∀ t, s.ThreadOk (s.driver.flight queue) t (s.phase t)
  apart : ∀ t t' r, (s.phase t).request = some r → (s.phase t').request = some r → t = t'
  failed : s.failed = false

variable {s s' : State} {flight flight' : List Nat} {t : Nat} {phase : Phase}

/-- **Frame.**  Only its own request and semaphore matter to a thread. -/
theorem ThreadOk.congr (ok : s.ThreadOk flight t phase)
    (request : ∀ r, phase.request = some r → (r ∈ flight' ↔ r ∈ flight) ∧
      (s'.driver.request r).sem = (s.driver.request r).sem ∧
      (s'.driver.request r).returnValue = (s.driver.request r).returnValue ∧
      (r ∉ flight → (s'.driver.request r).next = (s.driver.request r).next))
    (use : ∀ r i, phase.request = some r → (s.driver.request r).sem = some i →
      s'.use i = s.use i ∧ (s.use i = .submit t → s'.driver.semaphore i = s.driver.semaphore i)) :
    s'.ThreadOk flight' t phase := by
  cases phase with
  | idle => trivial
  | ready r semNull =>
      obtain ⟨outside, next, i, sem, own⟩ := ok
      obtain ⟨mem, sameSem, -, sameNext⟩ := request r rfl
      obtain ⟨sameUse, value⟩ := use r i rfl sem
      refine ⟨fun inside => outside (mem.1 inside), (sameNext outside).trans next, i,
        sameSem.trans sem, ?_⟩
      cases semNull with
      | true => exact ⟨sameUse.trans own.1, (value own.1).trans own.2⟩
      | false => exact sameUse.trans own
  | waiting r =>
      obtain ⟨i, sem, own, state⟩ := ok
      obtain ⟨mem, sameSem, sameReturn, -⟩ := request r rfl
      obtain ⟨sameUse, value⟩ := use r i rfl sem
      refine ⟨i, sameSem.trans sem, sameUse.trans own, ?_⟩
      rw [mem, value own, sameReturn]
      exact state
  | woken r =>
      obtain ⟨outside, returned, i, sem, own⟩ := ok
      obtain ⟨mem, sameSem, sameReturn, -⟩ := request r rfl
      exact ⟨fun inside => outside (mem.1 inside), sameReturn.trans returned, i, sameSem.trans sem,
        (use r i rfl sem).1.trans own⟩

/-- The semaphore of a thread is its own, or one of other code. -/
theorem ThreadOk.use {r i : Nat} (ok : s.ThreadOk flight t phase) (holds : phase.request = some r)
    (sem : (s.driver.request r).sem = some i) : s.use i = .submit t ∨ s.use i = .other := by
  have pick : ∀ j, (s.driver.request r).sem = some j → j = i := fun j other =>
    Option.some.inj (other.symm.trans sem)
  cases phase with
  | idle => cases holds
  | ready q semNull =>
      cases holds
      obtain ⟨-, -, j, same, own⟩ := ok
      rw [pick j same] at own
      cases semNull with
      | true => exact Or.inl own.1
      | false => exact Or.inr own
  | waiting q =>
      cases holds
      obtain ⟨j, same, own, -⟩ := ok
      exact Or.inl (pick j same ▸ own)
  | woken q =>
      cases holds
      obtain ⟨-, -, j, same, own⟩ := ok
      exact Or.inl (pick j same ▸ own)

/-- Only a thread that waits has a request in flight. -/
theorem ThreadOk.waiting_of_mem {r : Nat} (ok : s.ThreadOk flight t phase)
    (holds : phase.request = some r) (inside : r ∈ flight) : phase = .waiting r := by
  cases phase with
  | idle => cases holds
  | ready q semNull =>
      cases holds
      exact absurd inside ok.1
  | waiting q =>
      cases holds
      rfl
  | woken q =>
      cases holds
      exact absurd inside ok.1

end State

/-- **Frame.**  Only requests in flight matter to the driver. -/
theorem Driver.Sound.congr {d d' : Driver} (sound : d.Sound queue)
    (request : ∀ r ∈ d.flight queue, d'.request r = d.request r)
    (queue_ : d'.requestQueue = d.requestQueue) (served : d'.requestServed = d.requestServed)
    (status : d'.status = d.status)
    (logs : d'.entered = d.entered ∧ d'.issued = d.issued ∧ d'.raised = d.raised) :
    d'.Sound queue := by
  have entry : ∀ r ∈ d.flight queue, d'.entry r = d.entry r := by
    intro r member
    simp only [Driver.entry, request r member]
  obtain ⟨entered, issued, raised⟩ := logs
  refine ⟨?_, ?_, ?_, ?_, ?_⟩
  · rw [queue_]
    exact sound.chain.congr fun r member =>
      congrArg Request.next (request r (List.mem_append_right _ member))
  · rw [entered, issued, sound.entered]
    refine congrArg _ (List.map_congr_left fun r member => ?_).symm
    exact entry r (List.mem_append_right _ member)
  · rw [issued, raised, served, sound.issued]
    refine congrArg _ (List.map_congr_left fun r member => ?_).symm
    exact entry r (List.mem_append_left _ member)
  · rw [Driver.flight, served]
    exact sound.nodup
  · have working := sound.working
    unfold Driver.Working at working ⊢
    rw [served, status]
    cases serves : d.requestServed with
    | none =>
        rw [serves] at working
        exact working
    | some r =>
        rw [serves] at working
        have same := request r (List.mem_append_left _ (by rw [serves]; simp))
        simp only at working ⊢
        rw [same]
        exact working

/-! ## Every step -/

namespace State

variable {s : State} {t : Nat}

theorem FlightOk.congr {s s' : State} {r : Nat} (ok : s.FlightOk r)
    (sem : (s'.driver.request r).sem = (s.driver.request r).sem)
    (use : ∀ i, s.use i = .other ∨ (∃ t, s.phase t = .waiting r ∧ s.use i = .submit t) →
      s'.use i = s.use i)
    (phase : ∀ t, s.phase t = .waiting r → s'.phase t = .waiting r) : s'.FlightOk r := by
  obtain ⟨i, same, own⟩ := ok
  have stays := use i own
  refine ⟨i, sem.trans same, ?_⟩
  rcases own with other | ⟨t, waits, own⟩
  · exact Or.inl (stays.trans other)
  · exact Or.inr ⟨t, phase t waits, stays.trans own⟩

/-- A thread that touches only its own request, which is not in flight, and its own
semaphore. -/
theorem alone_sound (sound : s.Sound queue) {s' : State} {r : Nat} {phase : Phase}
    (mine : ∀ q, (s.phase t).request = some q → q = r) (outside : r ∉ s.driver.flight queue)
    (unheld : ∀ t', t' ≠ t → (s.phase t').request ≠ some r)
    (request : ∀ q, q ≠ r → s'.driver.request q = s.driver.request q)
    (same : s'.driver.requestQueue = s.driver.requestQueue ∧
      s'.driver.requestServed = s.driver.requestServed ∧ s'.driver.status = s.driver.status ∧
      s'.driver.entered = s.driver.entered ∧ s'.driver.issued = s.driver.issued ∧
      s'.driver.raised = s.driver.raised)
    (use : ∀ i, s.use i ≠ .free → s.use i ≠ .submit t →
      s'.use i = s.use i ∧ s'.driver.semaphore i = s.driver.semaphore i)
    (phases : s'.phase = Function.update s.phase t phase)
    (holds : ∀ q, phase.request = some q → q = r)
    (ok : s'.ThreadOk (s.driver.flight queue) t phase) (failed : s'.failed = s.failed) :
    s'.Sound queue := by
  obtain ⟨sameQueue, served, status, logs⟩ := same
  have flight : s'.driver.flight queue = s.driver.flight queue := by
    rw [Driver.flight, Driver.flight, served]
  have ne : ∀ q ∈ s.driver.flight queue, q ≠ r := by
    rintro q member rfl
    exact outside member
  have old : ∀ t', t' ≠ t → s'.phase t' = s.phase t' := by
    intro t' other
    rw [phases, Function.update_of_ne other]
  have new : s'.phase t = phase := by
    rw [phases, Function.update_self]
  refine ⟨sound.driver.congr (fun q member => request q (ne q member)) sameQueue served status logs,
    fun none_ => sound.serving (served ▸ none_), ?_, ?_, ?_, failed.trans sound.failed⟩
  · intro q member
    rw [flight] at member
    have away : ∀ t', s.phase t' = .waiting q → t' ≠ t := by
      rintro t' waits rfl
      exact ne q member (mine q (by rw [waits]; rfl))
    refine (sound.flight q member).congr (congrArg Request.sem (request q (ne q member))) ?_ ?_
    · rintro i (other | ⟨t', waits, own⟩)
      · exact (use i (by rw [other]; decide) (by rw [other]; simp)).1
      · refine (use i (by rw [own]; simp) ?_).1
        rw [own]
        intro same
        exact away t' waits (Use.submit.inj same)
    · intro t' waits
      rw [old t' (away t' waits)]
      exact waits
  · intro t'
    rw [flight]
    by_cases here : t' = t
    · subst here
      rw [new]
      exact ok
    · rw [old t' here]
      refine (sound.threads t').congr ?_ ?_
      · intro q held
        have apart : q ≠ r := by
          rintro rfl
          exact unheld t' here held
        rw [request q apart]
        exact ⟨Iff.rfl, rfl, rfl, fun _ => rfl⟩
      · intro q i held sem
        have taken : s'.use i = s.use i ∧ s'.driver.semaphore i = s.driver.semaphore i := by
          rcases (sound.threads t').use held sem with own | other
          · refine use i (by rw [own]; simp) ?_
            rw [own]
            intro same
            exact here (Use.submit.inj same)
          · exact use i (by rw [other]; decide) (by rw [other]; simp)
        exact ⟨taken.1, fun _ => taken.2⟩
  · intro t₁ t₂ q first second
    by_cases one : t₁ = t
    · by_cases two : t₂ = t
      · rw [one, two]
      · subst one
        rw [new] at first
        rw [old t₂ two, holds q first] at second
        exact absurd second (unheld t₂ two)
    · by_cases two : t₂ = t
      · subst two
        rw [new] at second
        rw [old t₁ one, holds q second] at first
        exact absurd first (unheld t₁ one)
      · rw [old t₁ one] at first
        rw [old t₂ two] at second
        exact sound.apart t₁ t₂ q first second

/-- The requests in flight and those of threads are disjoint from one that may be used. -/
theorem Sound.not_mem_flight (sound : s.Sound queue) {r : Nat}
    (legal : ∀ e ∈ s.driver.inFlight, e.request ≠ r) : r ∉ s.driver.flight queue := by
  intro member
  rw [sound.driver.inFlight_eq] at legal
  exact legal (s.driver.entry r) (List.mem_map_of_mem member) rfl

end State

theorem step_call {s s' : State} {t r : Nat} {operation : Operation} {block buf : Word}
    {sem created : Option Nat} (sound : s.Sound queue)
    (legal : Legal s (.call t r operation block buf sem created))
    (taken : step rejects s (.call t r operation block buf sem created) = some s') :
    ∃ queue', s'.Sound queue' := by
  obtain ⟨fresh, unheld, own⟩ := legal
  have outside := sound.not_mem_flight fresh
  cases phase : s.phase t with
  | idle =>
      simp only [step, phase] at taken
      have others : ∀ request q, q ≠ r → (s.driver.setRequest r request).request q = s.driver.request q :=
        fun _ q apart => Function.update_of_ne apart _ _
      have mine : ∀ q, (s.phase t).request = some q → q = r := by
        rw [phase]
        intro q held
        cases held
      have away : ∀ t', t' ≠ t → (s.phase t').request ≠ some r := fun t' _ => unheld t'
      cases sem with
      | some i =>
          cases taken
          refine ⟨queue, State.alone_sound sound mine outside away (others _)
            ⟨rfl, rfl, rfl, rfl, rfl, rfl⟩ (fun i _ _ => ⟨rfl, rfl⟩) rfl ?_ ?_ rfl⟩
          · intro q held
            cases held
            rfl
          · refine ⟨outside, ?_, i, ?_, own i rfl⟩
            · simp [State.setPhase, Driver.setRequest]
            · simp [State.setPhase, Driver.setRequest]
      | none =>
          cases created with
          | none =>
              cases taken
              have stays : s.phase = Function.update s.phase t .idle := by
                rw [← phase, Function.update_eq_self]
              refine ⟨queue, State.alone_sound sound mine outside away (others _)
                ⟨rfl, rfl, rfl, rfl, rfl, rfl⟩ (fun i _ _ => ⟨rfl, rfl⟩) stays ?_ trivial rfl⟩
              intro q held
              cases held
          | some i =>
              simp only [Option.ite_none_right_eq_some, Option.some.injEq] at taken
              obtain ⟨free, rfl⟩ := taken
              refine ⟨queue, State.alone_sound sound mine outside away (others _)
                ⟨rfl, rfl, rfl, rfl, rfl, rfl⟩ ?_ rfl ?_ ?_ rfl⟩
              · intro j taken _
                have apart : j ≠ i := by
                  rintro rfl
                  exact taken free
                exact ⟨Function.update_of_ne apart _ _, Function.update_of_ne apart _ _⟩
              · intro q held
                cases held
                rfl
              · refine ⟨outside, ?_, i, ?_, ?_⟩
                · simp [State.setPhase, Driver.setRequest]
                · simp [State.setPhase, Driver.setRequest]
                · simp [State.setPhase]
  | ready q semNull =>
      simp only [step, phase] at taken
      cases taken
  | waiting q =>
      simp only [step, phase] at taken
      cases taken
  | woken q =>
      simp only [step, phase] at taken
      cases taken

theorem entry_eq {d d' : Driver} {r : Nat} (same : d'.entry r = d.entry r) :
    (d'.request r).sem = (d.request r).sem := congrArg Entry.sem same

theorem settle_ok {s : State} {next : Driver → State} {result : Except Stop Driver} {s' : State}
    (good : result = .error .diskError ∨ ∃ d, result = .ok d)
    (taken : s.settle next result = some s') : ∃ d, result = .ok d ∧ s' = next d := by
  rcases good with rfl | ⟨d, rfl⟩
  · cases taken
  · exact ⟨d, rfl, (Option.some.inj taken).symm⟩

/-- The thread is behind the spinlock, and its request is in flight. -/
theorem submitted_sound {s s' : State} {t r : Nat} {semNull : Bool} {queue' : List Nat}
    (sound : s.Sound queue) (phase : s.phase t = .ready r semNull)
    (driver : s'.driver.Sound queue') (keeps : s.driver.Keeps s'.driver (s.driver.flight queue ++ [r]))
    (flight : s'.driver.flight queue' = s.driver.flight queue ++ [r])
    (serving : s'.driver.requestServed = none → queue' = []) (use : s'.use = s.use)
    (phases : s'.phase = Function.update s.phase t (if semNull then .waiting r else .idle))
    (failed : s'.failed = s.failed) : s'.Sound queue' := by
  have mine := sound.threads t
  rw [phase] at mine
  obtain ⟨outside, -, i, sem, own⟩ := mine
  have old : ∀ t', t' ≠ t → s'.phase t' = s.phase t' := by
    intro t' other
    rw [phases, Function.update_of_ne other]
  have new : s'.phase t = if semNull then .waiting r else .idle := by
    rw [phases, Function.update_self]
  have sems : ∀ q, (s'.driver.request q).sem = (s.driver.request q).sem := fun q =>
    entry_eq (keeps.entry q)
  refine ⟨driver, serving, ?_, ?_, ?_, failed.trans sound.failed⟩
  · intro q member
    rw [flight, List.mem_append, List.mem_singleton] at member
    rcases member with before | rfl
    · refine (sound.flight q before).congr (sems q) (fun j _ => congrFun use j) ?_
      intro t' waits
      rw [old t' (by rintro rfl; rw [phase] at waits; cases waits)]
      exact waits
    · refine ⟨i, (sems q).trans sem, ?_⟩
      cases semNull with
      | true => exact Or.inr ⟨t, new, (congrFun use i).trans own.1⟩
      | false => exact Or.inl ((congrFun use i).trans own)
  · intro t'
    rw [flight]
    by_cases here : t' = t
    · subst here
      rw [new]
      cases semNull with
      | true =>
          refine ⟨i, (sems r).trans sem, (congrFun use i).trans own.1, Or.inl ⟨by simp, ?_⟩⟩
          rw [keeps.semaphore]
          exact own.2
      | false => trivial
    · rw [old t' here]
      refine (sound.threads t').congr ?_ ?_
      · intro q held
        have apart : q ≠ r := by
          rintro rfl
          exact here (sound.apart t' t q held (by rw [phase]; rfl))
        refine ⟨by simp [apart], sems q, keeps.returnValue q, fun away => keeps.next q ?_⟩
        simp [away, apart]
      · intro q j _ _
        exact ⟨congrFun use j, fun _ => congrFun keeps.semaphore j⟩
  · have holds : ∀ t' q, (s'.phase t').request = some q → (s.phase t').request = some q := by
      intro t' q held
      by_cases here : t' = t
      · subst here
        rw [new] at held
        rw [phase]
        cases semNull with
        | true => exact held
        | false => cases held
      · rwa [old t' here] at held
    intro t₁ t₂ q first second
    exact sound.apart t₁ t₂ q (holds t₁ q first) (holds t₂ q second)

theorem step_enqueue {s s' : State} {t : Nat} (sound : s.Sound queue)
    (taken : step rejects s (.enqueue t) = some s') : ∃ queue', s'.Sound queue' := by
  cases phase : s.phase t with
  | ready r semNull =>
      simp only [step, phase] at taken
      have mine := sound.threads t
      rw [phase] at mine
      have enough : queue.length < s.driver.entered.length + 1 := by
        rw [sound.driver.entered, List.length_append, List.length_map]
        omega
      have spec := diskSubmit_spec rejects sound.driver mine.1 mine.2.1 enough
      have good := spec.imp id fun ⟨d, _, ran, _⟩ => (⟨d, ran⟩ : ∃ d, _ = _)
      obtain ⟨d, ran, rfl⟩ := settle_ok good taken
      rcases spec with bad | ⟨d', queue', ran', driver, keeps, flight, serving, -⟩
      · rw [bad] at ran
        cases ran
      · have same : d = d' := Except.ok.inj (ran.symm.trans ran')
        subst same
        refine ⟨queue', ?_⟩
        cases semNull with
        | true => exact submitted_sound sound phase driver keeps flight serving rfl rfl rfl
        | false => exact submitted_sound sound phase driver keeps flight serving rfl rfl rfl
  | idle =>
      simp only [step, phase] at taken
      cases taken
  | waiting q =>
      simp only [step, phase] at taken
      cases taken
  | woken q =>
      simp only [step, phase] at taken
      cases taken

theorem step_pass {s s' : State} {t : Nat} (sound : s.Sound queue)
    (taken : step rejects s (.pass t) = some s') : s'.Sound queue := by
  cases phase : s.phase t with
  | waiting r =>
      have mine := sound.threads t
      rw [phase] at mine
      obtain ⟨i, sem, own, state⟩ := mine
      simp only [step, phase, sem, Option.ite_none_right_eq_some, Option.some.injEq] at taken
      obtain ⟨positive, rfl⟩ := taken
      -- The semaphore was raised, so the request is complete.
      obtain ⟨outside, value, returned⟩ := state.resolve_left fun before => by omega
      refine State.alone_sound sound ?_ outside ?_ (fun _ _ => rfl) ⟨rfl, rfl, rfl, rfl, rfl, rfl⟩ ?_ rfl
        ?_ ⟨outside, returned, i, sem, own⟩ rfl
      · rw [phase]
        intro q held
        cases held
        rfl
      · intro t' other held
        exact other (sound.apart t' t r held (by rw [phase]; rfl))
      · intro j _ notMine
        refine ⟨rfl, Function.update_of_ne ?_ _ _⟩
        rintro rfl
        exact notMine own
      · intro q held
        cases held
        rfl
  | idle =>
      simp only [step, phase] at taken
      cases taken
  | ready q semNull =>
      simp only [step, phase] at taken
      cases taken
  | woken q =>
      simp only [step, phase] at taken
      cases taken

theorem step_finish {s s' : State} {t : Nat} (sound : s.Sound queue)
    (taken : step rejects s (.finish t) = some s') : s'.Sound queue := by
  cases phase : s.phase t with
  | woken r =>
      have mine := sound.threads t
      rw [phase] at mine
      obtain ⟨outside, -, i, sem, own⟩ := mine
      simp only [step, phase, sem, Option.some.injEq] at taken
      subst taken
      refine State.alone_sound sound ?_ outside ?_ (fun q apart => Function.update_of_ne apart _ _)
        ⟨rfl, rfl, rfl, rfl, rfl, rfl⟩ ?_ rfl ?_ trivial rfl
      · rw [phase]
        intro q held
        cases held
        rfl
      · intro t' other held
        exact other (sound.apart t' t r held (by rw [phase]; rfl))
      · intro j _ notMine
        refine ⟨Function.update_of_ne ?_ _ _, rfl⟩
        rintro rfl
        exact notMine own
      · intro q held
        cases held
  | idle =>
      simp only [step, phase] at taken
      cases taken
  | ready q semNull =>
      simp only [step, phase] at taken
      cases taken
  | waiting q =>
      simp only [step, phase] at taken
      cases taken

/-- The disk has completed the command of the request served. -/
theorem completed_working {d : Driver} {status : Status} (working : d.Working)
    (busy : (d.status.rbusy = true ∧ status = { d.status with rbusy := false, rirq := true }) ∨
      (d.status.wbusy = true ∧ status = { d.status with wbusy := false, wirq := true })) :
    Driver.Working { d with status } := by
  unfold Driver.Working at working ⊢
  cases serves : d.requestServed with
  | none =>
      rw [serves] at working
      simp only at working
      rw [working] at busy
      rcases busy with ⟨on, -⟩ | ⟨on, -⟩ <;> cases on
  | some r =>
      rw [serves] at working
      simp only at working ⊢
      right
      cases operation : (d.request r).operation <;> rw [operation] at working <;>
        rcases working with old | old <;> rw [old] at busy <;>
        rcases busy with ⟨on, rfl⟩ | ⟨on, rfl⟩ <;> first | rfl | cases on

theorem step_complete {s s' : State} (sound : s.Sound queue)
    (taken : step rejects s .complete = some s') : s'.Sound queue := by
  have keep : ∀ status : Status, Driver.Working { s.driver with status } →
      State.Sound { s with driver := { s.driver with status } } queue := by
    intro status working
    refine ⟨⟨sound.driver.chain, sound.driver.entered, sound.driver.issued, sound.driver.nodup,
      working⟩, sound.serving, sound.flight, ?_, sound.apart, sound.failed⟩
    intro t
    exact (sound.threads t).congr (fun _ _ => ⟨Iff.rfl, rfl, rfl, fun _ => rfl⟩)
      fun _ _ _ _ => ⟨rfl, fun _ => rfl⟩
  simp only [step] at taken
  split at taken
  · rename_i on
    cases taken
    exact keep _ (completed_working sound.driver.working (Or.inl ⟨on, rfl⟩))
  · split at taken
    · rename_i on
      cases taken
      exact keep _ (completed_working sound.driver.working (Or.inr ⟨on, rfl⟩))
    · cases taken

/-- The request served is no longer in flight, and who waits for it may go on. -/
theorem raised_sound {s : State} {d : Driver} {r i : Nat} {queue' : List Nat}
    (sound : s.Sound queue) (serves : s.driver.requestServed = some r)
    (sem : (s.driver.request r).sem = some i) (driver : d.Sound queue')
    (keeps : (s.driver.served r i).Keeps d queue) (flight : d.flight queue' = queue)
    (serving : d.requestServed = none → queue' = []) :
    State.Sound { s with driver := d } queue' := by
  have all : s.driver.flight queue = r :: queue := by
    rw [Driver.flight, serves]
    rfl
  have nodup := sound.driver.nodup
  rw [all] at nodup
  have gone := (List.nodup_cons.1 nodup).1
  have sems : ∀ q, (d.request q).sem = (s.driver.request q).sem := fun q =>
    entry_eq ((keeps.entry q).trans (served_request s.driver r i q).2.1)
  have value : d.semaphore = Function.update s.driver.semaphore i (s.driver.semaphore i + 1) :=
    keeps.semaphore
  -- The semaphore is of other code or of the thread that waits for this request.
  have owner : ∀ t, s.use i = .submit t → s.phase t = .waiting r := by
    intro t own
    obtain ⟨j, same, use⟩ := sound.flight r (by rw [all]; simp)
    have here : j = i := Option.some.inj (same.symm.trans sem)
    subst here
    rcases use with other | ⟨t', waits, own'⟩
    · rw [own] at other
      cases other
    · rw [own] at own'
      cases own'
      exact waits
  refine ⟨driver, serving, ?_, ?_, sound.apart, sound.failed⟩
  · intro q member
    rw [flight] at member
    exact (sound.flight q (by rw [all]; simp [member])).congr (sems q) (fun _ _ => rfl)
      fun _ waits => waits
  · intro t
    rw [flight]
    have ok := sound.threads t
    by_cases waits : s.phase t = .waiting r
    · change State.ThreadOk _ queue t (s.phase t)
      rw [waits] at ok ⊢
      obtain ⟨j, same, own, state⟩ := ok
      have here : j = i := Option.some.inj (same.symm.trans sem)
      subst here
      have zero : s.driver.semaphore j = 0 := by
        rcases state with ⟨-, zero⟩ | ⟨outside, -⟩
        · exact zero
        · exact absurd (by rw [all]; simp) outside
      refine ⟨j, (sems r).trans same, own, Or.inr ⟨gone, ?_, ?_⟩⟩
      · change d.semaphore j = 1
        rw [value, Function.update_self, zero]
        rfl
      · rw [keeps.returnValue, (served_request s.driver r j r).2.2, if_pos rfl]
    · refine ok.congr ?_ ?_
      · intro q held
        have apart : q ≠ r := by
          rintro rfl
          exact waits (ok.waiting_of_mem held (by rw [all]; simp))
        refine ⟨by rw [all]; simp [apart], sems q, ?_, ?_⟩
        · rw [keeps.returnValue, (served_request s.driver r i q).2.2, if_neg apart]
        · intro outside
          rw [all] at outside
          rw [keeps.next q fun member => outside (List.mem_cons_of_mem _ member)]
          exact (served_request s.driver r i q).1
      · intro q j held same
        refine ⟨rfl, fun own => ?_⟩
        change d.semaphore j = s.driver.semaphore j
        rw [value, Function.update_of_ne]
        rintro rfl
        exact waits (owner t own)

theorem State.Sound.sems {s : State} (sound : s.Sound queue) (r : Nat)
    (serves : s.driver.requestServed = some r) : ∃ i, (s.driver.request r).sem = some i := by
  obtain ⟨i, sem, -⟩ := sound.flight r (by rw [Driver.flight, serves]; simp)
  exact ⟨i, sem⟩

theorem step_interrupt {s s' : State} (sound : s.Sound queue)
    (taken : step rejects s .interrupt = some s') : ∃ queue', s'.Sound queue' := by
  rcases diskInterruptHandle_spec rejects sound.driver sound.sems with
    ⟨-, ran⟩ | ⟨r, i, serves, sem, -, spec⟩
  · simp only [step, ran, State.settle, Option.some.injEq] at taken
    exact ⟨queue, taken ▸ sound⟩
  · have good := spec.imp id fun ⟨d, _, ran, _⟩ => (⟨d, ran⟩ : ∃ d, _ = _)
    obtain ⟨d, ran, rfl⟩ := settle_ok good taken
    rcases spec with bad | ⟨d', queue', ran', driver, keeps, flight, serving, -⟩
    · rw [bad] at ran
      cases ran
    · have same : d = d' := Except.ok.inj (ran.symm.trans ran')
      subst same
      exact ⟨queue', raised_sound sound serves sem driver keeps flight serving⟩

theorem step_others {s s' : State} {i : Nat} {use : Use} {value : Int} (sound : s.Sound queue)
    (legal : Legal s (.others i use value))
    (taken : step rejects s (.others i use value) = some s') : s'.Sound queue := by
  obtain ⟨foreign, inFlight, ready⟩ := legal
  simp only [step, Option.some.injEq] at taken
  subst taken
  have away : ∀ j t, s.use j = .submit t → j ≠ i := by
    rintro j t own rfl
    exact (foreign t).1 own
  refine ⟨sound.driver.congr (fun _ _ => rfl) rfl rfl rfl ⟨rfl, rfl, rfl⟩, sound.serving, ?_, ?_,
    sound.apart, sound.failed⟩
  · intro r member
    obtain ⟨j, sem, own⟩ := sound.flight r member
    refine ⟨j, sem, ?_⟩
    rcases own with other | ⟨t, waits, own⟩
    · left
      by_cases here : j = i
      · subst here
        have stays : use = .other := by
          refine inFlight ⟨s.driver.entry r, ?_, sem⟩
          rw [sound.driver.inFlight_eq]
          exact List.mem_map_of_mem member
        change Function.update s.use j use j = .other
        rw [Function.update_self, stays]
      · change Function.update s.use i use j = .other
        rw [Function.update_of_ne here, other]
    · right
      refine ⟨t, waits, ?_⟩
      change Function.update s.use i use j = .submit t
      rw [Function.update_of_ne (away j t own), own]
  · intro t
    have ok := sound.threads t
    refine ok.congr (fun _ _ => ⟨Iff.rfl, rfl, rfl, fun _ => rfl⟩) ?_
    intro r j held sem
    by_cases here : j = i
    · subst here
      have other : s.use j = .other := by
        rcases ok.use held sem with own | other
        · exact absurd rfl (away j t own)
        · exact other
      refine ⟨?_, fun own => absurd own (foreign t).1⟩
      change Function.update s.use j use j = s.use j
      rw [Function.update_self, other]
      cases phase : s.phase t with
      | idle =>
          rw [phase] at held
          cases held
      | ready q semNull =>
          rw [phase] at held
          cases held
          exact ready t r semNull phase sem
      | waiting q =>
          rw [phase] at held ok
          cases held
          obtain ⟨k, same, own, -⟩ := ok
          have same_ : k = j := Option.some.inj (same.symm.trans sem)
          exact absurd same_ (away k t own)
      | woken q =>
          rw [phase] at held ok
          cases held
          obtain ⟨-, -, k, same, own⟩ := ok
          have same_ : k = j := Option.some.inj (same.symm.trans sem)
          exact absurd same_ (away k t own)
    · exact ⟨Function.update_of_ne here _ _, fun _ => Function.update_of_ne here _ _⟩

/-! ## Every run -/

theorem boot_sound {s : State} (boot : Boot s) : s.Sound [] := by
  have status : s.driver.status = quiet := by
    have eta : s.driver.status = ⟨s.driver.status.rbusy, s.driver.status.wbusy,
        s.driver.status.rirq, s.driver.status.wirq⟩ := rfl
    rw [eta, boot.rbusy, boot.wbusy, boot.rirq, boot.wirq]
    rfl
  refine ⟨⟨boot.requestQueue, ?_, ?_, ?_, ?_⟩, fun _ => rfl, ?_, ?_, ?_, boot.failed⟩
  · rw [boot.entered, boot.issued]
    rfl
  · rw [boot.issued, boot.raised, boot.requestServed]
    rfl
  · rw [Driver.flight, boot.requestServed]
    exact List.nodup_nil
  · rw [Driver.Working, boot.requestServed]
    exact status
  · rw [Driver.flight, boot.requestServed]
    intro r member
    cases member
  · intro t
    rw [boot.phase t]
    trivial
  · intro t t' r held
    rw [boot.phase t] at held
    cases held

theorem step_sound {s s' : State} {act : Act} (sound : s.Sound queue) (legal : Legal s act)
    (taken : step rejects s act = some s') : ∃ queue', s'.Sound queue' := by
  cases act with
  | call t r operation block buf sem created => exact step_call sound legal taken
  | enqueue t => exact step_enqueue sound taken
  | pass t => exact ⟨queue, step_pass sound taken⟩
  | finish t => exact ⟨queue, step_finish sound taken⟩
  | complete => exact ⟨queue, step_complete sound taken⟩
  | interrupt => exact step_interrupt sound taken
  | others i use value => exact ⟨queue, step_others sound legal taken⟩

theorem reachable_sound {s : State} (reached : (diskSystem rejects).ReachableWhen Legal s) :
    ∃ queue, s.Sound queue := by
  refine reached.invariant (I := fun s => ∃ queue, s.Sound queue) ?_ ?_
  · exact fun s boot => ⟨[], boot_sound boot⟩
  · rintro s act t ⟨queue, sound⟩ legal taken
    exact step_sound sound legal taken

/-- A synchronous call returns when its request is complete, and succeeds. -/
theorem finish_succeeds {s s' : State} {t : Nat}
    (reached : (diskSystem rejects).ReachableWhen Legal s)
    (taken : step rejects s (.finish t) = some s') : s'.result t = 1 := by
  obtain ⟨queue, sound⟩ := reachable_sound reached
  cases phase : s.phase t with
  | woken r =>
      have mine := sound.threads t
      rw [phase] at mine
      obtain ⟨-, returned, i, sem, -⟩ := mine
      simp only [step, phase, sem, Option.some.injEq] at taken
      subst taken
      simp [State.setPhase, returned]
  | idle =>
      simp only [step, phase] at taken
      cases taken
  | ready q semNull =>
      simp only [step, phase] at taken
      cases taken
  | waiting q =>
      simp only [step, phase] at taken
      cases taken

/-- **The disk request queue.**  In every run, no assertion fails; the requests that entered
the queue are those that were issued and then those in the queue, and the issued ones are
those that were completed and then the one that is served, all in the order in which they
entered; none waits while no request is served; the disk works on the request served or has
completed it; and a completion interrupt sets the return value of that request to zero and
raises its semaphore, once. -/
theorem diskQueue {s : State} (reached : (diskSystem rejects).ReachableWhen Legal s) :
    s.failed = false ∧
      (∃ queue, Chain (fun r => (s.driver.request r).next) s.driver.requestQueue queue ∧
        s.driver.entered = s.driver.issued ++ queue.map s.driver.entry) ∧
      s.driver.issued = s.driver.raised ++ s.driver.requestServed.toList.map s.driver.entry ∧
      (s.driver.requestQueue ≠ none → s.driver.requestServed ≠ none) ∧ s.driver.Working ∧
      ∀ t, step rejects s .interrupt = some t →
        if s.driver.status.rirq || s.driver.status.wirq then
          ∃ r i, s.driver.requestServed = some r ∧ (s.driver.request r).sem = some i ∧
            (t.driver.request r).returnValue = 0 ∧
            t.driver.semaphore =
              Function.update s.driver.semaphore i (s.driver.semaphore i + 1) ∧
            t.driver.raised = s.driver.raised ++ [s.driver.entry r]
        else t = s := by
  obtain ⟨queue, sound⟩ := reachable_sound reached
  refine ⟨sound.failed, ⟨queue, sound.driver.chain, sound.driver.entered⟩, sound.driver.issued, ?_,
    sound.driver.working, ?_⟩
  · intro some_ none_
    rw [sound.driver.chain.start_eq, sound.serving none_] at some_
    exact some_ rfl
  · intro t taken
    rcases diskInterruptHandle_spec rejects sound.driver sound.sems with
      ⟨irq, ran⟩ | ⟨r, i, serves, sem, irq, spec⟩
    · rw [irq, if_neg Bool.false_ne_true]
      simp only [step, ran, State.settle, Option.some.injEq] at taken
      exact taken.symm
    · rw [irq, if_pos rfl]
      have good := spec.imp id fun ⟨d, _, ran, _⟩ => (⟨d, ran⟩ : ∃ d, _ = _)
      obtain ⟨d, ran, rfl⟩ := settle_ok good taken
      rcases spec with bad | ⟨d', queue', ran', driver, keeps, flight, serving, raised⟩
      · rw [bad] at ran
        cases ran
      · have same : d = d' := Except.ok.inj (ran.symm.trans ran')
        subst same
        refine ⟨r, i, serves, sem, ?_, keeps.semaphore, raised⟩
        rw [keeps.returnValue, (served_request s.driver r i r).2.2, if_pos rfl]

/-- A driver that has just been initialized. -/
def fresh : State where
  driver :=
    { request := fun _ =>
        { block := 0, buf := 0, sem := none, operation := .read, next := none, returnValue := 0 }
      requestQueue := none
      requestServed := none
      status := quiet
      semaphore := fun _ => 0
      entered := []
      issued := []
      raised := [] }
  phase := fun _ => .idle
  use := fun _ => .free
  result := fun _ => 0
  failed := false

/-- One thread reads a block, and another writes one while the disk works for the first. -/
def readAndWrite : List Act :=
  [.call 0 1 .read 5 4096 none (some 0), .call 1 2 .write 9 8192 none (some 1),
    .enqueue 0, .enqueue 1]

/-- Then the disk completes both. -/
def bothCompleted : List Act :=
  readAndWrite ++
    [.complete, .interrupt, .complete, .interrupt, .pass 1, .finish 1, .pass 0, .finish 0]

theorem bothCompleted_guarded : (diskSystem fun _ => false).Guarded Legal fresh bothCompleted := by
  refine ⟨⟨fun e member => ?_, fun t held => ?_, fun i same => ?_⟩,
    ⟨fun e member => ?_, fun t held => ?_, fun i same => ?_⟩, trivial, trivial, trivial, trivial,
    trivial, trivial, trivial, trivial, trivial, trivial, trivial⟩
  · cases member
  · cases held
  · cases same
  · cases member
  · rcases t with _ | t <;> cases held
  · cases same

theorem readAndWrite_guarded : (diskSystem fun _ => false).Guarded Legal fresh readAndWrite :=
  have ⟨first, second, _⟩ := bothCompleted_guarded
  ⟨first, second, trivial, trivial, trivial⟩

/-- The second request waits in the queue while the first is served, and both are done in the
order in which they came. -/
theorem diskQueue_read :
    ∃ s t, (diskSystem fun _ => false).exec fresh readAndWrite = some s ∧
      s.driver.requestServed = some 1 ∧
      Chain (fun r => (s.driver.request r).next) s.driver.requestQueue [2] ∧
      (diskSystem fun _ => false).exec fresh bothCompleted = some t ∧ t.failed = false ∧
      t.driver.issued = t.driver.raised ∧ t.driver.raised.map Entry.request = [1, 2] ∧
      t.result 0 = 1 ∧ t.result 1 = 1 := by
  have start : (diskSystem fun _ => false).ReachableWhen Legal fresh :=
    .start ⟨rfl, rfl, rfl, rfl, rfl, rfl, rfl, rfl, rfl, fun _ => rfl,
      fun _ _ => Use.noConfusion, rfl⟩
  obtain ⟨s, ran, served, entered, issued⟩ :
      ∃ s, (diskSystem fun _ => false).exec fresh readAndWrite = some s ∧
        s.driver.requestServed = some 1 ∧ s.driver.entered.map Entry.request = [1, 2] ∧
        s.driver.issued.map Entry.request = [1] := ⟨_, rfl, rfl, rfl, rfl⟩
  obtain ⟨t, ran', idle, raised, first, second⟩ :
      ∃ t, (diskSystem fun _ => false).exec fresh bothCompleted = some t ∧
        t.driver.requestServed = none ∧ t.driver.raised.map Entry.request = [1, 2] ∧
        t.result 0 = 1 ∧ t.result 1 = 1 := ⟨_, rfl, rfl, rfl, rfl, rfl⟩
  obtain ⟨-, ⟨queue, chain, order⟩, -⟩ := diskQueue (start.exec readAndWrite_guarded ran)
  obtain ⟨sound, -, done, -⟩ := diskQueue (start.exec bothCompleted_guarded ran')
  have waits : queue = [2] := by
    have requests := congrArg (List.map Entry.request) order
    rw [entered, List.map_append, issued, List.map_map] at requests
    have same : queue.map (Entry.request ∘ s.driver.entry) = queue := List.map_id queue
    rw [same] at requests
    exact (List.cons.inj requests).2.symm
  rw [idle, Option.toList_none, List.map_nil, List.append_nil] at done
  exact ⟨s, t, ran, served, waits ▸ chain, ran', sound, done, raised, first, second⟩

end Buenos.Drivers.DiskQueue
