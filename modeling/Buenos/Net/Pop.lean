/-
# Net.Pop -- the packet-oriented protocol as a system of threads

The frames' pages, the input queue, the socket table, any number of threads that
push frames (`network_receive_thread` and loopback `network_send`), any number of
calls of `socket_recvfrom`, and the POP service thread.

What runs under a lock is one step unless another thread can interfere with it.
`open_sockets_sem` never lets anyone in but the service thread's unlocked stores,
so the calls on the socket table are single steps.  `pop_push_frame` is several:
between its scan and its store the service thread may free and clear a slot.  The
service thread takes one step for its pass under both locks and one for each
statement it executes after it has released them.

A page stands for its address, and a pointer into a caller's memory for the call
that passed it.  Ghost data: a frame's `serial` and the frame a call's buffer was
filled from, the calls of each socket that have not come back yet (`line`), and the
pages that belong to other parts of the kernel (`foreign`).
-/
import Buenos.Lib.Libc
import Buenos.Theory.Run
import Mathlib.Logic.Function.Basic

namespace Buenos.Net

open Buenos.Lib Buenos.Theory

set_option autoImplicit false

def CONFIG_MAX_OPEN_SOCKETS : Nat := 64
def CONFIG_POP_QUEUE_SIZE : Nat := 32
def CONFIG_POP_QUEUE_MIN_AGE : Nat := 250

def PROTOCOL_POP : BitVec 8 := 1#8
def PROTOCOL_SOP : BitVec 8 := 2#8

abbrev NetworkAddress := BitVec 32

/-- A frame as it lies in its page, POP header included. -/
structure Frame where
  serial : Nat
  source : NetworkAddress
  sourcePort : BitVec 16
  destPort : BitVec 16
  size : BitVec 32
  payload : List Byte
  deriving DecidableEq

/-- A signalling semaphore with its sleepers, first come first. -/
structure Semaphore where
  value : Int
  waiters : List Nat
  deriving DecidableEq

structure SocketDescriptor where
  port : BitVec 16
  protocol : BitVec 8
  receiveComplete : Option Semaphore
  rbuf : Option Nat
  bufsize : Nat
  sender : Option Nat
  copied : Option Nat
  sport : Option Nat
  deriving DecidableEq

structure PopQueueEntry where
  frame : Option Nat
  socket : Option Nat
  timestamp : BitVec 32
  source : NetworkAddress
  busy : Bool
  deriving DecidableEq

/-- Where a call of `socket_recvfrom` is, once it has registered its pointers. -/
inductive Phase where
  | registered
  | signalled
  | asleep
  | complete
  deriving DecidableEq

/-- A call of `socket_recvfrom` with the memory its arguments point to. -/
structure Recv where
  socket : Nat
  buflength : Nat
  phase : Phase
  buffer : List Byte
  addr : Option NetworkAddress
  sport : Option (BitVec 16)
  length : Option Nat
  filledFrom : Option Frame

/-- Where a thread that allocates and pushes frames is. -/
inductive Thread where
  | idle
  | holding (page : Nat)
  | filled (page : Nat)
  | scanning (page : Nat)
  | chosen (page slot : Nat)
  | evicted (page slot : Nat)
  | stored
  | refused (page : Nat)
  deriving DecidableEq

/-- The statements of a transfer, in order. -/
inductive Stage where
  | copy
  | sender
  | copied
  | sport
  | rbuf
  | bufsize
  | zeroSender
  | zeroCopied
  | zeroSport
  | free
  | wake
  | clear
  deriving DecidableEq

/-- Where the service thread is: about to lock, between two statements of an action, or
asleep.  `page` is its variable `f`, `slot`, `bytes` and `wake` are the others. -/
inductive Service where
  | ready
  | discard (slot page : Nat)
  | discarded (slot : Nat)
  | transfer (stage : Stage) (slot page bytes : Nat) (wake : Option Nat)
  | waiting
  deriving DecidableEq

structure State where
  reserved : Nat → Bool
  foreign : Nat → Bool
  mem : Nat → Frame
  panicked : Bool
  queue : Nat → PopQueueEntry
  holder : Option Nat
  threads : Nat → Thread
  sockets : Nat → SocketDescriptor
  calls : Nat → Recv
  nextCall : Nat
  nextSerial : Nat
  line : Nat → List Nat
  service : Service
  serviceSem : Nat

/-- The machine: its physical pages, those the kernel reserved for itself at boot, and
which threads are `network_receive_thread`. -/
structure Config where
  numPages : Nat
  staticEnd : Nat
  receiver : Nat → Bool

/-! ## The page pool -/

/-- `pagepool_get_phys_page` finds the first free page. -/
def firstFreePage (cfg : Config) (s : State) : Option Nat :=
  (List.range cfg.numPages).find? fun p => !s.reserved p

def setReserved (s : State) (p : Nat) (r : Bool) : State :=
  { s with reserved := Function.update s.reserved p r }

/-- `pagepool_free_phys_page`: the page must be reserved, and not for the kernel. -/
def freePage (cfg : Config) (s : State) (p : Nat) : State :=
  if cfg.staticEnd ≤ p ∧ s.reserved p = true then setReserved s p false
  else { s with panicked := true }

/-! ## Pushing frames -/

def setThread (s : State) (t : Nat) (th : Thread) : State :=
  { s with threads := Function.update s.threads t th }

def alloc (cfg : Config) (s : State) (t : Nat) : Option State :=
  match s.threads t, firstFreePage cfg s with
  | .idle, some p => some (setThread (setReserved s p true) t (.holding p))
  | _, _ => none

/-- A POP frame arrives in the page, from the interface or from `network_send`. -/
def fill (s : State) (t : Nat) (frame : Frame) : Option State :=
  match s.threads t with
  | .holding p => some { setThread s t (.filled p) with
      mem := Function.update s.mem p { frame with serial := s.nextSerial }
      nextSerial := s.nextSerial + 1 }
  | _ => none

/-- `semaphore_P(pop_queue_sem)` in `pop_push_frame`. -/
def lockQueue (s : State) (t : Nat) : Option State :=
  match s.threads t, s.holder with
  | .filled p, none => some { setThread s t (.scanning p) with holder := some t }
  | _, _ => none

/-- The first slot without a frame. -/
def freeSlot (queue : Nat → PopQueueEntry) : Option Nat :=
  (List.range CONFIG_POP_QUEUE_SIZE).find? fun i => (queue i).frame = none

/-- The loop that keeps the oldest slot that is not busy. -/
def oldestFrom (queue : Nat → PopQueueEntry) : List Nat → Option Nat → Option Nat
  | [], oldest => oldest
  | i :: rest, oldest =>
      match (queue i).busy, oldest with
      | true, _ => oldestFrom queue rest oldest
      | false, none => oldestFrom queue rest (some i)
      | false, some j =>
          if (queue i).timestamp < (queue j).timestamp then oldestFrom queue rest (some i)
          else oldestFrom queue rest (some j)

def oldestSlot (queue : Nat → PopQueueEntry) : Option Nat :=
  oldestFrom queue (List.range CONFIG_POP_QUEUE_SIZE) none

/-- The slot for a new frame, if there is a free one or the oldest is old enough. -/
def chooseSlot (queue : Nat → PopQueueEntry) (now : BitVec 32) : Option Nat :=
  match freeSlot queue, oldestSlot queue with
  | some i, _ => some i
  | none, none => none
  | none, some j =>
      if (now - (queue j).timestamp).toNat < CONFIG_POP_QUEUE_MIN_AGE then none else some j

/-- The scan; a refused frame gives the lock back. -/
def choose (s : State) (t : Nat) (now : BitVec 32) : Option State :=
  match s.threads t with
  | .scanning p =>
      match chooseSlot s.queue now with
      | some k => some (setThread s t (.chosen p k))
      | none => some { setThread s t (.refused p) with holder := none }
  | _ => none

/-- `if (pop_queue[free].frame) network_free_frame(pop_queue[free].frame)` -/
def evict (cfg : Config) (s : State) (t : Nat) : Option State :=
  match s.threads t with
  | .chosen p k =>
      match (s.queue k).frame with
      | some old => some (freePage cfg (setThread s t (.evicted p k)) old)
      | none => some (setThread s t (.evicted p k))
  | _ => none

/-- Fill the slot and give the lock back. -/
def store (s : State) (t : Nat) (now : BitVec 32) : Option State :=
  match s.threads t with
  | .evicted p k => some { setThread s t .stored with
      queue := Function.update s.queue k
        { frame := some p, socket := none, timestamp := now, source := (s.mem p).source,
          busy := false }
      holder := none }
  | _ => none

/-- `semaphore_V(pop_service_thread_sem)`, then `pop_push_frame` returns 1. -/
def signalPush (s : State) (t : Nat) : Option State :=
  match s.threads t with
  | .stored => some { setThread s t .idle with serviceSem := s.serviceSem + 1 }
  | _ => none

/-- After a refusal a receiver keeps the page for the next frame; a sender frees it. -/
def afterRefusal (cfg : Config) (s : State) (t : Nat) : Option State :=
  match s.threads t with
  | .refused p =>
      if cfg.receiver t then some (setThread s t (.holding p))
      else some (freePage cfg (setThread s t .idle) p)
  | _ => none

/-! ## Sockets -/

def setSocket (s : State) (x : Nat) (socket : SocketDescriptor) : State :=
  { s with sockets := Function.update s.sockets x socket }

def setCall (s : State) (c : Nat) (call : Recv) : State :=
  { s with calls := Function.update s.calls c call }

def portUsed (sockets : Nat → SocketDescriptor) (port : BitVec 16) : Bool :=
  (List.range CONFIG_MAX_OPEN_SOCKETS).any fun i =>
    (sockets i).protocol ≠ 0#8 && (sockets i).port = port

/-- The port the search from 1 upwards stops at. -/
def firstFreePort (sockets : Nat → SocketDescriptor) : Option (BitVec 16) :=
  ((List.range' 1 65535).find? fun n => !portUsed sockets (BitVec.ofNat 16 n)).map
    (BitVec.ofNat 16)

def freeSocket (sockets : Nat → SocketDescriptor) : Option Nat :=
  (List.range CONFIG_MAX_OPEN_SOCKETS).find? fun i => (sockets i).protocol = 0#8

/-- The port a socket opened with `port` is bound to. -/
def bindPort (sockets : Nat → SocketDescriptor) (port : BitVec 16) : Option (BitVec 16) :=
  if port = 0#16 then firstFreePort sockets
  else if portUsed sockets port then none else some port

/-- `created` says whether `semaphore_create` succeeds.  A call that fails changes
nothing. -/
def socketOpen (s : State) (protocol : BitVec 8) (port : BitVec 16) (created : Bool) : State :=
  if protocol ≠ PROTOCOL_POP ∧ protocol ≠ PROTOCOL_SOP then s
  else match freeSocket s.sockets, bindPort s.sockets port with
  | some x, some bound =>
      if created then setSocket s x
        { s.sockets x with
          receiveComplete := some { value := 0, waiters := [] }
          port := bound, protocol := protocol, rbuf := none, bufsize := 0, sender := none
          copied := none }
      else s
  | _, _ => s

def socketClose (s : State) (x : Nat) : State :=
  if (s.sockets x).receiveComplete = none then s
  else setSocket s x
    { s.sockets x with
      port := 0#16, protocol := 0#8, rbuf := none, bufsize := 0, sender := none
      copied := none, receiveComplete := none }

/-- The part of `socket_recvfrom` under the lock: refuse, or register the pointers. -/
def register (s : State) (x buflength : Nat) : State :=
  if (s.sockets x).protocol ≠ PROTOCOL_POP ∨ (s.sockets x).rbuf ≠ none then s
  else
    { s with
      sockets := Function.update s.sockets x
        { s.sockets x with
          rbuf := some s.nextCall, bufsize := buflength, sender := some s.nextCall
          copied := some s.nextCall, sport := some s.nextCall }
      calls := Function.update s.calls s.nextCall
        { socket := x, buflength := buflength, phase := .registered, buffer := []
          addr := none, sport := none, length := none, filledFrom := none }
      nextCall := s.nextCall + 1
      line := Function.update s.line x (s.line x ++ [s.nextCall]) }

/-- `semaphore_V(pop_service_thread_sem)` in `socket_recvfrom`. -/
def signalRecv (s : State) (c : Nat) : Option State :=
  if c < s.nextCall ∧ (s.calls c).phase = .registered then
    some { setCall s c { s.calls c with phase := .signalled } with
      serviceSem := s.serviceSem + 1 }
  else none

/-- The call returns from its wait. -/
def finish (s : State) (x c : Nat) : State :=
  { setCall s c { s.calls c with phase := .complete } with
    line := Function.update s.line x ((s.line x).erase c) }

def setSemaphore (s : State) (x : Nat) (sem : Semaphore) : State :=
  setSocket s x { s.sockets x with receiveComplete := some sem }

/-- `semaphore_P(open_sockets[s].receive_complete)` -/
def awaitComplete (s : State) (c : Nat) : Option State :=
  if c < s.nextCall ∧ (s.calls c).phase = .signalled then
    let x := (s.calls c).socket
    (s.sockets x).receiveComplete.map fun sem =>
      if sem.value - 1 < 0 then
        setCall (setSemaphore s x { value := sem.value - 1, waiters := sem.waiters ++ [c] }) c
          { s.calls c with phase := .asleep }
      else finish (setSemaphore s x { sem with value := sem.value - 1 }) x c
  else none

/-! ## The service thread -/

/-- The first POP socket bound to `port`. -/
def findSocket (sockets : Nat → SocketDescriptor) (port : BitVec 16) : Option Nat :=
  (List.range CONFIG_MAX_OPEN_SOCKETS).find? fun j =>
    (sockets j).protocol = PROTOCOL_POP && (sockets j).port = port

/-- The entry after the recipient has been looked up, if that had not happened yet. -/
def lookUp (s : State) (entry : PopQueueEntry) (page : Nat) : PopQueueEntry :=
  match entry.socket with
  | some _ => entry
  | none => { entry with socket := findSocket s.sockets (s.mem page).destPort }

/-- The pass over the queue under both locks, from the slots that are left. -/
def scanQueue (s : State) : List Nat → State
  | [] => { s with service := .waiting }
  | i :: rest =>
      match (s.queue i).frame with
      | none => scanQueue s rest
      | some page =>
          let entry := lookUp s (s.queue i) page
          let s' := { s with queue := Function.update s.queue i entry }
          match entry.socket with
          | none => { s' with service := .discard i page }
          | some x =>
              if (s.sockets x).protocol ≠ PROTOCOL_POP then { s' with service := .discard i page }
              else if (s.sockets x).rbuf ≠ none then
                { s with
                  queue := Function.update s.queue i { entry with busy := true }
                  service := .transfer .copy i page 0 none }
              else scanQueue s' rest

def pick (s : State) : Option State :=
  match s.service, s.holder with
  | .ready, none => some (scanQueue s (List.range CONFIG_POP_QUEUE_SIZE))
  | _, _ => none

/-- `semaphore_V(open_sockets[x].receive_complete)` -/
def complete (s : State) (x : Nat) (sem : Semaphore) : State :=
  if sem.value + 1 ≤ 0 then
    match sem.waiters with
    | c :: rest => finish (setSemaphore s x { value := sem.value + 1, waiters := rest }) x c
    | [] => setSemaphore s x { sem with value := sem.value + 1 }
  else setSemaphore s x { sem with value := sem.value + 1 }

def setService (s : State) (service : Service) : State := { s with service := service }

def clearSlot (s : State) (k : Nat) : State :=
  { s with
    queue := Function.update s.queue k { s.queue k with frame := none }
    service := .ready }

/-- One statement of a transfer to socket `x`.  A NULL pointer is not followed. -/
def transferStep (cfg : Config) (s : State) (k page bytes : Nat) (wake : Option Nat) (x : Nat) :
    Stage → Option State
  | .copy => (s.sockets x).rbuf.map fun c =>
      let bytes := min (s.mem page).size.toNat (s.sockets x).bufsize
      setService (setCall s c { s.calls c with
        buffer := (s.mem page).payload.take bytes
        filledFrom := some (s.mem page) }) (.transfer .sender k page bytes wake)
  | .sender => (s.sockets x).sender.map fun c =>
      setService (setCall s c { s.calls c with addr := some (s.queue k).source })
        (.transfer .copied k page bytes wake)
  | .copied => (s.sockets x).copied.map fun c =>
      setService (setCall s c { s.calls c with length := some bytes })
        (.transfer .sport k page bytes wake)
  | .sport => (s.sockets x).sport.map fun c =>
      setService (setCall s c { s.calls c with sport := some (s.mem page).sourcePort })
        (.transfer .rbuf k page bytes wake)
  | .rbuf => some (setService (setSocket s x { s.sockets x with rbuf := none })
      (.transfer .bufsize k page bytes (s.sockets x).rbuf))
  | .bufsize => some (setService (setSocket s x { s.sockets x with bufsize := 0 })
      (.transfer .zeroSender k page bytes wake))
  | .zeroSender => some (setService (setSocket s x { s.sockets x with sender := none })
      (.transfer .zeroCopied k page bytes wake))
  | .zeroCopied => some (setService (setSocket s x { s.sockets x with copied := none })
      (.transfer .zeroSport k page bytes wake))
  | .zeroSport => some (setService (setSocket s x { s.sockets x with sport := none })
      (.transfer .free k page bytes wake))
  | .free => some (freePage cfg (setService s (.transfer .wake k page bytes wake)) page)
  | .wake => (s.sockets x).receiveComplete.map fun sem =>
      complete (setService s (.transfer .clear k page bytes wake)) x sem
  | .clear => some (clearSlot s k)

/-- One statement of the service thread outside the locks. -/
def serve (cfg : Config) (s : State) : Option State :=
  match s.service with
  | .ready => none
  | .discard k page => some (freePage cfg (setService s (.discarded k)) page)
  | .discarded k => some (clearSlot s k)
  | .transfer stage k page bytes wake =>
      (s.queue k).socket.bind fun x => transferStep cfg s k page bytes wake x stage
  | .waiting =>
      if 0 < s.serviceSem then
        some { s with serviceSem := s.serviceSem - 1, service := .ready }
      else none

/-! ## The system -/

inductive Act where
  | alloc (t : Nat)
  | fill (t : Nat) (frame : Frame)
  | lockQueue (t : Nat)
  | choose (t : Nat) (now : BitVec 32)
  | evict (t : Nat)
  | store (t : Nat) (now : BitVec 32)
  | signalPush (t : Nat)
  | afterRefusal (t : Nat)
  | socketOpen (protocol : BitVec 8) (port : BitVec 16) (created : Bool)
  | socketClose (x : Nat)
  | register (x buflength : Nat)
  | signalRecv (c : Nat)
  | awaitComplete (c : Nat)
  | pick
  | serve
  | otherAlloc
  | otherFree (p : Nat)

/-- Other parts of the kernel take and give back pages of their own. -/
def otherAlloc (cfg : Config) (s : State) : Option State :=
  (firstFreePage cfg s).map fun p =>
    { setReserved s p true with foreign := Function.update s.foreign p true }

def otherFree (cfg : Config) (s : State) (p : Nat) : Option State :=
  if cfg.staticEnd ≤ p ∧ p < cfg.numPages ∧ s.foreign p = true then
    some { freePage cfg s p with foreign := Function.update s.foreign p false }
  else none

def act (cfg : Config) (s : State) : Act → Option State
  | .alloc t => alloc cfg s t
  | .fill t frame => fill s t frame
  | .lockQueue t => lockQueue s t
  | .choose t now => choose s t now
  | .evict t => evict cfg s t
  | .store t now => store s t now
  | .signalPush t => signalPush s t
  | .afterRefusal t => afterRefusal cfg s t
  | .socketOpen protocol port created => some (socketOpen s protocol port created)
  | .socketClose x => if x < CONFIG_MAX_OPEN_SOCKETS then some (socketClose s x) else none
  | .register x buflength =>
      if x < CONFIG_MAX_OPEN_SOCKETS ∧ 1 ≤ buflength then some (register s x buflength) else none
  | .signalRecv c => signalRecv s c
  | .awaitComplete c => awaitComplete s c
  | .pick => pick s
  | .serve => serve cfg s
  | .otherAlloc => otherAlloc cfg s
  | .otherFree p => otherFree cfg s p

/-- Nothing runs after a failed assertion. -/
def step (cfg : Config) (s : State) (a : Act) : Option State :=
  if s.panicked then none else act cfg s a

/-- After `socket_init` and `pop_init`: all reserved pages are the kernel's. -/
structure Boot (cfg : Config) (s : State) : Prop where
  reserved : ∀ p, s.reserved p = s.foreign p
  kernel : ∀ p, p < cfg.staticEnd ∨ cfg.numPages ≤ p → s.foreign p = true
  panicked : s.panicked = false
  queue : ∀ i, s.queue i =
    { frame := none, socket := none, timestamp := 0#32, source := 0#32, busy := false }
  holder : s.holder = none
  threads : ∀ t, s.threads t = .idle
  sockets : ∀ x, s.sockets x =
    { port := 0#16, protocol := 0#8, receiveComplete := none, rbuf := none, bufsize := 0
      sender := none, copied := none, sport := none }
  nextCall : s.nextCall = 0
  line : ∀ x, s.line x = []
  service : s.service = .ready

def system (cfg : Config) : System State Act where
  initial := Boot cfg
  step := step cfg

/-! ## What the pass over the queue leaves -/

/-- What the service thread decided to do, and why. -/
inductive Picked (s r : State) (slots : List Nat) : Prop
  | nothing (service : r.service = .waiting)
  | discard (k page : Nat) (service : r.service = .discard k page) (member : k ∈ slots)
      (frame : (s.queue k).frame = some page)
  | transfer (k page x : Nat) (service : r.service = .transfer .copy k page 0 none)
      (member : k ∈ slots) (frame : (s.queue k).frame = some page)
      (busy : (r.queue k).busy = true) (socket : (r.queue k).socket = some x)
      (pop : (s.sockets x).protocol = PROTOCOL_POP) (pending : (s.sockets x).rbuf ≠ none)

/-- The pass fills in recipients, marks at most one slot busy and sets the service
thread to work; the rest of the state stays. -/
structure Scanned (s r : State) (slots : List Nat) : Prop where
  rest : r = { s with queue := r.queue, service := r.service }
  frame : ∀ i, (r.queue i).frame = (s.queue i).frame
  source : ∀ i, (r.queue i).source = (s.queue i).source
  socket : ∀ i, (r.queue i).socket = (s.queue i).socket ∨
    ∃ page, (s.queue i).frame = some page ∧
      (r.queue i).socket = findSocket s.sockets (s.mem page).destPort
  picked : Picked s r slots

theorem lookUp_frame (s : State) (entry : PopQueueEntry) (page : Nat) :
    (lookUp s entry page).frame = entry.frame ∧ (lookUp s entry page).source = entry.source := by
  unfold lookUp
  split <;> exact ⟨rfl, rfl⟩

theorem lookUp_socket (s : State) (entry : PopQueueEntry) (page : Nat) :
    (lookUp s entry page).socket = entry.socket ∨
      (lookUp s entry page).socket = findSocket s.sockets (s.mem page).destPort := by
  unfold lookUp
  split
  · exact Or.inl rfl
  · exact Or.inr rfl

/-- Writing back the looked-up entry of an occupied slot. -/
theorem scanned_lookUp {s : State} {i page : Nat} (frame : (s.queue i).frame = some page)
    (entry : PopQueueEntry) (service : Service) (slots : List Nat)
    (same : entry.frame = (s.queue i).frame ∧ entry.source = (s.queue i).source)
    (socket : entry.socket = (s.queue i).socket ∨
      entry.socket = findSocket s.sockets (s.mem page).destPort)
    (picked : Picked s { s with queue := Function.update s.queue i entry, service := service }
      slots) :
    Scanned s { s with queue := Function.update s.queue i entry, service := service } slots := by
  refine ⟨rfl, fun j => ?_, fun j => ?_, fun j => ?_, picked⟩
  · by_cases here : j = i
    · subst here; simpa using same.1
    · simp [here]
  · by_cases here : j = i
    · subst here; simpa using same.2
    · simp [here]
  · by_cases here : j = i
    · subst here
      exact (by simpa using socket : _ ∨ _).imp id fun found => ⟨page, frame, found⟩
    · exact Or.inl (by simp [here])

theorem Scanned.after_lookUp {s r : State} {i page : Nat} {rest : List Nat}
    (frame : (s.queue i).frame = some page)
    (scanned : Scanned { s with
      queue := Function.update s.queue i (lookUp s (s.queue i) page) } r rest) :
    Scanned s r (i :: rest) := by
  have frames : ∀ j, (Function.update s.queue i (lookUp s (s.queue i) page) j).frame =
      (s.queue j).frame := by
    intro j
    by_cases here : j = i
    · subst here; simpa using (lookUp_frame s (s.queue j) page).1
    · simp [here]
  refine ⟨scanned.rest, fun j => (scanned.frame j).trans (frames j), fun j => ?_, fun j => ?_, ?_⟩
  · rw [scanned.source j]
    by_cases here : j = i
    · subst here; simpa using (lookUp_frame s (s.queue j) page).2
    · simp [here]
  · rcases scanned.socket j with same | ⟨page', frame', found⟩
    · by_cases here : j = i
      · subst here
        rw [same]
        exact (by simpa using lookUp_socket s (s.queue j) page : _ ∨ _).imp id
          fun found => ⟨page, frame, found⟩
      · exact Or.inl (by simpa [here] using same)
    · exact Or.inr ⟨page', (frames j).symm.trans frame', found⟩
  · cases scanned.picked with
    | nothing service => exact .nothing service
    | discard k page' service member frame' =>
        exact .discard k page' service (List.mem_cons_of_mem i member) ((frames k).symm.trans frame')
    | transfer k page' x service member frame' busy socket pop pending =>
        exact .transfer k page' x service (List.mem_cons_of_mem i member)
          ((frames k).symm.trans frame') busy socket pop pending

theorem scanQueue_scanned (slots : List Nat) (s : State) :
    Scanned s (scanQueue s slots) slots := by
  induction slots generalizing s with
  | nil => exact ⟨rfl, fun _ => rfl, fun _ => rfl, fun _ => Or.inl rfl, .nothing rfl⟩
  | cons i rest ih =>
      unfold scanQueue
      split
      · obtain ⟨same, frame, source, socket, picked⟩ := ih s
        refine ⟨same, frame, source, socket, ?_⟩
        cases picked with
        | nothing service => exact .nothing service
        | discard k page service member frame =>
            exact .discard k page service (List.mem_cons_of_mem i member) frame
        | transfer k page x service member frame busy socket pop pending =>
            exact .transfer k page x service (List.mem_cons_of_mem i member) frame busy socket pop
              pending
      · rename_i page frame
        have same := lookUp_frame s (s.queue i) page
        have socket := lookUp_socket s (s.queue i) page
        dsimp only
        split
        · exact scanned_lookUp frame _ _ _ same socket
            (.discard i page rfl List.mem_cons_self frame)
        · rename_i x found
          split
          · exact scanned_lookUp frame _ _ _ same socket
              (.discard i page rfl List.mem_cons_self frame)
          · rename_i pop
            split
            · rename_i pending
              exact scanned_lookUp frame { lookUp s (s.queue i) page with busy := true } _ _ same
                socket (.transfer i page x rfl List.mem_cons_self frame (by simp) (by simpa using found)
                  (by simpa using pop) pending)
            · exact (ih _).after_lookUp frame

theorem pick_scanned {s t : State} (taken : pick s = some t) :
    s.service = .ready ∧ s.holder = none ∧
      Scanned s t (List.range CONFIG_POP_QUEUE_SIZE) := by
  unfold pick at taken
  split at taken
  · rename_i service holder
    cases taken
    exact ⟨service, holder, scanQueue_scanned _ s⟩
  · cases taken

end Buenos.Net
