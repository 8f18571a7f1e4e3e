/-
# Drivers.DiskQueue -- the request queue of the disk driver

drivers/disk.c and drivers/disksched.c.  Threads submit requests, each a structure of its
caller; those that cannot be served at once wait in a queue linked through the structures.
Every access to the queue, to the request served and to the io area is made with the
device's spinlock held and interrupts off, so what `disk_submit_request` and
`disk_interrupt_handle` do between taking the spinlock and releasing it takes effect at
once; between these parts anything may happen on other CPUs.

The disk is busy from a command on until it completes it, by raising the interrupt flag of
the command.  A panic of an error that the disk reports ends the run.  An assertion that
fails, a use of a null semaphore and a loop that does not end are recorded in `failed`.

The logs hold the requests that entered the queue, those whose command went to the disk and
those whose semaphore was raised.  No function reads them.
-/
import Buenos.Lib.Bitmap
import Buenos.Theory.Chain
import Buenos.Theory.Run

namespace Buenos.Drivers.DiskQueue

open Buenos.Lib Buenos.Theory

set_option autoImplicit false

inductive Operation where
  | read
  | write
  deriving DecidableEq

/-- `gbd_request_t`; the field `internal` is never read. -/
structure Request where
  block : Word
  buf : Word
  sem : Option Nat
  operation : Operation
  next : Option Nat
  returnValue : Int

/-- The flags of the status register. -/
structure Status where
  rbusy : Bool
  wbusy : Bool
  rirq : Bool
  wirq : Bool

/-- A command is written to the io area. -/
def Status.command (status : Status) : Operation → Status
  | .read => { status with rbusy := true }
  | .write => { status with wbusy := true }

/-- What is known of a request when it is logged. -/
structure Entry where
  request : Nat
  block : Word
  buf : Word
  operation : Operation
  sem : Option Nat
  deriving DecidableEq

structure Driver where
  request : Nat → Request
  requestQueue : Option Nat
  requestServed : Option Nat
  status : Status
  semaphore : Nat → Int
  entered : List Entry
  issued : List Entry
  raised : List Entry

inductive Stop where
  | assertion
  | null
  | loop
  | diskError

/-! ## The driver -/

namespace Driver

def entry (d : Driver) (r : Nat) : Entry where
  request := r
  block := (d.request r).block
  buf := (d.request r).buf
  operation := (d.request r).operation
  sem := (d.request r).sem

def setRequest (d : Driver) (r : Nat) (request : Request) : Driver :=
  { d with request := Function.update d.request r request }

def setNext (d : Driver) (r : Nat) (next : Option Nat) : Driver :=
  d.setRequest r { d.request r with next }

/-- Take the first request off the queue and write its command. -/
def serve (d : Driver) (req : Nat) : Driver :=
  let d := { d with requestQueue := (d.request req).next }
  let d := d.setNext req none
  let d := { d with requestServed := some req, issued := d.issued ++ [d.entry req] }
  { d with status := d.status.command (d.request req).operation }

/-- `semaphore_V` for a request. -/
def raise (d : Driver) (r sem : Nat) : Driver :=
  { d with
    semaphore := Function.update d.semaphore sem (d.semaphore sem + 1)
    raised := d.raised ++ [d.entry r] }

end Driver

/-- Put the request at the end of the queue. -/
def diskschedSchedule (turns : Nat) (d : Driver) (r : Nat) : Except Stop Driver :=
  let d := { d with entered := d.entered ++ [d.entry r] }
  match d.requestQueue with
  | none => .ok { d with requestQueue := some r }
  | some q =>
      match lastFrom (fun r => (d.request r).next) turns q with
      | none => .error .loop
      | some last => .ok (d.setNext last (some r))

/-- `rejects` says for which blocks the disk reports an error. -/
def diskNextRequest (rejects : Word → Bool) (d : Driver) : Except Stop Driver :=
  if d.status.rbusy || d.status.wbusy then .error .assertion
  else if d.requestServed ≠ none then .error .assertion
  else
    match d.requestQueue with
    | none => .ok d
    | some req =>
        let d := d.serve req
        if rejects (d.request req).block then .error .diskError else .ok d

/-- `disk_submit_request` while it holds the spinlock. -/
def diskSubmit (rejects : Word → Bool) (turns : Nat) (d : Driver) (r : Nat) : Except Stop Driver :=
  match diskschedSchedule turns d r with
  | .error stop => .error stop
  | .ok d => if d.requestServed = none then diskNextRequest rejects d else .ok d

/-- `disk_interrupt_handle` while it holds the spinlock. -/
def diskInterruptHandle (rejects : Word → Bool) (d : Driver) : Except Stop Driver :=
  if !(d.status.rirq || d.status.wirq) then .ok d
  else
    let d := { d with status := { d.status with wirq := false } }
    let d := { d with status := { d.status with rirq := false } }
    match d.requestServed with
    | none => .error .assertion
    | some r =>
        let d := d.setRequest r { d.request r with returnValue := 0 }
        match (d.request r).sem with
        | none => .error .null
        | some sem => diskNextRequest rejects { d.raise r sem with requestServed := none }

/-! ## Threads -/

/-- Where a thread is in `disk_submit_request`: before the spinlock is taken, waiting for
its own semaphore, or behind that. -/
inductive Phase where
  | idle
  | ready (request : Nat) (semNull : Bool)
  | waiting (request : Nat)
  | woken (request : Nat)

/-- The request that a thread is about to submit or waits for. -/
def Phase.request : Phase → Option Nat
  | .idle => none
  | .ready r _ => some r
  | .waiting r => some r
  | .woken r => some r

/-- A semaphore of the table is free, was created by a thread in `disk_submit_request`, or
belongs to some other code. -/
inductive Use where
  | free
  | submit (thread : Nat)
  | other
  deriving DecidableEq

structure State where
  driver : Driver
  phase : Nat → Phase
  use : Nat → Use
  result : Nat → Int
  failed : Bool

inductive Act where
  /-- `disk_read_block` and `disk_write_block` up to the spinlock; `created` is what
  `semaphore_create` returns if it is called. -/
  | call (thread request : Nat) (operation : Operation) (block buf : Word) (sem created : Option Nat)
  | enqueue (thread : Nat)
  /-- `semaphore_P` returns. -/
  | pass (thread : Nat)
  | finish (thread : Nat)
  /-- The disk completes its command. -/
  | complete
  | interrupt
  /-- Other code creates, uses or destroys its semaphores. -/
  | others (sem : Nat) (use : Use) (value : Int)

namespace State

def setPhase (s : State) (t : Nat) (phase : Phase) : State :=
  { s with phase := Function.update s.phase t phase }

/-- The panic of a reported error ends the run, and every other failure is recorded. -/
def settle (s : State) (next : Driver → State) : Except Stop Driver → Option State
  | .ok d => some (next d)
  | .error .diskError => none
  | .error _ => some { s with failed := true }

end State

def step (rejects : Word → Bool) (s : State) : Act → Option State
  | .call t r operation block buf sem created =>
      match s.phase t with
      | .idle =>
          let request := { block, buf, sem, operation, next := none, returnValue := -1 }
          match sem with
          | some _ =>
              some ({ s with driver := s.driver.setRequest r request }.setPhase t (.ready r false))
          | none =>
              match created with
              | none =>
                  some { s with
                    driver := s.driver.setRequest r request
                    result := Function.update s.result t 0 }
              | some sem =>
                  if s.use sem = .free then
                    let d := s.driver.setRequest r { request with sem := some sem }
                    some ({ s with
                      driver := { d with semaphore := Function.update d.semaphore sem 0 }
                      use := Function.update s.use sem (.submit t) }.setPhase t (.ready r true))
                  else none
      | _ => none
  | .enqueue t =>
      match s.phase t with
      | .ready r semNull =>
          s.settle (fun d =>
              if semNull then { s with driver := d }.setPhase t (.waiting r)
              else
                { s with driver := d, result := Function.update s.result t 1 }.setPhase t .idle)
            (diskSubmit rejects (s.driver.entered.length + 1) s.driver r)
      | _ => none
  | .pass t =>
      match s.phase t with
      | .waiting r =>
          match (s.driver.request r).sem with
          | none => some { s with failed := true }
          | some sem =>
              if 0 < s.driver.semaphore sem then
                let semaphore := Function.update s.driver.semaphore sem (s.driver.semaphore sem - 1)
                some ({ s with driver := { s.driver with semaphore } }.setPhase t (.woken r))
              else none
      | _ => none
  | .finish t =>
      match s.phase t with
      | .woken r =>
          match (s.driver.request r).sem with
          | none => some { s with failed := true }
          | some sem =>
              some ({ s with
                driver := s.driver.setRequest r { s.driver.request r with sem := none }
                use := Function.update s.use sem .free
                result := Function.update s.result t
                  (if (s.driver.request r).returnValue = 0 then 1 else 0) }.setPhase t .idle)
      | _ => none
  | .complete =>
      let status := s.driver.status
      if status.rbusy then
        some { s with driver := { s.driver with
          status := { status with rbusy := false, rirq := true } } }
      else if status.wbusy then
        some { s with driver := { s.driver with
          status := { status with wbusy := false, wirq := true } } }
      else none
  | .interrupt =>
      s.settle (fun d => { s with driver := d }) (diskInterruptHandle rejects s.driver)
  | .others sem use value =>
      some { s with
        driver := { s.driver with semaphore := Function.update s.driver.semaphore sem value }
        use := Function.update s.use sem use }

/-- The requests that entered the queue and have not been completed. -/
def Driver.inFlight (d : Driver) : List Entry := d.entered.drop d.raised.length

/-- What the driver asks of its callers: a request is not submitted again before it is
complete, the semaphore of an asynchronous request is one of the caller's own, which stays
until it is raised, and nobody uses a semaphore of the driver. -/
def Legal (s : State) : Act → Prop
  | .call _ r _ _ _ sem _ =>
      (∀ e ∈ s.driver.inFlight, e.request ≠ r) ∧ (∀ t, (s.phase t).request ≠ some r) ∧
        ∀ i, sem = some i → s.use i = .other
  | .others i use _ =>
      (∀ t, s.use i ≠ .submit t ∧ use ≠ .submit t) ∧
        ((∃ e ∈ s.driver.inFlight, e.sem = some i) → use = .other) ∧
          ∀ t r semNull, s.phase t = .ready r semNull → (s.driver.request r).sem = some i → use = .other
  | _ => True

/-- As `disk_init` leaves the device, with no thread in the driver. -/
structure Boot (s : State) : Prop where
  requestQueue : s.driver.requestQueue = none
  requestServed : s.driver.requestServed = none
  rbusy : s.driver.status.rbusy = false
  wbusy : s.driver.status.wbusy = false
  rirq : s.driver.status.rirq = false
  wirq : s.driver.status.wirq = false
  entered : s.driver.entered = []
  issued : s.driver.issued = []
  raised : s.driver.raised = []
  phase : ∀ t, s.phase t = .idle
  use : ∀ i t, s.use i ≠ .submit t
  failed : s.failed = false

def diskSystem (rejects : Word → Bool) : System State Act where
  initial := Boot
  step := step rejects

end Buenos.Drivers.DiskQueue
