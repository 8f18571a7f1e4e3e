/-
# Drivers.Tty -- the interrupt driven terminal

The driver of drivers/tty.c for one terminal: its two ring buffers, `tty_read`, `tty_write`
and the two halves of the interrupt handler.  Each definition is what happens while the
device's spinlock is held, up to the point where the code releases it or goes to sleep, so
the definitions take effect one at a time.  A status register may read differently every
time: `busy k` is the answer to the `k`th look at the WBUSY bit, and an interrupt delivers
the characters that are read while RAVAIL says so.

The history is kept beside the driver: what the terminal was sent, what arrived and what was
handed to readers, and which part of which call filled the buffer.  A character that arrives
counts as accepted if fewer than `TTY_BUF_SIZE` accepted characters have not been read yet;
that is the purpose of the buffer, and not a test that the code makes.
-/
import Buenos.Lib.Libc
import Buenos.Theory.Ring
import Buenos.Theory.Run

namespace Buenos.Drivers

open Buenos.Lib Buenos.Theory

set_option autoImplicit false

def TTY_BUF_SIZE : Nat := 2048

/-! ## Reading -/

/-- One character from the data port. -/
def ttyReceiveChar (ring : RingBuffer Byte) (data : Byte) : RingBuffer Byte :=
  if TTY_BUF_SIZE < ring.count then ring else ring.push TTY_BUF_SIZE data

/-- The receiving half of `tty_interrupt_handle`. -/
def ttyReceive (ring : RingBuffer Byte) (chars : List Byte) : RingBuffer Byte := chars.foldl ttyReceiveChar ring

/-- The loop of `tty_read`, with room for so many characters in the caller's buffer. -/
def ttyTake : Nat → RingBuffer Byte → List Byte × RingBuffer Byte
  | 0, ring => ([], ring)
  | n + 1, ring =>
      if 0 < ring.count then
        let (chars, ring') := ttyTake n (ring.pop TTY_BUF_SIZE)
        (ring.front :: chars, ring')
      else ([], ring)

/-! ## Writing -/

/-- The output buffer, and what went to the data port so far. -/
structure TtyOut where
  ring : RingBuffer Byte
  port : List Byte

/-- Send the first buffered character. -/
def TtyOut.send (out : TtyOut) : TtyOut where
  ring := out.ring.pop TTY_BUF_SIZE
  port := out.port ++ [out.ring.front]

/-- The loop of `tty_write` that fills the buffer: what is in it then, the characters that
went in and those that did not. -/
def ttyFill (ring : RingBuffer Byte) : List Byte → RingBuffer Byte × List Byte × List Byte
  | [] => (ring, [], [])
  | c :: rest =>
      if ring.count < TTY_BUF_SIZE then
        let (ring', filled, left) := ttyFill (ring.push TTY_BUF_SIZE c) rest
        (ring', c :: filled, left)
      else (ring, [], c :: rest)

/-- The transmitting half of `tty_interrupt_handle`: the loop, `n` characters from the end
of the buffer. -/
def ttyTransmit (busy : Nat → Bool) : Nat → Nat → TtyOut → TtyOut
  | 0, _, out => out
  | n + 1, k, out =>
      if !busy k && 0 < out.ring.count then ttyTransmit busy n (k + 1) out.send else out

/-- What the outer loop of `tty_write` came to: the characters still to write when it goes
to sleep, none when it is over, and the parts it put into the buffer. -/
structure TtyWritten where
  out : TtyOut
  fills : List (List Byte)
  rest : List Byte

/-- The outer loop of `tty_write`.  Each round puts at least one character into the buffer,
so the number of characters is enough `fuel`. -/
def ttyWriteLoop (busy : Nat → Bool) : Nat → Nat → List Byte → TtyOut → TtyWritten
  | 0, _, rest, out => { out := out, fills := [], rest := rest }
  | fuel + 1, k, rest, out =>
      if rest = [] ∨ 0 < out.ring.count then { out := out, fills := [], rest := rest }
      else
        let (ring, filled, left) := ttyFill out.ring rest
        let out := { out with ring := ring }
        let out := if busy k then out else out.send
        let done := ttyWriteLoop busy fuel (k + 1) left out
        { done with fills := filled :: done.fills }

/-! ## The system -/

/-- A thread is outside the driver, or asleep or woken in the middle of a call. -/
inductive Phase where
  | idle
  | writing (call : Nat) (rest : List Byte) (awake : Bool)
  | reading (len : Int) (awake : Bool)

/-- A part of a call that was put into the buffer in one go. -/
structure Fill where
  call : Nat
  chars : List Byte

structure State where
  readBuf : RingBuffer Byte
  out : TtyOut
  phase : Nat → Phase
  calls : Nat
  text : Nat → List Byte
  fills : List Fill
  returned : Nat → Bool
  received : List Byte
  accepted : List Byte
  results : List Byte

def setPhase (s : State) (t : Nat) (phase : Phase) : State :=
  { s with phase := Function.update s.phase t phase }

/-- `sleepq_wake_all` on one of the two buffers. -/
def wakeWriters (phase : Nat → Phase) (t : Nat) : Phase :=
  match phase t with
  | .writing call rest _ => .writing call rest true
  | other => other

def wakeReaders (phase : Nat → Phase) (t : Nat) : Phase :=
  match phase t with
  | .reading len _ => .reading len true
  | other => other

/-- `tty_write` of thread `t` from the head of its outer loop on. -/
def writeOn (s : State) (t call : Nat) (rest : List Byte) (busy : Nat → Bool) : State :=
  let done := ttyWriteLoop busy rest.length 0 rest s.out
  let s := { s with out := done.out, fills := s.fills ++ done.fills.map (Fill.mk call) }
  if done.rest = [] then
    { setPhase s t .idle with returned := Function.update s.returned call true }
  else setPhase s t (.writing call done.rest false)

/-- `tty_read` of thread `t` from its test for an empty buffer on. -/
def readOn (s : State) (t : Nat) (len : Int) : State :=
  if s.readBuf.count = 0 then setPhase s t (.reading len false)
  else
    let (chars, ring) := ttyTake len.toNat s.readBuf
    { setPhase s t .idle with readBuf := ring, results := s.results ++ chars }

inductive Act where
  | write (t : Nat) (text : List Byte) (busy : Nat → Bool)
  | writeAgain (t : Nat) (busy : Nat → Bool)
  | read (t : Nat) (len : Int)
  | readAgain (t : Nat)
  | transmit (busy : Nat → Bool)
  | receive (chars : List Byte)

def step (s : State) : Act → Option State
  | .write t text busy =>
      match s.phase t with
      | .idle =>
          some (writeOn
            { s with calls := s.calls + 1, text := Function.update s.text s.calls text }
            t s.calls text busy)
      | _ => none
  | .writeAgain t busy =>
      match s.phase t with
      | .writing call rest true => some (writeOn s t call rest busy)
      | _ => none
  | .read t len =>
      match s.phase t with
      | .idle => some (readOn s t len)
      | _ => none
  | .readAgain t =>
      match s.phase t with
      | .reading len true => some (readOn s t len)
      | _ => none
  | .transmit busy =>
      let out := ttyTransmit busy s.out.ring.count.toNat 0 s.out
      let s := { s with out := out }
      some (if out.ring.count = 0 then { s with phase := wakeWriters s.phase } else s)
  | .receive chars =>
      some { s with
        readBuf := ttyReceive s.readBuf chars
        phase := wakeReaders s.phase
        received := s.received ++ chars
        accepted := s.accepted ++ chars.take (TTY_BUF_SIZE - (s.accepted.length - s.results.length)) }

/-- As `tty_init` leaves the device; the buffers hold what the memory held. -/
structure Boot (s : State) : Prop where
  readHead : s.readBuf.head = 0
  readCount : s.readBuf.count = 0
  writeHead : s.out.ring.head = 0
  writeCount : s.out.ring.count = 0
  port : s.out.port = []
  phase : ∀ t, s.phase t = .idle
  calls : s.calls = 0
  fills : s.fills = []
  returned : ∀ call, s.returned call = false
  received : s.received = []
  accepted : s.accepted = []
  results : s.results = []

def system : System State Act where
  initial := Boot
  step := step

/-- A terminal that has just been initialized. -/
def fresh : State where
  readBuf := { slots := fun _ => 0, head := 0, count := 0 }
  out := { ring := { slots := fun _ => 0, head := 0, count := 0 }, port := [] }
  phase := fun _ => .idle
  calls := 0
  text := fun _ => []
  fills := []
  returned := fun _ => false
  received := []
  accepted := []
  results := []

theorem fresh_boot : system.initial fresh :=
  ⟨rfl, rfl, rfl, rfl, rfl, fun _ => rfl, rfl, rfl, fun _ => rfl, rfl, rfl, rfl⟩

end Buenos.Drivers
