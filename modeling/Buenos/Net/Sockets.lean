/-
# Net.Sockets -- the socket table and the semaphores its sockets hold

`socket_open` and `socket_close` statement by statement, over `semaphore_create` and
`semaphore_destroy` of kernel/semaphore.c.  The calls hold `open_sockets_sem` from their first
look at the table on, so a call is one step; other parts of the kernel create and destroy
semaphores of their own in between.

Three fields tell whether a socket is open.  The ghost `live` says it a fourth time: an open
returned the socket, and no close came after it.
-/
import Buenos.Net.Pop
import Buenos.Theory.Scan
import Buenos.Theory.Prog
import Mathlib.Order.Bounds.Defs
import Mathlib.Data.Finset.Card
import Mathlib.Order.Interval.Finset.Nat

namespace Buenos.Net

open Buenos.Theory

set_option autoImplicit false

def CONFIG_MAX_SEMAPHORES : Nat := 128

/-- An entry of `semaphore_table`; it is free when its creator is -1. -/
structure SemaphoreEntry where
  creator : Int
  value : Int

/-- A socket; `receiveComplete` is the index of a semaphore, or NULL. -/
structure Descriptor where
  port : BitVec 16
  protocol : BitVec 8
  receiveComplete : Option Nat
  rbuf : Option Nat
  bufsize : BitVec 32
  sender : Option Nat
  copied : Option Nat
  sport : Option Nat

structure Sockets where
  openSockets : Nat → Descriptor
  semaphoreTable : Nat → SemaphoreEntry
  next : Nat

namespace Sockets

def setSocket (i : Nat) (d : Descriptor) (s : Sockets) : Sockets :=
  { s with openSockets := Function.update s.openSockets i d }

def setSemaphore (i : Nat) (e : SemaphoreEntry) (s : Sockets) : Sockets :=
  { s with semaphoreTable := Function.update s.semaphoreTable i e }

/-- The loop of `semaphore_create`, with the number of rounds left. -/
def reserve (thread : Int) : Nat → Prog Sockets (Option Nat)
  | 0 => pure none
  | rounds + 1 => do
      let semId ← Prog.gets fun s => s.next
      Prog.modify fun s => { s with next := (s.next + 1) % CONFIG_MAX_SEMAPHORES }
      let e ← Prog.gets fun s => s.semaphoreTable semId
      if e.creator = -1 then do
        Prog.modify fun s => s.setSemaphore semId { s.semaphoreTable semId with creator := thread }
        pure (some semId)
      else reserve thread rounds

/-- `thread` is the calling thread. -/
def semaphoreCreate (thread value : Int) : Prog Sockets (Option Nat) := do
  Prog.assert (fun _ => 0 ≤ value) .assertion
  let semId ← reserve thread CONFIG_MAX_SEMAPHORES
  match semId with
  | none => pure none
  | some semId => do
      Prog.modify fun s => s.setSemaphore semId { s.semaphoreTable semId with value := value }
      pure (some semId)

def semaphoreDestroy (semId : Nat) : Prog Sockets Unit :=
  Prog.modify fun s => s.setSemaphore semId { s.semaphoreTable semId with creator := -1 }

/-- The loop for an empty slot. -/
def slotScan (s : Sockets) : Nat :=
  scan (fun i => (s.openSockets i).protocol = 0) CONFIG_MAX_OPEN_SOCKETS 0

/-- The loop for an open socket on `port`. -/
def portScan (port : BitVec 16) (s : Sockets) : Nat :=
  scan (fun i => (s.openSockets i).protocol ≠ 0 && (s.openSockets i).port = port)
    CONFIG_MAX_OPEN_SOCKETS 0

/-- `while (notfree)`: the port after `port` is tried next.  After 65536 rounds every port has
been tried, and the table does not change. -/
def freePort : Nat → BitVec 16 → Prog Sockets (BitVec 16)
  | 0, _ => Prog.stop .forever
  | rounds + 1, port => do
      let port := port + 1
      let i ← Prog.gets (portScan port)
      if i < CONFIG_MAX_OPEN_SOCKETS then freePort rounds port else pure port

/-- The port that the socket gets, or nothing where the call fails. -/
def choosePort (port : BitVec 16) : Prog Sockets (Option (BitVec 16)) :=
  if port = 0 then do
    let port ← freePort 65536 port
    Prog.assert (fun _ => port ≠ 0) .assertion
    pure (some port)
  else do
    let i ← Prog.gets (portScan port)
    if i < CONFIG_MAX_OPEN_SOCKETS then pure none else pure (some port)

def setReceiveComplete (i : Nat) (sem : Option Nat) (s : Sockets) : Sockets :=
  s.setSocket i { s.openSockets i with receiveComplete := sem }

def socketOpen (thread : Int) (protocol : BitVec 8) (port : BitVec 16) : Prog Sockets Int :=
  if protocol ≠ PROTOCOL_POP ∧ protocol ≠ PROTOCOL_SOP then pure (-1)
  else do
    let i ← Prog.gets slotScan
    if i = CONFIG_MAX_OPEN_SOCKETS then pure (-1)
    else do
      let chosen ← choosePort port
      match chosen with
      | none => pure (-1)
      | some port => do
          let sem ← semaphoreCreate thread 0
          Prog.modify (setReceiveComplete i sem)
          match sem with
          | none => pure (-1)
          | some _ => do
              Prog.modify fun s => s.setSocket i
                { s.openSockets i with
                  port := port, protocol := protocol, rbuf := none, bufsize := 0
                  sender := none, copied := none }
              pure i

def socketClose (socket : Int) : Prog Sockets Unit := do
  Prog.assert (fun _ => 0 ≤ socket && socket < CONFIG_MAX_OPEN_SOCKETS) .assertion
  let i := socket.toNat
  let sem ← Prog.gets fun s => (s.openSockets i).receiveComplete
  match sem with
  | none => pure ()
  | some sem => do
      Prog.modify fun s => s.setSocket i
        { s.openSockets i with
          port := 0, protocol := 0, rbuf := none, bufsize := 0, sender := none, copied := none }
      semaphoreDestroy sem
      Prog.modify (setReceiveComplete i none)

end Sockets

/-! ## Runs -/

/-- The tables and the sockets that are open for their callers. -/
structure SocketRun where
  table : Sockets
  live : Nat → Bool

inductive SocketAction where
  | openSocket (thread : Int) (protocol : BitVec 8) (port : BitVec 16)
  | closeSocket (socket : Int)
  | create (thread value : Int)
  | destroy (semId : Nat)

/-- A semaphore that is reserved, and for no socket. -/
def Elsewhere (s : Sockets) (semId : Nat) : Prop :=
  semId < CONFIG_MAX_SEMAPHORES ∧ (s.semaphoreTable semId).creator ≠ -1 ∧
    ∀ i < CONFIG_MAX_OPEN_SOCKETS, (s.openSockets i).receiveComplete ≠ some semId

instance (s : Sockets) (semId : Nat) : Decidable (Elsewhere s semId) := by
  unfold Elsewhere
  infer_instance

/-- The state after a call that returns. -/
def ranTo {α : Type} (m : Prog Sockets α) (s : SocketRun) (live : α → Nat → Bool) :
    Option SocketRun :=
  match m s.table with
  | .returned (a, t) => some { table := t, live := live a }
  | .stopped _ => none

def socketStep (s : SocketRun) : SocketAction → Option SocketRun
  | .openSocket thread protocol port =>
      if 0 ≤ thread then
        ranTo (Sockets.socketOpen thread protocol port) s fun r =>
          if r < 0 then s.live else Function.update s.live r.toNat true
      else none
  | .closeSocket socket =>
      ranTo (Sockets.socketClose socket) s fun _ => Function.update s.live socket.toNat false
  | .create thread value =>
      if 0 ≤ thread then ranTo (Sockets.semaphoreCreate thread value) s fun _ => s.live else none
  | .destroy semId =>
      if Elsewhere s.table semId then
        ranTo (Sockets.semaphoreDestroy semId) s fun _ => s.live
      else none

/-- `semaphore_init` and the table part of `socket_init` have run. -/
def SocketInit (s : SocketRun) : Prop :=
  s = { table :=
          { openSockets := fun _ =>
              { port := 0, protocol := 0, receiveComplete := none, rbuf := none, bufsize := 0
                sender := none, copied := none, sport := none }
            semaphoreTable := fun _ => { creator := -1, value := 0 }
            next := 0 }
        live := fun _ => false }

def socketSystem : System SocketRun SocketAction where
  initial := SocketInit
  step := socketStep

/-! ## What should hold -/

def PortInUse (s : Sockets) (port : BitVec 16) : Prop :=
  ∃ i < CONFIG_MAX_OPEN_SOCKETS, (s.openSockets i).protocol ≠ 0 ∧ (s.openSockets i).port = port

/-- Why a call of `socket_open` fails. -/
def Refused (s : Sockets) (protocol : BitVec 8) (port : BitVec 16) : Prop :=
  (protocol ≠ PROTOCOL_POP ∧ protocol ≠ PROTOCOL_SOP) ∨
  (port ≠ 0 ∧ PortInUse s port) ∨
  (∀ i < CONFIG_MAX_OPEN_SOCKETS, (s.openSockets i).protocol ≠ 0) ∨
  (∀ i < CONFIG_MAX_SEMAPHORES, (s.semaphoreTable i).creator ≠ -1)

/-- The port a call with `port` is to bind: `port` itself, or the smallest one unused. -/
def PortFor (s : Sockets) (port bound : BitVec 16) : Prop :=
  if port = 0 then
    IsLeast {n : Nat | 0 < n ∧ n < 65536 ∧ ¬ PortInUse s (BitVec.ofNat 16 n)} bound.toNat
  else bound = port

/-- `t` is `s` with a socket opened in an empty slot. -/
structure Opened (s t : Sockets) (i : Nat) (protocol : BitVec 8) (port : BitVec 16) : Prop where
  inside : i < CONFIG_MAX_OPEN_SOCKETS
  empty : (s.openSockets i).protocol = 0
  protocol : (t.openSockets i).protocol = protocol
  port : PortFor s port (t.openSockets i).port
  complete : (t.openSockets i).receiveComplete ≠ none
  others : ∀ j, j ≠ i → t.openSockets j = s.openSockets j

/-- The table and what the next `socket_open` does with it. -/
structure SocketTable (s : SocketRun) : Prop where
  distinct : ∀ i j, i < CONFIG_MAX_OPEN_SOCKETS → j < CONFIG_MAX_OPEN_SOCKETS → i ≠ j →
    s.live i = true → s.live j = true →
      (s.table.openSockets i).port ≠ (s.table.openSockets j).port
  nonzero : ∀ i < CONFIG_MAX_OPEN_SOCKETS, s.live i = true → (s.table.openSockets i).port ≠ 0
  liveIff : ∀ i < CONFIG_MAX_OPEN_SOCKETS,
    s.live i = true ↔ (s.table.openSockets i).protocol ≠ 0
  protocolIff : ∀ i < CONFIG_MAX_OPEN_SOCKETS, (s.table.openSockets i).protocol ≠ 0 ↔
    (s.table.openSockets i).receiveComplete ≠ none
  opens : ∀ thread protocol port, 0 ≤ thread →
    (Sockets.socketOpen thread protocol port).Ends s.table fun r t =>
      (r < 0 ↔ Refused s.table protocol port) ∧
      (r < 0 → t.openSockets = s.table.openSockets) ∧
      (0 ≤ r → Opened s.table t r.toNat protocol port)

/-! ## The semaphores -/

namespace Sockets

variable {s : Sockets} {thread : Int}

@[simp] theorem setSocket_openSockets (i : Nat) (d : Descriptor) (s : Sockets) :
    (s.setSocket i d).openSockets = Function.update s.openSockets i d := rfl

@[simp] theorem setSocket_semaphoreTable (i : Nat) (d : Descriptor) (s : Sockets) :
    (s.setSocket i d).semaphoreTable = s.semaphoreTable := rfl

@[simp] theorem setSocket_next (i : Nat) (d : Descriptor) (s : Sockets) :
    (s.setSocket i d).next = s.next := rfl

@[simp] theorem setSemaphore_openSockets (i : Nat) (e : SemaphoreEntry) (s : Sockets) :
    (s.setSemaphore i e).openSockets = s.openSockets := rfl

@[simp] theorem setSemaphore_semaphoreTable (i : Nat) (e : SemaphoreEntry) (s : Sockets) :
    (s.setSemaphore i e).semaphoreTable = Function.update s.semaphoreTable i e := rfl

@[simp] theorem setSemaphore_next (i : Nat) (e : SemaphoreEntry) (s : Sockets) :
    (s.setSemaphore i e).next = s.next := rfl

/-- No semaphore is free. -/
def Exhausted (s : Sockets) : Prop :=
  ∀ i < CONFIG_MAX_SEMAPHORES, (s.semaphoreTable i).creator ≠ -1

/-- The rounds of `semaphore_create` meet a free semaphore, or only reserved ones. -/
theorem reserve_cases (thread : Int) (rounds : Nat) (s : Sockets)
    (inside : s.next < CONFIG_MAX_SEMAPHORES) :
    ∃ n < CONFIG_MAX_SEMAPHORES,
      ((∀ k < rounds,
          (s.semaphoreTable ((s.next + k) % CONFIG_MAX_SEMAPHORES)).creator ≠ -1) ∧
        reserve thread rounds s = .returned (none, { s with next := n })) ∨
      ∃ semId < CONFIG_MAX_SEMAPHORES, (s.semaphoreTable semId).creator = -1 ∧
        reserve thread rounds s = .returned (some semId,
          ({ s with next := n } : Sockets).setSemaphore semId
            { s.semaphoreTable semId with creator := thread }) := by
  induction rounds generalizing s with
  | zero => exact ⟨s.next, inside, .inl ⟨fun k less => absurd less (Nat.not_lt_zero k), rfl⟩⟩
  | succ rounds ih =>
      have inside' : (s.next + 1) % CONFIG_MAX_SEMAPHORES < CONFIG_MAX_SEMAPHORES :=
        Nat.mod_lt _ (by decide)
      by_cases free : (s.semaphoreTable s.next).creator = -1
      · refine ⟨_, inside', .inr ⟨s.next, inside, free, ?_⟩⟩
        rw [reserve, Prog.bind_gets_apply, Prog.bind_modify_apply, Prog.bind_gets_apply,
          if_pos free]
        rfl
      · have step : reserve thread (rounds + 1) s = reserve thread rounds
            { s with next := (s.next + 1) % CONFIG_MAX_SEMAPHORES } := by
          rw [reserve, Prog.bind_gets_apply, Prog.bind_modify_apply, Prog.bind_gets_apply,
            if_neg free]
        obtain ⟨n, bound, ⟨taken, ran⟩ | found⟩ :=
          ih { s with next := (s.next + 1) % CONFIG_MAX_SEMAPHORES } inside'
        · refine ⟨n, bound, .inl ⟨fun k less => ?_, by rw [step, ran]⟩⟩
          cases k with
          | zero => rwa [Nat.add_zero, Nat.mod_eq_of_lt inside]
          | succ k =>
              have later := taken k (by omega)
              rwa [Nat.mod_add_mod, Nat.add_assoc, Nat.add_comm 1 k] at later
        · obtain ⟨semId, less, free', ran⟩ := found
          exact ⟨n, bound, .inr ⟨semId, less, free', by rw [step, ran]⟩⟩

/-- `semaphore_create` fails exactly when no semaphore is free, and reserves one if not. -/
theorem semaphoreCreate_cases (thread : Int) {value : Int} (nonneg : 0 ≤ value) (s : Sockets)
    (inside : s.next < CONFIG_MAX_SEMAPHORES) :
    ∃ n < CONFIG_MAX_SEMAPHORES,
      (Exhausted s ∧ semaphoreCreate thread value s = .returned (none, { s with next := n })) ∨
      ∃ semId < CONFIG_MAX_SEMAPHORES, (s.semaphoreTable semId).creator = -1 ∧
        semaphoreCreate thread value s = .returned (some semId,
          ({ s with next := n } : Sockets).setSemaphore semId ⟨thread, value⟩) := by
  have asserted : decide (0 ≤ value) = true := decide_eq_true nonneg
  obtain ⟨n, bound, ⟨taken, ran⟩ | ⟨semId, less, free, ran⟩⟩ :=
    reserve_cases thread CONFIG_MAX_SEMAPHORES s inside
  · refine ⟨n, bound, .inl ⟨fun i less => ?_, ?_⟩⟩
    · obtain ⟨k, round, met⟩ := cycle_covers inside less
      rw [← met]
      exact taken k round
    · rw [semaphoreCreate, Prog.bind_assert_apply, if_pos asserted, Prog.bind_of_returned ran]
      rfl
  · refine ⟨n, bound, .inr ⟨semId, less, free, ?_⟩⟩
    rw [semaphoreCreate, Prog.bind_assert_apply, if_pos asserted, Prog.bind_of_returned ran]
    -- the second store hides the first one
    have stored : Function.update (Function.update s.semaphoreTable semId
        { s.semaphoreTable semId with creator := thread }) semId ⟨thread, value⟩ =
          Function.update s.semaphoreTable semId ⟨thread, value⟩ := Function.update_idem _ _ _
    simp [setSemaphore, stored]

/-! ## The ports -/

theorem slotScan_full_iff (s : Sockets) : slotScan s = CONFIG_MAX_OPEN_SOCKETS ↔
    ∀ i < CONFIG_MAX_OPEN_SOCKETS, (s.openSockets i).protocol ≠ 0 := by
  rw [slotScan, scan_zero_end_iff]
  simp

theorem slotScan_empty (room : slotScan s ≠ CONFIG_MAX_OPEN_SOCKETS) :
    slotScan s < CONFIG_MAX_OPEN_SOCKETS ∧ (s.openSockets (slotScan s)).protocol = 0 := by
  obtain ⟨less, empty⟩ := scan_zero_found room
  exact ⟨less, of_decide_eq_true empty⟩

theorem portScan_early_iff (s : Sockets) (port : BitVec 16) :
    portScan port s < CONFIG_MAX_OPEN_SOCKETS ↔ PortInUse s port := by
  constructor
  · intro early
    obtain ⟨less, hit⟩ := scan_zero_found (Nat.ne_of_lt early)
    exact ⟨_, less, by simpa using hit⟩
  · rintro ⟨i, less, holds⟩
    by_contra late
    have ended : portScan port s = CONFIG_MAX_OPEN_SOCKETS := by
      have bound : portScan port s ≤ 0 + CONFIG_MAX_OPEN_SOCKETS := scan_le _ 0
      omega
    have none := scan_zero_end_iff _ |>.1 ended i less
    rw [holds.2, decide_eq_true rfl, Bool.and_true] at none
    exact of_decide_eq_false none holds.1

/-- The search goes up to the first port that no open socket has. -/
theorem freePort_ran {q : Nat} (unused : ¬ PortInUse s (BitVec.ofNat 16 q))
    (rounds p : Nat) (above : p < q) (enough : q ≤ p + rounds)
    (used : ∀ k, p < k → k < q → PortInUse s (BitVec.ofNat 16 k)) :
    freePort rounds (BitVec.ofNat 16 p) s = .returned (BitVec.ofNat 16 q, s) := by
  induction rounds generalizing p with
  | zero => omega
  | succ rounds ih =>
      have next : BitVec.ofNat 16 p + 1 = BitVec.ofNat 16 (p + 1) := by
        rw [BitVec.ofNat_add]
        rfl
      rw [freePort, Prog.bind_gets_apply, next]
      by_cases last : p + 1 = q
      · rw [if_neg (by rwa [portScan_early_iff, last]), last]
        rfl
      · rw [if_pos ((portScan_early_iff s _).2 (used (p + 1) (by omega) (by omega)))]
        exact ih (p + 1) (by omega) (by omega) fun k low => used k (by omega)

/-- More ports than sockets: one of the first 65 is unused. -/
theorem unusedPort (s : Sockets) :
    ∃ q, 0 < q ∧ q < 65536 ∧ ¬ PortInUse s (BitVec.ofNat 16 q) := by
  by_contra none
  have all : ∀ q ∈ Finset.Icc 1 65, ∃ i < CONFIG_MAX_OPEN_SOCKETS,
      (s.openSockets i).port = BitVec.ofNat 16 q := by
    intro q mem
    obtain ⟨low, high⟩ := Finset.mem_Icc.1 mem
    by_contra unused
    refine none ⟨q, low, by omega, ?_⟩
    rintro ⟨i, less, -, same⟩
    exact unused ⟨i, less, same⟩
  choose! socketOn inside bound using all
  obtain ⟨p, memP, q, memQ, different, same⟩ := Finset.exists_ne_map_eq_of_card_lt_of_maps_to
    (s := Finset.Icc 1 65) (t := Finset.range CONFIG_MAX_OPEN_SOCKETS) (f := socketOn)
    (by simp [CONFIG_MAX_OPEN_SOCKETS]) fun q mem => Finset.mem_coe.2
      (Finset.mem_range.2 (inside q mem))
  have ports := bound p memP
  rw [same, bound q memQ] at ports
  have numbers := congrArg BitVec.toNat ports
  have := Finset.mem_Icc.1 memP
  have := Finset.mem_Icc.1 memQ
  rw [BitVec.toNat_ofNat, BitVec.toNat_ofNat] at numbers
  omega

/-- With port 0 the smallest unused port is chosen. -/
theorem choosePort_zero (s : Sockets) :
    ∃ q : BitVec 16, choosePort 0 s = .returned (some q, s) ∧ PortFor s 0 q ∧ q ≠ 0 ∧
      ¬ PortInUse s q := by
  classical
  have exist := unusedPort s
  obtain ⟨positive, small, unused⟩ := Nat.find_spec exist
  have least : ∀ k, 0 < k → k < Nat.find exist → PortInUse s (BitVec.ofNat 16 k) := by
    intro k low high
    by_contra unused'
    exact Nat.find_min exist high ⟨low, by omega, unused'⟩
  generalize Nat.find exist = q at *
  have number : (BitVec.ofNat 16 q).toNat = q := by
    rw [BitVec.toNat_ofNat]
    exact Nat.mod_eq_of_lt small
  have nonzero : BitVec.ofNat 16 q ≠ 0 := by
    intro zero
    have := congrArg BitVec.toNat zero
    rw [number] at this
    change q = 0 at this
    omega
  refine ⟨BitVec.ofNat 16 q, ?_, ?_, nonzero, unused⟩
  · have ran := freePort_ran unused 65536 0 positive (by omega) fun k low => least k low
    rw [show BitVec.ofNat 16 0 = 0 from rfl] at ran
    have asserted : decide (BitVec.ofNat 16 q ≠ 0) = true := decide_eq_true nonzero
    rw [choosePort, if_pos rfl, Prog.bind_of_returned ran, Prog.bind_assert_apply,
      if_pos asserted]
    rfl
  · rw [PortFor, if_pos rfl, number]
    refine ⟨⟨positive, small, unused⟩, ?_⟩
    rintro k ⟨low, -, unused'⟩
    by_contra below
    exact unused' (least k low (Nat.lt_of_not_le below))

theorem choosePort_used {port : BitVec 16} (nonzero : port ≠ 0) (used : PortInUse s port) :
    choosePort port s = .returned (none, s) := by
  rw [choosePort, if_neg nonzero, Prog.bind_gets_apply,
    if_pos ((portScan_early_iff s port).2 used)]
  rfl

theorem choosePort_unused {port : BitVec 16} (nonzero : port ≠ 0) (unused : ¬ PortInUse s port) :
    choosePort port s = .returned (some port, s) := by
  rw [choosePort, if_neg nonzero, Prog.bind_gets_apply,
    if_neg (mt (portScan_early_iff s port).1 unused)]
  rfl

/-- The choice of a port: it fails on a port in use, and finds an unused one if not. -/
theorem choosePort_cases (s : Sockets) (port : BitVec 16) :
    (port ≠ 0 ∧ PortInUse s port ∧ choosePort port s = .returned (none, s)) ∨
    (¬ (port ≠ 0 ∧ PortInUse s port) ∧ ∃ q : BitVec 16,
      choosePort port s = .returned (some q, s) ∧ PortFor s port q ∧ q ≠ 0 ∧
        ¬ PortInUse s q) := by
  by_cases zero : port = 0
  · subst zero
    exact .inr ⟨fun both => both.1 rfl, choosePort_zero s⟩
  · by_cases used : PortInUse s port
    · exact .inl ⟨zero, used, choosePort_used zero used⟩
    · refine .inr ⟨fun both => used both.2, port, choosePort_unused zero used, ?_, zero, used⟩
      rw [PortFor, if_neg zero]

/-! ## A call of `socket_open` -/

/-- What a successful call leaves: the semaphore reserved, the entry filled in. -/
def opened (s : Sockets) (n i semId : Nat) (thread : Int) (protocol : BitVec 8)
    (port : BitVec 16) : Sockets :=
  (({ s with next := n } : Sockets).setSemaphore semId ⟨thread, 0⟩).setSocket i
    { s.openSockets i with
      receiveComplete := some semId, port := port, protocol := protocol, rbuf := none
      bufsize := 0, sender := none, copied := none }

/-- The call is refused and leaves the table alone, or opens a socket. -/
theorem socketOpen_cases (inside : s.next < CONFIG_MAX_SEMAPHORES)
    (closed : ∀ i < CONFIG_MAX_OPEN_SOCKETS, (s.openSockets i).protocol = 0 →
      (s.openSockets i).receiveComplete = none)
    (thread : Int) (protocol : BitVec 8) (port : BitVec 16) :
    ∃ n < CONFIG_MAX_SEMAPHORES,
      (Refused s protocol port ∧
        socketOpen thread protocol port s = .returned (-1, { s with next := n })) ∨
      (¬ Refused s protocol port ∧ (protocol = PROTOCOL_POP ∨ protocol = PROTOCOL_SOP) ∧
        ∃ i < CONFIG_MAX_OPEN_SOCKETS, ∃ semId < CONFIG_MAX_SEMAPHORES, ∃ bound,
          (s.openSockets i).protocol = 0 ∧ (s.semaphoreTable semId).creator = -1 ∧
          PortFor s port bound ∧ bound ≠ 0 ∧ ¬ PortInUse s bound ∧
          socketOpen thread protocol port s =
            .returned ((i : Int), opened s n i semId thread protocol bound)) := by
  by_cases unsupported : protocol ≠ PROTOCOL_POP ∧ protocol ≠ PROTOCOL_SOP
  · refine ⟨s.next, inside, .inl ⟨.inl unsupported, ?_⟩⟩
    rw [socketOpen, if_pos unsupported]
    rfl
  have supported : protocol = PROTOCOL_POP ∨ protocol = PROTOCOL_SOP := by
    by_cases pop : protocol = PROTOCOL_POP
    · exact .inl pop
    · exact .inr (by_contra fun sop => unsupported ⟨pop, sop⟩)
  by_cases full : slotScan s = CONFIG_MAX_OPEN_SOCKETS
  · refine ⟨s.next, inside, .inl ⟨.inr (.inr (.inl ((slotScan_full_iff s).1 full))), ?_⟩⟩
    rw [socketOpen, if_neg unsupported, Prog.bind_gets_apply, if_pos full]
    rfl
  obtain ⟨i, scanned⟩ : ∃ i, slotScan s = i := ⟨_, rfl⟩
  obtain ⟨less, empty⟩ := slotScan_empty full
  rw [scanned] at full less empty
  have null := closed i less empty
  obtain ⟨nonzero, used, chosen⟩ | ⟨free, q, chosen, portFor, nonzero, unused⟩ :=
    choosePort_cases s port
  · refine ⟨s.next, inside, .inl ⟨.inr (.inl ⟨nonzero, used⟩), ?_⟩⟩
    rw [socketOpen, if_neg unsupported, Prog.bind_gets_apply, scanned, if_neg full,
      Prog.bind_of_returned chosen]
    rfl
  obtain ⟨n, bound, ⟨exhausted, created⟩ | ⟨semId, less', reserved, created⟩⟩ :=
    semaphoreCreate_cases thread (Int.le_refl 0) s inside
  · refine ⟨n, bound, .inl ⟨.inr (.inr (.inr exhausted)), ?_⟩⟩
    -- NULL goes where NULL was
    have same : setReceiveComplete i none { s with next := n } = { s with next := n } := by
      have entry : { s.openSockets i with receiveComplete := none } = s.openSockets i := by
        rw [← null]
      simp [setReceiveComplete, setSocket, entry]
    rw [socketOpen, if_neg unsupported, Prog.bind_gets_apply, scanned, if_neg full,
      Prog.bind_of_returned chosen]
    refine (Prog.bind_of_returned created).trans ?_
    rw [Prog.bind_modify_apply, same]
    rfl
  · refine ⟨n, bound, .inr ⟨?_, supported, i, less, semId, less', q, empty, reserved, portFor,
      nonzero, unused, ?_⟩⟩
    · rintro (bad | taken | allTaken | exhausted)
      · exact unsupported bad
      · exact free taken
      · exact allTaken i less empty
      · exact exhausted semId less' reserved
    · rw [socketOpen, if_neg unsupported, Prog.bind_gets_apply, scanned, if_neg full,
        Prog.bind_of_returned chosen]
      refine (Prog.bind_of_returned created).trans ?_
      rw [Prog.bind_modify_apply]
      refine (Prog.bind_modify_apply _ _ _).trans ?_
      simp [opened, setReceiveComplete, setSocket]

/-! ## A call of `socket_close` -/

def closed (s : Sockets) (i semId : Nat) : Sockets :=
  (s.setSemaphore semId { s.semaphoreTable semId with creator := -1 }).setSocket i
    { s.openSockets i with
      port := 0, protocol := 0, receiveComplete := none, rbuf := none, bufsize := 0
      sender := none, copied := none }

theorem socketClose_none {socket : Int}
    (inside : 0 ≤ socket ∧ socket < CONFIG_MAX_OPEN_SOCKETS)
    (null : (s.openSockets socket.toNat).receiveComplete = none) :
    socketClose socket s = .returned ((), s) := by
  have asserted : (0 ≤ socket && socket < CONFIG_MAX_OPEN_SOCKETS) = true := by
    simpa using inside
  rw [socketClose, Prog.bind_assert_apply, if_pos (by exact asserted), Prog.bind_gets_apply, null]
  rfl

theorem socketClose_some {socket : Int} {semId : Nat}
    (inside : 0 ≤ socket ∧ socket < CONFIG_MAX_OPEN_SOCKETS)
    (sem : (s.openSockets socket.toNat).receiveComplete = some semId) :
    socketClose socket s = .returned ((), closed s socket.toNat semId) := by
  have asserted : (0 ≤ socket && socket < CONFIG_MAX_OPEN_SOCKETS) = true := by
    simpa using inside
  rw [socketClose, Prog.bind_assert_apply, if_pos (by exact asserted), Prog.bind_gets_apply, sem]
  refine (Prog.bind_modify_apply _ _ _).trans ?_
  rw [semaphoreDestroy, Prog.bind_modify_apply, Prog.modify_apply]
  simp [closed, setReceiveComplete, setSocket, setSemaphore]

theorem socketClose_outside {socket : Int}
    (outside : ¬ (0 ≤ socket ∧ socket < CONFIG_MAX_OPEN_SOCKETS)) :
    socketClose socket s = .stopped .assertion := by
  have asserted : ¬ (0 ≤ socket && socket < CONFIG_MAX_OPEN_SOCKETS) = true := by
    simpa using outside
  rw [socketClose, Prog.bind_assert_apply, if_neg (by exact asserted)]

end Sockets

/-! ## The invariant -/

section Invariant

/-- What every run keeps; the semaphores of the sockets are reserved, and no two sockets share
one. -/
structure Tidy (s : SocketRun) : Prop where
  next : s.table.next < CONFIG_MAX_SEMAPHORES
  liveIff : ∀ i < CONFIG_MAX_OPEN_SOCKETS,
    s.live i = true ↔ (s.table.openSockets i).protocol ≠ 0
  protocolIff : ∀ i < CONFIG_MAX_OPEN_SOCKETS, (s.table.openSockets i).protocol ≠ 0 ↔
    (s.table.openSockets i).receiveComplete ≠ none
  nonzero : ∀ i < CONFIG_MAX_OPEN_SOCKETS, (s.table.openSockets i).protocol ≠ 0 →
    (s.table.openSockets i).port ≠ 0
  distinct : ∀ i j, i < CONFIG_MAX_OPEN_SOCKETS → j < CONFIG_MAX_OPEN_SOCKETS → i ≠ j →
    (s.table.openSockets i).protocol ≠ 0 → (s.table.openSockets j).protocol ≠ 0 →
      (s.table.openSockets i).port ≠ (s.table.openSockets j).port
  reserved : ∀ i < CONFIG_MAX_OPEN_SOCKETS, ∀ semId,
    (s.table.openSockets i).receiveComplete = some semId →
      (s.table.semaphoreTable semId).creator ≠ -1
  apart : ∀ i j, i < CONFIG_MAX_OPEN_SOCKETS → j < CONFIG_MAX_OPEN_SOCKETS → i ≠ j → ∀ semId,
    (s.table.openSockets i).receiveComplete = some semId →
      (s.table.openSockets j).receiveComplete ≠ some semId

variable {s t : SocketRun}

theorem Tidy.idle (tidy : Tidy s) (i : Nat) (less : i < CONFIG_MAX_OPEN_SOCKETS)
    (zero : (s.table.openSockets i).protocol = 0) :
    (s.table.openSockets i).receiveComplete = none := by
  by_contra some_
  exact (tidy.protocolIff i less).2 some_ zero

theorem Tidy.init (start : SocketInit s) : Tidy s := by
  subst start
  constructor <;> simp [CONFIG_MAX_SEMAPHORES]

/-- Changes to semaphores that no socket holds. -/
theorem Tidy.semaphores (tidy : Tidy s) (same : t.table.openSockets = s.table.openSockets)
    (live : t.live = s.live) (next : t.table.next < CONFIG_MAX_SEMAPHORES)
    (held : ∀ i < CONFIG_MAX_OPEN_SOCKETS, ∀ semId,
      (s.table.openSockets i).receiveComplete = some semId →
        (t.table.semaphoreTable semId).creator ≠ -1) : Tidy t := by
  refine ⟨next, ?_, ?_, ?_, ?_, ?_, ?_⟩
  · rw [same, live]
    exact tidy.liveIff
  · rw [same]
    exact tidy.protocolIff
  · rw [same]
    exact tidy.nonzero
  · rw [same]
    exact tidy.distinct
  · rw [same]
    exact held
  · rw [same]
    exact tidy.apart

theorem Tidy.opened (tidy : Tidy s) {n i semId : Nat} {thread : Int} {protocol : BitVec 8}
    {port : BitVec 16} (next : n < CONFIG_MAX_SEMAPHORES) (here : i < CONFIG_MAX_OPEN_SOCKETS)
    (empty : (s.table.openSockets i).protocol = 0)
    (free : (s.table.semaphoreTable semId).creator = -1) (creator : thread ≠ -1)
    (supported : protocol ≠ 0) (nonzero : port ≠ 0) (unused : ¬ PortInUse s.table port) :
    Tidy { table := Sockets.opened s.table n i semId thread protocol port
           live := Function.update s.live i true } := by
  -- the other sockets hold other semaphores, on other ports
  have other : ∀ j < CONFIG_MAX_OPEN_SOCKETS,
      (s.table.openSockets j).receiveComplete ≠ some semId :=
    fun j less holds => tidy.reserved j less semId holds free
  have ports : ∀ j < CONFIG_MAX_OPEN_SOCKETS, (s.table.openSockets j).protocol ≠ 0 →
      (s.table.openSockets j).port ≠ port :=
    fun j less occupied same => unused ⟨j, less, occupied, same⟩
  refine ⟨next, fun j less => ?_, fun j less => ?_, fun j less => ?_, fun j k less less' => ?_,
    fun j less id => ?_, fun j k less less' different id => ?_⟩
  · by_cases same : j = i
    · subst same
      simpa [Sockets.opened] using supported
    · simpa [Sockets.opened, same] using tidy.liveIff j less
  · by_cases same : j = i
    · subst same
      simpa [Sockets.opened] using supported
    · simpa [Sockets.opened, same] using tidy.protocolIff j less
  · by_cases same : j = i
    · subst same
      simpa [Sockets.opened] using fun _ => nonzero
    · simpa [Sockets.opened, same] using tidy.nonzero j less
  · intro different
    by_cases same : j = i
    · subst same
      simpa [Sockets.opened, Ne.symm different] using
        fun _ occupied same => ports k less' occupied same.symm
    · by_cases same' : k = i
      · subst same'
        simpa [Sockets.opened, same] using fun occupied _ => ports j less occupied
      · simpa [Sockets.opened, same, same'] using tidy.distinct j k less less' different
  · by_cases same : j = i
    · subst same
      intro held
      have : semId = id := by simpa [Sockets.opened] using held
      subst this
      simpa [Sockets.opened] using creator
    · intro held
      have held' : (s.table.openSockets j).receiveComplete = some id := by
        simpa [Sockets.opened, same] using held
      have different : id ≠ semId := by
        rintro rfl
        exact other j less held'
      simpa [Sockets.opened, different] using tidy.reserved j less id held'
  · by_cases same : j = i
    · subst same
      intro held held'
      have : semId = id := by simpa [Sockets.opened] using held
      subst this
      exact other k less' (by simpa [Sockets.opened, Ne.symm different] using held')
    · by_cases same' : k = i
      · subst same'
        intro held held'
        have : semId = id := by simpa [Sockets.opened] using held'
        subst this
        exact other j less (by simpa [Sockets.opened, same] using held)
      · simpa [Sockets.opened, same, same'] using tidy.apart j k less less' different id

theorem Tidy.closed (tidy : Tidy s) {i semId : Nat} (here : i < CONFIG_MAX_OPEN_SOCKETS)
    (sem : (s.table.openSockets i).receiveComplete = some semId) :
    Tidy { table := Sockets.closed s.table i semId, live := Function.update s.live i false } := by
  refine ⟨tidy.next, fun j less => ?_, fun j less => ?_, fun j less => ?_,
    fun j k less less' => ?_, fun j less id => ?_, fun j k less less' different id => ?_⟩
  · by_cases same : j = i
    · subst same
      simp [Sockets.closed]
    · simpa [Sockets.closed, same] using tidy.liveIff j less
  · by_cases same : j = i
    · subst same
      simp [Sockets.closed]
    · simpa [Sockets.closed, same] using tidy.protocolIff j less
  · by_cases same : j = i
    · subst same
      simp [Sockets.closed]
    · simpa [Sockets.closed, same] using tidy.nonzero j less
  · by_cases same : j = i
    · subst same
      simp [Sockets.closed]
    · by_cases same' : k = i
      · subst same'
        simp [Sockets.closed]
      · simpa [Sockets.closed, same, same'] using tidy.distinct j k less less'
  · by_cases same : j = i
    · subst same
      simp [Sockets.closed]
    · intro held
      have held' : (s.table.openSockets j).receiveComplete = some id := by
        simpa [Sockets.closed, same] using held
      have different : id ≠ semId := by
        rintro rfl
        exact tidy.apart i j here less (Ne.symm same) id sem held'
      simpa [Sockets.closed, different] using tidy.reserved j less id held'
  · by_cases same : j = i
    · subst same
      simp [Sockets.closed]
    · by_cases same' : k = i
      · subst same'
        simp [Sockets.closed]
      · simpa [Sockets.closed, same, same'] using tidy.apart j k less less' different id

/-- Closing a socket that is not open leaves everything as it was. -/
theorem Tidy.notLive (tidy : Tidy s) {i : Nat} (here : i < CONFIG_MAX_OPEN_SOCKETS)
    (null : (s.table.openSockets i).receiveComplete = none) :
    Function.update s.live i false = s.live := by
  have zero : ¬ (s.table.openSockets i).protocol ≠ 0 :=
    fun occupied => (tidy.protocolIff i here).1 occupied null
  have dead : s.live i = false := eq_false_of_ne_true (mt (tidy.liveIff i here).1 zero)
  rw [← dead, Function.update_eq_self]

theorem supported_nonzero {protocol : BitVec 8}
    (supported : protocol = PROTOCOL_POP ∨ protocol = PROTOCOL_SOP) : protocol ≠ 0 := by
  rcases supported with rfl | rfl <;> decide

/-- The state after a call is the one that the call returns. -/
theorem ranTo_some {α : Type} {m : Prog Sockets α} {live : α → Nat → Bool} {a : α} {u : Sockets}
    (ran : m s.table = .returned (a, u)) : ranTo m s live = some ⟨u, live a⟩ := by
  rw [ranTo, ran]

/-- One step of a run keeps the tables tidy. -/
theorem Tidy.step (tidy : Tidy s) (a : SocketAction) (taken : socketStep s a = some t) :
    Tidy t := by
  cases a with
  | openSocket thread protocol port =>
      rw [socketStep] at taken
      split at taken
      · rename_i real
        obtain ⟨n, next, ⟨-, ran⟩ | ⟨-, supported, i, here, semId, -, bound, empty, free, -,
          nonzero, unused, ran⟩⟩ := Sockets.socketOpen_cases tidy.next tidy.idle thread protocol port
        · rw [ranTo_some ran] at taken
          cases taken
          exact tidy.semaphores rfl rfl next tidy.reserved
        · rw [ranTo_some ran] at taken
          cases taken
          exact tidy.opened next here empty free (by omega) (supported_nonzero supported) nonzero
            unused
      · cases taken
  | closeSocket socket =>
      rw [socketStep] at taken
      by_cases inside : 0 ≤ socket ∧ socket < CONFIG_MAX_OPEN_SOCKETS
      · have here : socket.toNat < CONFIG_MAX_OPEN_SOCKETS := by omega
        cases sem : (s.table.openSockets socket.toNat).receiveComplete with
        | none =>
            rw [ranTo_some (Sockets.socketClose_none inside sem)] at taken
            cases taken
            rw [tidy.notLive here sem]
            exact tidy
        | some semId =>
            rw [ranTo_some (Sockets.socketClose_some inside sem)] at taken
            cases taken
            exact tidy.closed here sem
      · rw [ranTo, Sockets.socketClose_outside inside] at taken
        cases taken
  | create thread value =>
      rw [socketStep] at taken
      split at taken
      · rename_i real
        by_cases nonneg : 0 ≤ value
        · obtain ⟨n, next, ⟨-, ran⟩ | ⟨semId, -, free, ran⟩⟩ :=
            Sockets.semaphoreCreate_cases thread nonneg s.table tidy.next
          · rw [ranTo_some ran] at taken
            cases taken
            exact tidy.semaphores rfl rfl next tidy.reserved
          · rw [ranTo_some ran] at taken
            cases taken
            refine tidy.semaphores rfl rfl next fun i less id held => ?_
            by_cases same : id = semId
            · subst same
              simpa using (by omega : thread ≠ -1)
            · simpa [same] using tidy.reserved i less id held
        · rw [ranTo, Sockets.semaphoreCreate, Prog.bind_assert_apply,
            if_neg (by simpa using nonneg)] at taken
          cases taken
      · cases taken
  | destroy semId =>
      rw [socketStep] at taken
      split at taken
      · rename_i elsewhere
        cases taken
        refine tidy.semaphores rfl rfl tidy.next fun i less id held => ?_
        have different : id ≠ semId := by
          rintro rfl
          exact elsewhere.2.2 i less held
        simpa [different] using tidy.reserved i less id held
      · cases taken

theorem Tidy.of_reachable (reached : socketSystem.Reachable s) : Tidy s :=
  reached.invariant (fun _ start => .init start) fun _ a _ tidy taken => tidy.step a taken

end Invariant

/-- **The socket table.**  In every state of every run the open sockets have ports of their own,
the three fields agree on what is open, and `socket_open` fails exactly for the reasons that it
checks, leaves the table alone when it does, and binds the port that it should if not. -/
theorem socketTable_sound (s : SocketRun) (reached : socketSystem.Reachable s) :
    SocketTable s := by
  have tidy := Tidy.of_reachable reached
  refine ⟨fun i j less less' different live live' => ?_, fun i less live => ?_, tidy.liveIff,
    tidy.protocolIff, fun thread protocol port real => ?_⟩
  · exact tidy.distinct i j less less' different ((tidy.liveIff i less).1 live)
      ((tidy.liveIff j less').1 live')
  · exact tidy.nonzero i less ((tidy.liveIff i less).1 live)
  · obtain ⟨n, -, ⟨refused, ran⟩ | ⟨accepted, -, i, here, semId, -, bound, empty, -, portFor, -,
      -, ran⟩⟩ := Sockets.socketOpen_cases tidy.next tidy.idle thread protocol port
    · exact ⟨_, _, ran, iff_of_true (by decide) refused, fun _ => rfl,
        fun nonneg => absurd nonneg (by decide)⟩
    · refine ⟨_, _, ran, iff_of_false (by omega) accepted, fun negative => by omega, fun _ => ?_⟩
      rw [Int.toNat_natCast]
      refine ⟨here, empty, ?_, ?_, ?_, fun j different => ?_⟩
      · simp [Sockets.opened]
      · simpa [Sockets.opened] using portFor
      · simp [Sockets.opened]
      · simp [Sockets.opened, different]

/-! ## Two sockets -/

/-- The tables after initialisation. -/
def socketBoot : SocketRun where
  table :=
    { openSockets := fun _ =>
        { port := 0, protocol := 0, receiveComplete := none, rbuf := none, bufsize := 0
          sender := none, copied := none, sport := none }
      semaphoreTable := fun _ => { creator := -1, value := 0 }
      next := 0 }
  live := fun _ => false

/-- Port 0 after port 1 has been asked for. -/
def twoSockets : SocketRun :=
  (socketSystem.exec socketBoot
    [.openSocket 3 PROTOCOL_POP 1, .openSocket 4 PROTOCOL_SOP 0]).getD socketBoot

example : (twoSockets.table.openSockets 1).port = 2 := rfl

theorem socketTable_sound_twoSockets : SocketTable twoSockets := by
  have ran : socketSystem.exec socketBoot
      [.openSocket 3 PROTOCOL_POP 1, .openSocket 4 PROTOCOL_SOP 0] = some twoSockets := rfl
  exact socketTable_sound twoSockets ((System.Reachable.start (M := socketSystem) rfl).exec ran)

end Buenos.Net
