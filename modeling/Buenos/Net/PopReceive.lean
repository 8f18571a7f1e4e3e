/-
# Net.PopReceive -- a receive returns with its own frame

`socket_recvfrom` waits on a semaphore that all calls on the socket share.  The
service thread clears `rbuf` before it raises the semaphore, so a second call can
register in between, and `semaphore_V` wakes whoever sleeps first.  What ties a
wake-up to the call whose pointers were filled is the order alone.

`LinedUp` is that order: the calls on a socket that have not come back are those the
service thread is done with, the one it is about to wake, and the one whose pointers
are registered; and only the calls that are not done with sleep, from the first on.
-/
import Buenos.Net.PopFrames
import Mathlib.Data.List.Nodup

namespace Buenos.Net

open Buenos.Lib Buenos.Theory

set_option autoImplicit false

/-- Everything a call asks for has been stored from frame `f`. -/
structure Filled (call : Recv) (f : Frame) : Prop where
  filledFrom : call.filledFrom = some f
  buffer : call.buffer = f.payload.take (min f.size.toNat call.buflength)
  addr : call.addr = some f.source
  length : call.length = some (min f.size.toNat call.buflength)
  sport : call.sport = some f.sourcePort

/-- Every call of `socket_recvfrom` that returned after its wait has one frame's payload
in its buffer and the frame's sender, port and length in its out-parameters, and no two
such calls have the same frame. -/
structure ReceivesOwn (s : State) : Prop where
  filled : ∀ c, c < s.nextCall → (s.calls c).phase = .complete → ∃ f, Filled (s.calls c) f
  once : ∀ c d f g, c < s.nextCall → d < s.nextCall → (s.calls c).phase = .complete →
    (s.calls d).phase = .complete → Filled (s.calls c) f → Filled (s.calls d) g →
    f.serial = g.serial → c = d

/-- The stages between clearing `rbuf` and raising the semaphore. -/
def Stage.finishing : Stage → Bool
  | .bufsize | .zeroSender | .zeroCopied | .zeroSport | .free | .wake => true
  | _ => false

theorem pending_of_finishing {stage : Stage} (finish : stage.finishing = true) :
    stage.pending = false := by
  cases stage <;> first | rfl | cases finish

/-- The call on socket `x` that the service thread is about to wake. -/
def finishing (s : State) (x : Nat) : List Nat :=
  match s.service with
  | .transfer stage k _ _ wake =>
      if stage.finishing = true ∧ (s.queue k).socket = some x then wake.toList else []
  | _ => []

/-- The service thread has not yet raised the semaphore of socket `x` for call `c`. -/
def InTransit (s : State) (x c : Nat) : Prop :=
  (s.sockets x).rbuf = some c ∨ c ∈ finishing s x

/-- A call whose frame is still to be delivered begins its wait only when all calls that
registered before it on its socket sleep or have returned.  A socket with a call on it
is not closed. -/
def WaitsInOrder (s : State) : Act → Prop
  | .awaitComplete c => InTransit s (s.calls c).socket c →
      ∀ sem, (s.sockets (s.calls c).socket).receiveComplete = some sem →
        ∃ rest, s.line (s.calls c).socket = sem.waiters ++ c :: rest
  | .socketClose x => s.line x = []
  | _ => True

/-- What has been stored for a call when the service thread has come to a stage. -/
def Stored (f : Frame) (call : Recv) (bytes : Nat) : Stage → Prop
  | .sender => Copied
  | .copied => Copied ∧ call.addr = some f.source
  | .sport => Copied ∧ call.addr = some f.source ∧ call.length = some bytes
  | .rbuf => Copied ∧ call.addr = some f.source ∧ call.length = some bytes ∧
      call.sport = some f.sourcePort
  | _ => True
where
  Copied : Prop := bytes = min f.size.toNat call.buflength ∧ call.filledFrom = some f ∧
    call.buffer = f.payload.take bytes

/-- The calls of a socket with semaphore `sem`: first those the service thread is done
with, then the one it is about to wake, then the one that is pending. -/
structure LinedUp (calls : Nat → Recv) (line mid : List Nat) (rbuf : Option Nat)
    (sem : Semaphore) (done : List Nat) : Prop where
  line : line = done ++ (mid ++ rbuf.toList)
  filled : ∀ c, c ∈ done ++ mid → ∃ f, Filled (calls c) f
  value : sem.value = done.length - sem.waiters.length
  empty : done = [] ∨ sem.waiters = []
  waiters : sem.waiters <+: mid ++ rbuf.toList

/-- A socket entry is free and without calls, or its calls are lined up. -/
inductive SocketLine (calls : Nat → Recv) (socket : SocketDescriptor) (line mid : List Nat) : Prop
  | closed (semaphore : socket.receiveComplete = none) (protocol : socket.protocol = 0#8)
      (rbuf : socket.rbuf = none) (line : line = []) (mid : mid = [])
  | opened (sem : Semaphore) (done : List Nat) (semaphore : socket.receiveComplete = some sem)
      (protocol : socket.protocol ≠ 0#8) (lined : LinedUp calls line mid socket.rbuf sem done)

structure RecvInv (cfg : Config) (s : State) : Prop where
  base : SocketInv cfg s
  frames : FrameInv s
  nodup : ∀ x, (s.line x).Nodup
  member : ∀ x c, c ∈ s.line x ↔
    c < s.nextCall ∧ (s.calls c).socket = x ∧ (s.calls c).phase ≠ .complete
  lined : ∀ x, SocketLine s.calls (s.sockets x) (s.line x) (finishing s x)
  bufsize : ∀ x c, (s.sockets x).rbuf = some c → (s.sockets x).bufsize = (s.calls c).buflength
  waking : ∀ stage k page bytes wake, s.service = .transfer stage k page bytes wake →
    stage.finishing = true → wake ≠ none
  stored : ∀ stage k page bytes wake x c, s.service = .transfer stage k page bytes wake →
    stage.pending = true → (s.queue k).socket = some x → (s.sockets x).rbuf = some c →
    Stored (s.mem page) (s.calls c) bytes stage
  complete : ∀ c, c < s.nextCall → (s.calls c).phase = .complete → ∃ f, Filled (s.calls c) f

theorem RecvInv.receivesOwn {cfg : Config} {s : State} (inv : RecvInv cfg s) : ReceivesOwn s where
  filled := inv.complete
  once c d f g first second _ _ filled filled' :=
    inv.frames.usedOnce c d f g first second filled.filledFrom filled'.filledFrom

section Lines

variable {calls calls' : Nat → Recv} {line mid : List Nat} {sem : Semaphore}

theorem LinedUp.congr {rbuf : Option Nat} {done : List Nat} (nodup : line.Nodup)
    (same : ∀ c, c ∈ line → rbuf ≠ some c → ∀ f, Filled (calls c) f → Filled (calls' c) f)
    (lined : LinedUp calls line mid rbuf sem done) : LinedUp calls' line mid rbuf sem done := by
  obtain ⟨line_, filled, value, empty, waiters⟩ := lined
  refine ⟨line_, fun c among => ?_, value, empty, waiters⟩
  obtain ⟨f, was⟩ := filled c among
  rw [line_, ← List.append_assoc] at nodup
  refine ⟨f, same c ?_ (fun pending => ?_) f was⟩
  · rw [line_, ← List.append_assoc]
    exact List.mem_append_left _ among
  · exact (List.disjoint_of_nodup_append nodup) among (by simp [pending])

/-- The calls that are not pending keep what has been stored for them, and the entry its
protocol, semaphore and pending call. -/
theorem SocketLine.congr {socket socket' : SocketDescriptor} (nodup : line.Nodup)
    (same : ∀ c, c ∈ line → socket.rbuf ≠ some c → ∀ f, Filled (calls c) f → Filled (calls' c) f)
    (semaphore : socket'.receiveComplete = socket.receiveComplete)
    (protocol : socket'.protocol = socket.protocol) (rbuf : socket'.rbuf = socket.rbuf)
    (lined : SocketLine calls socket line mid) : SocketLine calls' socket' line mid := by
  cases lined with
  | closed semaphore' protocol' rbuf' line mid =>
      exact .closed (semaphore.trans semaphore') (protocol.trans protocol') (rbuf.trans rbuf') line mid
  | opened sem done semaphore' protocol' lined =>
      exact .opened sem done (semaphore.trans semaphore') (protocol ▸ protocol')
        (rbuf ▸ lined.congr nodup same)

/-- The pending call has not come back. -/
theorem SocketLine.pending {socket : SocketDescriptor} {c : Nat}
    (lined : SocketLine calls socket line mid) (rbuf : socket.rbuf = some c) : c ∈ line := by
  cases lined with
  | closed _ _ none => rw [none] at rbuf; cases rbuf
  | opened sem done _ _ lined => simp [lined.line, rbuf]

theorem LinedUp.registers {done : List Nat} {n : Nat} (lined : LinedUp calls line mid none sem done) :
    LinedUp calls (line ++ [n]) mid (some n) sem done where
  line := by simp [lined.line]
  filled := lined.filled
  value := lined.value
  empty := lined.empty
  waiters := lined.waiters.trans (by simp)

/-- A call that comes to its wait in order sleeps, or has been served. -/
theorem LinedUp.waits {rbuf : Option Nat} {done : List Nat} {c : Nat} (among : c ∈ line)
    (lined : LinedUp calls line mid rbuf sem done)
    (order : (rbuf = some c ∨ c ∈ mid) → ∃ rest, line = sem.waiters ++ c :: rest) :
    (sem.value ≤ 0 → LinedUp calls line mid rbuf
      { value := sem.value - 1, waiters := sem.waiters ++ [c] } done) ∧
    (0 < sem.value → (∃ f, Filled (calls c) f) ∧
      LinedUp calls (line.erase c) mid rbuf { sem with value := sem.value - 1 } (done.erase c)) := by
  obtain ⟨line_, filled, value, empty, waiters⟩ := lined
  constructor
  · intro low
    have none : done = [] := by
      rcases empty with none | awake
      · exact none
      · rw [awake] at value
        exact List.length_eq_zero_iff.1 (by simp at value; omega)
    subst none
    simp only [List.nil_append] at line_
    have transit : rbuf = some c ∨ c ∈ mid := by
      rw [line_] at among
      simp only [List.mem_append, Option.mem_toList] at among
      exact among.symm
    obtain ⟨rest, split⟩ := order transit
    refine ⟨by simpa using line_, filled, ?_, Or.inl rfl, ⟨rest, ?_⟩⟩
    · simp at value ⊢
      omega
    · rw [← line_, split]
      simp
  · intro high
    have awake : sem.waiters = [] := by
      rcases empty with none | awake
      · rw [none] at value
        simp at value
        omega
      · exact awake
    have served : c ∈ done := by
      by_contra unserved
      have transit : rbuf = some c ∨ c ∈ mid := by
        rw [line_] at among
        simp only [List.mem_append, Option.mem_toList] at among
        tauto
      obtain ⟨rest, split⟩ := order transit
      rw [awake, line_] at split
      cases done with
      | nil => rw [awake] at value; simp at value; omega
      | cons d done =>
          simp only [List.nil_append, List.cons_append, List.cons.injEq] at split
          exact unserved (split.1 ▸ List.mem_cons_self)
    refine ⟨filled c (by simp [served]), ⟨?_, fun d among' => ?_, ?_, Or.inr awake, waiters⟩⟩
    · rw [line_, List.erase_append_left _ served]
    · refine filled d ?_
      simp only [List.mem_append] at among' ⊢
      exact among'.imp List.mem_of_mem_erase id
    · have := List.length_erase_of_mem served
      have := List.length_pos_of_mem served
      simp only [value, awake, List.length_nil]
      omega

/-- Raising the semaphore wakes the call that was served, or counts it as done. -/
theorem LinedUp.wakes {rbuf : Option Nat} {done : List Nat} {c : Nat}
    (lined : LinedUp calls line [c] rbuf sem done) :
    (sem.value < 0 → ∀ d rest, sem.waiters = d :: rest → (∃ f, Filled (calls d) f) ∧
      d ∈ line ∧
      LinedUp calls (line.erase d) [] rbuf { value := sem.value + 1, waiters := rest } []) ∧
    ((sem.value < 0 → sem.waiters = []) →
      LinedUp calls line [] rbuf { sem with value := sem.value + 1 } (done ++ [c])) := by
  obtain ⟨line_, filled, value, empty, waiters⟩ := lined
  constructor
  · intro low d rest sleeping
    have none : done = [] := by
      rcases empty with none | awake
      · exact none
      · rw [awake] at sleeping
        cases sleeping
    subst none
    rw [sleeping] at waiters value
    simp only [List.cons_append, List.nil_append, List.cons_prefix_cons] at waiters line_
    obtain ⟨rfl, waiters⟩ := waiters
    refine ⟨filled d (by simp), by simp [line_], ?_, by simp, ?_, Or.inl rfl, by simpa using waiters⟩
    · simp [line_]
    · simp at value ⊢
      omega
  · intro none
    have awake : sem.waiters = [] := by
      rcases empty with empty | awake
      · rcases Nat.eq_zero_or_pos sem.waiters.length with zero | some
        · exact List.length_eq_zero_iff.1 zero
        · exact none (by rw [value, empty]; simp; omega)
      · exact awake
    refine ⟨by simp [line_], by simpa using filled, ?_, Or.inr awake, by simp [awake]⟩
    simp [value, awake]

end Lines

section Receives

variable {cfg : Config} {s u : State}

theorem recvInv_boot (boot : Boot cfg s) : RecvInv cfg s where
  base := socketInv_boot boot
  frames := frameInv_boot boot
  nodup x := by simp [boot.line]
  member x c := by simp [boot.line, boot.nextCall]
  lined x := by
    refine .closed ?_ ?_ ?_ (boot.line x) ?_
    all_goals simp [boot.sockets, finishing, boot.service]
  bufsize x c rbuf := by simp [boot.sockets] at rbuf
  waking stage k page bytes wake service := by simp [boot.service] at service
  stored stage k page bytes wake x c service := by simp [boot.service] at service
  complete c call := by simp [boot.nextCall] at call

theorem finishing_congr (service : u.service = s.service)
    (queue : ∀ k, s.service.slot = some k → (u.queue k).socket = (s.queue k).socket) (x : Nat) :
    finishing u x = finishing s x := by
  unfold finishing
  rw [service]
  cases at_ : s.service with
  | transfer stage k page bytes wake => simp only [queue k (by rw [at_]; rfl)]
  | _ => rfl

theorem finishing_none (stages : ∀ stage k page bytes wake,
    s.service = .transfer stage k page bytes wake → stage.finishing = false) (x : Nat) :
    finishing s x = [] := by
  unfold finishing
  split
  · rename_i stage k page bytes wake service
    simp [stages stage k page bytes wake service]
  · rfl

/-- At most the phase of a call changed, but not to or from complete. -/
structure SameMemory (a b : Recv) : Prop where
  memory : b = { a with phase := b.phase }
  complete : b.phase = .complete ↔ a.phase = .complete

theorem SameMemory.refl (a : Recv) : SameMemory a a := ⟨rfl, Iff.rfl⟩

theorem SameMemory.filled {a b : Recv} (same : SameMemory a b) {f : Frame} (filled : Filled a f) :
    Filled b f := by
  rw [same.memory]
  exact ⟨filled.filledFrom, filled.buffer, filled.addr, filled.length, filled.sport⟩

theorem SameMemory.stored {a b : Recv} (same : SameMemory a b) {f : Frame} {bytes : Nat}
    {stage : Stage} (stored : Stored f a bytes stage) : Stored f b bytes stage := by
  rw [same.memory]
  cases stage <;> exact stored

/-- The service thread stays at its place in a transfer, begins one, or is past the
storing of what the call asked for. -/
def Serving (s u : State) : Prop :=
  ∀ stage k page bytes wake, u.service = .transfer stage k page bytes wake →
    (stage.finishing = true → wake ≠ none) ∧
    (stage.pending = true → stage = .copy ∨
      s.service = .transfer stage k page bytes wake ∧ (u.queue k).socket = (s.queue k).socket ∧
        u.mem page = s.mem page)

theorem RecvInv.serving (inv : RecvInv cfg s) (service : u.service = s.service)
    (queue : ∀ k, s.service.slot = some k → (u.queue k).socket = (s.queue k).socket)
    (mem : ∀ k p, owns s (.slot k) p → u.mem p = s.mem p) : Serving s u := by
  intro stage k page bytes wake at_
  rw [service] at at_
  exact ⟨inv.waking stage k page bytes wake at_, fun yet =>
    Or.inr ⟨at_, queue k (by rw [at_]; rfl), mem k page (inv.base.pages.serving_owns at_ yet)⟩⟩

theorem serving_past (past : ∀ stage k page bytes wake,
    u.service = .transfer stage k page bytes wake →
      (stage.finishing = true → wake ≠ none) ∧ (stage.pending = true → stage = .copy)) :
    Serving s u := fun stage k page bytes wake at_ =>
  ⟨(past stage k page bytes wake at_).1, fun yet => Or.inl ((past stage k page bytes wake at_).2 yet)⟩

theorem RecvInv.stored_serving (inv : RecvInv cfg s) (serving : Serving s u)
    (rbuf : ∀ x, (u.sockets x).rbuf = (s.sockets x).rbuf)
    (calls : ∀ x c, (s.sockets x).rbuf = some c → SameMemory (s.calls c) (u.calls c))
    (stage : Stage) (k page bytes : Nat) (wake : Option Nat) (x c : Nat)
    (at_ : u.service = .transfer stage k page bytes wake) (yet : stage.pending = true)
    (socket : (u.queue k).socket = some x) (pending : (u.sockets x).rbuf = some c) :
    Stored (u.mem page) (u.calls c) bytes stage := by
  rw [rbuf] at pending
  rcases (serving stage k page bytes wake at_).2 yet with rfl | ⟨before, queue, mem⟩
  · trivial
  · rw [mem]
    exact (calls x c pending).stored
      (inv.stored stage k page bytes wake x c before yet (queue ▸ socket) pending)

/-- A step that brings no call onto a socket and none back. -/
theorem RecvInv.keeps (inv : RecvInv cfg s) (base : SocketInv cfg u) (frames : FrameInv u)
    (lined : ∀ x, SocketLine s.calls (u.sockets x) (s.line x) (finishing u x))
    (rbuf : ∀ x, (u.sockets x).rbuf = (s.sockets x).rbuf)
    (bufsize : ∀ x, (s.sockets x).rbuf ≠ none → (u.sockets x).bufsize = (s.sockets x).bufsize)
    (calls : ∀ c, SameMemory (s.calls c) (u.calls c)) (nextCall : u.nextCall = s.nextCall)
    (line : u.line = s.line) (serving : Serving s u) : RecvInv cfg u where
  base := base
  frames := frames
  nodup := line ▸ inv.nodup
  member x c := by
    have socket : (u.calls c).socket = (s.calls c).socket := by rw [(calls c).memory]
    rw [line, nextCall, socket, ne_eq, (calls c).complete]
    exact inv.member x c
  lined x := by
    rw [line]
    exact (lined x).congr (inv.nodup x) (fun c _ _ _ => (calls c).filled) rfl rfl rfl
  bufsize x c pending := by
    have buflength : (u.calls c).buflength = (s.calls c).buflength := by rw [(calls c).memory]
    rw [rbuf] at pending
    rw [bufsize x (by simp [pending]), buflength]
    exact inv.bufsize x c pending
  waking stage k page bytes wake at_ := (serving stage k page bytes wake at_).1
  stored := inv.stored_serving serving rbuf fun _ c _ => calls c
  complete c call phase := by
    rw [nextCall] at call
    obtain ⟨f, filled⟩ := inv.complete c call ((calls c).complete.1 phase)
    exact ⟨f, (calls c).filled filled⟩

/-- A step that leaves the socket table, the calls and the call to be woken alone. -/
theorem RecvInv.quiet (inv : RecvInv cfg s) (base : SocketInv cfg u) (frames : FrameInv u)
    (sockets : u.sockets = s.sockets) (calls : u.calls = s.calls)
    (nextCall : u.nextCall = s.nextCall) (line : u.line = s.line)
    (mid : ∀ x, finishing u x = finishing s x) (serving : Serving s u) : RecvInv cfg u :=
  inv.keeps base frames (fun x => by rw [sockets, mid]; exact inv.lined x)
    (fun _ => by rw [sockets]) (fun _ _ => by rw [sockets])
    (fun _ => by rw [calls]; exact .refl _) nextCall line serving

/-- A call comes back from its wait. -/
theorem RecvInv.returns (inv : RecvInv cfg s) (base : SocketInv cfg u) (frames : FrameInv u)
    {x c : Nat} {sem : Semaphore} {done : List Nat} (among : c ∈ s.line x)
    (filled : ∃ f, Filled (s.calls c) f)
    (lined : LinedUp s.calls ((s.line x).erase c) (finishing u x) (s.sockets x).rbuf sem done)
    (opened : (s.sockets x).protocol ≠ 0#8)
    (sockets : u.sockets =
      Function.update s.sockets x { s.sockets x with receiveComplete := some sem })
    (calls : u.calls = Function.update s.calls c { s.calls c with phase := .complete })
    (nextCall : u.nextCall = s.nextCall)
    (line : u.line = Function.update s.line x ((s.line x).erase c))
    (elsewhere : ∀ y, y ≠ x → finishing u y = finishing s y) (serving : Serving s u) :
    RecvInv cfg u := by
  have memory : ∀ d f, Filled (s.calls d) f → Filled (u.calls d) f := by
    intro d f was
    rw [calls]
    by_cases here : d = c
    · subst here
      rw [Function.update_self]
      exact ⟨was.filledFrom, was.buffer, was.addr, was.length, was.sport⟩
    · rwa [Function.update_of_ne here]
  have lines : ∀ y, u.line y = (s.line y).erase c := by
    intro y
    rw [line]
    by_cases here : y = x
    · subst here
      rw [Function.update_self]
    · rw [Function.update_of_ne here, List.erase_of_not_mem]
      intro other
      exact here (((inv.member y c).1 other).2.1.symm.trans ((inv.member x c).1 among).2.1)
  have nodup : ∀ y, (u.line y).Nodup := fun y => by
    rw [lines]
    exact (inv.nodup y).erase c
  have same : ∀ y, (u.sockets y).rbuf = (s.sockets y).rbuf ∧
      (u.sockets y).bufsize = (s.sockets y).bufsize := by
    intro y
    rw [sockets]
    by_cases here : y = x
    · subst here
      simp
    · simp [here]
  refine ⟨base, frames, nodup, fun y d => ?_, fun y => ?_, fun y d pending => ?_,
    fun stage k page bytes wake at_ => (serving stage k page bytes wake at_).1,
    fun stage k page bytes wake y d at_ yet socket pending => ?_, fun d call phase => ?_⟩
  · rw [lines, (inv.nodup y).mem_erase_iff, inv.member, nextCall, calls]
    by_cases here : d = c
    · subst here
      simp
    · simp [here]
  · by_cases here : y = x
    · subst here
      rw [lines, sockets, Function.update_self]
      refine SocketLine.congr ((inv.nodup y).erase c) (fun d _ _ f => memory d f)
        rfl rfl rfl (?_ : SocketLine _ { s.sockets y with receiveComplete := some sem } _ _)
      exact .opened sem done rfl opened lined
    · have stays := inv.lined y
      rw [line, sockets, Function.update_of_ne here, Function.update_of_ne here, elsewhere y here]
      exact stays.congr (inv.nodup y) (fun d _ _ f => memory d f) rfl rfl rfl
  · rw [(same y).1] at pending
    rw [(same y).2, inv.bufsize y d pending, calls]
    by_cases here : d = c
    · subst here
      simp
    · simp [here]
  · have before := inv.stored_serving (u := { u with calls := s.calls }) serving
      (fun y => (same y).1) (fun _ _ _ => .refl _) stage k page bytes wake y d at_ yet socket pending
    rw [calls]
    by_cases here : d = c
    · subst here
      rw [Function.update_self]
      cases stage <;> exact before
    · rwa [Function.update_of_ne here]
  · rw [nextCall] at call
    by_cases here : d = c
    · subst here
      obtain ⟨f, was⟩ := filled
      exact ⟨f, memory d f was⟩
    · rw [calls, Function.update_of_ne here] at phase
      obtain ⟨f, was⟩ := inv.complete d call phase
      exact ⟨f, memory d f was⟩

/-! ## Steps on the socket table -/

/-- The entry of a socket changes while no call is on it. -/
theorem RecvInv.rebinds (inv : RecvInv cfg s) {x : Nat} {socket : SocketDescriptor}
    (base : SocketInv cfg (setSocket s x socket)) (frames : FrameInv (setSocket s x socket))
    (before : (s.sockets x).rbuf = none) (after : socket.rbuf = none)
    (lined : SocketLine s.calls socket (s.line x) (finishing s x)) :
    RecvInv cfg (setSocket s x socket) := by
  refine inv.keeps base frames (fun y => ?_) (fun y => ?_) (fun y pending => ?_)
    (fun _ => .refl _) rfl rfl (inv.serving rfl (fun _ _ => rfl) fun _ _ _ => rfl)
  · show SocketLine s.calls (Function.update s.sockets x socket y) (s.line y) (finishing s y)
    by_cases here : y = x
    · subst here
      rwa [Function.update_self]
    · rw [Function.update_of_ne here]
      exact inv.lined y
  · by_cases here : y = x
    · subst here
      simp [setSocket, before, after]
    · simp [setSocket, here]
  · by_cases here : y = x
    · exact absurd (here ▸ before) pending
    · simp [setSocket, here]

theorem socketOpen_recvInv (inv : RecvInv cfg s) {protocol : BitVec 8} {port : BitVec 16}
    {created : Bool} (base : SocketInv cfg (socketOpen s protocol port created))
    (frames : FrameInv (socketOpen s protocol port created)) :
    RecvInv cfg (socketOpen s protocol port created) := by
  rcases socketOpen_cases s protocol port created with same | ⟨x, bound, -, free, -, known, opened⟩
  · rwa [same]
  · rw [opened] at base frames ⊢
    have supported : protocol ≠ 0#8 := by
      rcases known with rfl | rfl <;> decide
    cases inv.lined x with
    | closed _ _ rbuf line mid =>
        refine inv.rebinds base frames rbuf rfl (.opened { value := 0, waiters := [] } [] rfl supported ?_)
        rw [line, mid]
        exact ⟨rfl, fun c among => (nomatch among), rfl, Or.inl rfl, List.nil_prefix⟩
    | opened _ _ _ taken _ => exact absurd (freeSocket_some free).2 taken

theorem socketClose_recvInv (inv : RecvInv cfg s) {x : Nat}
    (base : SocketInv cfg (socketClose s x)) (frames : FrameInv (socketClose s x))
    (orderly : ¬ Transferring s x) (unused : s.line x = []) : RecvInv cfg (socketClose s x) := by
  unfold socketClose at base frames ⊢
  split
  · exact inv
  · rename_i opened
    rw [if_neg opened] at base frames
    have idle : (s.sockets x).rbuf = none := by
      by_contra pending
      obtain ⟨c, pending⟩ := Option.ne_none_iff_exists'.1 pending
      have := (inv.lined x).pending pending
      rw [unused] at this
      cases this
    refine inv.rebinds base frames idle rfl (.closed rfl rfl rfl unused ?_)
    unfold finishing
    split
    · rename_i stage k page bytes wake service
      refine if_neg fun ⟨yet, socket⟩ => orderly ⟨stage, k, page, bytes, wake, service, ?_, socket⟩
      rintro rfl
      cases yet
    · rfl

theorem register_recvInv (inv : RecvInv cfg s) {x buflength : Nat}
    (base : SocketInv cfg (register s x buflength)) (frames : FrameInv (register s x buflength)) :
    RecvInv cfg (register s x buflength) := by
  unfold register at base frames ⊢
  split
  · exact inv
  · rename_i accepted
    rw [if_neg accepted] at base frames
    simp only [not_or, ne_eq, Decidable.not_not] at accepted
    have new : ∀ y, s.nextCall ∉ s.line y := fun y among =>
      Nat.lt_irrefl _ ((inv.member y _).1 among).1
    have old : ∀ d call, d ≠ s.nextCall →
        Function.update s.calls s.nextCall call d = s.calls d := fun d call other =>
      Function.update_of_ne other _ _
    refine ⟨base, frames, fun y => ?_, fun y d => ?_, fun y => ?_, fun y d pending => ?_, inv.waking,
      fun stage k page bytes wake y d at_ yet socket pending => ?_, fun d call phase => ?_⟩
    · by_cases here : y = x
      · subst here
        simpa using (inv.nodup y).concat (new y)
      · simpa [here] using inv.nodup y
    · by_cases fresh : d = s.nextCall
      · subst fresh
        by_cases here : y = x
        · subst here
          simp
        · simp [here, new y, Ne.symm here]
      · have lt : d < s.nextCall + 1 ↔ d < s.nextCall := by omega
        simp only [old d _ fresh, lt]
        by_cases here : y = x
        · subst here
          simp [fresh, inv.member]
        · simp [here, inv.member]
    · by_cases here : y = x
      · subst here
        simp only [Function.update_self]
        cases inv.lined y with
        | closed _ protocol =>
            rw [accepted.1] at protocol
            exact absurd protocol (by decide)
        | opened sem done semaphore protocol lined =>
            rw [accepted.2] at lined
            refine .opened sem done semaphore protocol (lined.registers.congr ?_ ?_)
            · simpa using (inv.nodup y).concat (new y)
            · intro d _ other f was
              rwa [old d _ fun same => other (by rw [same])]
      · simp only [Function.update_of_ne here]
        refine (inv.lined y).congr (inv.nodup y) (fun d among _ f was => ?_) rfl rfl rfl
        rwa [old d _ (fun same => new y (same ▸ among))]
    · by_cases here : y = x
      · subst here
        simp only [Function.update_self, Option.some.injEq] at pending ⊢
        subst pending
        simp
      · simp only [Function.update_of_ne here] at pending ⊢
        have among := (inv.lined y).pending pending
        rw [old d _ (fun same => new y (same ▸ among))]
        exact inv.bufsize y d pending
    · by_cases here : y = x
      · subst here
        obtain ⟨z, socket', -, rbuf⟩ := inv.base.pending stage k page bytes wake at_ yet
        cases Option.some.inj (socket'.symm.trans socket)
        exact absurd accepted.2 rbuf
      · simp only [Function.update_of_ne here] at pending
        have among := (inv.lined y).pending pending
        show Stored (s.mem page) (Function.update s.calls s.nextCall _ d) bytes stage
        rw [old d _ (fun same => new y (same ▸ among))]
        exact inv.stored stage k page bytes wake y d at_ yet socket pending
    · have call : d < s.nextCall + 1 := call
      by_cases fresh : d = s.nextCall
      · subst fresh
        simp at phase
      · have phase : (Function.update s.calls s.nextCall _ d).phase = .complete := phase
        show ∃ f, Filled (Function.update s.calls s.nextCall _ d) f
        rw [old d _ fresh] at phase ⊢
        exact inv.complete d (by omega) phase

theorem signalRecv_recvInv (inv : RecvInv cfg s) (base : SocketInv cfg u) (frames : FrameInv u)
    {c : Nat} (taken : signalRecv s c = some u) : RecvInv cfg u := by
  unfold signalRecv at taken
  split at taken
  · rename_i registered
    cases taken
    refine inv.keeps base frames inv.lined (fun _ => rfl) (fun _ _ => rfl) (fun d => ?_) rfl rfl
      (inv.serving rfl (fun _ _ => rfl) fun _ _ _ => rfl)
    by_cases here : d = c
    · subst here
      simp only [setCall, Function.update_self]
      exact ⟨rfl, by simp [registered.2]⟩
    · simp only [setCall, Function.update_of_ne here]
      exact .refl _
  · cases taken

theorem awaitComplete_recvInv (inv : RecvInv cfg s) (base : SocketInv cfg u) (frames : FrameInv u)
    {c : Nat} (order : WaitsInOrder s (.awaitComplete c)) (taken : awaitComplete s c = some u) :
    RecvInv cfg u := by
  unfold awaitComplete at taken
  split at taken
  · rename_i signalled
    obtain ⟨sem, semaphore, waited⟩ := Option.map_eq_some_iff.1 taken
    have among : c ∈ s.line (s.calls c).socket :=
      (inv.member _ c).2 ⟨signalled.1, rfl, by simp [signalled.2]⟩
    cases inv.lined (s.calls c).socket with
    | closed none => rw [none] at semaphore; cases semaphore
    | opened sem' done semaphore' opened lined =>
        cases Option.some.inj (semaphore'.symm.trans semaphore)
        obtain ⟨sleeps, passes⟩ := lined.waits among fun transit => order transit sem semaphore
        split at waited
        · rename_i low
          subst waited
          refine inv.keeps base frames (fun y => ?_) (fun y => ?_) (fun y _ => ?_) (fun d => ?_) rfl rfl
            (inv.serving rfl (fun _ _ => rfl) fun _ _ _ => rfl)
          · by_cases here : y = (s.calls c).socket
            · subst here
              simp only [setCall, setSemaphore, setSocket, Function.update_self]
              exact .opened _ done rfl opened (sleeps (by omega))
            · simp only [setCall, setSemaphore, setSocket, Function.update_of_ne here]
              exact inv.lined y
          · exact (sameDelivery_semaphore s _ y _).rbuf
          · exact (sameDelivery_semaphore s _ y _).bufsize
          · by_cases here : d = c
            · subst here
              simp only [setCall, Function.update_self]
              exact ⟨rfl, by simp [signalled.2]⟩
            · simp only [setCall, Function.update_of_ne here]
              exact .refl _
        · rename_i high
          subst waited
          obtain ⟨filled, lined⟩ := passes (by omega)
          exact inv.returns base frames among filled lined opened rfl rfl rfl rfl (fun _ _ => rfl)
            (inv.serving rfl (fun _ _ => rfl) fun _ _ _ => rfl)
  · cases taken

/-! ## Steps of the service thread -/

/-- One of the statements that store to the pending call of socket `x`. -/
theorem store_recvInv (inv : RecvInv cfg s) {stage stage' : Stage} {k page bytes bytes' x c : Nat}
    {wake : Option Nat} {call : Recv}
    (after : setService (setCall s c call) (.transfer stage' k page bytes' wake) = u)
    (service : s.service = .transfer stage k page bytes wake) (yet : stage.pending = true)
    (socket : (s.queue k).socket = some x) (pending : (s.sockets x).rbuf = some c)
    (yet' : stage'.pending = true) (same : call.socket = x)
    (buflength : call.buflength = (s.calls c).buflength) (phase : call.phase = (s.calls c).phase)
    (stored : Stored (s.mem page) call bytes' stage')
    (base : SocketInv cfg u) (frames : FrameInv u) : RecvInv cfg u := by
  have among := (inv.lined x).pending pending
  obtain ⟨bound, home, waiting⟩ := (inv.member x c).1 among
  have unfinished : ∀ {stage : Stage}, stage.pending = true → stage.finishing = false := by
    intro stage yet
    by_contra finish
    rw [pending_of_finishing (by simpa using finish)] at yet
    cases yet
  have calls : ∀ d, d ≠ c → (setCall s c call).calls d = s.calls d := fun d other =>
    Function.update_of_ne other _ _
  have here : (setCall s c call).calls c = call := Function.update_self ..
  have mid : ∀ y, finishing u y = finishing s y := by
    intro y
    subst after
    rw [finishing_none, finishing_none]
    · intro st k' p' b' w' at_
      rw [service] at at_
      cases at_
      exact unfinished yet
    · intro st k' p' b' w' at_
      cases at_
      exact unfinished yet'
  refine ⟨base, frames, ?_, fun y d => ?_, fun y => ?_, fun y d pending' => ?_,
    fun st k' p' b' w' at_ finish => ?_, fun st k' p' b' w' y d at_ _ socket' pending' => ?_,
    fun d bound' complete => ?_⟩
  · subst after
    exact inv.nodup
  · subst after
    rw [show (setService (setCall s c call) _).line = s.line from rfl, inv.member]
    show _ ↔ d < s.nextCall ∧ ((setCall s c call).calls d).socket = y ∧
      ((setCall s c call).calls d).phase ≠ .complete
    by_cases this : d = c
    · subst this
      rw [here, same, home, phase]
    · rw [calls d this]
  · rw [mid]
    subst after
    refine (inv.lined y).congr (inv.nodup y) (fun d among' other f was => ?_) rfl rfl rfl
    have this : d ≠ c := by
      rintro rfl
      have := ((inv.member y d).1 among').2.1
      rw [home] at this
      exact other (this ▸ pending)
    show Filled ((setCall s c call).calls d) f
    rwa [calls d this]
  · subst after
    show (s.sockets y).bufsize = ((setCall s c call).calls d).buflength
    have before := inv.bufsize y d pending'
    by_cases this : d = c
    · subst this
      rw [here, buflength, before]
    · rw [calls d this, before]
  · subst after
    cases at_
    rw [unfinished yet'] at finish
    cases finish
  · subst after
    cases at_
    cases Option.some.inj (socket.symm.trans socket')
    cases Option.some.inj (pending.symm.trans pending')
    show Stored (s.mem page) ((setCall s c call).calls c) bytes' stage'
    rwa [here]
  · subst after
    have complete : ((setCall s c call).calls d).phase = .complete := complete
    show ∃ f, Filled ((setCall s c call).calls d) f
    by_cases this : d = c
    · subst this
      rw [here, phase] at complete
      exact absurd complete waiting
    · rw [calls d this] at complete ⊢
      exact inv.complete d bound' complete

theorem LinedUp.clears {calls : Nat → Recv} {line done : List Nat} {sem : Semaphore} {c : Nat}
    (lined : LinedUp calls line [] (some c) sem done) (filled : ∃ f, Filled (calls c) f) :
    LinedUp calls line [c] none sem done where
  line := lined.line
  filled d among := by
    simp only [List.mem_append, List.mem_singleton] at among
    rcases among with among | rfl
    · exact lined.filled d (by simp [among])
    · exact filled
  value := lined.value
  empty := lined.empty
  waiters := lined.waiters

theorem Stored.filled {f : Frame} {call : Recv} {bytes : Nat} (stored : Stored f call bytes .rbuf) :
    Filled call f := by
  obtain ⟨⟨length, filledFrom, buffer⟩, addr, copied, sport⟩ := stored
  subst length
  exact ⟨filledFrom, buffer, addr, copied, sport⟩

/-- `open_sockets[pop_queue[slot].socket].rbuf = NULL` -/
theorem clear_recvInv (inv : RecvInv cfg s) {k page bytes x : Nat} {wake : Option Nat}
    (service : s.service = .transfer .rbuf k page bytes wake)
    (socket : (s.queue k).socket = some x)
    (after : setService (setSocket s x { s.sockets x with rbuf := none })
      (.transfer .bufsize k page bytes (s.sockets x).rbuf) = u)
    (base : SocketInv cfg u) (frames : FrameInv u) : RecvInv cfg u := by
  obtain ⟨y, socket', -, pending⟩ := inv.base.pending _ _ _ _ _ service rfl
  cases Option.some.inj (socket'.symm.trans socket)
  obtain ⟨c, pending⟩ := Option.ne_none_iff_exists'.1 pending
  have stored := inv.stored _ _ _ _ _ x c service rfl socket pending
  have mid : ∀ y, finishing u y = if y = x then [c] else [] := by
    intro y
    subst after
    simp [finishing, setService, setSocket, Stage.finishing, socket, pending, eq_comm]
  have none : ∀ y, finishing s y = [] := finishing_none fun st k' p' b' w' at_ => by
    rw [service] at at_
    cases at_
    rfl
  refine ⟨base, frames, ?_, ?_, fun y => ?_, fun y d pending' => ?_, fun st k' p' b' w' at_ _ => ?_,
    fun st k' p' b' w' y d at_ yet => ?_, ?_⟩
  · subst after
    exact inv.nodup
  · subst after
    exact inv.member
  · rw [mid]
    subst after
    show SocketLine s.calls ((setSocket s x _).sockets y) (s.line y) _
    by_cases here : y = x
    · subst here
      rw [if_pos rfl]
      cases inv.lined y with
      | closed _ _ rbuf => rw [rbuf] at pending; cases pending
      | opened sem done semaphore protocol lined =>
          rw [none, pending] at lined
          simp only [setSocket, Function.update_self]
          exact .opened sem done semaphore protocol (lined.clears ⟨_, stored.filled⟩)
    · have stays := inv.lined y
      rw [none] at stays
      simpa [setSocket, here] using stays
  · subst after
    by_cases here : y = x
    · subst here
      simp [setService, setSocket] at pending'
    · simp only [setService, setSocket, Function.update_of_ne here] at pending' ⊢
      exact inv.bufsize y d pending'
  · subst after
    cases at_
    simp [pending]
  · subst after
    cases at_
    cases yet
  · subst after
    exact inv.complete

/-- One of the statements that clear the other pointers of socket `x`. -/
theorem zero_recvInv (inv : RecvInv cfg s) {stage stage' : Stage} {k page bytes x : Nat}
    {wake : Option Nat} {socket : SocketDescriptor}
    (after : setService (setSocket s x socket) (.transfer stage' k page bytes wake) = u)
    (service : s.service = .transfer stage k page bytes wake) (finish : stage.finishing = true)
    (finish' : stage'.finishing = true) (cleared : (s.sockets x).rbuf = none)
    (rbuf : socket.rbuf = none) (semaphore : socket.receiveComplete = (s.sockets x).receiveComplete)
    (protocol : socket.protocol = (s.sockets x).protocol) (base : SocketInv cfg u)
    (frames : FrameInv u) : RecvInv cfg u := by
  have mid : ∀ y, finishing u y = finishing s y := by
    intro y
    subst after
    simp [finishing, setService, setSocket, service, finish, finish']
  have past : Serving s u := serving_past fun st k' p' b' w' at_ => by
    subst after
    cases at_
    refine ⟨fun _ => inv.waking _ _ _ _ _ service finish, fun yet => ?_⟩
    rw [pending_of_finishing finish'] at yet
    cases yet
  have sockets : u.sockets = Function.update s.sockets x socket := by
    subst after
    rfl
  have same : ∀ y, (u.sockets y).rbuf = (s.sockets y).rbuf := by
    intro y
    rw [sockets]
    by_cases here : y = x
    · subst here
      rw [Function.update_self, rbuf, cleared]
    · rw [Function.update_of_ne here]
  refine inv.keeps base frames (fun y => ?_) same (fun y pending => ?_) (fun d => ?_) ?_ ?_ past
  · rw [mid]
    refine (inv.lined y).congr (inv.nodup y) (fun _ _ _ _ => id) ?_ ?_ (same y)
    all_goals
      rw [sockets]
      by_cases here : y = x
      · subst here
        rwa [Function.update_self]
      · rw [Function.update_of_ne here]
  · have here : y ≠ x := by
      rintro rfl
      exact pending cleared
    rw [sockets, Function.update_of_ne here]
  · subst after
    exact .refl _
  · subst after
    rfl
  · subst after
    rfl

/-- `semaphore_V(open_sockets[pop_queue[slot].socket].receive_complete)` -/
theorem wake_recvInv (inv : RecvInv cfg s) {k page bytes x : Nat} {wake : Option Nat}
    {sem : Semaphore} (service : s.service = .transfer .wake k page bytes wake)
    (socket : (s.queue k).socket = some x) (semaphore : (s.sockets x).receiveComplete = some sem)
    (after : complete (setService s (.transfer .clear k page bytes wake)) x sem = u)
    (base : SocketInv cfg u) (frames : FrameInv u) : RecvInv cfg u := by
  obtain ⟨c, woken⟩ := Option.ne_none_iff_exists'.1 (inv.waking _ _ _ _ _ service rfl)
  subst woken
  have service' : u.service = .transfer .clear k page bytes (some c) := by
    subst after
    exact (complete_outside _ x sem).service
  have mid : ∀ y, finishing u y = [] := finishing_none fun st k' p' b' w' at_ => by
    rw [service'] at at_
    cases at_
    rfl
  have before : ∀ y, finishing s y = if y = x then [c] else [] := by
    intro y
    simp [finishing, service, Stage.finishing, socket, eq_comm]
  have past : Serving s u := serving_past fun st k' p' b' w' at_ => by
    rw [service'] at at_
    cases at_
    exact ⟨fun yet => (by cases yet), fun yet => (by cases yet)⟩
  cases inv.lined x with
  | closed free => rw [free] at semaphore; cases semaphore
  | opened sem' done semaphore' opened lined =>
      cases Option.some.inj (semaphore'.symm.trans semaphore)
      rw [before, if_pos rfl] at lined
      obtain ⟨wakes, counts⟩ := lined.wakes
      rcases complete_cases (setService s (.transfer .clear k page bytes (some c))) x sem with
        ⟨d, rest, low, sleeping, woken⟩ | ⟨none, counted⟩
      · rw [after] at woken
        subst woken
        obtain ⟨filled, among, lined⟩ := wakes low d rest sleeping
        rw [← mid x] at lined
        refine inv.returns base frames among filled lined opened rfl rfl rfl rfl (fun y other => ?_) past
        rw [mid, before, if_neg other]
      · rw [after] at counted
        subst counted
        refine inv.keeps base frames (fun y => ?_) (fun y => ?_) (fun y _ => ?_) (fun _ => .refl _)
          rfl rfl past
        · rw [mid]
          by_cases here : y = x
          · subst here
            simp only [setSemaphore, setSocket, Function.update_self]
            exact .opened _ _ rfl opened (counts none)
          · have stays := inv.lined y
            rw [before, if_neg here] at stays
            show SocketLine s.calls (Function.update s.sockets x _ y) (s.line y) []
            rwa [Function.update_of_ne here]
        · exact (sameDelivery_semaphore _ x y _).rbuf
        · exact (sameDelivery_semaphore _ x y _).bufsize

theorem transferStep_recvInv (inv : RecvInv cfg s) (base : SocketInv cfg u) (frames : FrameInv u)
    {stage : Stage} {k page bytes x : Nat} {wake : Option Nat}
    (service : s.service = .transfer stage k page bytes wake)
    (socket : (s.queue k).socket = some x)
    (taken : transferStep cfg s k page bytes wake x stage = some u) : RecvInv cfg u := by
  have call : ∀ {c}, (s.sockets x).rbuf = some c → (s.calls c).socket = x := fun pending =>
    ((inv.member x _).1 ((inv.lined x).pending pending)).2.1
  have stored : ∀ {c}, stage.pending = true → (s.sockets x).rbuf = some c →
      Stored (s.mem page) (s.calls c) bytes stage := fun yet pending =>
    inv.stored _ _ _ _ _ x _ service yet socket pending
  cases stage with
  | copy =>
      obtain ⟨c, pending, after⟩ := Option.map_eq_some_iff.1 taken
      dsimp only at after
      refine store_recvInv inv after service rfl socket pending rfl (call pending) rfl rfl ?_ base frames
      refine ⟨?_, rfl, rfl⟩
      rw [inv.bufsize x c pending]
  | sender =>
      obtain ⟨c, sender, after⟩ := Option.map_eq_some_iff.1 taken
      obtain ⟨y, socket', -, pending⟩ := inv.base.pending _ _ _ _ _ service rfl
      cases Option.some.inj (socket'.symm.trans socket)
      obtain ⟨d, pending⟩ := Option.ne_none_iff_exists'.1 pending
      cases Option.some.inj ((inv.base.pointers x d pending).1.symm.trans sender)
      refine store_recvInv inv after service rfl socket pending rfl (call pending) rfl rfl ?_ base frames
      refine ⟨stored rfl pending, ?_⟩
      exact congrArg some (inv.frames.source k page (inv.base.pages.serving_owns service rfl))
  | copied =>
      obtain ⟨c, copied, after⟩ := Option.map_eq_some_iff.1 taken
      obtain ⟨y, socket', -, pending⟩ := inv.base.pending _ _ _ _ _ service rfl
      cases Option.some.inj (socket'.symm.trans socket)
      obtain ⟨d, pending⟩ := Option.ne_none_iff_exists'.1 pending
      cases Option.some.inj ((inv.base.pointers x d pending).2.1.symm.trans copied)
      obtain ⟨payload, addr⟩ := stored rfl pending
      exact store_recvInv inv after service rfl socket pending rfl (call pending) rfl rfl
        ⟨payload, addr, rfl⟩ base frames
  | sport =>
      obtain ⟨c, sport, after⟩ := Option.map_eq_some_iff.1 taken
      obtain ⟨y, socket', -, pending⟩ := inv.base.pending _ _ _ _ _ service rfl
      cases Option.some.inj (socket'.symm.trans socket)
      obtain ⟨d, pending⟩ := Option.ne_none_iff_exists'.1 pending
      cases Option.some.inj ((inv.base.pointers x d pending).2.2.symm.trans sport)
      obtain ⟨payload, addr, length⟩ := stored rfl pending
      exact store_recvInv inv after service rfl socket pending rfl (call pending) rfl rfl
        ⟨payload, addr, length, rfl⟩ base frames
  | rbuf => exact clear_recvInv inv service socket (Option.some.inj taken) base frames
  | bufsize | zeroSender | zeroCopied | zeroSport =>
      have cleared : (s.sockets x).rbuf = none :=
        inv.base.zeroing x ⟨_, k, page, bytes, wake, service, rfl, socket⟩
      exact zero_recvInv inv (Option.some.inj taken) service rfl rfl cleared cleared rfl rfl base frames
  | free =>
      have waking := inv.waking _ _ _ _ _ service rfl
      cases taken
      rw [freePage_still] at base frames ⊢
      exact inv.quiet base frames rfl rfl rfl rfl
        (fun y => by simp [finishing, setService, service, Stage.finishing])
        (serving_past fun st k' p' b' w' at_ => by
          cases at_
          exact ⟨fun _ => waking, fun yet => by cases yet⟩)
  | wake =>
      obtain ⟨sem, semaphore, after⟩ := Option.map_eq_some_iff.1 taken
      exact wake_recvInv inv service socket semaphore after base frames
  | clear =>
      cases taken
      refine inv.quiet base frames rfl rfl rfl rfl
        (fun y => by simp [finishing, clearSlot, service, Stage.finishing])
        (serving_past fun st k' p' b' w' at_ => by cases at_)

theorem serve_recvInv (inv : RecvInv cfg s) (base : SocketInv cfg u) (frames : FrameInv u)
    (taken : serve cfg s = some u) : RecvInv cfg u := by
  unfold serve at taken
  split at taken
  · cases taken
  · rename_i k page service
    cases taken
    rw [freePage_still] at base frames ⊢
    exact inv.quiet base frames rfl rfl rfl rfl (fun y => by simp [finishing, setService, service])
      (serving_past fun st k' p' b' w' at_ => by cases at_)
  · rename_i k service
    cases taken
    exact inv.quiet base frames rfl rfl rfl rfl (fun y => by simp [finishing, clearSlot, service])
      (serving_past fun st k' p' b' w' at_ => by cases at_)
  · rename_i stage k page bytes wake service
    obtain ⟨x, socket, taken⟩ := Option.bind_eq_some_iff.1 taken
    exact transferStep_recvInv inv base frames service socket taken
  · rename_i service
    split at taken
    · cases taken
      exact inv.quiet base frames rfl rfl rfl rfl (fun y => by simp [finishing, service])
        (serving_past fun st k' p' b' w' at_ => by cases at_)
    · cases taken

theorem pick_recvInv (inv : RecvInv cfg s) (base : SocketInv cfg u) (frames : FrameInv u)
    (taken : pick s = some u) : RecvInv cfg u := by
  obtain ⟨ready, -, scanned⟩ := pick_scanned taken
  have begins : ∀ stage k page bytes wake, u.service = .transfer stage k page bytes wake →
      stage = .copy := by
    intro stage k page bytes wake at_
    cases scanned.picked with
    | nothing service => rw [service] at at_; cases at_
    | discard _ _ service => rw [service] at at_; cases at_
    | transfer _ _ _ service => rw [service] at at_; cases at_; rfl
  refine inv.quiet base frames (by rw [scanned.rest]) (by rw [scanned.rest]) (by rw [scanned.rest])
    (by rw [scanned.rest]) (fun y => ?_) (serving_past fun stage k page bytes wake at_ => ?_)
  · rw [finishing_none fun stage k page bytes wake at_ => by rw [begins _ _ _ _ _ at_]; rfl,
      finishing_none fun stage k page bytes wake at_ => by rw [ready] at at_; cases at_]
  · cases begins stage k page bytes wake at_
    exact ⟨fun yet => (by cases yet), fun _ => rfl⟩

/-! ## Pushing frames -/

theorem fill_recvInv (inv : RecvInv cfg s) (base : SocketInv cfg u) (frames : FrameInv u) {t : Nat}
    {frame : Frame} (taken : fill s t frame = some u) : RecvInv cfg u := by
  unfold fill at taken
  split at taken
  · rename_i p at_
    cases taken
    have mine : owns s (.thread t) p := by simp [owns, at_, Thread.page]
    refine inv.quiet base frames rfl rfl rfl rfl (fun _ => rfl)
      (inv.serving rfl (fun _ _ => rfl) fun k q slot => Function.update_of_ne ?_ _ _)
    rintro rfl
    cases inv.base.pages.one.unique mine slot
  · cases taken

theorem store_queue_recvInv (inv : RecvInv cfg s) (base : SocketInv cfg u) (frames : FrameInv u)
    {t : Nat} {now : BitVec 32} (taken : store s t now = some u) : RecvInv cfg u := by
  unfold store at taken
  split at taken
  · rename_i p k at_
    have unserved := (inv.base.pages.evicted t p k at_).2
    cases taken
    have queue : ∀ i, s.service.slot = some i →
        (Function.update s.queue k
          { frame := some p, socket := none, timestamp := now, source := (s.mem p).source,
            busy := false } i).socket = (s.queue i).socket := by
      intro i serving
      rw [Function.update_of_ne]
      rintro rfl
      exact unserved serving
    exact inv.quiet base frames rfl rfl rfl rfl (finishing_congr rfl queue)
      (inv.serving rfl queue fun _ _ _ => rfl)
  · cases taken

theorem RecvInv.still (inv : RecvInv cfg s) (base : SocketInv cfg u) (frames : FrameInv u)
    (still : Still s u) : RecvInv cfg u := by
  have queue : ∀ k, s.service.slot = some k → (u.queue k).socket = (s.queue k).socket :=
    fun _ _ => by rw [still.queue]
  exact inv.quiet base frames still.sockets still.calls still.nextCall still.line
    (finishing_congr still.service queue)
    (inv.serving still.service queue fun _ _ _ => by rw [still.mem])

/-! ## Runs -/

theorem recvInv_step {a : Act} (inv : RecvInv cfg s) (orderly : Orderly s a)
    (order : WaitsInOrder s a) (taken : step cfg s a = some u) : RecvInv cfg u := by
  have base := socketInv_step inv.base orderly taken
  have frames := frameInv_step inv.base.pages inv.frames taken
  have taken := step_act taken
  cases quiet : a.still with
  | true => exact inv.still base frames (act_still quiet taken)
  | false =>
      cases a with
      | fill t frame => exact fill_recvInv inv base frames taken
      | store t now => exact store_queue_recvInv inv base frames taken
      | socketOpen protocol port created =>
          cases taken
          exact socketOpen_recvInv inv base frames
      | socketClose x =>
          simp only [act] at taken
          split at taken
          · cases taken
            exact socketClose_recvInv inv base frames orderly order
          · cases taken
      | register x buflength =>
          simp only [act] at taken
          split at taken
          · cases taken
            exact register_recvInv inv base frames
          · cases taken
      | signalRecv c => exact signalRecv_recvInv inv base frames taken
      | awaitComplete c => exact awaitComplete_recvInv inv base frames order taken
      | pick => exact pick_recvInv inv base frames taken
      | serve => exact serve_recvInv inv base frames taken
      | _ => cases quiet

/-- **A receive returns with its own frame.**  In every run in which nobody interferes
with the service thread's action and calls on a socket begin to wait in the order in
which they registered, every call that returns was filled from a frame of its own. -/
theorem receives_own
    (reached : (system cfg).ReachableWhen (fun s a => Orderly s a ∧ WaitsInOrder s a) s) :
    ReceivesOwn s :=
  (System.ReachableWhen.invariant (I := RecvInv cfg) (fun _ boot => recvInv_boot boot)
    (fun _ _ _ inv ok taken => recvInv_step inv ok.1 ok.2 taken) reached).receivesOwn

end Receives

/-! ## Two calls on one socket -/

/-- Call `c` has returned, and no length was ever stored for it. -/
def returnsUnfilled (c : Nat) (s : State) : Bool :=
  c < s.nextCall && (s.calls c).phase = .complete && (s.calls c).length = none

/-- Call 0 is served while it is between its registration and its wait; call 1 registers
on the socket and comes to its wait first. -/
def overtakes : List Act :=
  [.socketOpen PROTOCOL_POP 5 true, .register 0 10, .signalRecv 0] ++ pushFrame 0 (packet 5) 0 ++
    [.pick] ++ List.replicate 11 .serve ++ [.register 0 10, .signalRecv 1, .awaitComplete 1]

/-- Call 1 returns with the completion of call 0. -/
theorem receives_nothing : ¬ ∀ s, (system smallMachine).Reachable s → ReceivesOwn s := by
  intro claim
  have run : ((system smallMachine).exec booted overtakes).any (returnsUnfilled 1) = true := by
    decide +kernel
  obtain ⟨s, ran, wrong⟩ := (Option.any_eq_true _ _).1 run
  simp only [returnsUnfilled, Bool.and_eq_true, decide_eq_true_eq] at wrong
  obtain ⟨⟨called, returned⟩, length⟩ := wrong
  obtain ⟨f, filled⟩ :=
    (claim s ((System.Reachable.start booted_boot).exec ran)).filled 1 called returned
  rw [filled.length] at length
  cases length

/-- A frame of two bytes for the same port. -/
def shortPacket : Frame := ⟨0, 8, 1, 5, 2, [5, 6]⟩

/-- Call 0 sleeps until a frame comes; call 1 registers while call 0 still sleeps, and is given the
next frame. -/
def receivesTwo : List Act :=
  [.socketOpen PROTOCOL_POP 5 true, .register 0 10, .signalRecv 0, .awaitComplete 0] ++
    pushFrame 0 (packet 5) 0 ++ [.pick] ++ List.replicate 9 .serve ++
    [.register 0 10, .signalRecv 1, .awaitComplete 1] ++ List.replicate 3 .serve ++
    pushFrame 1 shortPacket 0 ++ [.pick] ++ List.replicate 12 .serve

theorem receivesTwo_guarded :
    (system smallMachine).Guarded (fun s a => Orderly s a ∧ WaitsInOrder s a) booted receivesTwo := by
  refine ⟨⟨trivial, trivial⟩, ⟨?_, trivial⟩, ⟨trivial, trivial⟩, ⟨trivial, ?_⟩,
    ⟨trivial, trivial⟩, ⟨trivial, trivial⟩, ⟨trivial, trivial⟩, ⟨trivial, trivial⟩, ⟨?_, trivial⟩,
    ⟨trivial, trivial⟩, ⟨trivial, trivial⟩, ⟨trivial, trivial⟩, ⟨trivial, trivial⟩,
    ⟨trivial, trivial⟩, ⟨trivial, trivial⟩, ⟨trivial, trivial⟩, ⟨trivial, trivial⟩,
    ⟨trivial, trivial⟩, ⟨trivial, trivial⟩, ⟨trivial, trivial⟩, ⟨trivial, trivial⟩,
    ⟨?_, trivial⟩, ⟨trivial, trivial⟩, ⟨trivial, ?_⟩,
    ⟨trivial, trivial⟩, ⟨trivial, trivial⟩, ⟨trivial, trivial⟩,
    ⟨trivial, trivial⟩, ⟨trivial, trivial⟩, ⟨trivial, trivial⟩, ⟨trivial, trivial⟩, ⟨?_, trivial⟩,
    ⟨trivial, trivial⟩, ⟨trivial, trivial⟩, ⟨trivial, trivial⟩, ⟨trivial, trivial⟩,
    ⟨trivial, trivial⟩, ⟨trivial, trivial⟩, ⟨trivial, trivial⟩, ⟨trivial, trivial⟩,
    ⟨trivial, trivial⟩, ⟨trivial, trivial⟩, ⟨trivial, trivial⟩, ⟨trivial, trivial⟩,
    ⟨trivial, trivial⟩, ⟨trivial, trivial⟩, ⟨trivial, trivial⟩, trivial⟩
  · rintro ⟨stage, k, page, bytes, wake, service, -⟩
    exact (nomatch service)
  · intro _ sem semaphore
    cases semaphore
    exact ⟨[], rfl⟩
  · exact fun _ _ _ => ⟨fun _ h => (nomatch h), fun h => (nomatch h)⟩
  · rintro ⟨stage, k, page, bytes, wake, service, zeroing, -⟩
    cases service
    cases zeroing
  · intro _ sem semaphore
    cases semaphore
    exact ⟨[], rfl⟩
  · exact fun _ _ _ => ⟨fun _ h => (nomatch h), fun h => (nomatch h)⟩

/-- Each call gets a frame of its own. -/
theorem receives_own_two :
    ∃ s, (system smallMachine).exec booted receivesTwo = some s ∧ ReceivesOwn s ∧
      (s.calls 0).phase = .complete ∧ (s.calls 0).buffer = [1, 2, 3, 4] ∧
      (s.calls 1).phase = .complete ∧ (s.calls 1).buffer = [5, 6] := by
  have run : ((system smallMachine).exec booted receivesTwo).any (fun s =>
      (s.calls 0).phase = .complete ∧ (s.calls 0).buffer = [1, 2, 3, 4] ∧
        (s.calls 1).phase = .complete ∧ (s.calls 1).buffer = [5, 6]) = true := by decide +kernel
  obtain ⟨s, ran, parts⟩ := (Option.any_eq_true _ _).1 run
  exact ⟨s, ran, receives_own ((System.ReachableWhen.start booted_boot).exec receivesTwo_guarded ran),
    of_decide_eq_true parts⟩

end Buenos.Net
