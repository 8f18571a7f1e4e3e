/-
# Net.PopDelivery -- where a frame is delivered

The service thread finds a recipient while it holds both locks, and delivers after it
has released them.  In between, the socket can be closed, reopened on another port or
registered again; and the recipient it found stays recorded in the queue.

`SocketInv` is what holds of the socket table when nobody interferes with a transfer
(`Orderly`), and `PortInv` adds that recorded recipients still listen on their ports.
-/
import Buenos.Net.PopPages

namespace Buenos.Net

open Buenos.Lib Buenos.Theory

set_option autoImplicit false

/-- The stages that use the pointers of the pending call. -/
def Stage.storing : Stage → Bool
  | .copy | .sender | .copied | .sport => true
  | _ => false

/-- The stages before `rbuf` has been cleared. -/
def Stage.pending : Stage → Bool
  | .copy | .sender | .copied | .sport | .rbuf => true
  | _ => false

/-- The stages that clear the other pointers. -/
def Stage.zeroing : Stage → Bool
  | .bufsize | .zeroSender | .zeroCopied | .zeroSport => true
  | _ => false

/-- The service thread is delivering to socket `x` and has not raised its semaphore. -/
def Transferring (s : State) (x : Nat) : Prop :=
  ∃ stage k page bytes wake, s.service = .transfer stage k page bytes wake ∧ stage ≠ .clear ∧
    (s.queue k).socket = some x

/-- The service thread has cleared `rbuf` of socket `x` but not yet all other pointers. -/
def Zeroing (s : State) (x : Nat) : Prop :=
  ∃ stage k page bytes wake, s.service = .transfer stage k page bytes wake ∧
    stage.zeroing = true ∧ (s.queue k).socket = some x

/-- Nobody interferes with the service thread's action: no push evicts what it
discards, no socket is closed while it delivers to it, and no call registers on a
socket whose pointers it is clearing. -/
def Orderly (s : State) : Act → Prop
  | .evict t => EvictsOther s (.evict t)
  | .socketClose x => ¬ Transferring s x
  | .register x _ => ¬ Zeroing s x
  | _ => True

theorem Orderly.evictsOther {s : State} {a : Act} (orderly : Orderly s a) : EvictsOther s a := by
  cases a <;> first | exact orderly | trivial

structure SocketInv (cfg : Config) (s : State) : Prop where
  pages : PageInv cfg s
  pointers : ∀ x c, (s.sockets x).rbuf = some c →
    (s.sockets x).sender = some c ∧ (s.sockets x).copied = some c ∧ (s.sockets x).sport = some c
  zeroing : ∀ x, Zeroing s x → (s.sockets x).rbuf = none
  pending : ∀ stage k page bytes wake, s.service = .transfer stage k page bytes wake →
    stage.pending = true → ∃ x, (s.queue k).socket = some x ∧
      (s.sockets x).protocol = PROTOCOL_POP ∧ (s.sockets x).rbuf ≠ none

/-! ## Steps that leave queue, sockets and service thread alone -/

/-- Only pages and threads changed, and no evicted slot was filled. -/
structure Still (s u : State) : Prop where
  queue : u.queue = s.queue
  sockets : u.sockets = s.sockets
  mem : u.mem = s.mem
  service : u.service = s.service
  calls : u.calls = s.calls
  nextCall : u.nextCall = s.nextCall
  line : u.line = s.line
  nextSerial : u.nextSerial = s.nextSerial
  evicted : ∀ t p k, s.threads t = .evicted p k → ∃ t' p', u.threads t' = .evicted p' k
  carries : ∀ t p, (u.threads t).carries = some p → (s.threads t).carries = some p

theorem freePage_still (cfg : Config) (s : State) (p : Nat) :
    freePage cfg s p = { s with
      reserved := (freePage cfg s p).reserved, panicked := (freePage cfg s p).panicked } := by
  unfold freePage
  split <;> rfl

section Stills

variable {cfg : Config} {s u : State} {t : Nat}

theorem still_setThread (th : Thread) (before : ∀ p k, s.threads t ≠ .evicted p k)
    (carries : ∀ p, th.carries = some p → (s.threads t).carries = some p)
    (threads : u.threads = Function.update s.threads t th) (queue : u.queue = s.queue)
    (sockets : u.sockets = s.sockets) (mem : u.mem = s.mem) (service : u.service = s.service)
    (calls : u.calls = s.calls) (nextCall : u.nextCall = s.nextCall) (line : u.line = s.line)
    (nextSerial : u.nextSerial = s.nextSerial) : Still s u := by
  refine ⟨queue, sockets, mem, service, calls, nextCall, line, nextSerial, fun v p k at_ => ?_,
    fun v p carried => ?_⟩
  · refine ⟨v, p, ?_⟩
    rw [threads, Function.update_of_ne]
    · exact at_
    · rintro rfl
      exact before p k at_
  · rw [threads] at carried
    by_cases here : v = t
    · subst here
      rw [Function.update_self] at carried
      exact carries p carried
    · rwa [Function.update_of_ne here] at carried

theorem Still.freePage (still : Still s u) (p : Nat) : Still s (freePage cfg u p) := by
  rw [freePage_still]
  exact ⟨still.queue, still.sockets, still.mem, still.service, still.calls, still.nextCall,
    still.line, still.nextSerial, still.evicted, still.carries⟩

theorem alloc_still (taken : alloc cfg s t = some u) : Still s u := by
  unfold alloc at taken
  split at taken
  · rename_i p at_ _
    cases taken
    exact still_setThread (t := t) (.holding p) (by simp [at_]) (by simp [at_, Thread.carries]) rfl rfl rfl rfl rfl rfl rfl
      rfl rfl
  · cases taken

theorem lockQueue_still (taken : lockQueue s t = some u) : Still s u := by
  unfold lockQueue at taken
  split at taken
  · rename_i p at_ _
    cases taken
    exact still_setThread (t := t) (.scanning p) (by simp [at_]) (by simp [at_, Thread.carries]) rfl rfl rfl rfl rfl rfl rfl
      rfl rfl
  · cases taken

theorem choose_still {now : BitVec 32} (taken : choose s t now = some u) : Still s u := by
  unfold choose at taken
  split at taken
  · rename_i p at_
    split at taken
    · rename_i k _
      cases taken
      exact still_setThread (t := t) (.chosen p k) (by simp [at_]) (by simp [at_, Thread.carries]) rfl rfl rfl rfl rfl rfl
        rfl rfl rfl
    · cases taken
      exact still_setThread (t := t) (.refused p) (by simp [at_]) (by simp [at_, Thread.carries]) rfl rfl rfl rfl rfl rfl rfl
        rfl rfl
  · cases taken

theorem evict_still (taken : evict cfg s t = some u) : Still s u := by
  unfold evict at taken
  split at taken
  · rename_i p k at_
    have still : Still s (setThread s t (.evicted p k)) :=
      still_setThread (t := t) (.evicted p k) (by simp [at_]) (by simp [at_, Thread.carries]) rfl rfl rfl rfl rfl rfl rfl rfl
        rfl
    split at taken
    · cases taken
      exact still.freePage _
    · cases taken
      exact still
  · cases taken

theorem signalPush_still (taken : signalPush s t = some u) : Still s u := by
  unfold signalPush at taken
  split at taken
  · rename_i at_
    cases taken
    exact still_setThread (t := t) .idle (by simp [at_]) (by simp [at_, Thread.carries]) rfl rfl rfl rfl rfl rfl rfl rfl rfl
  · cases taken

theorem afterRefusal_still (taken : afterRefusal cfg s t = some u) : Still s u := by
  unfold afterRefusal at taken
  split at taken
  · rename_i p at_
    split at taken
    · cases taken
      exact still_setThread (t := t) (.holding p) (by simp [at_]) (by simp [at_, Thread.carries]) rfl rfl rfl rfl rfl rfl rfl
        rfl rfl
    · cases taken
      exact (still_setThread (u := setThread s t .idle) (t := t) .idle (by simp [at_]) (by simp [at_, Thread.carries]) rfl
        rfl rfl rfl rfl rfl rfl rfl rfl).freePage _
  · cases taken

theorem otherAlloc_still (taken : otherAlloc cfg s = some u) : Still s u := by
  obtain ⟨p, -, rfl⟩ := Option.map_eq_some_iff.1 taken
  exact ⟨rfl, rfl, rfl, rfl, rfl, rfl, rfl, rfl, fun v p' k at_ => ⟨v, p', at_⟩,
      fun _ _ => id⟩

theorem otherFree_still {p : Nat} (taken : otherFree cfg s p = some u) : Still s u := by
  unfold otherFree at taken
  split at taken
  · cases taken
    rw [freePage_still]
    exact ⟨rfl, rfl, rfl, rfl, rfl, rfl, rfl, rfl, fun v p' k at_ => ⟨v, p', at_⟩,
      fun _ _ => id⟩
  · cases taken

/-- The actions that leave queue, sockets, frames and service thread alone. -/
def Act.still : Act → Bool
  | .alloc _ | .lockQueue _ | .choose _ _ | .evict _ | .signalPush _ | .afterRefusal _
  | .otherAlloc | .otherFree _ => true
  | _ => false

theorem act_still {a : Act} (quiet : a.still = true) (taken : act cfg s a = some u) :
    Still s u := by
  cases a with
  | alloc t => exact alloc_still taken
  | lockQueue t => exact lockQueue_still taken
  | choose t now => exact choose_still taken
  | evict t => exact evict_still taken
  | signalPush t => exact signalPush_still taken
  | afterRefusal t => exact afterRefusal_still taken
  | otherAlloc => exact otherAlloc_still taken
  | otherFree p => exact otherFree_still taken
  | _ => cases quiet

end Stills

/-! ## The socket table -/

section Sockets

variable {cfg : Config} {s u : State}

theorem socketInv_boot (boot : Boot cfg s) : SocketInv cfg s where
  pages := pageInv_boot boot
  pointers x c rbuf := by simp [boot.sockets] at rbuf
  zeroing x clearing := by simp [boot.sockets]
  pending stage k page bytes wake service := by simp [boot.service] at service

/-- The fields a delivery looks at. -/
structure SameDelivery (a b : SocketDescriptor) : Prop where
  port : b.port = a.port
  protocol : b.protocol = a.protocol
  rbuf : b.rbuf = a.rbuf
  bufsize : b.bufsize = a.bufsize
  sender : b.sender = a.sender
  copied : b.copied = a.copied
  sport : b.sport = a.sport

theorem SameDelivery.refl (a : SocketDescriptor) : SameDelivery a a :=
  ⟨rfl, rfl, rfl, rfl, rfl, rfl, rfl⟩

/-- Steps that change neither the recipients of the queue nor the service thread nor
what deliveries look at. -/
theorem SocketInv.same (inv : SocketInv cfg s) (pages : PageInv cfg u)
    (service : u.service = s.service)
    (queue : ∀ k, s.service.slot = some k → (u.queue k).socket = (s.queue k).socket)
    (sockets : ∀ x, SameDelivery (s.sockets x) (u.sockets x)) : SocketInv cfg u := by
  refine ⟨pages, fun x c rbuf => ?_, fun x clearing => ?_, fun stage k page bytes wake at_ yet => ?_⟩
  · obtain ⟨_, _, rbuf', _, sender, copied, sport⟩ := sockets x
    rw [rbuf'] at rbuf
    rw [sender, copied, sport]
    exact inv.pointers x c rbuf
  · obtain ⟨stage, k, page, bytes, wake, at_, clear, socket⟩ := clearing
    rw [service] at at_
    rw [queue k (by rw [at_]; rfl)] at socket
    rw [(sockets x).rbuf]
    exact inv.zeroing x ⟨stage, k, page, bytes, wake, at_, clear, socket⟩
  · rw [service] at at_
    obtain ⟨x, socket, pop, rbuf⟩ := inv.pending stage k page bytes wake at_ yet
    refine ⟨x, ?_, ?_, ?_⟩
    · rw [queue k (by rw [at_]; rfl), socket]
    · rw [(sockets x).protocol, pop]
    · rwa [(sockets x).rbuf]

theorem SocketInv.still (inv : SocketInv cfg s) (pages : PageInv cfg u) (still : Still s u) :
    SocketInv cfg u :=
  inv.same pages still.service (fun _ _ => by rw [still.queue]) fun _ => by
    rw [still.sockets]
    exact .refl _

theorem sameDelivery_semaphore (s : State) (x y : Nat) (sem : Semaphore) :
    SameDelivery (s.sockets y) ((setSemaphore s x sem).sockets y) := by
  by_cases here : y = x
  · subst here
    simp only [setSemaphore, setSocket, Function.update_self]
    exact ⟨rfl, rfl, rfl, rfl, rfl, rfl, rfl⟩
  · simp only [setSemaphore, setSocket, Function.update_of_ne here]
    exact .refl _

theorem awaitComplete_sameDelivery {c : Nat} (taken : awaitComplete s c = some u) (y : Nat) :
    SameDelivery (s.sockets y) (u.sockets y) := by
  unfold awaitComplete at taken
  split at taken
  · obtain ⟨sem, -, rfl⟩ := Option.map_eq_some_iff.1 taken
    split
    · exact sameDelivery_semaphore s _ y _
    · exact sameDelivery_semaphore s _ y _
  · cases taken

theorem store_socketInv {t : Nat} {now : BitVec 32} (inv : SocketInv cfg s) (pages : PageInv cfg u)
    (taken : store s t now = some u) : SocketInv cfg u := by
  unfold store at taken
  split at taken
  · rename_i p k at_
    have unserved := (inv.pages.evicted t p k at_).2
    cases taken
    refine inv.same pages rfl (fun k' serving => ?_) (fun _ => .refl _)
    have other : k' ≠ k := fun same => unserved (same ▸ serving)
    simp [other]
  · cases taken

theorem freeSocket_some {sockets : Nat → SocketDescriptor} {x : Nat}
    (found : freeSocket sockets = some x) :
    x < CONFIG_MAX_OPEN_SOCKETS ∧ (sockets x).protocol = 0#8 := by
  have member := List.mem_of_find?_eq_some found
  have free := List.find?_some found
  simp only [List.mem_range, decide_eq_true_eq] at member free
  exact ⟨member, free⟩

/-- What `socket_open` does: nothing, or take a free entry. -/
theorem socketOpen_cases (s : State) (protocol : BitVec 8) (port : BitVec 16) (created : Bool) :
    socketOpen s protocol port created = s ∨
      ∃ x bound, created = true ∧ freeSocket s.sockets = some x ∧
        bindPort s.sockets port = some bound ∧
        (protocol = PROTOCOL_POP ∨ protocol = PROTOCOL_SOP) ∧
        socketOpen s protocol port created = setSocket s x
          { s.sockets x with
            receiveComplete := some { value := 0, waiters := [] }
            port := bound, protocol := protocol, rbuf := none, bufsize := 0, sender := none
            copied := none } := by
  unfold socketOpen
  split
  · exact Or.inl rfl
  · rename_i supported
    split
    · rename_i x bound free used
      split
      · rename_i made
        refine Or.inr ⟨x, bound, made, free, used, ?_, rfl⟩
        by_contra none
        exact supported (not_or.1 none)
      · exact Or.inl rfl
    · exact Or.inl rfl

/-- An entry is replaced by one without a pending call. -/
theorem SocketInv.replace (inv : SocketInv cfg s) {x : Nat} {socket : SocketDescriptor}
    (pages : PageInv cfg (setSocket s x socket)) (rbuf : socket.rbuf = none)
    (free : ∀ stage k page bytes wake, s.service = .transfer stage k page bytes wake →
      stage.pending = true → (s.queue k).socket ≠ some x) :
    SocketInv cfg (setSocket s x socket) := by
  refine ⟨pages, fun y c rbuf' => ?_, fun y clearing => ?_, fun stage k page bytes wake at_ yet => ?_⟩
  · by_cases here : y = x
    · subst here
      simp [setSocket, rbuf] at rbuf'
    · simp only [setSocket, Function.update_of_ne here] at rbuf' ⊢
      exact inv.pointers y c rbuf'
  · by_cases here : y = x
    · subst here
      simp [setSocket, rbuf]
    · simp only [setSocket, Function.update_of_ne here]
      exact inv.zeroing y clearing
  · obtain ⟨y, socket', pop, rbuf'⟩ := inv.pending stage k page bytes wake at_ yet
    have other : y ≠ x := fun same => free stage k page bytes wake at_ yet (same ▸ socket')
    exact ⟨y, socket', by simpa [setSocket, other] using pop, by simpa [setSocket, other] using rbuf'⟩

theorem socketOpen_socketInv (inv : SocketInv cfg s) (protocol : BitVec 8) (port : BitVec 16)
    (created : Bool) : SocketInv cfg (socketOpen s protocol port created) := by
  have pages := inv.pages.outside (socketOpen_outside s protocol port created)
  rcases socketOpen_cases s protocol port created with same | ⟨x, bound, -, free, -, -, opened⟩
  · rwa [same]
  · rw [opened] at pages ⊢
    refine inv.replace pages rfl fun stage k page bytes wake at_ yet same => ?_
    obtain ⟨y, socket, pop, -⟩ := inv.pending stage k page bytes wake at_ yet
    have here : y = x := Option.some.inj (socket.symm.trans same)
    rw [here, (freeSocket_some free).2] at pop
    exact absurd pop (by decide)

theorem socketClose_socketInv (inv : SocketInv cfg s) {x : Nat} (orderly : ¬ Transferring s x) :
    SocketInv cfg (socketClose s x) := by
  have pages := inv.pages.outside (socketClose_outside s x)
  unfold socketClose at pages ⊢
  split
  · exact inv
  · rename_i opened
    rw [if_neg opened] at pages
    refine inv.replace pages rfl fun stage k page bytes wake at_ yet same => orderly ?_
    exact ⟨stage, k, page, bytes, wake, at_, (by rintro rfl; cases yet), same⟩

theorem register_socketInv (inv : SocketInv cfg s) {x buflength : Nat}
    (orderly : ¬ Zeroing s x) : SocketInv cfg (register s x buflength) := by
  have pages := inv.pages.outside (register_outside s x buflength)
  unfold register at pages ⊢
  split
  · exact inv
  · rename_i accepted
    rw [if_neg accepted] at pages
    simp only [not_or, ne_eq, Decidable.not_not] at accepted
    refine ⟨pages, fun y c rbuf => ?_, fun y clearing => ?_, fun stage k page bytes wake at_ yet => ?_⟩
    · by_cases here : y = x
      · subst here
        simp only [Function.update_self, Option.some.injEq] at rbuf ⊢
        subst rbuf
        exact ⟨rfl, rfl, rfl⟩
      · simp only [Function.update_of_ne here] at rbuf ⊢
        exact inv.pointers y c rbuf
    · have other : y ≠ x := fun same => orderly (same ▸ clearing)
      simpa [other] using inv.zeroing y clearing
    · obtain ⟨y, socket, pop, rbuf⟩ := inv.pending stage k page bytes wake at_ yet
      have other : y ≠ x := fun same => rbuf (same ▸ accepted.2)
      exact ⟨y, socket, by simpa [other] using pop, by simpa [other] using rbuf⟩

theorem pick_socketInv (inv : SocketInv cfg s) (taken : pick s = some u) : SocketInv cfg u := by
  have pages := pick_pageInv inv.pages taken
  obtain ⟨ready, -, scanned⟩ := pick_scanned taken
  have sockets : u.sockets = s.sockets := by rw [scanned.rest]
  refine ⟨pages, by rw [sockets]; exact inv.pointers, fun x clearing => ?_,
    fun stage k page bytes wake at_ yet => ?_⟩
  · obtain ⟨stage, k, page, bytes, wake, at_, clear, -⟩ := clearing
    cases scanned.picked with
    | nothing service => rw [service] at at_; cases at_
    | discard k' page' service _ _ => rw [service] at at_; cases at_
    | transfer k' page' x' service _ _ _ _ _ _ =>
        rw [service] at at_
        cases at_
        cases clear
  · cases scanned.picked with
    | nothing service => rw [service] at at_; cases at_
    | discard k' page' service _ _ => rw [service] at at_; cases at_
    | transfer k' page' x service _ _ _ socket pop pending =>
        rw [service] at at_
        cases at_
        rw [sockets]
        exact ⟨x, socket, pop, pending⟩

/-- The service thread leaves its action, or is in a stage in which it needs nothing of
the socket. -/
theorem SocketInv.leaves (inv : SocketInv cfg s) (pages : PageInv cfg u)
    (sockets : ∀ x, SameDelivery (s.sockets x) (u.sockets x))
    (idle : ∀ stage k page bytes wake, u.service = .transfer stage k page bytes wake →
      stage.pending = false ∧ stage.zeroing = false) : SocketInv cfg u := by
  refine ⟨pages, fun x c rbuf => ?_, fun x clearing => ?_, fun stage k page bytes wake at_ yet => ?_⟩
  · obtain ⟨_, _, rbuf', _, sender, copied, sport⟩ := sockets x
    rw [rbuf'] at rbuf
    rw [sender, copied, sport]
    exact inv.pointers x c rbuf
  · obtain ⟨stage, k, page, bytes, wake, at_, clear, -⟩ := clearing
    rw [(idle stage k page bytes wake at_).2] at clear
    cases clear
  · rw [(idle stage k page bytes wake at_).1] at yet
    cases yet

theorem complete_sameDelivery (s : State) (x : Nat) (sem : Semaphore) (y : Nat) :
    SameDelivery (s.sockets y) ((complete s x sem).sockets y) := by
  unfold complete
  split
  · split <;> exact sameDelivery_semaphore s x y _
  · exact sameDelivery_semaphore s x y _

/-- A statement that clears one of the pointers of socket `x` after `rbuf`. -/
theorem SocketInv.zeroes (inv : SocketInv cfg s) {k page bytes x : Nat} {wake : Option Nat}
    {stage : Stage} {socket : SocketDescriptor}
    (rbuf : (s.sockets x).rbuf = none) (rbuf' : socket.rbuf = none)
    (recipient : (s.queue k).socket = some x) (past : stage.pending = false)
    (pages : PageInv cfg (setService (setSocket s x socket) (.transfer stage k page bytes wake))) :
    SocketInv cfg (setService (setSocket s x socket) (.transfer stage k page bytes wake)) := by
  refine ⟨pages, fun y c given => ?_, fun y clearing => ?_, fun st k' p' b' w' at_ yet => ?_⟩
  · by_cases here : y = x
    · subst here
      simp [setService, setSocket, rbuf'] at given
    · simp only [setService, setSocket, Function.update_of_ne here] at given ⊢
      exact inv.pointers y c given
  · obtain ⟨st, k', p', b', w', at_, -, socket'⟩ := clearing
    cases at_
    cases Option.some.inj (recipient.symm.trans socket')
    simp [setService, setSocket, rbuf']
  · cases at_
    rw [past] at yet
    cases yet

theorem transferStep_socketInv (inv : SocketInv cfg s) {stage : Stage} {k page bytes x : Nat}
    {wake : Option Nat} (service : s.service = .transfer stage k page bytes wake)
    (recipient : (s.queue k).socket = some x)
    (taken : transferStep cfg s k page bytes wake x stage = some u) : SocketInv cfg u := by
  have pages := transferStep_pageInv inv.pages service taken
  have stores : ∀ {stage' bytes' c call}, stage.pending = true → stage'.pending = true →
      stage'.zeroing = false →
      PageInv cfg (setService (setCall s c call) (.transfer stage' k page bytes' wake)) →
      SocketInv cfg (setService (setCall s c call) (.transfer stage' k page bytes' wake)) := by
    intro stage' bytes' c call before after zero pages
    refine ⟨pages, inv.pointers, fun y clearing => ?_, fun st k' p' b' w' at_ _ => ?_⟩
    · obtain ⟨st, k', p', b', w', at_, clear, -⟩ := clearing
      cases at_
      rw [zero] at clear
      cases clear
    · cases at_
      exact inv.pending stage _ _ _ _ service before
  have cleared : stage.zeroing = true → (s.sockets x).rbuf = none := fun zero =>
    inv.zeroing x ⟨stage, k, page, bytes, wake, service, zero, recipient⟩
  cases stage with
  | copy | sender | copied | sport =>
      obtain ⟨c, -, rfl⟩ := Option.map_eq_some_iff.1 taken
      exact stores rfl rfl rfl pages
  | rbuf =>
      cases taken
      refine ⟨pages, fun y c given => ?_, fun y clearing => ?_, fun st k' p' b' w' at_ yet => ?_⟩
      · by_cases here : y = x
        · subst here
          simp [setService, setSocket] at given
        · simp only [setService, setSocket, Function.update_of_ne here] at given ⊢
          exact inv.pointers y c given
      · obtain ⟨st, k', p', b', w', at_, -, socket⟩ := clearing
        cases at_
        cases Option.some.inj (recipient.symm.trans socket)
        simp [setService, setSocket]
      · cases at_
        cases yet
  | bufsize | zeroSender | zeroCopied | zeroSport =>
      cases taken
      exact inv.zeroes (cleared rfl) (cleared rfl) recipient rfl pages
  | free =>
      cases taken
      refine inv.leaves pages (fun y => ?_) fun st k' p' b' w' at_ => ?_
      · rw [freePage_still]
        exact .refl _
      · rw [freePage_still] at at_
        cases at_
        exact ⟨rfl, rfl⟩
  | wake =>
      obtain ⟨sem, -, rfl⟩ := Option.map_eq_some_iff.1 taken
      refine inv.leaves pages (fun y => ?_) fun st k' p' b' w' at_ => ?_
      · exact complete_sameDelivery (setService s (.transfer .clear k page bytes wake)) x sem y
      · rw [(complete_outside _ x sem).service] at at_
        cases at_
        exact ⟨rfl, rfl⟩
  | clear =>
      cases taken
      exact inv.leaves pages (fun _ => .refl _) fun st k' p' b' w' at_ => by cases at_

theorem serve_socketInv (inv : SocketInv cfg s) (taken : serve cfg s = some u) :
    SocketInv cfg u := by
  have pages := serve_pageInv inv.pages taken
  unfold serve at taken
  split at taken
  · cases taken
  · cases taken
    refine inv.leaves pages (fun y => ?_) fun st k' p' b' w' at_ => ?_
    · rw [freePage_still]
      exact .refl _
    · rw [freePage_still] at at_
      cases at_
  · cases taken
    exact inv.leaves pages (fun _ => .refl _) fun st k' p' b' w' at_ => by cases at_
  · rename_i stage k page bytes wake service
    obtain ⟨x, recipient, taken⟩ := Option.bind_eq_some_iff.1 taken
    exact transferStep_socketInv inv service recipient taken
  · split at taken
    · cases taken
      exact inv.leaves pages (fun _ => .refl _) fun st k' p' b' w' at_ => by cases at_
    · cases taken

theorem fill_socketInv {t : Nat} {frame : Frame} (inv : SocketInv cfg s) (pages : PageInv cfg u)
    (taken : fill s t frame = some u) : SocketInv cfg u := by
  unfold fill at taken
  split at taken
  · cases taken
    exact inv.same pages rfl (fun _ _ => rfl) fun _ => .refl _
  · cases taken

theorem signalRecv_socketInv {c : Nat} (inv : SocketInv cfg s) (pages : PageInv cfg u)
    (taken : signalRecv s c = some u) : SocketInv cfg u := by
  unfold signalRecv at taken
  split at taken
  · cases taken
    exact inv.same pages rfl (fun _ _ => rfl) fun _ => .refl _
  · cases taken

theorem step_act {a : Act} (taken : step cfg s a = some u) : act cfg s a = some u := by
  unfold step at taken
  split at taken
  · cases taken
  · exact taken

theorem socketInv_step {a : Act} (inv : SocketInv cfg s) (orderly : Orderly s a)
    (taken : step cfg s a = some u) : SocketInv cfg u := by
  have pages := pageInv_step inv.pages orderly.evictsOther taken
  have taken := step_act taken
  cases quiet : a.still with
  | true => exact inv.still pages (act_still quiet taken)
  | false =>
      cases a with
      | fill t frame => exact fill_socketInv inv pages taken
      | store t now => exact store_socketInv inv pages taken
      | socketOpen protocol port created =>
          cases taken
          exact socketOpen_socketInv inv protocol port created
      | socketClose x =>
          simp only [act] at taken
          split at taken
          · cases taken
            exact socketClose_socketInv inv orderly
          · cases taken
      | register x buflength =>
          simp only [act] at taken
          split at taken
          · cases taken
            exact register_socketInv inv orderly
          · cases taken
      | signalRecv c => exact signalRecv_socketInv inv pages taken
      | awaitComplete c =>
          refine inv.same pages (awaitComplete_outside taken).service (fun _ _ => ?_)
            (awaitComplete_sameDelivery taken)
          rw [(awaitComplete_outside taken).queue]
      | pick => exact pick_socketInv inv taken
      | serve => exact serve_socketInv inv taken
      | _ => cases quiet

end Sockets

/-! ## Ports -/

/-- The frame in slot `k` is queued, and nobody is working on the slot. -/
structure Waiting (s : State) (k page : Nat) : Prop where
  bound : k < CONFIG_POP_QUEUE_SIZE
  frame : (s.queue k).frame = some page
  unserved : s.service.slot ≠ some k
  kept : ∀ t p, s.threads t ≠ .evicted p k

/-- A socket entry is not opened on another port than a frame that waits in the queue
with this entry as its recorded recipient is for. -/
def KeepsPorts (s : State) : Act → Prop
  | .socketOpen protocol port created =>
      protocol = PROTOCOL_POP → created = true → ∀ x bound, freeSocket s.sockets = some x →
        bindPort s.sockets port = some bound → ∀ k page, Waiting s k page →
          (s.queue k).socket = some x → bound = (s.mem page).destPort
  | _ => True

structure PortInv (cfg : Config) (s : State) : Prop where
  base : SocketInv cfg s
  recorded : ∀ k page x, Waiting s k page → (s.queue k).socket = some x →
    (s.sockets x).protocol = PROTOCOL_POP → (s.sockets x).port = (s.mem page).destPort
  delivering : ∀ stage k page bytes wake x, s.service = .transfer stage k page bytes wake →
    stage.storing = true → (s.queue k).socket = some x →
    (s.sockets x).port = (s.mem page).destPort

/-- Whenever the service thread copies a frame into a receive buffer or stores one of
its out-parameters, the socket is open for POP, a call is pending on it with all its
pointers, and it is bound to the port the frame is for. -/
def DeliversToPort (s : State) : Prop :=
  ∀ stage k page bytes wake, s.service = .transfer stage k page bytes wake →
    stage.storing = true → ∃ x, (s.queue k).socket = some x ∧
      (s.sockets x).protocol = PROTOCOL_POP ∧ (s.sockets x).rbuf ≠ none ∧
      (s.sockets x).sender ≠ none ∧ (s.sockets x).copied ≠ none ∧ (s.sockets x).sport ≠ none ∧
      (s.sockets x).port = (s.mem page).destPort

theorem storing_pending {stage : Stage} (storing : stage.storing = true) :
    stage.pending = true := by
  cases stage <;> first | rfl | cases storing

theorem PortInv.deliversToPort {cfg : Config} {s : State} (inv : PortInv cfg s) :
    DeliversToPort s := by
  intro stage k page bytes wake service storing
  obtain ⟨x, socket, pop, rbuf⟩ :=
    inv.base.pending stage k page bytes wake service (storing_pending storing)
  obtain ⟨c, given⟩ := Option.ne_none_iff_exists'.1 rbuf
  obtain ⟨sender, copied, sport⟩ := inv.base.pointers x c given
  exact ⟨x, socket, pop, rbuf, by simp [sender], by simp [copied], by simp [sport],
    inv.delivering stage k page bytes wake x service storing socket⟩

section Ports

variable {cfg : Config} {s u : State}

theorem portInv_boot (boot : Boot cfg s) : PortInv cfg s where
  base := socketInv_boot boot
  recorded k page x waiting := by
    have := waiting.frame
    simp [boot.queue] at this
  delivering stage k page bytes wake x service := by simp [boot.service] at service

theorem Waiting.owns {k page : Nat} (waiting : Waiting s k page) : owns s (.slot k) page := by
  refine ⟨waiting.bound, waiting.frame, ?_⟩
  rintro (freed | ⟨t, p, at_⟩)
  · exact waiting.unserved (slot_of_freed freed)
  · exact waiting.kept t p at_

theorem freed_pending {stage : Stage} {k page bytes : Nat} {wake : Option Nat}
    (yet : stage.pending = true) : (Service.transfer stage k page bytes wake).freed = none := by
  cases stage <;> first | rfl | cases yet

theorem PageInv.serving_owns (inv : PageInv cfg s) {stage : Stage} {k page bytes : Nat}
    {wake : Option Nat} (service : s.service = .transfer stage k page bytes wake)
    (yet : stage.pending = true) : owns s (.slot k) page := by
  obtain ⟨bound, -, frame⟩ := inv.serving k (by rw [service]; rfl)
  refine ⟨bound, frame page (by rw [service]; cases stage <;> first | rfl | cases yet), ?_⟩
  rintro (freed | ⟨t, p, at_⟩)
  · rw [service, freed_pending yet] at freed
    cases freed
  · exact (inv.evicted t p k at_).2 (by rw [service]; rfl)

/-- Steps that look up no recipient and bind no port. -/
theorem PortInv.moves (inv : PortInv cfg s) (base : SocketInv cfg u)
    (waiting : ∀ k page, Waiting u k page → (u.queue k).socket = none ∨
      Waiting s k page ∧ (u.queue k).socket = (s.queue k).socket)
    (protocol : ∀ x, (u.sockets x).protocol = (s.sockets x).protocol)
    (port : ∀ x, (u.sockets x).port = (s.sockets x).port)
    (mem : ∀ k page, owns s (.slot k) page → u.mem page = s.mem page)
    (serving : ∀ stage k page bytes wake, u.service = .transfer stage k page bytes wake →
      stage.storing = true → (u.queue k).socket = (s.queue k).socket ∧
        ∃ stage' bytes' wake', s.service = .transfer stage' k page bytes' wake' ∧
          stage'.storing = true) : PortInv cfg u := by
  refine ⟨base, fun k page x wait socket pop => ?_,
    fun stage k page bytes wake x at_ storing socket => ?_⟩
  · rcases waiting k page wait with none | ⟨wait', same⟩
    · rw [none] at socket
      cases socket
    · rw [port, mem k page wait'.owns]
      exact inv.recorded k page x wait' (same ▸ socket) (protocol x ▸ pop)
  · obtain ⟨same, stage', bytes', wake', before, storing'⟩ :=
      serving stage k page bytes wake at_ storing
    rw [port, mem k page (inv.base.pages.serving_owns before (storing_pending storing'))]
    exact inv.delivering stage' k page bytes' wake' x before storing' (same ▸ socket)

theorem Still.waiting (still : Still s u) {k page : Nat} (waiting : Waiting u k page) :
    Waiting s k page := by
  refine ⟨waiting.bound, by rw [← still.queue]; exact waiting.frame,
    by rw [← still.service]; exact waiting.unserved, fun t p at_ => ?_⟩
  obtain ⟨t', p', at'⟩ := still.evicted t p k at_
  exact waiting.kept t' p' at'

theorem PortInv.still (inv : PortInv cfg s) (base : SocketInv cfg u) (still : Still s u) :
    PortInv cfg u :=
  inv.moves base (fun k page wait => Or.inr ⟨still.waiting wait, by rw [still.queue]⟩)
    (fun x => by rw [still.sockets]) (fun x => by rw [still.sockets])
    (fun k page _ => by rw [still.mem])
    fun stage k page bytes wake at_ storing =>
      ⟨by rw [still.queue], stage, bytes, wake, still.service ▸ at_, storing⟩

theorem fill_portInv {t : Nat} {frame : Frame} (inv : PortInv cfg s) (base : SocketInv cfg u)
    (taken : fill s t frame = some u) : PortInv cfg u := by
  unfold fill at taken
  split at taken
  · rename_i p at_
    cases taken
    have mine : owns s (.thread t) p := by simp [owns, at_, Thread.page]
    refine inv.moves base (fun k page wait => Or.inr ⟨⟨wait.bound, wait.frame, wait.unserved, ?_⟩, rfl⟩)
      (fun _ => rfl) (fun _ => rfl) (fun k page slot => ?_)
      fun stage k page bytes wake at' storing => ⟨rfl, stage, bytes, wake, at', storing⟩
    · intro v p' at'
      have other : v ≠ t := by
        rintro rfl
        rw [at_] at at'
        cases at'
      have := wait.kept v p'
      exact this (by simpa [setThread, other] using at')
    · have other : page ≠ p := by
        rintro rfl
        cases inv.base.pages.one.unique mine slot
      simp [other]
  · cases taken

theorem store_portInv {t : Nat} {now : BitVec 32} (inv : PortInv cfg s) (base : SocketInv cfg u)
    (taken : store s t now = some u) : PortInv cfg u := by
  unfold store at taken
  split at taken
  · rename_i p k at_
    have unserved := (inv.base.pages.evicted t p k at_).2
    cases taken
    refine inv.moves base (fun i page wait => ?_) (fun _ => rfl) (fun _ => rfl) (fun _ _ _ => rfl)
      fun stage i page bytes wake at' storing => ⟨?_, stage, bytes, wake, at', storing⟩
    · by_cases here : i = k
      · subst here
        exact Or.inl (by simp)
      · refine Or.inr ⟨⟨wait.bound, by simpa [here] using wait.frame, wait.unserved, ?_⟩,
          by simp [here]⟩
        intro v p' at'
        have other : v ≠ t := by
          rintro rfl
          rw [at_] at at'
          cases at'
          exact here rfl
        have := wait.kept v p'
        exact this (by simpa [setThread, other] using at')
    · have here : i ≠ k := by
        rintro rfl
        have : s.service = .transfer stage i page bytes wake := at'
        exact unserved (by rw [this]; rfl)
      simp [here]
  · cases taken

theorem socketOpen_portInv (inv : PortInv cfg s) {protocol : BitVec 8} {port : BitVec 16}
    {created : Bool} (base : SocketInv cfg (socketOpen s protocol port created))
    (keeps : KeepsPorts s (.socketOpen protocol port created)) :
    PortInv cfg (socketOpen s protocol port created) := by
  rcases socketOpen_cases s protocol port created with
    same | ⟨x, bound, made, free, bind, -, opened⟩
  · rwa [same]
  · rw [opened] at base ⊢
    refine ⟨base, fun k page y wait socket pop => ?_,
      fun stage k page bytes wake y at_ storing socket => ?_⟩
    · have before : Waiting s k page := ⟨wait.bound, wait.frame, wait.unserved, wait.kept⟩
      by_cases here : y = x
      · subst here
        simp only [setSocket, Function.update_self] at pop ⊢
        exact keeps pop made y bound free bind k page before socket
      · simp only [setSocket, Function.update_of_ne here] at pop ⊢
        exact inv.recorded k page y before socket pop
    · obtain ⟨z, socket', pop, -⟩ :=
        inv.base.pending stage k page bytes wake at_ (storing_pending storing)
      have here : y ≠ x := by
        rintro rfl
        cases Option.some.inj (socket'.symm.trans socket)
        rw [(freeSocket_some free).2] at pop
        exact absurd pop (by decide)
      simp only [setSocket, Function.update_of_ne here]
      exact inv.delivering stage k page bytes wake y at_ storing socket

theorem socketClose_portInv (inv : PortInv cfg s) {x : Nat}
    (base : SocketInv cfg (socketClose s x)) (orderly : ¬ Transferring s x) :
    PortInv cfg (socketClose s x) := by
  unfold socketClose at base ⊢
  split
  · exact inv
  · rename_i opened
    rw [if_neg opened] at base
    refine ⟨base, fun k page y wait socket pop => ?_,
      fun stage k page bytes wake y at_ storing socket => ?_⟩
    · have before : Waiting s k page := ⟨wait.bound, wait.frame, wait.unserved, wait.kept⟩
      by_cases here : y = x
      · subst here
        simp [setSocket, PROTOCOL_POP] at pop
      · simp only [setSocket, Function.update_of_ne here] at pop ⊢
        exact inv.recorded k page y before socket pop
    · have here : y ≠ x := by
        rintro rfl
        exact orderly ⟨stage, k, page, bytes, wake, at_, (by rintro rfl; cases storing), socket⟩
      simp only [setSocket, Function.update_of_ne here]
      exact inv.delivering stage k page bytes wake y at_ storing socket

theorem register_portInv (inv : PortInv cfg s) {x buflength : Nat}
    (base : SocketInv cfg (register s x buflength)) : PortInv cfg (register s x buflength) := by
  unfold register at base ⊢
  split
  · exact inv
  · rename_i accepted
    rw [if_neg accepted] at base
    have same : ∀ y, (Function.update s.sockets x
        { s.sockets x with
          rbuf := some s.nextCall, bufsize := buflength, sender := some s.nextCall
          copied := some s.nextCall, sport := some s.nextCall } y).protocol =
          (s.sockets y).protocol ∧
        (Function.update s.sockets x
        { s.sockets x with
          rbuf := some s.nextCall, bufsize := buflength, sender := some s.nextCall
          copied := some s.nextCall, sport := some s.nextCall } y).port = (s.sockets y).port := by
      intro y
      by_cases here : y = x
      · subst here; simp
      · simp [here]
    exact inv.moves base
      (fun k page wait => Or.inr ⟨⟨wait.bound, wait.frame, wait.unserved, wait.kept⟩, rfl⟩)
      (fun y => (same y).1) (fun y => (same y).2) (fun _ _ _ => rfl)
      fun stage k page bytes wake at_ storing => ⟨rfl, stage, bytes, wake, at_, storing⟩

theorem findSocket_some {sockets : Nat → SocketDescriptor} {port : BitVec 16} {x : Nat}
    (found : findSocket sockets port = some x) :
    x < CONFIG_MAX_OPEN_SOCKETS ∧ (sockets x).protocol = PROTOCOL_POP ∧
      (sockets x).port = port := by
  have member := List.mem_of_find?_eq_some found
  have bound := List.find?_some found
  simp only [List.mem_range, Bool.and_eq_true, decide_eq_true_eq] at member bound
  exact ⟨member, bound⟩

theorem pick_portInv (inv : PortInv cfg s) (base : SocketInv cfg u) (taken : pick s = some u) :
    PortInv cfg u := by
  obtain ⟨ready, -, scanned⟩ := pick_scanned taken
  have sockets : u.sockets = s.sockets := by rw [scanned.rest]
  have mem : u.mem = s.mem := by rw [scanned.rest]
  have threads : u.threads = s.threads := by rw [scanned.rest]
  have looked : ∀ k page x, k < CONFIG_POP_QUEUE_SIZE → (u.queue k).frame = some page →
      (∀ t p, s.threads t ≠ .evicted p k) → (u.queue k).socket = some x →
      (s.sockets x).protocol = PROTOCOL_POP → (s.sockets x).port = (s.mem page).destPort := by
    intro k page x bound frame kept socket pop
    rw [scanned.frame] at frame
    rcases scanned.socket k with same | ⟨page', frame', found⟩
    · exact inv.recorded k page x ⟨bound, frame, by simp [ready, Service.slot], kept⟩
        (same ▸ socket) pop
    · cases Option.some.inj (frame.symm.trans frame')
      exact (findSocket_some (found.symm.trans socket)).2.2
  refine ⟨base, fun k page x wait socket pop => ?_,
    fun stage k page bytes wake x at_ storing socket => ?_⟩
  · rw [sockets] at pop ⊢
    rw [mem]
    exact looked k page x wait.bound wait.frame (threads ▸ wait.kept) socket pop
  · rw [sockets, mem]
    obtain ⟨y, socket', pop, -⟩ := base.pending stage k page bytes wake at_ (storing_pending storing)
    cases Option.some.inj (socket'.symm.trans socket)
    obtain ⟨bound, frame, -⟩ := base.pages.serving_owns at_ (storing_pending storing)
    refine looked k page x bound frame (fun t p at' => ?_) socket (sockets ▸ pop)
    exact (base.pages.evicted t p k (threads ▸ at')).2 (by rw [at_]; rfl)

/-- The service thread goes on without looking up anything. -/
theorem PortInv.serves (inv : PortInv cfg s) (base : SocketInv cfg u)
    (queue : u.queue = s.queue) (threads : u.threads = s.threads) (mem : u.mem = s.mem)
    (slot : u.service.slot = s.service.slot)
    (sockets : ∀ x, (u.sockets x).protocol = (s.sockets x).protocol ∧
      (u.sockets x).port = (s.sockets x).port)
    (serving : ∀ stage k page bytes wake, u.service = .transfer stage k page bytes wake →
      stage.storing = true → ∃ stage' bytes' wake',
        s.service = .transfer stage' k page bytes' wake' ∧ stage'.storing = true) :
    PortInv cfg u :=
  inv.moves base
    (fun k page wait => Or.inr ⟨⟨wait.bound, queue ▸ wait.frame, slot ▸ wait.unserved,
      threads ▸ wait.kept⟩, by rw [queue]⟩)
    (fun x => (sockets x).1) (fun x => (sockets x).2) (fun _ _ _ => by rw [mem])
    fun stage k page bytes wake at_ storing =>
      ⟨by rw [queue], serving stage k page bytes wake at_ storing⟩

theorem clearSlot_portInv (inv : PortInv cfg s) {k : Nat} (base : SocketInv cfg (clearSlot s k))
    (slot : s.service.slot = some k) : PortInv cfg (clearSlot s k) := by
  refine inv.moves base (fun i page wait => ?_) (fun _ => rfl) (fun _ => rfl) (fun _ _ _ => rfl)
    fun stage i page bytes wake at_ => by cases at_
  have other : i ≠ k := by
    rintro rfl
    have := wait.frame
    simp [clearSlot] at this
  refine Or.inr ⟨⟨wait.bound, by simpa [clearSlot, other] using wait.frame, ?_, wait.kept⟩,
    by simp [clearSlot, other]⟩
  rw [slot]
  exact fun same => other (Option.some.inj same).symm

theorem sameBinding_setSocket (s : State) (x : Nat) (socket : SocketDescriptor)
    (protocol : socket.protocol = (s.sockets x).protocol)
    (port : socket.port = (s.sockets x).port) (y : Nat) :
    ((setSocket s x socket).sockets y).protocol = (s.sockets y).protocol ∧
      ((setSocket s x socket).sockets y).port = (s.sockets y).port := by
  by_cases here : y = x
  · subst here
    simp [setSocket, protocol, port]
  · simp [setSocket, here]

theorem transferStep_portInv (inv : PortInv cfg s) (base : SocketInv cfg u) {stage : Stage}
    {k page bytes x : Nat} {wake : Option Nat}
    (service : s.service = .transfer stage k page bytes wake)
    (taken : transferStep cfg s k page bytes wake x stage = some u) : PortInv cfg u := by
  have slot : s.service.slot = some k := by rw [service]; rfl
  cases stage with
  | copy | sender | copied | sport =>
      obtain ⟨c, -, rfl⟩ := Option.map_eq_some_iff.1 taken
      refine inv.serves base rfl rfl rfl slot.symm (fun _ => ⟨rfl, rfl⟩) fun _ _ _ _ _ at_ _ => ?_
      cases at_
      exact ⟨_, _, _, service, rfl⟩
  | rbuf | bufsize | zeroSender | zeroCopied | zeroSport =>
      cases taken
      exact inv.serves base rfl rfl rfl slot.symm
        (fun y => by apply sameBinding_setSocket s x <;> rfl)
        fun _ _ _ _ _ at_ storing => by cases at_; cases storing
  | free =>
      cases taken
      rw [freePage_still] at base ⊢
      exact inv.serves base rfl rfl rfl slot.symm (fun _ => ⟨rfl, rfl⟩)
        fun _ _ _ _ _ at_ storing => by cases at_; cases storing
  | wake =>
      obtain ⟨sem, -, rfl⟩ := Option.map_eq_some_iff.1 taken
      have out := complete_outside (setService s (.transfer .clear k page bytes wake)) x sem
      refine inv.serves base out.queue out.threads out.mem ?_ (fun y => ?_)
        fun _ _ _ _ _ at_ storing => ?_
      · rw [out.service, slot]
        rfl
      · have same := complete_sameDelivery (setService s (.transfer .clear k page bytes wake)) x sem y
        exact ⟨same.protocol, same.port⟩
      · rw [out.service] at at_
        cases at_
        cases storing
  | clear =>
      cases taken
      exact clearSlot_portInv inv base slot

theorem serve_portInv (inv : PortInv cfg s) (base : SocketInv cfg u)
    (taken : serve cfg s = some u) : PortInv cfg u := by
  unfold serve at taken
  split at taken
  · cases taken
  · rename_i k page service
    cases taken
    rw [freePage_still] at base ⊢
    exact inv.serves base rfl rfl rfl (by rw [service]; rfl) (fun _ => ⟨rfl, rfl⟩)
      fun _ _ _ _ _ at_ _ => by cases at_
  · rename_i k service
    cases taken
    exact clearSlot_portInv inv base (by rw [service]; rfl)
  · rename_i stage k page bytes wake service
    obtain ⟨x, -, taken⟩ := Option.bind_eq_some_iff.1 taken
    exact transferStep_portInv inv base service taken
  · rename_i service
    split at taken
    · cases taken
      exact inv.serves base rfl rfl rfl (by rw [service]; rfl) (fun _ => ⟨rfl, rfl⟩)
        fun _ _ _ _ _ at_ _ => by cases at_
    · cases taken

theorem portInv_step {a : Act} (inv : PortInv cfg s) (orderly : Orderly s a)
    (keeps : KeepsPorts s a) (taken : step cfg s a = some u) : PortInv cfg u := by
  have base := socketInv_step inv.base orderly taken
  have taken := step_act taken
  cases quiet : a.still with
  | true => exact inv.still base (act_still quiet taken)
  | false =>
      cases a with
      | fill t frame => exact fill_portInv inv base taken
      | store t now => exact store_portInv inv base taken
      | socketOpen protocol port created =>
          cases taken
          exact socketOpen_portInv inv base keeps
      | socketClose x =>
          simp only [act] at taken
          split at taken
          · cases taken
            exact socketClose_portInv inv base orderly
          · cases taken
      | register x buflength =>
          simp only [act] at taken
          split at taken
          · cases taken
            exact register_portInv inv base
          · cases taken
      | signalRecv c =>
          simp only [act] at taken
          unfold signalRecv at taken
          split at taken
          · cases taken
            exact inv.serves base rfl rfl rfl rfl (fun _ => ⟨rfl, rfl⟩)
              fun stage _ _ bytes wake at_ storing => ⟨stage, bytes, wake, at_, storing⟩
          · cases taken
      | awaitComplete c =>
          have out := awaitComplete_outside taken
          have same := awaitComplete_sameDelivery taken
          exact inv.serves base out.queue out.threads out.mem (by rw [out.service])
            (fun x => ⟨(same x).protocol, (same x).port⟩)
            fun stage _ _ bytes wake at_ storing => ⟨stage, bytes, wake, out.service ▸ at_, storing⟩
      | pick => exact pick_portInv inv base taken
      | serve => exact serve_portInv inv base taken
      | _ => cases quiet

/-- **Frames go to their ports.**  In every run in which nobody interferes with the
service thread's action and no socket entry is reopened on a port other than that of a
frame recorded for it, the service thread delivers a frame only to an open POP socket
on the frame's port with a call pending. -/
theorem delivers_to_port
    (reached : (system cfg).ReachableWhen (fun s a => Orderly s a ∧ KeepsPorts s a) s) :
    DeliversToPort s :=
  (System.ReachableWhen.invariant (I := PortInv cfg) (fun _ boot => portInv_boot boot)
    (fun _ _ _ inv ok taken => portInv_step inv ok.1 ok.2 taken) reached).deliversToPort

end Ports

/-- The service thread is about to copy a frame to a socket on another port. -/
def misdelivers (s : State) : Bool :=
  match s.service with
  | .transfer .copy k page _ _ =>
      match (s.queue k).socket with
      | some x => (s.sockets x).port ≠ (s.mem page).destPort
      | none => false
  | _ => false

theorem not_deliversToPort {s : State} (wrong : misdelivers s = true) : ¬ DeliversToPort s := by
  intro delivers
  unfold misdelivers at wrong
  split at wrong
  · rename_i k page bytes wake service
    obtain ⟨x, socket, -, -, -, -, -, port⟩ := delivers .copy k page bytes wake service rfl
    rw [socket] at wrong
    simp [port] at wrong
  · cases wrong

/-- A frame for port 5 is recorded for socket 0, which is then closed and opened again
on port 6. -/
def reopens : List Act :=
  [.socketOpen PROTOCOL_POP 5 true] ++ pushFrame 0 (packet 5) 0 ++
    [.pick, .socketClose 0, .socketOpen PROTOCOL_POP 6 true, .register 0 10, .signalRecv 0, .serve,
      .pick]

/-- The frame for port 5 is delivered to the socket on port 6. -/
theorem delivers_to_other_port :
    ¬ ∀ s, (system smallMachine).Reachable s → DeliversToPort s := by
  intro claim
  have run : ((system smallMachine).exec booted reopens).any misdelivers = true := by
    decide +kernel
  obtain ⟨s, ran, wrong⟩ := (Option.any_eq_true _ _).1 run
  exact not_deliversToPort wrong (claim s ((System.Reachable.start booted_boot).exec ran))

/-- A call waits on port 5 when a frame for it comes. -/
def receives : List Act :=
  [.socketOpen PROTOCOL_POP 5 true, .register 0 10] ++ pushFrame 0 (packet 5) 0 ++ [.pick]

theorem delivers_to_port_receives :
    ∃ s, (system smallMachine).exec booted receives = some s ∧ DeliversToPort s ∧
      s.service = .transfer .copy 0 1 0 none := by
  have run : ((system smallMachine).exec booted receives).any
      (fun s => s.service = .transfer .copy 0 1 0 none) = true := by decide +kernel
  obtain ⟨s, ran, service⟩ := (Option.any_eq_true _ _).1 run
  have guarded : (system smallMachine).Guarded (fun s a => Orderly s a ∧ KeepsPorts s a) booted
      receives := by
    refine ⟨⟨trivial, ?_⟩, ⟨?_, trivial⟩, ⟨trivial, trivial⟩, ⟨trivial, trivial⟩,
      ⟨trivial, trivial⟩, ⟨trivial, trivial⟩, ⟨?_, trivial⟩, ⟨trivial, trivial⟩, ⟨trivial, trivial⟩,
      ⟨trivial, trivial⟩, trivial⟩
    · exact fun _ _ x bound _ _ k page wait _ => (nomatch wait.frame)
    · rintro ⟨stage, k, page, bytes, wake, service, -⟩
      exact (nomatch service)
    · exact fun _ _ _ => ⟨fun _ h => (nomatch h), fun h => (nomatch h)⟩
  exact ⟨s, ran, delivers_to_port ((System.ReachableWhen.start booted_boot).exec guarded ran),
    by simpa using service⟩

end Buenos.Net
