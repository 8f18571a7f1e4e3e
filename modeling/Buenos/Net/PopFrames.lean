/-
# Net.PopFrames -- a frame is copied at most once

Every frame that arrives gets a serial of its own.  It is `Live` from then on until
the service thread has copied it to a call, or until it is discarded.  As long as
every page has one owner, live frames have different serials, no serial of a frame
that has been copied comes back, and a slot records the sender of the frame in it.
-/
import Buenos.Net.PopDelivery

namespace Buenos.Net

open Buenos.Lib Buenos.Theory

set_option autoImplicit false

/-- The slot whose frame the service thread has copied. -/
def Service.copied : Service → Option Nat
  | .transfer .copy _ _ _ _ => none
  | .transfer _ k _ _ _ => some k
  | .ready | .discard _ _ | .discarded _ | .waiting => none

/-- The frame in page `p` may still be delivered. -/
def Live (s : State) (p : Nat) : Prop :=
  (∃ t, (s.threads t).carries = some p) ∨ ∃ k, owns s (.slot k) p ∧ s.service.copied ≠ some k

structure FrameInv (s : State) : Prop where
  liveBound : ∀ p, Live s p → (s.mem p).serial < s.nextSerial
  liveOnce : ∀ p q, Live s p → Live s q → (s.mem p).serial = (s.mem q).serial → p = q
  usedBound : ∀ c f, c < s.nextCall → (s.calls c).filledFrom = some f → f.serial < s.nextSerial
  usedGone : ∀ c f p, c < s.nextCall → (s.calls c).filledFrom = some f → Live s p →
    f.serial ≠ (s.mem p).serial
  usedOnce : ∀ c d f g, c < s.nextCall → d < s.nextCall → (s.calls c).filledFrom = some f →
    (s.calls d).filledFrom = some g → f.serial = g.serial → c = d
  source : ∀ k p, owns s (.slot k) p → (s.queue k).source = (s.mem p).source

theorem page_of_carries {th : Thread} {p : Nat} (carried : th.carries = some p) :
    th.page = some p := by
  cases th <;> first | exact carried | cases carried

/-- No frame arrives and none is copied. -/
structure Onward (s u : State) : Prop where
  live : ∀ p, Live u p → Live s p
  mem : u.mem = s.mem
  used : ∀ c f, c < u.nextCall → (u.calls c).filledFrom = some f →
    c < s.nextCall ∧ (s.calls c).filledFrom = some f
  nextSerial : u.nextSerial = s.nextSerial
  slots : ∀ k p, owns u (.slot k) p →
    owns s (.slot k) p ∧ (u.queue k).source = (s.queue k).source ∨
      (u.queue k).source = (s.mem p).source

section Frames

variable {cfg : Config} {s u : State}

theorem frameInv_boot (boot : Boot cfg s) : FrameInv s := by
  have dead : ∀ p, ¬ Live s p := by
    rintro p (⟨t, carried⟩ | ⟨k, ⟨-, frame, -⟩, -⟩)
    · simp [boot.threads, Thread.carries] at carried
    · simp [boot.queue] at frame
  have uncalled : ∀ c, ¬ c < s.nextCall := by simp [boot.nextCall]
  refine ⟨fun p live => absurd live (dead p), fun p _ live => absurd live (dead p),
    fun c _ call => absurd call (uncalled c), fun c _ _ call => absurd call (uncalled c),
    fun c _ _ _ call => absurd call (uncalled c), fun k p slot => ?_⟩
  have frame := slot.2.1
  simp [boot.queue] at frame

theorem FrameInv.onward (inv : FrameInv s) (on : Onward s u) : FrameInv u := by
  refine ⟨fun p live => ?_, fun p q first second => ?_, fun c f call from_ => ?_,
    fun c f p call from_ live => ?_, fun c d f g first second from_ from' => ?_,
    fun k p slot => ?_⟩
  · rw [on.mem, on.nextSerial]
    exact inv.liveBound p (on.live p live)
  · rw [on.mem]
    exact inv.liveOnce p q (on.live p first) (on.live q second)
  · obtain ⟨call, from_⟩ := on.used c f call from_
    rw [on.nextSerial]
    exact inv.usedBound c f call from_
  · obtain ⟨call, from_⟩ := on.used c f call from_
    rw [on.mem]
    exact inv.usedGone c f p call from_ (on.live p live)
  · obtain ⟨first, from_⟩ := on.used c f first from_
    obtain ⟨second, from'⟩ := on.used d g second from'
    exact inv.usedOnce c d f g first second from_ from'
  · rw [on.mem]
    rcases on.slots k p slot with ⟨before, same⟩ | recorded
    · exact same.trans (inv.source k p before)
    · exact recorded

/-! ## Steps without a frame arriving or being copied -/

theorem Still.slot (still : Still s u) {k p : Nat} (slot : owns u (.slot k) p) :
    owns s (.slot k) p := by
  obtain ⟨bound, frame, alive⟩ := slot
  refine ⟨bound, still.queue ▸ frame, fun dead => alive ?_⟩
  rcases dead with freed | ⟨t, q, at_⟩
  · exact Or.inl (still.service ▸ freed)
  · exact Or.inr (still.evicted t q k at_)

theorem Still.onward (still : Still s u) : Onward s u := by
  refine ⟨fun p live => ?_, still.mem, fun c f call from_ => ?_, still.nextSerial,
    fun k p slot => Or.inl ⟨still.slot slot, by rw [still.queue]⟩⟩
  · rcases live with ⟨t, carried⟩ | ⟨k, slot, uncopied⟩
    · exact Or.inl ⟨t, still.carries t p carried⟩
    · exact Or.inr ⟨k, still.slot slot, still.service ▸ uncopied⟩
  · rw [still.calls] at from_
    rw [still.nextCall] at call
    exact ⟨call, from_⟩

theorem Outside.owns (out : Outside s u) (o : Owner) (p : Nat) : owns u o p ↔ owns s o p := by
  obtain ⟨reserved, foreign, panicked, queue, holder, threads, service, -⟩ := out
  cases o <;> simp only [Net.owns, Dead, reserved, foreign, threads, queue, service]

theorem Outside.onward (out : Outside s u)
    (used : ∀ c f, c < u.nextCall → (u.calls c).filledFrom = some f →
      c < s.nextCall ∧ (s.calls c).filledFrom = some f)
    (nextSerial : u.nextSerial = s.nextSerial) : Onward s u := by
  refine ⟨fun p live => ?_, out.mem, used, nextSerial,
    fun k p slot => Or.inl ⟨(out.owns _ p).1 slot, by rw [out.queue]⟩⟩
  rcases live with ⟨t, carried⟩ | ⟨k, slot, uncopied⟩
  · exact Or.inl ⟨t, out.threads ▸ carried⟩
  · exact Or.inr ⟨k, (out.owns _ p).1 slot, out.service ▸ uncopied⟩

/-- One call's record changes, but not the frame its buffer was filled from. -/
theorem Outside.onward_call (out : Outside s u) {c : Nat} {call : Recv}
    (calls : u.calls = Function.update s.calls c call)
    (same : call.filledFrom = (s.calls c).filledFrom) (nextCall : u.nextCall = s.nextCall)
    (nextSerial : u.nextSerial = s.nextSerial) : Onward s u := by
  refine out.onward (fun d f called from_ => ⟨nextCall ▸ called, ?_⟩) nextSerial
  rw [calls] at from_
  by_cases here : d = c
  · subst here
    rw [Function.update_self, same] at from_
    exact from_
  · rwa [Function.update_of_ne here] at from_

theorem register_onward (s : State) (x buflength : Nat) : Onward s (register s x buflength) := by
  refine (register_outside s x buflength).onward (fun c f call from_ => ?_) ?_
  · unfold register at call from_
    split at from_
    · rename_i refused
      rw [if_pos refused] at call
      exact ⟨call, from_⟩
    · rename_i accepted
      rw [if_neg accepted] at call
      have call : c < s.nextCall + 1 := call
      by_cases here : c = s.nextCall
      · subst here
        simp at from_
      · exact ⟨by omega, by simpa [here] using from_⟩
  · unfold register
    split <;> rfl

theorem socketOpen_onward (s : State) (protocol : BitVec 8) (port : BitVec 16) (created : Bool) :
    Onward s (socketOpen s protocol port created) := by
  have out := socketOpen_outside s protocol port created
  rcases socketOpen_cases s protocol port created with same | ⟨x, bound, -, -, -, -, opened⟩
  · rw [same] at out ⊢
    exact out.onward (fun _ _ call from_ => ⟨call, from_⟩) rfl
  · rw [opened] at out ⊢
    exact out.onward (fun _ _ call from_ => ⟨call, from_⟩) rfl

theorem socketClose_onward (s : State) (x : Nat) : Onward s (socketClose s x) := by
  have out := socketClose_outside s x
  unfold socketClose at out ⊢
  split
  · rename_i closed
    rw [if_pos closed] at out
    exact out.onward (fun _ _ call from_ => ⟨call, from_⟩) rfl
  · rename_i opened
    rw [if_neg opened] at out
    exact out.onward (fun _ _ call from_ => ⟨call, from_⟩) rfl

theorem signalRecv_onward {c : Nat} (taken : signalRecv s c = some u) : Onward s u := by
  have out := signalRecv_outside taken
  unfold signalRecv at taken
  split at taken
  · cases taken
    exact out.onward_call rfl rfl rfl rfl
  · cases taken

theorem awaitComplete_onward {c : Nat} (taken : awaitComplete s c = some u) : Onward s u := by
  have out := awaitComplete_outside taken
  unfold awaitComplete at taken
  split at taken
  · obtain ⟨sem, -, waited⟩ := Option.map_eq_some_iff.1 taken
    split at waited
    · subst waited
      exact out.onward_call rfl rfl rfl rfl
    · subst waited
      exact out.onward_call rfl rfl rfl rfl
  · cases taken

/-- What `semaphore_V` does: wake the first sleeper, or only count. -/
theorem complete_cases (s : State) (x : Nat) (sem : Semaphore) :
    (∃ c rest, sem.value < 0 ∧ sem.waiters = c :: rest ∧
      complete s x sem = finish (setSemaphore s x { value := sem.value + 1, waiters := rest }) x c) ∨
    ((sem.value < 0 → sem.waiters = []) ∧
      complete s x sem = setSemaphore s x { sem with value := sem.value + 1 }) := by
  unfold complete
  split
  · rename_i low
    split
    · rename_i c rest waiters
      exact Or.inl ⟨c, rest, by omega, waiters, rfl⟩
    · rename_i waiters
      exact Or.inr ⟨fun _ => waiters, rfl⟩
  · rename_i high
    exact Or.inr ⟨fun low => absurd low (by omega), rfl⟩

theorem complete_onward (s : State) (x : Nat) (sem : Semaphore) : Onward s (complete s x sem) := by
  have out := complete_outside s x sem
  rcases complete_cases s x sem with ⟨c, rest, -, -, woken⟩ | ⟨-, counted⟩
  · rw [woken] at out ⊢
    exact out.onward_call rfl rfl rfl rfl
  · rw [counted] at out ⊢
    exact out.onward (fun _ _ call from_ => ⟨call, from_⟩) rfl

theorem pick_onward (taken : pick s = some u) : Onward s u := by
  obtain ⟨ready, -, scanned⟩ := pick_scanned taken
  have threads : u.threads = s.threads := by rw [scanned.rest]
  have calls : u.calls = s.calls := by rw [scanned.rest]
  have nextCall : u.nextCall = s.nextCall := by rw [scanned.rest]
  have before : ∀ k p, owns u (.slot k) p → owns s (.slot k) p := by
    rintro k p ⟨bound, frame, alive⟩
    refine ⟨bound, scanned.frame k ▸ frame, fun dead => alive ?_⟩
    rcases dead with freed | evicted
    · rw [ready] at freed
      cases freed
    · exact Or.inr (threads ▸ evicted)
  refine ⟨fun p live => ?_, by rw [scanned.rest], fun c f call from_ => ⟨nextCall ▸ call, calls ▸ from_⟩,
    by rw [scanned.rest], fun k p slot => Or.inl ⟨before k p slot, scanned.source k⟩⟩
  rcases live with ⟨t, carried⟩ | ⟨k, slot, -⟩
  · exact Or.inl ⟨t, threads ▸ carried⟩
  · exact Or.inr ⟨k, before k p slot, by rw [ready]; simp [Service.copied]⟩

theorem store_onward {t : Nat} {now : BitVec 32} (taken : store s t now = some u) :
    Onward s u := by
  unfold store at taken
  split at taken
  · rename_i p k at_
    have mine : (s.threads t).carries = some p := by rw [at_]; rfl
    have before : ∀ i q, owns u (.slot i) q → i = k ∧ q = p ∨ i ≠ k ∧ owns s (.slot i) q := by
      cases taken
      rintro i q ⟨bound, frame, alive⟩
      by_cases here : i = k
      · subst here
        exact Or.inl ⟨rfl, (Option.some.inj (by simpa using frame : some p = some q)).symm⟩
      · refine Or.inr ⟨here, bound, by simpa [here] using frame, fun dead => alive ?_⟩
        rcases dead with freed | ⟨v, p', at'⟩
        · exact Or.inl freed
        · have other : v ≠ t := by
            rintro rfl
            rw [at_] at at'
            cases at'
            exact here rfl
          exact Or.inr ⟨v, p', by simpa [setThread, other] using at'⟩
    cases taken
    refine ⟨fun q live => ?_, rfl, fun _ _ call from_ => ⟨call, from_⟩, rfl, fun i q slot => ?_⟩
    · rcases live with ⟨v, carried⟩ | ⟨i, slot, uncopied⟩
      · by_cases here : v = t
        · subst here
          simp [setThread, Thread.carries] at carried
        · exact Or.inl ⟨v, by simpa [setThread, here] using carried⟩
      · rcases before i q slot with ⟨-, rfl⟩ | ⟨-, slot⟩
        · exact Or.inl ⟨t, mine⟩
        · exact Or.inr ⟨i, slot, uncopied⟩
    · rcases before i q slot with ⟨rfl, rfl⟩ | ⟨other, slot⟩
      · exact Or.inr (by simp)
      · exact Or.inl ⟨slot, by simp [other]⟩
  · cases taken

/-- The service thread goes on, and what it has freed or copied stays so. -/
theorem serves_onward (threads : u.threads = s.threads) (mem : u.mem = s.mem)
    (frame : ∀ k p, (u.queue k).frame = some p → (s.queue k).frame = some p ∧
      (s.service.freed = some k → u.service.freed = some k) ∧
      (s.service.copied = some k → u.service.copied = some k))
    (source : ∀ k, (u.queue k).source = (s.queue k).source)
    (used : ∀ c f, c < u.nextCall → (u.calls c).filledFrom = some f →
      c < s.nextCall ∧ (s.calls c).filledFrom = some f)
    (nextSerial : u.nextSerial = s.nextSerial) : Onward s u := by
  have before : ∀ k p, owns u (.slot k) p → owns s (.slot k) p := by
    rintro k p ⟨bound, at_, alive⟩
    obtain ⟨at_, freed, -⟩ := frame k p at_
    exact ⟨bound, at_, fun dead => alive (dead.imp freed fun evicted => threads ▸ evicted)⟩
  refine ⟨fun p live => ?_, mem, used, nextSerial,
    fun k p slot => Or.inl ⟨before k p slot, source k⟩⟩
  rcases live with ⟨t, carried⟩ | ⟨k, slot, uncopied⟩
  · exact Or.inl ⟨t, threads ▸ carried⟩
  · obtain ⟨-, -, copied⟩ := frame k p slot.2.1
    exact Or.inr ⟨k, before k p slot, fun before => uncopied (copied before)⟩

theorem slot_of_copied {service : Service} {k : Nat} (copied : service.copied = some k) :
    service.slot = some k := by
  cases service with
  | transfer stage k' page bytes wake => cases stage <;> simp_all [Service.copied, Service.slot]
  | _ => cases copied

theorem clearSlot_onward {k : Nat} (slot : s.service.slot = some k) : Onward s (clearSlot s k) := by
  have source : ∀ i, ((clearSlot s k).queue i).source = (s.queue i).source := by
    intro i
    by_cases here : i = k
    · subst here
      simp [clearSlot]
    · simp [clearSlot, here]
  refine serves_onward rfl rfl (fun i p frame => ?_) source (fun _ _ call from_ => ⟨call, from_⟩) rfl
  have other : i ≠ k := by
    rintro rfl
    simp [clearSlot] at frame
  refine ⟨by simpa [clearSlot, other] using frame, fun freed => ?_, fun copied => ?_⟩
  · exact absurd (Option.some.inj ((slot_of_freed freed).symm.trans slot)) other
  · exact absurd (Option.some.inj ((slot_of_copied copied).symm.trans slot)) other

/-! ## A frame arrives -/

/-- A frame with the next serial arrives in a page without a live frame. -/
theorem FrameInv.arrives (inv : FrameInv s) {p : Nat} {frame : Frame} (fresh : ¬ Live s p)
    (live : ∀ q, Live u q → q = p ∨ Live s q)
    (mem : u.mem = Function.update s.mem p { frame with serial := s.nextSerial })
    (nextSerial : u.nextSerial = s.nextSerial + 1) (calls : u.calls = s.calls)
    (nextCall : u.nextCall = s.nextCall)
    (slots : ∀ k q, owns u (.slot k) q →
      q ≠ p ∧ owns s (.slot k) q ∧ (u.queue k).source = (s.queue k).source) : FrameInv u := by
  have here : (u.mem p).serial = s.nextSerial := by rw [mem, Function.update_self]
  have same : ∀ q, Live s q → u.mem q = s.mem q := fun q before => by
    rw [mem, Function.update_of_ne]
    rintro rfl
    exact fresh before
  refine ⟨fun q now => ?_, fun q r first second serial => ?_, fun c f call from_ => ?_,
    fun c f q call from_ now serial => ?_, ?_, fun k q slot => ?_⟩
  · rw [nextSerial]
    rcases live q now with rfl | before
    · omega
    · have := inv.liveBound q before
      rw [same q before]
      omega
  · rcases live q first with rfl | first <;> rcases live r second with rfl | second
    · rfl
    · have := inv.liveBound r second
      rw [here, same r second] at serial
      omega
    · have := inv.liveBound q first
      rw [here, same q first] at serial
      omega
    · rw [same q first, same r second] at serial
      exact inv.liveOnce q r first second serial
  · rw [calls] at from_
    rw [nextCall] at call
    rw [nextSerial]
    exact Nat.lt_succ_of_lt (inv.usedBound c f call from_)
  · rw [calls] at from_
    rw [nextCall] at call
    rcases live q now with rfl | before
    · have := inv.usedBound c f call from_
      omega
    · rw [same q before] at serial
      exact inv.usedGone c f q call from_ before serial
  · rw [calls, nextCall]
    exact inv.usedOnce
  · obtain ⟨elsewhere, before, source⟩ := slots k q slot
    rw [mem, Function.update_of_ne elsewhere, source]
    exact inv.source k q before

theorem fill_frameInv {t : Nat} {frame : Frame} (pages : PageInv cfg s) (inv : FrameInv s)
    (taken : fill s t frame = some u) : FrameInv u := by
  unfold fill at taken
  split at taken
  · rename_i p at_
    have mine : owns s (.thread t) p := by simp [owns, at_, Thread.page]
    have before : ∀ k q, owns u (.slot k) q → owns s (.slot k) q := by
      cases taken
      rintro k q ⟨bound, frame', alive⟩
      refine ⟨bound, frame', fun dead => alive ?_⟩
      rcases dead with freed | ⟨v, q', at'⟩
      · exact Or.inl freed
      · have other : v ≠ t := by
          rintro rfl
          rw [at_] at at'
          cases at'
        exact Or.inr ⟨v, q', by simpa [setThread, other] using at'⟩
    cases taken
    refine inv.arrives (p := p) ?_ ?_ rfl rfl rfl rfl fun k q slot => ⟨?_, before k q slot, rfl⟩
    · rintro (⟨v, carried⟩ | ⟨k, slot, -⟩)
      · have theirs : owns s (.thread v) p := page_of_carries carried
        cases pages.one.unique mine theirs
        rw [at_] at carried
        cases carried
      · cases pages.one.unique mine slot
    · rintro q (⟨v, carried⟩ | ⟨k, slot, uncopied⟩)
      · by_cases here : v = t
        · subst here
          exact Or.inl (by simpa [setThread, Thread.carries, eq_comm] using carried)
        · exact Or.inr (Or.inl ⟨v, by simpa [setThread, here] using carried⟩)
      · exact Or.inr (Or.inr ⟨k, before k q slot, uncopied⟩)
    · rintro rfl
      cases pages.one.unique mine (before k q slot)
  · cases taken

/-! ## A frame is copied -/

/-- The live frame of a page is copied to call `c`, and is live no longer. -/
theorem FrameInv.copies (inv : FrameInv s) (page c : Nat) (was : Live s page)
    (live : ∀ p, Live u p → Live s p ∧ p ≠ page) (mem : u.mem = s.mem)
    (used : ∀ d f, (u.calls d).filledFrom = some f →
      d = c ∧ f = s.mem page ∨ (s.calls d).filledFrom = some f)
    (nextCall : u.nextCall = s.nextCall) (nextSerial : u.nextSerial = s.nextSerial)
    (slots : ∀ k p, owns u (.slot k) p →
      owns s (.slot k) p ∧ (u.queue k).source = (s.queue k).source) : FrameInv u := by
  refine ⟨fun p now => ?_, fun p q first second => ?_, fun d f call from_ => ?_,
    fun d f p call from_ now serial => ?_, fun d e f g first second from_ from' serial => ?_,
    fun k p slot => ?_⟩
  · rw [mem, nextSerial]
    exact inv.liveBound p (live p now).1
  · rw [mem]
    exact inv.liveOnce p q (live p first).1 (live q second).1
  · rw [nextCall] at call
    rw [nextSerial]
    rcases used d f from_ with ⟨-, rfl⟩ | before
    · exact inv.liveBound page was
    · exact inv.usedBound d f call before
  · rw [nextCall] at call
    rw [mem] at serial
    rcases used d f from_ with ⟨-, rfl⟩ | before
    · exact (live p now).2 (inv.liveOnce page p was (live p now).1 serial).symm
    · exact inv.usedGone d f p call before (live p now).1 serial
  · rw [nextCall] at first second
    rcases used d f from_ with ⟨rfl, rfl⟩ | before <;> rcases used e g from' with ⟨rfl, rfl⟩ | before'
    · rfl
    · exact absurd serial.symm (inv.usedGone e g page second before' was)
    · exact absurd serial (inv.usedGone d f page first before was)
    · exact inv.usedOnce d e f g first second before before' serial
  · obtain ⟨before, source⟩ := slots k p slot
    rw [mem, source]
    exact inv.source k p before

theorem copy_frameInv {k page bytes bytes' c : Nat} {wake : Option Nat} {call : Recv}
    (pages : PageInv cfg s) (inv : FrameInv s)
    (service : s.service = .transfer .copy k page bytes wake)
    (from_ : call.filledFrom = some (s.mem page))
    (after : setService (setCall s c call) (.transfer .sender k page bytes' wake) = u) :
    FrameInv u := by
  have slot : owns s (.slot k) page := pages.serving_owns service rfl
  have uncopied : ∀ i, s.service.copied ≠ some i := by simp [service, Service.copied]
  have before : ∀ i p, owns u (.slot i) p → owns s (.slot i) p := by
    cases after
    rintro i p ⟨bound, frame, alive⟩
    refine ⟨bound, frame, fun dead => alive (dead.imp (fun freed => ?_) id)⟩
    rw [service] at freed
    cases freed
  cases after
  refine inv.copies page c (Or.inr ⟨k, slot, uncopied k⟩) ?_ rfl
    (fun d f from' => ?_) rfl rfl fun i p slot => ⟨before i p slot, rfl⟩
  · rintro p (⟨t, carried⟩ | ⟨i, has, uncopied'⟩)
    · have carried : (s.threads t).carries = some p := carried
      refine ⟨Or.inl ⟨t, carried⟩, ?_⟩
      rintro rfl
      cases pages.one.unique slot (show owns s (.thread t) p from page_of_carries carried)
    · have owned := before i p has
      refine ⟨Or.inr ⟨i, owned, uncopied i⟩, ?_⟩
      rintro rfl
      cases pages.one.unique slot owned
      exact uncopied' rfl
  · by_cases here : d = c
    · subst here
      have same : call.filledFrom = some f := by simpa [setService, setCall] using from'
      exact Or.inl ⟨rfl, (Option.some.inj (from_.symm.trans same)).symm⟩
    · exact Or.inr (by simpa [setService, setCall, here] using from')

/-! ## Runs -/

theorem transferStep_frameInv (pages : PageInv cfg s) (inv : FrameInv s) {stage : Stage}
    {k page bytes x : Nat} {wake : Option Nat}
    (service : s.service = .transfer stage k page bytes wake)
    (taken : transferStep cfg s k page bytes wake x stage = some u) : FrameInv u := by
  have frames : ∀ {stage' bytes' wake'}, (s.service.freed = some k →
      (Service.transfer stage' k page bytes' wake').freed = some k) →
      (Service.transfer stage' k page bytes' wake').copied = some k →
      ∀ i p, (s.queue i).frame = some p → (s.queue i).frame = some p ∧
        (s.service.freed = some i → (Service.transfer stage' k page bytes' wake').freed = some i) ∧
        (s.service.copied = some i →
          (Service.transfer stage' k page bytes' wake').copied = some i) := by
    intro stage' bytes' wake' freed copied i p frame
    refine ⟨frame, fun freed' => ?_, fun copied' => ?_⟩
    · have here : k = i := by
        have := slot_of_freed freed'
        rw [service] at this
        exact Option.some.inj this
      subst here
      exact freed freed'
    · have here : k = i := by
        have := slot_of_copied copied'
        rw [service] at this
        exact Option.some.inj this
      subst here
      exact copied
  cases stage with
  | copy =>
      obtain ⟨c, -, rfl⟩ := Option.map_eq_some_iff.1 taken
      exact copy_frameInv pages inv service rfl rfl
  | sender | copied | sport =>
      obtain ⟨c, -, rfl⟩ := Option.map_eq_some_iff.1 taken
      refine inv.onward (serves_onward rfl rfl
        (frames (fun freed => by rw [service] at freed; cases freed) rfl) (fun _ => rfl)
        (fun d f call from_ => ⟨call, ?_⟩) rfl)
      by_cases here : d = c
      · subst here
        simpa [setService, setCall] using from_
      · simpa [setService, setCall, here] using from_
  | rbuf | bufsize | zeroSender | zeroCopied | zeroSport =>
      cases taken
      exact inv.onward (serves_onward rfl rfl
        (frames (fun freed => by rw [service] at freed; cases freed) rfl) (fun _ => rfl)
        (fun _ _ call from_ => ⟨call, from_⟩) rfl)
  | free =>
      cases taken
      rw [freePage_still]
      exact inv.onward (serves_onward rfl rfl (frames (fun _ => rfl) rfl) (fun _ => rfl)
        (fun _ _ call from_ => ⟨call, from_⟩) rfl)
  | wake =>
      obtain ⟨sem, -, rfl⟩ := Option.map_eq_some_iff.1 taken
      have on : Onward s (setService s (.transfer .clear k page bytes wake)) :=
        serves_onward rfl rfl (frames (fun _ => rfl) rfl) (fun _ => rfl)
          (fun _ _ call from_ => ⟨call, from_⟩) rfl
      exact (inv.onward on).onward (complete_onward _ x sem)
  | clear =>
      cases taken
      exact inv.onward (clearSlot_onward (by rw [service]; rfl))

theorem serve_frameInv (pages : PageInv cfg s) (inv : FrameInv s)
    (taken : serve cfg s = some u) : FrameInv u := by
  unfold serve at taken
  split at taken
  · cases taken
  · rename_i k page service
    cases taken
    rw [freePage_still]
    refine inv.onward (serves_onward rfl rfl (fun i p frame => ⟨frame, fun freed => ?_,
      fun copied => ?_⟩) (fun _ => rfl) (fun _ _ call from_ => ⟨call, from_⟩) rfl)
    · rw [service] at freed
      cases freed
    · rw [service] at copied
      cases copied
  · rename_i k service
    cases taken
    exact inv.onward (clearSlot_onward (by rw [service]; rfl))
  · rename_i stage k page bytes wake service
    obtain ⟨x, -, taken⟩ := Option.bind_eq_some_iff.1 taken
    exact transferStep_frameInv pages inv service taken
  · rename_i service
    split at taken
    · cases taken
      refine inv.onward (serves_onward rfl rfl (fun i p frame => ⟨frame, fun freed => ?_,
        fun copied => ?_⟩) (fun _ => rfl) (fun _ _ call from_ => ⟨call, from_⟩) rfl)
      · rw [service] at freed
        cases freed
      · rw [service] at copied
        cases copied
    · cases taken

/-- Serials stay unique through every step. -/
theorem frameInv_step {a : Act} (pages : PageInv cfg s) (inv : FrameInv s)
    (taken : step cfg s a = some u) : FrameInv u := by
  have taken := step_act taken
  cases quiet : a.still with
  | true => exact inv.onward (act_still quiet taken).onward
  | false =>
      cases a with
      | fill t frame => exact fill_frameInv pages inv taken
      | store t now => exact inv.onward (store_onward taken)
      | socketOpen protocol port created =>
          cases taken
          exact inv.onward (socketOpen_onward s protocol port created)
      | socketClose x =>
          simp only [act] at taken
          split at taken
          · cases taken
            exact inv.onward (socketClose_onward s x)
          · cases taken
      | register x buflength =>
          simp only [act] at taken
          split at taken
          · cases taken
            exact inv.onward (register_onward s x buflength)
          · cases taken
      | signalRecv c => exact inv.onward (signalRecv_onward taken)
      | awaitComplete c => exact inv.onward (awaitComplete_onward taken)
      | pick => exact inv.onward (pick_onward taken)
      | serve => exact serve_frameInv pages inv taken
      | _ => cases quiet

end Frames

end Buenos.Net
