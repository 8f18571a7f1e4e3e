/-
# Drivers.TtyInput -- what readers get of what arrives

The input buffer is meant to hold the accepted characters that have not been read.  The
interrupt handler discards a character only when `read_count` is past `TTY_BUF_SIZE`, so with
a full buffer it takes one more: the count leaves its range, and the character overwrites the
oldest one.  `ttyInput_iff` is the exact account: all is well until the first interrupt that
delivers more characters than there is room for.
-/
import Buenos.Drivers.Tty

namespace Buenos.Drivers

open Buenos.Lib Buenos.Theory

set_option autoImplicit false

structure InputOk (s : State) : Prop where
  fits : s.readBuf.Fits TTY_BUF_SIZE
  buffered : s.accepted = s.results ++ s.readBuf.contents TTY_BUF_SIZE
  arrived : s.accepted.Sublist s.received
  delivered : s.results.Sublist s.received

/-- An interrupt delivers no more characters than there is room for. -/
def Room (s : State) : Act → Prop
  | .receive chars => s.readBuf.count + chars.length ≤ TTY_BUF_SIZE
  | _ => True

/-! ## The loops -/

theorem ttyReceive_contents {ring : RingBuffer Byte} (fits : ring.Fits TTY_BUF_SIZE)
    (chars : List Byte) (room : ring.count + chars.length ≤ TTY_BUF_SIZE) :
    (ttyReceive ring chars).Fits TTY_BUF_SIZE ∧
      (ttyReceive ring chars).contents TTY_BUF_SIZE = ring.contents TTY_BUF_SIZE ++ chars := by
  induction chars generalizing ring with
  | nil => exact ⟨fits, (List.append_nil _).symm⟩
  | cons c rest ih =>
      rw [List.length_cons] at room
      have below : ring.count < TTY_BUF_SIZE := by omega
      have taken : ttyReceiveChar ring c = ring.push TTY_BUF_SIZE c := by
        unfold ttyReceiveChar
        rw [if_neg (by omega)]
      have more : (ring.push TTY_BUF_SIZE c).count + rest.length ≤ TTY_BUF_SIZE := by
        simp only [RingBuffer.push]
        omega
      obtain ⟨fits', contents⟩ := ih (fits.push below c) more
      rw [ttyReceive, List.foldl_cons, taken]
      refine ⟨fits', contents.trans ?_⟩
      rw [RingBuffer.contents_push fits below, List.append_assoc, List.singleton_append]

/-- The count after an interrupt, however many characters come: one too many at most. -/
theorem ttyReceive_count (ring : RingBuffer Byte) (chars : List Byte)
    (start : ring.count ≤ TTY_BUF_SIZE + 1) :
    (ttyReceive ring chars).count = min (ring.count + chars.length) (TTY_BUF_SIZE + 1) := by
  induction chars generalizing ring with
  | nil =>
      rw [ttyReceive, List.foldl_nil, List.length_nil]
      omega
  | cons c rest ih =>
      have one : (ttyReceiveChar ring c).count = min (ring.count + 1) (TTY_BUF_SIZE + 1) := by
        unfold ttyReceiveChar
        split
        · omega
        · simp only [RingBuffer.push]
          omega
      rw [ttyReceive, List.foldl_cons]
      change (ttyReceive (ttyReceiveChar ring c) rest).count = _
      rw [ih _ (by omega), one, List.length_cons]
      push_cast
      omega

/-- The reader gets the first characters of the buffer. -/
theorem ttyTake_contents {ring : RingBuffer Byte} (fits : ring.Fits TTY_BUF_SIZE) (n : Nat) :
    (ttyTake n ring).2.Fits TTY_BUF_SIZE ∧
      ring.contents TTY_BUF_SIZE =
        (ttyTake n ring).1 ++ (ttyTake n ring).2.contents TTY_BUF_SIZE := by
  induction n generalizing ring with
  | zero => exact ⟨fits, rfl⟩
  | succ n ih =>
      rw [ttyTake]
      split
      · rename_i some
        obtain ⟨fits', contents⟩ := ih (fits.pop some)
        refine ⟨fits', ?_⟩
        rw [RingBuffer.contents_pop fits some, contents]
        rfl
      · exact ⟨fits, rfl⟩

/-! ## Steps -/

/-- The input side is untouched. -/
structure SameInput (s t : State) : Prop where
  readBuf : t.readBuf = s.readBuf
  received : t.received = s.received
  accepted : t.accepted = s.accepted
  results : t.results = s.results

theorem InputOk.same {s t : State} (ok : InputOk s) (same : SameInput s t) : InputOk t where
  fits := by rw [same.readBuf]; exact ok.fits
  buffered := by rw [same.accepted, same.results, same.readBuf]; exact ok.buffered
  arrived := by rw [same.accepted, same.received]; exact ok.arrived
  delivered := by rw [same.results, same.received]; exact ok.delivered

theorem writeOn_sameInput (s : State) (t call : Nat) (rest : List Byte) (busy : Nat → Bool) :
    SameInput s (writeOn s t call rest busy) := by
  unfold writeOn
  dsimp only
  split
  · exact ⟨rfl, rfl, rfl, rfl⟩
  · exact ⟨rfl, rfl, rfl, rfl⟩

theorem readOn_inputOk {s : State} (ok : InputOk s) (t : Nat) (len : Int) :
    InputOk (readOn s t len) := by
  unfold readOn
  split
  · exact ok.same ⟨rfl, rfl, rfl, rfl⟩
  · obtain ⟨fits, contents⟩ := ttyTake_contents ok.fits len.toNat
    have buffered : s.accepted = (s.results ++ (ttyTake len.toNat s.readBuf).1) ++
        (ttyTake len.toNat s.readBuf).2.contents TTY_BUF_SIZE := by
      rw [ok.buffered, contents, List.append_assoc]
    refine ⟨fits, buffered, ok.arrived, ?_⟩
    apply List.Sublist.trans _ ok.arrived
    rw [buffered]
    exact List.sublist_append_left _ _

theorem receive_inputOk {s : State} (ok : InputOk s) {chars : List Byte} {phase : Nat → Phase}
    (room : s.readBuf.count + chars.length ≤ TTY_BUF_SIZE) :
    InputOk { s with
      readBuf := ttyReceive s.readBuf chars
      phase := phase
      received := s.received ++ chars
      accepted := s.accepted ++
        chars.take (TTY_BUF_SIZE - (s.accepted.length - s.results.length)) } := by
  obtain ⟨fits, contents⟩ := ttyReceive_contents ok.fits chars room
  have unread : s.accepted.length - s.results.length = s.readBuf.count.toNat := by
    rw [ok.buffered, List.length_append, RingBuffer.length_contents]
    omega
  have all : chars.take (TTY_BUF_SIZE - (s.accepted.length - s.results.length)) = chars := by
    apply List.take_of_length_le
    have nonneg := ok.fits.nonneg
    rw [unread]
    omega
  refine ⟨fits, ?_, ?_, ?_⟩
  · simp only [all]
    rw [contents, ok.buffered, List.append_assoc]
  · simp only [all]
    exact ok.arrived.append (List.Sublist.refl chars)
  · exact ok.delivered.trans (List.sublist_append_left _ _)

/-- **Step.**  The input buffer is as it should be after a step exactly if the step
delivered no more characters than there was room for. -/
theorem inputOk_step {s t : State} {a : Act} (ok : InputOk s) (taken : step s a = some t) :
    InputOk t ↔ Room s a := by
  cases a with
  | write u text busy =>
      simp only [step] at taken
      split at taken
      · cases taken
        have begun : InputOk { s with
            calls := s.calls + 1, text := Function.update s.text s.calls text } :=
          ok.same ⟨rfl, rfl, rfl, rfl⟩
        exact iff_of_true (begun.same (writeOn_sameInput _ _ _ _ _)) trivial
      · cases taken
  | writeAgain u busy =>
      simp only [step] at taken
      split at taken
      · cases taken
        exact iff_of_true (ok.same (writeOn_sameInput _ _ _ _ _)) trivial
      · cases taken
  | read u len =>
      simp only [step] at taken
      split at taken
      · cases taken
        exact iff_of_true (readOn_inputOk ok u len) trivial
      · cases taken
  | readAgain u =>
      simp only [step] at taken
      split at taken
      · cases taken
        exact iff_of_true (readOn_inputOk ok u _) trivial
      · cases taken
  | transmit busy =>
      cases taken
      refine iff_of_true (ok.same ?_) trivial
      dsimp only
      split
      · exact ⟨rfl, rfl, rfl, rfl⟩
      · exact ⟨rfl, rfl, rfl, rfl⟩
  | receive chars =>
      cases taken
      constructor
      · intro after
        have count := ttyReceive_count s.readBuf chars (by have := ok.fits.count; omega)
        have bound := after.fits.count
        simp only [Room]
        dsimp only at bound
        omega
      · exact receive_inputOk ok

theorem inputOk_boot {s : State} (boot : Boot s) : InputOk s where
  fits := ⟨by rw [boot.readHead]; decide, by rw [boot.readCount], by rw [boot.readCount]; decide⟩
  buffered := by
    rw [boot.accepted, boot.results, RingBuffer.contents_eq_nil boot.readCount]
    rfl
  arrived := by rw [boot.accepted]; exact List.nil_sublist _
  delivered := by rw [boot.results]; exact List.nil_sublist _

/-- **The input buffer.**  In every run in which no interrupt delivers more characters than
there is room for, the count stays in its range, the buffer holds the accepted characters
that have not been read, in order, and the readers together have got a part of what arrived,
in order and nothing twice.  The first interrupt that delivers more breaks this. -/
theorem ttyInput_iff {s : State} (reached : system.ReachableWhen Room s) :
    InputOk s ∧ ∀ a t, step s a = some t → (InputOk t ↔ Room s a) := by
  have ok : InputOk s :=
    System.ReachableWhen.invariant (I := InputOk) (fun _ boot => inputOk_boot boot)
      (fun _ _ _ ok room taken => (inputOk_step ok taken).2 room) reached
  exact ⟨ok, fun _ _ taken => inputOk_step ok taken⟩

/-! ## A full buffer -/

/-- A burst of 2049 characters is buffered whole, and the count is out of range. -/
theorem burst_overflows : ¬ ∀ s, system.Reachable s → InputOk s := by
  intro claim
  have ok := claim _ ((System.Reachable.start fresh_boot).next
    (a := .receive (List.replicate 2049 0x61)) rfl)
  have count := ttyReceive_count fresh.readBuf (List.replicate 2049 0x61) (by decide)
  rw [List.length_replicate] at count
  have bound := ok.fits.count
  dsimp only at bound
  rw [count] at bound
  exact absurd bound (by decide)

/-- Two characters arrive and are read; a burst of 2049 would be one too many. -/
theorem ttyInput_iff_two :
    ∃ s, system.exec fresh [.receive [0x61, 0x62], .read 0 10] = some s ∧
      s.results = [0x61, 0x62] ∧ InputOk s ∧
      ∀ a t, step s a = some t → (InputOk t ↔ Room s a) := by
  obtain ⟨s, ran, results⟩ : ∃ s, system.exec fresh [.receive [0x61, 0x62], .read 0 10] = some s ∧
      s.results = [0x61, 0x62] := ⟨_, rfl, by decide⟩
  have room : Room fresh (.receive [0x61, 0x62]) := by
    simp only [Room]
    decide
  have guarded : system.Guarded Room fresh [.receive [0x61, 0x62], .read 0 10] :=
    ⟨room, trivial, trivial⟩
  exact ⟨s, ran, results, ttyInput_iff ((System.ReachableWhen.start fresh_boot).exec guarded ran)⟩

end Buenos.Drivers
