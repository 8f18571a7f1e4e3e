/-
# Drivers.TtyOutput -- what the terminal is sent

Writers, the interrupt handler and other writers all move the same head and count.  What was
sent and what is still buffered, taken together, is the sequence of the parts that the calls
put into the buffer: each part is contiguous, and the parts of a call that has returned are
its text, in order and once (`ttyOutput`).
-/
import Buenos.Drivers.Tty

namespace Buenos.Drivers

open Buenos.Lib Buenos.Theory

set_option autoImplicit false

/-! ## The loops -/

/-- Sent and buffered characters, in order. -/
def TtyOut.stream (out : TtyOut) : List Byte := out.port ++ out.ring.contents TTY_BUF_SIZE

theorem TtyOut.stream_send {out : TtyOut} (fits : out.ring.Fits TTY_BUF_SIZE)
    (some : 0 < out.ring.count) : out.send.stream = out.stream := by
  rw [stream, stream, RingBuffer.contents_pop fits some]
  simp only [TtyOut.send, List.append_assoc, List.singleton_append]

theorem ttyTransmit_stream (busy : Nat → Bool) (n k : Nat) {out : TtyOut}
    (fits : out.ring.Fits TTY_BUF_SIZE) :
    (ttyTransmit busy n k out).ring.Fits TTY_BUF_SIZE ∧
      (ttyTransmit busy n k out).stream = out.stream := by
  induction n generalizing k out with
  | zero => exact ⟨fits, rfl⟩
  | succ n ih =>
      rw [ttyTransmit]
      split
      · rename_i goes
        simp only [Bool.and_eq_true, decide_eq_true_eq] at goes
        have shorter : out.send.ring.Fits TTY_BUF_SIZE := fits.pop goes.2
        obtain ⟨fits', stream⟩ := ih (k + 1) shorter
        exact ⟨fits', stream.trans (TtyOut.stream_send fits goes.2)⟩
      · exact ⟨fits, rfl⟩

/-- A fill puts a first part of the characters behind those in the buffer. -/
theorem ttyFill_contents {ring : RingBuffer Byte} (fits : ring.Fits TTY_BUF_SIZE)
    (chars : List Byte) :
    (ttyFill ring chars).1.Fits TTY_BUF_SIZE ∧
      (ttyFill ring chars).1.contents TTY_BUF_SIZE =
        ring.contents TTY_BUF_SIZE ++ (ttyFill ring chars).2.1 ∧
      (ttyFill ring chars).2.1 ++ (ttyFill ring chars).2.2 = chars := by
  induction chars generalizing ring with
  | nil => exact ⟨fits, (List.append_nil _).symm, rfl⟩
  | cons c rest ih =>
      rw [ttyFill]
      split
      · rename_i room
        obtain ⟨fits', contents, parts⟩ := ih (fits.push room c)
        refine ⟨fits', ?_, ?_⟩
        · rw [contents, RingBuffer.contents_push fits room, List.append_assoc,
            List.singleton_append]
        · exact congrArg _ parts
      · exact ⟨fits, (List.append_nil _).symm, rfl⟩

theorem ttyFill_count {ring : RingBuffer Byte} (fits : ring.Fits TTY_BUF_SIZE)
    (chars : List Byte) :
    (ttyFill ring chars).1.count = ring.count + (ttyFill ring chars).2.1.length := by
  obtain ⟨fits', contents, -⟩ := ttyFill_contents fits chars
  have lengths := congrArg List.length contents
  rw [List.length_append, RingBuffer.length_contents, RingBuffer.length_contents] at lengths
  have nonneg := fits.nonneg
  have nonneg' := fits'.nonneg
  omega

/-- With nothing in the buffer and something to write, the fill is not empty. -/
theorem ttyFill_ne_nil {ring : RingBuffer Byte} (empty : ring.count = 0) {chars : List Byte}
    (some : chars ≠ []) : (ttyFill ring chars).2.1 ≠ [] := by
  cases chars with
  | nil => exact absurd rfl some
  | cons c rest =>
      rw [ttyFill, if_pos (by rw [empty]; decide)]
      exact List.cons_ne_nil _ _

/-- The outer loop of `tty_write`: what it adds to the stream are its fills, which with
the rest make up what there was to write. -/
theorem ttyWriteLoop_stream (busy : Nat → Bool) (fuel k : Nat) (rest : List Byte) {out : TtyOut}
    (fits : out.ring.Fits TTY_BUF_SIZE) :
    (ttyWriteLoop busy fuel k rest out).out.ring.Fits TTY_BUF_SIZE ∧
      (ttyWriteLoop busy fuel k rest out).out.stream =
        out.stream ++ (ttyWriteLoop busy fuel k rest out).fills.flatten ∧
      (ttyWriteLoop busy fuel k rest out).fills.flatten ++
        (ttyWriteLoop busy fuel k rest out).rest = rest ∧
      ∀ chars ∈ (ttyWriteLoop busy fuel k rest out).fills, chars.length ≤ TTY_BUF_SIZE := by
  induction fuel generalizing k rest out with
  | zero => exact ⟨fits, (List.append_nil _).symm, rfl, nofun⟩
  | succ fuel ih =>
      rw [ttyWriteLoop]
      split
      · exact ⟨fits, (List.append_nil _).symm, rfl, nofun⟩
      · rename_i goes
        rw [not_or] at goes
        have empty : out.ring.count = 0 := by
          have := fits.nonneg
          omega
        obtain ⟨fits₁, contents, parts⟩ := ttyFill_contents fits rest
        have count := ttyFill_count fits rest
        have some := List.length_pos_iff.2 (ttyFill_ne_nil empty goes.1)
        dsimp only
        -- the first character may be sent at once
        obtain ⟨out₂, sent, fits₂, stream⟩ : ∃ out₂ : TtyOut,
            (if busy k then { out with ring := (ttyFill out.ring rest).1 }
              else TtyOut.send { out with ring := (ttyFill out.ring rest).1 }) = out₂ ∧
            out₂.ring.Fits TTY_BUF_SIZE ∧
            out₂.stream = out.stream ++ (ttyFill out.ring rest).2.1 := by
          have filled : TtyOut.stream { out with ring := (ttyFill out.ring rest).1 } =
              out.stream ++ (ttyFill out.ring rest).2.1 := by
            simp only [TtyOut.stream, contents, List.append_assoc]
          refine ⟨_, rfl, ?_⟩
          split
          · exact ⟨fits₁, filled⟩
          · refine ⟨fits₁.pop (by omega), ?_⟩
            rw [TtyOut.stream_send fits₁ (show 0 < (ttyFill out.ring rest).1.count by omega)]
            exact filled
        rw [sent]
        obtain ⟨fits₃, stream', parts', short⟩ := ih (k + 1) (ttyFill out.ring rest).2.2 fits₂
        refine ⟨fits₃, ?_, ?_, ?_⟩
        · rw [stream', stream, List.flatten_cons, List.append_assoc]
        · rw [List.flatten_cons, List.append_assoc, parts', parts]
        · intro chars member
          rcases List.mem_cons.1 member with rfl | later
          · have bound : (ttyFill out.ring rest).2.1.length ≤ TTY_BUF_SIZE := by
              have := fits₁.count
              omega
            exact bound
          · exact short chars later

/-- The loop ends where the source's does: when all is written, or to wait for an empty
buffer. -/
theorem ttyWriteLoop_ends (busy : Nat → Bool) (fuel k : Nat) (rest : List Byte) {out : TtyOut}
    (fits : out.ring.Fits TTY_BUF_SIZE) (enough : rest.length ≤ fuel) :
    (ttyWriteLoop busy fuel k rest out).rest = [] ∨
      0 < (ttyWriteLoop busy fuel k rest out).out.ring.count := by
  induction fuel generalizing k rest out with
  | zero => exact Or.inl (List.length_eq_zero_iff.1 (Nat.le_zero.1 enough))
  | succ fuel ih =>
      rw [ttyWriteLoop]
      split
      · rename_i finished
        exact finished
      · rename_i goes
        rw [not_or] at goes
        have empty : out.ring.count = 0 := by
          have := fits.nonneg
          omega
        obtain ⟨fits₁, -, parts⟩ := ttyFill_contents fits rest
        have count := ttyFill_count fits rest
        have some := List.length_pos_iff.2 (ttyFill_ne_nil empty goes.1)
        have left : (ttyFill out.ring rest).2.2.length ≤ fuel := by
          have lengths := congrArg List.length parts
          rw [List.length_append] at lengths
          omega
        dsimp only
        apply ih
        · split
          · exact fits₁
          · exact fits₁.pop (by omega)
        · exact left

/-! ## The invariant -/

/-- What a call has put into the buffer. -/
def filledBy (fills : List Fill) (call : Nat) : List Byte :=
  ((fills.filter fun fill => fill.call = call).map Fill.chars).flatten

theorem filledBy_append (fills : List Fill) (parts : List (List Byte)) (call : Nat) :
    filledBy (fills ++ parts.map (Fill.mk call)) call = filledBy fills call ++ parts.flatten := by
  have own : (parts.map (Fill.mk call)).filter (fun fill => fill.call = call) =
      parts.map (Fill.mk call) := by
    apply List.filter_eq_self.2
    intro fill member
    obtain ⟨part, -, rfl⟩ := List.mem_map.1 member
    exact decide_eq_true rfl
  have chars : (parts.map (Fill.mk call)).map Fill.chars = parts := by
    rw [List.map_map]
    exact List.map_id _
  rw [filledBy, List.filter_append, own, List.map_append, List.flatten_append, chars]
  rfl

theorem filledBy_append_other (fills : List Fill) (parts : List (List Byte)) {call other : Nat}
    (apart : other ≠ call) :
    filledBy (fills ++ parts.map (Fill.mk call)) other = filledBy fills other := by
  have none : (parts.map (Fill.mk call)).filter (fun fill => fill.call = other) = [] := by
    apply List.filter_eq_nil_iff.2
    intro fill member
    obtain ⟨part, -, rfl⟩ := List.mem_map.1 member
    simpa using apart.symm
  rw [filledBy, List.filter_append, none, List.append_nil]
  rfl

structure OutputOk (s : State) : Prop where
  fits : s.out.ring.Fits TTY_BUF_SIZE
  sent : s.out.port ++ s.out.ring.contents TTY_BUF_SIZE = (s.fills.map Fill.chars).flatten
  whole : ∀ fill ∈ s.fills, fill.chars.length ≤ TTY_BUF_SIZE
  complete : ∀ call, s.returned call = true → filledBy s.fills call = s.text call

/-- A call that is not over belongs to one thread, and its parts and its rest are its
text; calls to come have put nothing into the buffer. -/
structure OutputInv (s : State) : Prop where
  ok : OutputOk s
  pending : ∀ t call rest awake, s.phase t = .writing call rest awake →
    call < s.calls ∧ s.returned call = false ∧ filledBy s.fills call ++ rest = s.text call
  alone : ∀ t u call rest awake rest' awake', s.phase t = .writing call rest awake →
    s.phase u = .writing call rest' awake' → t = u
  later : ∀ call, s.calls ≤ call → s.returned call = false ∧ filledBy s.fills call = []

/-! ## Steps -/

section Steps

variable {s : State}

theorem stream_fills (inv : OutputInv s) : s.out.stream = (s.fills.map Fill.chars).flatten :=
  inv.ok.sent

/-- A step that only changes which calls sleep. -/
theorem OutputInv.rephase {s' : State} (inv : OutputInv s) (ok : OutputOk s')
    (calls : s'.calls = s.calls) (text : s'.text = s.text) (fills : s'.fills = s.fills)
    (returned : s'.returned = s.returned)
    (phase : ∀ t call rest awake, s'.phase t = .writing call rest awake →
      ∃ before, s.phase t = .writing call rest before) : OutputInv s' where
  ok := ok
  pending := by
    intro t call rest awake writes
    obtain ⟨before, wrote⟩ := phase t call rest awake writes
    rw [calls, returned, fills, text]
    exact inv.pending t call rest before wrote
  alone := by
    intro t u call rest awake rest' awake' first second
    obtain ⟨before, wrote⟩ := phase t call rest awake first
    obtain ⟨before', wrote'⟩ := phase u call rest' awake' second
    exact inv.alone t u call rest before rest' before' wrote wrote'
  later := by
    intro call behind
    rw [calls] at behind
    rw [returned, fills]
    exact inv.later call behind

theorem writeOn_setPhase (s : State) (t call : Nat) (rest : List Byte) (busy : Nat → Bool)
    (phase : Phase) :
    writeOn (setPhase s t phase) t call rest busy = writeOn s t call rest busy := by
  unfold writeOn
  dsimp only [setPhase]
  split
  · simp [Function.update_idem]
  · simp [Function.update_idem]

/-- A thread goes on with its call. -/
theorem writeOn_outputInv (inv : OutputInv s) {t call : Nat} {rest : List Byte} {awake : Bool}
    (writes : s.phase t = .writing call rest awake) (busy : Nat → Bool) :
    OutputInv (writeOn s t call rest busy) := by
  obtain ⟨made, open_, own⟩ := inv.pending t call rest awake writes
  obtain ⟨fits, stream, parts, short⟩ :=
    ttyWriteLoop_stream busy rest.length 0 rest inv.ok.fits
  unfold writeOn
  generalize ttyWriteLoop busy rest.length 0 rest s.out = done at fits stream parts short
  have sent : done.out.port ++ done.out.ring.contents TTY_BUF_SIZE =
      ((s.fills ++ done.fills.map (Fill.mk call)).map Fill.chars).flatten := by
    have chars : (done.fills.map (Fill.mk call)).map Fill.chars = done.fills := by
      rw [List.map_map]
      exact List.map_id _
    rw [List.map_append, List.flatten_append, chars, ← stream_fills inv]
    exact stream
  have whole : ∀ fill ∈ s.fills ++ done.fills.map (Fill.mk call),
      fill.chars.length ≤ TTY_BUF_SIZE := by
    intro fill member
    rcases List.mem_append.1 member with old | new
    · exact inv.ok.whole fill old
    · obtain ⟨chars, among, rfl⟩ := List.mem_map.1 new
      exact short chars among
  have mine : filledBy (s.fills ++ done.fills.map (Fill.mk call)) call ++ done.rest =
      s.text call := by
    rw [filledBy_append, List.append_assoc, parts, own]
  have others : ∀ u, u ≠ t → ∀ other rest' awake', s.phase u = .writing other rest' awake' →
      other ≠ call := by
    rintro u apart other rest' awake' writes' rfl
    exact apart (inv.alone u t _ _ _ _ _ writes' writes)
  have later : ∀ other, s.calls ≤ other →
      filledBy (s.fills ++ done.fills.map (Fill.mk call)) other = [] := by
    intro other behind
    rw [filledBy_append_other _ _ (by omega)]
    exact (inv.later other behind).2
  dsimp only
  split
  · -- the call is over
    rename_i finished
    rw [finished, List.append_nil] at mine
    have keep : ∀ u other rest' awake',
        Function.update s.phase t .idle u = .writing other rest' awake' →
        u ≠ t ∧ s.phase u = .writing other rest' awake' := by
      intro u other rest' awake' writes'
      by_cases self : u = t
      · subst self
        rw [Function.update_self] at writes'
        cases writes'
      · rw [Function.update_of_ne self] at writes'
        exact ⟨self, writes'⟩
    refine ⟨⟨fits, sent, whole, ?_⟩, ?_, ?_, ?_⟩
    · intro other done'
      change Function.update s.returned call true other = true at done'
      change filledBy (s.fills ++ done.fills.map (Fill.mk call)) other = s.text other
      by_cases same : other = call
      · subst same
        exact mine
      · rw [Function.update_of_ne same] at done'
        rw [filledBy_append_other _ _ same]
        exact inv.ok.complete other done'
    · intro u other rest' awake' writes'
      obtain ⟨self, before⟩ := keep u other rest' awake' writes'
      have apart := others u self other rest' awake' before
      obtain ⟨made', open', own'⟩ := inv.pending u other rest' awake' before
      refine ⟨made', ?_, ?_⟩
      · change Function.update s.returned call true other = false
        rw [Function.update_of_ne apart]
        exact open'
      · change filledBy (s.fills ++ done.fills.map (Fill.mk call)) other ++ rest' = s.text other
        rw [filledBy_append_other _ _ apart]
        exact own'
    · intro u v other rest₁ awake₁ rest₂ awake₂ first second
      exact inv.alone u v other rest₁ awake₁ rest₂ awake₂ (keep u _ _ _ first).2
        (keep v _ _ _ second).2
    · intro other behind
      refine ⟨?_, later other behind⟩
      have apart : other ≠ call := by
        rintro rfl
        exact absurd made (Nat.not_lt.2 behind)
      change Function.update s.returned call true other = false
      rw [Function.update_of_ne apart]
      exact (inv.later other behind).1
  · -- the call waits for the buffer to drain
    have keep : ∀ u other rest' awake',
        (Function.update s.phase t (.writing call done.rest false)) u = .writing other rest' awake' →
        (u = t ∧ other = call ∧ rest' = done.rest) ∨
          (u ≠ t ∧ s.phase u = .writing other rest' awake') := by
      intro u other rest' awake' writes'
      by_cases self : u = t
      · subst self
        rw [Function.update_self] at writes'
        cases writes'
        exact Or.inl ⟨rfl, rfl, rfl⟩
      · rw [Function.update_of_ne self] at writes'
        exact Or.inr ⟨self, writes'⟩
    refine ⟨⟨fits, sent, whole, ?_⟩, ?_, ?_, ?_⟩
    · intro other done'
      have apart : other ≠ call := by
        rintro rfl
        exact absurd (open_.symm.trans done') (by decide)
      change filledBy (s.fills ++ done.fills.map (Fill.mk call)) other = s.text other
      rw [filledBy_append_other _ _ apart]
      exact inv.ok.complete other done'
    · intro u other rest' awake' writes'
      rcases keep u other rest' awake' writes' with ⟨rfl, rfl, rfl⟩ | ⟨self, before⟩
      · exact ⟨made, open_, mine⟩
      · have apart := others u self other rest' awake' before
        obtain ⟨made', open', own'⟩ := inv.pending u other rest' awake' before
        refine ⟨made', open', ?_⟩
        change filledBy (s.fills ++ done.fills.map (Fill.mk call)) other ++ rest' = s.text other
        rw [filledBy_append_other _ _ apart]
        exact own'
    · intro u v other rest₁ awake₁ rest₂ awake₂ first second
      rcases keep u _ _ _ first with ⟨rfl, rfl, -⟩ | ⟨self, before⟩
      · rcases keep v _ _ _ second with ⟨rfl, -, -⟩ | ⟨self', before'⟩
        · rfl
        · exact absurd rfl (others v self' _ _ _ before')
      · rcases keep v _ _ _ second with ⟨rfl, rfl, -⟩ | ⟨self', before'⟩
        · exact absurd rfl (others u self _ _ _ before)
        · exact inv.alone u v other rest₁ awake₁ rest₂ awake₂ before before'
    · intro other behind
      exact ⟨(inv.later other behind).1, later other behind⟩

/-- A thread outside the driver begins a call. -/
theorem begin_outputInv (inv : OutputInv s) {t : Nat} (idle : s.phase t = .idle)
    (text : List Byte) :
    OutputInv (setPhase
      { s with calls := s.calls + 1, text := Function.update s.text s.calls text } t
      (.writing s.calls text false)) := by
  have keep : ∀ u other rest' awake',
      (Function.update s.phase t (.writing s.calls text false)) u = .writing other rest' awake' →
      (u = t ∧ other = s.calls ∧ rest' = text) ∨
        (u ≠ t ∧ other < s.calls ∧ s.phase u = .writing other rest' awake') := by
    intro u other rest' awake' writes
    by_cases self : u = t
    · subst self
      rw [Function.update_self] at writes
      cases writes
      exact Or.inl ⟨rfl, rfl, rfl⟩
    · rw [Function.update_of_ne self] at writes
      exact Or.inr ⟨self, (inv.pending u _ _ _ writes).1, writes⟩
  have old : ∀ other, other < s.calls → Function.update s.text s.calls text other = s.text other := by
    intro other before
    exact Function.update_of_ne (Nat.ne_of_lt before) _ _
  refine ⟨⟨inv.ok.fits, inv.ok.sent, inv.ok.whole, ?_⟩, ?_, ?_, ?_⟩
  · intro other finished
    have before : other < s.calls := by
      by_contra behind
      have open_ := (inv.later other (Nat.not_lt.1 behind)).1
      exact absurd (open_.symm.trans finished) (by decide)
    change filledBy s.fills other = Function.update s.text s.calls text other
    rw [old other before]
    exact inv.ok.complete other finished
  · intro u other rest' awake' writes
    change other < s.calls + 1 ∧ s.returned other = false ∧
      filledBy s.fills other ++ rest' = Function.update s.text s.calls text other
    rcases keep u _ _ _ writes with ⟨rfl, rfl, rfl⟩ | ⟨-, before, wrote⟩
    · obtain ⟨open_, none⟩ := inv.later s.calls (Nat.le_refl _)
      rw [none, Function.update_self]
      exact ⟨Nat.lt_succ_self _, open_, rfl⟩
    · obtain ⟨-, open_, own⟩ := inv.pending u _ _ _ wrote
      rw [old other before]
      exact ⟨by omega, open_, own⟩
  · intro u v other rest₁ awake₁ rest₂ awake₂ first second
    rcases keep u _ _ _ first with ⟨rfl, rfl, -⟩ | ⟨-, before, wrote⟩
    · rcases keep v _ _ _ second with ⟨rfl, -, -⟩ | ⟨-, before', -⟩
      · rfl
      · exact absurd before' (Nat.lt_irrefl _)
    · rcases keep v _ _ _ second with ⟨rfl, rfl, -⟩ | ⟨-, -, wrote'⟩
      · exact absurd before (Nat.lt_irrefl _)
      · exact inv.alone u v other rest₁ awake₁ rest₂ awake₂ wrote wrote'
  · intro other behind
    exact inv.later other (by
      have behind : s.calls + 1 ≤ other := behind
      omega)

theorem readOn_outputInv (inv : OutputInv s) {t : Nat} (outside : ∀ call rest awake,
    s.phase t ≠ .writing call rest awake) (len : Int) : OutputInv (readOn s t len) := by
  have keep : ∀ phase : Phase, (∀ call rest awake, phase ≠ .writing call rest awake) →
      ∀ u call rest awake, Function.update s.phase t phase u = .writing call rest awake →
        ∃ before, s.phase u = .writing call rest before := by
    intro phase reads u call rest awake writes
    by_cases self : u = t
    · subst self
      rw [Function.update_self] at writes
      exact absurd writes (reads call rest awake)
    · rw [Function.update_of_ne self] at writes
      exact ⟨awake, writes⟩
  have ok := inv.ok
  unfold readOn
  dsimp only
  split
  · exact inv.rephase ⟨ok.fits, ok.sent, ok.whole, ok.complete⟩ rfl rfl rfl rfl
      (keep _ nofun)
  · exact inv.rephase ⟨ok.fits, ok.sent, ok.whole, ok.complete⟩ rfl rfl rfl rfl
      (keep _ nofun)

theorem transmit_outputInv (inv : OutputInv s) (busy : Nat → Bool) {t : State}
    (taken : step s (.transmit busy) = some t) : OutputInv t := by
  obtain ⟨fits, stream⟩ := ttyTransmit_stream busy s.out.ring.count.toNat 0 inv.ok.fits
  simp only [step, Option.some.injEq] at taken
  generalize ttyTransmit busy s.out.ring.count.toNat 0 s.out = out at fits stream taken
  have ok : OutputOk { s with out := out } :=
    ⟨fits, stream.trans (stream_fills inv), inv.ok.whole, inv.ok.complete⟩
  subst taken
  split
  · refine inv.rephase ⟨ok.fits, ok.sent, ok.whole, ok.complete⟩ rfl rfl rfl rfl ?_
    intro u call rest awake writes
    simp only [wakeWriters] at writes
    split at writes
    · rename_i before wrote
      cases writes
      exact ⟨_, wrote⟩
    · exact ⟨awake, writes⟩
  · exact inv.rephase ok rfl rfl rfl rfl fun u call rest awake writes => ⟨awake, writes⟩

theorem receive_outputInv (inv : OutputInv s) (chars : List Byte) {t : State}
    (taken : step s (.receive chars) = some t) : OutputInv t := by
  cases taken
  have ok := inv.ok
  refine inv.rephase ⟨ok.fits, ok.sent, ok.whole, ok.complete⟩ rfl rfl rfl rfl ?_
  intro u call rest awake writes
  simp only [wakeReaders] at writes
  split at writes
  · cases writes
  · exact ⟨awake, writes⟩

/-- **Step.** -/
theorem outputInv_step {t : State} {a : Act} (inv : OutputInv s) (taken : step s a = some t) :
    OutputInv t := by
  cases a with
  | write u text busy =>
      simp only [step] at taken
      split at taken
      · rename_i idle
        cases taken
        rw [← writeOn_setPhase _ u s.calls text busy (.writing s.calls text false)]
        exact writeOn_outputInv (begin_outputInv inv idle text) (Function.update_self _ _ _) busy
      · cases taken
  | writeAgain u busy =>
      simp only [step] at taken
      split at taken
      · rename_i call rest writes
        cases taken
        exact writeOn_outputInv inv writes busy
      · cases taken
  | read u len =>
      simp only [step] at taken
      split at taken
      · rename_i idle
        cases taken
        exact readOn_outputInv inv (by rw [idle]; nofun) len
      · cases taken
  | readAgain u =>
      simp only [step] at taken
      split at taken
      · rename_i len reads
        cases taken
        exact readOn_outputInv inv (by rw [reads]; nofun) len
      · cases taken
  | transmit busy => exact transmit_outputInv inv busy taken
  | receive chars => exact receive_outputInv inv chars taken

end Steps

theorem outputInv_boot {s : State} (boot : Boot s) : OutputInv s where
  ok :=
    { fits := ⟨by rw [boot.writeHead]; decide, by rw [boot.writeCount],
        by rw [boot.writeCount]; decide⟩
      sent := by
        rw [boot.port, boot.fills, RingBuffer.contents_eq_nil boot.writeCount]
        rfl
      whole := by rw [boot.fills]; nofun
      complete := by
        intro call finished
        rw [boot.returned] at finished
        cases finished }
  pending := by
    intro t call rest awake writes
    rw [boot.phase] at writes
    cases writes
  alone := by
    intro t u call rest awake rest' awake' writes
    rw [boot.phase] at writes
    cases writes
  later := by
    intro call _
    rw [boot.returned, boot.fills]
    exact ⟨rfl, rfl⟩

/-- **The output buffer.**  In every run the count stays in its range; what was sent,
followed by what is buffered, is what the fills put into the buffer, one after the other;
no fill has more than `TTY_BUF_SIZE` characters, each fill is of one call, and the fills of a
call that has returned are its text. -/
theorem ttyOutput {s : State} (reached : system.Reachable s) : OutputOk s :=
  (System.Reachable.invariant (I := OutputInv) (fun _ boot => outputInv_boot boot)
    (fun _ _ _ inv taken => outputInv_step inv taken) reached).ok

/-- Two writers, with a device that becomes idle in between: the second one waits until the
interrupt has sent what the first one left. -/
theorem ttyOutput_two :
    ∃ s, system.exec fresh
        [.write 1 [0x61, 0x62] (fun _ => false), .write 2 [0x63] (fun _ => true),
          .transmit (fun _ => false), .writeAgain 2 (fun _ => false)] = some s ∧
      s.out.port = [0x61, 0x62, 0x63] ∧ OutputOk s := by
  obtain ⟨s, ran, port⟩ : ∃ s, system.exec fresh
      [.write 1 [0x61, 0x62] (fun _ => false), .write 2 [0x63] (fun _ => true),
        .transmit (fun _ => false), .writeAgain 2 (fun _ => false)] = some s ∧
      s.out.port = [0x61, 0x62, 0x63] := ⟨_, rfl, by decide⟩
  exact ⟨s, ran, port, ttyOutput ((System.Reachable.start fresh_boot).exec ran)⟩

end Buenos.Drivers
