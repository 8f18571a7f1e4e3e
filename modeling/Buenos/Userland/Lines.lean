/-
# Userland.Lines -- gets and readline of the userland library

Line input of tests/lib.c from a stream of characters that does not end.  `readline` stays in its
buffer whatever is typed: the index goes back with a backspace and stops before the last byte
(`readline_returned`).  `gets` reads the characters there is room for, and then puts its terminator
one byte too far: behind the buffer, and not behind the characters (`gets_returned`).

`edited` says what the keys amount to, in terms of the line alone.
-/
import Buenos.Lib.Cstring
import Buenos.Theory.Loop

namespace Buenos.Userland

open Buenos.Lib Buenos.Theory

set_option autoImplicit false

/-- A program with its terminal: the characters that are typed, how many have been read, what was
written to standard output, and the memory with the addresses stored to. -/
structure Console where
  input : Nat → Byte
  taken : Nat
  output : List Byte
  mem : Memory
  written : List Nat

namespace Console

/-- The first characters are still to be read. -/
def start (input : Nat → Byte) (mem : Memory) : Console :=
  { input, taken := 0, output := [], mem, written := [] }

/-- `*p = c` -/
def store (t : Console) (p : Address) (c : Byte) : Console :=
  { t with mem := Function.update t.mem p.toNat c, written := t.written ++ [p.toNat] }

def putc (t : Console) (c : Byte) : Console := { t with output := t.output ++ [c] }

/-- `getc_raw`: the character that a read from standard input gives. -/
def getcRaw (t : Console) : Byte × Console := (t.input t.taken, { t with taken := t.taken + 1 })

def getc (t : Console) : Byte × Console := (t.getcRaw.1, t.getcRaw.2.putc t.getcRaw.1)

end Console

/-- A round of the loop of `gets`, which ends with the store behind it. -/
def getsRound (s size : Address) : Address × Console → Option ((Address × Console) ⊕ (Int × Console))
  | (count, t) =>
      some (if count + 1 < size then .inl (count + 1, t.getc.2.store (s + count) t.getc.1)
        else .inr (count.toInt, t.store (s + (count + 1)) 0))

def gets (rounds : Nat) (t : Console) (s size : Address) : Option (Int × Console) :=
  loop (getsRound s size) rounds (0, t)

def isNewline (c : Byte) : Bool := c = 13 ∨ c = 10

/-- A round of the loop of `readline`. -/
def readlineRound (s size : Address) :
    Address × Console → Option ((Address × Console) ⊕ (Int × Console))
  | (count, t) =>
      let (c, t) := t.getcRaw
      some (if isNewline c then .inr (count.toInt, (t.putc 10).store (s + count) 0)
        else if c = 127 then
          if 0 < count then .inl (count - 1, ((t.putc 8).putc 32).putc 8) else .inl (count, t)
        else if count < size - 1 then .inl (count + 1, (t.store (s + count) c).putc c)
        else .inl (count, t))

def readline (rounds : Nat) (t : Console) (s size : Address) : Option (Int × Console) :=
  loop (readlineRound s size) rounds (0, t)

/-! ## What is typed -/

/-- One key: a backspace takes the last character away, and there is room for so many. -/
def edit (room : Nat) (text : List Byte) (c : Byte) : List Byte :=
  if c = 127 then text.dropLast else if text.length < room then text ++ [c] else text

def edited (room : Nat) (keys : List Byte) : List Byte := keys.foldl (edit room) []

/-- The first `n` characters of a stream. -/
def typed (input : Nat → Byte) (n : Nat) : List Byte := (List.range n).map input

/-- The first newline is character `n`. -/
def FirstNewline (input : Nat → Byte) (n : Nat) : Prop :=
  isNewline (input n) = true ∧ ∀ k < n, isNewline (input k) = false

/-- What a call should leave: the line and its terminator, within the buffer, and its length. -/
structure LineInput (t : Console) (s size : Address) (r : Int) (text : List Byte) : Prop where
  inside : ∀ x ∈ t.written, x ∈ span s size.toNat
  count : r = text.length
  room : text.length < size.toNat
  chars : ∀ i, ∀ less : i < text.length, t.mem (cell s i) = text[i]
  terminated : t.mem (cell s text.length) = 0

def GetsStays (input : Nat → Byte) (mem : Memory) (s size : Address) : Prop :=
  ∃ rounds r t n, gets rounds (.start input mem) s size = some (r, t) ∧
    LineInput t s size r (typed input n)

def ReadlineStays (input : Nat → Byte) (mem : Memory) (s size : Address) : Prop :=
  ∃ rounds r t n, readline rounds (.start input mem) s size = some (r, t) ∧ FirstNewline input n ∧
    LineInput t s size r (edited (size.toNat - 1) (typed input n))

/-! ## gets -/

section Gets

variable {input : Nat → Byte} {mem : Memory} {s size : Address}

/-- After `k` characters. -/
def Console.gotten (t : Console) (s : Address) : Nat → Console
  | 0 => t
  | k + 1 => (t.gotten s k).getc.2.store (s + BitVec.ofNat 32 k) (t.gotten s k).getc.1

theorem gotten_taken (k : Nat) :
    ((Console.start input mem).gotten s k).input = input ∧
      ((Console.start input mem).gotten s k).taken = k := by
  induction k with
  | zero => exact ⟨rfl, rfl⟩
  | succ k ih => exact ⟨ih.1, congrArg (· + 1) ih.2⟩

/-- The characters are in the buffer, and nothing else has changed. -/
theorem gotten_mem {k : Nat} (bound : k ≤ 4294967296) :
    (∀ i < k, ((Console.start input mem).gotten s k).mem (cell s i) = input i) ∧
      ∀ x ∉ span s k, ((Console.start input mem).gotten s k).mem x = mem x := by
  induction k with
  | zero => exact ⟨fun i none => absurd none (Nat.not_lt_zero i), fun _ _ => rfl⟩
  | succ k ih =>
      obtain ⟨chars, others⟩ := ih (by omega)
      have stored : ∀ x, ((Console.start input mem).gotten s (k + 1)).mem x =
          if x = cell s k then input k else ((Console.start input mem).gotten s k).mem x := by
        intro x
        obtain ⟨stream, taken⟩ := @gotten_taken input mem s k
        refine (Function.update_apply ..).trans ?_
        rw [Console.getc, Console.getcRaw, stream, taken]
        rfl
      refine ⟨fun i less => ?_, fun x outside => ?_⟩
      · rw [stored]
        by_cases last : i = k
        · rw [last, if_pos rfl]
        · rw [if_neg fun same => last (cell_inj (by omega) (by omega) same)]
          exact chars i (by omega)
      · rw [mem_span_cell] at outside
        rw [stored, if_neg fun same => outside ⟨k, Nat.lt_succ_self k, same⟩]
        refine others x fun inside => ?_
        obtain ⟨i, less, same⟩ := mem_span_cell.1 inside
        exact outside ⟨i, by omega, same⟩

/-- **What `gets` does**: the characters there is room for, and a zero behind the buffer. -/
theorem gets_returned (positive : 0 < size) :
    gets size.toNat (.start input mem) s size =
      some ((size - 1).toInt, ((Console.start input mem).gotten s (size.toNat - 1)).store (s + size) 0) := by
  have low : 0 < size.toNat := positive
  have high := size.isLt
  have rest : ∀ n k, k + n + 1 = size.toNat →
      loop (getsRound s size) (n + 1) (BitVec.ofNat 32 k, (Console.start input mem).gotten s k) =
        some ((size - 1).toInt,
          ((Console.start input mem).gotten s (size.toNat - 1)).store (s + size) 0) := by
    intro n
    induction n with
    | zero =>
        intro k count
        have index : BitVec.ofNat 32 k + 1 = size := by
          rw [next_index, show k + 1 = size.toNat by omega, BitVec.ofNat_toNat, BitVec.setWidth_eq]
        have last : BitVec.ofNat 32 k = size - 1 := by rw [← index, BitVec.add_sub_cancel]
        refine loop_exit _ ?_
        rw [getsRound, index, if_neg (BitVec.lt_irrefl size), last, show k = size.toNat - 1 by omega]
    | succ n ih =>
        intro k count
        have more : BitVec.ofNat 32 k + 1 < size := by
          rw [next_index, BitVec.lt_def, BitVec.toNat_ofNat, Nat.mod_eq_of_lt (by omega)]
          omega
        have next : getsRound s size (BitVec.ofNat 32 k, (Console.start input mem).gotten s k) =
            some (.inl (BitVec.ofNat 32 (k + 1), (Console.start input mem).gotten s (k + 1))) := by
          rw [getsRound, if_pos more, next_index]
          rfl
        rw [loop_next _ next]
        exact ih (k + 1) (by omega)
  obtain ⟨n, length⟩ : ∃ n, size.toNat = n + 1 := ⟨size.toNat - 1, by omega⟩
  have whole := rest n 0 (by omega)
  rw [← length] at whole
  exact whole

theorem behind_buffer (s size : Address) : (s + size).toNat = cell s size.toNat := by
  rw [cell, BitVec.ofNat_toNat, BitVec.setWidth_eq]

/-- The memory after a call: the byte behind the characters is what it was. -/
theorem gets_mem (positive : 0 < size) :
    ∃ t, gets size.toNat (.start input mem) s size = some ((size - 1).toInt, t) ∧
      (∀ i < size.toNat - 1, t.mem (cell s i) = input i) ∧ t.mem (cell s size.toNat) = 0 ∧
      t.mem (cell s (size.toNat - 1)) = mem (cell s (size.toNat - 1)) := by
  have low : 0 < size.toNat := positive
  have high := size.isLt
  obtain ⟨chars, others⟩ := @gotten_mem input mem s (size.toNat - 1) (by omega)
  have apart : ∀ i < size.toNat, cell s i ≠ (s + size).toNat := fun i less same => by
    rw [behind_buffer] at same
    exact absurd (cell_inj (by omega) high same) (by omega)
  refine ⟨_, gets_returned positive, fun i less => ?_, ?_, ?_⟩
  · exact (Function.update_of_ne (apart i (by omega)) _ _).trans (chars i less)
  · rw [← behind_buffer]
    exact Function.update_self ..
  · refine (Function.update_of_ne (apart _ (by omega)) _ _).trans (others _ ?_)
    exact cell_not_mem_span (Nat.le_refl _) (by omega)

/-- No call of `gets` stays in its buffer. -/
theorem gets_leaves (positive : 0 < size) : ¬ GetsStays input mem s size := by
  rintro ⟨rounds, r, t, n, ran, text⟩
  have same := loop_unique (gets_returned positive) ran
  cases same
  have stored := text.inside (s + size).toNat (List.mem_append_right _ (List.mem_singleton_self _))
  rw [behind_buffer] at stored
  exact cell_not_mem_span (Nat.le_refl _) size.isLt stored

end Gets

/-! ## readline -/

section Readline

variable {input : Nat → Byte} {mem : Memory} {s size : Address} {n : Nat} {text : List Byte}
  {t : Console}

/-- After `n` keys the buffer holds the line. -/
structure Holding (input : Nat → Byte) (s size : Address) (n : Nat) (text : List Byte)
    (t : Console) : Prop where
  stream : t.input = input
  taken : t.taken = n
  inside : ∀ x ∈ t.written, x ∈ span s size.toNat
  room : text.length < size.toNat
  chars : ∀ i, ∀ less : i < text.length, t.mem (cell s i) = text[i]

theorem toNat_length (bound : n < 4294967296) : (BitVec.ofNat 32 n).toNat = n := by
  rw [BitVec.toNat_ofNat, Nat.mod_eq_of_lt bound]

/-- A character at the end of the line. -/
theorem Holding.append (holding : Holding input s size n text t) (room : text.length + 1 < size.toNat)
    (c : Byte) {t' : Console} (stream : t'.input = input) (taken : t'.taken = n + 1)
    (written : t'.written = t.written ++ [cell s text.length])
    (stored : ∀ x, t'.mem x = if x = cell s text.length then c else t.mem x) :
    Holding input s size (n + 1) (text ++ [c]) t' where
  stream := stream
  taken := taken
  inside x mem := by
    rw [written, List.mem_append, List.mem_singleton] at mem
    rcases mem with before | rfl
    · exact holding.inside x before
    · exact cell_mem_span (by omega)
  room := by
    rw [List.length_append]
    exact room
  chars i less := by
    rw [List.length_append, List.length_singleton] at less
    have high := size.isLt
    rw [stored]
    by_cases last : i = text.length
    · subst last
      rw [if_pos rfl, List.getElem_concat_length rfl]
    · rw [if_neg fun same => last (cell_inj (by omega) (by omega) same), holding.chars i (by omega),
        List.getElem_append_left]

/-- **One key** other than a newline. -/
theorem readline_key (holding : Holding input s size n text t) (more : isNewline (input n) = false) :
    ∃ t', readlineRound s size (BitVec.ofNat 32 text.length, t) =
        some (.inl (BitVec.ofNat 32 (edit (size.toNat - 1) text (input n)).length, t')) ∧
      Holding input s size (n + 1) (edit (size.toNat - 1) text (input n)) t' := by
  have high := size.isLt
  have room := holding.room
  have length : (BitVec.ofNat 32 text.length).toNat = text.length := toNat_length (by omega)
  have read : t.getcRaw.1 = input n := by rw [Console.getcRaw, holding.stream, holding.taken]
  have taken : t.taken + 1 = n + 1 := by rw [holding.taken]
  rw [readlineRound]
  dsimp only
  rw [read, if_neg (by simp [more]), edit]
  by_cases back : input n = 127
  · rw [if_pos back, if_pos back]
    by_cases some_ : text = []
    · subst some_
      exact ⟨t.getcRaw.2, rfl, holding.stream, taken, holding.inside, room,
        fun i less => absurd less (Nat.not_lt_zero i)⟩
    · have positive := List.length_pos_iff.2 some_
      have shorter : BitVec.ofNat 32 text.length - 1 = BitVec.ofNat 32 text.dropLast.length := by
        obtain ⟨m, count⟩ : ∃ m, text.length = m + 1 := ⟨text.length - 1, by omega⟩
        rw [List.length_dropLast, count, ← next_index, BitVec.add_sub_cancel, Nat.add_sub_cancel]
      rw [if_pos (by rw [BitVec.lt_def, length]; exact positive), shorter]
      refine ⟨_, rfl, holding.stream, taken, holding.inside, ?_, fun i less => ?_⟩
      · rw [List.length_dropLast]
        omega
      · rw [List.getElem_dropLast]
        exact holding.chars i _
  · rw [if_neg back, if_neg back]
    have limit : BitVec.ofNat 32 text.length < size - 1 ↔ text.length < size.toNat - 1 := by
      have one : (size - 1).toNat = size.toNat - 1 :=
        BitVec.toNat_sub_of_le (by rw [BitVec.le_def]; change 1 ≤ size.toNat; omega)
      rw [BitVec.lt_def, length, one]
    by_cases fits : text.length < size.toNat - 1
    · rw [if_pos (limit.2 fits), if_pos fits]
      refine ⟨(t.getcRaw.2.store (s + BitVec.ofNat 32 text.length) (input n)).putc (input n), ?_, ?_⟩
      · rw [List.length_append, List.length_singleton, next_index]
      · exact holding.append (by omega) _ holding.stream taken rfl fun x => Function.update_apply ..
    · rw [if_neg fun less => fits (limit.1 less), if_neg fits]
      exact ⟨t.getcRaw.2, rfl, holding.stream, taken, holding.inside, room, holding.chars⟩

theorem typed_succ (input : Nat → Byte) (n : Nat) : typed input (n + 1) = typed input n ++ [input n] := by
  rw [typed, List.range_succ, List.map_append]
  rfl

/-- **A run of keys**: the buffer holds what they amount to. -/
theorem readline_keys (positive : 0 < size) (more : ∀ k < n, isNewline (input k) = false) :
    ∃ t, Holding input s size n (edited (size.toNat - 1) (typed input n)) t ∧
      ∀ rounds, loop (readlineRound s size) (rounds + n) (0, .start input mem) =
        loop (readlineRound s size) rounds
          (BitVec.ofNat 32 (edited (size.toNat - 1) (typed input n)).length, t) := by
  induction n with
  | zero =>
      refine ⟨.start input mem, ⟨rfl, rfl, fun x none => absurd none List.not_mem_nil, positive,
        fun i none => absurd none (Nat.not_lt_zero i)⟩, fun rounds => rfl⟩
  | succ n ih =>
      obtain ⟨t, holding, ran⟩ := ih fun k less => more k (by omega)
      obtain ⟨t', next, held⟩ := readline_key holding (more n (Nat.lt_succ_self n))
      have step : edited (size.toNat - 1) (typed input (n + 1)) =
          edit (size.toNat - 1) (edited (size.toNat - 1) (typed input n)) (input n) := by
        rw [typed_succ, edited, List.foldl_append]
        rfl
      rw [step]
      refine ⟨t', held, fun rounds => ?_⟩
      rw [show rounds + (n + 1) = (rounds + 1) + n by omega, ran, loop_next _ next]

/-- **What `readline` does**: the buffer holds the line that was typed, and its terminator. -/
theorem readline_returned (positive : 0 < size) (first : FirstNewline input n) :
    ∃ rounds t, readline rounds (.start input mem) s size =
        some ((BitVec.ofNat 32 (edited (size.toNat - 1) (typed input n)).length).toInt, t) ∧
      LineInput t s size (edited (size.toNat - 1) (typed input n)).length
        (edited (size.toNat - 1) (typed input n)) := by
  obtain ⟨t, holding, ran⟩ := @readline_keys input mem s size n positive first.2
  have high := size.isLt
  have room := holding.room
  have read : t.getcRaw.1 = input n := by rw [Console.getcRaw, holding.stream, holding.taken]
  refine ⟨1 + n, (t.getcRaw.2.putc 10).store
    (s + BitVec.ofNat 32 (edited (size.toNat - 1) (typed input n)).length) 0, ?_, ?_⟩
  · rw [readline, ran]
    refine loop_exit _ ?_
    rw [readlineRound]
    dsimp only
    rw [read, if_pos first.1]
  · refine ⟨fun x mem => ?_, rfl, room, fun i less => ?_, Function.update_self ..⟩
    · rcases List.mem_append.1 mem with before | here
      · exact holding.inside x before
      · rw [List.mem_singleton.1 here]
        exact cell_mem_span room
    · refine (Function.update_of_ne (fun same => ?_) _ _).trans (holding.chars i less)
      have := cell_inj (p := s) (by omega) (by omega) same
      omega

/-- The count that is returned is the length of the line, if an `int` holds it. -/
theorem readline_stays_iff (positive : 0 < size) :
    ReadlineStays input mem s size ↔
      ∃ n, FirstNewline input n ∧ (edited (size.toNat - 1) (typed input n)).length < 0x80000000 := by
  have high := size.isLt
  have count : ∀ k < 4294967296, (BitVec.ofNat 32 k).toInt = (k : Int) ↔ k < 0x80000000 := by
    intro k less
    rw [BitVec.toInt_eq_toNat_cond, toNat_length less]
    split <;> omega
  constructor
  · rintro ⟨rounds, r, t, n, ran, first, text⟩
    obtain ⟨rounds', t', ran', -⟩ := @readline_returned input mem s size n positive first
    have same := loop_unique ran' ran
    cases same
    have room := text.room
    exact ⟨n, first, (count _ (by omega)).1 text.count⟩
  · rintro ⟨n, first, short⟩
    obtain ⟨rounds, t, ran, text⟩ := @readline_returned input mem s size n positive first
    rw [(count _ (by omega)).2 short] at ran
    exact ⟨rounds, _, t, n, ran, first, text⟩

end Readline

/-- **Line input** never stays in its buffer with `gets`, and always does with `readline`, once a
newline has come and if the length of the line is an `int`. -/
theorem lines_stay_iff (input : Nat → Byte) (mem : Memory) (s : Address) {size : Address}
    (positive : 0 < size) :
    ¬ GetsStays input mem s size ∧
      (ReadlineStays input mem s size ↔
        ∃ n, FirstNewline input n ∧
          (edited (size.toNat - 1) (typed input n)).length < 0x80000000) :=
  ⟨gets_leaves positive, readline_stays_iff positive⟩

/-- `a`, a backspace, `b`, and newlines. -/
def keys : Nat → Byte
  | 0 => 0x61
  | 1 => 127
  | 2 => 0x62
  | _ => 10

/-- A buffer of one byte: the terminator goes to the byte behind it. -/
theorem gets_overflows : ¬ GetsStays keys (fun _ => 0) 100 1 := by
  rintro ⟨rounds, r, t, n, ran, text⟩
  have known : gets 1 (.start keys fun _ => 0) 100 1 =
      some (0, (Console.start keys fun _ => 0).store 101 0) := rfl
  have same := loop_unique known ran
  cases same
  have stored := text.inside 101 (List.mem_append_right _ (List.mem_singleton_self _))
  revert stored
  decide

theorem readline_keys_stay : ¬ GetsStays keys (fun _ => 0) 100 2 ∧
    ReadlineStays keys (fun _ => 0) 100 2 := by
  have lines := @lines_stay_iff keys (fun _ => 0) 100 2 (by decide)
  exact ⟨lines.1, lines.2.2 ⟨3, ⟨rfl, by decide⟩, by decide⟩⟩

end Buenos.Userland
