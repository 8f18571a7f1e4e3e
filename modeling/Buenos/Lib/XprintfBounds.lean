/-
# Lib.XprintfBounds -- formatted output stays in its buffer

`text` is what a piece stands for, without regard to the buffer, and `wholeText` the output that a
format asks for.  As long as no conversion puts two signs in front of a number with one character
left, a piece prints what of its text there is room for (`printed_eq`), so the buffer holds the
whole output, or as much of it as fits (`emit_fits`).

A negative number printed with the `+` or the space flag has two signs, and both are stored before
the room is looked at: this is the one way out of the buffer (`Fits`).
-/
import Buenos.Lib.XprintfRuns

namespace Buenos.Lib

open Buenos.Theory

set_option autoImplicit false

/-! ## The output a format asks for -/

/-- The text of a piece that starts after `start` characters.  A precision is read as the source
reads it, by adding it to `start`. -/
def Piece.text (args : Arguments) (start ap : Nat) : Piece → List Byte
  | .plain c => [c.val]
  | .stuck => []
  | .conversion mods ch =>
      let arg := args.word ap
      match form mods ch with
      | .signed => signs mods arg ++ number mods arg .signed
      | .unsigned base => number mods arg (.unsigned base)
      | .hex alt smalls =>
          (if alt then [ascii '0', ascii 'x'] else []) ++ number mods arg (.hex alt smalls)
      | .char => [arg.setWidth 8]
      | .string =>
          if mods.prec = -1 then (args.string arg).bytes
          else (args.string arg).bytes.take
            ((BitVec.ofNat 32 start + mods.prec).toInt - start).toNat
      | .other => [ch.val]

def wholeText (args : Arguments) : List Piece → List Byte → Nat → List Byte
  | [], printed, _ => printed
  | piece :: rest, printed, ap =>
      wholeText args rest (printed ++ piece.text args printed.length ap) (ap + piece.arguments)

/-- A negative number printed with a sign flag. -/
def Piece.TwoSigns (args : Arguments) (ap : Nat) : Piece → Prop
  | .conversion mods ch =>
      form mods ch = .signed ∧ (args.word ap).toInt < 0 ∧ (mods.sign = true ∨ mods.space = true)
  | _ => False

/-- Of the pieces that start before the buffer is full, none is stuck and none has two signs for
the last character. -/
def Fits (args : Arguments) (size : Nat) : List Piece → Nat → Nat → Prop
  | [], _, _ => True
  | piece :: rest, start, ap =>
      start < size →
        piece ≠ .stuck ∧ ¬(piece.TwoSigns args ap ∧ start + 1 = size) ∧
          Fits args size rest (start + (piece.text args start ap).length) (ap + piece.arguments)

/-- What a call should leave behind: no store outside the buffer, the whole output with its
terminator, or as much of it as there is room for. -/
def Bounded (size : Word) (whole : List Byte) (result : Word) (out : Output) : Prop :=
  (∀ store ∈ out.stores, store.1 < size.toNat) ∧
    if whole.length < size.toNat then
      result = BitVec.ofNat 32 whole.length ∧
        ∀ before, (List.range (whole.length + 1)).map (out.memory before) = whole ++ [0]
    else
      result = -1 ∧
        ∀ before, (List.range size.toNat).map (out.memory before) =
          whole.take (size.toNat - 1) ++ [0]

/-! ## A piece prints what there is room for -/

section Printed

variable {args : Arguments} {size : Word}

theorem toInt_ofNat {k : Nat} (small : k < 0x80000000) : (BitVec.ofNat 32 k).toInt = k := by
  have value : (BitVec.ofNat 32 k).toNat = k := by
    rw [BitVec.toNat_ofNat]
    omega
  rw [BitVec.toInt_eq_toNat_cond, value, if_pos (by omega)]

theorem size_toInt (positive : 0 < size.toInt) : size.toInt = size.toNat ∧ size.toNat < 0x80000000 := by
  have bound := size.isLt
  rw [BitVec.toInt_eq_toNat_cond] at positive ⊢
  split at positive <;> omega

theorem room_iff (positive : 0 < size.toInt) {k : Nat} (small : k < 0x80000000) :
    (BitVec.ofNat 32 k).toInt < size.toInt ↔ k < size.toNat := by
  rw [toInt_ofNat small, (size_toInt positive).1]
  omega

theorem left_eq (positive : 0 < size.toInt) {k : Nat} (inside : k ≤ size.toNat) :
    left size (BitVec.ofNat 32 k) = size.toNat - k := by
  have whole := size_toInt positive
  rw [left, BitVec.toInt_sub, whole.1, toInt_ofNat (by omega), Int.bmod_eq_of_le (by omega) (by omega)]
  omega

theorem numberPrinted_eq (positive : 0 < size.toInt) {start : Nat} {mods : Modifiers} {arg : Word}
    {kind : Form}
    (fits : start + (lead size (BitVec.ofNat 32 start) mods arg kind).length ≤ size.toNat) :
    numberPrinted size (BitVec.ofNat 32 start) mods arg kind =
      (lead size (BitVec.ofNat 32 start) mods arg kind ++ number mods arg kind).take
        (size.toNat - start) := by
  have all : (lead size (BitVec.ofNat 32 start) mods arg kind).take (size.toNat - start) =
      lead size (BitVec.ofNat 32 start) mods arg kind := List.take_of_length_le (by omega)
  rw [numberPrinted, ← BitVec.ofNat_add, left_eq positive fits, List.take_append, all,
    Nat.sub_add_eq]

theorem signs_length (mods : Modifiers) (arg : Word) :
    (signs mods arg).length ≤ 2 ∧
      ((signs mods arg).length = 2 → arg.toInt < 0 ∧ (mods.sign = true ∨ mods.space = true)) := by
  unfold signs
  split_ifs <;> simp_all

/-- The alternate form has room for its `0`, and for its `x` if there is room for two. -/
theorem lead_alt (positive : 0 < size.toInt) {start : Nat} (room : start < size.toNat)
    (mods : Modifiers) (arg : Word) (smalls : Bool) :
    lead size (BitVec.ofNat 32 start) mods arg (.hex true smalls) =
      [ascii '0', ascii 'x'].take (size.toNat - start) := by
  have whole := size_toInt positive
  have next : BitVec.ofNat 32 start + 1 = BitVec.ofNat 32 (start + 1) := by
    rw [BitVec.ofNat_add]
    rfl
  rw [lead, next]
  simp only [if_true, room_iff positive (k := start + 1) (by omega)]
  by_cases two : start + 1 < size.toNat
  · rw [if_pos two, List.take_of_length_le (by simp; omega)]
  · rw [if_neg two, show size.toNat - start = 1 by omega]
    rfl

theorem take_take_append (n : Nat) (l m : List Byte) : (l.take n ++ m).take n = (l ++ m).take n := by
  rw [List.take_append, List.take_append, List.take_take, min_self, List.length_take]
  congr 2
  omega

/-- A precision that is too small for the buffer is kept, any other leaves the room there is. -/
theorem string_printed (positive : 0 < size.toInt) {start : Nat} (room : start < size.toNat)
    (mods : Modifiers) (bytes : List Byte) :
    bytes.take (stringLimit size (BitVec.ofNat 32 start) mods) =
      (if mods.prec = -1 then bytes
        else bytes.take ((BitVec.ofNat 32 start + mods.prec).toInt - start).toNat).take
          (size.toNat - start) := by
  have whole := size_toInt positive
  have here : (BitVec.ofNat 32 start).toInt = start := toInt_ofNat (by omega)
  rw [stringLimit]
  by_cases unlimited : mods.prec = -1
  · simp only [unlimited, ne_eq, not_true_eq_false, false_and, if_false, if_true, here, whole.1]
    congr 1
    omega
  · by_cases cut : (BitVec.ofNat 32 start + mods.prec).toInt < size.toInt
    · simp only [unlimited, ne_eq, not_false_eq_true, cut, true_and, if_true, if_false, here,
        List.take_take]
      congr 1
      omega
    · simp only [unlimited, ne_eq, not_false_eq_true, cut, and_false, if_false, here,
        List.take_take]
      congr 1
      omega

theorem printed_eq (positive : 0 < size.toInt) {start ap : Nat} (room : start < size.toNat)
    {piece : Piece} (single : ¬(piece.TwoSigns args ap ∧ start + 1 = size.toNat)) :
    piece.printed args size (BitVec.ofNat 32 start) ap =
      (piece.text args start ap).take (size.toNat - start) := by
  have whole := size_toInt positive
  have one (c : Byte) : [c] = [c].take (size.toNat - start) :=
    (List.take_of_length_le (by simp; omega)).symm
  cases piece with
  | plain c => exact one _
  | stuck => simp [Piece.printed, Piece.text]
  | conversion mods ch =>
      rw [Piece.printed, Piece.text]
      rw [Piece.TwoSigns] at single
      cases is : form mods ch with
      | char => exact one _
      | other => exact one _
      | signed =>
          have count := signs_length mods (args.word ap)
          apply numberPrinted_eq positive
          simp only [lead]
          by_contra beyond
          exact single ⟨⟨is, count.2 (by omega)⟩, by omega⟩
      | unsigned base => exact numberPrinted_eq positive (by simp [lead]; omega)
      | hex alt smalls =>
          cases alt with
          | false => exact numberPrinted_eq positive (by simp [lead]; omega)
          | true =>
              have before := lead_alt positive room mods (args.word ap) smalls
              have fits : start + (lead size (BitVec.ofNat 32 start) mods (args.word ap)
                  (.hex true smalls)).length ≤ size.toNat := by
                rw [before, List.length_take]
                omega
              exact (numberPrinted_eq positive fits).trans (by rw [before, take_take_append]; rfl)
      | string => exact string_printed positive room mods _

/-! ## The whole run -/

theorem wholeText_extends (ps : List Piece) (printed : List Byte) (ap : Nat) :
    printed <+: wholeText args ps printed ap := by
  induction ps generalizing printed ap with
  | nil => exact List.prefix_rfl
  | cons piece ps ih => exact (List.prefix_append _ _).trans (ih _ _)

/-- **The run of a format that fits** prints the whole output, or as much as there is room for. -/
theorem emit_fits (positive : 0 < size.toInt) (ps : List Piece) (whole : List Byte) (ap : Nat)
    (fits : Fits args size.toNat ps whole.length ap) :
    ∃ ap', emit args size ps (.after (whole.take size.toNat) ap) =
      some (.after ((wholeText args ps whole ap).take size.toNat) ap') := by
  have small := (size_toInt positive).2
  induction ps generalizing whole ap with
  | nil => exact ⟨ap, rfl⟩
  | cons piece ps ih =>
      by_cases room : whole.length < size.toNat
      · obtain ⟨readable, single, rest⟩ := fits room
        have all : whole.take size.toNat = whole := List.take_of_length_le (by omega)
        have unfull : (BitVec.ofNat 32 whole.length).toInt < size.toInt :=
          (room_iff positive (by omega)).2 room
        rw [← List.length_append] at rest
        obtain ⟨ap', ran⟩ := ih _ _ rest
        refine ⟨ap', ?_⟩
        rw [all, emit_cons unfull readable, printed_eq positive room single, wholeText, ← ran,
          List.take_append, all]
      · obtain ⟨more, same⟩ := @wholeText_extends args (piece :: ps) whole ap
        have length : (whole.take size.toNat).length = size.toNat := by
          rw [List.length_take]
          omega
        have full : ¬ (BitVec.ofNat 32 (whole.take size.toNat).length).toInt < size.toInt := by
          rw [length, room_iff positive small]
          exact lt_irrefl _
        refine ⟨ap, (emit_full (.after _ ap) full _).trans ?_⟩
        rw [← same, List.take_append_of_le_length (by omega)]

/-- What has been printed stays. -/
theorem emit_prefix (ps : List Piece) (chars : List Byte) (ap : Nat) {out : Output}
    (ran : emit args size ps (.after chars ap) = some out) :
    ∃ more ap', out = .after (chars ++ more) ap' := by
  induction ps generalizing chars ap with
  | nil => exact ⟨[], ap, by rw [List.append_nil]; exact (Option.some.inj ran).symm⟩
  | cons piece ps ih =>
      by_cases room : (BitVec.ofNat 32 chars.length).toInt < size.toInt
      · by_cases readable : piece = .stuck
        · subst readable
          simp [emit, room] at ran
        · rw [emit_cons room readable] at ran
          obtain ⟨more, ap', same⟩ := ih _ _ ran
          exact ⟨piece.printed args size (BitVec.ofNat 32 chars.length) ap ++ more, ap',
            by rw [same, List.append_assoc]⟩
      · rw [emit_full (.after chars ap) room] at ran
        exact ⟨[], ap, by rw [List.append_nil]; exact (Option.some.inj ran).symm⟩

/-- Both signs are printed, whatever room there is. -/
theorem twoSigns_printed {piece : Piece} {ap : Nat} (double : piece.TwoSigns args ap)
    {written : Word} : 2 ≤ (piece.printed args size written ap).length := by
  cases piece with
  | plain c => exact double.elim
  | stuck => exact double.elim
  | conversion mods ch =>
      obtain ⟨is, negative, sign⟩ := double
      have two : (signs mods (args.word ap)).length = 2 := by
        unfold signs
        rcases sign with plus | blank
        · simp [negative, plus]
        · by_cases plus : mods.sign = true <;> simp [negative, plus, blank]
      rw [Piece.printed, is]
      simp only [numberPrinted, lead, List.length_append, two]
      omega

/-- A format that does not fit is not consumed, or its run leaves the buffer. -/
theorem emit_unfit (positive : 0 < size.toInt) (ps : List Piece) (whole : List Byte) (ap : Nat)
    (unfit : ¬ Fits args size.toNat ps whole.length ap) {out : Output}
    (ran : emit args size ps (.after (whole.take size.toNat) ap) = some out) :
    ∃ chars ap', out = .after chars ap' ∧ size.toNat < chars.length := by
  induction ps generalizing whole ap with
  | nil => exact absurd trivial unfit
  | cons piece ps ih =>
      rw [Fits, Classical.not_imp] at unfit
      obtain ⟨room, unfit⟩ := unfit
      have small := (size_toInt positive).2
      have all : whole.take size.toNat = whole := List.take_of_length_le (by omega)
      have unfull : (BitVec.ofNat 32 whole.length).toInt < size.toInt :=
        (room_iff positive (by omega)).2 room
      have readable : piece ≠ .stuck := by
        rintro rfl
        simp [emit, all, unfull] at ran
      rw [all, emit_cons unfull readable] at ran
      by_cases double : piece.TwoSigns args ap ∧ whole.length + 1 = size.toNat
      · obtain ⟨more, ap', same⟩ := emit_prefix _ _ _ ran
        have two : 2 ≤ (piece.printed args size (BitVec.ofNat 32 whole.length) ap).length :=
          twoSigns_printed double.1
        exact ⟨_, ap', same, by simp only [List.length_append]; omega⟩
      · rw [printed_eq positive room double] at ran
        refine ih (whole ++ piece.text args whole.length ap) (ap + piece.arguments) (fun rest => ?_) ?_
        · rw [List.length_append] at rest
          exact unfit ⟨readable, double, rest⟩
        · rw [List.take_append, all]
          exact ran

/-! ## The terminator -/

theorem storesOf_append (chars : List Byte) (c : Byte) :
    storesOf (chars ++ [c]) = (chars.length, c) :: storesOf chars := by
  simp [storesOf, List.zipIdx_append]

theorem mem_storesOf {chars : List Byte} {store : Nat × Byte} (inside : store ∈ storesOf chars) :
    store.1 < chars.length := by
  simp only [storesOf, List.mem_reverse, List.mem_map] at inside
  obtain ⟨⟨c, i⟩, inside, rfl⟩ := inside
  simpa using (List.mem_zipIdx inside).2.1

theorem storesOf_mem {chars : List Byte} {i : Nat} (inside : i < chars.length) :
    ∃ c, (i, c) ∈ storesOf chars := by
  refine ⟨chars[i], ?_⟩
  simp only [storesOf, List.mem_reverse, List.mem_map]
  exact ⟨(chars[i], i), List.mk_mem_zipIdx_iff_getElem?.2 (List.getElem?_eq_getElem inside), rfl⟩

theorem memory_after (chars : List Byte) (ap : Nat) (before : Nat → Byte) (i : Nat) :
    (Output.after chars ap).memory before i = chars.getD i (before i) := by
  induction chars using List.reverseRecOn with
  | nil => rfl
  | append_singleton chars c ih =>
      have stored : (Output.after (chars ++ [c]) ap).memory before i =
          if i = chars.length then c else (Output.after chars ap).memory before i := by
        simp [Output.memory, Output.after, storesOf_append]
      rw [stored, ih]
      by_cases last : i = chars.length
      · simp [last]
      · by_cases inside : i < chars.length
        · simp [last, List.getElem?_append_left inside]
        · have outside : (chars ++ [c]).length ≤ i := by
            rw [List.length_append, List.length_singleton]
            omega
          rw [if_neg last, List.getD_eq_getElem?_getD, List.getD_eq_getElem?_getD,
            List.getElem?_eq_none (by omega), List.getElem?_eq_none outside]

/-- The buffer after the terminator has been put behind its first `k` characters. -/
theorem memory_terminated {chars : List Byte} {k : Nat} (ap : Nat) (written : Word)
    (le : k ≤ chars.length) (before : Nat → Byte) :
    (List.range (k + 1)).map
        ((printc 0 { Output.after chars ap with buf := k, written := written }).memory before) =
      chars.take k ++ [0] := by
  have stored (i : Nat) :
      (printc 0 { Output.after chars ap with buf := k, written := written }).memory before i =
        if i = k then 0 else chars.getD i (before i) := by
    rw [← memory_after chars ap before i]
    rfl
  generalize (printc 0 { Output.after chars ap with buf := k, written := written }).memory before =
    memory at stored ⊢
  rw [List.range_succ, List.map_append]
  congr 1
  · apply List.ext_getElem
    · simp [le]
    · intro i low high
      simp only [List.length_map, List.length_range] at low
      have inside : i < chars.length := by omega
      simp [stored, show i ≠ k by omega, inside]
  · simp [stored]

theorem terminate_bounded (positive : 0 < size.toInt) (whole : List Byte) (ap : Nat) :
    Bounded size whole (terminate size (.after (whole.take size.toNat) ap)).1
      (terminate size (.after (whole.take size.toNat) ap)).2 := by
  have small := (size_toInt positive).2
  by_cases fits : whole.length < size.toNat
  · have all : whole.take size.toNat = whole := List.take_of_length_le (by omega)
    have partly : BitVec.ofNat 32 whole.length ≠ size := by
      intro same
      have := (room_iff positive (k := whole.length) (by omega)).2 fits
      rw [same] at this
      exact lt_irrefl _ this
    have ended : terminate size (.after whole ap) =
        (BitVec.ofNat 32 whole.length, printc 0 (.after whole ap)) := by
      rw [terminate, Output.after_written, if_neg partly]
      rfl
    rw [all, ended, Bounded, if_pos fits]
    refine ⟨fun store stored => ?_, rfl, fun before => ?_⟩
    · rcases List.mem_cons.1 stored with rfl | earlier
      · exact fits
      · exact (mem_storesOf earlier).trans fits
    · have memory := memory_terminated ap (BitVec.ofNat 32 whole.length)
        (le_refl whole.length) before
      rwa [List.take_length] at memory
  · have length : (whole.take size.toNat).length = size.toNat := by
      rw [List.length_take]
      omega
    have full : BitVec.ofNat 32 size.toNat = size := by simp
    have nonzero : 0 < size.toNat := by
      have := (size_toInt positive).1
      omega
    have ended : terminate size (.after (whole.take size.toNat) ap) =
        (-1, printc 0 { Output.after (whole.take size.toNat) ap with
          buf := size.toNat - 1, written := -1 }) := by
      rw [terminate, Output.after_written, length, full, if_pos rfl]
      simp only [Output.after, length]
    rw [ended, Bounded, if_neg fits]
    refine ⟨fun store stored => ?_, rfl, fun before => ?_⟩
    · rcases List.mem_cons.1 stored with rfl | earlier
      · exact Nat.sub_lt nonzero Nat.one_pos
      · exact (mem_storesOf earlier).trans_le (le_of_eq length)
    · have memory := memory_terminated ap (-1)
        (show size.toNat - 1 ≤ (whole.take size.toNat).length by omega) before
      rw [Nat.sub_add_cancel nonzero, List.take_take, min_eq_left (Nat.sub_le _ _)] at memory
      exact memory

/-- A call whose format fits ends, and whatever it returns is bounded. -/
theorem vxnprintf_fits (positive : 0 < size.toInt) {fmt : Name}
    (fits : Fits args size.toNat (pieces fmt) 0 0) :
    (∃ rounds r, vxnprintf rounds args size fmt = some r) ∧
      ∀ rounds r, vxnprintf rounds args size fmt = some r →
        Bounded size (wholeText args (pieces fmt) [] 0) r.1 r.2 := by
  obtain ⟨ap, ran⟩ := emit_fits positive (pieces fmt) [] 0 fits
  rw [List.take_nil] at ran
  refine ⟨⟨fmt.length + 1, _, vxnprintf_read positive ran (Nat.lt_succ_self _)⟩, ?_⟩
  intro rounds r ended
  obtain ⟨out, same, rfl⟩ := vxnprintf_returned positive ended
  rw [ran] at same
  cases same
  exact terminate_bounded positive _ ap

end Printed

/-- **Where output stays in its buffer.**  A call ends, with all stores inside the buffer, the
output or as much of it as fits terminated there, and the length or -1 returned, exactly when of
the conversions that start before the buffer is full none reads a `'9'` as a modifier, and none
prints a negative number with a sign flag into the last byte. -/
theorem vxnprintf_bounded_exact (args : Arguments) (size : Word) (fmt : Name)
    (positive : 0 < size.toInt) :
    (∃ rounds r, vxnprintf rounds args size fmt = some r ∧
        Bounded size (wholeText args (pieces fmt) [] 0) r.1 r.2) ↔
      Fits args size.toNat (pieces fmt) 0 0 := by
  constructor
  · rintro ⟨rounds, r, ended, inside, -⟩
    by_contra unfit
    obtain ⟨out, ran, rfl⟩ := vxnprintf_returned positive ended
    obtain ⟨chars, ap, rfl, long⟩ := emit_unfit positive (pieces fmt) [] 0 unfit
      (by rw [List.take_nil]; exact ran)
    obtain ⟨c, stored⟩ := storesOf_mem long
    have kept : (size.toNat, c) ∈ (terminate size (.after chars ap)).2.stores := by
      rw [terminate]
      split
      · exact List.mem_cons_of_mem _ stored
      · exact List.mem_cons_of_mem _ stored
    exact absurd (inside _ kept) (lt_irrefl _)
  · intro fits
    obtain ⟨⟨rounds, r, ended⟩, bounded⟩ := vxnprintf_fits positive fits
    exact ⟨rounds, r, ended, bounded rounds r ended⟩

def plusSign : CChar := ⟨ascii '+', by decide⟩

/-- `snprintf(buf, 1, "%+d", -1)` stores both signs and then the terminator behind them, and returns
2. -/
theorem negative_plus_overruns :
    ∃ out, vxnprintf 4 (oneArgument (-1)) 1 [percent, plusSign, letterD] = some (2, out) ∧
      out.stores = [(2, 0), (1, ascii '+'), (0, ascii '-')] ∧
      ¬ ∀ store ∈ out.stores, store.1 < (1 : Word).toNat :=
  ⟨{ buf := 3, stores := [(2, 0), (1, ascii '+'), (0, ascii '-')], written := 2, ap := 1 },
    by decide +kernel, rfl, by decide⟩

theorem pieces_plus : pieces [percent, plusSign, letterD] = [.conversion { sign := true } letterD] := by
  have parsed : parseModifiers {} plusSign [letterD] = some ({ sign := true }, some letterD, []) := by
    have last : parseModifiers { sign := true } letterD [] =
        some ({ sign := true }, some letterD, []) := by
      rw [parseModifiers, dif_neg (by decide)]
      rfl
    rw [parseModifiers, dif_neg (by decide), ← last]
    rfl
  rw [pieces_conversion rfl parsed, pieces]

/-- With three bytes of room the same call is bounded. -/
theorem vxnprintf_bounded_exact_plus :
    ∃ rounds r, vxnprintf rounds (oneArgument (-1)) 4 [percent, plusSign, letterD] = some r ∧
      Bounded 4 (wholeText (oneArgument (-1)) (pieces [percent, plusSign, letterD]) [] 0) r.1 r.2 := by
  refine (vxnprintf_bounded_exact (oneArgument (-1)) 4 _ (by decide)).2 ?_
  rw [pieces_plus]
  exact fun _ => ⟨by decide, fun double => absurd double.2 (by decide), trivial⟩

end Buenos.Lib
