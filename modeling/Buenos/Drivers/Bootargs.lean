/-
# Drivers.Bootargs -- kernel boot arguments

drivers/bootargs.c.  `bootargs_init` cuts its copy of the boot string in place and stores pointers
into it; a pointer is the offset in `value_area`, and the value `""` of a key without one is no
offset.  `table` goes on past `bootargs_values`, and `stored` records the entries that a key was
stored in, latest first.

The string is read as its segments between spaces.  Each of them gives one entry
(`leads_segments`), so the table is left exactly when there are too many spaces, and looking a
key up is looking for the first segment with that key (`bootargs_exact`).
-/
import Buenos.Lib.Libc
import Mathlib.Logic.Function.Basic
import Mathlib.Tactic.Common

namespace Buenos.Drivers

open Buenos.Lib

set_option autoImplicit false

def CONFIG_BOOTARGS_MAX : Nat := 32

def space : CChar := ⟨0x20#8, by decide⟩
def equals : CChar := ⟨0x3d#8, by decide⟩

structure Bootarg where
  key : Option Nat := none
  value : Option Nat := none

structure Bootargs where
  /-- The length of the boot string. -/
  l : Nat
  area : Nat → Byte
  o : Nat
  last : Nat
  i : Nat
  table : Nat → Bootarg
  stored : List Nat

/-- The terminator put at `o`, and `o` moved on. -/
def Bootargs.cut (s : Bootargs) : Bootargs :=
  { s with area := Function.update s.area s.o 0, o := s.o + 1 }

/-- The key that ends at `o`, stored with the empty value. -/
def Bootargs.storeKey (s : Bootargs) : Bootargs :=
  { s with
    table := Function.update s.table s.i { key := some s.last }
    stored := s.i :: s.stored
    last := s.o + 1 }

/-- The value that ends at `o`, stored. -/
def Bootargs.storeValue (s : Bootargs) : Bootargs :=
  { s with
    table := Function.update s.table s.i { s.table s.i with value := some s.last }
    last := s.o + 1 }

/-- The inner loop.  Each round moves `o` on, so `l + 1` rounds are enough. -/
def valueLoop : Nat → Bootargs → Bootargs
  | 0, s => s
  | rounds + 1, s =>
      if s.o ≤ s.l then
        if s.area s.o = space.val ∨ s.area s.o = 0 then s.storeValue.cut
        else valueLoop rounds { s with o := s.o + 1 }
      else s

/-- The outer loop. -/
def keyLoop : Nat → Bootargs → Bootargs
  | 0, s => s
  | rounds + 1, s =>
      if s.o ≤ s.l then
        if s.area s.o = space.val ∨ s.area s.o = 0 ∨ s.area s.o = equals.val then
          let next :=
            if s.area s.o = equals.val then valueLoop (s.l + 1) s.storeKey.cut else s.storeKey.cut
          keyLoop rounds { next with i := next.i + 1 }
        else keyLoop rounds { s with o := s.o + 1 }
      else s

/-- The state after the copy of the string. -/
def bootargsStart (bootarg : Name) : Bootargs where
  l := bootarg.length
  area := fun k => bootarg.bytes.getD k 0
  o := 0
  last := 0
  i := 0
  table := fun _ => {}
  stored := []

def bootargsInit (bootarg : Name) : Bootargs :=
  keyLoop (bootarg.length + 2) (bootargsStart bootarg)

/-- The comparison of `bootargs_get`. -/
def keyMatches (area : Nat → Byte) : Nat → Name → Bool
  | p, [] => area p = 0
  | p, c :: key => area p = c.val && keyMatches area (p + 1) key

/-- The string at an offset. -/
def Bootargs.stringFrom (s : Bootargs) (p : Nat) : Name :=
  cstring ((List.range (s.l + 1 - p)).map fun k => s.area (p + k))

def getFrom (s : Bootargs) (key : Name) : Nat → Nat → Option Name
  | 0, _ => none
  | rounds + 1, i =>
      match (s.table i).key with
      | none => none
      | some p =>
          if keyMatches s.area p key then
            match (s.table i).value with
            | none => some []
            | some value => some (s.stringFrom value)
          else getFrom s key rounds (i + 1)

def bootargsGet (s : Bootargs) (key : Name) : Option Name := getFrom s key CONFIG_BOOTARGS_MAX 0

/-! ## Strings in the area -/

/-- The area spells `name` from `p` on. -/
def Spells (area : Nat → Byte) : Nat → Name → Prop
  | _, [] => True
  | p, c :: name => area p = c.val ∧ Spells area (p + 1) name

theorem spells_append {area : Nat → Byte} {p : Nat} {name rest : Name} :
    Spells area p (name ++ rest) ↔ Spells area p name ∧ Spells area (p + name.length) rest := by
  induction name generalizing p with
  | nil => simp [Spells]
  | cons c name ih => simp [Spells, ih, and_assoc, Nat.add_assoc, Nat.add_comm 1]

/-- A string is where it was when its bytes are. -/
theorem Spells.congr {area area' : Nat → Byte} {p : Nat} {name : Name} (spelled : Spells area p name)
    (same : ∀ k, p ≤ k → k < p + name.length → area' k = area k) : Spells area' p name := by
  induction name generalizing p with
  | nil => trivial
  | cons c name ih =>
      obtain ⟨first, later⟩ := spelled
      refine ⟨?_, ih later fun k after below => ?_⟩
      · rw [same p (Nat.le_refl p) (by simp), first]
      · exact same k (by omega) (by simp only [List.length_cons]; omega)

/-- Two terminated strings compare equal when they are equal. -/
theorem keyMatches_spelled {area : Nat → Byte} {p : Nat} {name : Name} (spelled : Spells area p name)
    (ends : area (p + name.length) = 0) (key : Name) : keyMatches area p key ↔ name = key := by
  induction name generalizing p key with
  | nil =>
      cases key with
      | nil => simpa [keyMatches] using ends
      | cons c key =>
          have differ : area p ≠ c.val := by
            rw [show area p = 0 from ends]
            exact c.property.symm
          simp [keyMatches, differ]
  | cons c name ih =>
      obtain ⟨first, later⟩ := spelled
      cases key with
      | nil =>
          have nonzero : c.val ≠ 0 := c.property
          simpa [keyMatches, first] using nonzero
      | cons d key =>
          have rest := ih later (by rwa [Nat.add_assoc, Nat.add_comm 1]) key
          simp [keyMatches, first, rest, Subtype.ext_iff]

theorem stringFrom_spelled {s : Bootargs} {p : Nat} {name : Name} (spelled : Spells s.area p name)
    (ends : s.area (p + name.length) = 0) (inside : p + name.length ≤ s.l) :
    s.stringFrom p = name := by
  have cells : (List.range name.length).map (fun k => s.area (p + k)) = name.bytes := by
    clear ends inside
    induction name generalizing p with
    | nil => rfl
    | cons c name ih =>
        obtain ⟨first, later⟩ := spelled
        rw [List.length_cons, List.range_succ_eq_map, List.map_cons, List.map_map, Nat.add_zero, first]
        have eq := ih later
        simp only [Nat.add_assoc, Nat.add_comm 1] at eq
        exact congrArg (c.val :: ·) eq
  obtain ⟨extra, total⟩ := Nat.exists_eq_add_of_le inside
  have split : s.l + 1 - p = name.length + (extra + 1) := by omega
  rw [Bootargs.stringFrom, split, List.range_add, List.map_append, cells, List.range_succ_eq_map,
    List.map_cons, List.map_cons, Nat.add_zero, ends]
  exact cstring_append _ _

/-! ## One segment -/

/-- The part of a segment before its first `=`. -/
def bootKey (segment : Name) : Name := segment.takeWhile (· ≠ equals)

/-- What follows the first `=`, if there is one. -/
def bootValue (segment : Name) : Option Name :=
  match segment.dropWhile (· ≠ equals) with
  | [] => none
  | _ :: value => some value

theorem segment_eq (segment : Name) :
    segment = bootKey segment ++ ((bootValue segment).map (equals :: ·)).getD [] := by
  conv_lhs => rw [← List.takeWhile_append_dropWhile (p := (· ≠ equals)) (l := segment)]
  rw [bootKey, bootValue]
  congr 1
  cases rest : segment.dropWhile (· ≠ equals) with
  | nil => rfl
  | cons c value =>
      have first := List.head_dropWhile_not (· ≠ equals) (l := segment) (by rw [rest]; simp)
      simp only [rest, List.head_cons] at first
      obtain rfl : c = equals := by simpa using first
      rfl

theorem equals_notMem_bootKey (segment : Name) : equals ∉ bootKey segment := by
  intro inside
  have passed := List.all_takeWhile (p := (· ≠ equals)) (l := segment)
  simpa using List.all_eq_true.1 passed equals inside

theorem bootKey_length_le (segment : Name) : (bootKey segment).length ≤ segment.length :=
  (List.takeWhile_sublist _).length_le

theorem segment_length (segment : Name) : segment.length =
    (bootKey segment).length + ((bootValue segment).map (·.length + 1)).getD 0 := by
  have split := congrArg List.length (segment_eq segment)
  rw [split, List.length_append]
  cases bootValue segment <;> rfl

/-- The entry of the segment at `o`. -/
def bootEntry (o : Nat) (segment : Name) : Bootarg where
  key := some o
  value := (bootValue segment).map fun _ => o + (bootKey segment).length + 1

/-- The area once the segment at `o` is cut. -/
def cutSegment (area : Nat → Byte) (o : Nat) (segment : Name) : Nat → Byte :=
  match bootValue segment with
  | none => Function.update area (o + segment.length) 0
  | some _ =>
      Function.update (Function.update area (o + (bootKey segment).length) 0) (o + segment.length) 0

/-- The state after the segment at `o`. -/
def Bootargs.addSegment (s : Bootargs) (segment : Name) : Bootargs where
  l := s.l
  area := cutSegment s.area s.o segment
  o := s.o + segment.length + 1
  last := s.o + segment.length + 1
  i := s.i + 1
  table := Function.update s.table s.i (bootEntry s.o segment)
  stored := s.i :: s.stored

/-- The outer loop goes from `s` to `s'`, with rounds enough left. -/
def Leads (s s' : Bootargs) : Prop :=
  ∀ rounds, s.l < s.o + rounds →
    ∃ rounds', s'.l < s'.o + rounds' ∧ keyLoop rounds s = keyLoop rounds' s'

theorem Leads.refl (s : Bootargs) : Leads s s := fun rounds enough => ⟨rounds, enough, rfl⟩

theorem Leads.trans {s s' s'' : Bootargs} (first : Leads s s') (second : Leads s' s'') : Leads s s'' := by
  intro rounds enough
  obtain ⟨rounds', enough', eq⟩ := first rounds enough
  obtain ⟨rounds'', enough'', eq'⟩ := second rounds' enough'
  exact ⟨rounds'', enough'', eq.trans eq'⟩

/-- The outer loop passes over the characters of a key. -/
theorem leads_key {s : Bootargs} {key : Name} (noSpace : space ∉ key) (noEquals : equals ∉ key)
    (spelled : Spells s.area s.o key) (inside : s.o + key.length ≤ s.l) :
    Leads s { s with o := s.o + key.length } := by
  induction key generalizing s with
  | nil => exact Leads.refl s
  | cons c key ih =>
      obtain ⟨first, later⟩ := spelled
      simp only [List.mem_cons, not_or] at noSpace noEquals
      rw [List.length_cons] at inside
      have next : Leads s { s with o := s.o + 1 } := by
        intro rounds enough
        cases rounds with
        | zero => omega
        | succ rounds =>
            have passes : ¬(s.area s.o = space.val ∨ s.area s.o = 0 ∨ s.area s.o = equals.val) := by
              rw [first]
              rintro (isSpace | ends | isEquals)
              · exact noSpace.1 (Subtype.ext isSpace.symm)
              · exact c.property ends
              · exact noEquals.1 (Subtype.ext isEquals.symm)
            refine ⟨rounds, by dsimp only; omega, ?_⟩
            rw [keyLoop, if_pos (by omega), if_neg passes]
      have rest := ih (s := { s with o := s.o + 1 }) noSpace.2 noEquals.2 later (by dsimp only; omega)
      simp only [List.length_cons, Nat.add_assoc, Nat.add_comm 1] at rest ⊢
      exact next.trans rest

/-- The inner loop stores a value at its end. -/
theorem valueLoop_value {s : Bootargs} {value : Name} {rounds : Nat} (noSpace : space ∉ value)
    (spelled : Spells s.area s.o value)
    (ends : s.area (s.o + value.length) = space.val ∨ s.area (s.o + value.length) = 0)
    (inside : s.o + value.length ≤ s.l) (enough : s.l < s.o + rounds) :
    valueLoop rounds s =
      (Bootargs.storeValue { s with o := s.o + value.length }).cut := by
  induction value generalizing s rounds with
  | nil =>
      obtain _ | rounds := rounds
      · simp only [List.length_nil] at inside
        omega
      · simp only [List.length_nil, Nat.add_zero] at ends inside ⊢
        rw [valueLoop, if_pos inside, if_pos ends]
  | cons c value ih =>
      obtain ⟨first, later⟩ := spelled
      simp only [List.mem_cons, not_or] at noSpace
      rw [List.length_cons] at inside ends
      obtain _ | rounds := rounds
      · omega
      · have passes : ¬(s.area s.o = space.val ∨ s.area s.o = 0) := by
          rw [first]
          rintro (isSpace | ends)
          · exact noSpace.1 (Subtype.ext isSpace.symm)
          · exact c.property ends
        have place : s.o + (value.length + 1) = s.o + 1 + value.length := by omega
        rw [place] at ends inside
        rw [valueLoop, if_pos (by omega), if_neg passes,
          ih (s := { s with o := s.o + 1 }) noSpace.2 later ends inside (by dsimp only; omega),
          List.length_cons, place]

/-- **One segment gives one entry.** -/
theorem leads_segment {s : Bootargs} {segment : Name} (fresh : s.last = s.o) (noSpace : space ∉ segment)
    (spelled : Spells s.area s.o segment)
    (ends : s.area (s.o + segment.length) = space.val ∨ s.area (s.o + segment.length) = 0)
    (inside : s.o + segment.length ≤ s.l) : Leads s (s.addSegment segment) := by
  have split := segment_eq segment
  have noEquals := equals_notMem_bootKey segment
  cases value : bootValue segment with
  | none =>
      obtain keyed : segment = bootKey segment := by simpa [value] using split
      refine (leads_key noSpace (keyed ▸ noEquals) spelled inside).trans ?_
      rintro (_ | rounds) enough
      · exact absurd enough (by dsimp only; omega)
      have stops : s.area (s.o + segment.length) ≠ equals.val := by
        rcases ends with isSpace | ends
        · rw [isSpace]
          decide
        · rw [ends]
          decide
      have cuts := ends.imp_right (Or.inl (b := s.area (s.o + segment.length) = equals.val))
      refine ⟨rounds, by simp only [Bootargs.addSegment] at enough ⊢; omega, ?_⟩
      rw [keyLoop, if_pos (by exact inside), if_pos (by exact cuts), if_neg (by exact stops)]
      simp [Bootargs.addSegment, Bootargs.storeKey, Bootargs.cut, cutSegment, bootEntry, value, fresh]
  | some v =>
      have keyed : segment = bootKey segment ++ equals :: v := by simpa [value] using split
      have length : segment.length = (bootKey segment).length + 1 + v.length := by
        conv_lhs => rw [keyed]
        simp only [List.length_append, List.length_cons]
        omega
      rw [keyed, List.mem_append, List.mem_cons, not_or, not_or] at noSpace
      rw [keyed, spells_append] at spelled
      obtain ⟨keySpelled, mark, valueSpelled⟩ := spelled
      refine (leads_key noSpace.1 noEquals keySpelled (by omega)).trans ?_
      rintro (_ | rounds) enough
      · exact absurd enough (by dsimp only; omega)
      refine ⟨rounds, by simp only [Bootargs.addSegment] at enough ⊢; omega, ?_⟩
      have place : s.o + (bootKey segment).length + 1 + v.length = s.o + segment.length := by omega
      have kept : ∀ k, s.o + (bootKey segment).length + 1 ≤ k →
          Function.update s.area (s.o + (bootKey segment).length) 0 k = s.area k :=
        fun k after => Function.update_of_ne (by omega) _ _
      have closes := (kept _ (Nat.le_add_right _ v.length)).trans (congrArg s.area place)
      -- The key is cut, so the value starts right behind the mark.
      have looped := @valueLoop_value
        (Bootargs.storeKey { s with o := s.o + (bootKey segment).length }).cut v (s.l + 1) noSpace.2.2
        (valueSpelled.congr fun k after _ => kept k after)
        (ends.imp closes.trans closes.trans)
        (by
          show s.o + (bootKey segment).length + 1 + v.length ≤ s.l
          rw [place]
          exact inside)
        (by
          show s.l < s.o + (bootKey segment).length + 1 + (s.l + 1)
          omega)
      rw [keyLoop, if_pos (by dsimp only; omega), if_pos (by exact Or.inr (Or.inr mark)),
        if_pos (by exact mark), looped]
      simp [Bootargs.addSegment, Bootargs.storeKey, Bootargs.storeValue, Bootargs.cut, cutSegment,
        bootEntry, value, fresh, place]

/-! ## All segments -/

/-- The segments lie in the area from `o` on, each of them ended by a space or a terminator. -/
def Laid (area : Nat → Byte) : Nat → List Name → Prop
  | _, [] => True
  | o, segment :: segments =>
      Spells area o segment ∧ space ∉ segment ∧
      (area (o + segment.length) = space.val ∨ area (o + segment.length) = 0) ∧
      Laid area (o + segment.length + 1) segments

/-- The offset behind the segments. -/
def laidEnd (o : Nat) (segments : List Name) : Nat :=
  segments.foldl (fun o segment => o + segment.length + 1) o

theorem le_laidEnd (o : Nat) (segments : List Name) : o + segments.length ≤ laidEnd o segments := by
  induction segments generalizing o with
  | nil => exact Nat.le_refl o
  | cons segment segments ih =>
      have later := ih (o + segment.length + 1)
      rw [laidEnd, List.foldl_cons, List.length_cons]
      rw [laidEnd] at later
      omega

theorem cutSegment_end (area : Nat → Byte) (o : Nat) (segment : Name) :
    cutSegment area o segment (o + segment.length) = 0 := by
  cases value : bootValue segment <;> simp only [cutSegment, value, Function.update_self]

theorem cutSegment_mark (area : Nat → Byte) (o : Nat) (segment : Name) :
    cutSegment area o segment (o + (bootKey segment).length) = 0 := by
  have length := segment_length segment
  cases value : bootValue segment with
  | none =>
      simp only [value, Option.map_none, Option.getD_none, Nat.add_zero] at length
      rw [← length, cutSegment_end]
  | some v =>
      simp only [value, Option.map_some, Option.getD_some] at length
      simp only [cutSegment, value]
      rw [Function.update_of_ne (by omega), Function.update_self]

/-- Cutting changes the two ends only. -/
theorem cutSegment_inside {area : Nat → Byte} {o k : Nat} {segment : Name}
    (notMark : k ≠ o + (bootKey segment).length) (notEnd : k ≠ o + segment.length) :
    cutSegment area o segment k = area k := by
  cases value : bootValue segment with
  | none => simp only [cutSegment, value, Function.update_of_ne notEnd]
  | some v => simp only [cutSegment, value, Function.update_of_ne notEnd, Function.update_of_ne notMark]

theorem cutSegment_outside {area : Nat → Byte} {o k : Nat} {segment : Name}
    (outside : k < o ∨ o + segment.length < k) : cutSegment area o segment k = area k := by
  have keyInside := bootKey_length_le segment
  exact cutSegment_inside (by omega) (by omega)

theorem Laid.congr {area area' : Nat → Byte} {o : Nat} {segments : List Name} (laid : Laid area o segments)
    (same : ∀ k, o ≤ k → area' k = area k) : Laid area' o segments := by
  induction segments generalizing o with
  | nil => trivial
  | cons segment segments ih =>
      obtain ⟨spelled, noSpace, ends, later⟩ := laid
      refine ⟨spelled.congr fun k after _ => same k after, noSpace, ?_, ih later fun k after => same k (by omega)⟩
      rwa [same _ (by omega)]

/-- **The whole run**: the segments are added one after the other. -/
theorem leads_segments {s : Bootargs} {segments : List Name} (fresh : s.last = s.o)
    (laid : Laid s.area s.o segments) (inside : laidEnd s.o segments ≤ s.l + 1) :
    Leads s (segments.foldl Bootargs.addSegment s) := by
  induction segments generalizing s with
  | nil => exact Leads.refl s
  | cons segment segments ih =>
      obtain ⟨spelled, noSpace, ends, later⟩ := laid
      have bound := Nat.le_trans (le_laidEnd (s.o + segment.length + 1) segments) inside
      refine (leads_segment fresh noSpace spelled ends (by omega)).trans (ih rfl ?_ inside)
      exact later.congr fun k after => cutSegment_outside (Or.inr (by omega))

/-- Adding segments leaves what lies before them, and goes to the end. -/
theorem addSegments_frame (s : Bootargs) (segments : List Name) :
    let t := segments.foldl Bootargs.addSegment s
    t.l = s.l ∧ t.o = laidEnd s.o segments ∧ (∀ k < s.o, t.area k = s.area k) ∧
      (∀ k < s.i, t.table k = s.table k) ∧ (∀ k, s.i + segments.length ≤ k → t.table k = s.table k) ∧
      ∀ k, k ∈ t.stored ↔ k ∈ s.stored ∨ s.i ≤ k ∧ k < s.i + segments.length := by
  induction segments generalizing s with
  | nil =>
      refine ⟨rfl, rfl, fun k _ => rfl, fun k _ => rfl, fun k _ => rfl, fun k => ?_⟩
      rw [List.foldl_nil, List.length_nil]
      exact (or_iff_left (by omega)).symm
  | cons segment segments ih =>
      obtain ⟨l, o, area, before, after, stored⟩ := ih (s.addSegment segment)
      rw [List.foldl_cons]
      simp only [Bootargs.addSegment, List.length_cons] at l o area before after stored ⊢
      refine ⟨l, o, fun k below => ?_, fun k below => ?_, fun k above => ?_, fun k => ?_⟩
      · rw [area k (by omega), cutSegment_outside (Or.inl below)]
      · rw [before k (by omega), Function.update_of_ne (by omega)]
      · rw [after k (by omega), Function.update_of_ne (by omega)]
      · rw [stored, List.mem_cons, or_comm (a := k = s.i), or_assoc]
        exact or_congr_right (by omega)

/-! ## Looking a key up -/

/-- The table from `i` on is that of the segments that were at `o`. -/
def Listed (s : Bootargs) : Nat → Nat → List Name → Prop
  | _, _, [] => True
  | i, o, segment :: segments =>
      s.table i = bootEntry o segment ∧
      Spells s.area o (bootKey segment) ∧ s.area (o + (bootKey segment).length) = 0 ∧
      (∀ value ∈ bootValue segment, Spells s.area (o + (bootKey segment).length + 1) value) ∧
      s.area (o + segment.length) = 0 ∧ o + segment.length ≤ s.l ∧
      Listed s (i + 1) (o + segment.length + 1) segments

theorem listed_segments {s : Bootargs} {segments : List Name} (laid : Laid s.area s.o segments)
    (inside : laidEnd s.o segments ≤ s.l + 1) :
    Listed (segments.foldl Bootargs.addSegment s) s.i s.o segments := by
  induction segments generalizing s with
  | nil => trivial
  | cons segment segments ih =>
      obtain ⟨spelled, noSpace, ends, later⟩ := laid
      obtain ⟨l, o, area, before, -, -⟩ := addSegments_frame (s.addSegment segment) segments
      have bound := Nat.le_trans (le_laidEnd (s.o + segment.length + 1) segments) inside
      have length := segment_length segment
      have split := segment_eq segment
      have kept : ∀ k, k < s.o + segment.length + 1 →
          (segments.foldl Bootargs.addSegment (s.addSegment segment)).area k =
            cutSegment s.area s.o segment k := area
      rw [List.foldl_cons]
      refine ⟨(before s.i (Nat.lt_succ_self _)).trans (Function.update_self ..), ?_, ?_, ?_, ?_,
        l ▸ by simp only [Bootargs.addSegment]; omega, ih ?_ inside⟩
      · rw [split, spells_append] at spelled
        refine spelled.1.congr fun k after below => ?_
        rw [kept k (by omega), cutSegment_inside (by omega) (by omega)]
      · rw [kept _ (by omega), cutSegment_mark]
      · intro v value
        rw [split, spells_append, value] at spelled
        rw [value] at length
        simp only [Option.map_some, Option.getD_some] at length
        refine spelled.2.2.congr fun k after below => ?_
        rw [kept k (by omega), cutSegment_inside (by omega) (by omega)]
      · rw [kept _ (by omega), cutSegment_end]
      · exact later.congr fun k after => cutSegment_outside (Or.inr (by omega))

/-- The value of the first segment with that key. -/
def lookup (segments : List Name) (key : Name) : Option Name :=
  (segments.find? (bootKey · = key)).map fun segment => (bootValue segment).getD []

/-- **`bootargs_get` looks the key up among the segments.** -/
theorem getFrom_listed {s : Bootargs} {i o rounds : Nat} {segments : List Name}
    (listed : Listed s i o segments) (last : (s.table (i + segments.length)).key = none)
    (enough : segments.length ≤ rounds) (key : Name) : getFrom s key rounds i = lookup segments key := by
  induction segments generalizing i o rounds with
  | nil =>
      cases rounds with
      | zero => rfl
      | succ rounds =>
          have empty : (s.table i).key = none := last
          rw [getFrom, empty]
          rfl
  | cons segment segments ih =>
      obtain ⟨entry, keySpelled, keyEnds, valueSpelled, ends, inside, later⟩ := listed
      rw [List.length_cons] at last enough
      obtain ⟨rounds, rfl⟩ : ∃ n, rounds = n + 1 := ⟨rounds - 1, by omega⟩
      have rest := ih later (by rwa [Nat.add_right_comm]) (Nat.le_of_succ_le_succ enough)
      have compared := keyMatches_spelled keySpelled keyEnds key
      rw [getFrom, entry]
      by_cases same : bootKey segment = key
      · have found : lookup (segment :: segments) key = some ((bootValue segment).getD []) := by
          simp [lookup, same]
        rw [found]
        simp only [bootEntry, if_pos (compared.2 same)]
        cases value : bootValue segment with
        | none => rfl
        | some v =>
            have length := segment_length segment
            rw [value] at length
            simp only [Option.map_some, Option.getD_some] at length ⊢
            have place : o + (bootKey segment).length + 1 + v.length = o + segment.length := by omega
            rw [stringFrom_spelled (valueSpelled v value) (place ▸ ends) (place ▸ inside)]
      · have passed : lookup (segment :: segments) key = lookup segments key := by
          simp [lookup, same]
        rw [passed, ← rest]
        simp only [bootEntry, if_neg (mt compared.1 same)]

/-! ## The boot string -/

theorem splitOn_space (b : Name) :
    (∀ segment ∈ b.splitOn space, space ∉ segment) ∧ (b.splitOn space).length = b.count space + 1 := by
  induction b with
  | nil => simp
  | cons c b ih =>
      obtain ⟨segment, segments, split⟩ := List.exists_cons_of_ne_nil (List.splitOn_ne_nil space b)
      rw [split] at ih
      rw [List.splitOn_cons_eq_if_modifyHead, split, List.count_cons]
      by_cases isSpace : c = space
      · subst isSpace
        simpa using ih
      · have differ : c.val ≠ space.val := fun same => isSpace (Subtype.ext same)
        simpa [differ, Ne.symm isSpace] using ih

theorem spells_of_cells {area : Nat → Byte} {p : Nat} {name : Name}
    (cells : ∀ k (inside : k < name.length), area (p + k) = (name[k]).val) : Spells area p name := by
  induction name generalizing p with
  | nil => trivial
  | cons c name ih =>
      refine ⟨cells 0 (Nat.succ_pos _), ih fun k inside => ?_⟩
      rw [Nat.add_assoc, Nat.add_comm 1]
      exact cells (k + 1) (Nat.succ_lt_succ inside)

/-- Segments joined by spaces lie in the area like that. -/
theorem laid_intercalate {area : Nat → Byte} {o : Nat} {segments : List Name} (some : segments ≠ [])
    (noSpace : ∀ segment ∈ segments, space ∉ segment)
    (spelled : Spells area o ([space].intercalate segments))
    (ends : area (o + ([space].intercalate segments).length) = 0) :
    Laid area o segments ∧ laidEnd o segments = o + ([space].intercalate segments).length + 1 := by
  induction segments generalizing o with
  | nil => exact absurd rfl some
  | cons segment segments ih =>
      cases segments with
      | nil =>
          simp only [List.intercalate_singleton] at spelled ends ⊢
          exact ⟨⟨spelled, noSpace segment (by simp), Or.inr ends, trivial⟩, rfl⟩
      | cons next segments =>
          rw [List.intercalate_cons_cons] at spelled ends ⊢
          rw [List.append_assoc, spells_append] at spelled
          obtain ⟨first, between, later⟩ := spelled
          simp only [List.length_append, List.length_singleton] at ends ⊢
          obtain ⟨laid, last⟩ := ih (o := o + segment.length + 1) (by simp)
            (fun s inside => noSpace s (List.mem_cons_of_mem _ inside)) later
            (by rwa [Nat.add_assoc _ segment.length, Nat.add_assoc])
          exact ⟨⟨first, noSpace segment (by simp), Or.inl between, laid⟩,
            last.trans (by omega)⟩

/-- **The parsed string**: one entry a segment. -/
theorem bootargsInit_eq (b : Name) :
    bootargsInit b = (b.splitOn space).foldl Bootargs.addSegment (bootargsStart b) ∧
      Laid (bootargsStart b).area 0 (b.splitOn space) ∧ laidEnd 0 (b.splitOn space) = b.length + 1 := by
  have joined : [space].intercalate (b.splitOn space) = b := List.intercalate_splitOn space
  have spelled : Spells (bootargsStart b).area 0 ([space].intercalate (b.splitOn space)) := by
    rw [joined]
    refine spells_of_cells fun k inside => ?_
    simp [bootargsStart, Name.bytes, inside]
  have ends : (bootargsStart b).area b.length = 0 := by
    simp [bootargsStart, Name.bytes]
  obtain ⟨laid, last⟩ := laid_intercalate (List.splitOn_ne_nil space b) (splitOn_space b).1
    spelled (by rwa [joined, Nat.zero_add])
  rw [joined, Nat.zero_add] at last
  refine ⟨?_, laid, last⟩
  obtain ⟨rounds, -, run⟩ := leads_segments (s := bootargsStart b) rfl laid (Nat.le_of_eq last) (b.length + 2)
    (by simp only [bootargsStart]; omega)
  obtain ⟨l, o, -⟩ := addSegments_frame (bootargsStart b) (b.splitOn space)
  have ended : ¬((b.splitOn space).foldl Bootargs.addSegment (bootargsStart b)).o ≤
      ((b.splitOn space).foldl Bootargs.addSegment (bootargsStart b)).l := by
    rw [l, o]
    exact Nat.not_le.2 (last ▸ Nat.lt_succ_self b.length)
  rw [bootargsInit, run]
  cases rounds with
  | zero => rfl
  | succ rounds => rw [keyLoop, if_neg ended]

/-- The entries stored are as many as there are segments. -/
theorem bootargsInit_stored (b : Name) (k : Nat) : k ∈ (bootargsInit b).stored ↔ k ≤ b.count space := by
  obtain ⟨-, -, -, -, -, stored⟩ := addSegments_frame (bootargsStart b) (b.splitOn space)
  rw [(bootargsInit_eq b).1, stored, (splitOn_space b).2]
  simp only [bootargsStart, List.not_mem_nil, false_or]
  omega

theorem bootargsGet_eq {b : Name} (few : b.count space < CONFIG_BOOTARGS_MAX) (key : Name) :
    bootargsGet (bootargsInit b) key = lookup (b.splitOn space) key := by
  obtain ⟨parsed, laid, last⟩ := bootargsInit_eq b
  obtain ⟨-, -, -, -, table, -⟩ := addSegments_frame (bootargsStart b) (b.splitOn space)
  have listed := listed_segments (s := bootargsStart b) laid (Nat.le_of_eq last)
  rw [bootargsGet, parsed]
  refine getFrom_listed listed ?_ ((splitOn_space b).2 ▸ few) key
  rw [show (bootargsStart b).i = 0 from rfl, Nat.zero_add, table _ (Nat.le_of_eq (Nat.zero_add _))]
  rfl

/-! ## Lists of items -/

/-- An item of the form `key` or `key=value`. -/
structure BootItem where
  key : Name
  value : Option Name

structure BootItem.WellFormed (item : BootItem) : Prop where
  nonempty : item.key ≠ []
  keySpace : space ∉ item.key
  keyEquals : equals ∉ item.key
  valueSpace : ∀ value ∈ item.value, space ∉ value

def BootItem.render (item : BootItem) : Name := item.key ++ (item.value.map (equals :: ·)).getD []

/-- The items, separated by single spaces. -/
def bootString (items : List BootItem) : Name := [space].intercalate (items.map BootItem.render)

/-- The value of the first item with that key, empty for an item without `=`. -/
def firstValue (items : List BootItem) (key : Name) : Option Name :=
  (items.find? (·.key = key)).map fun item => item.value.getD []

theorem bootKey_render {item : BootItem} (wellFormed : item.WellFormed) : bootKey item.render = item.key := by
  have passed : ∀ c ∈ item.key, decide (c ≠ equals) = true := by
    intro c inside
    refine decide_eq_true fun isEquals => wellFormed.keyEquals ?_
    rwa [← isEquals]
  rw [bootKey, BootItem.render, List.takeWhile_append_of_pos passed]
  cases item.value <;> simp

theorem bootValue_render {item : BootItem} (wellFormed : item.WellFormed) :
    bootValue item.render = item.value := by
  have split := segment_eq item.render
  rw [bootKey_render wellFormed] at split
  have same := List.append_cancel_left split
  cases value : item.value <;> cases found : bootValue item.render <;> simp_all

theorem render_space {item : BootItem} (wellFormed : item.WellFormed) : space ∉ item.render := by
  rw [BootItem.render, List.mem_append, not_or]
  refine ⟨wellFormed.keySpace, ?_⟩
  cases value : item.value with
  | none => simp
  | some v =>
      have differ : space ≠ equals := by decide
      simpa [differ] using wellFormed.valueSpace v value

theorem lookup_render {items : List BootItem} (wellFormed : ∀ item ∈ items, item.WellFormed) (key : Name) :
    lookup (items.map BootItem.render) key = firstValue items key := by
  induction items with
  | nil => rfl
  | cons item items ih =>
      have rest := ih fun other inside => wellFormed other (List.mem_cons_of_mem _ inside)
      have first := wellFormed item List.mem_cons_self
      rw [lookup, firstValue] at rest ⊢
      by_cases same : item.key = key
      · simp [same, bootKey_render first, bootValue_render first]
      · simpa [same, bootKey_render first] using rest

theorem splitOn_bootString {items : List BootItem} (some : items ≠ [])
    (wellFormed : ∀ item ∈ items, item.WellFormed) :
    (bootString items).splitOn space = items.map BootItem.render := by
  refine List.splitOn_intercalate space ?_ (by simpa using some)
  intro segment inside
  obtain ⟨item, listed, rfl⟩ := List.mem_map.1 inside
  exact render_space (wellFormed item listed)

/-- What the boot arguments are for: nothing is stored outside the table, and a key that is looked up
gives the value of its first item. -/
structure BootRight (b : Name) : Prop where
  inside : ∀ k ∈ (bootargsInit b).stored, k < CONFIG_BOOTARGS_MAX
  found : ∀ items : List BootItem, items.length ≤ CONFIG_BOOTARGS_MAX →
    (∀ item ∈ items, item.WellFormed) → b = bootString items →
    ∀ key, bootargsGet (bootargsInit b) key = firstValue items key

/-- **The boot arguments are right for the strings that are not empty and have fewer spaces than the
table has entries.**  The table has no bound check, and the empty string is one entry, whose key is
empty. -/
theorem bootargs_exact (b : Name) : BootRight b ↔ b ≠ [] ∧ b.count space < CONFIG_BOOTARGS_MAX := by
  constructor
  · intro right
    have few := right.inside (b.count space) ((bootargsInit_stored b _).2 (Nat.le_refl _))
    refine ⟨fun empty => ?_, few⟩
    subst empty
    have got := right.found [] (Nat.zero_le _) (fun item inside => absurd inside List.not_mem_nil) rfl []
    rw [bootargsGet_eq few] at got
    simp [lookup, firstValue, bootKey] at got
  · rintro ⟨nonempty, few⟩
    refine ⟨fun k stored => Nat.lt_of_le_of_lt ((bootargsInit_stored b k).1 stored) few, ?_⟩
    intro items _ wellFormed joined key
    have some : items ≠ [] := by
      rintro rfl
      exact nonempty joined
    rw [bootargsGet_eq few, joined, splitOn_bootString some wellFormed, lookup_render wellFormed]

/-- Thirty-two spaces are thirty-three entries. -/
theorem bootargs_beyond : ¬BootRight (List.replicate 32 space) := by
  intro right
  have stored := right.inside 32 ((bootargsInit_stored _ _).2 (by simp))
  exact absurd stored (by decide)

end Buenos.Drivers
