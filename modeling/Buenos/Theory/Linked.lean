/-
# Theory.Linked -- linked lists threaded through one array of links

Many lists can share one array `next` of links as long as no index is on two of
them.  `Seg next start l stop` says that following links from `start` visits the
positive indices `l`, in order, and then arrives at `stop`; a list is a segment that
arrives at a negative link.

A segment only depends on the links of its own members (`Seg.congr`), so lists that
share no member do not disturb each other.  `search` is the loop that walks a list to
the first member that passes a test, remembering the member before it.
-/
import Mathlib.Data.List.Nodup
import Mathlib.Logic.Function.Basic
import Mathlib.Tactic.Common

namespace Buenos.Theory

set_option autoImplicit false

/-- From `start`, the links visit `l` and then arrive at `stop`. -/
def Seg (next : Int → Int) : Int → List Int → Int → Prop
  | start, [], stop => start = stop
  | start, t :: l, stop => start = t ∧ 0 < t ∧ Seg next (next t) l stop

/-- A complete list: it ends in a negative link. -/
def Linked (next : Int → Int) (start : Int) (l : List Int) : Prop :=
  ∃ stop, stop < 0 ∧ Seg next start l stop

namespace Seg

variable {next next' : Int → Int} {start stop : Int} {l r : List Int}

/-- **Frame.**  Only the links of the members count. -/
theorem congr (same : ∀ t ∈ l, next' t = next t) (seg : Seg next start l stop) :
    Seg next' start l stop := by
  induction l generalizing start with
  | nil => exact seg
  | cons t l ih =>
      obtain ⟨rfl, positive, rest⟩ := seg
      refine ⟨rfl, positive, ?_⟩
      rw [same start List.mem_cons_self]
      exact ih (fun u mem => same u (List.mem_cons_of_mem _ mem)) rest

theorem append_iff :
    Seg next start (l ++ r) stop ↔ ∃ mid, Seg next start l mid ∧ Seg next mid r stop := by
  induction l generalizing start with
  | nil => simp [Seg]
  | cons t l ih =>
      simp only [List.cons_append, Seg, ih]
      constructor
      · rintro ⟨rfl, positive, mid, first, second⟩
        exact ⟨mid, ⟨rfl, positive, first⟩, second⟩
      · rintro ⟨mid, ⟨rfl, positive, first⟩, second⟩
        exact ⟨rfl, positive, mid, first, second⟩

theorem positive (seg : Seg next start l stop) {t : Int} (mem : t ∈ l) : 0 < t := by
  induction l generalizing start with
  | nil => simp at mem
  | cons u l ih =>
      obtain ⟨rfl, positive, rest⟩ := seg
      rcases List.mem_cons.1 mem with rfl | inside
      · exact positive
      · exact ih rest inside

/-- The last member's link can be redirected. -/
theorem redirect {p x : Int} (seg : Seg next start (l ++ [p]) stop) (nodup : (l ++ [p]).Nodup) :
    Seg (Function.update next p x) start (l ++ [p]) x := by
  obtain ⟨mid, first, rfl, positive, -⟩ := append_iff.1 seg
  apply append_iff.2
  refine ⟨mid, first.congr ?_, rfl, positive, ?_⟩
  · intro t mem
    have ne : t ≠ mid := by
      rintro rfl
      exact (List.nodup_append.1 nodup).2.2 t mem t (List.mem_singleton_self t) rfl
    rw [Function.update_of_ne ne]
  · simp [Seg]

/-- Append `t` behind the last member `p`. -/
theorem snoc {p t : Int} (seg : Seg next start (l ++ [p]) stop) (nodup : (l ++ [p]).Nodup)
    (fresh : t ∉ l ++ [p]) (positive : 0 < t) :
    Seg (Function.update (Function.update next p t) t (-1)) start (l ++ [p] ++ [t]) (-1) := by
  apply append_iff.2
  refine ⟨t, (seg.redirect nodup).congr ?_, rfl, positive, ?_⟩
  · intro u mem
    have ne : u ≠ t := by
      rintro rfl
      exact fresh mem
    rw [Function.update_of_ne ne]
  · simp [Seg]

/-- Take `w` out, when the member before it is `p`. -/
theorem cut {p w : Int} (seg : Seg next start (l ++ [p] ++ w :: r) stop)
    (nodup : (l ++ [p] ++ w :: r).Nodup) :
    Seg (Function.update (Function.update next p (next w)) w (-1)) start (l ++ [p] ++ r) stop := by
  obtain ⟨mid, first, rfl, -, rest⟩ := append_iff.1 seg
  have parts := List.nodup_append.1 nodup
  have tail := List.nodup_cons.1 parts.2.1
  have apartP : ∀ u ∈ mid :: r, u ≠ p := by
    rintro u mem rfl
    exact parts.2.2 u (by simp) u mem rfl
  apply append_iff.2
  refine ⟨next mid, (first.redirect parts.1).congr ?_, rest.congr ?_⟩
  · intro u mem
    have ne : u ≠ mid := by
      rintro rfl
      exact parts.2.2 u mem u List.mem_cons_self rfl
    rw [Function.update_of_ne ne]
  · intro u mem
    have ne : u ≠ mid := by
      rintro rfl
      exact tail.1 mem
    rw [Function.update_of_ne ne, Function.update_of_ne (apartP u (List.mem_cons_of_mem _ mem))]

/-- Take the first member out. -/
theorem behead {w : Int} (seg : Seg next start (w :: r) stop) (nodup : (w :: r).Nodup) :
    Seg (Function.update next w (-1)) (next w) r stop := by
  obtain ⟨rfl, -, rest⟩ := seg
  apply rest.congr
  intro u mem
  have ne : u ≠ start := by
    rintro rfl
    exact (List.nodup_cons.1 nodup).1 mem
  rw [Function.update_of_ne ne]

end Seg

namespace Linked

variable {next next' : Int → Int} {start : Int} {l l' : List Int}

theorem congr (same : ∀ t ∈ l, next' t = next t) (linked : Linked next start l) :
    Linked next' start l := by
  obtain ⟨stop, negative, seg⟩ := linked
  exact ⟨stop, negative, seg.congr same⟩

theorem positive (linked : Linked next start l) {t : Int} (mem : t ∈ l) : 0 < t := by
  obtain ⟨stop, -, seg⟩ := linked
  exact seg.positive mem

theorem nil_iff : Linked next start [] ↔ start < 0 := by
  constructor
  · rintro ⟨stop, negative, rfl⟩
    exact negative
  · intro negative
    exact ⟨start, negative, rfl⟩

theorem cons_iff {t : Int} :
    Linked next start (t :: l) ↔ start = t ∧ 0 < t ∧ Linked next (next t) l := by
  constructor
  · rintro ⟨stop, negative, first, positive, rest⟩
    exact ⟨first, positive, stop, negative, rest⟩
  · rintro ⟨first, positive, stop, negative, rest⟩
    exact ⟨stop, negative, first, positive, rest⟩

/-- The start of a list tells whether it is empty. -/
theorem eq_nil_of_nonpos (linked : Linked next start l) (empty : start ≤ 0) : l = [] := by
  cases l with
  | nil => rfl
  | cons t l =>
      obtain ⟨rfl, positive, -⟩ := cons_iff.1 linked
      omega

/-- There is only one list at a start. -/
theorem unique (first : Linked next start l) (second : Linked next start l') : l = l' := by
  induction l generalizing start l' with
  | nil => exact (second.eq_nil_of_nonpos (by have := nil_iff.1 first; omega)).symm
  | cons t l ih =>
      obtain ⟨rfl, positive, rest⟩ := cons_iff.1 first
      cases l' with
      | nil =>
          have := nil_iff.1 second
          omega
      | cons u l' =>
          obtain ⟨rfl, -, rest'⟩ := cons_iff.1 second
          rw [ih rest rest']

/-- A list of one. -/
theorem single {t : Int} (positive : 0 < t) : Linked (Function.update next t (-1)) t [t] :=
  ⟨-1, by decide, rfl, positive, by simp [Seg]⟩

theorem snoc {p t : Int} (linked : Linked next start l) (nodup : l.Nodup)
    (last : l.getLast? = some p) (fresh : t ∉ l) (positive : 0 < t) :
    Linked (Function.update (Function.update next p t) t (-1)) start (l ++ [t]) := by
  obtain ⟨init, rfl⟩ := List.getLast?_eq_some_iff.1 last
  obtain ⟨stop, -, seg⟩ := linked
  exact ⟨-1, by decide, seg.snoc nodup fresh positive⟩

theorem cut {p w : Int} {pre post : List Int} (linked : Linked next start (pre ++ w :: post))
    (nodup : (pre ++ w :: post).Nodup) (last : pre.getLast? = some p) :
    Linked (Function.update (Function.update next p (next w)) w (-1)) start (pre ++ post) := by
  obtain ⟨init, rfl⟩ := List.getLast?_eq_some_iff.1 last
  obtain ⟨stop, negative, seg⟩ := linked
  exact ⟨stop, negative, seg.cut nodup⟩

theorem behead {w : Int} {post : List Int} (linked : Linked next start (w :: post))
    (nodup : (w :: post).Nodup) : Linked (Function.update next w (-1)) (next w) post := by
  obtain ⟨stop, negative, seg⟩ := linked
  exact ⟨stop, negative, seg.behead nodup⟩

end Linked

/-! ## Walking a list -/

/-- Walk from `first`, with `prev` before it, to the first member that passes `hit`.  The
walk gives up after `n` members; a list of fewer than `n` members is walked to its end. -/
def search (next : Int → Int) (hit : Int → Bool) : Nat → Int → Int → Option (Int × Int)
  | 0, _, _ => none
  | n + 1, prev, first =>
      if 0 < first ∧ hit first = false then search next hit n first (next first)
      else some (prev, first)

/-- **What the walk finds**: the list splits at the first member that passes. -/
theorem search_found {next : Int → Int} (hit : Int → Bool) {pre post : List Int} {w : Int}
    (missed : ∀ t ∈ pre, hit t = false) (passed : hit w = true) :
    ∀ {n : Nat} (prev : Int) {first : Int}, Linked next first (pre ++ w :: post) → pre.length < n →
      search next hit n prev first = some (pre.getLast?.getD prev, w) := by
  induction pre with
  | nil =>
      intro n prev first linked long
      obtain ⟨n, rfl⟩ : ∃ m, n = m + 1 := ⟨n - 1, by simp at long; omega⟩
      obtain ⟨rfl, -, -⟩ := Linked.cons_iff.1 linked
      rw [search, if_neg (by simp [passed])]
      rfl
  | cons t pre ih =>
      intro n prev first linked long
      obtain ⟨n, rfl⟩ : ∃ m, n = m + 1 := ⟨n - 1, by simp at long; omega⟩
      obtain ⟨rfl, positive, rest⟩ := Linked.cons_iff.1 linked
      rw [search, if_pos ⟨positive, missed first List.mem_cons_self⟩,
        ih (fun u mem => missed u (List.mem_cons_of_mem _ mem)) first rest
          (by simpa using long)]
      rw [List.getLast?_cons, Option.getD_some]

/-- Nothing passes: the walk ends at the last member, with a negative link. -/
theorem search_end {next : Int → Int} (hit : Int → Bool) {l : List Int}
    (missed : ∀ t ∈ l, hit t = false) :
    ∀ {n : Nat} (prev : Int) {first : Int}, Linked next first l → l.length < n →
      ∃ stop, stop < 0 ∧ search next hit n prev first = some (l.getLast?.getD prev, stop) := by
  induction l with
  | nil =>
      intro n prev first linked long
      obtain ⟨n, rfl⟩ : ∃ m, n = m + 1 := ⟨n - 1, by simp at long; omega⟩
      have negative := Linked.nil_iff.1 linked
      exact ⟨first, negative, by rw [search, if_neg (by omega)]; rfl⟩
  | cons t l ih =>
      intro n prev first linked long
      obtain ⟨n, rfl⟩ : ∃ m, n = m + 1 := ⟨n - 1, by simp at long; omega⟩
      obtain ⟨rfl, positive, rest⟩ := Linked.cons_iff.1 linked
      obtain ⟨stop, negative, found⟩ := ih
        (fun u mem => missed u (List.mem_cons_of_mem _ mem)) first rest (by simpa using long)
      refine ⟨stop, negative, ?_⟩
      rw [search, if_pos ⟨positive, missed first List.mem_cons_self⟩, found]
      rw [List.getLast?_cons, Option.getD_some]

/-- The members of a list, read off the links; at most `n` of them. -/
def members (next : Int → Int) : Nat → Int → List Int
  | 0, _ => []
  | n + 1, first => if 0 < first then first :: members next n (next first) else []

theorem members_of_linked {next : Int → Int} {l : List Int} :
    ∀ {n : Nat} {first : Int}, Linked next first l → l.length ≤ n → members next n first = l := by
  induction l with
  | nil =>
      intro n first linked _
      have negative := Linked.nil_iff.1 linked
      cases n with
      | zero => rfl
      | succ n => rw [members, if_neg (by omega)]
  | cons t l ih =>
      intro n first linked long
      obtain ⟨n, rfl⟩ : ∃ m, n = m + 1 := ⟨n - 1, by simp at long; omega⟩
      obtain ⟨rfl, positive, rest⟩ := Linked.cons_iff.1 linked
      rw [members, if_pos positive, ih rest (by simpa using long)]

end Buenos.Theory
