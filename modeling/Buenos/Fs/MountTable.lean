/-
# Fs.MountTable -- the mount table as a finite map

Sequences of `vfs_mount` and `vfs_unmount` on a table without open files, beside the map
from names to filesystems that they should be.  The map is a list of bindings: a mount
that returns VFS_OK adds one, an unmount that returns VFS_OK removes one.

`vfs_unmount` clears a row's filesystem and leaves its name.  No two rows carry one name
(`Tabled.unique`), so lookups are right in every run; but `vfs_mount` refuses a name that
a free row still carries, although nothing is mounted there (`Stale`).
`mountTable_map` says that this is the only difference.
-/
import Buenos.Fs.VfsCode
import Buenos.Fs.VfsIdle
import Buenos.Theory.Run
import Mathlib.Data.List.Basic

namespace Buenos.Fs

open Buenos.Lib Buenos.Theory

set_option autoImplicit false

variable {σ : Type}

/-! ## One call -/

@[simp] theorem findMountpoint_locks {s : Vfs σ} {t o v n : Int} (name : Name) :
    findMountpoint (s.locks t o v n) name = findMountpoint s name := rfl

theorem Vfs.Idle.setFilesystem {s : Vfs σ} (idle : s.Idle) (row : Nat) (entry : VfsEntry) :
    (s.setFilesystem row entry).Idle := ⟨idle.1, idle.2, idle.3, idle.4⟩

@[simp] theorem locks_setFilesystem {s : Vfs σ} {t o v n : Int} (row : Nat) (entry : VfsEntry) :
    (s.locks t o v n).setFilesystem row entry = (s.setFilesystem row entry).locks t o v n := rfl

@[simp] theorem freeMount_locks {s : Vfs σ} {t o v n : Int} :
    freeMount (s.locks t o v n) = freeMount s := rfl

theorem vfsMount_eq (fs : Nat) (name : Name) : vfsMount (σ := σ) fs name = (do
    Prog.assert (fun _ => name ≠ []) .assertion
    let started ← vfsStartOp
    if started ≠ VFS_OK then pure VFS_UNUSABLE
    else do
      semaphoreP .vfsTable
      match ← Prog.gets freeMount with
      | none => do
          semaphoreV .vfsTable
          leave VFS_LIMIT
      | some row => do
          match ← Prog.gets fun s => findMountpoint s name with
          | some _ => do
              semaphoreV .vfsTable
              leave VFS_ERROR
          | none => do
              Prog.modify fun s => s.setFilesystem row
                { filesystem := some fs, mountpoint := stringcopy name VFS_NAME_LENGTH }
              semaphoreV .vfsTable
              leave VFS_OK) := rfl

theorem vfsMount_idle {s : Vfs σ} (idle : s.Idle) (usable : s.vfsUsable = true) (fs : Nat)
    {name : Name} (named : name ≠ []) :
    vfsMount fs name s =
      match freeMount s, findMountpoint s name with
      | none, _ => .returned (VFS_LIMIT, s)
      | some _, some _ => .returned (VFS_ERROR, s)
      | some row, none => .returned (VFS_OK, s.setFilesystem row
          { filesystem := some fs, mountpoint := stringcopy name VFS_NAME_LENGTH }) := by
  rw [vfsMount_eq, Prog.bind_apply, Prog.assert_apply, if_pos (by simpa using named)]
  simp only [Prog.bind_apply, vfsStartOp_idle idle, usable, if_true, ne_eq, not_true_eq_false,
    if_false]
  cases free : freeMount s with
  | none => simp [Prog.bind_apply, free, leave_idle idle usable]
  | some row =>
      cases known : findMountpoint s name with
      | some other => simp [Prog.bind_apply, free, known, leave_idle idle usable]
      | none => simp [Prog.bind_apply, free, known, leave_idle (idle.setFilesystem _ _) usable]

@[simp] theorem openOn_locks {s : Vfs σ} {t o v n : Int} (fs : Nat) :
    openOn fs (s.locks t o v n) = openOn fs s := rfl

set_option maxRecDepth 20000 in
theorem vfsUnmount_eq (ops : FsOps σ) (name : Name) : vfsUnmount ops name = (do
    let started ← vfsStartOp
    if started ≠ VFS_OK then pure VFS_UNUSABLE
    else do
      semaphoreP .vfsTable
      let found ← Prog.gets fun s => findMountpoint s name
      let fs ← Prog.gets fun s => vfsGetFilesystem s name
      match found, fs with
      | some row, some fs => do
          semaphoreP .openfileTable
          match ← Prog.gets (openOn fs) with
          | some _ => do
              semaphoreV .openfileTable
              semaphoreV .vfsTable
              leave VFS_IN_USE
          | none => do
              let _ ← onFs fs ops.unmount
              Prog.modify fun s => s.setFilesystem row { s.filesystems row with filesystem := none }
              semaphoreV .openfileTable
              semaphoreV .vfsTable
              leave VFS_OK
      | _, _ => do
          semaphoreV .vfsTable
          leave VFS_NOT_FOUND) := by
  rfl

/-- Without open files `vfs_unmount` finds no reason to refuse. -/
theorem vfsUnmount_idle {s : Vfs σ} (idle : s.Idle) (usable : s.vfsUsable = true) (ops : FsOps σ)
    (closed : ∀ i, (s.files i).filesystem = none) (name : Name) :
    vfsUnmount ops name s =
      match findMountpoint s name, vfsGetFilesystem s name with
      | some row, some fs => driven s fs ops.unmount fun _ t =>
          .returned (VFS_OK, t.setFilesystem row { t.filesystems row with filesystem := none })
      | _, _ => .returned (VFS_NOT_FOUND, s) := by
  rw [vfsUnmount_eq]
  simp only [Prog.bind_apply, vfsStartOp_idle idle, usable, if_true, ne_eq, not_true_eq_false,
    if_false]
  cases found : findMountpoint s name with
  | none => simp [Prog.bind_apply, found, leave_idle idle usable]
  | some row =>
      cases volume : vfsGetFilesystem s name with
      | none => simp [Prog.bind_apply, found, volume, leave_idle idle usable]
      | some fs =>
          have unused : openOn fs s = none := by
            rw [openOn, List.find?_eq_none]
            intro i _
            simp [closed i]
          simp only [driven]
          cases ran : ops.unmount (s.internal fs) with
          | stopped why => simp [Prog.bind_apply, found, volume, unused, onFs_locks, ran]
          | returned pair =>
              simp [Prog.bind_apply, found, volume, unused, onFs_locks, ran,
                leave_idle ((idle.setInternal fs pair.2).setFilesystem _ _) usable]

/-! ## The map -/

/-- A name of 1 to 15 characters. -/
abbrev VolumeName := { name : Name // name ≠ [] ∧ name.length < VFS_NAME_LENGTH }

inductive MountCall where
  | mount (fs : Nat) (name : VolumeName)
  | unmount (name : VolumeName)

/-- The tables, and the map: the bindings that calls which returned VFS_OK have made. -/
structure MountRun (σ : Type) where
  vfs : Vfs σ
  mounted : List (Name × Nat)

/-- Run one call. -/
def MountCall.run (ops : FsOps σ) (s : Vfs σ) : MountCall → Outcome (Int × Vfs σ)
  | .mount fs name => vfsMount fs name s
  | .unmount name => vfsUnmount ops name s

/-- The bindings after a call that returned VFS_OK. -/
def MountCall.bind (mounted : List (Name × Nat)) : MountCall → List (Name × Nat)
  | .mount fs name => (name.val, fs) :: mounted
  | .unmount name => mounted.filter fun binding => binding.1 ≠ name.val

/-- Sequences of mounts and unmounts, from the tables that `vfs_init` leaves. -/
def mountSystem (ops : FsOps σ) (internal : Nat → σ) : System (MountRun σ) MountCall where
  initial s := s = { vfs := vfsInit internal, mounted := [] }
  step s c := match c.run ops s.vfs with
    | .returned (result, vfs) =>
        some { vfs := vfs, mounted := if result = VFS_OK then c.bind s.mounted else s.mounted }
    | .stopped _ => none

/-- A finite map returns VFS_OK: a mount needs a name that is not bound and room, an
unmount a name that is bound. -/
def MountCall.should (mounted : List (Name × Nat)) : MountCall → Prop
  | .mount _ name => mounted.lookup name.val = none ∧ mounted.length < CONFIG_MAX_FILESYSTEMS
  | .unmount name => mounted.lookup name.val ≠ none

/-- The call returns, and returns VFS_OK exactly when a finite map would. -/
def MountCall.Right (ops : FsOps σ) (s : MountRun σ) (c : MountCall) : Prop :=
  ∃ result vfs, c.run ops s.vfs = .returned (result, vfs) ∧ (result = VFS_OK ↔ c.should s.mounted)

/-- A mount under a name that a row without a filesystem still carries. -/
def MountCall.Stale (s : Vfs σ) : MountCall → Prop
  | .mount _ name => ∃ row < CONFIG_MAX_FILESYSTEMS,
      (s.filesystems row).filesystem = none ∧ (s.filesystems row).mountpoint = name.val
  | .unmount _ => False

/-! ## The rows and the map -/

/-- The bindings that the mount table holds. -/
def bindings (filesystems : Nat → VfsEntry) (rows : List Nat) : List (Name × Nat) :=
  rows.filterMap fun row => (filesystems row).filesystem.map fun fs =>
    ((filesystems row).mountpoint, fs)

theorem mem_bindings {filesystems : Nat → VfsEntry} {rows : List Nat} {name : Name} {fs : Nat} :
    (name, fs) ∈ bindings filesystems rows ↔ ∃ row ∈ rows,
      (filesystems row).filesystem = some fs ∧ (filesystems row).mountpoint = name := by
  rw [bindings, List.mem_filterMap]
  constructor
  · rintro ⟨row, mem, found⟩
    obtain ⟨fs', mounted, same⟩ := Option.map_eq_some_iff.1 found
    cases same
    exact ⟨row, mem, mounted, rfl⟩
  · rintro ⟨row, mem, mounted, rfl⟩
    exact ⟨row, mem, by rw [mounted]; rfl⟩

/-- Other rows do not matter. -/
theorem bindings_update_of_notMem {filesystems : Nat → VfsEntry} {rows : List Nat} {row : Nat}
    {entry : VfsEntry} (other : row ∉ rows) :
    bindings (Function.update filesystems row entry) rows = bindings filesystems rows := by
  apply List.filterMap_congr
  intro r mem
  have ne : r ≠ row := by
    rintro rfl
    exact other mem
  rw [Function.update_of_ne ne]

/-- Filling a free row adds its binding. -/
theorem bindings_fill {filesystems : Nat → VfsEntry} {rows : List Nat} {row fs : Nat} {name : Name}
    (nodup : rows.Nodup) (mem : row ∈ rows) (free : (filesystems row).filesystem = none) :
    (bindings (Function.update filesystems row { filesystem := some fs, mountpoint := name })
      rows).Perm ((name, fs) :: bindings filesystems rows) := by
  obtain ⟨before, after, rfl⟩ := List.append_of_mem mem
  have parts := List.nodup_append.1 nodup
  have notBefore : row ∉ before := fun early =>
    parts.2.2 row early row List.mem_cons_self rfl
  have notAfter : row ∉ after := (List.nodup_cons.1 parts.2.1).1
  have filled : bindings (Function.update filesystems row { filesystem := some fs, mountpoint := name })
      (before ++ row :: after) =
        bindings filesystems before ++ (name, fs) :: bindings filesystems after := by
    unfold bindings
    rw [List.filterMap_append, List.filterMap_cons]
    simp only [Function.update_self, Option.map_some]
    rw [← bindings, ← bindings, bindings_update_of_notMem notBefore,
      bindings_update_of_notMem notAfter]
    rfl
  have empty : bindings filesystems (before ++ row :: after) =
      bindings filesystems before ++ bindings filesystems after := by
    unfold bindings
    rw [List.filterMap_append, List.filterMap_cons]
    simp only [free, Option.map_none]
  rw [filled, empty]
  exact List.perm_middle

theorem bindings_length_le (filesystems : Nat → VfsEntry) (rows : List Nat) :
    (bindings filesystems rows).length ≤ rows.length := List.length_filterMap_le _ _

/-- There is room for a binding exactly when a row is free. -/
theorem bindings_length_lt {filesystems : Nat → VfsEntry} {rows : List Nat} :
    (bindings filesystems rows).length < rows.length ↔
      ∃ row ∈ rows, (filesystems row).filesystem = none := by
  induction rows with
  | nil => simp [bindings]
  | cons row rows ih =>
      cases mounted : (filesystems row).filesystem with
      | none =>
          have shorter := bindings_length_le filesystems rows
          have same : bindings filesystems (row :: rows) = bindings filesystems rows := by
            simp [bindings, mounted]
          refine iff_of_true ?_ ⟨row, List.mem_cons_self, mounted⟩
          rw [same, List.length_cons]
          omega
      | some fs =>
          have longer : bindings filesystems (row :: rows) =
              ((filesystems row).mountpoint, fs) :: bindings filesystems rows := by
            simp [bindings, mounted]
          rw [longer, List.length_cons, List.length_cons, Nat.add_lt_add_iff_right, ih]
          constructor
          · rintro ⟨r, mem, free⟩
            exact ⟨r, List.mem_cons_of_mem _ mem, free⟩
          · rintro ⟨r, mem, free⟩
            rcases List.mem_cons.1 mem with rfl | mem
            · rw [mounted] at free
              cases free
            · exact ⟨r, mem, free⟩

/-- Clearing a row removes the bindings of its name, when no other row carries it. -/
theorem bindings_clear {filesystems : Nat → VfsEntry} {rows : List Nat} {row : Nat}
    (alone : ∀ r ∈ rows, (filesystems r).mountpoint = (filesystems row).mountpoint → r = row) :
    bindings (Function.update filesystems row { filesystems row with filesystem := none }) rows =
      (bindings filesystems rows).filter fun binding =>
        binding.1 ≠ (filesystems row).mountpoint := by
  unfold bindings
  rw [List.filter_filterMap]
  apply List.filterMap_congr
  intro r mem
  by_cases same : r = row
  · subst same
    rw [Function.update_self]
    cases (filesystems r).filesystem <;> simp [Option.filter]
  · rw [Function.update_of_ne same]
    have other : (filesystems r).mountpoint ≠ (filesystems row).mountpoint := fun carries =>
      same (alone r mem carries)
    cases (filesystems r).filesystem <;> simp [Option.filter, other]

/-- In a list that binds each name once, a lookup finds what is bound. -/
theorem lookup_eq_some_of_functional {α β : Type} [BEq α] [LawfulBEq α] {l : List (α × β)}
    (functional : ∀ k v w, (k, v) ∈ l → (k, w) ∈ l → v = w) (k : α) (v : β) :
    l.lookup k = some v ↔ (k, v) ∈ l := by
  induction l with
  | nil => simp
  | cons binding l ih =>
      obtain ⟨k', v'⟩ := binding
      have tail := ih fun k v w first second =>
        functional k v w (List.mem_cons_of_mem _ first) (List.mem_cons_of_mem _ second)
      rw [List.lookup_cons]
      by_cases here : k = k'
      · subst here
        simp only [beq_self_eq_true, Option.some.injEq]
        constructor
        · rintro rfl
          exact List.mem_cons_self
        · intro mem
          exact functional k v' v List.mem_cons_self mem
      · rw [beq_eq_false_iff_ne.2 here]
        simp [tail, here]

/-! ## The invariant of a run -/

/-- The map holds the bindings of the rows, and no name is in two rows, mounted or not. -/
structure MountRun.Tabled (s : MountRun σ) : Prop where
  idle : s.vfs.Idle
  usable : s.vfs.vfsUsable = true
  closed : ∀ i, (s.vfs.files i).filesystem = none
  unique : ∀ a < CONFIG_MAX_FILESYSTEMS, ∀ b < CONFIG_MAX_FILESYSTEMS,
    (s.vfs.filesystems a).mountpoint ≠ [] →
      (s.vfs.filesystems a).mountpoint = (s.vfs.filesystems b).mountpoint → a = b
  named : ∀ row < CONFIG_MAX_FILESYSTEMS, (s.vfs.filesystems row).filesystem ≠ none →
    (s.vfs.filesystems row).mountpoint ≠ []
  bound : s.mounted.Perm (bindings s.vfs.filesystems (List.range CONFIG_MAX_FILESYSTEMS))

theorem tabled_start (internal : Nat → σ) :
    MountRun.Tabled { vfs := vfsInit internal, mounted := [] } where
  idle := idle_vfsInit internal
  usable := rfl
  closed _ := rfl
  unique _ _ _ _ named _ := absurd rfl named
  named _ _ mounted := absurd rfl mounted
  bound := by
    have empty : bindings (vfsInit internal).filesystems (List.range CONFIG_MAX_FILESYSTEMS) = [] := by
      unfold bindings
      exact List.filterMap_eq_nil_iff.2 fun _ _ => rfl
    rw [empty]

/-- The scan stops at a row that carries the name. -/
theorem findMountpoint_carries {s : Vfs σ} {name : Name} {row : Nat}
    (found : findMountpoint s name = some row) : (s.filesystems row).mountpoint = name := by
  unfold findMountpoint at found
  have hit := List.find?_some found
  exact (stringcmp_eq_zero _ _).1 (of_decide_eq_true hit)

section Lookups

variable {s : MountRun σ} (tabled : s.Tabled)
include tabled

theorem mem_mounted {name : Name} {fs : Nat} :
    (name, fs) ∈ s.mounted ↔ ∃ row < CONFIG_MAX_FILESYSTEMS,
      (s.vfs.filesystems row).filesystem = some fs ∧ (s.vfs.filesystems row).mountpoint = name := by
  rw [tabled.bound.mem_iff, mem_bindings]
  simp only [List.mem_range]

theorem mounted_functional (name : Name) (fs fs' : Nat) (first : (name, fs) ∈ s.mounted)
    (second : (name, fs') ∈ s.mounted) : fs = fs' := by
  obtain ⟨a, inA, mountedA, carriesA⟩ := (mem_mounted tabled).1 first
  obtain ⟨b, inB, mountedB, carriesB⟩ := (mem_mounted tabled).1 second
  have named := tabled.named a inA (by rw [mountedA]; exact Option.some_ne_none fs)
  have same := tabled.unique a inA b inB named (carriesA.trans carriesB.symm)
  subst same
  rw [mountedA] at mountedB
  exact Option.some.inj mountedB

theorem lookup_mounted {name : Name} {fs : Nat} :
    s.mounted.lookup name = some fs ↔ (name, fs) ∈ s.mounted :=
  lookup_eq_some_of_functional (mounted_functional tabled) name fs

/-- The scan finds the row that carries a name, whether or not it is mounted. -/
theorem findMountpoint_eq {name : Name} (named : name ≠ []) {row : Nat} :
    findMountpoint s.vfs name = some row ↔
      row < CONFIG_MAX_FILESYSTEMS ∧ (s.vfs.filesystems row).mountpoint = name := by
  constructor
  · intro found
    have mem := List.mem_of_find?_eq_some found
    exact ⟨List.mem_range.1 mem, findMountpoint_carries found⟩
  · rintro ⟨bound, carries⟩
    cases found : findMountpoint s.vfs name with
    | none =>
        have missed := List.find?_eq_none.1 found row (List.mem_range.2 bound)
        exact absurd (decide_eq_true ((stringcmp_eq_zero _ _).2 carries)) missed
    | some other =>
        have mem := List.mem_range.1 (List.mem_of_find?_eq_some found)
        have same := findMountpoint_carries found
        rw [tabled.unique other mem row bound (same ▸ named) (same.trans carries.symm)]

/-- **A lookup in the table is a lookup in the map.** -/
theorem vfsGetFilesystem_eq {name : Name} (named : name ≠ []) :
    vfsGetFilesystem s.vfs name = s.mounted.lookup name := by
  apply Option.ext
  intro fs
  rw [lookup_mounted tabled, mem_mounted tabled, vfsGetFilesystem, Option.bind_eq_some_iff]
  constructor
  · rintro ⟨row, found, mounted⟩
    obtain ⟨bound, carries⟩ := (findMountpoint_eq tabled named).1 found
    exact ⟨row, bound, mounted, carries⟩
  · rintro ⟨row, bound, mounted, carries⟩
    exact ⟨row, (findMountpoint_eq tabled named).2 ⟨bound, carries⟩, mounted⟩

/-- There is a free row exactly while the map has room. -/
theorem freeMount_isSome :
    (freeMount s.vfs).isSome ↔ s.mounted.length < CONFIG_MAX_FILESYSTEMS := by
  rw [tabled.bound.length_eq]
  have room : (bindings s.vfs.filesystems (List.range CONFIG_MAX_FILESYSTEMS)).length <
      (List.range CONFIG_MAX_FILESYSTEMS).length ↔ _ := bindings_length_lt
  rw [List.length_range] at room
  rw [room, freeMount, List.find?_isSome]
  simp

/-- Nothing is bound to a name that no row carries. -/
theorem lookup_of_unknown {name : Name} (named : name ≠ [])
    (unknown : findMountpoint s.vfs name = none) : s.mounted.lookup name = none := by
  rw [← vfsGetFilesystem_eq tabled named, vfsGetFilesystem, unknown]
  rfl

/-- A mount in a free row under a name that no row carries. -/
theorem tabled_mounted {name : Name} (named : name ≠ []) {row fs : Nat}
    (free : freeMount s.vfs = some row) (unknown : findMountpoint s.vfs name = none) :
    MountRun.Tabled
      { vfs := s.vfs.setFilesystem row { filesystem := some fs, mountpoint := name }
        mounted := (name, fs) :: s.mounted } := by
  have mem := List.mem_of_find?_eq_some free
  have empty := List.find?_some free
  have other : ∀ r < CONFIG_MAX_FILESYSTEMS, (s.vfs.filesystems r).mountpoint ≠ name := by
    intro r bound carries
    rw [(findMountpoint_eq tabled named).2 ⟨bound, carries⟩] at unknown
    cases unknown
  refine ⟨tabled.idle.setFilesystem _ _, tabled.usable, tabled.closed, ?_, ?_, ?_⟩
  · intro a inA b inB known same
    simp only [Vfs.setFilesystem, Function.update_apply] at known same
    split at same <;> split at same
    · rename_i ha hb
      rw [ha, hb]
    · exact absurd same.symm (other b inB)
    · exact absurd same (other a inA)
    · rw [if_neg ‹_›] at known
      exact tabled.unique a inA b inB known same
  · intro r inR mounted
    simp only [Vfs.setFilesystem, Function.update_apply] at mounted ⊢
    split
    · exact named
    · rw [if_neg ‹_›] at mounted
      exact tabled.named r inR mounted
  · have filled : (bindings (Function.update s.vfs.filesystems row
        { filesystem := some fs, mountpoint := name }) _).Perm _ :=
      bindings_fill List.nodup_range mem (of_decide_eq_true empty)
    exact (tabled.bound.cons _).trans filled.symm

/-- An unmount of the row that carries a name; the driver has changed its own state. -/
theorem tabled_unmounted {name : Name} (named : name ≠ []) {row : Nat} (fs : Nat) (d : σ)
    (found : findMountpoint s.vfs name = some row) :
    MountRun.Tabled
      { vfs := (s.vfs.setInternal fs d).setFilesystem row
          { s.vfs.filesystems row with filesystem := none }
        mounted := s.mounted.filter fun binding => binding.1 ≠ name } := by
  obtain ⟨bound, carries⟩ := (findMountpoint_eq tabled named).1 found
  have kept : ∀ r, (Function.update s.vfs.filesystems row
      { s.vfs.filesystems row with filesystem := none } r).mountpoint =
        (s.vfs.filesystems r).mountpoint := by
    intro r
    rw [Function.update_apply]
    split
    · rename_i here
      rw [here]
    · rfl
  refine ⟨(tabled.idle.setInternal _ _).setFilesystem _ _, tabled.usable, tabled.closed, ?_, ?_, ?_⟩
  · intro a inA b inB known same
    simp only [Vfs.setFilesystem, Vfs.setInternal, kept] at known same
    exact tabled.unique a inA b inB known same
  · intro r inR mounted
    simp only [Vfs.setFilesystem, Vfs.setInternal, kept]
    simp only [Vfs.setFilesystem, Vfs.setInternal, Function.update_apply] at mounted
    split at mounted
    · exact absurd rfl mounted
    · exact tabled.named r inR mounted
  · have alone : ∀ r ∈ List.range CONFIG_MAX_FILESYSTEMS,
        (s.vfs.filesystems r).mountpoint = (s.vfs.filesystems row).mountpoint → r = row :=
      fun r mem same =>
        (tabled.unique row bound r (List.mem_range.1 mem) (carries ▸ named) same.symm).symm
    have cleared := bindings_clear alone
    rw [carries] at cleared
    simp only [Vfs.setFilesystem, Vfs.setInternal]
    rw [cleared]
    exact tabled.bound.filter _

end Lookups

/-! ## Every run -/

section Runs

variable {ops : FsOps σ} {internal : Nat → σ}

theorem VolumeName.stringcopy_eq (name : VolumeName) :
    stringcopy name.val VFS_NAME_LENGTH = name.val := by
  apply List.take_of_length_le
  have short := name.property.2
  omega

theorem tabled_step {s t : MountRun σ} (tabled : s.Tabled) (c : MountCall)
    (taken : (mountSystem ops internal).step s c = some t) : t.Tabled := by
  obtain ⟨idle, usable, closed, -, -, -⟩ := id tabled
  cases c with
  | mount fs name =>
      simp only [mountSystem, MountCall.run, MountCall.bind] at taken
      rw [vfsMount_idle idle usable fs name.property.1, name.stringcopy_eq] at taken
      cases free : freeMount s.vfs with
      | none =>
          rw [free] at taken
          cases taken
          exact tabled
      | some row =>
          cases known : findMountpoint s.vfs name.val with
          | some other =>
              rw [free, known] at taken
              cases taken
              exact tabled
          | none =>
              rw [free, known] at taken
              cases taken
              exact tabled_mounted tabled name.property.1 free known
  | unmount name =>
      simp only [mountSystem, MountCall.run, MountCall.bind] at taken
      rw [vfsUnmount_idle idle usable ops closed name.val] at taken
      cases found : findMountpoint s.vfs name.val with
      | none =>
          rw [found] at taken
          cases taken
          exact tabled
      | some row =>
          cases volume : vfsGetFilesystem s.vfs name.val with
          | none =>
              rw [found, volume] at taken
              cases taken
              exact tabled
          | some fs =>
              rw [found, volume] at taken
              simp only [driven] at taken
              cases ran : ops.unmount (s.vfs.internal fs) with
              | stopped why =>
                  rw [ran] at taken
                  cases taken
              | returned pair =>
                  rw [ran] at taken
                  cases taken
                  exact tabled_unmounted tabled name.property.1 fs pair.2 found

theorem tabled_reachable {s : MountRun σ} (reached : (mountSystem ops internal).Reachable s) : s.Tabled := by
  apply reached.invariant
  · rintro s rfl
    exact tabled_start _
  · intro s c t tabled taken
    exact tabled_step tabled c taken

/-- A mount does what a map would, unless its name is that of a row without filesystem. -/
theorem mount_right_iff {s : MountRun σ} (tabled : s.Tabled) (fs : Nat) (name : VolumeName) :
    (MountCall.mount fs name).Right ops s ↔ ¬(MountCall.mount fs name).Stale s.vfs := by
  obtain ⟨named, -⟩ := name.property
  have room := freeMount_isSome tabled
  have ran := vfsMount_idle tabled.idle tabled.usable fs named
  cases free : freeMount s.vfs with
  | none =>
      rw [free] at ran room
      have full : ¬s.mounted.length < CONFIG_MAX_FILESYSTEMS := fun less => by simpa using room.2 less
      refine iff_of_true ⟨VFS_LIMIT, s.vfs, ran, iff_of_false (by decide) fun should => full should.2⟩ ?_
      rintro ⟨row, bound, unused, -⟩
      have missed := List.find?_eq_none.1 free row (List.mem_range.2 bound)
      exact missed (decide_eq_true unused)
  | some row =>
      rw [free] at ran room
      have less := room.1 rfl
      cases known : findMountpoint s.vfs name.val with
      | none =>
          rw [known] at ran
          refine iff_of_true ⟨VFS_OK, _, ran, iff_of_true rfl ⟨?_, less⟩⟩ ?_
          · exact lookup_of_unknown tabled named known
          · rintro ⟨other, bound, -, carries⟩
            rw [(findMountpoint_eq tabled named).2 ⟨bound, carries⟩] at known
            cases known
      | some other =>
          rw [known] at ran
          obtain ⟨bound, carries⟩ := (findMountpoint_eq tabled named).1 known
          have looked := vfsGetFilesystem_eq tabled named
          rw [vfsGetFilesystem, known] at looked
          change (s.vfs.filesystems other).filesystem = s.mounted.lookup name.val at looked
          constructor
          · rintro ⟨result, vfs, ran', agree⟩ ⟨r, inR, unused, carriesR⟩
            have found := (findMountpoint_eq tabled named).2 ⟨inR, carriesR⟩
            rw [known] at found
            cases found
            rw [MountCall.run, ran] at ran'
            cases ran'
            exact absurd (agree.2 ⟨looked ▸ unused, less⟩) (by decide)
          · intro fresh
            refine ⟨VFS_ERROR, s.vfs, ran, iff_of_false (by decide) ?_⟩
            rintro ⟨unbound, -⟩
            exact fresh ⟨other, bound, looked.trans unbound, carries⟩

/-- An unmount always does what a map would. -/
theorem unmount_right {s : MountRun σ} (tabled : s.Tabled)
    (returns : ∀ d, ∃ r d', ops.unmount d = .returned (r, d')) (name : VolumeName) :
    (MountCall.unmount name).Right ops s := by
  obtain ⟨named, -⟩ := name.property
  have looked := vfsGetFilesystem_eq tabled named
  have ran := vfsUnmount_idle tabled.idle tabled.usable ops tabled.closed name.val
  cases volume : vfsGetFilesystem s.vfs name.val with
  | none =>
      rw [volume] at ran looked
      refine ⟨VFS_NOT_FOUND, s.vfs, ?_, iff_of_false (by decide) fun should => should looked.symm⟩
      rw [MountCall.run, ran]
      cases findMountpoint s.vfs name.val <;> rfl
  | some fs =>
      rw [volume] at ran looked
      have bound : s.mounted.lookup name.val ≠ none := by
        rw [← looked]
        exact Option.some_ne_none fs
      obtain ⟨row, found, -⟩ := Option.bind_eq_some_iff.1 volume
      obtain ⟨r, d, done⟩ := returns (s.vfs.internal fs)
      rw [found] at ran
      simp only [driven, done] at ran
      exact ⟨VFS_OK, _, ran, iff_of_true rfl bound⟩

/-- **The mount table is a map, except for the names that free rows still carry.**  After
every run a lookup is a lookup in the map, and a call does what the map would exactly when
it does not mount under the old name of a row that is now free. -/
theorem mountTable_map (ops : FsOps σ) (internal : Nat → σ)
    (returns : ∀ d, ∃ r d', ops.unmount d = .returned (r, d')) (s : MountRun σ)
    (reached : (mountSystem ops internal).Reachable s) :
    (∀ name : VolumeName, vfsGetFilesystem s.vfs name.val = s.mounted.lookup name.val) ∧
      ∀ c : MountCall, c.Right ops s ↔ ¬c.Stale s.vfs := by
  have tabled := tabled_reachable reached
  refine ⟨fun name => vfsGetFilesystem_eq tabled name.property.1, fun c => ?_⟩
  cases c with
  | mount fs name => exact mount_right_iff tabled fs name
  | unmount name => exact iff_of_true (unmount_right tabled returns name) id

end Runs

/-! ## A name that is used twice -/

/-- A driver whose unmount only answers. -/
def quietOps : FsOps Unit where
  unmount := pure VFS_OK
  openFile _ := pure VFS_NOT_SUPPORTED
  close _ := pure VFS_OK
  read _ _ _ := pure (VFS_NOT_SUPPORTED, [])
  write _ _ _ _ := pure VFS_NOT_SUPPORTED
  create _ _ := pure VFS_NOT_SUPPORTED
  remove _ := pure VFS_NOT_SUPPORTED
  getfree := pure VFS_NOT_SUPPORTED
  filecount _ := pure VFS_NOT_SUPPORTED
  file _ _ := pure (VFS_NOT_SUPPORTED, [])

/-- The volume "d". -/
def volumeD : VolumeName := ⟨[⟨0x64, by decide⟩], by decide, by decide⟩

/-- Nothing is mounted, and mounting "d" is refused. -/
def refuses (s : MountRun Unit) : Bool :=
  match vfsMount 0 volumeD.val s.vfs with
  | .returned (result, _) => result = VFS_ERROR && s.mounted.isEmpty
  | .stopped _ => false

theorem refuses_after_unmount :
    (((mountSystem quietOps fun _ => ()).exec { vfs := vfsInit fun _ => (), mounted := [] }
      [.mount 0 volumeD, .unmount volumeD]).any refuses) = true := by
  decide +kernel

/-- Mounted, unmounted, and refused when it is mounted again, although nothing is mounted. -/
theorem mountTable_refuses : ∃ s, (mountSystem quietOps fun _ => ()).Reachable s ∧
    s.mounted = [] ∧ ∃ vfs, vfsMount 0 volumeD.val s.vfs = .returned (VFS_ERROR, vfs) := by
  obtain ⟨s, ran, refused⟩ := (Option.any_eq_true _ _).1 refuses_after_unmount
  refine ⟨s, (System.Reachable.start rfl).exec ran, ?_⟩
  unfold refuses at refused
  split at refused
  · rename_i result vfs mounted
    simp only [Bool.and_eq_true, decide_eq_true_eq, List.isEmpty_iff] at refused
    exact ⟨refused.2, vfs, refused.1 ▸ mounted⟩
  · cases refused

/-- The volumes "e" and "f". -/
def volumeE : VolumeName := ⟨[⟨0x65, by decide⟩], by decide, by decide⟩

theorem letterF_nonzero : (0x66 : Byte) ≠ 0 := by decide

def volumeF : VolumeName := ⟨[⟨0x66, letterF_nonzero⟩], by decide, by decide⟩

/-- After two mounts and an unmount only "e" is found; "f" can be mounted, and "d", whose name the
free row still carries, cannot. -/
theorem mountTable_map_quiet :
    ∃ s, (mountSystem quietOps fun _ => ()).exec { vfs := vfsInit fun _ => (), mounted := [] }
        [.mount 0 volumeD, .mount 1 volumeE, .unmount volumeD] = some s ∧
      vfsGetFilesystem s.vfs volumeE.val = some 1 ∧ vfsGetFilesystem s.vfs volumeD.val = none ∧
      (MountCall.mount 0 volumeF).Right quietOps s ∧ ¬(MountCall.mount 0 volumeD).Right quietOps s := by
  have ran : ((mountSystem quietOps fun _ => ()).exec { vfs := vfsInit fun _ => (), mounted := [] }
      [.mount 0 volumeD, .mount 1 volumeE, .unmount volumeD]).map (fun s =>
        (s.mounted, (s.vfs.filesystems 0).filesystem, (s.vfs.filesystems 0).mountpoint,
          decide (∃ row < CONFIG_MAX_FILESYSTEMS, (s.vfs.filesystems row).filesystem = none ∧
            (s.vfs.filesystems row).mountpoint = volumeF.val))) =
      some ([(volumeE.val, 1)], none, volumeD.val, false) := by decide +kernel
  obtain ⟨s, ran, parts⟩ := Option.map_eq_some_iff.1 ran
  simp only [Prod.mk.injEq, decide_eq_false_iff_not] at parts
  obtain ⟨mounted, free, carries, fresh⟩ := parts
  obtain ⟨lookups, rights⟩ := mountTable_map quietOps (fun _ => ()) (fun d => ⟨VFS_OK, d, rfl⟩) s
    ((System.Reachable.start rfl).exec ran)
  refine ⟨s, ran, ?_, ?_, (rights _).2 fresh, fun right => (rights _).1 right ⟨0, by decide, free, carries⟩⟩
  · rw [lookups, mounted]
    decide
  · rw [lookups, mounted]
    decide

end Buenos.Fs
