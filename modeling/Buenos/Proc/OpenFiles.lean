/-
# Proc.OpenFiles -- who owns an open file

Two tables have to stay in step: the open-file table of the VFS and the lists of
the processes.  `Balanced` is the invariant: the rows opened through
`syscall_open` and the descriptors in the lists of running processes are in
one-to-one correspondence.

`process_finish` does not look at the list of the process that ends, and
`syscall_open` closes the wrong row when the list is full.  Runs in which neither
happens (`LeavesNothing`) keep the balance.
-/
import Buenos.Proc.Isolation

namespace Buenos.Proc.Syscall

open Buenos.Lib Buenos.Fs Buenos.Theory

set_option autoImplicit false

variable {σ τ : Type}

/-- The calls of ordinary operation, in which processes close only descriptors of
their own lists. -/
def ClosesOwn (w : World σ τ) : Event → Prop
  | .call cur (.close fd) => 2 < fd → fd ∈ (w.kernel.table cur).fileList
  | .call _ .halt => False
  | _ => True

/-- A process that exits has an empty list, and one that opens a file has room in its
list or cannot open the file. -/
def LeavesNothing (ops : FsOps σ) (w : World σ τ) : Event → Prop
  | .call cur (.exit _) => (w.kernel.table cur).cFiles = 0
  | .call cur (.openFile filename) =>
      (w.kernel.table cur).cFiles < PROCESS_MAX_FILES ∨ ¬ CanOpen ops w.kernel.vfs filename
  | _ => True

/-- Each row in use that was opened through `syscall_open` is listed by exactly one
running process, and what running processes list is in use. -/
def OneOwner (w : World σ τ) : Prop :=
  (∀ row : Nat, rowUsed w.kernel row = true → w.opened row = true →
      ∃ p, (Running w.kernel.table p ∧ (row : Int) + 3 ∈ (w.kernel.table p).fileList) ∧
        ∀ q, Running w.kernel.table q ∧ (row : Int) + 3 ∈ (w.kernel.table q).fileList → q = p) ∧
    ∀ p, Running w.kernel.table p → ∀ fd ∈ (w.kernel.table p).fileList,
      ∃ row : Nat, row < CONFIG_MAX_OPEN_FILES ∧ fd = row + 3 ∧ rowUsed w.kernel row = true

structure Balanced (w : World σ τ) : Prop where
  idle : w.kernel.vfs.Idle
  usable : w.kernel.vfs.vfsUsable = true
  idle_list : ∀ p, (w.kernel.table p).state ≠ .running → (w.kernel.table p).cFiles = 0
  distinct : ∀ p, (w.kernel.table p).Distinct
  marked : ∀ row, w.opened row = true → rowUsed w.kernel row = true
  listed : ∀ p, Running w.kernel.table p → ∀ fd ∈ (w.kernel.table p).fileList,
    ∃ row : Nat, row < CONFIG_MAX_OPEN_FILES ∧ fd = row + 3 ∧ w.opened row = true
  one : ∀ p q fd, Running w.kernel.table p → Running w.kernel.table q →
    fd ∈ (w.kernel.table p).fileList → fd ∈ (w.kernel.table q).fileList → p = q
  owned : ∀ row : Nat, w.opened row = true →
    ∃ p, Running w.kernel.table p ∧ (row : Int) + 3 ∈ (w.kernel.table p).fileList

theorem Balanced.oneOwner {w : World σ τ} (inv : Balanced w) : OneOwner w := by
  refine ⟨fun row _ opened => ?_, fun p running fd member => ?_⟩
  · obtain ⟨p, running, member⟩ := inv.owned row opened
    exact ⟨p, ⟨running, member⟩, fun q own => inv.one q p _ own.1 running own.2 member⟩
  · obtain ⟨row, bound, rfl, opened⟩ := inv.listed p running fd member
    exact ⟨row, bound, rfl, inv.marked row opened⟩

theorem balanced_boot {w : World σ τ} (boot : Boot w) : Balanced w := by
  have table := boot.table.trans processInit_zeroTable
  refine ⟨boot.idle, boot.usable, ?_, ?_, ?_, ?_, ?_, ?_⟩
  · intro p _
    rw [table]; rfl
  · intro p i j low
    rw [table] at low
    exact absurd low (Nat.not_lt_zero i)
  · intro row opened
    rw [boot.opened] at opened
    cases opened
  · rintro p ⟨-, -, running⟩
    rw [table] at running
    cases running
  · rintro p q fd ⟨-, -, running⟩
    rw [table] at running
    cases running
  · intro row opened
    rw [boot.opened] at opened
    cases opened

/-! ## Steps that change no list -/

/-- The lists are as they were, and an entry with a nonempty list kept its state. -/
structure SameLists (table table' : ProcessTable) : Prop where
  cFiles : ∀ p, (table' p).cFiles = (table p).cFiles
  files : ∀ p, (table' p).files = (table p).files
  state : ∀ p, (table p).cFiles ≠ 0 → (table' p).state = (table p).state

theorem SameLists.refl (table : ProcessTable) : SameLists table table :=
  ⟨fun _ => rfl, fun _ => rfl, fun _ _ => rfl⟩

section Frame

variable {w : World σ τ} {k : Kernel σ τ}

theorem balanced_of_sameLists (inv : Balanced w) (idle : k.vfs.Idle)
    (usable : k.vfs.vfsUsable = true) (lists : SameLists w.kernel.table k.table)
    (used : ∀ row, rowUsed w.kernel row = true → rowUsed k row = true) :
    Balanced (remark w false k) := by
  have fileList : ∀ p, (k.table p).fileList = (w.kernel.table p).fileList := fun p => by
    simp only [ProcessEntry.fileList, lists.cFiles, lists.files]
  have opened : ∀ row, (remark w false k).opened row = w.opened row := by
    intro row
    cases marked : w.opened row with
    | false => simp [remark, marked]
    | true => simp [remark, marked, used row (inv.marked row marked)]
  have nonempty : ∀ p fd, fd ∈ (w.kernel.table p).fileList → (w.kernel.table p).cFiles ≠ 0 := by
    intro p fd member
    obtain ⟨i, low, -⟩ := mem_fileList.1 member
    omega
  have running : ∀ p fd, fd ∈ (w.kernel.table p).fileList →
      (Running k.table p ↔ Running w.kernel.table p) := by
    intro p fd member
    simp only [Running, lists.state p (nonempty p fd member)]
  refine ⟨idle, usable, ?_, ?_, ?_, ?_, ?_, ?_⟩
  · intro p stopped
    by_contra held
    have before : (w.kernel.table p).cFiles ≠ 0 := fun zero => held ((lists.cFiles p).trans zero)
    have same := lists.state p before
    exact before (inv.idle_list p fun running => stopped (same.trans running))
  · intro p i j low high same
    simp only [remark, lists.cFiles, lists.files] at low high same
    exact inv.distinct p i j low high same
  · intro row marked
    rw [opened] at marked
    exact used row (inv.marked row marked)
  · intro p run fd member
    simp only [remark, fileList] at run member
    obtain ⟨row, bound, rfl, marked⟩ := inv.listed p ((running p fd member).1 run) fd member
    exact ⟨row, bound, rfl, (opened row).trans marked⟩
  · intro p q fd runP runQ memberP memberQ
    simp only [remark, fileList] at runP runQ memberP memberQ
    exact inv.one p q fd ((running p fd memberP).1 runP) ((running q fd memberQ).1 runQ) memberP
      memberQ
  · intro row marked
    rw [opened] at marked
    obtain ⟨p, run, member⟩ := inv.owned row marked
    refine ⟨p, (running p _ member).2 run, ?_⟩
    simpa only [remark, fileList] using member

theorem rowUsed_of_sameRows (same : SameRows w.kernel.vfs k.vfs.files) (row : Nat) :
    rowUsed k row = rowUsed w.kernel row := by
  rw [rowUsed, rowUsed, same row]

/-- A call that takes no row marks none. -/
theorem remark_of_sameRows (same : ∀ row, rowUsed k row = rowUsed w.kernel row) :
    remark w true k = remark w false k := by
  have opened : (remark w true k).opened = (remark w false k).opened := by
    funext row
    cases used : rowUsed w.kernel row <;> simp [remark, same, used]
  exact congrArg (World.mk k) opened

end Frame

/-- An entry with an empty list may change its state. -/
theorem sameLists_update {table : ProcessTable} {p : Int} {entry : ProcessEntry}
    (cFiles : entry.cFiles = (table p).cFiles) (files : entry.files = (table p).files)
    (empty : (table p).cFiles = 0 ∨ entry.state = (table p).state) :
    SameLists table (Function.update table p entry) := by
  constructor
  · intro q
    by_cases here : q = p
    · subst here; simpa using cFiles
    · simp [here]
  · intro q
    by_cases here : q = p
    · subst here; simpa using files
    · simp [here]
  · intro q held
    by_cases here : q = p
    · subst here
      simpa using empty.resolve_left held
    · simp [here]

theorem SameLists.trans {t₁ t₂ t₃ : ProcessTable} (first : SameLists t₁ t₂)
    (second : SameLists t₂ t₃) : SameLists t₁ t₃ :=
  ⟨fun p => (second.cFiles p).trans (first.cFiles p),
    fun p => (second.files p).trans (first.files p),
    fun p held => (second.state p (by rwa [first.cFiles])).trans (first.state p held)⟩

section Tables

variable {table : ProcessTable}

theorem processSpawn_lists (empty : ∀ p, (table p).state ≠ .running → (table p).cFiles = 0)
    (cur : Int) (executable : Name) :
    (processSpawn cur executable).Keeps table fun _ table' => SameLists table table' := by
  refine .bind (Q := fun _ table' => SameLists table table') ?_ fun pid table₁ reserved => ?_
  · intro pid table₁ ran
    rcases allocProcessId_cases ran with ⟨i, -, -, free, rfl⟩ | ⟨-, rfl⟩
    · exact sameLists_update rfl rfl (Or.inl (empty pid (by simp [free])))
    · exact .refl _
  · refine .ite (.pure reserved) (.ite (fun _ _ ran => by cases ran) ?_)
    refine .bind (Q := fun _ table' => SameLists table table') ?_ fun _ _ lists => .pure lists
    intro _ table₂ ran
    cases ran
    exact reserved.trans (sameLists_update rfl rfl (Or.inr rfl))

theorem processJoin_lists (empty : ∀ p, (table p).state ≠ .running → (table p).cFiles = 0)
    (cur pid : Int) :
    (processJoin cur pid).Keeps table fun _ table' => SameLists table table' := by
  intro ret table' ran
  unfold processJoin at ran
  split at ran
  · split at ran
    · rename_i zombie
      cases ran
      have none := empty pid (by simp [zombie])
      exact sameLists_update none.symm rfl (Or.inl none)
    · cases ran
  · cases ran
    exact .refl _

theorem processFinish_lists {cur : Int} (empty : (table cur).cFiles = 0) (retval : Int) :
    SameLists table (processFinish table cur retval) :=
  sameLists_update rfl rfl (Or.inl empty)

end Tables

/-! ## Opening and closing -/

section Steps

variable (ops : FsOps σ) (gcd : Gcd τ) {w : World σ τ} {cur : Int}

theorem fileListUsable_of_running {table : ProcessTable} (running : Running table cur) :
    fileListUsable table cur = true := by
  have low := running.1
  have high := running.2.1
  simp only [fileListUsable, running.2.2]
  simp
  omega

/-- A new descriptor at the end of the caller's list. -/
def listFile (table : ProcessTable) (cur fd : Int) : ProcessTable :=
  Function.update table cur
    { table cur with
      files := Function.update (table cur).files (table cur).cFiles fd
      cFiles := (table cur).cFiles + 1 }

theorem mem_listFile {table : ProcessTable} {cur fd p fd' : Int} :
    fd' ∈ (listFile table cur fd p).fileList ↔
      fd' ∈ (table p).fileList ∨ p = cur ∧ fd' = fd := by
  by_cases here : p = cur
  · subst here
    simp only [mem_fileList, listFile, Function.update_self, true_and]
    constructor
    · rintro ⟨i, low, rfl⟩
      by_cases last : i = (table p).cFiles
      · subst last
        exact Or.inr (Function.update_self ..)
      · rw [Function.update_of_ne last]
        exact Or.inl ⟨i, by omega, rfl⟩
    · rintro (⟨i, low, rfl⟩ | rfl)
      · exact ⟨i, by omega, Function.update_of_ne (by omega) _ _⟩
      · exact ⟨(table p).cFiles, by omega, Function.update_self ..⟩
  · simp [mem_fileList, listFile, here]

theorem distinct_listFile {table : ProcessTable} {cur fd p : Int}
    (distinct : (table p).Distinct) (new : fd ∉ (table cur).fileList) :
    (listFile table cur fd p).Distinct := by
  by_cases here : p = cur
  · subst here
    intro i j low high same
    simp only [listFile, Function.update_self] at low high same
    have absent : ∀ i, i < (table p).cFiles → (table p).files i ≠ fd :=
      fun i low equal => new (mem_fileList.2 ⟨i, low, equal⟩)
    by_cases first : i = (table p).cFiles <;> by_cases second : j = (table p).cFiles
    · omega
    · rw [first, Function.update_self, Function.update_of_ne second] at same
      exact absurd same.symm (absent j (by omega))
    · rw [second, Function.update_self, Function.update_of_ne first] at same
      exact absurd same (absent i (by omega))
    · rw [Function.update_of_ne first, Function.update_of_ne second] at same
      exact distinct i j (by omega) (by omega) same
  · simpa [listFile, here] using distinct

theorem running_listFile {table : ProcessTable} {cur fd p : Int} :
    Running (listFile table cur fd) p ↔ Running table p := by
  by_cases here : p = cur
  · subst here; simp [Running, listFile]
  · simp [Running, listFile, here]

theorem listFile_idle {table : ProcessTable} {cur fd : Int}
    (empty : ∀ p, (table p).state ≠ .running → (table p).cFiles = 0) (running : Running table cur)
    (p : Int) (stopped : (listFile table cur fd p).state ≠ .running) :
    (listFile table cur fd p).cFiles = 0 := by
  by_cases here : p = cur
  · subst here
    exact absurd (by simpa [listFile] using running.2.2) stopped
  · simp only [listFile, Function.update_of_ne here] at stopped ⊢
    exact empty p stopped

/-- The row an open takes gets one owner, the caller. -/
theorem balanced_opened (inv : Balanced w) (running : Running w.kernel.table cur)
    {k : Kernel σ τ} (idle : k.vfs.Idle) (usable : k.vfs.vfsUsable = true) {row : Nat}
    (bound : row < CONFIG_MAX_OPEN_FILES) (free : rowUsed w.kernel row = false)
    (taken : rowUsed k row = true)
    (others : ∀ other, other ≠ row → rowUsed k other = rowUsed w.kernel other)
    (table : k.table = listFile w.kernel.table cur (row + 3)) : Balanced (remark w true k) := by
  have unlisted : ∀ p, Running w.kernel.table p →
      (row : Int) + 3 ∉ (w.kernel.table p).fileList := by
    intro p run member
    obtain ⟨other, -, same, marked⟩ := inv.listed p run _ member
    have := inv.marked other marked
    rw [show other = row by omega, free] at this
    cases this
  have opened : ∀ other, (remark w true k).opened other = true ↔
      other = row ∨ w.opened other = true := by
    intro other
    by_cases here : other = row
    · subst here; simp [remark, taken, free]
    · have marked := inv.marked other
      cases was : w.opened other with
      | false => cases used : rowUsed w.kernel other <;> simp [remark, others other here, was, used, here]
      | true => simp [remark, others other here, was, marked was]
  refine ⟨idle, usable, ?_, ?_, ?_, ?_, ?_, ?_⟩
  · intro p stopped
    simp only [remark, table] at stopped ⊢
    exact listFile_idle inv.idle_list running p stopped
  · intro p
    simp only [remark, table]
    exact distinct_listFile (inv.distinct p) (unlisted cur running)
  · intro other marked
    rcases (opened other).1 marked with rfl | was
    · exact taken
    · by_cases here : other = row
      · subst here; exact taken
      · exact (others other here).trans (inv.marked other was)
  · intro p run fd member
    simp only [remark, table, running_listFile, mem_listFile] at run member
    rcases member with old | ⟨rfl, rfl⟩
    · obtain ⟨other, low, rfl, marked⟩ := inv.listed p run fd old
      exact ⟨other, low, rfl, (opened other).2 (Or.inr marked)⟩
    · exact ⟨row, bound, rfl, (opened row).2 (Or.inl rfl)⟩
  · intro p q fd runP runQ memberP memberQ
    simp only [remark, table, running_listFile, mem_listFile] at runP runQ memberP memberQ
    rcases memberP with oldP | ⟨rfl, rfl⟩ <;> rcases memberQ with oldQ | ⟨rfl, same⟩
    · exact inv.one p q fd runP runQ oldP oldQ
    · exact absurd (same ▸ oldP) (unlisted p runP)
    · exact absurd oldQ (unlisted q runQ)
    · rfl
  · intro other marked
    simp only [remark, table, running_listFile, mem_listFile]
    rcases (opened other).1 marked with rfl | was
    · exact ⟨cur, running, Or.inr ⟨rfl, rfl⟩⟩
    · obtain ⟨p, run, member⟩ := inv.owned other was
      exact ⟨p, run, Or.inl member⟩

theorem processAddFile_running {table : ProcessTable} (running : Running table cur)
    (room : (table cur).cFiles < PROCESS_MAX_FILES) (fd : Int) :
    processAddFile cur fd table = .returned (0, listFile table cur fd) := by
  rw [processAddFile, if_pos (by simp [fileListUsable_of_running running, room])]
  rfl

theorem open_balanced (inv : Balanced w) (running : Running w.kernel.table cur) {filename : Name}
    (room : (w.kernel.table cur).cFiles < PROCESS_MAX_FILES ∨
      ¬ CanOpen ops w.kernel.vfs filename) :
    (syscallOpen ops cur filename : Prog (Kernel σ τ) Int).Keeps w.kernel fun _ k =>
      Balanced (remark w true k) := by
  intro ret k ran
  obtain ⟨fd, k₁, first, ran⟩ := Prog.bind_returned.1 ran
  obtain ⟨vfs, called, rfl⟩ := Prog.zoom_returned.1 first
  obtain ⟨idle, usable, rows⟩ := vfsOpen_left inv.idle ops filename _ _ called
  have able := canOpen_of_vfsOpen inv.idle ops filename _ _ called
  rw [inv.usable] at usable
  rcases rows with ⟨negative, same⟩ | ⟨row, rfl, bound, free, taken, others⟩
  · simp only [Prog.ite_apply, if_neg (by omega : ¬ 0 ≤ fd)] at ran
    cases ran
    have used := rowUsed_of_sameRows (w := w) (k := { w.kernel with vfs := vfs }) same
    rw [remark_of_sameRows used]
    exact balanced_of_sameLists inv idle usable (.refl _) fun row => by rw [used]; exact id
  · have space := room.resolve_right fun not => not (able (by omega))
    simp only [Prog.ite_apply, if_pos (by omega : (0 : Int) ≤ (row : Int))] at ran
    rw [Prog.bind_of_returned (onTable_of_returned
      (k := { w.kernel with vfs := vfs }) (processAddFile_running running space _))] at ran
    simp only [Prog.ite_apply, if_neg (by decide : ¬ (0 : Int) < 0)] at ran
    cases ran
    refine balanced_opened inv running idle usable bound ?_ ?_ ?_ rfl
    · simpa [rowUsed] using free
    · simpa [rowUsed, Option.isSome_iff_ne_none] using taken
    · intro other elsewhere
      simp only [rowUsed, others other elsewhere]

/-- The row a close frees loses its one owner. -/
theorem balanced_closed (inv : Balanced w) (running : Running w.kernel.table cur)
    {k : Kernel σ τ} (idle : k.vfs.Idle) (usable : k.vfs.vfsUsable = true) {i row : Nat}
    (inside : i < (w.kernel.table cur).cFiles) (named : (w.kernel.table cur).files i = row + 3)
    (freed : rowUsed k row = false)
    (others : ∀ other, other ≠ row → rowUsed k other = rowUsed w.kernel other)
    (table : k.table =
      Function.update w.kernel.table cur ((w.kernel.table cur).dropFile i)) :
    Balanced (remark w false k) := by
  have opened : ∀ other, (remark w false k).opened other = true ↔
      other ≠ row ∧ w.opened other = true := by
    intro other
    by_cases here : other = row
    · subst here; simp [remark, freed]
    · cases was : w.opened other with
      | false => simp [remark, was]
      | true => simp [remark, others other here, was, inv.marked other was, here]
  have member : ∀ p, Running w.kernel.table p → ∀ fd,
      fd ∈ (k.table p).fileList ↔ fd ∈ (w.kernel.table p).fileList ∧ fd ≠ row + 3 := by
    intro p run fd
    rw [table]
    by_cases here : p = cur
    · subst here
      rw [Function.update_self, mem_dropFile (inv.distinct p) inside, named]
    · rw [Function.update_of_ne here]
      refine ⟨fun old => ⟨old, fun same => here ?_⟩, And.left⟩
      exact inv.one p cur fd run running old (mem_fileList.2 ⟨i, inside, named.trans same.symm⟩)
  have state : ∀ p, (k.table p).state = (w.kernel.table p).state := by
    intro p
    rw [table]
    by_cases here : p = cur
    · subst here; simp [ProcessEntry.dropFile]
    · simp [here]
  have run : ∀ p, Running k.table p ↔ Running w.kernel.table p := fun p => by
    simp only [Running, state]
  refine ⟨idle, usable, ?_, ?_, ?_, ?_, ?_, ?_⟩
  · intro p stopped
    have before := inv.idle_list p (by simpa only [remark, state] using stopped)
    simp only [remark, table]
    by_cases here : p = cur
    · subst here; omega
    · rw [Function.update_of_ne here]
      exact before
  · intro p
    simp only [remark, table]
    by_cases here : p = cur
    · subst here
      rw [Function.update_self]
      exact distinct_dropFile (inv.distinct p) inside
    · rw [Function.update_of_ne here]
      exact inv.distinct p
  · intro other marked
    obtain ⟨elsewhere, was⟩ := (opened other).1 marked
    exact (others other elsewhere).trans (inv.marked other was)
  · intro p runP fd held
    have runP := (run p).1 runP
    obtain ⟨old, other⟩ := (member p runP fd).1 held
    obtain ⟨row', bound, rfl, marked⟩ := inv.listed p runP fd old
    exact ⟨row', bound, rfl, (opened row').2 ⟨fun same => other (by rw [same]), marked⟩⟩
  · intro p q fd runP runQ heldP heldQ
    have runP := (run p).1 runP
    have runQ := (run q).1 runQ
    exact inv.one p q fd runP runQ ((member p runP fd).1 heldP).1 ((member q runQ fd).1 heldQ).1
  · intro other marked
    obtain ⟨elsewhere, was⟩ := (opened other).1 marked
    obtain ⟨p, runP, held⟩ := inv.owned other was
    exact ⟨p, (run p).2 runP, (member p runP _).2 ⟨held, by omega⟩⟩

theorem close_balanced (inv : Balanced w) (running : Running w.kernel.table cur) {fd : Int}
    (own : 2 < fd → fd ∈ (w.kernel.table cur).fileList) :
    (syscallClose ops cur fd : Prog (Kernel σ τ) Int).Keeps w.kernel fun _ k =>
      Balanced (remark w false k) := by
  intro ret k ran
  rw [syscallClose] at ran
  by_cases low : 2 < fd
  · obtain ⟨i, inside, rfl⟩ := mem_fileList.1 (own low)
    obtain ⟨row, bound, named, -⟩ := inv.listed cur running _ (own low)
    have removed : processRemFile cur ((w.kernel.table cur).files i) w.kernel.table =
        .returned (0, Function.update w.kernel.table cur ((w.kernel.table cur).dropFile i)) := by
      rw [processRemFile, if_pos (fileListUsable_of_running running),
        remLoop_present (inv.distinct cur) inside _ 0 (Nat.zero_le i) (by omega)]
    rw [if_pos low, Prog.bind_of_returned (onTable_of_returned removed)] at ran
    simp only [Prog.ite_apply, if_neg (by decide : ¬ (0 : Int) < 0)] at ran
    obtain ⟨vfs, closed, rfl⟩ := Prog.zoom_returned.1 ran
    obtain ⟨idle, usable, rows⟩ := vfsClose_left inv.idle ops _ _ _ closed
    rcases rows with ⟨unusable, -⟩ | ⟨row', fs, found, freed, others⟩
    · exact absurd (inv.usable.symm.trans unusable) (by decide)
    · obtain ⟨same, -, -⟩ := openRow_some found
      have here : row' = row := by omega
      subst here
      refine balanced_closed inv running idle (usable.trans inv.usable) inside named ?_ ?_ rfl
      · simpa [rowUsed] using freed
      · intro other elsewhere
        simp only [rowUsed, others other elsewhere]
  · rw [if_neg low] at ran
    cases ran
    exact balanced_of_sameLists inv inv.idle inv.usable (.refl _) fun _ => id

/-- A call that works on the process table alone. -/
theorem onTable_balanced {α : Type} (inv : Balanced w) {m : Prog ProcessTable α}
    (lists : m.Keeps w.kernel.table fun _ table => SameLists w.kernel.table table) :
    (onTable m : Prog (Kernel σ τ) α).Keeps w.kernel fun _ k => Balanced (remark w false k) :=
  .zoom (lists.mono fun _ _ same =>
    balanced_of_sameLists inv inv.idle inv.usable same fun _ used => used)

/-- One event keeps the balance. -/
theorem balanced_step {w' : World σ τ} {e : Event} (inv : Balanced w) (own : ClosesOwn w e)
    (tidy : LeavesNothing ops w e) (taken : step ops gcd w e = some w') : Balanced w' := by
  cases e with
  | call cur c =>
      simp only [step] at taken
      split at taken
      · rename_i running
        obtain ⟨ret, k, ran, rfl⟩ := after_some taken
        cases quiet : c.quiet with
        | true =>
            have quietly := syscallHandle_quiet ops gcd inv.idle cur c quiet _ _ ran
            have shut : c.opens = false := by cases c <;> first | rfl | cases quiet
            rw [shut]
            refine balanced_of_sameLists inv quietly.vfs.idle
              (quietly.vfs.usable.trans inv.usable) (quietly.table ▸ .refl _) fun row used => ?_
            rwa [rowUsed_of_sameRows quietly.vfs.rows]
        | false =>
            cases c with
            | halt => exact absurd own id
            | exit retval =>
                cases ran
                exact balanced_of_sameLists inv inv.idle inv.usable (processFinish_lists tidy retval)
                  fun _ => id
            | join pid =>
                exact onTable_balanced inv (processJoin_lists inv.idle_list cur pid) _ _ ran
            | exec filename =>
                exact onTable_balanced inv (processSpawn_lists inv.idle_list cur filename) _ _ ran
            | openFile filename => exact open_balanced ops inv running tidy _ _ ran
            | close fd => exact close_balanced ops inv running own _ _ ran
            | write _ _ _ | read _ _ _ | create _ _ | delete _ | seek _ _ | filecount _ | file _ _ =>
                cases quiet
      · cases taken
  | start pid segments =>
      simp only [step] at taken
      split at taken
      · obtain ⟨ret, k, ran, rfl⟩ := after_some taken
        obtain ⟨table, idle, usable, row, free, used, others⟩ :=
          processStart_left ops inv.idle pid segments _ _ ran
        refine balanced_of_sameLists inv idle (usable.trans inv.usable) (table ▸ .refl _)
          fun other before => ?_
        by_cases here : other = row
        · subst here
          simp [rowUsed, free] at before
        · rwa [rowUsed, others other here]
      · cases taken
  | spawnFirst executable =>
      obtain ⟨ret, k, ran, rfl⟩ := after_some taken
      exact onTable_balanced inv (processSpawn_lists inv.idle_list _ executable) _ _ ran

end Steps

/-- **Open files have one owner.**  In every run in which processes close only
descriptors of their own, exit with an empty list and open files only with room in
their lists (or files that cannot be opened), the rows opened through
`syscall_open` and the descriptors of running processes correspond. -/
theorem openFiles_one_owner (ops : FsOps σ) (gcd : Gcd τ) {w : World σ τ}
    (reached : (system ops gcd).ReachableWhen
      (fun w e => ClosesOwn w e ∧ LeavesNothing ops w e) w) : OneOwner w :=
  (System.ReachableWhen.invariant (I := Balanced) (fun _ boot => balanced_boot boot)
    (fun _ _ _ inv ok taken => balanced_step ops gcd inv ok.1 ok.2 taken) reached).oneOwner

/-- Row 0 is in use and marked, and no running process lists it. -/
def rowZeroLost (w : World Unit Unit) : Bool :=
  rowUsed w.kernel 0 && w.opened 0 &&
    (List.range PROCESS_MAX_PROCESSES).all fun p =>
      !decide (Running w.kernel.table p ∧ (3 : Int) ∈ (w.kernel.table p).fileList)

theorem not_oneOwner_of_rowZeroLost {w : World Unit Unit} (lost : rowZeroLost w = true) :
    ¬ OneOwner w := by
  intro owner
  simp only [rowZeroLost, Bool.and_eq_true, List.all_eq_true, List.mem_range,
    Bool.not_eq_true', decide_eq_false_iff_not] at lost
  obtain ⟨⟨used, opened⟩, nobody⟩ := lost
  obtain ⟨p, ⟨running, member⟩, -⟩ := owner.1 0 used opened
  have low := running.1
  have high := running.2.1
  refine nobody p.toNat (by omega) ?_
  rw [Int.toNat_of_nonneg low]
  exact ⟨running, by simpa using member⟩

/-- Process 1 opens a file and exits without closing it. -/
def exitsOpen : List Event := openInChild ++ [.call 1 (.exit 0)]

set_option maxRecDepth 4000 in
/-- The row stays in use, and no running process lists it. -/
theorem exit_leaves_row :
    ¬ ∀ w, (system emptyFiles silentTty).ReachableWhen ClosesOwn w → OneOwner w := by
  intro claim
  have run : ((system emptyFiles silentTty).exec mounted exitsOpen).any rowZeroLost = true := by
    decide +kernel
  obtain ⟨w, ran, lost⟩ := (Option.any_eq_true _ _).1 run
  have guarded : (system emptyFiles silentTty).Guarded ClosesOwn mounted exitsOpen :=
    ⟨trivial, trivial, trivial, trivial, trivial⟩
  exact not_oneOwner_of_rowZeroLost lost
    (claim w ((System.ReachableWhen.start mounted_boot).exec guarded ran))

set_option maxRecDepth 4000 in
/-- Process 1 closes its file before it exits: the row is free again. -/
theorem openFiles_one_owner_child :
    ∃ w, (system emptyFiles silentTty).exec mounted
        (openInChild ++ [.call 1 (.close 3), .call 1 (.exit 0)]) = some w ∧ OneOwner w := by
  obtain ⟨w, ran⟩ : ∃ w, (system emptyFiles silentTty).exec mounted
      (openInChild ++ [.call 1 (.close 3), .call 1 (.exit 0)]) = some w :=
    Option.isSome_iff_exists.1 (by decide +kernel)
  have guarded : (system emptyFiles silentTty).Guarded
      (fun w e => ClosesOwn w e ∧ LeavesNothing emptyFiles w e) mounted
      (openInChild ++ [.call 1 (.close 3), .call 1 (.exit 0)]) :=
    ⟨⟨trivial, trivial⟩, ⟨trivial, trivial⟩, ⟨trivial, Or.inl (by decide +kernel)⟩,
      ⟨fun _ => by decide +kernel, trivial⟩, ⟨trivial, Eq.refl 0⟩, trivial⟩
  exact ⟨w, ran, openFiles_one_owner emptyFiles silentTty
    ((System.ReachableWhen.start mounted_boot).exec guarded ran)⟩

end Buenos.Proc.Syscall
