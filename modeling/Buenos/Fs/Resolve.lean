/-
# Fs.Resolve -- which entry a name leads to

`open` and `remove` look for the first entry with a name and do not look whether it is in
use.  `Resolves` is what they should do: the used entry with the name is found, and a name
that no used entry has is refused, with the volume as it was.

Over every run an unused entry has no name and a used one has one of its own (`Distinct`), so
the searches go wrong for the empty name only, and only while an entry is unused
(`resolves_iff`).  The parser of pathnames lets that name through: `[volume]` opens block 0,
and its removal frees the header and what the header's words name (`resolves_empty`).
-/
import Buenos.Fs.FlatRuns

namespace Buenos.Fs

open Buenos.Lib Buenos.Theory

set_option autoImplicit false

/-! ## Directories over a run -/

/-- The calls that the two drivers are asked to make: a file is given a name that its entry
holds, and the empty name is not removed while an entry is unused. -/
def TfsOp.Sound (md : Block) : TfsOp → Prop
  | .create filename _ => filename.length ≤ 15
  | .remove filename => Sought md filename
  | _ => True

theorem TfsOp.Sound.removable {op : TfsOp} {md : Block} (sound : op.Sound md) :
    op.Removable md := by
  cases op <;> first | exact sound | trivial

/-- Files have names, and no two have the same. -/
structure Distinct (md : Block) : Prop where
  unique : Unique md
  named : ∀ j, Used md j → entryName md j ≠ []

/-- What a call does to the directory. -/
inductive EntryChange (md md' : Block) : Prop
  | same : md' = md → EntryChange md md'
  | stored {filename : Name} {j : Nat} {inode : Word} :
      filename.length ≤ 15 → findEntry md filename = none → entryInode md j = 0 →
      EntrySet md md' j (stringcopy filename FLATFS_FILENAME_MAX) inode → EntryChange md md'
  | cleared {j : Nat} : EntrySet md md' j [] 0 → EntryChange md md'

section Directories

variable {md md' : Block} {filename : Name} {j : Nat}

/-- The empty name is that of every unused entry, so it is not given to a file. -/
theorem nonempty_of_absent (blanked : Blanked md) (inside : j < 25)
    (unused : entryInode md j = 0) (absent : findEntry md filename = none) : filename ≠ [] := by
  intro empty
  apply findEntry_none.1 absent j inside
  rw [empty]
  exact blanked j inside unused

theorem EntryChange.distinct (blanked : Blanked md) (distinct : Distinct md)
    (change : EntryChange md md') : Distinct md' := by
  cases change with
  | same kept => rw [kept]; exact distinct
  | @stored filename j inode short absent unused set =>
      have whole : stringcopy filename FLATFS_FILENAME_MAX = filename :=
        List.take_of_length_le short
      rw [whole] at set
      constructor
      · exact @EntrySet.unique_store (fun _ => md) (fun _ => md') _ _ _ set
          (findEntry_none.1 absent) distinct.unique
      · intro k used
        by_cases same : k = j
        · rw [same, set.name]
          exact nonempty_of_absent blanked set.inside unused absent
        · rw [set.names k used.1 same]
          exact distinct.named k ⟨used.1, by rw [← set.inodes k used.1 same]; exact used.2⟩
  | @cleared j set =>
      constructor
      · exact @EntrySet.unique_clear (fun _ => md) (fun _ => md') _ _ set distinct.unique
      · intro k used
        have other : k ≠ j := fun same => used.2 (same ▸ set.inode)
        rw [set.names k used.1 other]
        exact distinct.named k ⟨used.1, by rw [← set.inodes k used.1 other]; exact used.2⟩

theorem distinct_of_unused (unused : ∀ j, ¬ Used md j) : Distinct md where
  unique := fun j _ used => absurd used (unused j)
  named := fun j used => absurd used (unused j)

/-- In a full directory no entry has the empty name. -/
theorem Distinct.full_absent (distinct : Distinct md) (full : Full md) :
    findEntry md [] = none :=
  findEntry_none.2 fun j inside => distinct.named j (full j inside)

end Directories

theorem Change.entries {n : Nat} {blocks blocks' : Nat → Block} (image : Image n blocks)
    (change : Change n blocks blocks') : EntryChange (blocks 2) (blocks' 2) := by
  cases change with
  | same kept => exact .same (by rw [kept])
  | created short created =>
      exact .stored short created.absent created.stored.free created.stored.directory
  | removed cleared => exact .cleared cleared.directory
  | written written => exact .same (written.kept_system image).2

theorem FlatChange.entries {n : Nat} {blocks blocks' : Nat → Block} {op : TfsOp}
    (image : FlatImage n blocks) (sound : op.Sound (blocks 2))
    (change : FlatChange n blocks blocks' op) : EntryChange (blocks 2) (blocks' 2) := by
  cases change with
  | kept same => exact .same (same 2 (image.held.reserved 2 (by decide)))
  | created created => exact .stored sound created.absent created.free created.directory
  | removed _ cleared => exact .cleared cleared.directory
  | written written _ => exact .same written.directory

/-! ## The calls of TFS -/

section Tfs

variable {s : Tfs} (ready : s.Ready) (free : 0 < s.lock) (room : 3 ≤ s.totalblocks)

include ready free room

/-- `tfs_open`, which changes nothing. -/
theorem tfsOpen_ran (filename : Name) :
    ∃ t, Volume.Unchanged s t ∧
      ((findEntry (s.blocks 2) filename = none ∧
        tfsOpen filename s = .returned (VFS_NOT_FOUND, t)) ∨
      ∃ j, findEntry (s.blocks 2) filename = some j ∧
        tfsOpen filename s = .returned (toInt32 (entryInode (s.blocks 2) j).toNat, t)) := by
  refine ⟨_, Volume.Unchanged.unlock ⟨.didRead 2 .md, rfl⟩, ?_⟩
  rw [tfsOpen, Prog.bind_of_returned (Volume.lockP_free free),
    Prog.bind_of_returned (Volume.loadDirectory ready.locked room)]
  simp only [if_true, Prog.bind_gets_apply, Volume.didRead_buffer, Function.update_self,
    Volume.locked_blocks]
  cases findEntry (s.blocks 2) filename with
  | none => exact .inl ⟨rfl, rfl⟩
  | some j =>
      refine .inr ⟨j, rfl, ?_⟩
      dsimp only
      generalize toInt32 (entryInode (s.blocks 2) j).toNat = inode
      rfl

/-- `tfs_remove` of a name that no entry has. -/
theorem tfsRemove_none {filename : Name} (absent : findEntry (s.blocks 2) filename = none) :
    ∃ t, Volume.Unchanged s t ∧ tfsRemove filename s = .returned (VFS_NOT_FOUND, t) := by
  refine ⟨_, Volume.Unchanged.unlock ⟨.didRead 2 .md, rfl⟩, ?_⟩
  rw [tfsRemove, Prog.bind_of_returned (Volume.lockP_free free),
    Prog.bind_of_returned (Volume.loadDirectory ready.locked room)]
  simp only [if_true, Prog.bind_gets_apply, Volume.didRead_buffer, Function.update_self,
    Volume.locked_blocks, absent]
  rfl

end Tfs

/-- **One call** on a volume whose files have distinct names. -/
theorem tfs_sound_change {s t : Tfs} {op : TfsOp} {reply : TfsReply} (mounted : TfsMounted s)
    (distinct : Distinct (s.blocks 2)) (sound : op.Sound (s.blocks 2))
    (permitted : op.Permitted s) (taken : op.run s = .returned (reply, t)) :
    Volume.Same s t ∧ Change s.totalblocks s.blocks t.blocks := by
  have ⟨ready, free, room, image⟩ := mounted
  cases op with
  | create filename size =>
      rcases tfsCreate_cases ready free room image filename size with
        ⟨u, ran, kept⟩ | ⟨u, j, p, data, ran, same, created⟩
      · cases (run_int ran).symm.trans taken
        exact kept.change
      · cases (run_int ran).symm.trans taken
        exact ⟨same, .created sound created⟩
  | openFile filename =>
      obtain ⟨u, kept, opened⟩ := tfsOpen_ran ready free room filename
      have same : t = u := by
        rcases opened with ⟨-, ran⟩ | ⟨j, -, ran⟩
        · exact (Prod.mk.inj (Outcome.returned.inj (taken.symm.trans (run_int ran)))).2
        · exact (Prod.mk.inj (Outcome.returned.inj (taken.symm.trans (run_int ran)))).2
      rw [same]
      exact kept.change
  | remove filename =>
      by_cases empty : filename = []
      · obtain rfl := empty
        have full : Full (s.blocks 2) := sound.resolve_left fun nonempty => nonempty rfl
        obtain ⟨u, kept, ran⟩ := tfsRemove_none ready free room (distinct.full_absent full)
        cases (run_int ran).symm.trans taken
        exact kept.change
      · rcases tfsRemove_cases ready free room image empty with
          ⟨-, u, ran, kept⟩ | ⟨u, j, -, ran, same, cleared⟩
        · cases (run_int ran).symm.trans taken
          exact kept.change
        · cases (run_int ran).symm.trans taken
          exact ⟨same, .removed cleared⟩
  | read fileid n off => exact (Volume.tfsRead_unchanged taken).change
  | write fileid buffer n off =>
      have named : (TfsOp.write fileid buffer n off).Named := trivial
      exact tfs_change mounted named permitted taken

/-- **Runs of TFS** keep the image consistent and the names distinct. -/
theorem tfs_sound_runs {s : Tfs}
    (run : (tfsSystem NewVolume).ReachableWhen
      (fun s op => op.Sound (s.blocks 2) ∧ op.Permitted s) s) :
    TfsMounted s ∧ Distinct (s.blocks 2) := by
  refine run.invariant (I := fun s => TfsMounted s ∧ Distinct (s.blocks 2)) ?_ ?_
  · rintro s ⟨order, volumename, created⟩
    exact ⟨created.empty.mounted, distinct_of_unused created.empty.not_used⟩
  · rintro s op t ⟨mounted, distinct⟩ ⟨sound, permitted⟩ taken
    obtain ⟨reply, ran⟩ := tfsSystem_step.1 taken
    obtain ⟨same, change⟩ := tfs_sound_change mounted distinct sound permitted ran
    exact ⟨mounted.same same (change.image mounted.ready.small mounted.image),
      (change.entries mounted.image).distinct mounted.image.blanked distinct⟩

/-- **Runs of FlatFS** do so, too. -/
theorem flat_sound_runs {s : Flat}
    (run : (flatSystem FlatNew).ReachableWhen
      (fun s op => op.Sound (s.blocks 2) ∧ op.FlatPermitted s) s) :
    FlatMounted s ∧ Distinct (s.blocks 2) :=
  flat_runs (I := fun _ blocks => Distinct (blocks 2))
    (fun _ _ legal => ⟨legal.1.removable, legal.2⟩)
    (fun _ new => ⟨new.mounted, distinct_of_unused new.unused⟩)
    (fun mounted legal distinct change =>
      (change.entries mounted.image legal.1).distinct mounted.image.blanked distinct) run

/-! ## Names -/

/-- What `open` and `remove` should do with a name: the first returns the inode of the used
entry that has it, and both refuse a name that no used entry has and change no block.  A
call that went outside the bitmap block would not return. -/
structure Resolves {β : Type} (opens removes : Name → Prog (Volume β) Int) (s : Volume β)
    (filename : Name) : Prop where
  opened : ∀ j, Used (s.blocks 2) j → entryName (s.blocks 2) j = filename →
    (opens filename).Ends s fun result t => result = inodeOf s.blocks j ∧ t.blocks = s.blocks
  missed : (∀ j, Used (s.blocks 2) j → entryName (s.blocks 2) j ≠ filename) →
    (opens filename).Ends s fun result t => result = VFS_NOT_FOUND ∧ t.blocks = s.blocks
  refused : (∀ j, Used (s.blocks 2) j → entryName (s.blocks 2) j ≠ filename) →
    (removes filename).Ends s fun result t => result = VFS_NOT_FOUND ∧ t.blocks = s.blocks

section Names

variable {β : Type} {opens removes : Name → Prog (Volume β) Int} {s : Volume β} {filename : Name}

/-- **A driver whose calls answer with the first entry found** resolves a name if and only if
no unused entry has it. -/
theorem resolves_of_search (blanked : Blanked (s.blocks 2)) (distinct : Distinct (s.blocks 2))
    (inside : ∀ j, Used (s.blocks 2) j → inodeOf s.blocks j < 4096)
    (open_ : ∃ t, Volume.Unchanged s t ∧
      ((findEntry (s.blocks 2) filename = none ∧
        opens filename s = .returned (VFS_NOT_FOUND, t)) ∨
      ∃ j, findEntry (s.blocks 2) filename = some j ∧
        opens filename s = .returned (toInt32 (entryInode (s.blocks 2) j).toNat, t)))
    (remove_ : findEntry (s.blocks 2) filename = none →
      ∃ t, Volume.Unchanged s t ∧ removes filename s = .returned (VFS_NOT_FOUND, t)) :
    Resolves opens removes s filename ↔ Sought (s.blocks 2) filename := by
  constructor
  · intro resolves
    by_contra unsought
    rw [Sought, not_or, not_not] at unsought
    obtain ⟨empty, notFull⟩ := unsought
    have nameless : ∀ j, Used (s.blocks 2) j → entryName (s.blocks 2) j ≠ filename := by
      rw [empty]
      exact distinct.named
    -- some entry is unused, so the search ends at one
    obtain ⟨result, t, ran, notFound, -⟩ := resolves.missed nameless
    obtain ⟨u, -, ⟨absent, -⟩ | ⟨k, found, opened⟩⟩ := open_
    · apply notFull
      intro j less
      refine ⟨less, fun unused => findEntry_none.1 absent j less ?_⟩
      rw [empty]
      exact blanked j less unused
    · obtain ⟨less, named, -⟩ := findEntry_some found
      have unused : entryInode (s.blocks 2) k = 0 := by
        by_contra used
        exact nameless k ⟨less, used⟩ named
      have zero : result = toInt32 0 := by
        have answer := (Prod.mk.inj (Outcome.returned.inj (ran.symm.trans opened))).1
        rwa [unused] at answer
      rw [zero] at notFound
      exact absurd notFound (by decide)
  · intro sought
    have absent_of : (∀ j, Used (s.blocks 2) j → entryName (s.blocks 2) j ≠ filename) →
        findEntry (s.blocks 2) filename = none := by
      intro nameless
      cases found : findEntry (s.blocks 2) filename with
      | none => rfl
      | some k =>
          exact absurd (findEntry_some found).2.1
            (nameless k (findEntry_sought blanked sought found))
    refine ⟨fun j used named => ?_, fun nameless => ?_, fun nameless => ?_⟩
    · obtain ⟨t, kept, ⟨absent, -⟩ | ⟨k, found, ran⟩⟩ := open_
      · exact absurd named (findEntry_none.1 absent j used.1)
      · have used' := findEntry_sought blanked sought found
        obtain rfl : k = j :=
          distinct.unique k j used' used ((findEntry_some found).2.1.trans named.symm)
        refine ⟨_, t, ran, ?_, kept.disk⟩
        have small := inside k used
        unfold inodeOf at small ⊢
        exact toInt32_eq (by omega) (by omega)
    · obtain ⟨t, kept, ⟨-, ran⟩ | ⟨k, found, -⟩⟩ := open_
      · exact ⟨_, t, ran, rfl, kept.disk⟩
      · rw [absent_of nameless] at found
        cases found
    · obtain ⟨t, kept, ran⟩ := remove_ (absent_of nameless)
      exact ⟨_, t, ran, rfl, kept.disk⟩

end Names

/-- TFS. -/
theorem tfs_resolves {s : Tfs} (mounted : TfsMounted s) (distinct : Distinct (s.blocks 2))
    (filename : Name) :
    Resolves tfsOpen tfsRemove s filename ↔ Sought (s.blocks 2) filename := by
  have ⟨ready, free, room, image⟩ := mounted
  refine resolves_of_search image.blanked distinct (fun j used => ?_)
    (tfsOpen_ran ready free room filename) (tfsRemove_none ready free room)
  exact Nat.lt_of_lt_of_le (image.inode_inside used).2 ready.small

/-- FlatFS. -/
theorem flat_resolves {s : Flat} (mounted : FlatMounted s) (distinct : Distinct (s.blocks 2))
    (filename : Name) :
    Resolves flatfsOpen flatfsRemove s filename ↔ Sought (s.blocks 2) filename := by
  have ⟨ready, free, room, image⟩ := mounted
  refine resolves_of_search image.blanked distinct (fun j used => ?_)
    (flatfsOpen_ran ready free room filename) (flatfsRemove_none ready free room)
  exact Nat.lt_of_lt_of_le (image.inode_inside used).2 ready.small

/-- **Names lead to used entries**, in every directory that a run reaches, except for the
empty name while an entry is unused. -/
theorem resolves_iff (filename : Name) :
    (∀ s, (tfsSystem NewVolume).ReachableWhen
        (fun s op => op.Sound (s.blocks 2) ∧ op.Permitted s) s →
      (Resolves tfsOpen tfsRemove s filename ↔
        filename ≠ [] ∨ ∀ j < 25, Used (s.blocks 2) j)) ∧
    ∀ s, (flatSystem FlatNew).ReachableWhen
        (fun s op => op.Sound (s.blocks 2) ∧ op.FlatPermitted s) s →
      (Resolves flatfsOpen flatfsRemove s filename ↔
        filename ≠ [] ∨ ∀ j < 25, Used (s.blocks 2) j) := by
  constructor
  · intro s run
    obtain ⟨mounted, distinct⟩ := tfs_sound_runs run
    exact tfs_resolves mounted distinct filename
  · intro s run
    obtain ⟨mounted, distinct⟩ := flat_sound_runs run
    exact flat_resolves mounted distinct filename

/-! ## Volumes with unused entries -/

/-- A file is made, and the empty name is looked for. -/
def oneFileOps : List TfsOp := [.create newName oneByte, .openFile []]

theorem oneFileOps_sound : ∀ op ∈ oneFileOps, ∀ md, op.Sound md := by
  intro op mem md
  simp only [oneFileOps, List.mem_cons, List.not_mem_nil, or_false] at mem
  rcases mem with rfl | rfl
  · exact (by decide : newName.length ≤ 15)
  · trivial

theorem resolves_iff_oneFile :
    (∃ s, (tfsSystem NewVolume).exec fiveBlocks oneFileOps = some s ∧
      Resolves tfsOpen tfsRemove s newName) ∧
    ∃ s, (flatSystem FlatNew).exec tenBlocks oneFileOps = some s ∧
      Resolves flatfsOpen flatfsRemove s newName := by
  have permitted : ∀ op ∈ oneFileOps, (∀ s, op.Permitted s) ∧ ∀ s, op.FlatPermitted s := by
    intro op mem
    simp only [oneFileOps, List.mem_cons, List.not_mem_nil, or_false] at mem
    rcases mem with rfl | rfl <;> exact ⟨fun _ => trivial, fun _ => trivial⟩
  have nonempty : newName ≠ [] := by decide
  constructor
  · have ran : ((tfsSystem NewVolume).exec fiveBlocks oneFileOps).isSome := by decide +kernel
    obtain ⟨s, ran⟩ := Option.isSome_iff_exists.1 ran
    refine ⟨s, ran, ((resolves_iff newName).1 s (.exec (.start newVolume_fiveBlocks) ?_ ran)).2
      (.inl nonempty)⟩
    exact System.guarded_of_forall
      (fun op mem s => ⟨oneFileOps_sound op mem _, (permitted op mem).1 s⟩) _
  · have ran : ((flatSystem FlatNew).exec tenBlocks oneFileOps).isSome := by decide +kernel
    obtain ⟨s, ran⟩ := Option.isSome_iff_exists.1 ran
    refine ⟨s, ran, ((resolves_iff newName).2 s (.exec (.start flatNew_tenBlocks) ?_ ran)).2
      (.inl nonempty)⟩
    exact System.guarded_of_forall
      (fun op mem s => ⟨oneFileOps_sound op mem _, (permitted op mem).2 s⟩) _

/-- **The empty name** is found in an unused entry, on both volumes; its removal succeeds and
block 0 becomes free. -/
theorem resolves_empty :
    (∃ s, (tfsSystem NewVolume).Reachable s ∧ ¬ Resolves tfsOpen tfsRemove s []) ∧
    (∃ s, (flatSystem FlatNew).Reachable s ∧ ¬ Resolves flatfsOpen flatfsRemove s []) ∧
    ∃ s, (tfsSystem NewVolume).Reachable s ∧ (tfsRemove []).Ends s fun result t =>
      result = VFS_OK ∧ bitmapGet (s.blocks 1) 0 = true ∧ bitmapGet (t.blocks 1) 0 = false := by
  have unsought : ∀ {md : Block}, entryInode md 0 = 0 → ¬ Sought md [] := by
    rintro md unused (nonempty | full)
    · exact nonempty rfl
    · exact (full 0 (by decide)).2 unused
  refine ⟨⟨fiveBlocks, .start newVolume_fiveBlocks, fun resolves => ?_⟩,
    ⟨tenBlocks, .start flatNew_tenBlocks, fun resolves => ?_⟩,
    fiveBlocks, .start newVolume_fiveBlocks, ?_⟩
  · obtain ⟨mounted, distinct⟩ := tfs_sound_runs (.start newVolume_fiveBlocks)
    have unused : entryInode (fiveBlocks.blocks 2) 0 = 0 := by decide +kernel
    exact unsought unused ((tfs_resolves mounted distinct []).1 resolves)
  · obtain ⟨mounted, distinct⟩ := flat_sound_runs (.start flatNew_tenBlocks)
    exact unsought rfl ((flat_resolves mounted distinct []).1 resolves)
  · have ran : (match tfsRemove [] fiveBlocks with
        | .returned (result, t) => decide (result = VFS_OK ∧
            bitmapGet (fiveBlocks.blocks 1) 0 = true ∧ bitmapGet (t.blocks 1) 0 = false)
        | .stopped _ => false) = true := by decide +kernel
    cases outcome : tfsRemove [] fiveBlocks with
    | stopped why =>
        rw [outcome] at ran
        cases ran
    | returned pair =>
        obtain ⟨result, t⟩ := pair
        rw [outcome] at ran
        exact ⟨result, t, outcome, of_decide_eq_true ran⟩

end Buenos.Fs
