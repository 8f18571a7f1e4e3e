/-
# Fs.TfsFiles -- a TFS volume as a set of files

What the driver is for: a file has a name, a size that is fixed when it is made, and that
many bytes.  `Files` gives each fileid its file, and `FileStep` says what a call may reply
and how it changes the files: it is stated without blocks, bitmaps or directories.

`Holds blocks files` reads the files off an image.  `tfs_refines` is the refinement: in
every run from an empty volume the image stays consistent, and every call replies and
changes the files it holds as `FileStep` says.  A write leaves the bitmap and the
directory block as they are.
-/
import Buenos.Fs.TfsData
import Buenos.Theory.Run

namespace Buenos.Fs

open Buenos.Lib Buenos.Theory

set_option autoImplicit false

/-! ## Files -/

structure File where
  name : Name
  size : Int
  bytes : List Byte
  full : bytes.length = size.toNat

namespace File

/-- A new file: zeros, under the part of the name that an entry holds. -/
def zeros (filename : Name) (size : Int) : File where
  name := stringcopy filename TFS_FILENAME_MAX
  size := size
  bytes := List.replicate size.toNat 0
  full := List.length_replicate

/-- `m` bytes of `buffer` at offset `off`. -/
def overwrite (file : File) (off m : Nat) (buffer : Nat → Byte) : File where
  name := file.name
  size := file.size
  bytes := file.bytes.mapIdx fun q b => if off ≤ q ∧ q < off + m then buffer (q - off) else b
  full := by rw [List.length_mapIdx, file.full]

end File

/-- The files of a volume, by fileid. -/
abbrev Files := Nat → Option File

inductive TfsOp where
  | create (filename : Name) (size : CInt)
  | openFile (filename : Name)
  | remove (filename : Name)
  | read (fileid n off : CInt)
  | write (fileid : CInt) (buffer : Nat → Byte) (n off : CInt)

/-- The result of a call, and the bytes in the caller's buffer. -/
abbrev TfsReply := Int × List Byte

/-- **What the calls do to the files.** -/
inductive FileStep (files : Files) : TfsOp → TfsReply → Files → Prop
  | created {filename : Name} {size : CInt} {i : Nat} :
      (∀ k file, files k = some file → file.name ≠ filename) → files i = none →
      FileStep files (.create filename size) (VFS_OK, [])
        (Function.update files i (some (.zeros filename size.val)))
  | notCreated {filename : Name} {size : CInt} :
      FileStep files (.create filename size) (VFS_ERROR, []) files
  | opened {filename : Name} {i : Nat} {file : File} :
      files i = some file → file.name = filename →
      FileStep files (.openFile filename) (i, []) files
  | notFound {filename : Name} : (∀ k file, files k = some file → file.name ≠ filename) →
      FileStep files (.openFile filename) (VFS_NOT_FOUND, []) files
  | removed {filename : Name} {i : Nat} {file : File} :
      files i = some file → file.name = filename →
      FileStep files (.remove filename) (VFS_OK, []) (Function.update files i none)
  | notRemoved {filename : Name} : (∀ k file, files k = some file → file.name ≠ filename) →
      FileStep files (.remove filename) (VFS_NOT_FOUND, []) files
  | read {fileid n off : CInt} {i : Nat} {file : File} : fileid.val = i → files i = some file →
      FileStep files (.read fileid n off)
        (if 0 ≤ off.val ∧ off.val ≤ file.size then
          (min n.val (file.size - off.val), (file.bytes.drop off.val.toNat).take n.val.toNat)
        else (VFS_ERROR, [])) files
  | written {fileid : CInt} {buffer : Nat → Byte} {n off : CInt} {i : Nat} {file : File} :
      fileid.val = i → files i = some file →
      FileStep files (.write fileid buffer n off)
        (if 0 ≤ off.val ∧ off.val ≤ file.size then min n.val (file.size - off.val)
          else VFS_ERROR, [])
        (Function.update files i
          (some (file.overwrite off.val.toNat (transfer file.size n.val off.val) buffer)))

/-! ## The files of an image -/

/-- The file of entry `j`. -/
def fileOf (blocks : Nat → Block) (j : Nat) : File where
  name := entryName (blocks 2) j
  size := fileSize (blocks (inodeOf blocks j))
  bytes := fileBytes blocks (inodeOf blocks j)
  full := by rw [fileBytes, List.length_map, List.length_range]

theorem fileOf_size (blocks : Nat → Block) (j : Nat) :
    (fileOf blocks j).size = fileSize (blocks (inodeOf blocks j)) := by
  simp only [fileOf]

theorem fileOf_bytes (blocks : Nat → Block) (j : Nat) :
    (fileOf blocks j).bytes = fileBytes blocks (inodeOf blocks j) := by
  simp only [fileOf]

def Holds (blocks : Nat → Block) (files : Files) : Prop :=
  ∀ i file, files i = some file ↔
    ∃ j, Used (blocks 2) j ∧ inodeOf blocks j = i ∧ fileOf blocks j = file

/-- The files of a directory whose entry `j` has the file `content j`. -/
def Filed (blocks : Nat → Block) (content : Nat → File) (files : Files) : Prop :=
  ∀ i file, files i = some file ↔
    ∃ j, Used (blocks 2) j ∧ inodeOf blocks j = i ∧ content j = file

theorem Holds.filed {blocks : Nat → Block} {files : Files} (holds : Holds blocks files) :
    Filed blocks (fileOf blocks) files := holds

theorem Holds.unique {blocks : Nat → Block} {files files' : Files} (first : Holds blocks files)
    (second : Holds blocks files') : files = files' := by
  funext i
  apply Option.ext
  intro file
  exact (first i file).trans (second i file).symm

section Contents

variable {n : Nat} {blocks blocks' : Nat → Block} {files : Files} {i j k p : Nat}

/-- The contents of a file depend on its inode and on the blocks listed there. -/
theorem fileBytes_congr
    (covered : blocksOf (fileSize (blocks i)).toNat ≤ (tableBlocks (blocks i)).length)
    (inode : blocks' i = blocks i) (data : ∀ b ∈ tableBlocks (blocks i), blocks' b = blocks b) :
    fileBytes blocks' i = fileBytes blocks i := by
  unfold fileBytes
  rw [inode]
  apply List.map_congr_left
  intro q mem
  have place : q / 512 < (tableBlocks (blocks i)).length := by
    have := List.mem_range.1 mem
    unfold blocksOf at covered
    omega
  rw [fileByte, fileByte, inode, data _ (tableBlocks_mem place)]

/-- A file whose entry and blocks are kept is kept. -/
theorem fileOf_congr (image : Image n blocks) (used : Used (blocks 2) j)
    (name : entryName (blocks' 2) j = entryName (blocks 2) j)
    (place : inodeOf blocks' j = inodeOf blocks j)
    (kept : ∀ b ∈ slotBlocks blocks j, blocks' b = blocks b) :
    fileOf blocks' j = fileOf blocks j := by
  have inode := kept _ (Image.inode_mem used)
  have bytes := fileBytes_congr (image.covered j used) inode
    fun b mem => kept b (Image.table_mem used mem)
  unfold fileOf
  simp only [name, place, inode, bytes]

/-- **A consistent image stands for a set of files.** -/
theorem Image.holds (image : Image n blocks) : ∃ files, Holds blocks files := by
  classical
  refine ⟨fun i => if named : ∃ j, Used (blocks 2) j ∧ inodeOf blocks j = i then
    some (fileOf blocks named.choose) else none, fun i file => ?_⟩
  constructor
  · intro at_
    dsimp only at at_
    split at at_
    · rename_i named
      obtain ⟨used, place⟩ := named.choose_spec
      exact ⟨named.choose, used, place, by simpa using at_⟩
    · cases at_
  · rintro ⟨j, used, place, rfl⟩
    have named : ∃ j, Used (blocks 2) j ∧ inodeOf blocks j = i := ⟨j, used, place⟩
    obtain ⟨used', place'⟩ := named.choose_spec
    dsimp only
    rw [dif_pos named, image.inode_injective used' used (place'.trans place.symm)]

namespace Filed

variable {content content' : Nat → File} (filed : Filed blocks content files)

include filed

theorem of_used (used : Used (blocks 2) j) : files (inodeOf blocks j) = some (content j) :=
  (filed _ _).2 ⟨j, used, rfl, rfl⟩

/-- No file has the name when the search of the directory fails. -/
theorem absent (names : ∀ k, (content k).name = entryName (blocks 2) k) {filename : Name}
    (missing : findEntry (blocks 2) filename = none) :
    ∀ k file, files k = some file → file.name ≠ filename := by
  intro k file at_
  obtain ⟨j, used, -, rfl⟩ := (filed k file).1 at_
  rw [names]
  exact findEntry_none.1 missing j used.1

/-- A search that succeeds finds a file with the name. -/
theorem present (names : ∀ k, (content k).name = entryName (blocks 2) k)
    (blanked : Blanked (blocks 2)) {filename : Name} (nonempty : filename ≠ [])
    (found : findEntry (blocks 2) filename = some j) :
    Used (blocks 2) j ∧ files (inodeOf blocks j) = some (content j) ∧
      (content j).name = filename := by
  have used : Used (blocks 2) j :=
    ⟨(findEntry_some found).1, findEntry_used blanked nonempty found⟩
  exact ⟨used, filed.of_used used, (names j).trans (findEntry_some found).2.1⟩

/-- A number that is no inode is no fileid. -/
theorem vacant (unnamed : ∀ k, Used (blocks 2) k → inodeOf blocks k ≠ p) : files p = none := by
  rw [Option.eq_none_iff_forall_not_mem]
  intro file at_
  obtain ⟨k, used, place, -⟩ := (filed p file).1 at_
  exact unnamed k used place

/-- A directory that is kept, with the files of its entries. -/
theorem keep (directory : blocks' 2 = blocks 2)
    (kept : ∀ k, Used (blocks 2) k → content' k = content k) : Filed blocks' content' files := by
  intro i file
  have place : ∀ k, inodeOf blocks' k = inodeOf blocks k := fun k => by
    unfold inodeOf
    rw [directory]
  rw [filed i file, directory]
  constructor
  · rintro ⟨k, used, rfl, rfl⟩
    exact ⟨k, used, place k, kept k used⟩
  · rintro ⟨k, used, rfl, rfl⟩
    exact ⟨k, used, (place k).symm, (kept k used).symm⟩

/-- **One entry's file** is new or changed, and the others are kept. -/
theorem put (used : Used (blocks' 2) j)
    (place : Used (blocks 2) j → inodeOf blocks j = inodeOf blocks' j)
    (others : ∀ k, k ≠ j → (Used (blocks' 2) k ↔ Used (blocks 2) k))
    (kept : ∀ k, k ≠ j → Used (blocks 2) k → inodeOf blocks' k = inodeOf blocks k ∧
      inodeOf blocks k ≠ inodeOf blocks' j ∧ content' k = content k) :
    Filed blocks' content' (Function.update files (inodeOf blocks' j) (some (content' j))) := by
  intro i file
  constructor
  · intro at_
    by_cases same : i = inodeOf blocks' j
    · rw [same, Function.update_self, Option.some.injEq] at at_
      exact ⟨j, used, same.symm, at_⟩
    · rw [Function.update_of_ne same] at at_
      obtain ⟨k, old, rfl, rfl⟩ := (filed i file).1 at_
      have ne : k ≠ j := by
        rintro rfl
        exact same (place old)
      obtain ⟨there, -, content⟩ := kept k ne old
      exact ⟨k, (others k ne).2 old, there, content⟩
  · rintro ⟨k, used, rfl, rfl⟩
    by_cases same : k = j
    · rw [same, Function.update_self]
    · have old := (others k same).1 used
      obtain ⟨there, apart, content⟩ := kept k same old
      rw [there, Function.update_of_ne apart, filed.of_used old, content]

end Filed

/-- The names of the files are those of the directory. -/
theorem fileOf_name (blocks : Nat → Block) (j : Nat) :
    (fileOf blocks j).name = entryName (blocks 2) j := rfl

/-- **A file more.** -/
theorem Holds.store (image : Image n blocks) (small : n ≤ 4096) (holds : Holds blocks files)
    {name : Name} {data : List Nat} (stored : Stored n blocks blocks' j name p data) :
    files p = none ∧ Holds blocks' (Function.update files p (some (fileOf blocks' j))) := by
  have owner : ∀ k, Used (blocks 2) k → inodeOf blocks k ≠ p := by
    rintro k used rfl
    exact image.exact.unowned (stored.fresh _ List.mem_cons_self).2 k (Image.inode_mem used)
  have place := stored.inode_self small
  refine ⟨holds.filed.vacant owner, ?_⟩
  rw [← place]
  refine holds.filed.put (stored.used_self image small) (fun used => absurd used stored.not_used)
    (fun k ne => stored.directory.used_ne ne) fun k ne used =>
      ⟨stored.directory.inode_ne ne used, ?_, ?_⟩
  · rw [place]
    exact owner k used
  · exact fileOf_congr image used (stored.directory.names k used.1 ne)
      (stored.directory.inode_ne ne used) fun b mem => stored.kept_owned image mem

/-- **A file less.** -/
theorem Holds.clear (image : Image n blocks) (holds : Holds blocks files)
    (cleared : Cleared blocks blocks' j) :
    Holds blocks' (Function.update files (inodeOf blocks j) none) := by
  intro i file
  have kept : ∀ k, k ≠ j → Used (blocks 2) k → fileOf blocks' k = fileOf blocks k := by
    intro k ne used
    exact fileOf_congr image used (cleared.directory.names k used.1 ne)
      (cleared.directory.inode_ne ne used) fun b mem => cleared.kept_owned image mem
  constructor
  · intro at_
    by_cases same : i = inodeOf blocks j
    · rw [same, Function.update_self] at at_
      cases at_
    · rw [Function.update_of_ne same] at at_
      obtain ⟨k, used, place, rfl⟩ := (holds i file).1 at_
      have ne : k ≠ j := fun h => same (by rw [← place, h])
      exact ⟨k, (cleared.directory.used_ne ne).2 used, by rw [cleared.directory.inode_ne ne used, place], kept k ne used⟩
  · rintro ⟨k, used, rfl, rfl⟩
    have ne : k ≠ j := fun h => cleared.not_used (h ▸ used)
    have used := (cleared.directory.used_ne ne).1 used
    have other : inodeOf blocks k ≠ inodeOf blocks j := fun same =>
      ne (image.inode_injective used cleared.used same)
    rw [cleared.directory.inode_ne ne used, Function.update_of_ne other, holds.filed.of_used used,
      kept k ne used]

/-- A file is written. -/
structure WrittenTo (blocks blocks' : Nat → Block) (j off m : Nat) (buffer : Nat → Byte) : Prop where
  used : Used (blocks 2) j
  overlaid : Volume.Overlaid blocks blocks' (inodeOf blocks j) off m buffer

namespace WrittenTo

variable {off m : Nat} {buffer : Nat → Byte} (image : Image n blocks)
  (written : WrittenTo blocks blocks' j off m buffer)

include image written

/-- The system blocks and the inodes are kept. -/
theorem kept_system : blocks' 1 = blocks 1 ∧ blocks' 2 = blocks 2 := by
  have outside : ∀ b < 3, b ∉ tableBlocks (blocks (inodeOf blocks j)) := by
    intro b small listed
    have := (image.owned (Image.table_mem written.used listed)).1
    omega
  exact ⟨written.overlaid.kept 1 (outside 1 (by decide)),
    written.overlaid.kept 2 (outside 2 (by decide))⟩

theorem kept_inode (used : Used (blocks 2) k) :
    blocks' (inodeOf blocks k) = blocks (inodeOf blocks k) :=
  written.overlaid.kept _ (image.inode_not_listed used written.used)

theorem image' : Image n blocks' := by
  obtain ⟨bitmap, directory⟩ := written.kept_system image
  exact image.frame bitmap directory fun k used => written.kept_inode image used

omit image written in
theorem place_eq (directory : blocks' 2 = blocks 2) (k : Nat) :
    inodeOf blocks' k = inodeOf blocks k := by
  unfold inodeOf
  rw [directory]

theorem fileOf_ne (ne : k ≠ j) (used : Used (blocks 2) k) : fileOf blocks' k = fileOf blocks k := by
  obtain ⟨-, directory⟩ := written.kept_system image
  apply fileOf_congr image used (by rw [directory]) (place_eq directory k)
  intro b mem
  apply written.overlaid.kept
  intro listed
  exact ne (image.exact.owner_unique mem (Image.table_mem written.used listed))

theorem fileOf_self : fileOf blocks' j = (fileOf blocks j).overwrite off m buffer := by
  obtain ⟨-, directory⟩ := written.kept_system image
  have inode := written.kept_inode image written.used
  have place := place_eq directory j
  have bytes : fileBytes blocks' (inodeOf blocks j) =
      (fileBytes blocks (inodeOf blocks j)).mapIdx fun q b =>
        if off ≤ q ∧ q < off + m then buffer (q - off) else b := by
    apply List.ext_getElem
    · simp [fileBytes, inode]
    · intro q bound _
      have inside : q / 512 < (tableBlocks (blocks (inodeOf blocks j))).length := by
        apply image.place written.used
        simp only [fileBytes, List.length_map, List.length_range, inode] at bound
        unfold blocksOf
        omega
      simp only [fileBytes, List.getElem_map, List.getElem_range, List.getElem_mapIdx]
      rw [fileByte, inode, written.overlaid.bytes _ inside _ (by omega),
        show 512 * (q / 512) + q % 512 = q by omega]
      rfl
  unfold fileOf File.overwrite
  simp only [directory, place, inode, bytes]

/-- **A file is overwritten**, and no other changes. -/
theorem holds (holds : Holds blocks files) :
    Holds blocks' (Function.update files (inodeOf blocks j)
      (some ((fileOf blocks j).overwrite off m buffer))) := by
  obtain ⟨-, directory⟩ := written.kept_system image
  have place := place_eq directory
  rw [← written.fileOf_self image, ← place]
  refine holds.filed.put (by rw [directory]; exact written.used) (fun _ => (place j).symm)
    (fun k _ => by rw [directory]) fun k ne used => ⟨place k, ?_, written.fileOf_ne image ne used⟩
  rw [place]
  exact fun same => ne (image.inode_injective used written.used same)

end WrittenTo

end Contents

/-! ## Runs -/

def TfsOp.run : TfsOp → Prog Tfs TfsReply
  | .create filename size => do
      let result ← tfsCreate filename size
      pure (result, [])
  | .openFile filename => do
      let result ← tfsOpen filename
      pure (result, [])
  | .remove filename => do
      let result ← tfsRemove filename
      pure (result, [])
  | .read fileid n off => tfsRead fileid n off
  | .write fileid buffer n off => do
      let result ← tfsWrite fileid buffer n off
      pure (result, [])

theorem run_int {m : Prog Tfs Int} {s t : Tfs} {result : Int} (ran : m s = .returned (result, t)) :
    (do
      let result ← m
      pure (result, []) : Prog Tfs TfsReply) s = .returned ((result, []), t) := by
  rw [Prog.bind_of_returned ran]
  rfl

/-- The calls of a volume, each taken when it returns. -/
def tfsSystem (initial : Tfs → Prop) : System Tfs TfsOp where
  initial := initial
  step s op := match op.run s with
    | .returned (_, t) => some t
    | .stopped _ => none

theorem tfsSystem_step {initial : Tfs → Prop} {s t : Tfs} {op : TfsOp} :
    (tfsSystem initial).step s op = some t ↔ ∃ reply, op.run s = .returned (reply, t) := by
  unfold tfsSystem
  dsimp only
  split
  · rename_i reply u ran
    simp [ran]
  · rename_i ran
    simp [ran]

/-- A volume without files. -/
structure Empty (s : Tfs) : Prop where
  ready : s.Ready
  free : 0 < s.lock
  room : 3 ≤ s.totalblocks
  bitmap : ∀ b < 4096, bitmapGet (s.blocks 1) b = true ↔ b < 3
  directory : ∀ j < 25, entryInode (s.blocks 2) j = 0 ∧ entryName (s.blocks 2) j = []

/-- A consistent volume with its lock free. -/
structure TfsMounted (s : Tfs) : Prop where
  ready : s.Ready
  free : 0 < s.lock
  room : 3 ≤ s.totalblocks
  image : Image s.totalblocks s.blocks

theorem Empty.not_used {s : Tfs} (empty : Empty s) (j : Nat) : ¬ Used (s.blocks 2) j :=
  fun used => used.2 (empty.directory j used.1).1

theorem Empty.mounted {s : Tfs} (empty : Empty s) : TfsMounted s where
  ready := empty.ready
  free := empty.free
  room := empty.room
  image :=
    have none : ∀ j, slotBlocks s.blocks j = [] := fun j => if_neg (empty.not_used j)
    { exact :=
        { nodup := fun j => by rw [none]; exact List.nodup_nil
          apart := fun j k _ => by rw [none]; exact List.disjoint_nil_left _
          outside := fun j b mem => by rw [none] at mem; cases mem
          marked := fun b => by
            simp only [none, List.not_mem_nil, exists_false, or_false]
            constructor
            · exact fun marked => (empty.bitmap b marked.1).1 marked.2
            · exact fun small => ⟨by omega, (empty.bitmap b (by omega)).2 small⟩ }
      inside := fun j b mem => by rw [none] at mem; cases mem
      covered := fun j used => absurd used (empty.not_used j)
      blanked := fun j inside _ => (empty.directory j inside).2
      terminated := fun j inside => by
        rw [(empty.directory j inside).2]
        exact Nat.succ_pos _ }

theorem Empty.holds {s : Tfs} (empty : Empty s) : Holds s.blocks fun _ => none := by
  intro i file
  constructor
  · intro at_
    cases at_
  · rintro ⟨j, used, -⟩
    exact absurd used (empty.not_used j)

theorem TfsMounted.same {s t : Tfs} (mounted : TfsMounted s) (same : Volume.Same s t)
    (image : Image s.totalblocks t.blocks) : TfsMounted t where
  ready := mounted.ready.same same
  free := by
    rw [same.lock]
    exact mounted.free
  room := by
    rw [same.totalblocks]
    exact mounted.room
  image := by
    rw [same.totalblocks]
    exact image

theorem TfsMounted.unchanged {s t : Tfs} (mounted : TfsMounted s) (kept : Volume.Unchanged s t) :
    TfsMounted t :=
  mounted.same kept.same (by rw [kept.disk]; exact mounted.image)

/-- The fileid of a file. -/
def Handle (blocks : Nat → Block) (fileid : CInt) : Prop :=
  ∃ j, Used (blocks 2) j ∧ fileid.val = inodeOf blocks j

/-- Names are not empty, fileids are those of files, and lengths are not negative, as
`vfs_read` and `vfs_write` assert. -/
def TfsOp.Legal (blocks : Nat → Block) : TfsOp → Prop
  | .create filename _ => filename ≠ []
  | .openFile filename => filename ≠ []
  | .remove filename => filename ≠ []
  | .read fileid n _ => 0 ≤ n.val ∧ Handle blocks fileid
  | .write fileid _ n _ => 0 ≤ n.val ∧ Handle blocks fileid

def TfsOp.isWrite : TfsOp → Bool
  | .write .. => true
  | _ => false

/-- A new file holds zeros. -/
theorem fileOf_created {n : Nat} {blocks blocks' : Nat → Block} {filename : Name} {size : CInt}
    {j p : Nat} {data : List Nat} (small : n ≤ 4096)
    (created : Created n blocks blocks' filename size j p data) :
    fileOf blocks' j = .zeros filename size.val := by
  have place := created.stored.inode_self small
  have name := created.stored.directory.name
  have bytes : fileBytes blocks' p = List.replicate size.val.toNat 0 := by
    rw [List.eq_replicate_iff]
    refine ⟨by rw [fileBytes, List.length_map, List.length_range, created.size], ?_⟩
    intro b mem
    obtain ⟨q, inside, rfl⟩ := List.mem_map.1 mem
    rw [List.mem_range, created.size] at inside
    have listed : q / 512 < (tableBlocks (blocks' p)).length := by
      rw [created.stored.table, created.count]
      unfold blocksOf
      omega
    have new := tableBlocks_mem listed
    rw [created.stored.table] at new
    exact created.zeros _ new _ (Nat.mod_lt _ (by decide))
  unfold fileOf File.zeros
  simp only [name, place, created.size, bytes]

section Steps

variable {s : Tfs} {files : Files} (mounted : TfsMounted s) (holds : Holds s.blocks files)

include mounted holds

/-- **One call** of a consistent volume. -/
theorem tfs_step {op : TfsOp} (legal : op.Legal s.blocks) :
    ∃ reply t files', op.run s = .returned (reply, t) ∧ TfsMounted t ∧
      FileStep files op reply files' ∧ Holds t.blocks files' ∧
      (op.isWrite = true → t.blocks 1 = s.blocks 1 ∧ t.blocks 2 = s.blocks 2) := by
  obtain ⟨ready, free, room, image⟩ := mounted
  have notWrite : ∀ {b : Bool} {p : Prop}, b = false → b = true → p := fun no yes => by
    rw [no] at yes
    cases yes
  have still : ∀ t, Volume.Unchanged s t → TfsMounted t ∧ Holds t.blocks files := fun t kept =>
    ⟨TfsMounted.unchanged ⟨ready, free, room, image⟩ kept, by rw [kept.disk]; exact holds⟩
  cases op with
  | create filename size =>
      rcases tfsCreate_cases ready free room image filename size with
        ⟨t, ran, kept⟩ | ⟨t, j, p, data, ran, same, created⟩
      · exact ⟨_, t, files, run_int ran, (still t kept).1,
          .notCreated, (still t kept).2, notWrite rfl⟩
      · obtain ⟨vacant, more⟩ := holds.store image ready.small created.stored
        rw [fileOf_created ready.small created] at more
        exact ⟨_, t, _, run_int ran,
          TfsMounted.same ⟨ready, free, room, image⟩ same (created.stored.image' image ready.small),
          .created (holds.filed.absent (fileOf_name _) created.absent) vacant, more, notWrite rfl⟩
  | openFile filename =>
      obtain ⟨t, kept, ⟨missing, ran⟩ | ⟨j, found, ran⟩⟩ :=
        tfsOpen_cases ready free room image legal
      · exact ⟨_, t, files, run_int ran, (still t kept).1,
          .notFound (holds.filed.absent (fileOf_name _) missing), (still t kept).2, notWrite rfl⟩
      · obtain ⟨-, at_, name⟩ := holds.filed.present (fileOf_name _) image.blanked legal found
        exact ⟨_, t, files, run_int ran, (still t kept).1,
          .opened at_ name, (still t kept).2, notWrite rfl⟩
  | remove filename =>
      rcases tfsRemove_cases ready free room image legal with
        ⟨missing, t, ran, kept⟩ | ⟨t, j, found, ran, same, cleared⟩
      · exact ⟨_, t, files, run_int ran, (still t kept).1,
          .notRemoved (holds.filed.absent (fileOf_name _) missing), (still t kept).2, notWrite rfl⟩
      · obtain ⟨-, at_, name⟩ := holds.filed.present (fileOf_name _) image.blanked legal found
        exact ⟨_, t, _, run_int ran,
          TfsMounted.same ⟨ready, free, room, image⟩ same (cleared.image' image), .removed at_ name,
          holds.clear image cleared, notWrite rfl⟩
  | read fileid n off =>
      obtain ⟨nonneg, j, used, handle⟩ := legal
      obtain ⟨t, ran, kept⟩ := tfsRead_cases ready free (image.fileAt used) handle n off nonneg
      have step := @FileStep.read _ _ n off _ _ handle (holds.filed.of_used used)
      rw [fileOf_size, fileOf_bytes] at step
      exact ⟨_, t, files, ran, (still t kept).1, step, (still t kept).2, notWrite rfl⟩
  | write fileid buffer n off =>
      obtain ⟨nonneg, j, used, handle⟩ := legal
      obtain ⟨t, ran, same, overlaid⟩ :=
        tfsWrite_cases ready free (image.fileAt used) handle buffer n off nonneg
      have written := WrittenTo.mk used overlaid
      have step := @FileStep.written _ _ buffer n off _ _ handle
        (holds.filed.of_used used)
      rw [fileOf_size] at step
      exact ⟨_, t, _, run_int ran, TfsMounted.same ⟨ready, free, room, image⟩ same
        (written.image' image), step, written.holds image holds,
        fun _ => written.kept_system image⟩

end Steps

/-- **TFS refines fixed-size byte arrays.**  In every run from an empty volume the image
stands for a set of files, and every legal call returns, replies and changes the files as
`FileStep` says. -/
theorem tfs_refines {s : Tfs}
    (run : (tfsSystem Empty).ReachableWhen (fun s op => op.Legal s.blocks) s) :
    ∃ files, Holds s.blocks files ∧ ∀ op : TfsOp, op.Legal s.blocks →
      ∃ reply t files', op.run s = .returned (reply, t) ∧ FileStep files op reply files' ∧
        Holds t.blocks files' ∧
        (op.isWrite = true → t.blocks 1 = s.blocks 1 ∧ t.blocks 2 = s.blocks 2) := by
  have inv : TfsMounted s ∧ ∃ files, Holds s.blocks files := by
    refine run.invariant (I := fun s => TfsMounted s ∧ ∃ files, Holds s.blocks files)
      (fun s (empty : Empty s) => ⟨empty.mounted, _, empty.holds⟩) ?_
    rintro s op t ⟨mounted, files, holds⟩ legal taken
    obtain ⟨reply, ran⟩ := tfsSystem_step.1 taken
    obtain ⟨reply', t', files', ran', mounted', -, holds', -⟩ := tfs_step mounted holds legal
    rw [ran] at ran'
    cases ran'
    exact ⟨mounted', files', holds'⟩
  obtain ⟨mounted, files, holds⟩ := inv
  refine ⟨files, holds, fun op legal => ?_⟩
  obtain ⟨reply, t, files', ran, -, step, holds', kept⟩ := tfs_step mounted holds legal
  exact ⟨reply, t, files', ran, step, holds', kept⟩

/-- A volume of `n` blocks without files. -/
def emptyVolume (n : Nat) : Tfs where
  disk :=
    { blocks := fun b i => if b = 1 ∧ i = 0 then 7 else 0
      totalBlocks := n
      answers := fun _ => true
      asked := 0
      served := [] }
  totalblocks := n
  lock := 1
  buffer := fun _ _ => 0
  refused := 0

theorem empty_emptyVolume {n : Nat} (room : 3 ≤ n) (small : n ≤ 4096) : Empty (emptyVolume n) where
  ready := ⟨fun _ => rfl, Nat.le_refl n, small⟩
  free := Int.one_pos
  room := room
  bitmap := by
    have bits : ∀ k < 32, BitVec.getLsbD (7 : Word) k = true ↔ k < 3 := by decide
    intro b _
    by_cases first : b < 32
    · have word : (emptyVolume n).blocks 1 (b / 32) = 7 := if_pos ⟨rfl, by omega⟩
      rw [bitmapGet, word, bits _ (Nat.mod_lt _ (by decide))]
      omega
    · have word : (emptyVolume n).blocks 1 (b / 32) = 0 := if_neg fun h => by omega
      rw [bitmapGet, word]
      simp
      omega
  directory := by
    intro j inside
    have zeros : (emptyVolume n).blocks 2 = fun _ => 0 := by
      funext i
      simp [emptyVolume, Volume.blocks]
    rw [zeros]
    exact ⟨rfl, nameAt_nil (by omega) (Block.byte_zero _)⟩

def letter : Name := [⟨0x62#8, by decide⟩]

/-- The caller's buffer, with the digits 1 and 2. -/
def digits : Nat → Byte := fun k => if k = 0 then 0x31#8 else 0x32#8

/-- A file of five bytes is made in blocks 3 and 4, two of its bytes are written, and all of it
is read. -/
theorem letter_ran :
    ∃ s t, (tfsSystem Empty).step (emptyVolume 5) (.create letter ⟨5, by decide⟩) = some s ∧
      Handle s.blocks ⟨3, by decide⟩ ∧
      (tfsSystem Empty).step s (.write ⟨3, by decide⟩ digits ⟨2, by decide⟩ ⟨1, by decide⟩) = some t ∧
      ∃ u, (TfsOp.read ⟨3, by decide⟩ ⟨9, by decide⟩ ⟨0, by decide⟩).run t =
        .returned ((5, [0, 0x31, 0x32, 0, 0]), u) := by
  have ran : (((tfsSystem Empty).step (emptyVolume 5) (.create letter ⟨5, by decide⟩)).bind fun s =>
      ((tfsSystem Empty).step s
        (.write ⟨3, by decide⟩ digits ⟨2, by decide⟩ ⟨1, by decide⟩)).map fun t =>
          (s.blocks 2 120,
            (TfsOp.read ⟨3, by decide⟩ ⟨9, by decide⟩ ⟨0, by decide⟩).run.answer t)) =
      some (3, some (5, [0, 0x31, 0x32, 0, 0])) := by decide +kernel
  obtain ⟨s, created, rest⟩ := Option.bind_eq_some_iff.1 ran
  obtain ⟨t, written, both⟩ := Option.map_eq_some_iff.1 rest
  obtain ⟨entry, read⟩ := Prod.mk.inj both
  refine ⟨s, t, created, ⟨24, ⟨by decide, ?_⟩, ?_⟩, written, Prog.answer_eq_some.1 read⟩
  · rw [entryInode, entry]
    decide
  · rw [inodeOf, entryInode, entry]
    rfl

/-- The theorem after a file was made and written: a read returns its five bytes, with the two
digits where they were written. -/
theorem tfs_refines_letter :
    ∃ s, (∃ files, Holds s.blocks files ∧ ∀ op : TfsOp, op.Legal s.blocks →
        ∃ reply t files', op.run s = .returned (reply, t) ∧ FileStep files op reply files' ∧
          Holds t.blocks files' ∧
          (op.isWrite = true → t.blocks 1 = s.blocks 1 ∧ t.blocks 2 = s.blocks 2)) ∧
      ∃ u, (TfsOp.read ⟨3, by decide⟩ ⟨9, by decide⟩ ⟨0, by decide⟩).run s =
        .returned ((5, [0, 0x31, 0x32, 0, 0]), u) := by
  obtain ⟨s, t, created, handle, written, read⟩ := letter_ran
  have start : (tfsSystem Empty).ReachableWhen (fun s op => op.Legal s.blocks) (emptyVolume 5) :=
    .start (empty_emptyVolume (by decide) (by decide))
  refine ⟨t, tfs_refines (.step (.step start ?_ created) ?_ written), read⟩
  · exact List.cons_ne_nil _ _
  · exact ⟨by decide, handle⟩

end Buenos.Fs
