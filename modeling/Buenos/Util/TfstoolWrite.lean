/-
# Util.TfstoolWrite -- a file that the tool stores

What `tfstool_write` does to an image.  The tool compares and stores names as 16 bytes,
takes the first clear bits of the bitmap and copies the source file block by block until it
has read less than a block; `Copied` says what such a part of the loop leaves on the image
and in its arrays.

`tfstoolWrite_stored` is the result: when the tool succeeds the image has a file more, in
the kernel's own terms, and the file holds the bytes of the source.  A source whose last
block is full costs a block more than it needs, unless the table is full.
-/
import Buenos.Util.TfstoolImage

namespace Buenos.Util

open Buenos.Lib Buenos.Theory Buenos.Fs

set_option autoImplicit false

/-! ## Names -/

/-- Comparing with a name that is shorter than `n`. -/
theorem strncmp_eq_zero {n : Nat} {name : Name} (short : name.length < n) (a : Bytes) :
    strncmp n a (charAt name) = 0 ↔ ∀ i ≤ name.length, a i = charAt name i := by
  induction n generalizing name a with
  | zero => omega
  | succ n ih =>
      have differ : ∀ b c : Byte, b ≠ c → ((b.toNat : Int) - c.toNat ≠ 0) := by
        intro b c ne same
        exact ne (BitVec.eq_of_toNat_eq (by omega))
      rw [strncmp]
      by_cases first : a 0 = charAt name 0
      · rw [if_neg (not_not.2 first)]
        cases name with
        | nil =>
            have zero : a 0 = 0 := first
            rw [if_pos zero]
            refine ⟨fun _ i le => ?_, fun _ => rfl⟩
            rw [Nat.le_zero.1 le, first]
        | cons c name =>
            have nonzero : a 0 ≠ 0 := by
              rw [first]
              exact c.property
            rw [if_neg nonzero]
            refine (@ih name (by simpa using short) _).trans ?_
            constructor
            · intro rest i le
              cases i with
              | zero => exact first
              | succ i => exact rest i (by simpa using le)
            · intro all i le
              exact all (i + 1) (by simpa using le)
      · rw [if_pos first]
        exact ⟨fun same => absurd same (differ _ _ first), fun all => absurd (all 0 (Nat.zero_le _)) first⟩

/-- The tool's comparison is the kernel's. -/
theorem nameCompare_eq_zero {masterDir : Bytes} {i : Nat} {name : Name} (inside : i < 25)
    (short : name.length ≤ 15) :
    nameCompare masterDir i name = 0 ↔ entryName (content masterDir) i = name := by
  have bytes : ∀ k ≤ 15, (content masterDir).byte (20 * i + 4 + k) = masterDir (20 * i + 4 + k) :=
    fun k le => content_byte masterDir (by omega)
  have less : name.length < TFS_FILENAME_MAX := Nat.lt_succ_of_le short
  rw [nameCompare, strncmp_eq_zero less]
  constructor
  · intro same
    apply nameAt_eq name (by omega)
    intro k le
    rw [bytes k (by omega), same k le]
  · rintro rfl k le
    rw [← bytes k (by omega)]
    exact nameAt_spelled (by unfold entryName at short; omega) le

/-! ## Taking blocks -/

section Taking

variable {order : ByteOrder} {bat bat' : Bytes} {n b : Nat}

theorem bitmapFindnset_cases (order : ByteOrder) (bat : Bytes) (small : n ≤ 4096) :
    (∃ p < n, bitmapFindnset order bat n = ((p : Int), bitmapSet order bat p true) ∧
      Lib.bitmapGet (content bat) p = false) ∨ bitmapFindnset order bat n = (-1, bat) := by
  unfold bitmapFindnset
  rw [Int.toNat_natCast]
  cases first : (List.range n).find? fun i => !bitmapGet order bat i with
  | none => exact .inr rfl
  | some p =>
      obtain ⟨clear, mem, -⟩ := List.find?_range_eq_some.1 first
      rw [List.mem_range] at mem
      refine .inl ⟨p, mem, rfl, ?_⟩
      rw [← bitmapGet_content order bat (by omega)]
      simpa using clear

/-- The block that the tool takes was free and is marked. -/
theorem takeBlock_some (small : n ≤ 4096) (took : takeBlock order n bat = (some b, bat')) :
    (2 < b ∧ b < n) ∧ Lib.bitmapGet (content bat) b = false ∧
      content bat' = Lib.bitmapSet (content bat) b true := by
  have limit : toInt32 (n : Int) = n := toInt32_eq (by omega) (by omega)
  simp only [takeBlock, limit, Prod.mk.injEq] at took
  obtain ⟨found, rfl⟩ := took
  rcases bitmapFindnset_cases order bat small with ⟨p, inside, result, clear⟩ | result
  · have number : toUint32 (p : Int) = p := by
      unfold toUint32
      omega
    simp only [result, number, Option.ite_none_right_eq_some, Option.some.injEq] at found ⊢
    obtain ⟨usable, rfl⟩ := found
    exact ⟨usable, clear, content_bitmapSet order bat (by omega) true⟩
  · have number : toUint32 (-1) = 0xffffffff := by decide
    simp only [result, number, Option.ite_none_right_eq_some] at found
    omega

end Taking

/-! ## The loop -/

/-- The loop has copied blocks of the source to the blocks `new`, for the entries of the
file from `i` on. -/
structure Copied (n : Nat) (disk disk' : HostFile) (w w' : WriteState) (i : Nat)
    (new : List Nat) : Prop where
  size : disk'.size = disk.size
  nodup : new.Nodup
  fresh : ∀ b ∈ new, (2 < b ∧ b < n) ∧ Lib.bitmapGet (content w.bat) b = false
  marks : ∀ b, Lib.bitmapGet (content w'.bat) b = true ↔
    Lib.bitmapGet (content w.bat) b = true ∨ b ∈ new
  stored : ∀ k, ∀ less : k < new.length,
    content w'.inode (directWord (i + k)) = BitVec.ofNat 32 new[k]
  words : ∀ x, x < directWord i ∨ directWord i + new.length ≤ x →
    content w'.inode x = content w.inode x
  count : w'.filesize = w.filesize + min w.source.length (512 * new.length)
  bytes : ∀ k, ∀ less : k < new.length, ∀ p < 512, 512 * k + p < w.source.length →
    (imageOf disk' new[k]).byte p = w.source.getD (512 * k + p) 0
  kept : ∀ x, x ∉ new → imageOf disk' x = imageOf disk x

namespace Copied

variable {n : Nat} {disk disk₁ disk' : HostFile} {w w₁ w' : WriteState} {i b : Nat}
  {new : List Nat}

theorem nothing (n : Nat) (disk : HostFile) (w : WriteState) (i : Nat) :
    Copied n disk disk w w i [] where
  size := rfl
  nodup := List.nodup_nil
  fresh := by simp
  marks := by simp
  stored := by simp
  words := fun _ _ => rfl
  count := by simp
  bytes := by simp
  kept := fun _ _ => rfl

/-- A whole block, and then the rest. -/
theorem cons (first : Copied n disk disk₁ w w₁ i [b]) (rest : Copied n disk₁ disk' w₁ w' (i + 1) new)
    (whole : 512 ≤ w.source.length) (left : w₁.source = w.source.drop 512) :
    Copied n disk disk' w w' i (b :: new) := by
  have taken : b ∉ new := by
    intro again
    have clear := (rest.fresh b again).2
    rw [(first.marks b).2 (.inr (List.mem_singleton_self b))] at clear
    cases clear
  exact
    { size := rest.size.trans first.size
      nodup := List.nodup_cons.2 ⟨taken, rest.nodup⟩
      fresh := by
        intro c mem
        rcases List.mem_cons.1 mem with rfl | later
        · exact first.fresh c (List.mem_singleton_self c)
        · obtain ⟨inside, clear⟩ := rest.fresh c later
          refine ⟨inside, ?_⟩
          cases before : Lib.bitmapGet (content w.bat) c with
          | false => rfl
          | true =>
              rw [(first.marks c).2 (.inl before)] at clear
              cases clear
      marks := by
        intro c
        rw [rest.marks, first.marks, List.mem_singleton, List.mem_cons, or_assoc]
      stored := by
        intro k less
        cases k with
        | zero =>
            rw [rest.words _ (.inl (by unfold directWord; omega))]
            exact first.stored 0 (by simp)
        | succ k =>
            have := rest.stored k (by simpa using less)
            rw [show i + (k + 1) = i + 1 + k by omega, this]
            rfl
      words := by
        intro x apart
        simp only [List.length_cons] at apart
        rw [rest.words x (by unfold directWord at *; omega),
          first.words x (by simp only [List.length_singleton]; omega)]
      count := by
        have counted := first.count
        have length : w₁.source.length = w.source.length - 512 := by rw [left, List.length_drop]
        simp only [List.length_singleton] at counted
        rw [rest.count, counted, length, List.length_cons]
        omega
      bytes := by
        intro k less p inside within
        cases k with
        | zero =>
            rw [List.getElem_cons_zero, rest.kept b taken]
            exact first.bytes 0 (by simp) p inside within
        | succ k =>
            have length : w₁.source.length = w.source.length - 512 := by rw [left, List.length_drop]
            have := rest.bytes k (by simpa using less) p inside (by omega)
            rw [List.getElem_cons_succ, this, left, List.getD_eq_getElem?_getD,
              List.getD_eq_getElem?_getD, List.getElem?_drop]
            congr 2
            omega
      kept := by
        intro x apart
        simp only [List.mem_cons, not_or] at apart
        rw [rest.kept x apart.2, first.kept x (by simpa using apart.1)] }

/-- **One block** of the source. -/
theorem one {order : ByteOrder} {bat : Bytes} (room : i < 127)
    (short : w.filesize + w.source.length ≤ 65024) (usable : 2 < b ∧ b < n)
    (clear : Lib.bitmapGet (content w.bat) b = false)
    (set : content bat = Lib.bitmapSet (content w.bat) b true) (size : disk'.size = disk.size)
    (written : imageOf disk' =
      Function.update (imageOf disk) b (content (w.next order i b bat).data)) :
    Copied n disk disk' w (w.next order i b bat) i [b] where
  size := size
  nodup := List.nodup_singleton b
  fresh := by
    intro c mem
    obtain rfl := List.mem_singleton.1 mem
    exact ⟨usable, clear⟩
  marks := by
    intro c
    change Lib.bitmapGet (content bat) c = true ↔ _
    rw [set, bitmapGet_bitmapSet, List.mem_singleton]
    by_cases same : c = b
    · simp [same]
    · simp [same]
  stored := by
    intro k less
    obtain rfl : k = 0 := by simpa using less
    change content (setHostWord order w.inode (directWord i) _) _ = _
    rw [content_setHostWord order _ (by unfold directWord; omega), Nat.add_zero,
      Function.update_self]
    rfl
  words := by
    intro x apart
    simp only [List.length_singleton] at apart
    change content (setHostWord order w.inode (directWord i) _) x = _
    rw [content_setHostWord order _ (by unfold directWord; omega),
      Function.update_of_ne (by omega)]
  count := by
    simp only [WriteState.next, TFS_BLOCK_SIZE, List.length_singleton]
    unfold toUint32
    omega
  bytes := by
    intro k less p inside within
    obtain rfl : k = 0 := by simpa using less
    have there : p < min TFS_BLOCK_SIZE w.source.length := by
      change p < min 512 w.source.length
      omega
    rw [List.getElem_singleton, written, Function.update_self, content_byte _ inside]
    simp only [WriteState.next, if_pos there, Nat.mul_zero, Nat.zero_add]
  kept := by
    intro x apart
    rw [written, Function.update_of_ne (by simpa using apart)]

end Copied

/-- **The loop of `tfstool_write`**, when it succeeds. -/
theorem writeLoop_copied {order : ByteOrder} {n : Nat} (small : n ≤ 4096) {w' : WriteState}
    {disk' : HostFile} (rounds : Nat) :
    ∀ (i : Nat) (w : WriteState) (disk : HostFile), tfstoolNumblocks disk = n →
      w.filesize = 512 * i → w.filesize + w.source.length ≤ 65024 →
      writeLoop order (takeBlock order n) rounds i w disk = .returned (some (true, w'), disk') →
      ∃ new, i + new.length ≤ 127 ∧ Copied n disk disk' w w' i new := by
  induction rounds with
  | zero =>
      intro i w disk _ whole short ran
      have few : i ≤ 127 := by omega
      cases ran
      exact ⟨[], by simpa using few, .nothing n _ _ i⟩
  | succ rounds ih =>
      intro i w disk total whole short ran
      rw [writeLoop] at ran
      by_cases more : w.filesize < TFS_MAX_FILESIZE
      · have room : i < 127 := by
          change w.filesize < 512 * (512 / 4 - 1) at more
          omega
        rw [if_pos more] at ran
        generalize took : takeBlock order n w.bat = pair at ran
        obtain ⟨block, bat⟩ := pair
        cases block with
        | none => cases ran
        | some b =>
            obtain ⟨usable, clear, set⟩ := takeBlock_some small took
            obtain ⟨disk₁, ran₁, size, written⟩ :=
              writeBlock_image disk b (w.next order i b bat).data (by omega)
            have kept : disk₁.size = disk.size := by
              change disk.size / 512 = n at total
              omega
            have first : Copied n disk disk₁ w (w.next order i b bat) i [b] :=
              .one room short usable clear set kept written
            dsimp only at ran
            rw [Prog.bind_of_returned ran₁, if_pos rfl] at ran
            by_cases last : w.source.length < TFS_BLOCK_SIZE
            · rw [if_pos last] at ran
              cases ran
              exact ⟨[b], room, first⟩
            · rw [if_neg last] at ran
              change ¬ w.source.length < 512 at last
              have counted := first.count
              have left : (w.next order i b bat).source = w.source.drop 512 := rfl
              simp only [List.length_singleton] at counted
              obtain ⟨new, few, rest⟩ := ih (i + 1) (w.next order i b bat) disk₁
                (by rw [tfstoolNumblocks, kept]; exact total) (by omega)
                (by rw [left, List.length_drop]; omega) ran
              exact ⟨b :: new, by simp only [List.length_cons]; omega,
                first.cons rest (by omega) left⟩
      · rw [if_neg more] at ran
        cases ran
        exact ⟨[], by simp only [List.length_nil]; omega, .nothing n _ _ i⟩

/-! ## The tables -/

/-- The directory with a new entry, as the tool makes it. -/
def newEntry (order : ByteOrder) (masterDir : Bytes) (index inodeBnum : Nat) (target : Name) :
    Bytes :=
  strncpy (setHostWord order masterDir (5 * index) (htonl order (BitVec.ofNat 32 inodeBnum)))
    (20 * index + 4) target TFS_FILENAME_MAX

theorem entrySet_newEntry {order : ByteOrder} {masterDir : Bytes} {index : Nat} (p : Nat)
    {target : Name} (terminated : Terminated (content masterDir)) (inside : index < 25)
    (short : target.length ≤ 15) :
    EntrySet (content masterDir) (content (newEntry order masterDir index p target)) index target
      (BitVec.ofNat 32 p) := by
  let named := setHostWord order masterDir (5 * index) (htonl order (BitVec.ofNat 32 p))
  have byte : ∀ k < 512, (content (newEntry order masterDir index p target)).byte k =
      if 20 * index + 4 ≤ k ∧ k < 20 * index + 20 then charAt target (k - (20 * index + 4))
      else (content named).byte k := by
    intro k less
    rw [content_byte _ less, content_byte _ less]
    exact if_congr (by unfold TFS_FILENAME_MAX; omega) rfl rfl
  have words : content named =
      Function.update (content masterDir) (5 * index) (BitVec.ofNat 32 p) :=
    content_setHostWord order masterDir (by omega) _
  apply EntrySet.of_bytes terminated inside
  · have kept : content (newEntry order masterDir index p target) (5 * index) =
        content named (5 * index) := by
      apply Block.word_congr
      intro k place
      rw [byte k (by omega), if_neg (by omega)]
    rw [entryInode, kept, words, Function.update_self]
  · apply nameAt_eq target (by omega)
    intro k le
    rw [byte _ (by omega), if_pos (by omega), Nat.add_sub_cancel_left]
  · intro k less apart
    rw [byte k less, if_neg (by omega), words, byte_update_ne _ _ (by omega)]

/-- The three tables are written. -/
theorem storeTables_image (order : ByteOrder) (masterDir : Bytes) (index : Nat) {p : Nat}
    (target : Name) (w : WriteState) {disk : HostFile} {n : Nat} (total : tfstoolNumblocks disk = n)
    (room : 3 ≤ n) (small : p ≤ 4096) (inside : p < n) :
    ∃ disk', storeTables order masterDir index p target w disk = .returned (true, disk') ∧
      disk'.size = disk.size ∧
      imageOf disk' = Function.update (Function.update (Function.update (imageOf disk) p
        (Function.update (content w.inode) 0 (BitVec.ofNat 32 w.filesize)))
        2 (content (newEntry order masterDir index p target))) 1 (content w.bat) := by
  have bound : 512 * n ≤ disk.size := by
    change disk.size / 512 = n at total
    omega
  obtain ⟨disk₁, ran₁, size₁, written₁⟩ := writeBlock_image disk p
    (setHostWord order w.inode 0 (htonl order (BitVec.ofNat 32 w.filesize))) (by omega)
  obtain ⟨disk₂, ran₂, size₂, written₂⟩ := writeBlock_image disk₁ 2
    (newEntry order masterDir index p target) (by decide)
  obtain ⟨disk₃, ran₃, size₃, written₃⟩ := writeBlock_image disk₂ 1 w.bat (by decide)
  refine ⟨disk₃, ?_, by omega, ?_⟩
  · unfold storeTables
    refine (Prog.bind_of_returned ran₁).trans ?_
    refine (Prog.bind_of_returned ran₂).trans ?_
    exact ran₃
  · rw [written₃, written₂, written₁, content_setHostWord order _ (by decide)]

/-! ## The whole command -/

/-- The image has a file more, which holds the bytes of the source. -/
structure Added (n : Nat) (blocks blocks' : Nat → Fs.Block) (target : Name) (source : List Byte)
    (j p : Nat) (data : List Nat) : Prop where
  absent : ∀ k < 25, entryName (blocks 2) k ≠ target
  stored : Stored n blocks blocks' j target p data
  size : fileSize (blocks' p) = source.length
  bytes : fileBytes blocks' p = source

/-- What the loop copied is a file more, once the tables are written. -/
theorem Copied.added {order : ByteOrder} {n : Nat} (small : n ≤ 4096) {disk disk₁ : HostFile}
    {blocks : Nat → Fs.Block} {masterDir : Bytes} {index p : Nat} {target : Name} {w w' : WriteState}
    {new : List Nat} (image : Image n (imageOf disk))
    (absent : ∀ k < 25, entryName (imageOf disk 2) k ≠ target)
    (free : index < 25 ∧ entryInode (imageOf disk 2) index = 0) (short : target.length ≤ 15)
    (most : w.source.length ≤ 65024) (directory : content masterDir = imageOf disk 2)
    (inode : (2 < p ∧ p < n) ∧ Lib.bitmapGet (imageOf disk 1) p = false)
    (bitmap : content w.bat = Lib.bitmapSet (imageOf disk 1) p true)
    (start : w.filesize = 0 ∧ content w.inode = fun _ => 0) (few : new.length ≤ 127)
    (copied : Copied n disk disk₁ w w' 0 new) (all : w'.filesize = w.source.length)
    (tables : blocks = Function.update (Function.update (Function.update (imageOf disk₁) p
      (Function.update (content w'.inode) 0 (BitVec.ofNat 32 w'.filesize)))
      2 (content (newEntry order masterDir index p target))) 1 (content w'.bat)) :
    Added n (imageOf disk) blocks target w.source index p new := by
  have fresh : ∀ b ∈ new, (2 < b ∧ b < n) ∧ b ≠ p ∧ Lib.bitmapGet (imageOf disk 1) b = false := by
    intro b mem
    obtain ⟨inside, clear⟩ := copied.fresh b mem
    rw [bitmap, bitmapGet_bitmapSet] at clear
    by_cases same : b = p
    · simp [same] at clear
    · rw [if_neg same] at clear
      exact ⟨inside, same, clear⟩
  have apart : p ∉ new := fun mem => (fresh p mem).2.1 rfl
  have bit : blocks 1 = content w'.bat := by rw [tables, Function.update_self]
  have dir : blocks 2 = content (newEntry order masterDir index p target) := by
    rw [tables, Function.update_of_ne (by decide), Function.update_self]
  have ino : blocks p =
      Function.update (content w'.inode) 0 (BitVec.ofNat 32 w.source.length) := by
    rw [tables, Function.update_of_ne (by omega), Function.update_of_ne (by omega),
      Function.update_self, all]
  have others : ∀ b, b ≠ p → b ≠ 1 → b ≠ 2 → blocks b = imageOf disk₁ b := by
    intro b notInode notBitmap notDirectory
    rw [tables, Function.update_of_ne notBitmap, Function.update_of_ne notDirectory,
      Function.update_of_ne notInode]
  have entry : ∀ k, ∀ less : k < new.length, (blocks p (directWord k)).toNat = new[k] := by
    intro k less
    have stored := copied.stored k less
    have inside := (fresh _ (List.getElem_mem less)).1
    rw [Nat.zero_add] at stored
    rw [ino, Function.update_of_ne (by unfold directWord; omega), stored, BitVec.toNat_ofNat]
    omega
  have table : tableBlocks (blocks p) = new := by
    apply tableFrom_eq 0 127 few
    · intro k less
      rw [Nat.zero_add]
      exact entry k less
    · intro b mem
      have := (fresh b mem).1
      omega
    · intro shorter
      rw [Nat.zero_add, ino, Function.update_of_ne (by unfold directWord; omega),
        copied.words _ (.inr (by unfold directWord; omega)), start.2]
  have counted := copied.count
  have size : fileSize (blocks p) = w.source.length := by
    rw [fileSize, ino, Function.update_self, BitVec.toNat_ofNat, Nat.mod_eq_of_lt (by omega)]
    exact toInt32_eq (by omega) (by omega)
  refine
    { absent := absent
      stored := ?_
      size := size
      bytes := ?_ }
  · exact
      { free := free.2
        nodup := List.nodup_cons.2 ⟨apart, copied.nodup⟩
        fresh := by
          intro b mem
          rcases List.mem_cons.1 mem with rfl | data
          · exact ⟨inode.1.2, fun marked => by rw [marked.2] at inode; cases inode.2⟩
          · obtain ⟨inside, -, clear⟩ := fresh b data
            exact ⟨inside.2, fun marked => by rw [marked.2] at clear; cases clear⟩
        marks := by
          intro b
          unfold Marked
          rw [bit, copied.marks, bitmap, bitmapGet_bitmapSet, List.mem_cons]
          by_cases same : b = p
          · simp only [same, if_true, true_or, or_true, and_true, iff_true]
            omega
          · simp only [same, if_false, false_or]
            constructor
            · rintro ⟨inside, old | data⟩
              · exact .inl ⟨inside, old⟩
              · exact .inr data
            · rintro (⟨inside, old⟩ | data)
              · exact ⟨inside, .inl old⟩
              · have := (fresh b data).1
                exact ⟨by omega, .inr data⟩
        directory := by
          rw [dir, ← directory]
          exact entrySet_newEntry p (directory ▸ image.terminated) free.1 short
        short := by omega
        table := table
        covered := by
          rw [size, Int.toNat_natCast]
          unfold blocksOf
          omega
        kept := fun b notNew notBitmap notDirectory => by
          simp only [List.mem_cons, not_or] at notNew
          rw [others b notNew.1 notBitmap notDirectory, copied.kept b notNew.2] }
  · apply List.ext_getElem
    · simp [fileBytes, size]
    · intro q within less
      have place : q / 512 < new.length := by omega
      obtain ⟨inside, notInode, -⟩ := fresh _ (List.getElem_mem place)
      simp only [fileBytes, List.getElem_map, List.getElem_range]
      rw [fileByte, entry _ place, others _ notInode (by omega) (by omega),
        copied.bytes _ place _ (Nat.mod_lt _ (by decide)) (by omega),
        show 512 * (q / 512) + q % 512 = q by omega, List.getD_eq_getElem?_getD,
        List.getElem?_eq_getElem less]
      rfl

/-- The command with the directory and the bitmap in its arrays. -/
theorem writeFile_added {order : ByteOrder} {masterDir bat data : Bytes} {source : List Byte}
    {target : Name} {index : Nat} {disk disk' : HostFile} {n : Nat}
    (total : tfstoolNumblocks disk = n) (room : 3 ≤ n) (small : n ≤ 4096)
    (image : Image n (imageOf disk)) (absent : ∀ k < 25, entryName (imageOf disk 2) k ≠ target)
    (free : index < 25 ∧ entryInode (imageOf disk 2) index = 0) (short : target.length ≤ 15)
    (most : source.length ≤ 65024) (directory : content masterDir = imageOf disk 2)
    (bitmap : content bat = imageOf disk 1)
    (ran : writeFile order (takeBlock order n) n data masterDir bat index source target disk =
      .returned (true, disk')) :
    tfstoolNumblocks disk' = n ∧
      ∃ p new, Added n (imageOf disk) (imageOf disk') target source index p new := by
  rw [writeFile] at ran
  generalize took : takeBlock order n bat = pair at ran
  obtain ⟨block, bits⟩ := pair
  cases block with
  | none => cases ran
  | some p =>
      obtain ⟨usable, clear, set⟩ := takeBlock_some small took
      rw [bitmap] at clear set
      obtain ⟨result, disk₁, ran₁, ran⟩ := Prog.bind_returned.1 ran
      cases result with
      | none => cases ran
      | some result =>
          obtain ⟨writeok, w'⟩ := result
          dsimp only at ran
          split at ran
          · cases ran
          · rename_i all
            cases writeok with
            | false => cases ran
            | true =>
                obtain ⟨new, few, copied⟩ := writeLoop_copied small n 0 _ disk total rfl
                  (by rw [Nat.zero_add]; exact most) ran₁
                have size : tfstoolNumblocks disk₁ = n := by
                  rw [tfstoolNumblocks, copied.size]
                  exact total
                obtain ⟨disk₂, stored, kept, tables⟩ :=
                  storeTables_image order masterDir index target w' size room
                    (by omega) usable.2
                rw [if_pos rfl, stored] at ran
                cases ran
                refine ⟨by rw [tfstoolNumblocks, kept]; exact size, p, new, ?_⟩
                rw [Nat.zero_add] at few
                exact Copied.added (w := ⟨0, source, data, bits, fun _ => 0⟩) small image absent
                  free short most directory ⟨usable, clear⟩ set ⟨rfl, content_zeros⟩ few copied
                  (not_not.1 all) tables

/-- **`tfstool_write`** stores the source as a file, when it succeeds. -/
theorem tfstoolWrite_added {order : ByteOrder} {masterDir bat data : Bytes} {source : List Byte}
    {target : Name} {disk disk' : HostFile} {n : Nat} (total : tfstoolNumblocks disk = n)
    (room : 3 ≤ n) (small : n ≤ 4096) (image : Image n (imageOf disk))
    (short : target.length ≤ 15) (most : source.length ≤ 65024)
    (ran : tfstoolWrite order masterDir bat data source target disk = .returned (true, disk')) :
    tfstoolNumblocks disk' = n ∧
      ∃ j p new, Added n (imageOf disk) (imageOf disk') target source j p new := by
  obtain ⟨masterDir, readDirectory, directory⟩ := readBlock_image disk
    TFS_DIRECTORY_BLOCK masterDir (by decide) (by rw [total]; exact room)
  obtain ⟨bat, readBitmap, bitmap⟩ := readBlock_image disk
    TFS_ALLOCATION_BLOCK bat (by decide) (by rw [total]; exact Nat.lt_of_succ_lt room)
  change content masterDir = imageOf disk 2 at directory
  change content bat = imageOf disk 1 at bitmap
  rw [tfstoolWrite, Prog.bind_of_returned readDirectory] at ran
  dsimp only at ran
  split at ran
  · cases ran
  · rename_i present
    have absent : ∀ k < 25, entryName (imageOf disk 2) k ≠ target := by
      intro k inside named
      apply present
      rw [List.any_eq_true]
      refine ⟨k, List.mem_range.2 inside, decide_eq_true ?_⟩
      rw [nameCompare_eq_zero inside short, directory, named]
    cases slot : (List.range TFS_MAX_FILES).find?
        fun i => decide (hostWord order masterDir (5 * i) = 0) with
    | none =>
        rw [slot] at ran
        cases ran
    | some index =>
        obtain ⟨unused, inside, -⟩ := List.find?_range_eq_some.1 slot
        rw [List.mem_range] at inside
        change index < 25 at inside
        have free : index < 25 ∧ entryInode (imageOf disk 2) index = 0 := by
          refine ⟨inside, ?_⟩
          rw [← directory]
          exact (hostWord_eq_zero order masterDir (by omega)).1 (of_decide_eq_true unused)
        have number : toUint32 (tfstoolNumblocks disk : Nat) = n := by
          rw [total, toUint32]
          omega
        rw [slot] at ran
        dsimp only at ran
        rw [Prog.bind_of_returned readBitmap] at ran
        simp only [Prog.bind_gets_apply, number] at ran
        obtain ⟨size, p, new, added⟩ := writeFile_added total room small image absent free short
          most directory bitmap ran
        exact ⟨size, index, p, new, added⟩

end Buenos.Util
