/-
# Fs.Handles -- what a program sees of the filesystems

To the programs that call it the VFS is a set of volumes, each with its files, and a table of
open files, each on one file with a position of its own.  `View` is that, and `ViewStep` says
what a call may reply and how it changes the view: there are no locks, tables, drivers or blocks
in it.  A driver enters through `Storage`, the steps that its calls are of the files of a volume,
and `Storage.Served`, which says that the functions behind an `fs_t` are such steps.

`view_step` connects the two levels over any driver that serves a storage: a call made alone
returns, replies and changes what is seen as `ViewStep` says.
-/
import Buenos.Fs.Drivers
import Buenos.Fs.TfsFiles
import Buenos.Fs.VfsIdle

namespace Buenos.Fs

open Buenos.Lib Buenos.Theory

set_option autoImplicit false

/-! ## Storage -/

/-- The call leaves the file with this fileid alone. -/
def TfsOp.Spares (files : Files) (i : Nat) : TfsOp → Prop
  | .remove filename => ∀ file, files i = some file → file.name ≠ filename
  | .write fileid .. => fileid.val ≠ i
  | _ => True

/-- The call does not remove the file with this fileid. -/
def TfsOp.Retains (files : Files) (i : Nat) : TfsOp → Prop
  | .remove filename => ∀ file, files i = some file → file.name ≠ filename
  | _ => True

/-- What calls do to a volume of files, and what every such volume has in common. -/
structure Storage (V : Type) where
  files : V → Files
  step : V → TfsOp → TfsReply → V → Prop
  opened : ∀ {v w filename reply}, step v (.openFile filename) reply w →
    w = v ∧ (reply.1 < 0 ∨ ∃ i file, reply.1 = (i : Nat) ∧ files v i = some file ∧
      file.name = filename)
  read : ∀ {v w fileid n off reply i file}, step v (.read fileid n off) reply w →
    fileid.val = (i : Nat) → files v i = some file →
    w = v ∧ (0 ≤ off.val ∧ off.val ≤ file.size → reply =
      (min n.val (file.size - off.val), (file.bytes.drop off.val.toNat).take n.val.toNat)) ∧
      (¬ (0 ≤ off.val ∧ off.val ≤ file.size) → reply.1 < 0)
  written : ∀ {v w fileid buffer n off reply i file}, step v (.write fileid buffer n off) reply w →
    fileid.val = (i : Nat) → files v i = some file → 0 < reply.1 → 0 ≤ off.val ∧
      reply.1 ≤ n.val ∧ ∃ file', files w i = some file' ∧ off.val + reply.1 ≤ file'.size ∧
        ∀ k < reply.1.toNat, file'.bytes[off.val.toNat + k]? = some (buffer k)
  spared : ∀ {v w op reply i}, step v op reply w → op.Spares (files v) i → files v i ≠ none →
    files w i = files v i
  retained : ∀ {v w op reply i}, step v op reply w → op.Retains (files v) i → files v i ≠ none →
    files w i ≠ none

/-- The call that a driver function is of the files. -/
def DriverCall.fileOp : DriverCall → Option TfsOp
  | .openFile filename => some (.openFile filename)
  | .read fileid bufsize offset => some (.read (toCInt fileid) (toCInt bufsize) (toCInt offset))
  | .write fileid bytes datasize offset =>
      some (.write (toCInt fileid) (fun k => bytes.getD k 0) (toCInt datasize) (toCInt offset))
  | .create filename size => some (.create filename (toCInt size))
  | .remove filename => some (.remove filename)
  | _ => none

/-- Names are not empty, fileids are those of files, and lengths are not negative. -/
def TfsOp.Right (files : Files) : TfsOp → Prop
  | .create filename _ => filename ≠ []
  | .openFile filename => filename ≠ []
  | .remove filename => filename ≠ []
  | .read fileid n _ => 0 ≤ n.val ∧ ∃ i : Nat, fileid.val = i ∧ files i ≠ none
  | .write fileid _ n _ => 0 ≤ n.val ∧ ∃ i : Nat, fileid.val = i ∧ files i ≠ none

/-- The functions of a driver are steps of the storage, when the driver is able to make them. -/
structure Storage.Served {σ V : Type} (st : Storage V) (ops : FsOps σ) (shows : σ → V → Prop)
    (able : σ → V → TfsOp → Prop) : Prop where
  serve : ∀ {d v c op}, DriverCall.fileOp c = some op → shows d v → op.Right (st.files v) →
    able d v op → (ops.perform c).Ends d fun reply d' =>
      ∃ w, st.step v op (reply.ret, reply.data) w ∧ shows d' w
  close : ∀ {d v} (fileid : Int), shows d v → (ops.close fileid).Ends d fun ret d' =>
    ret = VFS_OK ∧ shows d' v
  small : ∀ {d v i file}, shows d v → st.files v i = some file →
    i < 0x80000000 ∧ file.size < 0x80000000

/-! ## The view -/

/-- An open file: which file it is of, and where the next transfer starts. -/
@[ext] structure FileHandle where
  fs : Nat
  fileid : Nat
  position : Nat
  deriving DecidableEq

structure View (V : Type) where
  mounted : Name → Option Nat
  volumes : Nat → V
  handles : Nat → Option FileHandle

inductive FileCall where
  | openFile (pathname : Name)
  | close (file : Int)
  | seek (file : Int) (position : CInt)
  | read (file : Int) (bufsize : CInt)
  | write (file : Int) (bytes : List Byte) (datasize : CInt)
  | create (pathname : Name) (size : CInt)
  | remove (pathname : Name)

namespace View

variable {V : Type}

def setVolume (v : View V) (fs : Nat) (w : V) : View V :=
  { v with volumes := Function.update v.volumes fs w }

def setHandle (v : View V) (row : Nat) (h : Option FileHandle) : View V :=
  { v with handles := Function.update v.handles row h }

end View

/-- The call of the volume that a call with a path is, once the path is parsed. -/
def FileCall.onPath? : FileCall → Option (Name × (Name → TfsOp))
  | .openFile pathname => some (pathname, .openFile)
  | .create pathname size => some (pathname, fun filename => .create filename size)
  | .remove pathname => some (pathname, .remove)
  | _ => none

section Steps

variable {V : Type} (st : Storage V)

/-- **What the calls do**, as the programs see it. -/
inductive ViewStep (v : View V) : FileCall → TfsReply → View V → Prop
  | badPath {c : FileCall} {pathname : Name} {op : Name → TfsOp} :
      c.onPath? = some (pathname, op) → vfsParsePathname pathname = none →
      ViewStep v c (VFS_ERROR, []) v
  | noVolume {c : FileCall} {pathname volume filename : Name} {op : Name → TfsOp} :
      c.onPath? = some (pathname, op) → vfsParsePathname pathname = some (volume, filename) →
      v.mounted volume = none → ViewStep v c (VFS_NO_SUCH_FS, []) v
  | tableFull {pathname volume filename : Name} :
      vfsParsePathname pathname = some (volume, filename) →
      (∀ row < CONFIG_MAX_OPEN_FILES, v.handles row ≠ none) →
      ViewStep v (.openFile pathname) (VFS_LIMIT, []) v
  | opened {pathname volume filename : Name} {fs row i : Nat} :
      vfsParsePathname pathname = some (volume, filename) → v.mounted volume = some fs →
      row < CONFIG_MAX_OPEN_FILES → v.handles row = none →
      st.step (v.volumes fs) (.openFile filename) ((i : Nat), []) (v.volumes fs) →
      ViewStep v (.openFile pathname) ((row : Nat), []) (v.setHandle row (some ⟨fs, i, 0⟩))
  | notOpened {pathname volume filename : Name} {fs : Nat} {code : Int} :
      vfsParsePathname pathname = some (volume, filename) → v.mounted volume = some fs →
      st.step (v.volumes fs) (.openFile filename) (code, []) (v.volumes fs) → code < 0 →
      ViewStep v (.openFile pathname) (code, []) v
  | closed {row : Nat} {h : FileHandle} : v.handles row = some h →
      ViewStep v (.close row) (VFS_OK, []) (v.setHandle row none)
  | sought {row : Nat} {h : FileHandle} {position : CInt} {p : Nat} : v.handles row = some h →
      position.val = p →
      ViewStep v (.seek row position) (VFS_OK, []) (v.setHandle row (some { h with position := p }))
  | read {row : Nat} {h : FileHandle} {bufsize fileid off : CInt} {reply : TfsReply} :
      v.handles row = some h → fileid.val = h.fileid → off.val = h.position →
      st.step (v.volumes h.fs) (.read fileid bufsize off) reply (v.volumes h.fs) →
      ViewStep v (.read row bufsize) reply
        (v.setHandle row (some { h with position := h.position + reply.1.toNat }))
  | written {row : Nat} {h : FileHandle} {bytes : List Byte} {datasize fileid off : CInt} {w : V}
      {result : Int} : v.handles row = some h → fileid.val = h.fileid → off.val = h.position →
      st.step (v.volumes h.fs) (.write fileid (fun k => bytes.getD k 0) datasize off) (result, []) w →
      ViewStep v (.write row bytes datasize) (result, [])
        ((v.setVolume h.fs w).setHandle row
          (some { h with position := h.position + result.toNat }))
  | onVolume {c : FileCall} {pathname volume filename : Name} {op : Name → TfsOp} {fs : Nat} {w : V}
      {result : Int} : c.onPath? = some (pathname, op) → (∀ p, c ≠ .openFile p) →
      vfsParsePathname pathname = some (volume, filename) → v.mounted volume = some fs →
      st.step (v.volumes fs) (op filename) (result, []) w →
      ViewStep v c (result, []) (v.setVolume fs w)

end Steps

/-! ## The calls -/

section Calls

variable {σ V : Type} (ops : FsOps σ)

def FileCall.run : FileCall → Prog (Vfs σ) TfsReply
  | .openFile pathname => do
      let result ← vfsOpen ops pathname
      pure (result, [])
  | .close file => do
      let result ← vfsClose ops file
      pure (result, [])
  | .seek file position => do
      let result ← vfsSeek file position.val
      pure (result, [])
  | .read file bufsize => vfsRead ops file true bufsize.val
  | .write file bytes datasize => do
      let result ← vfsWrite ops file (some bytes) datasize.val
      pure (result, [])
  | .create pathname size => do
      let result ← vfsCreate ops pathname size.val
      pure (result, [])
  | .remove pathname => do
      let result ← vfsRemove ops pathname
      pure (result, [])

variable (st : Storage V) (shows : σ → V → Prop) (able : σ → V → TfsOp → Prop)

/-- The state of the VFS and its drivers shows as a view. -/
structure Vfs.Views (s : Vfs σ) (v : View V) : Prop where
  idle : s.Idle
  usable : s.vfsUsable = true
  mounts : ∀ name, vfsGetFilesystem s name = v.mounted name
  volumes : ∀ fs, shows (s.internal fs) (v.volumes fs)
  inside : ∀ row h, v.handles row = some h → row < CONFIG_MAX_OPEN_FILES
  vacant : ∀ row < CONFIG_MAX_OPEN_FILES, v.handles row = none → (s.files row).filesystem = none
  rows : ∀ row h, v.handles row = some h → s.files row = ⟨some h.fs, h.fileid, h.position⟩ ∧
    h.position < 0x80000000 ∧ st.files (v.volumes h.fs) h.fileid ≠ none

/-- The call of a volume that a call through an open file is. -/
def FileHandle.fileOp (h : FileHandle) : FileCall → Option TfsOp
  | .read _ bufsize => some (.read (toCInt h.fileid) bufsize (toCInt h.position))
  | .write _ bytes datasize =>
      some (.write (toCInt h.fileid) (fun k => bytes.getD k 0) datasize (toCInt h.position))
  | _ => none

/-- The file that a call is given; paths name none. -/
def FileCall.file? : FileCall → Option Int
  | .close file => some file
  | .seek file _ => some file
  | .read file _ => some file
  | .write file _ _ => some file
  | _ => none

/-- Lengths and positions are not negative, as the code asserts. -/
def FileCall.NonNegative : FileCall → Prop
  | .seek _ position => 0 ≤ position.val
  | .read _ bufsize => 0 ≤ bufsize.val
  | .write _ _ datasize => 0 ≤ datasize.val
  | .create _ size => 0 ≤ size.val
  | _ => True

/-- What the callers of the VFS owe it: a file that is open, a path that names a file, no removal
of a file that is open, and a driver that is able to make the call. -/
structure FileCall.Legal (c : FileCall) (s : Vfs σ) (v : View V) : Prop where
  nonneg : c.NonNegative
  file : ∀ f, c.file? = some f → ∃ (row : Nat) (h : FileHandle), f = row ∧
    v.handles row = some h ∧ ∀ op, h.fileOp c = some op → able (s.internal h.fs) (v.volumes h.fs) op
  path : ∀ pathname op, c.onPath? = some (pathname, op) → ∀ volume filename fs,
    vfsParsePathname pathname = some (volume, filename) → v.mounted volume = some fs →
      filename ≠ [] ∧ able (s.internal fs) (v.volumes fs) (op filename) ∧
        ∀ row h, v.handles row = some h → h.fs = fs →
          (op filename).Retains (st.files (v.volumes fs)) h.fileid

end Calls

/-! ## One call -/

theorem val_toCInt (x : Int) : (toCInt x).val = toInt32 x := rfl

theorem toCInt_val (x : CInt) : toCInt x.val = x := by
  apply Subtype.ext
  rw [val_toCInt, toInt32_eq x.2.1 x.2.2]

theorem toCInt_natCast {n : Nat} (small : n < 0x80000000) : (toCInt n).val = n := by
  rw [val_toCInt, toInt32_eq (by omega) (by omega)]

theorem ends_of_map {σ α β : Type} {m : Prog σ α} {g : α → β} {s : σ} {Q : β → σ → Prop}
    (ends : (m >>= fun a => pure (g a)).Ends s Q) : m.Ends s fun a t => Q (g a) t := by
  obtain ⟨b, t, ran, holds⟩ := ends
  obtain ⟨a, u, first, rest⟩ := Prog.bind_returned.1 ran
  cases rest
  exact ⟨a, t, first, holds⟩

theorem driven_of_returned {σ α β : Type} {s : Vfs σ} {fs : Nat} {m : Prog σ α} {a : α} {d : σ}
    {rest : α → Vfs σ → Outcome (β × Vfs σ)} (ran : m (s.internal fs) = .returned (a, d)) :
    driven s fs m rest = rest a (s.setInternal fs d) := by
  rw [driven, ran]

namespace View

variable {V : Type} {v : View V} {fs row : Nat}

theorem setVolume_self : v.setVolume fs (v.volumes fs) = v := by
  rw [setVolume, Function.update_eq_self]

@[simp] theorem setHandle_handles (h : Option FileHandle) : (v.setHandle row h).handles row = h :=
  Function.update_self _ _ _

theorem setHandle_self {h : Option FileHandle} (same : v.handles row = h) :
    v.setHandle row h = v := by
  rw [← same, setHandle, Function.update_eq_self]

end View

namespace Vfs.Views

variable {σ V : Type} {st : Storage V} {shows : σ → V → Prop} {s : Vfs σ} {v : View V}
  {fs row : Nat} {h : FileHandle} (views : s.Views st shows v)

include views

theorem openRow (isOpen : v.handles row = some h) : Fs.openRow s row = some (row, h.fs) := by
  have inside := views.inside row h isOpen
  rw [Fs.openRow, if_pos ⟨Int.natCast_nonneg _, by exact_mod_cast inside⟩, Int.toNat_natCast,
    (views.rows row h isOpen).1]
  rfl

theorem freeRow_some (found : freeRow s = some row) :
    row < CONFIG_MAX_OPEN_FILES ∧ v.handles row = none := by
  obtain ⟨inside, free⟩ := Fs.freeRow_some found
  refine ⟨inside, Option.eq_none_iff_forall_not_mem.2 fun h isOpen => ?_⟩
  rw [(views.rows row h isOpen).1] at free
  cases free

theorem freeRow_none (found : freeRow s = none) :
    ∀ row < CONFIG_MAX_OPEN_FILES, v.handles row ≠ none := by
  intro row inside closed
  have taken := List.find?_eq_none.1 found row (List.mem_range.2 inside)
  exact taken (decide_eq_true (views.vacant row inside closed))

/-- The driver of a volume makes a step. -/
theorem setVolume {d : σ} {w : V} (shown : shows d w)
    (kept : ∀ row h, v.handles row = some h → h.fs = fs → st.files w h.fileid ≠ none) :
    (s.setInternal fs d).Views st shows (v.setVolume fs w) where
  idle := views.idle.setInternal fs d
  usable := views.usable
  mounts := views.mounts
  volumes := by
    intro other
    by_cases same : other = fs
    · subst same
      simpa [Vfs.setInternal, View.setVolume] using shown
    · simpa [Vfs.setInternal, View.setVolume, same] using views.volumes other
  inside := views.inside
  vacant := views.vacant
  rows := by
    intro row h isOpen
    obtain ⟨entry, small, alive⟩ := views.rows row h isOpen
    refine ⟨entry, small, ?_⟩
    by_cases same : h.fs = fs
    · simpa [View.setVolume, same] using kept row h isOpen same
    · simpa [View.setVolume, same] using alive

/-- The driver of a volume leaves its files alone. -/
theorem sameVolume {d : σ} (shown : shows d (v.volumes fs)) :
    (s.setInternal fs d).Views st shows v := by
  have kept : ∀ row h, v.handles row = some h → h.fs = fs →
      st.files (v.volumes fs) h.fileid ≠ none := by
    rintro row h isOpen rfl
    exact (views.rows row h isOpen).2.2
  have moved := views.setVolume shown kept
  rwa [View.setVolume_self] at moved

/-- A row of the table is opened, or the position in it is moved. -/
theorem setRow (inside : row < CONFIG_MAX_OPEN_FILES) (small : h.position < 0x80000000)
    (alive : st.files (v.volumes h.fs) h.fileid ≠ none) :
    (s.setFile row ⟨some h.fs, h.fileid, h.position⟩).Views st shows
      (v.setHandle row (some h)) where
  idle := views.idle.setFile _ _
  usable := views.usable
  mounts := views.mounts
  volumes := views.volumes
  inside := by
    intro other h' isOpen
    by_cases same : other = row
    · exact same ▸ inside
    · exact views.inside other h' (by simpa [View.setHandle, same] using isOpen)
  vacant := by
    intro other inside closed
    by_cases same : other = row
    · simp [View.setHandle, same] at closed
    · simpa [Vfs.setFile, same] using
        views.vacant other inside (by simpa [View.setHandle, same] using closed)
  rows := by
    intro other h' isOpen
    by_cases same : other = row
    · subst same
      simp only [View.setHandle, Function.update_self, Option.some.injEq] at isOpen
      subst isOpen
      exact ⟨by simp [Vfs.setFile], small, alive⟩
    · have kept := views.rows other h' (by simpa [View.setHandle, same] using isOpen)
      simpa [Vfs.setFile, same, View.setHandle] using kept

/-- A row of the table is given back. -/
theorem clearRow (row : Nat) (entry : OpenfileEntry) (free : entry.filesystem = none) :
    (s.setFile row entry).Views st shows (v.setHandle row none) where
  idle := views.idle.setFile _ _
  usable := views.usable
  mounts := views.mounts
  volumes := views.volumes
  inside := by
    intro other h' isOpen
    by_cases same : other = row
    · simp [View.setHandle, same] at isOpen
    · exact views.inside other h' (by simpa [View.setHandle, same] using isOpen)
  vacant := by
    intro other inside closed
    by_cases same : other = row
    · simpa [Vfs.setFile, same] using free
    · simpa [Vfs.setFile, same] using
        views.vacant other inside (by simpa [View.setHandle, same] using closed)
  rows := by
    intro other h' isOpen
    by_cases same : other = row
    · simp [View.setHandle, same] at isOpen
    · have kept := views.rows other h' (by simpa [View.setHandle, same] using isOpen)
      simpa [Vfs.setFile, same, View.setHandle] using kept

/-- The position after a transfer. -/
theorem advanced {result : Int} (isOpen : v.handles row = some h)
    (small : 0 < result → h.position + result < 0x80000000) :
    (s.advanced row result).Views st shows
      (v.setHandle row (some { h with position := h.position + result.toNat })) := by
  obtain ⟨entry, before, alive⟩ := views.rows row h isOpen
  unfold Vfs.advanced
  split
  · rename_i moved
    have after := small moved
    have position : toInt32 ((s.files row).seekPosition + result) =
        (h.position + result.toNat : Nat) := by
      rw [entry, toInt32_eq (by dsimp only; omega) (by exact after)]
      dsimp only
      omega
    rw [position, entry]
    exact views.setRow (h := { h with position := h.position + result.toNat })
      (views.inside row h isOpen) (by dsimp only; omega) alive
  · rename_i still
    have same : { h with position := h.position + result.toNat } = h := by
      rw [show result.toNat = 0 by omega]
      rfl
    rw [same, View.setHandle_self isOpen]
    exact views

/-- A state shows as one view. -/
theorem unique {w : View V} (once : ∀ {d v w}, shows d v → shows d w → v = w)
    (second : s.Views st shows w) : v = w := by
  have mounted : v.mounted = w.mounted :=
    funext fun name => (views.mounts name).symm.trans (second.mounts name)
  have volumes : v.volumes = w.volumes :=
    funext fun fs => once (views.volumes fs) (second.volumes fs)
  have closed {v w : View V} (one : s.Views st shows v) (other : s.Views st shows w) {row : Nat}
      {h : FileHandle} (isOpen : v.handles row = some h) : w.handles row ≠ none := by
    intro free
    have vacant := other.vacant row (one.inside row h isOpen) free
    rw [(one.rows row h isOpen).1] at vacant
    cases vacant
  have handles : v.handles = w.handles := by
    funext row
    cases here : v.handles row with
    | none =>
        cases there : w.handles row with
        | none => rfl
        | some h' => exact absurd here (closed second views there)
    | some h =>
        cases there : w.handles row with
        | none => exact absurd there (closed views second here)
        | some h' =>
            have same := (views.rows row h here).1.symm.trans (second.rows row h' there).1
            simp only [OpenfileEntry.mk.injEq, Option.some.injEq, Int.natCast_inj] at same
            obtain ⟨fs, fileid, position⟩ := same
            exact congrArg some (FileHandle.ext fs fileid position)
  cases v
  cases w
  simp only at mounted volumes handles
  rw [mounted, volumes, handles]

end Vfs.Views

/-- A row that was reserved for the driver's answer. -/
theorem setFile_again {σ : Type} (s : Vfs σ) (row fs : Nat) (a b : OpenfileEntry) (d : σ) :
    ((s.setFile row a).setInternal fs d).setFile row b = (s.setInternal fs d).setFile row b := by
  simp [Vfs.setFile, Vfs.setInternal]

section Step

variable {σ V : Type} {st : Storage V} {shows : σ → V → Prop} {able : σ → V → TfsOp → Prop}
  {ops : FsOps σ} {s : Vfs σ} {v : View V}

/-- A driver function run on a volume of the view. -/
theorem Storage.Served.call (served : st.Served ops shows able) (views : s.Views st shows v)
    {c : DriverCall} {op : TfsOp} (fs : Nat) (asked : c.fileOp = some op)
    (right : op.Right (st.files (v.volumes fs)))
    (can : able (s.internal fs) (v.volumes fs) op) :
    (ops.perform c).Ends (s.internal fs) fun reply d =>
      ∃ w, st.step (v.volumes fs) op (reply.ret, reply.data) w ∧ shows d w :=
  served.serve asked (views.volumes fs) right can

/-- The call of `run` is a step. -/
def FileCall.Steps (c : FileCall) (ops : FsOps σ) (st : Storage V) (shows : σ → V → Prop) (s : Vfs σ)
    (v : View V) : Prop :=
  (c.run ops).Ends s fun reply t => ∃ w, ViewStep st v c reply w ∧ t.Views st shows w

variable (served : st.Served ops shows able) (views : s.Views st shows v)

include served views

theorem vfsOpen_step {pathname : Name} (legal : (FileCall.openFile pathname).Legal st able s v) :
    (FileCall.openFile pathname).Steps ops st shows s v := by
  have run {result : Int} {t : Vfs σ} (ran : vfsOpen ops pathname s = .returned (result, t)) :
      (FileCall.openFile pathname).run ops s = .returned ((result, []), t) :=
    Prog.bind_of_returned ran
  have ran := vfsOpen_idle views.idle ops pathname
  rw [views.usable, if_pos rfl] at ran
  cases parsed : vfsParsePathname pathname with
  | none =>
      rw [parsed] at ran
      exact ⟨_, s, run ran, v, .badPath rfl parsed, views⟩
  | some names =>
      obtain ⟨volume, filename⟩ := names
      rw [parsed] at ran
      cases free : freeRow s with
      | none =>
          rw [free] at ran
          exact ⟨_, s, run ran, v, .tableFull parsed (views.freeRow_none free), views⟩
      | some row =>
          obtain ⟨inside, closed⟩ := views.freeRow_some free
          cases found : vfsGetFilesystem s volume with
          | none =>
              simp only [free, found] at ran
              rw [views.mounts] at found
              exact ⟨_, s, run ran, v, .noVolume rfl parsed found, views⟩
          | some fs =>
              simp only [free, found] at ran
              rw [views.mounts] at found
              obtain ⟨named, can, -⟩ := legal.path pathname _ rfl volume filename fs parsed found
              obtain ⟨fileid, d, opened, w, step, shown⟩ :=
                ends_of_map (served.call views fs (c := .openFile filename) rfl named can)
              rw [driven_of_returned (by exact opened)] at ran
              obtain ⟨rfl, outcome⟩ := st.opened step
              have kept := views.sameVolume shown
              by_cases failed : fileid < 0
              · rw [if_pos failed, setFile_again] at ran
                have back := kept.clearRow row { s.files row with filesystem := none } rfl
                rw [View.setHandle_self closed] at back
                refine ⟨_, _, run (ran.trans ?_), v, .notOpened parsed found step failed, back⟩
                simp [Vfs.setFile]
              · obtain ⟨i, file, rfl, at_, name⟩ := outcome.resolve_left failed
                rw [if_neg failed, setFile_again] at ran
                have back := kept.setRow (h := ⟨fs, i, 0⟩) inside (show 0 < 0x80000000 by omega)
                  (by rw [at_]; exact Option.some_ne_none _)
                refine ⟨_, _, run (ran.trans ?_), _, .opened parsed found inside closed step, back⟩
                simp [Vfs.setFile]

theorem vfsClose_step {file : Int} (legal : (FileCall.close file).Legal st able s v) :
    (FileCall.close file).Steps ops st shows s v := by
  obtain ⟨row, h, rfl, isOpen, -⟩ := legal.file file rfl
  have ran := vfsClose_idle views.idle ops row
  rw [views.usable, if_pos rfl, views.openRow isOpen] at ran
  obtain ⟨ret, d, closed, rfl, shown⟩ := served.close (s.files row).fileid (views.volumes h.fs)
  simp only [driven_of_returned closed] at ran
  exact ⟨_, _, Prog.bind_of_returned ran, _, .closed isOpen, (views.sameVolume shown).clearRow row _ rfl⟩

omit served in
theorem vfsSeek_step {file : Int} {position : CInt}
    (legal : (FileCall.seek file position).Legal st able s v) :
    (FileCall.seek file position).Steps ops st shows s v := by
  obtain ⟨row, h, rfl, isOpen, -⟩ := legal.file file rfl
  have low : 0 ≤ position.val := legal.nonneg
  have high := position.2.2
  obtain ⟨entry, -, alive⟩ := views.rows row h isOpen
  have ran := vfsSeek_idle views.idle row position.val
  rw [views.usable, if_pos rfl, if_pos low, views.openRow isOpen] at ran
  obtain ⟨p, place⟩ := Int.eq_ofNat_of_zero_le low
  have back := views.setRow (h := { h with position := p }) (views.inside row h isOpen)
    (by dsimp only; omega) alive
  refine ⟨_, _, Prog.bind_of_returned ran, _, .sought isOpen place, ?_⟩
  rw [entry, place]
  exact back

theorem vfsRead_step {file : Int} {bufsize : CInt}
    (legal : (FileCall.read file bufsize).Legal st able s v) :
    (FileCall.read file bufsize).Steps ops st shows s v := by
  obtain ⟨row, h, rfl, isOpen, can⟩ := legal.file file rfl
  have low : 0 ≤ bufsize.val := legal.nonneg
  obtain ⟨entry, near, alive⟩ := views.rows row h isOpen
  obtain ⟨f, at_⟩ := Option.ne_none_iff_exists'.1 alive
  obtain ⟨small, bound⟩ := served.small (views.volumes h.fs) at_
  have ran := vfsRead_idle views.idle ops row true bufsize.val
  rw [views.usable, if_pos rfl, views.openRow isOpen] at ran
  simp only [low, decide_true, Bool.and_self, if_true, entry] at ran
  have asked : (DriverCall.read h.fileid bufsize.val h.position).fileOp =
      some (.read (toCInt h.fileid) bufsize (toCInt h.position)) := by
    rw [DriverCall.fileOp, toCInt_val]
  obtain ⟨reply, d, moved, w, step, shown⟩ := ends_of_map (served.call views h.fs asked
    ⟨low, h.fileid, toCInt_natCast small, alive⟩ (can _ rfl))
  obtain ⟨rfl, full, refused⟩ := st.read step (toCInt_natCast small) at_
  rw [driven_of_returned moved] at ran
  refine ⟨_, _, ran, _, .read isOpen (toCInt_natCast small) (toCInt_natCast near) step, ?_⟩
  refine (views.sameVolume shown).advanced isOpen fun moving => ?_
  rw [toCInt_natCast near] at full refused
  by_cases within : 0 ≤ (h.position : Int) ∧ (h.position : Int) ≤ f.size
  · have count : reply.1 = min bufsize.val (f.size - h.position) := congrArg Prod.fst (full within)
    omega
  · exact absurd (refused within) (not_lt_of_gt moving)

theorem vfsWrite_step {file : Int} {bytes : List Byte} {datasize : CInt}
    (legal : (FileCall.write file bytes datasize).Legal st able s v) :
    (FileCall.write file bytes datasize).Steps ops st shows s v := by
  obtain ⟨row, h, rfl, isOpen, can⟩ := legal.file file rfl
  have low : 0 ≤ datasize.val := legal.nonneg
  obtain ⟨entry, near, alive⟩ := views.rows row h isOpen
  obtain ⟨f, at_⟩ := Option.ne_none_iff_exists'.1 alive
  obtain ⟨small, -⟩ := served.small (views.volumes h.fs) at_
  have ran := vfsWrite_idle views.idle ops row (some bytes) datasize.val
  rw [views.usable, if_pos rfl, views.openRow isOpen] at ran
  simp only [low, if_true, entry] at ran
  have asked : (DriverCall.write h.fileid bytes datasize.val h.position).fileOp =
      some (.write (toCInt h.fileid) (fun k => bytes.getD k 0) datasize (toCInt h.position)) := by
    rw [DriverCall.fileOp, toCInt_val]
  obtain ⟨result, d, moved, w, step, shown⟩ := ends_of_map (served.call views h.fs asked
    ⟨low, h.fileid, toCInt_natCast small, alive⟩ (can _ rfl))
  rw [driven_of_returned moved] at ran
  refine ⟨_, _, Prog.bind_of_returned ran, _,
    .written isOpen (toCInt_natCast small) (toCInt_natCast near) step, ?_⟩
  have back := views.setVolume shown fun row' h' isOpen' here => by
    have alive' := (views.rows row' h' isOpen').2.2
    rw [here] at alive'
    exact st.retained step trivial alive'
  refine back.advanced isOpen fun moving => ?_
  obtain ⟨-, -, f', at', size, -⟩ := st.written step (toCInt_natCast small) at_ moving
  have bound := (served.small shown at').2
  rw [toCInt_natCast near] at size
  dsimp only at size
  omega

/-- A call with a path that is not an open. -/
theorem onPath_step {pathname : Name} {c : FileCall} {op : Name → TfsOp}
    (call : Name → DriverCall) {m : Name → Prog σ Int} (legal : c.Legal st able s v)
    (isPath : c.onPath? = some (pathname, op)) (notOpen : ∀ p, c ≠ .openFile p)
    (asked : ∀ filename, (call filename).fileOp = some (op filename))
    (runs : ∀ filename, ops.perform (call filename) = m filename >>= fun ret => pure ⟨ret, [], []⟩)
    (right : ∀ files filename, filename ≠ [] → (op filename).Right files)
    (ran : c.run ops s = (onPath pathname id m >>= fun result => pure (result, [])) s) :
    c.Steps ops st shows s v := by
  have path := onPath_idle views.idle pathname id m
  rw [views.usable, if_pos rfl] at path
  cases parsed : vfsParsePathname pathname with
  | none =>
      rw [parsed] at path
      exact ⟨_, s, ran.trans (Prog.bind_of_returned path), v, .badPath isPath parsed, views⟩
  | some names =>
      obtain ⟨volume, filename⟩ := names
      cases found : vfsGetFilesystem s volume with
      | none =>
          simp only [parsed, found] at path
          rw [views.mounts] at found
          exact ⟨_, s, ran.trans (Prog.bind_of_returned path), v, .noVolume isPath parsed found, views⟩
      | some fs =>
          simp only [parsed, found] at path
          rw [views.mounts] at found
          obtain ⟨named, can, retains⟩ := legal.path pathname op isPath volume filename fs parsed found
          have ends := served.call views fs (asked filename) (right _ _ named) can
          rw [runs] at ends
          obtain ⟨result, d, moved, w, step, shown⟩ := ends_of_map ends
          rw [driven_of_returned moved] at path
          refine ⟨_, _, ran.trans (Prog.bind_of_returned path), _,
            .onVolume isPath notOpen parsed found step, views.setVolume shown fun row h isOpen here => ?_⟩
          have alive := (views.rows row h isOpen).2.2
          rw [here] at alive
          exact st.retained step (retains row h isOpen here) alive

/-- **One call** of the VFS, over any driver that serves a storage. -/
theorem view_step {c : FileCall} (legal : c.Legal st able s v) : c.Steps ops st shows s v := by
  cases c with
  | openFile pathname => exact vfsOpen_step served views legal
  | close file => exact vfsClose_step served views legal
  | seek file position => exact vfsSeek_step views legal
  | read file bufsize => exact vfsRead_step served views legal
  | write file bytes datasize => exact vfsWrite_step served views legal
  | create pathname size =>
      have low : 0 ≤ size.val := legal.nonneg
      refine onPath_step served views (fun filename => .create filename size.val) legal rfl
        (fun p => nofun) (fun filename => ?_) (fun _ => rfl) (fun _ _ named => named) ?_
      · rw [DriverCall.fileOp, toCInt_val]
      · rw [FileCall.run, Prog.bind_apply, vfsCreate_apply, if_pos low]
        rfl
  | remove pathname =>
      exact onPath_step served views .remove legal rfl
        (fun p => nofun) (fun _ => rfl) (fun _ => rfl) (fun _ _ named => named) rfl

end Step

/-! ## What a call leaves alone -/

section Spared

variable {V : Type} {st : Storage V} {v w : View V} {c : FileCall} {reply : TfsReply} {fs i : Nat}

/-- The call neither writes to file `i` of filesystem `fs` nor removes it. -/
structure FileCall.Spares (c : FileCall) (st : Storage V) (v : View V) (fs i : Nat) : Prop where
  file : ∀ (row : Nat) (h : FileHandle) (op : TfsOp), c.file? = some (row : Int) →
    v.handles row = some h → h.fs = fs → h.fileOp c = some op → op.Spares (st.files (v.volumes fs)) i
  path : ∀ pathname op volume filename, c.onPath? = some (pathname, op) →
    vfsParsePathname pathname = some (volume, filename) → v.mounted volume = some fs →
      (op filename).Spares (st.files (v.volumes fs)) i

/-- **A file changes only by a write to it or by its removal**, and the mount table not at all. -/
theorem ViewStep.spared (step : ViewStep st v c reply w) (spares : c.Spares st v fs i)
    (alive : st.files (v.volumes fs) i ≠ none) :
    st.files (w.volumes fs) i = st.files (v.volumes fs) i := by
  cases step with
  | badPath | noVolume | tableFull | opened | notOpened | closed | sought | read => rfl
  | @written row h bytes datasize fileid off w' result isOpen isFile begins moved =>
      by_cases here : h.fs = fs
      · have same : fileid = toCInt h.fileid ∧ off = toCInt h.position :=
          ⟨by rw [← isFile, toCInt_val], by rw [← begins, toCInt_val]⟩
        have kept := spares.file row h _ rfl isOpen here rfl
        rw [← same.1, ← same.2, ← here] at kept
        subst here
        simpa [View.setHandle, View.setVolume] using st.spared moved kept alive
      · simp [View.setHandle, View.setVolume, Ne.symm here]
  | @onVolume _ pathname volume filename op fs' w' result isPath notOpen parsed found moved =>
      by_cases here : fs' = fs
      · subst here
        have kept := spares.path pathname op volume filename isPath parsed found
        simpa [View.setVolume] using st.spared moved kept alive
      · simp [View.setVolume, Ne.symm here]

end Spared

end Buenos.Fs
