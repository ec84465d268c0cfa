import RchProxy.Storage.JobDir

/-!
# Files that appear whole

The helpers of `storage/atomic.py` and `storage/locking.py`, as programs on a job directory.
-/

namespace RchProxy

open Py Lib

/-- A program on a job directory. -/
abbrev Job := Prog Op Op.Res Error

namespace Job

/-- The operation, with its error raised. -/
def mkdir (name : Text) : Job Unit := do Prog.ofExcept (← Prog.perform (.mkdir name))

@[inherit_doc mkdir]
def create (p : Loc) : Job Unit := do Prog.ofExcept (← Prog.perform (.create p))

@[inherit_doc mkdir]
def write (p : Loc) (data : Bytes) : Job Unit := do Prog.ofExcept (← Prog.perform (.write p data))

@[inherit_doc mkdir]
def store (d name : Text) (data : Bytes) : Job Unit := do
  Prog.ofExcept (← Prog.perform (.store d name data))

/-- `os.fsync`, of a file or of a directory. -/
def fsync : Job Unit := do Prog.ofExcept (← Prog.perform .fsync)

@[inherit_doc mkdir]
def rename (d : Option Text) (src dst : Text) : Job Unit := do
  Prog.ofExcept (← Prog.perform (.rename d src dst))

@[inherit_doc mkdir]
def unlink (p : Loc) : Job Unit := do Prog.ofExcept (← Prog.perform (.unlink p))

@[inherit_doc mkdir]
def rmdir (name : Text) : Job Unit := do Prog.ofExcept (← Prog.perform (.rmdir name))

@[inherit_doc mkdir]
def utime (p : Loc) : Job Unit := do Prog.ofExcept (← Prog.perform (.utime p))

@[inherit_doc mkdir]
def read (p : Loc) : Job Bytes := do Prog.ofExcept (← Prog.perform (.read p))

@[inherit_doc mkdir]
def iterdir (d : Option Text) : Job (List Text) := do Prog.ofExcept (← Prog.perform (.iterdir d))

/-- What is at a path. -/
def kind (p : Loc) : Job (Option Kind) := Prog.perform (Op.kind p)

/-- `path.is_file()`. -/
def isFile (p : Loc) : Job Bool := do
  match ← kind p with
  | some (.file _) => return true
  | _ => return false

/-- `path.is_dir()`. -/
def isDir (p : Loc) : Job Bool := do return (← kind p) = some .dir

/-- `path.exists()`. -/
def exist (p : Loc) : Job Bool := do return (← kind p).isSome

/-- `with FileLock(job_dir / ".parser.lock", timeout=5.0)`. -/
def withLock {α : Type} (m : Job α) : Job α := do
  if ← Prog.perform .lock then Prog.tryFinally m (Prog.perform Op.unlock)
  else throw .fileLockTimeout

/-- `path.mkdir(exist_ok=True)`, in `ensure_directory`. -/
def ensureDirectory (d : Text) : Job Unit := do
  match (← Prog.perform (.mkdir d) : Except Error Unit) with
  | .ok () => return ()
  | .error e => if ← isDir { name := d } then return () else throw e

/-- The name of a temporary file beside `name`. -/
def tempName (name : Text) (uuid : LeaseToken) : Text :=
  '.' :: name ++ '.' :: uuid.val ++ ".tmp".toList

/-- `temp.unlink()`, for a file that may be gone. -/
def unlinkTemp (temp : Loc) : Job Unit := do
  match (← Prog.perform (.unlink temp) : Except Error Unit) with
  | .ok () => return ()
  | .error (.osError .fileNotFound) => return ()
  | .error e => throw e

/-- `ensure_directory(path.parent)`; the job directory is there. -/
def ensureParent (p : Loc) : Job Unit :=
  match p.dir with
  | some d => ensureDirectory d
  | none => return ()

/-- `atomic_write_bytes`. -/
def atomicWriteBytes (p : Loc) (data : Bytes) : Job Unit := do
  ensureParent p
  let temp := tempName p.name (← Prog.perform .uuid4)
  create ⟨p.dir, temp⟩
  Prog.tryFinally
    (do
      write ⟨p.dir, temp⟩ data
      fsync
      rename p.dir temp p.name
      fsync)
    (unlinkTemp ⟨p.dir, temp⟩)

/-- `atomic_generate`, into a directory below the job. -/
def atomicGenerate (d name : Text) (generator : Except Error Bytes) : Job Unit := do
  ensureDirectory d
  let temp := tempName name (← Prog.perform .uuid4)
  create ⟨some d, temp⟩
  Prog.tryFinally
    (do
      store d temp (← Prog.ofExcept generator)
      fsync
      rename (some d) temp name
      fsync)
    (unlinkTemp ⟨some d, temp⟩)

/-- The files of a directory, unlinked one by one. -/
def unlinkAll (d : Text) : List Text → Job Unit
  | [] => return ()
  | name :: names => do
    unlink ⟨some d, name⟩
    unlinkAll d names

/-- `shutil.rmtree`, of a directory below the job. -/
def rmtree (d : Text) : Job Unit := do
  unlinkAll d (← iterdir (some d))
  rmdir d

end Job

end RchProxy
