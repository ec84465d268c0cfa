import Mathlib.Data.List.AList
import RchProxy.Lib.Prog
import RchProxy.Py.Hashlib

/-!
# The directory of a job

What the parser worker and the tools see of a published job: its directory, with the capture files
and the markers in it, and the directories of parser output below it. A program on it (`Job`) calls
one operation at a time; what the program does not determine (a clock, a random name, the age of a
claim, an operation that fails) is a choice (`Choice`). Symbolic links and permissions are left out:
no modelled function makes a link.
-/

namespace RchProxy

open Py Lib

/-- The 32 hexadecimal digits of `uuid4().hex`. -/
abbrev LeaseToken := { t : Text // t.length = 32 ∧ t.all (fun c => c.isDigit || ('a' ≤ c && c ≤ 'f')) }

/-- A directory of files. -/
abbrev Dir := AList fun _ : Text => Bytes

/-- A file of the job, or a directory below it. -/
inductive Node where
  | file (data : Bytes)
  | dir (files : Dir)
  deriving DecidableEq

/-- The directory of a job, by the names in it. -/
abbrev JobDir := AList fun _ : Text => Node

/-- `job_dir / name`, or `job_dir / dir / name`. -/
structure Loc where
  dir : Option Text := none
  name : Text
  deriving DecidableEq, Repr

/-- What `stat` says about a path. -/
inductive Kind where
  | file (size : Nat)
  | dir
  deriving DecidableEq, Repr

namespace JobDir

variable (s : JobDir)

/-- The node at a path. -/
def node (p : Loc) : Option Node :=
  match p.dir with
  | none => s.lookup p.name
  | some d =>
    match s.lookup d with
    | some (.dir files) => (files.lookup p.name).map .file
    | _ => none

/-- `lstat`. -/
def kind (p : Loc) : Option Kind :=
  (s.node p).map fun
    | .file data => .file data.length
    | .dir _ => .dir

/-- `path.read_bytes()`. -/
def read (p : Loc) : Except Error Bytes :=
  match s.node p with
  | some (.file data) => .ok data
  | some (.dir _) => .error (.osError .isADirectory)
  | none => .error (.osError .fileNotFound)

/-- `path.iterdir()`, of the job directory or of a directory below it. -/
def iterdir : Option Text → Except Error (List Text)
  | none => .ok s.keys
  | some d =>
    match s.lookup d with
    | some (.dir files) => .ok files.keys
    | some (.file _) => .error (.osError .notADirectory)
    | none => .error (.osError .fileNotFound)

/-- `path.mkdir()`, in the job directory. -/
def mkdir (name : Text) : Except Error JobDir :=
  match s.lookup name with
  | some _ => .error (.osError .fileExists)
  | none => .ok (s.insert name (.dir ∅))

/-- A change of the files of a directory below the job. -/
def within (d : Text) (f : Dir → Except Error Dir) : Except Error JobDir :=
  match s.lookup d with
  | some (.dir files) => do return s.insert d (.dir (← f files))
  | some (.file _) => .error (.osError .notADirectory)
  | none => .error (.osError .fileNotFound)

/-- `os.open(path, O_CREAT | O_EXCL)`. -/
def create (p : Loc) : Except Error JobDir :=
  match p.dir with
  | none =>
    match s.lookup p.name with
    | some _ => .error (.osError .fileExists)
    | none => .ok (s.insert p.name (.file []))
  | some d => s.within d fun files =>
    match files.lookup p.name with
    | some _ => .error (.osError .fileExists)
    | none => .ok (files.insert p.name [])

/-- A write through the descriptor of an open file, which may have lost its name. -/
def write (p : Loc) (data : Bytes) : JobDir :=
  match p.dir with
  | none =>
    match s.lookup p.name with
    | some (.file old) => s.insert p.name (.file (old ++ data))
    | _ => s
  | some d =>
    match s.lookup d with
    | some (.dir files) =>
      match files.lookup p.name with
      | some old => s.insert d (.dir (files.insert p.name (old ++ data)))
      | none => s
    | _ => s

/-- A whole file, as a generator writes it under a path in a directory below the job. -/
def store (d name : Text) (data : Bytes) : Except Error JobDir :=
  s.within d fun files => .ok (files.insert name data)

/-- `os.rename` and `os.replace`, within the job directory or within a directory below it. A
directory replaces an empty directory only. -/
def rename (d : Option Text) (src dst : Text) : Except Error JobDir :=
  match d with
  | none =>
    match s.lookup src, s.lookup dst with
    | none, _ => .error (.osError .fileNotFound)
    | some (.file _), some (.dir _) => .error (.osError .isADirectory)
    | some (.dir _), some (.file _) => .error (.osError .notADirectory)
    | some n@(.dir _), some (.dir files) =>
      if files.keys = [] then .ok ((s.erase src).insert dst n) else .error (.osError .notEmpty)
    | some n, _ => .ok ((s.erase src).insert dst n)
  | some d => s.within d fun files =>
    match files.lookup src with
    | none => .error (.osError .fileNotFound)
    | some data => .ok ((files.erase src).insert dst data)

/-- `path.unlink()`. -/
def unlink (p : Loc) : Except Error JobDir :=
  match p.dir with
  | none =>
    match s.lookup p.name with
    | some (.file _) => .ok (s.erase p.name)
    | some (.dir _) => .error (.osError .isADirectory)
    | none => .error (.osError .fileNotFound)
  | some d => s.within d fun files =>
    match files.lookup p.name with
    | some _ => .ok (files.erase p.name)
    | none => .error (.osError .fileNotFound)

/-- `os.rmdir(path)`, in the job directory. -/
def rmdir (name : Text) : Except Error JobDir :=
  match s.lookup name with
  | some (.dir files) =>
    if files.keys = [] then .ok (s.erase name) else .error (.osError .notEmpty)
  | some (.file _) => .error (.osError .notADirectory)
  | none => .error (.osError .fileNotFound)

end JobDir

/-! ## Operations -/

/-- The operations of the programs on a job directory. -/
inductive Op where
  | kind (p : Loc)
  | read (p : Loc)
  | iterdir (dir : Option Text)
  | mkdir (name : Text)
  | create (p : Loc)
  | write (p : Loc) (data : Bytes)
  | store (dir name : Text) (data : Bytes)
  | fsync
  | rename (dir : Option Text) (src dst : Text)
  | unlink (p : Loc)
  | rmdir (name : Text)
  | utime (p : Loc)
  | lock
  | unlock
  | uuid4
  | now
  | stale
  deriving DecidableEq, Repr

/-- What an operation answers. -/
abbrev Op.Res : Op → Type
  | .kind _ => Option Kind
  | .read _ => Except Error Bytes
  | .iterdir _ => Except Error (List Text)
  | .lock => Bool
  | .unlock => Unit
  | .uuid4 => LeaseToken
  | .now => Text
  | .stale => Bool
  | _ => Except Error Unit

/-- What a program does not determine: whether an operation fails, and the answers of the clock, of
`uuid4` and of a look at the age of the claim. -/
structure Choice where
  fault : Option Errno := none
  uuid : LeaseToken
  now : Text
  stale : Bool
  timeout : Bool

/-- Nothing fails. -/
def Choice.quiet : Choice where
  uuid := ⟨List.replicate 32 '0', by decide⟩
  now := "2026-01-01T00:00:00+00:00".toList
  stale := false
  timeout := false

/-- An operation that changes the directory, unless it fails. -/
def attempt (fault : Option Errno) (s : JobDir) (result : Except Error JobDir) :
    Except Error Unit × JobDir :=
  match fault with
  | some e => (.error (.osError e), s)
  | none =>
    match result with
    | .ok s' => (.ok (), s')
    | .error e => (.error e, s)

/-- One operation, for a program that has the directory to itself: the lock is free. -/
def JobDir.exec (c : Choice) : (op : Op) → JobDir → op.Res × JobDir
  | .kind p, s => (s.kind p, s)
  | .read p, s => (s.read p, s)
  | .iterdir d, s => (s.iterdir d, s)
  | .mkdir name, s => attempt c.fault s (s.mkdir name)
  | .create p, s => attempt c.fault s (s.create p)
  | .write p data, s => attempt c.fault s (.ok (s.write p data))
  | .store d name data, s => attempt c.fault s (s.store d name data)
  | .fsync, s => attempt c.fault s (.ok s)
  | .rename d src dst, s => attempt c.fault s (s.rename d src dst)
  | .unlink p, s => attempt c.fault s (s.unlink p)
  | .rmdir name, s => attempt c.fault s (s.rmdir name)
  | .utime p, s => attempt c.fault s (if (s.node p).isSome then .ok s else .error (.osError .fileNotFound))
  | .lock, s => (true, s)
  | .unlock, s => ((), s)
  | .uuid4, s => (c.uuid, s)
  | .now, s => (c.now, s)
  | .stale, s => (c.stale, s)

end RchProxy
