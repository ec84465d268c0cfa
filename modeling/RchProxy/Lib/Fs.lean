import Mathlib.Data.List.Dedup
import Mathlib.Data.List.Infix
import Mathlib.Logic.Function.Basic

/-!
# A file system

A tree of directories and files, as a map from paths to nodes. A path lists its components from the
last one up, so that an entry of a directory `dir` is `name :: dir` and everything below `dir` has it
as a suffix. Every operation returns a tree or leaves the old one: `rename` moves a whole subtree in
one step, and replaces a file that stands in its place.
-/

namespace Lib

/-- A path, its last component first. -/
abbrev Path := List (List Char)

/-- What a path leads to. -/
inductive Node where
  | file (data : List UInt8)
  | dir
  deriving DecidableEq, Repr

/-- Why an operation failed. -/
inductive FsError where
  | fileExists
  | fileNotFound
  | notADirectory
  | isADirectory
  | notEmpty
  deriving DecidableEq, Repr

/-- A file system. -/
structure Fs where
  node : Path → Option Node
  /-- The paths among which the existing ones are found. -/
  paths : List Path
  covered : ∀ p, node p ≠ none → p ∈ paths
  /-- An entry stands in a directory. -/
  tree : ∀ name dir, node (name :: dir) ≠ none → node dir = some .dir

namespace Fs

variable (fs : Fs)

/-- Whether anything is at the path. -/
def exist (p : Path) : Bool := (fs.node p).isSome

/-- Whether a file is at the path. -/
def isFile (p : Path) : Bool :=
  match fs.node p with
  | some (.file _) => true
  | _ => false

/-- Whether a directory is at the path. -/
def isDir (p : Path) : Bool := fs.node p = some .dir

/-- The contents of the file at the path. -/
def read (p : Path) : Except FsError (List UInt8) :=
  match fs.node p with
  | some (.file data) => .ok data
  | some .dir => .error .isADirectory
  | none => .error .fileNotFound

/-- The names in a directory, in no particular order. -/
def entries (dir : Path) : List (List Char) :=
  fs.paths.dedup.filterMap fun
    | name :: p => if p = dir ∧ fs.exist (name :: p) then some name else none
    | [] => none

/-- The existing paths below a directory. -/
def below (dir : Path) : List Path :=
  fs.paths.dedup.filter fun p => dir.isSuffixOf p && fs.exist p

theorem mem_entries {dir : Path} {name : List Char} :
    name ∈ fs.entries dir ↔ fs.node (name :: dir) ≠ none := by
  unfold entries
  rw [List.mem_filterMap]
  constructor
  · rintro ⟨p, -, hp⟩
    split at hp
    · next n q =>
      split at hp
      · next hq =>
        cases hp
        obtain ⟨rfl, he⟩ := hq
        exact Option.isSome_iff_ne_none.mp he
      · cases hp
    · cases hp
  · intro h
    refine ⟨name :: dir, List.mem_dedup.mpr (fs.covered _ h), ?_⟩
    simp [exist, Option.isSome_iff_ne_none.mpr h]

theorem mem_below {dir p : Path} : p ∈ fs.below dir ↔ dir <:+ p ∧ fs.node p ≠ none := by
  simp only [below, List.mem_filter, List.mem_dedup, Bool.and_eq_true, List.isSuffixOf_iff_suffix,
    exist, Option.isSome_iff_ne_none]
  exact ⟨fun h => h.2, fun h => ⟨fs.covered p h.2, h⟩⟩

/-- Nothing is below a file, nor below nothing. -/
theorem node_below_eq_none {p q : Path} (h : fs.node p ≠ some .dir) (hq : q ≠ []) :
    fs.node (q ++ p) = none := by
  induction q with
  | nil => exact absurd rfl hq
  | cons name q ih =>
    by_contra hne
    have hdir := fs.tree name (q ++ p) hne
    by_cases hq' : q = []
    · subst hq'; exact h hdir
    · rw [ih hq'] at hdir; cases hdir

/-! ## Operations -/

/-- The tree with a node put where no directory is, in a directory. -/
def put (name : List Char) (dir : Path) (n : Node) (hdir : fs.node dir = some .dir)
    (hp : fs.node (name :: dir) ≠ some .dir) : Fs where
  node := Function.update fs.node (name :: dir) (some n)
  paths := (name :: dir) :: fs.paths
  covered := by
    intro p h
    by_cases heq : p = name :: dir
    · exact heq ▸ List.mem_cons_self
    · rw [Function.update_of_ne heq] at h
      exact List.mem_cons_of_mem _ (fs.covered p h)
  tree := by
    intro name' dir' h
    by_cases hd : dir' = name :: dir
    · subst hd
      rw [Function.update_of_ne (by simp)] at h
      exact absurd (fs.tree name' _ h) hp
    · rw [Function.update_of_ne hd]
      by_cases heq : name' :: dir' = name :: dir
      · cases heq; exact hdir
      · rw [Function.update_of_ne heq] at h
        exact fs.tree name' dir' h

/-- The tree without a node that has no entries. -/
def erase (p : Path) (hp : ∀ name, fs.node (name :: p) = none) : Fs where
  node := Function.update fs.node p none
  paths := fs.paths
  covered := by
    intro q h
    by_cases heq : q = p
    · subst heq; simp at h
    · rw [Function.update_of_ne heq] at h
      exact fs.covered q h
  tree := by
    intro name dir h
    have hne : name :: dir ≠ p := by rintro rfl; simp at h
    rw [Function.update_of_ne hne] at h
    have hd : dir ≠ p := by rintro rfl; exact h (hp name)
    rw [Function.update_of_ne hd]
    exact fs.tree name dir h

/-- Where a path below `src` goes when `src` is renamed to `dst`. -/
def moved (src dst p : Path) : Path := p.take (p.length - src.length) ++ dst

/-- The nodes after a rename. -/
def movedNode (src dst p : Path) : Option Node :=
  if dst <:+ p then fs.node (moved dst src p)
  else if src <:+ p then none
  else fs.node p

theorem moved_append (src dst q : Path) : moved src dst (q ++ src) = q ++ dst := by
  simp [moved]

/-- The tree after a rename to a place in a directory that is not below the source. -/
def move (src : Path) (name : List Char) (dir : Path) (hdir : fs.node dir = some .dir)
    (hsrc : ¬ src <:+ name :: dir) : Fs where
  node := fs.movedNode src (name :: dir)
  paths := fs.paths ++ fs.paths.map (moved src (name :: dir))
  covered := by
    intro p h
    unfold movedNode at h
    split at h
    · next hdst =>
      obtain ⟨q, rfl⟩ := hdst
      rw [moved_append] at h
      refine List.mem_append_right _ (List.mem_map.mpr ⟨q ++ src, fs.covered _ h, ?_⟩)
      exact moved_append src (name :: dir) q
    · split at h
      · exact absurd rfl h
      · exact List.mem_append_left _ (fs.covered p h)
  tree := by
    intro name' dir' h
    unfold movedNode at h ⊢
    have hdir' : ¬ src <:+ dir := fun h => hsrc (h.trans (List.suffix_cons name dir))
    by_cases hd : name :: dir <:+ dir'
    · -- both stand below the new place
      obtain ⟨q, rfl⟩ := hd
      rw [if_pos ((List.suffix_append q _).trans (List.suffix_cons name' _)),
        ← List.cons_append, moved_append] at h
      rw [if_pos (List.suffix_append q _), moved_append]
      exact fs.tree name' _ h
    · rw [if_neg hd]
      by_cases heq : name :: dir = name' :: dir'
      · cases heq
        rw [if_neg hdir']
        exact hdir
      · have hnd : ¬ name :: dir <:+ name' :: dir' := fun h =>
          (List.suffix_cons_iff.mp h).elim heq hd
        rw [if_neg hnd] at h
        split at h
        · exact absurd rfl h
        · next hs =>
          rw [if_neg fun h => hs (h.trans (List.suffix_cons name' dir'))]
          exact fs.tree name' dir' h

/-- `mkdir`, and `open` with `O_CREAT | O_EXCL`. -/
def create (p : Path) (n : Node) : Except FsError Fs :=
  match p with
  | [] => .error .fileExists
  | name :: dir =>
    if hdir : fs.node dir = some .dir then
      if hp : fs.node (name :: dir) = none then .ok (fs.put name dir n hdir (by simp [hp]))
      else .error .fileExists
    else if fs.exist dir then .error .notADirectory
    else .error .fileNotFound

/-- Data at the end of a file. -/
def append (p : Path) (data : List UInt8) : Except FsError Fs :=
  match p with
  | [] => .error .isADirectory
  | name :: dir =>
    match hp : fs.node (name :: dir) with
    | some (.file old) =>
      .ok (fs.put name dir (.file (old ++ data)) (fs.tree name dir (by simp [hp])) (by simp [hp]))
    | some .dir => .error .isADirectory
    | none => .error .fileNotFound

/-- `unlink`. -/
def unlink (p : Path) : Except FsError Fs :=
  match hp : fs.node p with
  | some (.file _) =>
    .ok (fs.erase p fun name =>
      fs.node_below_eq_none (q := [name]) (by simp [hp]) (by simp))
  | some .dir => .error .isADirectory
  | none => .error .fileNotFound

/-- `rmdir`. -/
def rmdir (p : Path) : Except FsError Fs :=
  match fs.node p with
  | some .dir =>
    if h : fs.entries p = [] then
      .ok (fs.erase p fun name => by
        by_contra hne
        have := fs.mem_entries.mpr hne
        rw [h] at this
        cases this)
    else .error .notEmpty
  | some (.file _) => .error .notADirectory
  | none => .error .fileNotFound

/-- `rename`: a file takes the place of a file, a directory that of nothing or of an empty one. -/
def rename (src dst : Path) : Except FsError Fs :=
  match dst with
  | [] => .error .isADirectory
  | name :: dir =>
    if fs.exist src = false then .error .fileNotFound
    else if src = name :: dir then .ok fs
    else if hsrc : src <:+ name :: dir then .error .notADirectory
    else if hdir : fs.node dir = some .dir then
      if fs.exist (name :: dir) = false ∨ (fs.isFile src ∧ fs.isFile (name :: dir)) ∨
          (fs.isDir src ∧ fs.isDir (name :: dir) ∧ fs.entries (name :: dir) = []) then
        .ok (fs.move src name dir hdir hsrc)
      else if fs.isDir (name :: dir) then
        if fs.isDir src then .error .notEmpty else .error .isADirectory
      else .error .notADirectory
    else if fs.exist dir then .error .notADirectory
    else .error .fileNotFound

/-! ## What an operation did -/

variable {fs} {fs' : Fs} {p src dst : Path}

theorem create_ok {n : Node} (h : fs.create p n = .ok fs') :
    fs.node p = none ∧ fs'.node = Function.update fs.node p (some n) := by
  cases p with
  | nil => cases h
  | cons name dir =>
    simp only [create] at h
    split at h
    · split at h
      · next hp => cases h; exact ⟨hp, rfl⟩
      · cases h
    · split at h <;> cases h

theorem create_eq {name : List Char} {dir : Path} (n : Node) (hdir : fs.node dir = some .dir)
    (hp : fs.node (name :: dir) = none) : ∃ fs', fs.create (name :: dir) n = .ok fs' := by
  simp only [create, hdir, hp, dif_pos]
  exact ⟨_, rfl⟩

theorem append_ok {data : List UInt8} (h : fs.append p data = .ok fs') :
    ∃ old, fs.node p = some (.file old) ∧
      fs'.node = Function.update fs.node p (some (.file (old ++ data))) := by
  cases p with
  | nil => cases h
  | cons name dir =>
    simp only [append] at h
    split at h
    · next old hp => cases h; exact ⟨old, hp, rfl⟩
    · cases h
    · cases h

theorem append_eq {old : List UInt8} {name : List Char} {dir : Path}
    (h : fs.node (name :: dir) = some (.file old)) (data : List UInt8) :
    ∃ fs', fs.append (name :: dir) data = .ok fs' := by
  simp only [append]
  split
  · exact ⟨_, rfl⟩
  · next hd => rw [h] at hd; cases hd
  · next hd => rw [h] at hd; cases hd

theorem unlink_ok (h : fs.unlink p = .ok fs') :
    fs.isFile p ∧ fs'.node = Function.update fs.node p none := by
  unfold unlink at h
  split at h
  · next hp => cases h; exact ⟨by simp [isFile, hp], rfl⟩
  · cases h
  · cases h

theorem rmdir_ok (h : fs.rmdir p = .ok fs') :
    fs.node p = some .dir ∧ (∀ name, fs.node (name :: p) = none) ∧
      fs'.node = Function.update fs.node p none := by
  unfold rmdir at h
  split at h
  · next hp =>
    split at h
    · next he =>
      cases h
      refine ⟨hp, fun name => ?_, rfl⟩
      by_contra hne
      have := fs.mem_entries.mpr hne
      rw [he] at this
      cases this
    · cases h
  · cases h
  · cases h

theorem rename_ok (h : fs.rename src dst = .ok fs') :
    fs.node src ≠ none ∧ (src = dst ∧ fs' = fs ∨
      src ≠ dst ∧ ¬ src <:+ dst ∧ fs'.node = fs.movedNode src dst ∧
        (fs.node dst = none ∨ fs.isFile src ∧ fs.isFile dst ∨
          fs.isDir src ∧ fs.isDir dst ∧ fs.entries dst = [])) := by
  cases dst with
  | nil => cases h
  | cons name dir =>
    simp only [rename] at h
    split at h
    · cases h
    next hexist =>
    have hsome : fs.node src ≠ none := by
      simpa [exist, Option.isSome_iff_ne_none] using hexist
    split at h
    · next heq => cases h; exact ⟨hsome, .inl ⟨heq, rfl⟩⟩
    next hne =>
    split at h
    · cases h
    next hsuf =>
    split at h
    · split at h
      · next hplace =>
        cases h
        refine ⟨hsome, .inr ⟨hne, hsuf, rfl, ?_⟩⟩
        rcases hplace with habsent | hfile | hdir
        · exact .inl (by simpa [exist] using habsent)
        · exact .inr (.inl hfile)
        · exact .inr (.inr hdir)
      · split at h
        · split at h <;> cases h
        · cases h
    · split at h <;> cases h

/-- Renaming a file moves one node. -/
theorem movedNode_file {data : List UInt8} (hsrc : fs.node src = some (.file data))
    (hdst : fs.node dst ≠ some .dir) (hne : src ≠ dst) :
    fs.movedNode src dst =
      Function.update (Function.update fs.node src none) dst (some (.file data)) := by
  funext p
  unfold movedNode
  have hfile : fs.node src ≠ some .dir := by simp [hsrc]
  split
  · next h =>
    obtain ⟨q, rfl⟩ := h
    rw [moved_append]
    by_cases hq : q = []
    · subst hq; simp [hsrc]
    · have hq' : q ++ dst ≠ dst := fun h => hq (by simpa using h)
      have hnone := fs.node_below_eq_none hdst hq
      have hsrc' : q ++ dst ≠ src := by rintro rfl; rw [hsrc] at hnone; cases hnone
      rw [fs.node_below_eq_none hfile hq, Function.update_of_ne hq', Function.update_of_ne hsrc',
        hnone]
  · next hnd =>
    have hpd : p ≠ dst := by rintro rfl; exact hnd List.suffix_rfl
    rw [Function.update_of_ne hpd]
    split
    · next h =>
      obtain ⟨q, rfl⟩ := h
      by_cases hq : q = []
      · subst hq; simp
      · have hqs : q ++ src ≠ src := fun h => hq (by simpa using h)
        rw [Function.update_of_ne hqs, fs.node_below_eq_none hfile hq]
    · next hns =>
      have hps : p ≠ src := by rintro rfl; exact hns List.suffix_rfl
      rw [Function.update_of_ne hps]

end Fs

end Lib
