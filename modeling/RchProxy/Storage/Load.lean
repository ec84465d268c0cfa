import RchProxy.Storage.Atomic
import RchProxy.Storage.Manifest

/-!
# Loading a published job

`load_spool_job` of `storage/spool.py`: the job is taken only when its ready marker authenticates the
manifest, and the manifest every capture file.
-/

namespace RchProxy

open Py Lib

/-- `LoadedSpoolJob`. The manifest names the directory it was found in. -/
structure LoadedSpoolJob where
  jobDir : Text
  manifest : List (Text × Json)
  request : Bytes
  response : Bytes
  timelinePath : Text
  codiceDoc : Json.text? (Json.get "codice_doc".toList manifest) = some jobDir

/-- Whether `Path(name).name == name`. -/
def isPlainName (name : Text) : Bool := name ≠ [] && !name.contains '/' && name ≠ ".".toList

namespace Job

/-- `path.stat().st_size`. -/
def size (p : Loc) : Job Nat := do
  match ← kind p with
  | some (.file n) => return n
  | some .dir => return 0
  | none => throw (.osError .fileNotFound)

/-- `sha256_file`. -/
def sha256File (p : Loc) : Job Text := do return sha256 (← read p)

/-- `_safe_artifact`. -/
def safeArtifact (name : Option Json) : Job Text := do
  match Json.text? name with
  | some name =>
    if !isPlainName name then throw (.valueError "Unsafe spool artifact name")
    if !(← isFile { name := name }) then throw (.valueError "Missing or unsafe spool artifact")
    return name
  | none => throw (.valueError "Unsafe spool artifact name")

/-- `json.loads(path.read_text(encoding="utf-8"))`. -/
def readJson (p : Loc) : Job Json := do Prog.ofExcept (loadsBytes (← read p))

/-- `SHA-256 mismatch` for one capture file. -/
def checkDigest (hashes : List (Text × Json)) (key : Artifact) (name : Text) : Job Unit := do
  let digest ← sha256File { name := name }
  if Json.text? (Json.get key.key hashes) ≠ some digest then
    throw (.valueError s!"SHA-256 mismatch for {String.ofList key.key}")

/-- The capture files of `load_spool_job`, by the manifest that names them. -/
def loadArtifacts (jobDir : Text) (maxBytes : Nat) (value : List (Text × Json))
    (hcode : Json.text? (Json.get "codice_doc".toList value) = some jobDir) :
    Job LoadedSpoolJob := do
  let some files := Json.fields? (Json.get "files".toList value)
    | throw (.valueError "capture manifest files/hash maps are malformed")
  let some hashes := Json.fields? (Json.get "sha256".toList value)
    | throw (.valueError "capture manifest files/hash maps are malformed")
  let requestPath ← safeArtifact (Json.get (Artifact.key .requestRaw) files)
  let responsePath ← safeArtifact (Json.get (Artifact.key .responseRaw) files)
  let timelinePath ← safeArtifact (Json.get (Artifact.key .timeline) files)
  let total := (← size { name := requestPath }) + (← size { name := responsePath })
  if maxBytes < total then
    throw (.valueError s!"capture exceeds parser input limit ({maxBytes} bytes)")
  let request ← read { name := requestPath }
  let response ← read { name := responsePath }
  checkDigest hashes .requestRaw requestPath
  checkDigest hashes .responseRaw responsePath
  checkDigest hashes .timeline timelinePath
  return { jobDir, manifest := value, request, response, timelinePath, codiceDoc := hcode }

/-- `load_spool_job`. -/
def loadSpoolJob (jobDir : Text) (maxBytes : Nat) : Job LoadedSpoolJob := do
  if !(← isFile { name := ".ready".toList }) then throw (.valueError "Job is not atomically ready")
  if 65536 < (← size { name := ".ready".toList }) then
    throw (.valueError "ready marker exceeds 64 KiB")
  let manifestPath ← safeArtifact (some (.str "manifest.json".toList))
  if 1048576 < (← size { name := manifestPath }) then
    throw (.valueError "capture manifest exceeds 1 MiB")
  let ready ← Prog.tryCatch (readJson { name := ".ready".toList }) fun
    | .unicodeDecodeError _ | .jsonDecodeError => throw (.valueError "ready marker is malformed")
    | e => throw e
  let some ready := Json.fields? (some ready)
    | throw (.valueError "ready marker does not authenticate this capture manifest")
  let digest ← sha256File { name := manifestPath }
  if ¬ (Json.text? (Json.get "schema".toList ready) = some captureSchema ∧
      Json.text? (Json.get "codice_doc".toList ready) = some jobDir ∧
      Json.text? (Json.get "manifest_sha256".toList ready) = some digest) then
    throw (.valueError "ready marker does not authenticate this capture manifest")
  let value ← readJson { name := manifestPath }
  let some value := Json.fields? (some value)
    | throw (.valueError "unsupported or malformed capture manifest")
  if Json.text? (Json.get "schema".toList value) ≠ some captureSchema then
    throw (.valueError "unsupported or malformed capture manifest")
  if hcode : Json.text? (Json.get "codice_doc".toList value) = some jobDir then
    loadArtifacts jobDir maxBytes value hcode
  else throw (.valueError "CODICE_DOC does not match its directory")

end Job

end RchProxy
