import Mathlib.Data.Rat.Defs
import Mathlib.Data.List.Sort
import RchProxy.Py.Json
import RchProxy.Settings.EnvFile

/-!
# Checked settings

`Config.from_mapping` of `config.py`: every setting has a default and a check, and keys that are not
settings are refused. The settings the installer shares with the services are kept (`Settings`),
those that become the fields of a `Config` are checked here and left to it. Floating point numbers
and the time-zone database are parameters (`Platform`).
-/

namespace RchProxy

open Py Lib

/-- What the checks ask of the platform: `float(value)`, with its exact value when it is finite, and
`ZoneInfo(key)`. -/
structure Platform where
  unicode : Unicode
  float : Text → Option (Option Rat)
  zoneInfo : Text → Bool

/-- `PurePosixPath`. -/
structure PurePath where
  root : Text
  parts : List Text
  deriving DecidableEq, Repr

/-- `Path(text)`. -/
def purePath (text : Text) : PurePath where
  root :=
    if text.take 2 = "//".toList ∧ text.take 3 ≠ "///".toList then "//".toList
    else text.take 1 |>.filter (· = '/')
  parts := (pieces (· == '/') text).filter (· ≠ ".".toList)

/-- `path.is_absolute()`. -/
def PurePath.IsAbsolute (p : PurePath) : Prop := p.root ≠ []

/-- `[a-z_][a-z0-9_-]{0,31}`. -/
def isAccountName (value : Text) : Bool :=
  match value with
  | [] => false
  | c :: rest => (c.isLower || c = '_') && rest.length ≤ 31 &&
      rest.all fun c => c.isLower || c.isDigit || c = '_' || c = '-'

/-- A Unix account name. -/
abbrev Identity := { value : Text // isAccountName value ∧ value ≠ "root".toList }

/-- A directory below the root of a file system. -/
abbrev ManagedDir := { p : PurePath // p.IsAbsolute ∧ p.parts ≠ [] }

/-- The settings of a `Config` that the installer shares. -/
structure Settings where
  serviceUser : Identity
  serviceGroup : Identity
  outputDir : ManagedDir
  logDir : ManagedDir

/-- `_KEYS`. -/
def settingKeys : List String :=
  ["LISTEN_IP", "LISTEN_PORT", "PRINTER_IP", "PRINTER_PORT", "OUTPUT_DIR", "LOG_DIR", "TIMEZONE",
   "CONFIG_VERSION", "CONNECTION_TIMEOUT_SEC", "RESPONSE_TIMEOUT_SEC", "JOB_IDLE_TIMEOUT_MS",
   "BUFFER_SIZE", "MAX_CONNECTIONS", "PRINTER_CONNECT_ATTEMPTS", "PRINTER_CONNECT_RETRY_DELAY_SEC",
   "STORAGE_FAILURE_POLICY", "JOB_CODE_START", "JOB_CODE_WIDTH", "PHARSED_DIRNAME", "FILE_MODE",
   "DIRECTORY_MODE", "SERVICE_USER", "SERVICE_GROUP", "FSYNC_ON_CLOSE", "PRESERVE_TIMELINE",
   "CALCULATE_SHA256", "MAX_CAPTURE_EVENTS", "PARSER_WORKERS", "PARSER_POLL_INTERVAL_SEC",
   "PARSER_RETRY_COUNT", "PARSER_STALE_LOCK_SEC", "PARSER_USE_INOTIFY", "SAVE_RAW",
   "SAVE_TECHNICAL_TXT", "SAVE_CLEAN_TXT", "SAVE_PDF", "SAVE_JSON", "HASH_ALGORITHM", "DEBUG",
   "DEBUG_HEXDUMP", "DEBUG_PCAP", "RETENTION_DAYS", "MAX_PAYLOAD_BYTES", "RENDERER_PAPER_WIDTH_MM",
   "RENDERER_CHARACTERS_PER_LINE", "LOG_PAYLOAD", "LOG_LEVEL", "SHUTDOWN_GRACE_SEC"]

section
variable (p : Platform) (values : Mapping)

/-- `value(name, default)`. -/
def settingValue (name default : String) : Text := (values.lookup name.toList).getD default.toList

/-- `_parse_bool`. -/
def parseBool (name default : String) : Except ConfigError Bool :=
  let normalized := p.unicode.textLower (stripBy isWhitespace (settingValue values name default))
  if normalized ∈ ["1".toList, "true".toList, "yes".toList, "on".toList] then return true
  else if normalized ∈ ["0".toList, "false".toList, "no".toList, "off".toList] then return false
  else throw (.invalid name "must be true or false")

/-- `_parse_int`. -/
def parseInt (name default : String) (minimum maximum : Int) : Except ConfigError Int := do
  let some result := p.unicode.int (settingValue values name default)
    | throw (.invalid name "must be an integer")
  if minimum ≤ result ∧ result ≤ maximum then return result
  else throw (.invalid name s!"must be between {minimum} and {maximum}")

/-- `_parse_float`, of a setting with the given bounds. -/
def parseFloat (name default : String) (minimum maximum : Rat) : Except ConfigError Rat := do
  match p.float (settingValue values name default) with
  | none => throw (.invalid name "must be a number")
  | some none => throw (.invalid name s!"must be between {minimum} and {maximum}")
  | some (some result) =>
    if minimum ≤ result ∧ result ≤ maximum then return result
    else throw (.invalid name s!"must be between {minimum} and {maximum}")

/-- `_parse_mode`. -/
def parseMode (name default : String) (directory : Bool) : Except ConfigError Nat := do
  let value := settingValue values name default
  let digits := if value.length = 4 ∧ value.head? = some '0' then value.tail else value
  if digits.length ≠ 3 ∨ !digits.all fun c => '0' ≤ c && c ≤ '7' then
    throw (.invalid name "must be an octal mode such as 0640 or 0750")
  let result : Nat := digits.foldl (fun n c => 8 * n + (c.toNat - 48)) 0
  let required : Nat := if directory then 0o700 else 0o600
  if result &&& required ≠ required then throw (.invalid name "must grant owner access")
  if result &&& 0o007 ≠ 0 then throw (.invalid name "must not grant permissions to other users")
  if !directory ∧ result &&& 0o111 ≠ 0 then
    throw (.invalid name "must not make captured files executable")
  return result

/-- `_parse_identity`. -/
def parseIdentity (name default : String) : Except ConfigError Identity :=
  let value := settingValue values name default
  if hname : isAccountName value then
    if hroot : value = "root".toList then throw (.invalid name "must not be root")
    else return ⟨value, hname, hroot⟩
  else throw (.invalid name "must be a conservative Unix account name")

/-- One number of an IPv4 address. -/
def ipv4Octet (t : Text) : Option Nat :=
  if t ≠ [] ∧ t.length ≤ 3 ∧ t.all Char.isDigit ∧ (t.length = 1 ∨ t.head? ≠ some '0') then
    let n := t.foldl (fun n c => 10 * n + (c.toNat - 48)) 0
    if n ≤ 255 then some n else none
  else none

/-- `ip_address(candidate)`, where it is an IPv4 address. -/
def ipv4Address (t : Text) : Option (List Nat) :=
  let octets := t.splitOn '.'
  if octets.length = 4 then octets.mapM ipv4Octet else none

/-- The check of `LISTEN_IP` and of `PRINTER_IP`. -/
def parseUnicast (name default : String) : Except ConfigError Text := do
  let candidate := settingValue values name default
  let some octets := ipv4Address candidate | throw (.invalid name "is not a valid IPv4 address")
  if octets = [0, 0, 0, 0] ∨ octets.head?.any fun a => 224 ≤ a && a ≤ 239 then
    throw (.invalid name "must be a specific unicast address")
  return candidate

/-- The settings `from_mapping` checks before it builds the configuration. -/
def checkEndpoints : Except ConfigError Unit := do
  let listenIp ← parseUnicast values "LISTEN_IP" "192.0.2.231"
  let printerIp ← parseUnicast values "PRINTER_IP" "192.0.2.251"
  if p.unicode.textLower (settingValue values "HASH_ALGORITHM" "sha256") ≠ "sha256".toList then
    throw (.invalid "HASH_ALGORITHM" "must be sha256 in this release")
  if p.unicode.textUpper (settingValue values "LOG_LEVEL" "INFO") ∉ ["DEBUG".toList, "INFO".toList,
      "WARNING".toList, "ERROR".toList, "CRITICAL".toList] then
    throw (.invalid "LOG_LEVEL" "is not supported")
  let listenPort ← parseInt p values "LISTEN_PORT" "23" 1 65535
  let printerPort ← parseInt p values "PRINTER_PORT" "23" 1 65535
  if listenIp = printerIp ∧ listenPort = printerPort then
    throw (.invalid "LISTEN_PORT" "and printer endpoints must not be identical")
  if !p.zoneInfo (settingValue values "TIMEZONE" "Europe/Rome") then
    throw (.invalid "TIMEZONE" "is not available")
  if settingValue values "CONFIG_VERSION" "1" ≠ "1".toList then
    throw (.invalid "CONFIG_VERSION" "is not supported")
  if p.unicode.textLower (settingValue values "STORAGE_FAILURE_POLICY" "continue") ∉
      ["continue".toList, "abort".toList] then
    throw (.invalid "STORAGE_FAILURE_POLICY" "must be continue or abort")
  if settingValue values "PHARSED_DIRNAME" "PHARSED" ≠ "PHARSED".toList then
    throw (.invalid "PHARSED_DIRNAME" "must remain the literal PHARSED")

/-- The settings of the transport and of the spool. -/
def checkTransport : Except ConfigError Unit := do
  let _ ← parseFloat p values "CONNECTION_TIMEOUT_SEC" "30" (1 / 20) 3600
  let _ ← parseFloat p values "RESPONSE_TIMEOUT_SEC" "10" (1 / 20) 3600
  let _ ← parseInt p values "JOB_IDLE_TIMEOUT_MS" "1000" 50 86400000
  let _ ← parseInt p values "BUFFER_SIZE" "65536" 512 4194304
  let _ ← parseInt p values "MAX_CONNECTIONS" "32" 1 4096
  let _ ← parseInt p values "PRINTER_CONNECT_ATTEMPTS" "1" 1 100
  let _ ← parseFloat p values "PRINTER_CONNECT_RETRY_DELAY_SEC" "1" 0 3600
  let _ ← parseInt p values "JOB_CODE_START" "1" 0 9999999999999
  let _ ← parseInt p values "JOB_CODE_WIDTH" "4" 4 32
  let _ ← parseMode values "FILE_MODE" "0640" false
  let _ ← parseMode values "DIRECTORY_MODE" "0750" true

/-- The outputs that must remain enabled, with their values. -/
def checkServices : Except ConfigError (List (String × Bool)) := do
  let fsyncOnClose ← parseBool p values "FSYNC_ON_CLOSE" "true"
  let preserveTimeline ← parseBool p values "PRESERVE_TIMELINE" "true"
  let calculateSha256 ← parseBool p values "CALCULATE_SHA256" "true"
  let _ ← parseInt p values "MAX_CAPTURE_EVENTS" "65536" 1 100000
  let _ ← parseInt p values "PARSER_WORKERS" "2" 1 64
  let _ ← parseFloat p values "PARSER_POLL_INTERVAL_SEC" "5" (1 / 10) 3600
  let _ ← parseInt p values "PARSER_RETRY_COUNT" "3" 0 100
  let _ ← parseFloat p values "PARSER_STALE_LOCK_SEC" "300" 1 86400
  let _ ← parseBool p values "PARSER_USE_INOTIFY" "true"
  let saveRaw ← parseBool p values "SAVE_RAW" "true"
  let saveTechnicalTxt ← parseBool p values "SAVE_TECHNICAL_TXT" "true"
  let _ ← parseBool p values "SAVE_CLEAN_TXT" "true"
  let _ ← parseBool p values "SAVE_PDF" "true"
  let saveJson ← parseBool p values "SAVE_JSON" "true"
  let _ ← parseBool p values "DEBUG" "false"
  let _ ← parseBool p values "DEBUG_HEXDUMP" "false"
  let _ ← parseBool p values "DEBUG_PCAP" "false"
  let _ ← parseInt p values "RETENTION_DAYS" "0" 0 36500
  let _ ← parseInt p values "MAX_PAYLOAD_BYTES" "67108864" 1024 2147483647
  let _ ← parseFloat p values "RENDERER_PAPER_WIDTH_MM" "79.5" 40 120
  let _ ← parseInt p values "RENDERER_CHARACTERS_PER_LINE" "48" 16 96
  let _ ← parseBool p values "LOG_PAYLOAD" "false"
  let _ ← parseFloat p values "SHUTDOWN_GRACE_SEC" "15" (1 / 20) 3600
  return [("SAVE_JSON", saveJson), ("SAVE_RAW", saveRaw), ("SAVE_TECHNICAL_TXT", saveTechnicalTxt),
    ("FSYNC_ON_CLOSE", fsyncOnClose), ("PRESERVE_TIMELINE", preserveTimeline),
    ("CALCULATE_SHA256", calculateSha256)]

/-- The check of `OUTPUT_DIR` and of `LOG_DIR`. -/
def checkDirectory (name default : String) : Except ConfigError ManagedDir :=
  let path := purePath (settingValue values name default)
  if hroot : path.root = [] then throw (.invalid name "must be an absolute path")
  else if hparts : path.parts = [] then throw (.invalid name "must not be a filesystem root")
  else return ⟨path, hroot, hparts⟩

/-- `Config.from_mapping`. -/
def fromMapping : Except ConfigError Settings := do
  let unknown := values.map (·.1) |>.filter fun key => key ∉ settingKeys.map String.toList
  if unknown ≠ [] then
    throw (.unknownKeys (unknown.insertionSort fun a b => Json.textLe a b))
  checkEndpoints p values
  checkTransport p values
  let serviceUser ← parseIdentity values "SERVICE_USER" "commercialrchproxy"
  let serviceGroup ← parseIdentity values "SERVICE_GROUP" "commercialrchproxy"
  let mandatory ← checkServices p values
  let outputDir ← checkDirectory values "OUTPUT_DIR" "/var/lib/commercialrchproxy/jobs"
  let logDir ← checkDirectory values "LOG_DIR" "/var/log/commercialrchproxy"
  for (name, enabled) in mandatory do
    if !enabled then throw (.invalid name "must remain true")
  return { serviceUser, serviceGroup, outputDir, logDir }

end

/-! ## What is accepted -/

section
variable {p : Platform} {values : Mapping} {settings : Settings}

theorem parseIdentity_ok {name default : String} {user : Identity}
    (h : parseIdentity values name default = .ok user) :
    settingValue values name default = user.val := by
  simp only [parseIdentity] at h
  split at h
  · split at h
    · cases h
    · cases h
      rfl
  · cases h

theorem checkDirectory_ok {name default : String} {dir : ManagedDir}
    (h : checkDirectory values name default = .ok dir) :
    purePath (settingValue values name default) = dir.val := by
  simp only [checkDirectory] at h
  split at h
  · cases h
  · split at h
    · cases h
    · cases h
      rfl

/-- The shared settings of an accepted mapping are its values. -/
theorem fromMapping_ok (h : fromMapping p values = .ok settings) :
    settingValue values "SERVICE_USER" "commercialrchproxy" = settings.serviceUser.val ∧
    settingValue values "SERVICE_GROUP" "commercialrchproxy" = settings.serviceGroup.val ∧
    purePath (settingValue values "OUTPUT_DIR" "/var/lib/commercialrchproxy/jobs") =
      settings.outputDir.val ∧
    purePath (settingValue values "LOG_DIR" "/var/log/commercialrchproxy") = settings.logDir.val := by
  simp only [fromMapping] at h
  split at h
  · cases h
  simp only [bind_eq_ok] at h
  obtain ⟨-, -, -, -, user, huser, group, hgroup, mandatory, -, outputDir, hout, logDir, hlog, -, -, h⟩ := h
  cases h
  exact ⟨parseIdentity_ok huser, parseIdentity_ok hgroup, checkDirectory_ok hout,
    checkDirectory_ok hlog⟩

end

end RchProxy
