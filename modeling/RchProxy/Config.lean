import RchProxy.Lib.Fs
import RchProxy.Py.Text

/-!
# Configuration

The settings the capture, the spool and the parser worker read (`config.py`), with the ranges
`Config.from_mapping` accepts. Settings it pins to one value (`CONFIG_VERSION`, `HASH_ALGORITHM`,
`PHARSED_DIRNAME`, the mandatory outputs) are constants of the functions that use them.
-/

namespace RchProxy

open Py Lib

/-- An identifier, an address or the name of a time zone. `uuid4`, the socket layer and the
time-zone database supply them, and none is longer than a path. -/
abbrev Label := { t : Text // t.length ≤ 4096 }

/-- The text of an IPv4 address. -/
abbrev Ipv4 := { t : Text // t.length ≤ 15 ∧ ∀ c ∈ t, c.isDigit ∨ c = '.' }

theorem ipv4_of_all {t : Text}
    (h : (decide (t.length ≤ 15) && t.all fun c => c.isDigit || c == '.') = true) :
    t.length ≤ 15 ∧ ∀ c ∈ t, c.isDigit ∨ c = '.' := by
  rw [Bool.and_eq_true, decide_eq_true_eq, List.all_eq_true] at h
  refine ⟨h.1, fun c hc => ?_⟩
  simpa using h.2 c hc

/-- `STORAGE_FAILURE_POLICY`. -/
inductive StorageFailurePolicy where
  | «continue»
  | abort
  deriving DecidableEq, Repr

/-- `Config`. -/
structure Config where
  listenIp : Ipv4
  listenPort : Nat
  printerIp : Ipv4
  printerPort : Nat
  outputDir : Path
  timezone : Label
  bufferSize : Nat
  storageFailurePolicy : StorageFailurePolicy
  jobCodeStart : Nat
  jobCodeWidth : Nat
  maxCaptureEvents : Nat
  maxPayloadBytes : Nat
  parserRetryCount : Nat
  saveCleanTxt : Bool := true
  savePdf : Bool := true
  bufferSize_range : 512 ≤ bufferSize ∧ bufferSize ≤ 4194304
  jobCodeWidth_range : 4 ≤ jobCodeWidth ∧ jobCodeWidth ≤ 32
  maxCaptureEvents_range : 1 ≤ maxCaptureEvents ∧ maxCaptureEvents ≤ 100000
  maxPayloadBytes_range : 1024 ≤ maxPayloadBytes ∧ maxPayloadBytes ≤ 2147483647

/-- A configuration with the largest read buffer, for runs on fixed inputs. -/
def Config.sample (policy : StorageFailurePolicy) : Config where
  listenIp := ⟨"10.0.0.1".toList, ipv4_of_all (by decide)⟩
  listenPort := 23
  printerIp := ⟨"10.0.0.2".toList, ipv4_of_all (by decide)⟩
  printerPort := 23
  outputDir := []
  timezone := ⟨"UTC".toList, by decide⟩
  bufferSize := 4194304
  storageFailurePolicy := policy
  jobCodeStart := 1
  jobCodeWidth := 4
  maxCaptureEvents := 16
  maxPayloadBytes := 1024
  parserRetryCount := 3
  bufferSize_range := by decide
  jobCodeWidth_range := by decide
  maxCaptureEvents_range := by decide
  maxPayloadBytes_range := by decide

end RchProxy
