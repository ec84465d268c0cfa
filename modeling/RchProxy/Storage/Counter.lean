import RchProxy.Py.Text

/-!
# Job codes

The CODICE_DOC of a capture names its directory (`storage/counter.py`).
-/

namespace RchProxy

open Py

/-- `[0-9]{4,32}`. -/
def isJobCode (name : Text) : Bool :=
  4 ≤ name.length && name.length ≤ 32 && name.all Char.isDigit

/-- `validate_job_code`. -/
def validateJobCode (value : Text) (width : Nat) : Except Error Text :=
  if isJobCode value && width ≤ value.length then .ok value
  else .error (.valueError s!"CODICE_DOC must contain at least {width} decimal digits")

end RchProxy
