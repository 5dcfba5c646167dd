import MessageExport.Instant.Rfc3339
import MessageExport.Identifier
import MessageExport.Json.Reader.Container
import MessageExport.Text.Alternatives
/-!
# MessageExport.Wire.Failure

Why a text does not **decode** as a value of a type, and where.

The `Cause` is a fault of the JSON text or a mismatch with the type. Some causes
are found at a place of the text. Others concern a value as a whole and have no
place of their own: they take the place of the innermost object or array around
them, after that has been closed as far as it can be, and have none if there is
nothing around.
-/

namespace MessageExport.Wire

open Json (Fault Container byteCount trim)

/-- Why a text does not decode. -/
inductive Cause where
  /-- The text is not JSON. -/
  | malformed (fault : Fault)
  /-- A value of another kind. -/
  | wrongKind (found expected : String)
  /-- A value of the right kind that is not among the accepted ones. -/
  | wrongValue (found expected : String)
  /-- An array with too few or too many elements. -/
  | wrongLength (length : Nat) (expected : String)
  /-- A name that is none of the known ones. -/
  | unknownVariant (name : String) (known : List String)
  /-- A required member is absent. -/
  | missingMember (name : String)
  /-- A member is given twice. -/
  | duplicateMember (name : String)
  /-- An identifier is empty. -/
  | emptyIdentifier (kind : IdKind)
  /-- A string is not a timestamp. -/
  | notTimestamp (fault : TimestampFault)
  deriving DecidableEq, Repr

/-- What is said of a cause, its place apart. -/
def Cause.message : Cause → String
  | .malformed fault => fault.message
  | .wrongKind found expected => "invalid type: " ++ found ++ ", expected " ++ expected
  | .wrongValue found expected => "invalid value: " ++ found ++ ", expected " ++ expected
  | .wrongLength length expected =>
      "invalid length " ++ toString length ++ ", expected " ++ expected
  | .unknownVariant name known =>
      "unknown variant " ++ Text.ticked name ++ ", expected " ++ Text.alternatives known
  | .missingMember name => "missing field " ++ Text.ticked name
  | .duplicateMember name => "duplicate field " ++ Text.ticked name
  | .emptyIdentifier kind => kind.emptyMessage
  | .notTimestamp fault => fault.message

/-- A cause, and where it was found. -/
inductive Failure where
  /-- Found where so many bytes of the text are left. -/
  | placed (cause : Cause) (left : Nat)
  /-- Without a place yet; the rest of the text is kept. -/
  | unplaced (cause : Cause) (rest : List Char)
  deriving DecidableEq, Repr

namespace Failure

/-- The cause of a failure. -/
def cause : Failure → Cause
  | placed cause _ => cause
  | unplaced cause _ => cause

/-- A fault of the JSON text, at its place. -/
def ofJson (failure : Json.Failure) : Failure :=
  placed (.malformed failure.fault) failure.left

/-- The rest of a text once a container has been closed as far as it can be: after
its closing bracket, or in an array after a comma, or else where it stands. -/
def afterClosing (container : Container) (rest : List Char) : List Char :=
  match trim rest with
  | [] => []
  | c :: after =>
      if c = container.closing then after
      else if c = ',' ∧ container = .array then trim after
      else c :: after

/-- A failure seen from outside the container that it happened in. -/
def enclose (container : Container) : Failure → Failure
  | placed cause left => placed cause left
  | unplaced cause rest => placed cause (byteCount (afterClosing container rest))

/-- What is said of a failure in a text, with its place if it has one. -/
def message (text : List Char) : Failure → String
  | placed cause left => cause.message ++ Json.placeText text left
  | unplaced cause _ => cause.message

end Failure

/-- A step of a decoder. -/
abbrev Decoder (α : Type) := List Char → Except Failure (α × List Char)

/-- A step of a JSON reader as a step of a decoder. -/
def liftStep {α : Type} (step : Json.Step α) : Decoder α := fun s =>
  (step s).mapError Failure.ofJson

end MessageExport.Wire
