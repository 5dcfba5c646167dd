import MessageExport.Json.Reader.Container
import MessageExport.Json.Reader.Number
/-!
# MessageExport.Json.Reader.Skip

**Passing over** a JSON value that nobody needs.

Only the shape of the value is checked: its nesting has no limit, numbers may be
of any size and half a surrogate pair is let pass. The containers that are open
are kept in a list, innermost first, so the walk needs no more room than that.
-/

namespace MessageExport.Json

open MessageExport.Text (isDigit)

/-- What a walk has passed last. -/
inductive Passed where
  /-- A comma, or nothing: a value comes next. -/
  | nothing
  /-- An opening bracket. -/
  | opening
  /-- A value. -/
  | value
  deriving DecidableEq, Repr

/-- Pass over a value that is neither an array nor an object. -/
def skipScalar : List Char → Except Failure (List Char)
  | [] => .error (Fault.valueCutOff.here [])
  | 'n' :: rest => word ['u', 'l', 'l'] rest
  | 't' :: rest => word ['r', 'u', 'e'] rest
  | 'f' :: rest => word ['a', 'l', 's', 'e'] rest
  | '"' :: rest => skipString rest
  | '-' :: rest => skipNumber rest
  | c :: rest =>
      if isDigit c then skipNumber (c :: rest)
      else .error (Fault.noValue.byteAfter (c :: rest))

/-- Pass over the name of a member and its colon, if the container is an object. -/
def skipName (container : Container) (s : List Char) : Except Failure (List Char) :=
  match container with
  | .array => .ok s
  | .object =>
      match trim s with
      | [] => .error (Fault.objectCutOff.here [])
      | c :: rest =>
          if c = '"' then skipString rest >>= colon
          else .error (Fault.nameNotText.byteAfter (c :: rest))

/-- Walk on, with the given containers open. -/
def skipFrom : (budget : Nat) → Passed → List Container → List Char →
    Except Failure (List Char)
  | 0, _, _, s => .error (Fault.valueCutOff.here s)
  | _ + 1, .value, [], s => .ok s
  | budget + 1, .nothing, opened, s =>
      match trim s with
      | '[' :: rest => skipFrom budget .opening (.array :: opened) rest
      | '{' :: rest => skipFrom budget .opening (.object :: opened) rest
      | s => do
          let rest ← skipScalar s
          skipFrom budget .value opened rest
  | budget + 1, .opening, opened, s =>
      match opened, trim s with
      | [], s => skipFrom budget .nothing [] s
      | container :: _, [] => .error (container.cutOff.here [])
      | container :: outer, c :: rest =>
          if c = container.closing then skipFrom budget .value outer rest
          else do
            let rest ← skipName container (c :: rest)
            skipFrom budget .nothing opened rest
  | budget + 1, .value, container :: outer, s =>
      match trim s with
      | [] => .error (container.cutOff.here [])
      | c :: rest =>
          if c = container.closing then skipFrom budget .value outer rest
          else if c = ',' then do
            let rest ← skipName container rest
            skipFrom budget .nothing (container :: outer) rest
          else .error (container.noEnd.byteAfter (c :: rest))

/-- Pass over a value. -/
def skip (s : List Char) : Except Failure (List Char) :=
  skipFrom (2 * s.length + 2) .nothing [] s

end MessageExport.Json
