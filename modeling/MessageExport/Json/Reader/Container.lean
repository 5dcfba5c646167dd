import MessageExport.Json.Reader.Text
/-!
# MessageExport.Json.Reader.Container

Reading **arrays and objects** of a JSON text, whatever their contents are read as.

The walk over a container is the same for every reader: `nextElement` and
`nextName` find out whether it goes on, and the reader of the contents is a
parameter, with failures of its own into which a JSON `Failure` is lifted. Both
walks end *before* the closing bracket, so that what has to be checked at the end
of a container is checked while it is still open.
-/

namespace MessageExport.Json

variable {ε α σ : Type}

/-- The kinds of container. -/
inductive Container where
  | array
  | object
  deriving DecidableEq, Repr

namespace Container

/-- What closes a container. -/
def closing : Container → Char
  | .array => ']'
  | .object => '}'

/-- The text ends inside the container. -/
def cutOff : Container → Fault
  | .array => .arrayCutOff
  | .object => .objectCutOff

/-- Neither a comma nor the end of the container. -/
def noEnd : Container → Fault
  | .array => .noElementEnd
  | .object => .noMemberEnd

end Container

/-- A step of a reader with failures of its own. -/
abbrev StepOf (ε α : Type) := List Char → Except ε (α × List Char)

/-- Where the next element of an array begins, or nothing before the closing bracket. -/
def nextElement (first : Bool) (s : List Char) : Except Failure (Option (List Char)) :=
  match trim s with
  | [] => .error (Fault.arrayCutOff.here [])
  | c :: rest =>
      if c = ']' then .ok none
      else if first then .ok (some (c :: rest))
      else if c = ',' then
        match trim rest with
        | [] => .error (Fault.valueCutOff.here [])
        | d :: after =>
            if d = ']' then .error (Fault.trailingComma.byteAfter (d :: after))
            else .ok (some (d :: after))
      else .error (Fault.noElementEnd.byteAfter (c :: rest))

/-- Read the name of a member, which is a string. -/
def memberName : List Char → Except Failure (Option (String × List Char))
  | '"' :: rest => do
      let named ← string rest
      .ok (some named)
  | s => .error (Fault.nameNotText.byteAfter s)

/-- The name of the next member of an object and the rest after it, or nothing
before the closing bracket. -/
def nextName (first : Bool) (s : List Char) : Except Failure (Option (String × List Char)) :=
  match trim s with
  | [] => .error (Fault.objectCutOff.here [])
  | c :: rest =>
      if c = '}' then .ok none
      else if first then memberName (c :: rest)
      else if c = ',' then
        match trim rest with
        | [] => .error (Fault.valueCutOff.here [])
        | d :: after =>
            if d = '}' then .error (Fault.trailingComma.byteAfter (d :: after))
            else memberName (d :: after)
      else .error (Fault.noMemberEnd.byteAfter (c :: rest))

/-- Pass over the colon after a member name. -/
def colon (s : List Char) : Except Failure (List Char) :=
  match trim s with
  | [] => .error (Fault.objectCutOff.here [])
  | c :: rest => if c = ':' then .ok rest else .error (Fault.noColon.byteAfter (c :: rest))

/-- Read the elements of an array that are left. -/
def elements (lift : Failure → ε) (element : StepOf ε α) :
    (budget : Nat) → (first : Bool) → StepOf ε (List α)
  | 0, _, s => .error (lift (Fault.arrayCutOff.here s))
  | budget + 1, first, s =>
      match nextElement first s with
      | .error failure => .error (lift failure)
      | .ok none => .ok ([], trim s)
      | .ok (some rest) => do
          let (a, rest) ← element rest
          let (more, rest) ← elements lift element budget false rest
          .ok (a :: more, rest)

/-- Read the members of an object that are left. Each name, and the rest after it,
goes to `member` with what has been gathered so far. -/
def members (lift : Failure → ε) (member : σ → String → StepOf ε σ) :
    (budget : Nat) → (first : Bool) → σ → StepOf ε σ
  | 0, _, _, s => .error (lift (Fault.objectCutOff.here s))
  | budget + 1, first, gathered, s =>
      match nextName first s with
      | .error failure => .error (lift failure)
      | .ok none => .ok (gathered, trim s)
      | .ok (some (name, rest)) => do
          let (gathered, rest) ← member gathered name rest
          members lift member budget false gathered rest

end MessageExport.Json
