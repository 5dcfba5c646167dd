import MessageExport.Json.Reader.Skip
import MessageExport.Json.Reader.Tree
import MessageExport.Wire.Tree
/-!
# MessageExport.Wire.Decode

Decoding **a JSON text** by a shape.

The text is read from left to right straight into the type, so the first thing
wrong with it is reported, be it a fault of the text or a mismatch with the type,
and nothing after it is looked at. Only the members of a tagged record are first
read as trees. `decode` counts down the containers that may still be opened, and
is structural in that count; what it shares with `ofTree` are the scalars and
the tables of members.
-/

namespace MessageExport.Wire

open Json (Container Fault Tree byteCount trim)

variable {α : Type}

/-- A fault of the text where it has been looked at. -/
def faultAt (fault : Fault) (rest : List Char) : Failure :=
  .ofJson (fault.byteAfter rest)

/-! ### Scalars -/

/-- Decode a value that is not a container. A container is reported before its
bracket, anything else after its end. -/
def scalar (convert : Tree → Except Cause α) : Decoder α := fun s =>
  match trim s with
  | '[' :: rest => reject (.array []) ('[' :: rest)
  | '{' :: rest => reject (.object []) ('{' :: rest)
  | s => do
      let (tree, rest) ← liftStep Json.scalar s
      reject tree rest
where
  /-- Convert a tree, with the place of a mismatch. -/
  reject (tree : Tree) (rest : List Char) : Except Failure (α × List Char) :=
    match convert tree with
    | .ok value => .ok (value, rest)
    | .error cause => .error (.placed cause (byteCount rest))

/-- Decode a value of the wrong kind: what is found is told with what was expected. -/
def mismatch (expected : String) : Decoder α :=
  scalar fun tree => unexpected tree expected

/-- Decode an identifier. That it is empty concerns the string as a whole. -/
def identifier (kind : IdKind) : Decoder (Identifier kind) := fun s => do
  let (raw, rest) ← scalar asText s
  match asIdentifier kind raw with
  | .ok id => .ok (id, rest)
  | .error cause => .error (.unplaced cause rest)

/-! ### Containers -/

/-- Decode the inside of a container whose opening bracket is next, if one may be
opened. The inside ends before the closing bracket. -/
def inside (container : Container) {β : Type} (inner : Option β) (body : β → Decoder α) :
    Decoder α := fun s =>
  match inner with
  | none => .error (faultAt .tooDeep s)
  | some inner =>
      match body inner (s.drop 1) with
      | .ok (value, rest) => .ok (value, rest.drop 1)
      | .error failure => .error (failure.enclose container)

/-- Find the end of an array all of whose elements have been read. -/
def arrayEnd (s : List Char) : Except Failure (List Char) :=
  match trim s with
  | [] => .error (faultAt .arrayCutOff [])
  | c :: rest =>
      if c = ']' then .ok (c :: rest)
      else if c = ',' then
        match trim rest with
        | ']' :: after => .error (faultAt .trailingComma (']' :: after))
        | after => .error (faultAt .trailingCharacters after)
      else .error (faultAt .trailingCharacters (c :: rest))

/-- Decode a list; `inner` decodes its elements. -/
def list (expected : String) (inner : Option (Decoder α)) : Decoder (List α) := fun s =>
  match trim s with
  | '[' :: rest =>
      inside .array inner
        (fun element s => Json.elements Failure.ofJson element (s.length + 1) true s) ('[' :: rest)
  | s => mismatch expected s

/-- Decode an entry of a dictionary onto the entries before it. -/
def entry (kind : IdKind) (value : Decoder α) (gathered : IdMap kind α) (name : String) :
    Decoder (IdMap kind α) := fun s =>
  match asIdentifier kind name with
  | .error cause => .error (.unplaced cause s)
  | .ok key => do
      let rest ← (Json.colon s).mapError Failure.ofJson
      let (value, rest) ← value rest
      .ok (gathered.insert key value, rest)

/-- Decode a dictionary; `inner` decodes its values. -/
def dictionary (expected : String) (kind : IdKind) (inner : Option (Decoder α)) :
    Decoder (IdMap kind α) := fun s =>
  match trim s with
  | '{' :: rest =>
      inside .object inner
        (fun value s =>
          Json.members Failure.ofJson (entry kind value) (s.length + 1) true .empty s)
        ('{' :: rest)
  | s => mismatch expected s

/-- Decode a choice that is written as its name. -/
def choiceName (names : List (String × α)) : Decoder α :=
  scalar fun
    | .text name => ofName names name
    | tree => unexpected tree variantLabel

/-- Decode a choice that is written as an object of its name and `null`, from after
the opening brace. -/
def choiceObject (names : List (String × α)) : Decoder α := fun s =>
  match trim s with
  | [] => .error (faultAt .objectCutOff [])
  | '"' :: rest => do
      let (value, rest) ← choiceName names ('"' :: rest)
      let rest ← (Json.colon rest).mapError Failure.ofJson
      let ((), rest) ← scalar asNothing rest
      match trim rest with
      | [] => .error (.ofJson (Fault.objectCutOff.here []))
      | '}' :: rest => .ok (value, rest)
      | rest => .error (.ofJson (Fault.noValue.here rest))
  | '}' :: rest => .error (faultAt .noValue ('}' :: rest))
  | rest => .error (faultAt .nameNotText rest)

/-- Decode a choice: a name, or an object of a name and `null`. -/
def choice (names : List (String × α)) (depth : Nat) : Decoder α := fun s =>
  match trim s with
  | [] => .error (faultAt .valueCutOff [])
  | '"' :: rest => choiceName names ('"' :: rest)
  | '{' :: rest =>
      if depth = 0 then .error (faultAt .tooDeep ('{' :: rest)) else choiceObject names rest
  | s => .error (faultAt .noValue s)

/-! ### Records -/

/-- Decode what stands in a slot. -/
def slot (decode : (shape : Shape) → Decoder shape.Value) : (slot : Slot) → Decoder slot.Value
  | .plain shape => decode shape
  | .nullable shape => fun s =>
      match trim s with
      | 'n' :: rest => do
          let ((), rest) ← scalar asNothing ('n' :: rest)
          .ok (none, rest)
      | s => do
          let (value, rest) ← decode shape s
          .ok (some value, rest)

/-- Decode a member into its slot; the value of a member that the record does not
have is passed over. -/
def member (value : (m : Member) → Decoder m.Value) (ms : List Member) (slots : Slots ms)
    (name : String) : Decoder (Slots ms) := fun s =>
  Slots.place name (.unplaced (.duplicateMember name) s)
    (fun m => do
      let rest ← (Json.colon s).mapError Failure.ofJson
      value m rest)
    (do
      let rest ← (Json.colon s).mapError Failure.ofJson
      (Json.skip rest).mapError Failure.ofJson)
    ms slots

/-- Decode the members of an object. -/
def objectMembers (value : (m : Member) → Decoder m.Value) (ms : List Member) :
    Decoder (Values ms) := fun s => do
  let (slots, rest) ←
    Json.members Failure.ofJson (member value ms) (s.length + 1) true (.empty ms) s
  match Slots.fill ms slots with
  | .ok values => .ok (values, rest)
  | .error cause => .error (.unplaced cause rest)

/-- Decode the elements of an array as the members of a record, of which there are
`count`. -/
def arrayMembers (value : (m : Member) → Decoder m.Value) (label : String) (count : Nat) :
    (first : Bool) → (ms : List Member) → Decoder (Values ms)
  | _, [], s => do
      let rest ← arrayEnd s
      .ok ((), rest)
  | first, m :: ms, s =>
      match Json.nextElement first s with
      | .error failure => .error (.ofJson failure)
      | .ok none =>
          match Values.pastEnd label count (m :: ms) with
          | .ok values => .ok (values, trim s)
          | .error cause => .error (.unplaced cause (trim s))
      | .ok (some rest) => do
          let (value', rest) ← value m rest
          let (values, rest) ← arrayMembers value label count false ms rest
          .ok ((value', values), rest)

/-- Decode a record; `inner` decodes its members. -/
def record (r : Record α) (inner : Option ((m : Member) → Decoder m.Value)) : Decoder α := fun s =>
  match trim s with
  | '{' :: rest => do
      let (values, rest) ←
        inside .object inner (fun value => objectMembers value r.members) ('{' :: rest)
      .ok (r.make values, rest)
  | '[' :: rest => do
      let (values, rest) ←
        inside .array inner
          (fun value => arrayMembers value r.arrayLabel r.members.length true r.members)
          ('[' :: rest)
      .ok (r.make values, rest)
  | s => mismatch r.label s

/-! ### Tagged records -/

/-- Decode the name of a variant. -/
def tagOf (kind : TaggedKind) : Decoder (Variant kind.Value) :=
  scalar fun
    | .text name => ofName kind.names name
    | tree => unexpected tree variantLabel

/-- The members of a tagged record that have been read. -/
structure Gathered (kind : TaggedKind) where
  variant : Option (Variant kind.Value) := none
  /-- The other members, last first. -/
  members : List (String × Tree) := []

/-- Read a member of a tagged record: the tag, or a member that is kept as a tree. -/
def taggedMember (kind : TaggedKind) (depth : Nat) (gathered : Gathered kind) (name : String) :
    Decoder (Gathered kind) := fun s =>
  if name = kind.tag then
    if gathered.variant.isSome then .error (.unplaced (.duplicateMember name) s)
    else do
      let rest ← (Json.colon s).mapError Failure.ofJson
      let (variant, rest) ← tagOf kind rest
      .ok ({ gathered with variant := some variant }, rest)
  else do
    let (members, rest) ← liftStep (Json.treeMember (Json.tree depth) gathered.members name) s
    .ok ({ gathered with members }, rest)

/-- Read the members of an object up to its end: the variant and its members. -/
def taggedMembers (kind : TaggedKind) (depth : Nat) :
    Decoder (Variant kind.Value × List (String × Tree)) := fun s => do
  let (gathered, rest) ←
    Json.members Failure.ofJson (taggedMember kind depth) (s.length + 1) true {} s
  match gathered.variant with
  | none => .error (.unplaced (.missingMember kind.tag) rest)
  | some variant => .ok ((variant, gathered.members.reverse), rest)

/-- Read the elements of an array up to its end: the variant, and its members in order. -/
def taggedElements (kind : TaggedKind) (depth : Nat) :
    Decoder (Variant kind.Value × List Tree) := fun s =>
  match Json.nextElement true s with
  | .error failure => .error (.ofJson failure)
  | .ok none => .error (.unplaced (.missingMember kind.tag) (trim s))
  | .ok (some rest) => do
      let (variant, rest) ← tagOf kind rest
      let (trees, rest) ←
        Json.elements Failure.ofJson (liftStep (Json.tree depth)) (rest.length + 1) false rest
      .ok ((variant, trees), rest)

/-- Decode a tagged record in which so many containers may be nested, if it may be
opened at all. What is wrong with its members has no place. -/
def tagged (kind : TaggedKind) (depth : Option Nat) : Decoder kind.Value := fun s =>
  let finish (v : Variant kind.Value) (values : Except Cause (Values v.record.members))
      (rest : List Char) : Except Failure (kind.Value × List Char) :=
    match values with
    | .ok values => .ok (v.record.make values, rest)
    | .error cause => .error (.unplaced cause rest)
  match trim s with
  | '{' :: rest => do
      let ((variant, trees), rest) ← inside .object depth (taggedMembers kind) ('{' :: rest)
      let ms := variant.record.members
      finish variant (ofMembers none ms (.empty ms) trees >>= Slots.fill ms) rest
  | '[' :: rest => do
      let ((variant, trees), rest) ← inside .array depth (taggedElements kind) ('[' :: rest)
      let ms := variant.record.members
      finish variant (ofElements variant.record.arrayLabel ms.length ms trees) rest
  | s => mismatch (Shape.tagged kind).label s

/-! ### Shapes -/

/-- Decode a value of a shape in which so many containers may be nested. -/
def decode : (depth : Nat) → (shape : Shape) → Decoder shape.Value
  | _, .text => scalar asText
  | _, .identifier kind => identifier kind
  | _, .natural => scalar asNatural
  | _, .instant => scalar asInstant
  | depth, .choice kind => choice kind.names depth
  | depth, .list element =>
      list (Shape.list element).label (match depth with
        | 0 => none
        | depth + 1 => some (decode depth element))
  | depth, .dictionary kind value =>
      dictionary (Shape.dictionary kind value).label kind (match depth with
        | 0 => none
        | depth + 1 => some (decode depth value))
  | depth, .record kind =>
      record kind.record (match depth with
        | 0 => none
        | depth + 1 => some fun m => slot (fun shape => decode depth shape) m.slot)
  | depth, .tagged kind => tagged kind (match depth with
        | 0 => none
        | depth + 1 => some depth)

/-- Decode a whole text. -/
def decodeText (shape : Shape) (text : List Char) : Except Failure shape.Value := do
  let (value, rest) ← decode Json.maxDepth shape text
  match trim rest with
  | [] => .ok value
  | rest => .error (faultAt .trailingCharacters rest)

end MessageExport.Wire
