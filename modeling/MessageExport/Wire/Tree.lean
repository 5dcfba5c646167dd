import MessageExport.Json.Tree
import MessageExport.Wire.Catalog
/-!
# MessageExport.Wire.Tree

Decoding **a JSON tree** by a shape.

The members of a tagged record can only be read once its tag is known, which may
stand anywhere among them; they are therefore kept as trees and decoded from
there. A tree has no places, so what is found wrong with it is a bare `Cause`.
-/

namespace MessageExport.Wire

open Json (Tree)

/-! ### Scalars -/

/-- What the name of a variant is called where something else was found. -/
def variantLabel : String := "variant identifier"

/-- The complaint that a tree is not what was expected. -/
def unexpected {α : Type} (tree : Tree) (expected : String) : Except Cause α :=
  .error (.wrongKind tree.describe expected)

/-- A tree as a string. -/
def asText : Tree → Except Cause String
  | .text s => .ok s
  | tree => unexpected tree Shape.text.label

/-- A string as an identifier. -/
def asIdentifier (kind : IdKind) (raw : String) : Except Cause (Identifier kind) :=
  match Identifier.ofString? kind raw with
  | some id => .ok id
  | none => .error (.emptyIdentifier kind)

/-- A tree as a natural number of 64 bits. -/
def asNatural : Tree → Except Cause UInt64
  | .number (.natural n) => .ok n
  | .number (.negative size) =>
      .error (.wrongValue (Json.Number.negative size).describe Shape.natural.label)
  | tree => unexpected tree Shape.natural.label

/-- A tree as an instant. -/
def asInstant : Tree → Except Cause Instant
  | .text s => (Instant.ofString s).mapError .notTimestamp
  | tree => unexpected tree Shape.instant.label

/-- A tree as nothing. -/
def asNothing : Tree → Except Cause Unit
  | .null => .ok ()
  | tree => unexpected tree "unit"

/-- The value that a name of a choice stands for. -/
def ofName {α : Type} (names : List (String × α)) (name : String) : Except Cause α :=
  match names.find? fun entry => entry.1 == name with
  | some entry => .ok entry.2
  | none => .error (.unknownVariant name (names.map Prod.fst))

/-- A tree as a choice: a name, or an object of a name and nothing. -/
def asChoice {α : Type} (expected : String) (names : List (String × α)) :
    Tree → Except Cause α
  | .text name => ofName names name
  | .object [(name, content)] => do
      let value ← ofName names name
      match content with
      | .object [] => .ok value
      | content =>
          asNothing content
          .ok value
  | .object members =>
      .error (.wrongValue (Tree.object members).describe "map with a single key")
  | tree => unexpected tree expected

/-! ### Tags -/

/-- The variants of a tagged record by their names. -/
def TaggedKind.names (kind : TaggedKind) : List (String × Variant kind.Value) :=
  kind.variants.map fun variant => (variant.name, variant)

/-- The variant that a tag names, or counts. -/
def variantOf (kind : TaggedKind) : Tree → Except Cause (Variant kind.Value)
  | .text name => ofName kind.names name
  | .number (.natural n) =>
      match kind.variants[n.toNat]? with
      | some variant => .ok variant
      | none =>
          .error (.wrongValue (Json.Number.natural n).describe
            ("variant index 0 <= i < " ++ toString kind.variants.length))
  | tree => unexpected tree variantLabel

/-- Find the variant among the members of an object; `found` is what members before
gave. -/
def variantAmong (kind : TaggedKind) :
    (found : Option (Variant kind.Value)) → List (String × Tree) →
      Except Cause (Variant kind.Value)
  | none, [] => .error (.missingMember kind.tag)
  | some variant, [] => .ok variant
  | found, (name, tree) :: rest =>
      if name = kind.tag then
        if found.isSome then .error (.duplicateMember name)
        else do
          let variant ← variantOf kind tree
          variantAmong kind (some variant) rest
      else variantAmong kind found rest

/-! ### Trees -/

/-- Decode what stands in a slot. -/
def inSlot (tree : Tree) (decode : (shape : Shape) → Except Cause shape.Value) :
    (slot : Slot) → Except Cause slot.Value
  | .plain shape => decode shape
  | .nullable shape =>
      match tree with
      | .null => .ok none
      | _ => (decode shape).map some

mutual

/-- Decode a tree. -/
def ofTree : (shape : Shape) → Tree → Except Cause shape.Value
  | .text, tree => asText tree
  | .identifier kind, tree => asText tree >>= asIdentifier kind
  | .natural, tree => asNatural tree
  | .instant, tree => asInstant tree
  | .choice kind, tree => asChoice (Shape.choice kind).label kind.names tree
  | .list element, .array trees => ofTrees element trees
  | .list element, tree => unexpected tree (Shape.list element).label
  | .dictionary kind value, .object entries => ofEntries kind value entries .empty
  | .dictionary kind value, tree => unexpected tree (Shape.dictionary kind value).label
  | .record kind, .array trees => do
      let values ← ofElements kind.record.arrayLabel kind.record.members.length
        kind.record.members trees
      .ok (kind.record.make values)
  | .record kind, .object entries => do
      let slots ← ofMembers none kind.record.members (.empty _) entries
      let values ← Slots.fill kind.record.members slots
      .ok (kind.record.make values)
  | .record kind, tree => unexpected tree (Shape.record kind).label
  | .tagged kind, .array [] => .error (.missingMember kind.tag)
  | .tagged kind, .array (tag :: trees) => do
      let variant ← variantOf kind tag
      let values ← ofElements variant.record.arrayLabel variant.record.members.length
        variant.record.members trees
      .ok (variant.record.make values)
  | .tagged kind, .object entries => do
      let variant ← variantAmong kind none entries
      let slots ← ofMembers (some kind.tag) variant.record.members (.empty _) entries
      let values ← Slots.fill variant.record.members slots
      .ok (variant.record.make values)
  | .tagged kind, tree => unexpected tree (Shape.tagged kind).label

/-- Decode the elements of a list. -/
def ofTrees (element : Shape) : List Tree → Except Cause (List element.Value)
  | [] => .ok []
  | tree :: trees => do
      let value ← ofTree element tree
      let values ← ofTrees element trees
      .ok (value :: values)

/-- Decode the entries of a dictionary onto `gathered`. -/
def ofEntries (kind : IdKind) (value : Shape) :
    List (String × Tree) → IdMap kind value.Value → Except Cause (IdMap kind value.Value)
  | [], gathered => .ok gathered
  | (name, tree) :: entries, gathered => do
      let key ← asIdentifier kind name
      let value' ← ofTree value tree
      ofEntries kind value entries (gathered.insert key value')

/-- Decode an array as the members of a record, of which there are `count`. -/
def ofElements (label : String) (count : Nat) :
    (ms : List Member) → List Tree → Except Cause (Values ms)
  | ms, [] => Values.pastEnd label count ms
  | [], tree :: trees =>
      .error (.wrongLength (count + (tree :: trees).length)
        (Record.elementCount count ++ " in sequence"))
  | m :: ms, tree :: trees => do
      let value ← inSlot tree (fun shape => ofTree shape tree) m.slot
      let values ← ofElements label count ms trees
      .ok (value, values)

/-- Decode the members of an object into slots. The tag, if there is one, is left out. -/
def ofMembers (tag : Option String) (ms : List Member) :
    Slots ms → List (String × Tree) → Except Cause (Slots ms)
  | slots, [] => .ok slots
  | slots, (name, tree) :: entries =>
      if tag = some name then ofMembers tag ms slots entries
      else do
        let (slots, ()) ← Slots.place name (.duplicateMember name)
          (fun m => do
            let value ← inSlot tree (fun shape => ofTree shape tree) m.slot
            .ok (value, ()))
          (.ok ()) ms slots
        ofMembers tag ms slots entries

end

end MessageExport.Wire
