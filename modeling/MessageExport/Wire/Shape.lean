import MessageExport.Request
import MessageExport.Wire.Failure
/-!
# MessageExport.Wire.Shape

The **shapes** of the wire format: what a value of a type looks like as JSON.

A shape is a scalar, a choice among names, a list, a dictionary, a record or a
tagged record, and `Shape.Value` is the type of the values that have it. A record
is an object of members, or the array of its members in order. A `Member` says
what may stand for it and what its absence means. A tagged record carries a
member that names which of several variants it is.

Decoders and encoders are written once over shapes; what the individual types
look like is the table in `MessageExport.Wire.Catalog`.
-/

namespace MessageExport.Wire

/-- The types that are written as one of a few names. -/
inductive ChoiceKind where
  | viewKind
  | direction
  deriving DecidableEq, Repr

/-- The types that are written as records. -/
inductive RecordKind where
  | document
  | view
  | search
  | viewState
  | titles
  | query
  | queryText
  | filter
  | searchType
  | sortEntry
  | tableSettings
  | widget
  | indexedField
  | selectedField
  | payload
  deriving DecidableEq, Repr

/-- The types that are written as tagged records. -/
inductive TaggedKind where
  | timeRange
  | request
  deriving DecidableEq, Repr

/-- What a value looks like. -/
inductive Shape where
  | text
  | identifier (kind : IdKind)
  | natural
  | instant
  | choice (kind : ChoiceKind)
  | list (element : Shape)
  | dictionary (kind : IdKind) (value : Shape)
  | record (kind : RecordKind)
  | tagged (kind : TaggedKind)
  deriving DecidableEq, Repr

/-- The type written as a choice. -/
abbrev ChoiceKind.Value : ChoiceKind → Type
  | .viewKind => ViewKind
  | .direction => Direction

/-- The type written as a record. -/
abbrev RecordKind.Value : RecordKind → Type
  | .document => Document
  | .view => View
  | .search => Search
  | .viewState => ViewState
  | .titles => Titles
  | .query => Query
  | .queryText => QueryText
  | .filter => Filter
  | .searchType => SearchType
  | .sortEntry => SortEntry
  | .tableSettings => TableSettings
  | .widget => Widget
  | .indexedField => IndexedField
  | .selectedField => SelectedField
  | .payload => Payload

/-- The type written as a tagged record. -/
abbrev TaggedKind.Value : TaggedKind → Type
  | .timeRange => TimeRange
  | .request => Request

/-- The type of the values of a shape. -/
abbrev Shape.Value : Shape → Type
  | .text => String
  | .identifier kind => Identifier kind
  | .natural => UInt64
  | .instant => Instant
  | .choice kind => kind.Value
  | .list element => List element.Value
  | .dictionary kind value => IdMap kind value.Value
  | .record kind => kind.Value
  | .tagged kind => kind.Value

/-! ### Members -/

/-- What may stand for a member. -/
inductive Slot where
  /-- A value of a shape. -/
  | plain (shape : Shape)
  /-- A value of a shape, or `null`. -/
  | nullable (shape : Shape)
  deriving DecidableEq, Repr

/-- The type of what stands for a member. -/
abbrev Slot.Value : Slot → Type
  | .plain shape => shape.Value
  | .nullable shape => Option shape.Value

/-- What the absence of a member means. -/
inductive Absence (α : Type) where
  /-- The member has to be there. -/
  | required
  /-- The member stands for a value if an object lacks it, but an array has to have it. -/
  | implied (value : α)
  /-- The member stands for a value. -/
  | defaulted (value : α)

namespace Absence

variable {α : Type}

/-- The value of a member that an object lacks. -/
def inObject? : Absence α → Option α
  | required => none
  | implied value => some value
  | defaulted value => some value

/-- The value of a member past the end of an array. -/
def inArray? : Absence α → Option α
  | required => none
  | implied _ => none
  | defaulted value => some value

end Absence

/-- A member of a record. -/
structure Member where
  name : String
  slot : Slot
  absence : Absence slot.Value

namespace Member

/-- The type of what stands for the member. -/
abbrev Value (m : Member) : Type := m.slot.Value

/-- A member that has to be there. -/
abbrev required (name : String) (shape : Shape) : Member :=
  ⟨name, .plain shape, .required⟩

/-- A member with a value of its own when it is absent. -/
abbrev defaulted (name : String) (shape : Shape) (value : shape.Value) : Member :=
  ⟨name, .plain shape, .defaulted value⟩

/-- A member that may be absent or `null`. -/
abbrev optional (name : String) (shape : Shape) : Member :=
  ⟨name, .nullable shape, .defaulted none⟩

/-- A member that may be `null`, and absent from objects. -/
abbrev nullable (name : String) (shape : Shape) : Member :=
  ⟨name, .nullable shape, .implied none⟩

end Member

/-- Values for all members of a list. -/
abbrev Values : List Member → Type
  | [] => Unit
  | m :: ms => m.Value × Values ms

/-- The values of the members past the end of an array. The members are the last of
`count`, and the first that has no value of its own tells how long the array is. -/
def Values.pastEnd (label : String) (count : Nat) : (ms : List Member) → Except Cause (Values ms)
  | [] => .ok ()
  | m :: ms =>
      match m.absence.inArray? with
      | none => .error (.wrongLength (count - (m :: ms).length) label)
      | some value => do
          let values ← pastEnd label count ms
          .ok (value, values)

/-- Values for some members of a list. -/
abbrev Slots : List Member → Type
  | [] => Unit
  | m :: ms => Option m.Value × Slots ms

namespace Slots

/-- No values. -/
def empty : (ms : List Member) → Slots ms
  | [] => ()
  | _ :: ms => (none, empty ms)

/-- Put a value into the slot of the member called `name`, which must not have one
yet. The value comes out of `known`, and `unknown` is run if no member has that
name; both may hand on something else besides. -/
def place {ε τ : Type} (name : String) (duplicate : ε)
    (known : (m : Member) → Except ε (m.Value × τ)) (unknown : Except ε τ) :
    (ms : List Member) → Slots ms → Except ε (Slots ms × τ)
  | [], () => do
      let also ← unknown
      .ok ((), also)
  | m :: ms, (slot, slots) =>
      if m.name = name then
        if slot.isSome then .error duplicate
        else do
          let (value, also) ← known m
          .ok ((some value, slots), also)
      else do
        let (slots, also) ← place name duplicate known unknown ms slots
        .ok ((slot, slots), also)

/-- The values of an object's members, with those that it lacks filled in. The
first member that cannot be filled in is missing. -/
def fill : (ms : List Member) → Slots ms → Except Cause (Values ms)
  | [], () => .ok ()
  | m :: ms, (slot, slots) =>
      match slot.or m.absence.inObject? with
      | none => .error (.missingMember m.name)
      | some value => do
          let values ← fill ms slots
          .ok (value, values)

end Slots

/-- How a record is written. -/
structure Record (α : Type) where
  /-- What the record is called where something else was found. -/
  label : String
  members : List Member
  make : Values members → α

namespace Record

variable {α : Type}

/-- A number of elements. -/
def elementCount (n : Nat) : String :=
  toString n ++ if n = 1 then " element" else " elements"

/-- The record as an array, as it is called where an element is absent. -/
def arrayLabel (r : Record α) : String :=
  r.label ++ " with " ++ elementCount r.members.length

end Record

/-- A variant of a tagged record. -/
structure Variant (α : Type) where
  /-- The name that the tag gives. -/
  name : String
  record : Record α

end MessageExport.Wire
