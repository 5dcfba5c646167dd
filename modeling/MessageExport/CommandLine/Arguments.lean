import MessageExport.Files.Path
import MessageExport.Identifier
import MessageExport.Sort
/-!
# MessageExport.CommandLine.Arguments

The **arguments** of the command line.

Arguments are taken one by one from left to right, and the first that ends the
reading decides: a mistake, or a question that the program answers instead of
running. An option takes its value from its own argument or from the next one; the
next one must not look like an option.
-/

namespace MessageExport.CommandLine

/-- What the program is asked to do. -/
structure Arguments where
  /-- The document, or `-` for the standard input. -/
  view : Path
  fixedWidget : Option WidgetId := none
  widget : Option WidgetId := none
  fields : Option (List String) := none
  /-- The fields to sort by. -/
  sort : List String := []
  direction : Option Direction := none
  list : Bool := false
  pretty : Bool := false
  config : Option Path := none
  deriving DecidableEq

/-- The options that take a value. -/
inductive ValueOption where
  | fixedWidget
  | widget
  | fields
  | sort
  | direction
  | config
  deriving DecidableEq, Repr

/-- The options that take none. -/
inductive Flag where
  | list
  | pretty
  deriving DecidableEq, Repr

/-- What an option stands for. -/
inductive OptionKind where
  | valued (option : ValueOption)
  | flag (flag : Flag)
  | version
  | help
  deriving DecidableEq, Repr

/-- The option with a long name. -/
def OptionKind.ofLong? : String → Option OptionKind
  | "fixed-widget" => some (.valued .fixedWidget)
  | "widget" => some (.valued .widget)
  | "fields" => some (.valued .fields)
  | "sort" => some (.valued .sort)
  | "direction" => some (.valued .direction)
  | "config" => some (.valued .config)
  | "list" => some (.flag .list)
  | "pretty" => some (.flag .pretty)
  | "version" => some .version
  | "help" => some .help
  | _ => none

/-- The option with a letter. -/
def OptionKind.ofLetter? : Char → Option OptionKind
  | 'w' => some (.valued .widget)
  | 'f' => some (.valued .fields)
  | 's' => some (.valued .sort)
  | 'd' => some (.valued .direction)
  | 'V' => some .version
  | 'h' => some .help
  | _ => none

/-- A mistake in the arguments. -/
inductive UsageFault where
  | unknownOption (argument : String)
  /-- An option is left without its value. -/
  | missingValue (option : ValueOption)
  /-- A value that the option cannot have. -/
  | refusedValue (option : ValueOption) (value : String)
  /-- An option that may be given once is given again. -/
  | repeatedOption (option : OptionKind)
  /-- A value is given to an option that takes none. -/
  | unneededValue (option : OptionKind)
  /-- A further argument after the document. -/
  | unexpectedArgument (argument : String)
  /-- No document is given. -/
  | missingView
  /-- The document has no name. -/
  | emptyView
  deriving DecidableEq, Repr

/-- Why the reading of arguments ends early. -/
inductive Stop where
  | usage (fault : UsageFault)
  | version
  | help
  deriving DecidableEq, Repr

/-- What has been read of the arguments. -/
structure Draft where
  view : Option Path := none
  fixedWidget : Option WidgetId := none
  widget : Option WidgetId := none
  fields : Option (List String) := none
  sort : List String := []
  direction : Option Direction := none
  list : Bool := false
  pretty : Bool := false
  config : Option Path := none
  /-- An option that waits for its value. -/
  pending : Option ValueOption := none
  /-- Everything that follows names documents. -/
  optionsEnded : Bool := false

namespace Draft

/-- The reading ends with a mistake. -/
def mistake {α : Type} (fault : UsageFault) : Except Stop α := .error (.usage fault)

/-- The value of an option that may be given once, if it is given and can be had. -/
def once {α : Type} (option : ValueOption) (old : Option α) (value : String) (new : Option α) :
    Except Stop (Option α) :=
  if old.isSome then mistake (.repeatedOption (.valued option))
  else
    match new with
    | none => mistake (.refusedValue option value)
    | some a => .ok (some a)

/-- A path, unless it is empty. -/
def pathOf? (s : String) : Option Path :=
  if s = "" then none else some (.ofString s)

/-- Give an option its value. Fields are separated by commas, and each further value of
a repeated option is added at the end. -/
def give (draft : Draft) (option : ValueOption) (value : String) : Except Stop Draft :=
  let draft := { draft with pending := none }
  match option with
  | .fixedWidget => do
      let id ← once option draft.fixedWidget value (Identifier.ofString? .widget value)
      .ok { draft with fixedWidget := id }
  | .widget => do
      let id ← once option draft.widget value (Identifier.ofString? .widget value)
      .ok { draft with widget := id }
  | .fields =>
      .ok { draft with fields := some (draft.fields.getD [] ++ value.splitOn ",") }
  | .sort => .ok { draft with sort := draft.sort ++ [value] }
  | .direction => do
      let direction ← once option draft.direction value (Direction.ofUserText? value)
      .ok { draft with direction }
  | .config => do
      let config ← once option draft.config value (pathOf? value)
      .ok { draft with config }

/-- Raise a flag, which must not be raised yet. -/
def raise (draft : Draft) : Flag → Except Stop Draft
  | .list =>
      if draft.list then mistake (.repeatedOption (.flag .list))
      else .ok { draft with list := true }
  | .pretty =>
      if draft.pretty then mistake (.repeatedOption (.flag .pretty))
      else .ok { draft with pretty := true }

/-- Take up an option, with the value in its own argument if there is one. -/
def takeOption (draft : Draft) (option : OptionKind) (value : Option String) :
    Except Stop Draft :=
  match draft.pending with
  | some waiting => mistake (.missingValue waiting)
  | none =>
      match option, value with
      | .valued option, some value => draft.give option value
      | .valued option, none => .ok { draft with pending := some option }
      | option, some _ => mistake (.unneededValue option)
      | .flag flag, none => draft.raise flag
      | .version, none => .error .version
      | .help, none => .error .help

/-- Take up an argument that is not an option. -/
def takeView (draft : Draft) (argument : String) : Except Stop Draft :=
  match draft.view, pathOf? argument with
  | some _, _ => mistake (.unexpectedArgument argument)
  | none, none => mistake .emptyView
  | none, some path => .ok { draft with view := some path }

/-- Take up an argument. -/
def take (draft : Draft) (argument : String) : Except Stop Draft :=
  match draft.optionsEnded, draft.pending, argument.toList with
  | true, some waiting, _ => mistake (.missingValue waiting)
  | true, none, _ => draft.takeView argument
  | false, _, ['-', '-'] => .ok { draft with optionsEnded := true }
  | false, _, '-' :: '-' :: long =>
      let name := long.takeWhile (· ≠ '=')
      let value :=
        match long.drop name.length with
        | [] => none
        | _ :: value => some (String.ofList value)
      match OptionKind.ofLong? (String.ofList name) with
      | none => mistake (.unknownOption argument)
      | some option => draft.takeOption option value
  | false, _, '-' :: letter :: more =>
      match OptionKind.ofLetter? letter with
      | none => mistake (.unknownOption argument)
      | some (.valued option) =>
          let value :=
            match more with
            | [] => none
            | '=' :: value => some (String.ofList value)
            | value => some (String.ofList value)
          draft.takeOption (.valued option) value
      | some option => draft.takeOption option none
  | false, some waiting, _ => draft.give waiting argument
  | false, none, _ => draft.takeView argument

/-- The arguments once all have been taken. -/
def finish (draft : Draft) : Except Stop Arguments :=
  match draft.pending, draft.view with
  | some waiting, _ => mistake (.missingValue waiting)
  | none, none => mistake .missingView
  | none, some view =>
      .ok
        { view
          fixedWidget := draft.fixedWidget
          widget := draft.widget
          fields := draft.fields
          sort := draft.sort
          direction := draft.direction
          list := draft.list
          pretty := draft.pretty
          config := draft.config }

end Draft

/-- Read the arguments. -/
def Arguments.ofList (arguments : List String) : Except Stop Arguments := do
  let draft ← arguments.foldlM Draft.take {}
  draft.finish

end MessageExport.CommandLine
