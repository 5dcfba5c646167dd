import MessageExport.Proofs.Instant.RoundTrip
import MessageExport.Proofs.Json.Printing
import MessageExport.Proofs.Wire.Strictness
import MessageExport.Wire.Encode
/-!
# MessageExport.Proofs.Wire.Writing

What is **written** for a value is read as that value.

Every encoder follows the catalog: a record is an object of its members in their order, and
a member is left out only where its absence means the value that it has. This is said once
for every kind of record (`RecordKind.writes`, `TaggedKind.writes`), and nothing after it
looks into an encoder.

## Shape of the proofs

The encoders are plain functions, one for each type. `RecordKind.writes_make` evaluates them
kind by kind against `Writes`, a relation between the members that the catalog declares, their
values, and the members that are written. From there on there is one proof for all records:
`membersIn_of_writes`, by induction on `Writes`, says that the members are read back if what
stands in their slots is.

The main theorem, `read_toJson`, is an induction on the number of containers that may be opened,
with a case for each shape. A value inside a container is written less deep, so that the
hypothesis applies to it.
-/

namespace MessageExport

/-- Filters in a list are written one by one. -/
theorem Filter.listToJson_eq_map (filters : List Filter) :
    Filter.listToJson filters = filters.map Filter.toJson := by
  induction filters with
  | nil => rfl
  | cons filter more ih => rw [Filter.listToJson, ih, List.map_cons]

namespace Wire

open Json (Content Tree)

/-- What stands in a slot, as a tree. -/
def Slot.toJson : (slot : Slot) → slot.Value → Tree
  | .plain shape, value => shape.toJson value
  | .nullable shape, value => nullableTree shape.toJson value

/-- The members of a record as they are written, each under its name and in its order. A
record either leaves out every member whose absence means the value that it has, or none. -/
inductive Writes (omits : Bool) : (ms : List Member) → Values ms → List (String × Tree) → Prop where
  | nil : Writes omits [] () []
  | present {m : Member} {ms : List Member} (value : m.Value) {values : Values ms}
      {entries : List (String × Tree)}
      (kept : omits = true → m.absence.inObject? ≠ some value)
      (more : Writes omits ms values entries) :
      Writes omits (m :: ms) (value, values) ((m.name, m.slot.toJson value) :: entries)
  | absent {m : Member} {ms : List Member} {value : m.Value} {values : Values ms}
      {entries : List (String × Tree)} (omitted : omits = true)
      (implied : m.absence.inObject? = some value) (more : Writes omits ms values entries) :
      Writes omits (m :: ms) (value, values) entries

/-! ### The encoders

A record is written from values for its members, and every record has such values, so that a
value of a record type may be taken apart into those of its members. -/

/-- What is absent is left out of filters and payloads only. -/
def RecordKind.omits : RecordKind → Bool
  | .filter => true
  | .payload => true
  | _ => false

/-- A member that is never left out. -/
theorem Writes.always {m : Member} {ms : List Member} (value : m.Value) {values : Values ms}
    {entries : List (String × Tree)} (more : Writes false ms values entries) :
    Writes false (m :: ms) (value, values) ((m.name, m.slot.toJson value) :: entries) :=
  .present value nofun more

/-- A member that has to be there. -/
theorem Writes.required (name : String) (shape : Shape) (value : shape.Value)
    {ms : List Member} {values : Values ms} {entries : List (String × Tree)}
    (more : Writes true ms values entries) :
    Writes true (.required name shape :: ms) (value, values)
      ((name, shape.toJson value) :: entries) :=
  .present (m := .required name shape) value nofun more

/-- A member that is left out when it is absent. -/
theorem Writes.optional (name : String) (shape : Shape) (value : Option shape.Value)
    {ms : List Member} {values : Values ms} {entries : List (String × Tree)}
    (more : Writes true ms values entries) :
    Writes true (.optional name shape :: ms) (value, values)
      (ifPresent name shape.toJson value ++ entries) := by
  cases value with
  | none => exact .absent rfl rfl more
  | some value => exact .present (m := .optional name shape) (some value) nofun more

/-- Every record is written with its members. -/
theorem RecordKind.writes_make (kind : RecordKind) (values : Values kind.record.members) :
    ∃ entries, kind.toJson (kind.record.make values) = .object entries ∧
      Writes kind.omits kind.record.members values entries := by
  cases kind with
  | document => exact ⟨_, rfl, .always _ (.always _ .nil)⟩
  | view => exact ⟨_, rfl, .always _ (.always _ (.always _ (.always _ .nil)))⟩
  | search => exact ⟨_, rfl, .always _ (.always _ .nil)⟩
  | viewState => exact ⟨_, rfl, .always _ (.always _ (.always _ (.always _ .nil)))⟩
  | titles => exact ⟨_, rfl, .always _ .nil⟩
  | query => exact ⟨_, rfl, .always _ (.always _ (.always _ (.always _ (.always _ .nil))))⟩
  | queryText => exact ⟨_, rfl, .always _ (.always _ .nil)⟩
  | filter =>
      obtain ⟨type, id, children, _⟩ := values
      -- the only member that is left out where it is an empty list
      have hchildren : Writes true [.defaulted "filters" (.list (.record .filter)) []]
          (children, ())
          (match children with
            | [] => []
            | child :: more => [("filters", .array (child.toJson :: Filter.listToJson more))]) := by
        cases children with
        | nil => exact .absent rfl rfl .nil
        | cons child more =>
            simp only [Filter.listToJson_eq_map]
            exact .present (m := .defaulted "filters" (.list (.record .filter)) [])
              (child :: more) nofun .nil
      refine ⟨_, ?_, .required "type" .text type (.optional "id" .text id hchildren)⟩
      rw [RecordKind.toJson, Filter.toJson.eq_def]
      rfl
  | searchType => exact ⟨_, rfl, .always _ (.always _ .nil)⟩
  | sortEntry => exact ⟨_, rfl, .always _ (.always _ .nil)⟩
  | tableSettings => exact ⟨_, rfl, .always _ (.always _ .nil)⟩
  | widget => exact ⟨_, rfl, .always _ (.always _ (.always _ .nil))⟩
  | indexedField => exact ⟨_, rfl, .always _ (.always _ .nil)⟩
  | selectedField => exact ⟨_, rfl, .always _ .nil⟩
  | payload =>
      obtain ⟨fields, sort, timeRange, queryText, streams, _⟩ := values
      have hoptional := Writes.optional "timerange" (.tagged .timeRange) timeRange
        (.optional "query_string" (.record .queryText) queryText
          (.optional "streams" (.list (.identifier .stream)) streams .nil))
      refine ⟨_, ?_, .required "fields_in_order" (.list .text) fields
        (.required "sort" (.list (.record .sortEntry)) sort hoptional)⟩
      rw [RecordKind.toJson, Payload.toJson, List.append_nil, List.append_assoc, List.append_assoc]
      rfl

/-- Every value is made of values for its members. -/
theorem RecordKind.exists_make (kind : RecordKind) (value : kind.Value) :
    ∃ values, kind.record.make values = value := by
  cases kind with
  | document => exact ⟨(value.view, value.fields, ()), rfl⟩
  | view => exact ⟨(value.id, value.kind, value.search, value.states, ()), rfl⟩
  | search => exact ⟨(value.id, value.queries, ()), rfl⟩
  | viewState => exact ⟨(value.query, value.widgets, value.titles, value.searchTypes, ()), rfl⟩
  | titles => exact ⟨(value.widget, ()), rfl⟩
  | query =>
      exact ⟨(value.id, value.timeRange, value.text, value.filter, value.searchTypes, ()), rfl⟩
  | queryText => exact ⟨(value.type, value.text, ()), rfl⟩
  | filter =>
      obtain ⟨type, id, children⟩ := value
      exact ⟨(type, id, children, ()), rfl⟩
  | searchType => exact ⟨(value.id, value.type, ()), rfl⟩
  | sortEntry => exact ⟨(value.field, value.direction, ()), rfl⟩
  | tableSettings => exact ⟨(value.fields, value.sort, ()), rfl⟩
  | widget => exact ⟨(value.id, value.type, value.settings, ()), rfl⟩
  | indexedField => exact ⟨(value.name, value.type, ()), rfl⟩
  | selectedField => exact ⟨(value.field, ()), rfl⟩
  | payload =>
      exact ⟨(value.fields, value.sort, value.timeRange, value.queryText, value.streams, ()), rfl⟩

/-- Every value of a record type is written with its members. -/
theorem RecordKind.writes (kind : RecordKind) (value : kind.Value) :
    ∃ values entries, kind.record.make values = value ∧
      kind.toJson value = .object entries ∧
        Writes kind.omits kind.record.members values entries := by
  obtain ⟨values, rfl⟩ := kind.exists_make value
  obtain ⟨entries, hobject, hwrites⟩ := kind.writes_make values
  exact ⟨values, entries, rfl, hobject, hwrites⟩

/-- Every tagged record is written with the name of its variant and the members of that. -/
theorem TaggedKind.writes (kind : TaggedKind) (value : kind.Value) :
    ∃ variant ∈ kind.variants, ∃ values entries, variant.record.make values = value ∧
      kind.toJson value = .object ((kind.tag, .text variant.name) :: entries) ∧
        Writes false variant.record.members values entries := by
  cases kind with
  | timeRange =>
      cases value with
      | relative range =>
          exact ⟨relativeVariant, by simp [TaggedKind.variants], (range, ()), _, rfl, rfl,
            .always _ .nil⟩
      | absolute start stop =>
          exact ⟨absoluteVariant, by simp [TaggedKind.variants], (start, stop, ()), _, rfl, rfl,
            .always _ (.always _ .nil)⟩
      | keyword text =>
          exact ⟨keywordVariant, by simp [TaggedKind.variants], (text, ()), _, rfl, rfl,
            .always _ .nil⟩
  | request =>
      cases value with
      | searchType search searchType payload =>
          exact ⟨searchTypeVariant, by simp [TaggedKind.variants],
            (search, searchType, payload, ()), _, rfl, rfl,
            .always _ (.always _ (.always _ .nil))⟩
      | allMessages payload =>
          exact ⟨allMessagesVariant, by simp [TaggedKind.variants], (payload, ()), _, rfl, rfl,
            .always _ .nil⟩

/-! ### What is written

These lemmas only know `Writes`: what is written under which names, that it is not `null` unless
something is absent, and that numbers are natural. -/

namespace Writes

variable {omits : Bool} {ms : List Member} {values : Values ms} {entries : List (String × Tree)}

/-- Only members of the record are written, each at most once. -/
theorem names_sublist (h : Writes omits ms values entries) :
    (entries.map Prod.fst).Sublist (ms.map Member.name) := by
  induction h with
  | nil => exact .slnil
  | present value _ _ ih => exact ih.cons_cons _
  | absent _ _ _ ih => exact ih.cons _

/-- Nothing is written under other names. -/
theorem withName_eq_nil (h : Writes omits ms values entries) {name : String}
    (hname : name ∉ ms.map Member.name) : withName name (Tree.memberContents entries) = [] := by
  refine Wire.withName_eq_nil fun hmem => hname (h.names_sublist.subset ?_)
  rw [Tree.memberContents_eq_map, List.map_map] at hmem
  obtain ⟨member, hmember, heq⟩ := List.mem_map.mp hmem
  rw [← Option.some.inj heq]
  exact List.mem_map_of_mem hmember

/-- What is written under a name is what stands in a slot. -/
theorem exists_slot (h : Writes omits ms values entries) :
    ∀ member ∈ entries, ∃ (slot : Slot) (value : slot.Value), member.2 = slot.toJson value := by
  induction h with
  | nil => simp
  | present value _ _ ih => exact List.forall_mem_cons.mpr ⟨⟨_, value, rfl⟩, ih⟩
  | absent _ _ _ ih => exact ih

end Writes

/-- Nothing is written as `null` but what is absent. -/
theorem toJson_ne_null (shape : Shape) (value : shape.Value) : shape.toJson value ≠ .null := by
  cases shape with
  | text | natural | identifier | instant | list | dictionary => nofun
  | choice kind => cases kind <;> nofun
  | record kind =>
      obtain ⟨_, _, -, hobject, -⟩ := kind.writes value
      rw [Shape.toJson, hobject]
      nofun
  | tagged kind =>
      obtain ⟨_, -, _, _, -, hobject, -⟩ := kind.writes value
      rw [Shape.toJson, hobject]
      nofun

/-- The content of a tree is `null` only if the tree is. -/
theorem content_ne_null {tree : Tree} (h : tree ≠ .null) : tree.content ≠ .null := by
  cases tree with
  | null => exact absurd rfl h
  | boolean | number | text | array | object => nofun

/-- Only natural numbers are written. -/
theorem natural_toJson (shape : Shape) (value : shape.Value) : (shape.toJson value).Natural := by
  -- the values inside a container are written as trees that are less deep
  generalize hdepth : (shape.toJson value).depth = depth
  induction depth using Nat.strongRecOn generalizing shape value with
  | ind depth ih =>
      have hslot {slot : Slot} {value : slot.Value} (hlt : (slot.toJson value).depth < depth) :
          (slot.toJson value).Natural := by
        cases slot with
        | plain shape => exact ih _ hlt shape value rfl
        | nullable shape =>
            cases value with
            | none => exact .null
            | some value => exact ih _ hlt shape value rfl
      cases shape with
      | text | identifier | instant => exact .text _
      | natural => exact .number _
      | choice kind => cases kind <;> exact .text _
      | list element =>
          refine .array fun tree htree => ?_
          obtain ⟨value', -, rfl⟩ := List.mem_map.mp htree
          exact ih _ (hdepth ▸ Tree.depth_lt_array htree) element value' rfl
      | dictionary kind element =>
          refine .object fun member hmember => ?_
          obtain ⟨entry, -, rfl⟩ := List.mem_map.mp hmember
          exact ih _ (hdepth ▸ Tree.depth_lt_object hmember) element entry.2 rfl
      | record kind =>
          obtain ⟨values, entries, rfl, hobject, hwrites⟩ := kind.writes value
          rw [Shape.toJson, hobject] at hdepth ⊢
          refine .object fun member hmember => ?_
          obtain ⟨slot, value', hvalue⟩ := hwrites.exists_slot member hmember
          rw [hvalue]
          exact hslot (hvalue ▸ hdepth ▸ Tree.depth_lt_object hmember)
      | tagged kind =>
          obtain ⟨variant, -, values, entries, rfl, hobject, hwrites⟩ := kind.writes value
          rw [Shape.toJson, hobject] at hdepth ⊢
          refine .object (List.forall_mem_cons.mpr ⟨.text _, fun member hmember => ?_⟩)
          obtain ⟨slot, value', hvalue⟩ := hwrites.exists_slot member hmember
          rw [hvalue]
          exact hslot (hvalue ▸ hdepth ▸ Tree.depth_lt_object (List.mem_cons_of_mem _ hmember))

/-! ### Reading it back

Scalars are read back by evaluation, or by the round trip of their own text. For containers the
lemmas take for granted that what is inside is read back. -/

/-- A choice is written with the name that it is found by. -/
theorem named_wireName (kind : ChoiceKind) (value : kind.Value) :
    ∃ name, kind.toJson value = .text name ∧ named kind.names name = some value := by
  cases kind <;> cases value <;> exact ⟨_, rfl, rfl⟩

/-- What is written for the members of a record is read back, if what stands in their slots
is. -/
theorem membersIn_of_writes (passes : Content → Bool) {omits : Bool}
    {value : (m : Member) → Content → Option m.Value} {ms : List Member} {values : Values ms}
    {entries : List (String × Tree)} (h : Writes omits ms values entries)
    (hnames : (ms.map Member.name).Nodup)
    (hvalue : ∀ (m : Member) (x : m.Value), (m.name, m.slot.toJson x) ∈ entries →
      value m (m.slot.toJson x).content = some x) :
    membersIn passes value ms (Tree.memberContents entries) = some values := by
  induction h with
  | nil => rfl
  | @present m ms x values entries _ hmore ih =>
      obtain ⟨hnot, hnodup⟩ := List.nodup_cons.mp hnames
      have hnone := hmore.withName_eq_nil hnot
      have hown := hvalue m x List.mem_cons_self
      have hothers := ih hnodup fun m' x' hmem => hvalue m' x' (List.mem_cons_of_mem _ hmem)
      rw [Tree.memberContents, membersIn, withName_cons_self, hnone, withoutName_cons_self,
        withoutName_eq_self hnone, hothers, onlyIn, hown]
      rfl
  | @absent m ms x values entries _ himplied hmore ih =>
      obtain ⟨hnot, hnodup⟩ := List.nodup_cons.mp hnames
      have hnone := hmore.withName_eq_nil hnot
      rw [membersIn, hnone, withoutName_eq_self hnone, ih hnodup hvalue, onlyIn, himplied]
      rfl

/-- What is written for a value without a container is read as that value. -/
theorem read_toJson_of_depth_eq_zero {depth : Nat} {m : Manner} {shape : Shape}
    {value : shape.Value} (hdepth : (shape.toJson value).depth = 0) :
    read depth m shape (shape.toJson value).content = some value := by
  cases shape with
  | text =>
      rw [read_text]
      rfl
  | identifier kind =>
      rw [read_identifier]
      exact Identifier.ofString?_raw value
  | natural =>
      rw [read_natural]
      rfl
  | instant =>
      simp only [read_instant, Shape.toJson, Instant.toJson, Tree.content, textIn,
        Option.bind_eq_bind, Option.bind_some]
      rw [Instant.ofString_toString]
      rfl
  | choice kind =>
      obtain ⟨name, htext, hname⟩ := named_wireName kind value
      rw [read_choice, Shape.toJson, htext]
      exact hname
  | list => cases hdepth
  | dictionary => cases hdepth
  | record kind =>
      obtain ⟨_, _, -, hobject, -⟩ := kind.writes value
      rw [Shape.toJson, hobject] at hdepth
      cases hdepth
  | tagged kind =>
      obtain ⟨_, -, _, _, -, hobject, -⟩ := kind.writes value
      rw [Shape.toJson, hobject] at hdepth
      cases hdepth

section

variable {depth : Nat} {m : Manner} {inner : (shape : Shape) → Content → Option shape.Value}

/-- Only what is absent is written as `null` in a slot, so that it is told from values. -/
theorem slotIn_toJson {slot : Slot}
    (hinner : ∀ value : slot.shape.Value, (slot.shape.toJson value).depth ≤ depth →
      inner slot.shape (slot.shape.toJson value).content = some value)
    {value : slot.Value} (hle : (slot.toJson value).depth ≤ depth) :
    slotIn inner slot (slot.toJson value).content = some value := by
  cases slot with
  | plain shape => exact hinner value hle
  | nullable shape =>
      cases value with
      | none => rfl
      | some value =>
          have hnull : (shape.toJson value).content ≠ .null :=
            content_ne_null (toJson_ne_null shape value)
          exact (slotIn_nullable inner shape hnull).trans
            (congrArg (Option.map some) (hinner value hle))

/-- A list is read back if its elements are. -/
theorem listIn_toJson {element : Shape} {find : Content → Option element.Value}
    (hfind : ∀ value, (element.toJson value).depth ≤ depth →
      find (element.toJson value).content = some value)
    {values : List element.Value} (hle : ((Shape.list element).toJson values).depth ≤ depth + 1) :
    listIn find ((Shape.list element).toJson values).content = some values := by
  have hdepth := Tree.depth_array_le.mp hle
  rw [Shape.toJson, listTree, Tree.content, Tree.contents_eq_map, listIn, List.map_map,
    List.mapM_map]
  refine mapM_eq_some_iff.mpr (List.forall₂_same.mpr fun value hvalue => ?_)
  exact hfind value (hdepth _ (List.mem_map_of_mem hvalue))

/-- The entries of a dictionary are written in their order, and none of their keys twice. -/
theorem dictionaryIn_toJson {kind : IdKind} {element : Shape}
    {find : Content → Option element.Value}
    (hfind : ∀ value, (element.toJson value).depth ≤ depth →
      find (element.toJson value).content = some value)
    {value : IdMap kind element.Value}
    (hle : ((Shape.dictionary kind element).toJson value).depth ≤ depth + 1) :
    objectIn (dictionaryIn m kind find) ((Shape.dictionary kind element).toJson value).content =
      some value := by
  have hdepth := Tree.depth_object_le.mp hle
  rw [Shape.toJson, dictionaryTree, Tree.content, Tree.memberContents_eq_map, objectIn,
    List.map_map]
  refine dictionaryIn_eq_some.mpr
    ⟨value.entries, ?_, fun _ => value.nodup_keys, value.ofList_entries⟩
  rw [List.mapM_map]
  refine mapM_eq_some_iff.mpr (List.forall₂_same.mpr fun entry hentry => ?_)
  have hread := hfind entry.2 (hdepth _ (List.mem_map_of_mem hentry))
  exact entryIn_eq_some.mpr ⟨entry.1.raw, rfl, Identifier.ofString?_raw entry.1, hread⟩

end

/-- What is written for a value is read as that value, if there are enough containers. -/
theorem read_toJson {depth : Nat} {m : Manner} {shape : Shape} {value : shape.Value}
    (hdepth : (shape.toJson value).depth ≤ depth) :
    read depth m shape (shape.toJson value).content = some value := by
  induction depth generalizing m shape value with
  | zero => exact read_toJson_of_depth_eq_zero (Nat.le_zero.mp hdepth)
  | succ depth ih =>
      have hslot (m : Manner) (member : Member) (value : member.Value)
          (hle : (member.slot.toJson value).depth ≤ depth) :
          slotIn (fun shape => read depth m shape) member.slot
            (member.slot.toJson value).content = some value :=
        slotIn_toJson (fun _ hle => ih hle) hle
      cases shape with
      | text | identifier | natural | instant => exact read_toJson_of_depth_eq_zero rfl
      | choice kind => exact read_toJson_of_depth_eq_zero (by cases kind <;> rfl)
      | list element => exact listIn_toJson (fun _ hle => ih hle) hdepth
      | dictionary kind element => exact dictionaryIn_toJson (fun _ hle => ih hle) hdepth
      | record kind =>
          obtain ⟨values, entries, rfl, hobject, hwrites⟩ := kind.writes value
          rw [Shape.toJson, hobject] at hdepth ⊢
          have hmembers := membersIn_of_writes (passesIn m depth) hwrites (names_nodup kind)
            fun member x hmem => hslot m member x (Tree.depth_object_le.mp hdepth _ hmem)
          exact congrArg (Option.map kind.record.make) hmembers
      | tagged kind =>
          obtain ⟨variant, hvariant, values, entries, rfl, hobject, hwrites⟩ := kind.writes value
          rw [Shape.toJson, hobject] at hdepth ⊢
          -- the tag is written first, and under no other member's name
          obtain ⟨htag, hnames⟩ := List.nodup_cons.mp (variantNames_nodup kind hvariant)
          have hnone := hwrites.withName_eq_nil htag
          have hmembers := membersIn_of_writes (passesIn m.afterwards depth) hwrites hnames
            fun member x hmem => hslot m.afterwards member x
              (Tree.depth_object_le.mp hdepth _ (List.mem_cons_of_mem _ hmem))
          refine taggedIn_object.mpr ⟨variant, values, ?_, ?_, rfl⟩
          · rw [Tree.memberContents, withName_cons_self, hnone]
            exact named_variant kind hvariant
          · rw [Tree.memberContents, withoutName_cons_self, withoutName_eq_self hnone]
            exact hmembers

end Wire

end MessageExport
