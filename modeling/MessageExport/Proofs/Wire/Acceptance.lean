import MessageExport.Proofs.Wire.Rewriting
/-!
# MessageExport.Proofs.Wire.Acceptance

Which **trees are accepted** as values of a shape.

`Accepts shape P` says that exactly the trees with the property `P` are read as values of
the shape, as far as records are written as objects and choices as names. There is one
lemma for every kind of shape: it takes what is accepted for the members, elements or
entries and tells what is accepted for the whole.

## Shape of the proofs

`read` goes from the outside in, and a property of trees is built from the inside out. An
`Accepts` for a container therefore asks for the one of what is inside, at any smaller depth,
and that is how the lemmas fit together: a grammar is put together from them without an
induction of its own, up to the one record that may hold itself.

For containers the work lies in taking a reading apart. A list is read if all its elements are
(`exists_listIn`), a dictionary if all its entries are (`exists_dictionaryIn`), and a record if
every declared member is: under its name it is found once or not at all (`filter_name`), as no
name is repeated. What the record does not declare is let pass, if it is not too deep. The
depth, that names are distinct, and the spelling all go over to what is inside by
`inner_of_array` and `inner_of_object`.
-/

namespace MessageExport.Wire

open Json (Content Tree)

/-! ### Plain trees

The decoder also takes records that are written as arrays, and choices that are written as
objects. A grammar of documents does not have to speak of these: they are rewritings of plain
documents. -/

/-- Records are written as objects, and choices as names. -/
inductive Plain : Place → Content → Prop where
  | null (place : Place) : Plain place .null
  | boolean (place : Place) (value : Bool) : Plain place (.boolean value)
  | number (place : Place) (value : Option Json.Number) : Plain place (.number value)
  | text (place : Place) (value : Option String) : Plain place (.text value)
  | array {place : Place} {elements : List Content}
      (notRecord : ∀ kind, place ≠ some (.record kind))
      (notTagged : ∀ kind, place ≠ some (.tagged kind))
      (inner : ∀ (i : Nat) (c : Content), elements[i]? = some c →
        Plain (elementPlace elements i place) c) : Plain place (.array elements)
  | object {place : Place} {members : List (Option String × Content)}
      (notChoice : ∀ kind, place ≠ some (.choice kind))
      (inner : ∀ member ∈ members, Plain (memberPlace members member.1 place) member.2) :
      Plain place (.object members)

@[simp] theorem plain_object_iff {place : Place} {members : List (Option String × Content)} :
    Plain place (.object members) ↔ (∀ kind, place ≠ some (.choice kind)) ∧
      ∀ member ∈ members, Plain (memberPlace members member.1 place) member.2 := by
  constructor
  · intro h
    cases h with
    | object notChoice inner => exact ⟨notChoice, inner⟩
  · rintro ⟨notChoice, inner⟩
    exact .object notChoice inner

@[simp] theorem plain_list_iff {shape : Shape} {elements : List Content} :
    Plain (some (.list shape)) (.array elements) ↔ ∀ e ∈ elements, Plain (some shape) e := by
  constructor
  · intro h e he
    cases h with
    | array _ _ inner =>
        obtain ⟨i, hi⟩ := List.mem_iff_getElem?.mp he
        exact inner i e hi
  · intro h
    exact .array (by simp) (by simp) fun i c hc => h c (List.mem_of_getElem? hc)

/-! ### Properties of trees

The combinators that a grammar is written with. Each comes with the lemma that says what it
means for a tree that is given. -/

/-- There is a member of that name with a property. -/
def Has (name : String) (P : Tree → Prop) (members : List (String × Tree)) : Prop :=
  ∃ tree, (name, tree) ∈ members ∧ P tree

/-- If there is a member of that name, it has a property. -/
def MayHave (name : String) (P : Tree → Prop) (members : List (String × Tree)) : Prop :=
  ∀ tree, (name, tree) ∈ members → P tree

/-- An object whose members have a property. -/
def IsObject (P : List (String × Tree) → Prop) (tree : Tree) : Prop :=
  ∃ members, tree = .object members ∧ P members

/-- An array whose elements all have a property. -/
def IsListOf (P : Tree → Prop) (tree : Tree) : Prop :=
  ∃ elements, tree = .array elements ∧ ∀ e ∈ elements, P e

/-- An object with names that are not empty, whose values all have a property. -/
def IsDictionaryOf (P : Tree → Prop) (tree : Tree) : Prop :=
  ∃ members, tree = .object members ∧ ∀ member ∈ members, member.1 ≠ "" ∧ P member.2

@[simp] theorem isObject_object {P : List (String × Tree) → Prop}
    {members : List (String × Tree)} : IsObject P (.object members) ↔ P members := by
  simp [IsObject]

@[simp] theorem isListOf_array {P : Tree → Prop} {elements : List Tree} :
    IsListOf P (.array elements) ↔ ∀ e ∈ elements, P e := by
  simp [IsListOf]

@[simp] theorem isDictionaryOf_object {P : Tree → Prop} {members : List (String × Tree)} :
    IsDictionaryOf P (.object members) ↔ ∀ member ∈ members, member.1 ≠ "" ∧ P member.2 := by
  simp [IsDictionaryOf]

/-- Nothing, or a tree with a property. -/
def IsNullOr (P : Tree → Prop) (tree : Tree) : Prop :=
  tree = .null ∨ P tree

/-- A string. -/
def IsText (tree : Tree) : Prop :=
  ∃ s, tree = .text s

/-- A string that is not empty. -/
def IsNonempty (tree : Tree) : Prop :=
  ∃ s, tree = .text s ∧ s ≠ ""

/-- One of some names. -/
def IsOneOf (names : List String) (tree : Tree) : Prop :=
  ∃ name ∈ names, tree = .text name

/-- A natural number of 64 bits. -/
def IsNatural (tree : Tree) : Prop :=
  ∃ n : UInt64, tree = .number (.natural n)

/-- A timestamp that stands for an instant. -/
def IsTimestamp (tree : Tree) : Prop :=
  ∃ s t, tree = .text s ∧ Instant.ofString s = .ok t

/-! ### Acceptance

The scalars come first: for each of them, a tree is read exactly if it is of the right kind, and
of the right form where the form matters. Every other kind of tree is refused. -/

/-- The trees that are read as values of a shape are those with a property; a tagged record
around them has been read as a tree before. -/
def Accepts (buffered : Bool) (depth : Nat) (shape : Shape) (P : Tree → Prop) : Prop :=
  ∀ tree : Tree, tree.depth ≤ depth → tree.content.Distinct →
    Plain (some shape) tree.content →
      ((∃ value, read depth ⟨buffered, false⟩ shape tree.content = some value) ↔ P tree)

variable {buffered : Bool} {depth : Nat}

/-- Texts are strings. -/
theorem accepts_text : Accepts buffered depth .text IsText := by
  intro tree _ _ _
  rw [read_text]
  cases tree with
  | text s => exact ⟨fun _ => ⟨s, rfl⟩, fun _ => ⟨s, rfl⟩⟩
  | null | boolean | number | array | object => simp [IsText, Tree.content, textIn]

/-- Every text but the empty one is an identifier. -/
theorem exists_ofString? {kind : IdKind} {raw : String} :
    (∃ id : Identifier kind, Identifier.ofString? kind raw = some id) ↔ raw ≠ "" := by
  constructor
  · rintro ⟨id, hid⟩
    rw [← Identifier.ofString?_eq_some.mp hid]
    exact id.nonempty
  · exact fun hne => ⟨⟨raw, hne⟩, Identifier.ofString?_raw (⟨raw, hne⟩ : Identifier kind)⟩

/-- Identifiers are strings that are not empty. -/
theorem accepts_identifier (kind : IdKind) :
    Accepts buffered depth (.identifier kind) IsNonempty := by
  intro tree _ _ _
  rw [read_identifier]
  cases tree with
  | text s =>
      refine exists_ofString?.trans ⟨fun hne => ⟨s, rfl, hne⟩, ?_⟩
      rintro ⟨_, heq, hne⟩
      obtain rfl := Tree.text.inj heq
      exact hne
  | null | boolean | number | array | object => simp [IsNonempty, Tree.content, textIn]

/-- Natural numbers are numbers of 64 bits that are written without a sign. -/
theorem accepts_natural : Accepts buffered depth .natural IsNatural := by
  intro tree _ _ _
  rw [read_natural]
  cases tree with
  | number n =>
      cases n with
      | natural n => exact ⟨fun _ => ⟨n, rfl⟩, fun _ => ⟨n, rfl⟩⟩
      | negative | real => simp [IsNatural, Tree.content, naturalIn]
  | null | boolean | text | array | object => simp [IsNatural, Tree.content, naturalIn]

/-- Instants are strings that are timestamps. -/
theorem accepts_instant : Accepts buffered depth .instant IsTimestamp := by
  intro tree _ _ _
  rw [read_instant]
  cases tree with
  | text s =>
      simp only [Tree.content, textIn, Option.bind_eq_bind, Option.bind_some, toOption_eq_some]
      constructor
      · rintro ⟨t, ht⟩
        exact ⟨s, t, rfl, ht⟩
      · rintro ⟨_, t, heq, ht⟩
        obtain rfl := Tree.text.inj heq
        exact ⟨t, ht⟩
  | null | boolean | number | array | object => simp [IsTimestamp, Tree.content, textIn]

/-- A name is found exactly if it is among the names. -/
theorem exists_named {α : Type} {names : List (String × α)} {name : String} :
    (∃ value, named names name = some value) ↔ name ∈ names.map Prod.fst := by
  rw [← Option.isSome_iff_exists, named, Option.isSome_map, List.find?_isSome, List.mem_map]
  simp

/-- Choices are strings among their names. -/
theorem accepts_choice (kind : ChoiceKind) :
    Accepts buffered depth (.choice kind) (IsOneOf (kind.names.map Prod.fst)) := by
  intro tree _ _ hplain
  rw [read_choice]
  cases tree with
  | text s =>
      rw [Tree.content, choiceIn, exists_named]
      constructor
      · exact fun h => ⟨s, h, rfl⟩
      · rintro ⟨_, h, heq⟩
        obtain rfl := Tree.text.inj heq
        exact h
  | object members =>
      -- an object is no plain way to write a choice
      cases hplain with
      | object notChoice => exact absurd rfl (notChoice kind)
  | null | boolean | number | array => simp [IsOneOf, Tree.content, choiceIn]

/-- A container can only be opened if that is allowed. -/
theorem exists_inner {n : Nat} (h : n + 1 ≤ depth) : ∃ inner, depth = inner + 1 :=
  ⟨depth - 1, by omega⟩

/-- What is known of an element of an accepted array. -/
theorem inner_of_array {elements : List Tree} {shape : Shape}
    (hdepth : (Tree.array elements).depth ≤ depth + 1)
    (hdistinct : (Tree.array elements).content.Distinct)
    (hplain : Plain (some (.list shape)) (Tree.array elements).content) :
    ∀ e ∈ elements, e.depth ≤ depth ∧ e.content.Distinct ∧ Plain (some shape) e.content := by
  intro e he
  rw [Tree.content, Tree.contents_eq_map] at hdistinct hplain
  have hmem : e.content ∈ elements.map Tree.content := List.mem_map_of_mem he
  refine ⟨Tree.depth_array_le.mp hdepth e he, hdistinct.element _ hmem, ?_⟩
  cases hplain with
  | array _ _ inner =>
      obtain ⟨i, hi⟩ := List.getElem?_of_mem hmem
      exact inner i _ hi

/-- What is known of a member of an accepted object. -/
theorem inner_of_object {members : List (String × Tree)} {place : Place}
    (hdepth : (Tree.object members).depth ≤ depth + 1)
    (hdistinct : (Tree.object members).content.Distinct)
    (hplain : Plain place (Tree.object members).content) :
    ∀ member ∈ members, member.2.depth ≤ depth ∧ member.2.content.Distinct ∧
      Plain (memberPlace (Tree.memberContents members) (some member.1) place)
        member.2.content := by
  intro member hmember
  have hmem : (some member.1, member.2.content) ∈ Tree.memberContents members := by
    rw [Tree.memberContents_eq_map]
    exact List.mem_map.mpr ⟨member, hmember, rfl⟩
  refine ⟨Tree.depth_object_le.mp hdepth member hmember, hdistinct.member _ hmem, ?_⟩
  cases hplain with
  | object _ inner => exact inner _ hmem

/-- A list is read exactly if all its elements are. -/
theorem exists_listIn {α : Type} {find : Content → Option α} {elements : List Tree} :
    (∃ values, listIn find (Tree.array elements).content = some values) ↔
      ∀ e ∈ elements, ∃ v, find e.content = some v := by
  simp only [← Option.isSome_iff_exists]
  rw [Tree.content, Tree.contents_eq_map, listIn, isSome_mapM, List.forall_mem_map]

/-- A dictionary is read exactly if none of its names is empty and all its values are read. -/
theorem exists_dictionaryIn {α : Type} {kind : IdKind} {find : Content → Option α}
    {members : List (String × Tree)} :
    (∃ v, objectIn (dictionaryIn ⟨buffered, false⟩ kind find) (Tree.object members).content =
      some v) ↔
        ∀ member ∈ members, member.1 ≠ "" ∧ ∃ v, find member.2.content = some v := by
  have hentry (member : String × Tree) :
      (entryIn kind find (some member.1, member.2.content)).isSome = true ↔
        member.1 ≠ "" ∧ ∃ v, find member.2.content = some v := by
    simp [Option.isSome_iff_exists, entryIn_eq_some, exists_ofString?]
  have hentries : ((Tree.memberContents members).mapM (entryIn kind find)).isSome = true ↔
      ∀ member ∈ members, member.1 ≠ "" ∧ ∃ v, find member.2.content = some v := by
    rw [Tree.memberContents_eq_map, isSome_mapM, List.forall_mem_map]
    exact forall₂_congr fun member _ => hentry member
  rw [← hentries, Option.isSome_iff_exists]
  -- entries of one key are no fault, for the last of them counts
  simp [Tree.content, objectIn, dictionaryIn_eq_some]

/-- Lists are arrays of what is accepted for their elements. -/
theorem accepts_list {element : Shape} {P : Tree → Prop}
    (h : ∀ inner < depth, Accepts buffered inner element P) :
    Accepts buffered depth (.list element) (IsListOf P) := by
  intro tree hdepth hdistinct hplain
  cases tree with
  | array elements =>
      obtain ⟨depth, rfl⟩ := exists_inner hdepth
      rw [isListOf_array]
      refine exists_listIn.trans (forall₂_congr fun e he => ?_)
      obtain ⟨hle, hdistinct, hplain⟩ := inner_of_array hdepth hdistinct hplain e he
      exact h depth (Nat.lt_succ_self depth) e hle hdistinct hplain
  | null | boolean | number | text | object =>
      cases depth <;> simp [IsListOf, Tree.content, read, listIn]

/-- Dictionaries are objects of what is accepted for their values, under names that are not
empty. -/
theorem accepts_dictionary (kind : IdKind) {value : Shape} {P : Tree → Prop}
    (h : ∀ inner < depth, Accepts buffered inner value P) :
    Accepts buffered depth (.dictionary kind value) (IsDictionaryOf P) := by
  intro tree hdepth hdistinct hplain
  cases tree with
  | object members =>
      obtain ⟨depth, rfl⟩ := exists_inner hdepth
      rw [isDictionaryOf_object]
      refine exists_dictionaryIn.trans (forall₂_congr fun member hmember => ?_)
      obtain ⟨hle, hdistinct, hplain⟩ := inner_of_object hdepth hdistinct hplain member hmember
      exact and_congr_right fun _ =>
        h depth (Nat.lt_succ_self depth) member.2 hle hdistinct hplain
  | null | boolean | number | text | array =>
      cases depth <;> simp [IsDictionaryOf, Tree.content, read, objectIn]

/-! ### Records

For a record the members that it declares and the members of the object have to be matched by
their names. The induction is along the declared members, each of which takes the member of its
name out of the object (`exists_membersIn`). -/

/-- What is accepted in a slot. -/
def Slot.Holds (P : Tree → Prop) : Slot → Tree → Prop
  | .plain _ => P
  | .nullable _ => IsNullOr P

/-- What is accepted for a member: only members that have to be there are missed. -/
def Member.Holds (P : Tree → Prop) (m : Member) : List (String × Tree) → Prop :=
  match m.absence with
  | .required => Has m.name (m.slot.Holds P)
  | .implied _ | .defaulted _ => MayHave m.name (m.slot.Holds P)

/-- In a slot is accepted what the shape accepts, and `null` where the slot may be empty. -/
theorem slot_holds {slot : Slot} {P : Tree → Prop} {tree : Tree}
    (h : (∃ value, read depth ⟨buffered, false⟩ slot.shape tree.content = some value) ↔ P tree) :
    (∃ value, slotIn (fun shape => read depth ⟨buffered, false⟩ shape) slot tree.content =
      some value) ↔
      slot.Holds P tree := by
  cases slot with
  | plain shape => exact h
  | nullable shape =>
      by_cases hnull : tree = .null
      · subst hnull
        exact ⟨fun _ => .inl rfl, fun _ => ⟨none, rfl⟩⟩
      · have hcontent : tree.content ≠ .null := fun hc => by
          cases tree <;> cases hc
          exact hnull rfl
        simp only [slotIn_nullable _ shape hcontent, Slot.Holds, IsNullOr, hnull, false_or]
        rw [← h]
        constructor
        · rintro ⟨_, hvalue⟩
          obtain ⟨value, hvalue, -⟩ := Option.map_eq_some_iff.mp hvalue
          exact ⟨value, hvalue⟩
        · rintro ⟨value, hvalue⟩
          exact ⟨some value, Option.map_eq_some_iff.mpr ⟨value, hvalue, rfl⟩⟩

variable {members : List (String × Tree)}

/-- Where no name is repeated there is one member of a name, or none. -/
theorem filter_name (hnames : (members.map Prod.fst).Nodup) (name : String) :
    ((members.filter fun member => member.1 == name) = [] ∧ ∀ tree, (name, tree) ∉ members) ∨
      ∃ tree, (members.filter fun member => member.1 == name) = [(name, tree)] ∧
        ∀ tree', (name, tree') ∈ members ↔ tree' = tree := by
  have hmem (tree : Tree) : (name, tree) ∈ members ↔
      (name, tree) ∈ members.filter fun member => member.1 == name := by
    simp [List.mem_filter]
  have hfiltered : ((members.filter fun member => member.1 == name).map Prod.fst).Nodup :=
    hnames.sublist (List.filter_sublist.map _)
  have hname : ∀ member ∈ members.filter (fun member => member.1 == name), member.1 = name :=
    fun member hmember => beq_iff_eq.mp (List.mem_filter.mp hmember).2
  simp only [hmem]
  generalize (members.filter fun member => member.1 == name) = found at hfiltered hname
  match found, hfiltered, hname with
  | [], _, _ => exact .inl ⟨rfl, fun _ => List.not_mem_nil⟩
  | [(_, tree)], _, hname =>
      obtain rfl := hname _ List.mem_cons_self
      exact .inr ⟨tree, rfl, by simp⟩
  | a :: b :: more, hfiltered, hname =>
      have ha := hname a List.mem_cons_self
      have hb := hname b (List.mem_cons_of_mem _ List.mem_cons_self)
      simp [ha, hb] at hfiltered

/-- What is read under a name that is not repeated. -/
theorem exists_onlyIn {α : Type} {value : Content → Option α} {absent : Option α} {name : String}
    (hnames : (members.map Prod.fst).Nodup) :
    (∃ v, onlyIn value absent (withName name (Tree.memberContents members)) = some v) ↔
      ((∃ v, absent = some v) ∨ ∃ tree, (name, tree) ∈ members) ∧
        ∀ tree, (name, tree) ∈ members → ∃ v, value tree.content = some v := by
  rw [withName_memberContents]
  rcases filter_name hnames name with ⟨hfilter, hnone⟩ | ⟨tree, hfilter, honly⟩
  · simp [hfilter, hnone, Tree.memberContents, onlyIn]
  · simp [hfilter, honly, Tree.memberContents, onlyIn]

/-- What is read of the members of a record. -/
theorem exists_membersIn {passes : Content → Bool}
    {value : (m : Member) → Content → Option m.Value} {ms : List Member}
    (hms : (ms.map Member.name).Nodup) (hnames : (members.map Prod.fst).Nodup)
    (hpasses : ∀ member ∈ members, passes member.2.content = true) :
    (∃ values, membersIn passes value ms (Tree.memberContents members) = some values) ↔
      ∀ m ∈ ms, ((∃ v, m.absence.inObject? = some v) ∨ ∃ tree, (m.name, tree) ∈ members) ∧
        ∀ tree, (m.name, tree) ∈ members → ∃ v, value m tree.content = some v := by
  induction ms generalizing members with
  | nil =>
      have hall : ∀ member ∈ Tree.memberContents members,
          member.1.isSome = true ∧ passes member.2 = true := by
        rw [Tree.memberContents_eq_map, List.forall_mem_map]
        exact fun member hmember => ⟨rfl, hpasses member hmember⟩
      simp only [List.not_mem_nil, false_implies, implies_true, iff_true]
      exact ⟨(), membersIn_nil.mpr hall⟩
  | cons m ms ih =>
      obtain ⟨hnot, hms⟩ := List.nodup_cons.mp hms
      have hothers := ih hms
        (hnames.sublist (List.filter_sublist (p := fun member => member.1 != m.name).map _))
        fun member hmember => hpasses member (List.mem_filter.mp hmember).1
      rw [← withoutName_memberContents] at hothers
      -- members of other names are still there
      have hmem : ∀ m' ∈ ms, ∀ tree : Tree,
          ((m'.name, tree) ∈ members.filter fun member => member.1 != m.name) ↔
            (m'.name, tree) ∈ members := by
        intro m' hm' tree
        have hne : m'.name ≠ m.name := fun heq => hnot (heq ▸ List.mem_map_of_mem hm')
        simp [List.mem_filter, hne]
      rw [List.forall_mem_cons, ← exists_onlyIn hnames]
      have hrest : (∃ values, membersIn passes value ms
          (withoutName m.name (Tree.memberContents members)) = some values) ↔
            ∀ m' ∈ ms, ((∃ v, m'.absence.inObject? = some v) ∨ ∃ tree, (m'.name, tree) ∈ members) ∧
              ∀ tree, (m'.name, tree) ∈ members → ∃ v, value m' tree.content = some v := by
        refine hothers.trans (forall₂_congr fun m' hm' => ?_)
        simp only [hmem m' hm']
      rw [← hrest]
      constructor
      · rintro ⟨values, hvalues⟩
        obtain ⟨hown, hothers⟩ := membersIn_cons.mp hvalues
        exact ⟨⟨_, hown⟩, _, hothers⟩
      · rintro ⟨⟨own, hown⟩, others, hothers⟩
        exact ⟨(own, others), membersIn_cons.mpr ⟨hown, hothers⟩⟩

/-- A member that has to be there is there, and a member that is there is accepted. -/
theorem member_holds {m : Member} {P : Tree → Prop} (hnames : (members.map Prod.fst).Nodup) :
    ((∃ v, m.absence.inObject? = some v) ∨ ∃ tree, (m.name, tree) ∈ members) ∧
        (∀ tree, (m.name, tree) ∈ members → m.slot.Holds P tree) ↔ m.Holds P members := by
  have hrequired : ((∃ v, (Absence.required : Absence m.slot.Value).inObject? = some v) ∨
      ∃ tree, (m.name, tree) ∈ members) ∧
        (∀ tree, (m.name, tree) ∈ members → m.slot.Holds P tree) ↔
          Has m.name (m.slot.Holds P) members := by
    constructor
    · rintro ⟨⟨_, hnone⟩ | ⟨tree, htree⟩, hall⟩
      · cases hnone
      · exact ⟨tree, htree, hall tree htree⟩
    · rintro ⟨tree, htree, hP⟩
      refine ⟨.inr ⟨tree, htree⟩, fun tree' htree' => ?_⟩
      -- there is only one member of that name
      rwa [(Prod.mk.inj (List.inj_on_of_nodup_map hnames htree' htree rfl)).2]
  unfold Member.Holds
  cases habsence : m.absence with
  | required => exact hrequired
  | implied value => exact ⟨fun h => h.2, fun h => ⟨.inl ⟨value, rfl⟩, h⟩⟩
  | defaulted value => exact ⟨fun h => h.2, fun h => ⟨.inl ⟨value, rfl⟩, h⟩⟩

/-- Two lists that correspond are compared element by element. -/
theorem forall_iff_forall₂ {α β : Type} {r s : α → β → Prop} {q : α → Prop} {as : List α}
    {bs : List β} (h : List.Forall₂ r as bs) (hq : ∀ a ∈ as, ∀ b, r a b → (q a ↔ s a b)) :
    (∀ a ∈ as, q a) ↔ List.Forall₂ s as bs := by
  induction h with
  | nil => simp
  | @cons a b as bs hhead _ ih =>
      obtain ⟨ha, has⟩ := List.forall_mem_cons.mp hq
      rw [List.forall_mem_cons, List.forall₂_cons, ha b hhead, ih has]

/-- What is read of the members of a record is what is accepted for them. -/
theorem exists_membersIn_iff (buffered : Bool) (depth : Nat) {ms : List Member}
    {Ps : List (Tree → Prop)} {r : Member → (Tree → Prop) → Prop}
    (hms : (ms.map Member.name).Nodup) (hnames : (members.map Prod.fst).Nodup)
    (hdepth : ∀ member ∈ members, member.2.depth ≤ depth) (h : List.Forall₂ r ms Ps)
    (hr : ∀ m ∈ ms, ∀ P, r m P → ∀ tree, (m.name, tree) ∈ members →
      ((∃ value, read depth ⟨buffered, false⟩ m.slot.shape tree.content = some value) ↔ P tree)) :
    (∃ values, membersIn (passesIn ⟨buffered, false⟩ depth)
      (fun m => slotIn (fun shape => read depth ⟨buffered, false⟩ shape) m.slot) ms
        (Tree.memberContents members) = some values) ↔
      List.Forall₂ (fun m P => m.Holds P members) ms Ps := by
  -- what is not declared fits into the containers that are left, so that it is let pass
  have hpasses : ∀ member ∈ members,
      passesIn ⟨buffered, false⟩ depth member.2.content = true := by
    intro member hmember
    simp [passesIn, Json.tree?_content (hdepth member hmember)]
  rw [exists_membersIn hms hnames hpasses]
  refine forall_iff_forall₂ h fun m hm P hP => ?_
  rw [← member_holds hnames]
  exact and_congr_right fun _ => forall₂_congr fun tree htree =>
    slot_holds (hr m hm P hP tree htree)

/-- In a content where no name is repeated, none is in an object. -/
theorem nodup_names (h : (Tree.object members).content.Distinct) :
    (members.map Prod.fst).Nodup := by
  have hnames := h.names
  simpa [Tree.memberContents_eq_map, List.filterMap_map, Function.comp_def] using hnames

/-- A record is accepted as an object in which every member is. -/
theorem accepts_record (kind : RecordKind) {Ps : List (Tree → Prop)}
    (h : ∀ inner < depth,
      List.Forall₂ (fun m P => Accepts buffered inner m.slot.shape P) kind.record.members Ps) :
    Accepts buffered depth (.record kind) (IsObject fun members =>
      List.Forall₂ (fun m P => m.Holds P members) kind.record.members Ps) := by
  intro tree hdepth hdistinct hplain
  cases tree with
  | object members =>
      obtain ⟨depth, rfl⟩ := exists_inner hdepth
      have hinner := inner_of_object hdepth hdistinct hplain
      have hmembers := exists_membersIn_iff buffered depth (names_nodup kind)
        (nodup_names hdistinct) (fun member hmember => (hinner member hmember).1)
        -- the place of a declared member is that of its own slot
        (h depth (Nat.lt_succ_self _))
        (fun m hm P hP tree htree => by
          obtain ⟨hle, hdistinct, hplain⟩ := hinner _ htree
          rw [memberPlace, placeNamed_eq (names_nodup kind) hm] at hplain
          exact hP tree hle hdistinct hplain)
      rw [isObject_object, ← hmembers]
      constructor
      · rintro ⟨value, hvalue⟩
        obtain ⟨values, hvalues, -⟩ := Option.map_eq_some_iff.mp hvalue
        exact ⟨values, hvalues⟩
      · rintro ⟨values, hvalues⟩
        exact ⟨_, Option.map_eq_some_iff.mpr ⟨values, hvalues, rfl⟩⟩
  | array elements =>
      cases hplain with
      | array notRecord => exact absurd rfl (notRecord kind)
  | null | boolean | number | text =>
      cases depth <;> simp [IsObject, Tree.content, read, recordIn]

/-! ### Tagged records

The tag decides which record it is, and the other members are read after the tag has been found.
They have been trees in between, which is why the lemmas for what is inside are needed for
readings after a tree (`buffered`). -/

/-- A variant is read from its name, and from nothing else. -/
theorem variantIn_eq_some_iff {kind : TaggedKind} {tree : Tree}
    {variant : Variant kind.Value} :
    variantIn ⟨false, false⟩ kind tree.content = some variant ↔
      variant ∈ kind.variants ∧ tree = .text variant.name := by
  constructor
  · intro h
    refine ⟨mem_variants_of_variantIn h, ?_⟩
    cases tree with
    | text s =>
        obtain ⟨entry, hentry, rfl⟩ := Option.map_eq_some_iff.mp h
        obtain ⟨variant, -, rfl⟩ := List.mem_map.mp (List.mem_of_find?_eq_some hentry)
        have hname : variant.name = s := by simpa using List.find?_some hentry
        rw [hname]
    | number n => cases n <;> cases h
    | null | boolean | array | object => cases h
  · rintro ⟨hvariant, rfl⟩
    exact named_variant kind hvariant

/-- The tag names the variant. -/
theorem onlyIn_variant_iff {kind : TaggedKind} {variant : Variant kind.Value}
    (hnames : (members.map Prod.fst).Nodup) :
    onlyIn (variantIn ⟨false, false⟩ kind) none
        (withName kind.tag (Tree.memberContents members)) = some variant ↔
      variant ∈ kind.variants ∧ Has kind.tag (IsOneOf [variant.name]) members := by
  rw [withName_memberContents]
  rcases filter_name hnames kind.tag with ⟨hfilter, hnone⟩ | ⟨tree, hfilter, honly⟩
  · simp [hfilter, hnone, Tree.memberContents, onlyIn, Has]
  · simp [hfilter, honly, Tree.memberContents, onlyIn, Has, IsOneOf, variantIn_eq_some_iff]

/-- Whether a member is accepted does not depend on members of other names. -/
theorem holds_filter {m : Member} {P : Tree → Prop} {name : String} (h : m.name ≠ name) :
    m.Holds P (members.filter fun member => member.1 != name) ↔ m.Holds P members := by
  have hmem (tree : Tree) : (m.name, tree) ∈ members.filter (fun member => member.1 != name) ↔
      (m.name, tree) ∈ members := by
    simp [List.mem_filter, h]
  unfold Member.Holds
  cases m.absence with
  | required => simp only [Has, hmem]
  | implied | defaulted => simp only [MayHave, hmem]

/-- Relations that agree on the elements of a list agree on the list. -/
theorem forall₂_iff_of_mem {α β : Type} {r s : α → β → Prop} {as : List α} {bs : List β}
    (h : ∀ a ∈ as, ∀ b, r a b ↔ s a b) : List.Forall₂ r as bs ↔ List.Forall₂ s as bs := by
  induction as generalizing bs with
  | nil => cases bs <;> simp
  | cons a as ih =>
      obtain ⟨ha, has⟩ := List.forall_mem_cons.mp h
      cases bs with
      | nil => simp
      | cons b bs => rw [List.forall₂_cons, List.forall₂_cons, ha b, ih has]

/-- Beside the tag, the members of the variant are accepted. -/
theorem exists_variantMembers {kind : TaggedKind} {variant : Variant kind.Value}
    (hvariant : variant ∈ kind.variants)
    (hnames : (members.map Prod.fst).Nodup)
    (htag : Has kind.tag (IsOneOf [variant.name]) members)
    (hinner : ∀ member ∈ members, member.2.depth ≤ depth ∧ member.2.content.Distinct ∧
      Plain (memberPlace (Tree.memberContents members) (some member.1) (some (.tagged kind)))
        member.2.content) {Ps : List (Tree → Prop)}
    (h : List.Forall₂ (fun m P => Accepts true depth m.slot.shape P) variant.record.members Ps) :
    (∃ values, membersIn (passesIn ⟨true, false⟩ depth)
      (fun m => slotIn (fun shape => read depth ⟨true, false⟩ shape) m.slot)
      variant.record.members (withoutName kind.tag (Tree.memberContents members)) =
        some values) ↔
      List.Forall₂ (fun m P => m.Holds P members) variant.record.members Ps := by
  obtain ⟨hnot, hms⟩ := List.nodup_cons.mp (variantNames_nodup kind hvariant)
  have hne (m : Member) (hm : m ∈ variant.record.members) : m.name ≠ kind.tag :=
    fun heq => hnot (heq ▸ List.mem_map_of_mem hm)
  -- the tag tells where the other members stand
  have honly : onlyIn (variantIn ⟨false, false⟩ kind) none
      (withName kind.tag (Tree.memberContents members)) = some variant :=
    (onlyIn_variant_iff hnames).mpr ⟨hvariant, htag⟩
  rw [withoutName_memberContents]
  refine Iff.trans (exists_membersIn_iff true depth hms
    (hnames.sublist (List.filter_sublist.map _))
    (fun member hmember => (hinner member (List.mem_filter.mp hmember).1).1) h
    fun m hm P hP tree htree => ?_)
    (forall₂_iff_of_mem fun m hm P => holds_filter (hne m hm))
  obtain ⟨hle, hdistinct, hplain⟩ := hinner _ (List.mem_filter.mp htree).1
  rw [memberPlace, if_neg (fun heq => hne m hm (Option.some.inj heq)),
    variantAt?_of_onlyIn honly, Option.bind_some, placeNamed_eq hms hm] at hplain
  exact hP tree hle hdistinct hplain

/-- A tagged record is accepted as an object in which the tag names a variant all of whose
members are accepted. -/
theorem accepts_tagged (kind : TaggedKind) {Ps : Variant kind.Value → List (Tree → Prop)}
    (h : ∀ inner < depth, ∀ variant ∈ kind.variants,
      List.Forall₂ (fun m P => Accepts true inner m.slot.shape P) variant.record.members
        (Ps variant)) :
    Accepts false depth (.tagged kind) (IsObject fun members =>
      ∃ variant ∈ kind.variants, Has kind.tag (IsOneOf [variant.name]) members ∧
        List.Forall₂ (fun m P => m.Holds P members) variant.record.members (Ps variant)) := by
  intro tree hdepth hdistinct hplain
  cases tree with
  | object members =>
      obtain ⟨depth, rfl⟩ := exists_inner hdepth
      have hnames := nodup_names hdistinct
      have hinner := inner_of_object hdepth hdistinct hplain
      rw [isObject_object]
      constructor
      · rintro ⟨value, hvalue⟩
        obtain ⟨variant, values, hvariant, hvalues, -⟩ := taggedIn_object.mp hvalue
        obtain ⟨hmem, htag⟩ := (onlyIn_variant_iff hnames).mp hvariant
        have hmembers := exists_variantMembers hmem hnames htag hinner
          (h depth (Nat.lt_succ_self depth) variant hmem)
        exact ⟨variant, hmem, htag, hmembers.mp ⟨values, hvalues⟩⟩
      · rintro ⟨variant, hmem, htag, hall⟩
        have hvariant := (onlyIn_variant_iff hnames).mpr ⟨hmem, htag⟩
        have hmembers := exists_variantMembers hmem hnames htag hinner
          (h depth (Nat.lt_succ_self depth) variant hmem)
        obtain ⟨values, hvalues⟩ := hmembers.mpr hall
        exact ⟨_, taggedIn_object.mpr ⟨variant, values, hvariant, hvalues, rfl⟩⟩
  | array elements =>
      cases hplain with
      | array _ notTagged => exact absurd rfl (notTagged kind)
  | null | boolean | number | text =>
      cases depth <;> simp [IsObject, Tree.content, read, taggedIn]

end MessageExport.Wire
