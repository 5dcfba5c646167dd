import MessageExport.Proofs.Json.Strings
import MessageExport.Wire.Decode
/-!
# MessageExport.Proofs.Wire.Reading

**Reading** a value off the content of a JSON text.

There are two decoders. One reads a text from left to right; the other starts from a tree
and is used below tagged records, whose members wait until the tag is known. What they
find depends on the content alone, and `read` says how: it does not walk through the
members of an object but looks for each member of the record among them, so that their
order is out of the question from the start. A `Manner` tells the two decoders apart.
-/

namespace MessageExport.Wire

open Json (Content Tree)

variable {α β : Type}

/-- A manner of reading. -/
structure Manner where
  /-- The text has been read as a tree before. -/
  buffered : Bool
  /-- A dictionary that repeats a key is refused, which no decoder does. -/
  strict : Bool
  deriving DecidableEq, Repr

namespace Manner

/-- Straight from the text. -/
def streamed : Manner := ⟨false, false⟩

/-- From a tree that has been read before. -/
def afterwards (m : Manner) : Manner := { m with buffered := true }

end Manner

/-! ### Scalars

No scalar depends on how many containers may be nested in it, and only choices and tags on the
manner. -/

/-- A string. -/
def textIn : Content → Option String
  | .text value => value
  | _ => none

/-- A natural number of 64 bits. -/
def naturalIn : Content → Option UInt64
  | .number (some (.natural n)) => some n
  | _ => none

/-- What a name stands for. -/
def named (names : List (String × α)) (name : String) : Option α :=
  (names.find? fun entry => entry.1 == name).map Prod.snd

/-- A choice: a name, or an object of a name and nothing. -/
def choiceIn (m : Manner) (names : List (String × α)) (depth : Nat) : Content → Option α
  | .text (some name) => named names name
  | .object [(some name, .null)] => if 1 ≤ depth then named names name else none
  | .object [(some name, .object [])] =>
      if m.buffered ∧ 2 ≤ depth then named names name else none
  | _ => none

/-- The variant that a tag names, or, after a tree, counts. -/
def variantIn (m : Manner) (kind : TaggedKind) : Content → Option (Variant kind.Value)
  | .text (some name) => named kind.names name
  | .number (some (.natural n)) => if m.buffered then kind.variants[n.toNat]? else none
  | _ => none

/-! ### Containers -/

/-- An entry of a dictionary. -/
def entryIn (kind : IdKind) (value : Content → Option α) (member : Option String × Content) :
    Option (Identifier kind × α) := do
  let key ← member.1 >>= Identifier.ofString? kind
  let value ← value member.2
  some (key, value)

/-- An entry is read from a name that is a key and a value. -/
theorem entryIn_eq_some {kind : IdKind} {value : Content → Option α}
    {member : Option String × Content} {entry : Identifier kind × α} :
    entryIn kind value member = some entry ↔ ∃ name, member.1 = some name ∧
      Identifier.ofString? kind name = some entry.1 ∧ value member.2 = some entry.2 := by
  obtain ⟨name, c⟩ := member
  obtain ⟨key, x⟩ := entry
  cases name <;> simp [entryIn, Option.bind_eq_some_iff]

/-- A dictionary. -/
def dictionaryIn (m : Manner) (kind : IdKind) (value : Content → Option α)
    (members : List (Option String × Content)) : Option (IdMap kind α) := do
  let entries ← members.mapM (entryIn kind value)
  if m.strict ∧ ¬ (entries.map Prod.fst).Nodup then none else some (.ofList entries)

/-- A dictionary is made of its entries, in a strict manner of distinct ones. -/
theorem dictionaryIn_eq_some {m : Manner} {kind : IdKind} {value : Content → Option α}
    {members : List (Option String × Content)} {v : IdMap kind α} :
    dictionaryIn m kind value members = some v ↔ ∃ entries,
      members.mapM (entryIn kind value) = some entries ∧
        (m.strict = true → (entries.map Prod.fst).Nodup) ∧ .ofList entries = v := by
  simp [dictionaryIn, Option.bind_eq_some_iff]

/-- What stands in a slot. -/
def slotIn (read : (shape : Shape) → Content → Option shape.Value) :
    (slot : Slot) → Content → Option slot.Value
  | .plain shape, c => read shape c
  | .nullable _, .null => some none
  | .nullable shape, c => (read shape c).map some

theorem slotIn_nullable (read : (shape : Shape) → Content → Option shape.Value) (shape : Shape)
    {c : Content} (h : c ≠ .null) : slotIn read (.nullable shape) c = (read shape c).map some := by
  cases c with
  | null => exact absurd rfl h
  | boolean | number | text | array | object => rfl

/-- The value under a name, from all the members that have it. -/
def onlyIn (value : Content → Option α) (absent : Option α) :
    List (Option String × Content) → Option α
  | [] => absent
  | [member] => value member.2
  | _ :: _ :: _ => none

/-- The members that have a name. -/
def withName (name : String) (members : List (Option String × Content)) :
    List (Option String × Content) :=
  members.filter fun member => member.1 == some name

/-- The members that do not have a name. -/
def withoutName (name : String) (members : List (Option String × Content)) :
    List (Option String × Content) :=
  members.filter fun member => member.1 != some name

theorem withName_eq_nil {name : String} {members : List (Option String × Content)}
    (h : some name ∉ members.map Prod.fst) : withName name members = [] := by
  refine List.filter_eq_nil_iff.mpr fun member hmember heq => h ?_
  rw [← beq_iff_eq.mp heq]
  exact List.mem_map_of_mem hmember

theorem withName_cons_self (name : String) (c : Content)
    (members : List (Option String × Content)) :
    withName name ((some name, c) :: members) = (some name, c) :: withName name members := by
  rw [withName, List.filter_cons_of_pos (by simp)]
  rfl

theorem withoutName_cons_self (name : String) (c : Content)
    (members : List (Option String × Content)) :
    withoutName name ((some name, c) :: members) = withoutName name members := by
  rw [withoutName, List.filter_cons_of_neg (by simp)]
  rfl

theorem withName_cons_of_ne {name : String} {member : Option String × Content}
    (h : member.1 ≠ some name) (members : List (Option String × Content)) :
    withName name (member :: members) = withName name members := by
  rw [withName, List.filter_cons_of_neg (by simp [h])]
  rfl

theorem withoutName_cons_of_ne {name : String} {member : Option String × Content}
    (h : member.1 ≠ some name) (members : List (Option String × Content)) :
    withoutName name (member :: members) = member :: withoutName name members := by
  rw [withoutName, List.filter_cons_of_pos (by simp [h])]
  rfl

theorem withoutName_eq_self {name : String} {members : List (Option String × Content)}
    (h : withName name members = []) : withoutName name members = members := by
  refine List.filter_eq_self.mpr fun member hmember => ?_
  have hnot := List.filter_eq_nil_iff.mp h member hmember
  simpa using hnot

/-- The members of a record in an object. What the record does not have is let pass. -/
def membersIn (passes : Content → Bool) (value : (m : Member) → Content → Option m.Value) :
    (ms : List Member) → List (Option String × Content) → Option (Values ms)
  | [], members =>
      if members.all fun member => member.1.isSome && passes member.2 then some () else none
  | m :: ms, members => do
      let own ← onlyIn (value m) m.absence.inObject? (withName m.name members)
      let values ← membersIn passes value ms (withoutName m.name members)
      some (own, values)

/-- A record without members is read where all that is there is let pass. -/
theorem membersIn_nil {passes : Content → Bool} {value : (m : Member) → Content → Option m.Value}
    {members : List (Option String × Content)} {values : Values []} :
    membersIn passes value [] members = some values ↔
      ∀ member ∈ members, member.1.isSome = true ∧ passes member.2 = true := by
  simp [membersIn]

/-- The first member of a record is read under its name, and the others without it. -/
theorem membersIn_cons {passes : Content → Bool} {value : (m : Member) → Content → Option m.Value}
    {m : Member} {ms : List Member} {members : List (Option String × Content)}
    {values : Values (m :: ms)} :
    membersIn passes value (m :: ms) members = some values ↔
      onlyIn (value m) m.absence.inObject? (withName m.name members) = some values.1 ∧
        membersIn passes value ms (withoutName m.name members) = some values.2 := by
  obtain ⟨own, others⟩ := values
  simp [membersIn, Option.bind_eq_some_iff]

/-- The members of a record in an array. -/
def elementsIn (value : (m : Member) → Content → Option m.Value) :
    (ms : List Member) → List Content → Option (Values ms)
  | ms, [] => (Values.pastEnd "" 0 ms).toOption
  | [], _ :: _ => none
  | m :: ms, c :: cs => do
      let own ← value m c
      let values ← elementsIn value ms cs
      some (own, values)

/-- The first element of an array is read for the first member. -/
theorem elementsIn_cons {value : (m : Member) → Content → Option m.Value} {m : Member}
    {ms : List Member} {c : Content} {cs : List Content} {values : Values (m :: ms)} :
    elementsIn value (m :: ms) (c :: cs) = some values ↔
      value m c = some values.1 ∧ elementsIn value ms cs = some values.2 := by
  obtain ⟨own, others⟩ := values
  simp [elementsIn, Option.bind_eq_some_iff]

/-- A record. -/
def recordIn (passes : Content → Bool) (value : (m : Member) → Content → Option m.Value)
    (r : Record α) : Content → Option α
  | .object members => (membersIn passes value r.members members).map r.make
  | .array elements => (elementsIn value r.members elements).map r.make
  | _ => none

/-- A tagged record; `variant` reads its tag. -/
def taggedIn (variant : Content → Option (Variant α)) (tag : String) (passes : Content → Bool)
    (value : (m : Member) → Content → Option m.Value) : Content → Option α
  | .object members => do
      let v ← onlyIn variant none (withName tag members)
      let values ← membersIn passes value v.record.members (withoutName tag members)
      some (v.record.make values)
  | .array (c :: elements) => do
      let v ← variant c
      let values ← elementsIn value v.record.members elements
      some (v.record.make values)
  | _ => none

section

variable {variant : Content → Option (Variant α)} {tag : String} {passes : Content → Bool}
variable {value : (m : Member) → Content → Option m.Value} {v : α}

theorem taggedIn_object {members : List (Option String × Content)} :
    taggedIn variant tag passes value (.object members) = some v ↔
      ∃ (found : Variant α) (values : Values found.record.members),
        onlyIn variant none (withName tag members) = some found ∧
          membersIn passes value found.record.members (withoutName tag members) = some values ∧
            found.record.make values = v := by
  simp [taggedIn, Option.bind_eq_some_iff]

theorem taggedIn_array {c : Content} {elements : List Content} :
    taggedIn variant tag passes value (.array (c :: elements)) = some v ↔
      ∃ (found : Variant α) (values : Values found.record.members),
        variant c = some found ∧
          elementsIn value found.record.members elements = some values ∧
            found.record.make values = v := by
  simp [taggedIn, Option.bind_eq_some_iff]

end

/-! ### Shapes

The recursion is on the number of containers that may be nested, for shapes refer to each other
by name and a record may hold itself. -/

/-- A value that nobody needs has to be a tree if it has been read as one. -/
def passesIn (m : Manner) (depth : Nat) (c : Content) : Bool :=
  !m.buffered || (c.tree? depth).isSome

/-- A list. -/
def listIn (element : Content → Option α) : Content → Option (List α)
  | .array elements => elements.mapM element
  | _ => none

/-- What the members of an object are read as. -/
def objectIn (members : List (Option String × Content) → Option α) : Content → Option α
  | .object entries => members entries
  | _ => none

/-- A value of a shape, in which so many containers may be nested. -/
def read : (depth : Nat) → Manner → (shape : Shape) → Content → Option shape.Value
  | _, _, .text => textIn
  | _, _, .identifier kind => fun c => textIn c >>= Identifier.ofString? kind
  | _, _, .natural => naturalIn
  | _, _, .instant => fun c => textIn c >>= fun s => (Instant.ofString s).toOption
  | depth, m, .choice kind => choiceIn m kind.names depth
  | 0, _, .list _ => fun _ => none
  | 0, _, .dictionary _ _ => fun _ => none
  | 0, _, .record _ => fun _ => none
  | 0, _, .tagged _ => fun _ => none
  | depth + 1, m, .list element => listIn (read depth m element)
  | depth + 1, m, .dictionary kind value => objectIn (dictionaryIn m kind (read depth m value))
  | depth + 1, m, .record kind =>
      recordIn (passesIn m depth)
        (fun member => slotIn (fun shape => read depth m shape) member.slot) kind.record
  | depth + 1, m, .tagged kind =>
      taggedIn (variantIn m kind) kind.tag (passesIn m.afterwards depth)
        (fun member => slotIn (fun shape => read depth m.afterwards shape) member.slot)

section

variable (depth : Nat) (m : Manner)

@[simp] theorem read_text : read depth m .text = textIn := by cases depth <;> rfl

@[simp] theorem read_identifier (kind : IdKind) :
    read depth m (.identifier kind) = fun c => textIn c >>= Identifier.ofString? kind := by
  cases depth <;> rfl

@[simp] theorem read_natural : read depth m .natural = naturalIn := by cases depth <;> rfl

@[simp] theorem read_instant : read depth m .instant =
    fun c => textIn c >>= fun s => (Instant.ofString s).toOption := by
  cases depth <;> rfl

@[simp] theorem read_choice (kind : ChoiceKind) :
    read depth m (.choice kind) = choiceIn m kind.names depth := by
  cases depth <;> rfl

end

/-! ### The catalog -/

/-- A variant that is read is one of the catalog. -/
theorem mem_variants_of_variantIn {m : Manner} {kind : TaggedKind} {c : Content}
    {variant : Variant kind.Value} (h : variantIn m kind c = some variant) :
    variant ∈ kind.variants := by
  unfold variantIn at h
  split at h
  · obtain ⟨entry, hentry, rfl⟩ := Option.map_eq_some_iff.mp h
    obtain ⟨variant, hvariant, rfl⟩ := List.mem_map.mp (List.mem_of_find?_eq_some hentry)
    exact hvariant
  · split at h
    · exact List.mem_of_getElem? h
    · cases h
  · cases h

/-- The name of a variant stands for it. -/
theorem named_variant (kind : TaggedKind) {variant : Variant kind.Value}
    (h : variant ∈ kind.variants) : named kind.names variant.name = some variant := by
  cases kind with
  | timeRange =>
      simp only [TaggedKind.variants, List.mem_cons, List.not_mem_nil, or_false] at h
      rcases h with rfl | rfl | rfl <;> rfl
  | request =>
      simp only [TaggedKind.variants, List.mem_cons, List.not_mem_nil, or_false] at h
      rcases h with rfl | rfl <;> rfl

/-- No record declares two members of one name. -/
theorem names_nodup (kind : RecordKind) : (kind.record.members.map Member.name).Nodup := by
  cases kind <;> decide

/-- No variant declares two members of one name, or one with the name of the tag. -/
theorem variantNames_nodup (kind : TaggedKind) {variant : Variant kind.Value}
    (h : variant ∈ kind.variants) :
    (kind.tag :: variant.record.members.map Member.name).Nodup := by
  have hall : ∀ variant ∈ kind.variants,
      (kind.tag :: variant.record.members.map Member.name).Nodup := by
    cases kind <;> decide
  exact hall variant h

/-! ### Members in any order -/

/-- A fold whose steps go into one of two parts of a state is a fold for each part. -/
theorem foldlM_split {σ τ ρ ε : Type} (mk : σ → τ → ρ) {step : ρ → ε → Option ρ}
    {p : ε → Bool} {f : σ → ε → Option σ} {g : τ → ε → Option τ}
    (hstep : ∀ s t e, step (mk s t) e =
      if p e then (f s e).map fun s => mk s t else (g t e).map fun t => mk s t)
    (es : List ε) (s : σ) (t : τ) :
    es.foldlM step (mk s t) =
      ((es.filter p).foldlM f s).bind fun s =>
        ((es.filter fun e => !p e).foldlM g t).map fun t => mk s t := by
  induction es generalizing s t with
  | nil => rfl
  | cons e es ih =>
      rw [List.foldlM_cons, hstep]
      cases hp : p e with
      | true =>
          rw [List.filter_cons_of_pos hp, List.filter_cons_of_neg (by simp [hp]), List.foldlM_cons]
          cases hf : f s e with
          | none => simp
          | some s => simp [ih]
      | false =>
          rw [List.filter_cons_of_neg (by simp [hp]), List.filter_cons_of_pos (by simp [hp]),
            List.foldlM_cons]
          cases hg : g t e with
          | none => simp
          | some t => simp [ih]

/-- Put a member into its slot. -/
def putIn (passes : Content → Bool) (value : (m : Member) → Content → Option m.Value)
    (name : String) (c : Content) : (ms : List Member) → Slots ms → Option (Slots ms)
  | [], () => if passes c then some () else none
  | m :: ms, (slot, slots) =>
      if m.name = name then
        if slot.isSome then none else (value m c).map fun value => (some value, slots)
      else (putIn passes value name c ms slots).map fun slots => (slot, slots)

/-- Placing a value succeeds as putting it does, if its parts do. -/
theorem toOption_place {ε τ : Type} (passes : Content → Bool)
    (value : (m : Member) → Content → Option m.Value) (name : String) (c : Content)
    {duplicate : ε} {known : (m : Member) → Except ε (m.Value × τ)} {unknown : Except ε τ} {t : τ}
    (hknown : ∀ m, (known m).toOption = (value m c).map fun value => (value, t))
    (hunknown : unknown.toOption = if passes c then some t else none)
    (ms : List Member) (slots : Slots ms) :
    (Slots.place name duplicate known unknown ms slots).toOption =
      (putIn passes value name c ms slots).map fun slots => (slots, t) := by
  induction ms with
  | nil =>
      simp only [Slots.place, putIn, toOption_bind, hunknown]
      split <;> rfl
  | cons m ms ih =>
      obtain ⟨slot, slots⟩ := slots
      simp only [Slots.place, putIn]
      split
      · split
        · rfl
        · rw [toOption_bind, hknown]
          cases value m c <;> rfl
      · rw [toOption_bind, ih]
        cases putIn passes value name c ms slots <;> rfl

/-- Put a member into its slot, if its name has a value. -/
def putMember (passes : Content → Bool) (value : (m : Member) → Content → Option m.Value)
    (ms : List Member) (slots : Slots ms) (member : Option String × Content) :
    Option (Slots ms) :=
  member.1.bind fun name => putIn passes value name member.2 ms slots

/-- Put a member into a slot of its own. -/
def putOwn (value : Content → Option α) (slot : Option α) (member : Option String × Content) :
    Option (Option α) :=
  if slot.isSome then none else (value member.2).map some

/-- A member goes into the first slot or into one of the others. -/
theorem putMember_cons (passes : Content → Bool)
    (value : (m : Member) → Content → Option m.Value) (m : Member) (ms : List Member)
    (slots : Slots (m :: ms)) (member : Option String × Content) :
    putMember passes value (m :: ms) slots member =
      if member.1 == some m.name then
        (putOwn (value m) slots.1 member).map fun slot => (slot, slots.2)
      else (putMember passes value ms slots.2 member).map fun others => (slots.1, others) := by
  obtain ⟨name, c⟩ := member
  obtain ⟨slot, slots⟩ := slots
  cases name with
  | none => simp [putMember]
  | some name =>
      by_cases hname : m.name = name
      · cases slot <;> simp [putMember, putIn, putOwn, hname, Function.comp_def]
      · have hname' : name ≠ m.name := fun h => hname h.symm
        simp [putMember, putIn, hname, hname']

/-- What the members with one name put into its slot. -/
theorem foldlM_putOwn (value : Content → Option α) (absent : Option α)
    (members : List (Option String × Content)) :
    (members.foldlM (putOwn value) none).bind (fun slot => slot.or absent) =
      onlyIn value absent members := by
  match members with
  | [] => rfl
  | [member] =>
      rw [List.foldlM_cons]
      cases hvalue : value member.2 <;> simp [onlyIn, putOwn, hvalue]
  | member :: other :: more =>
      rw [List.foldlM_cons]
      cases hvalue : value member.2 <;> simp [onlyIn, putOwn, hvalue]

/-- Members that no record has are let pass. -/
theorem foldlM_putMember_nil (passes : Content → Bool)
    (value : (m : Member) → Content → Option m.Value)
    (members : List (Option String × Content)) :
    members.foldlM (putMember passes value []) () = membersIn passes value [] members := by
  induction members with
  | nil => rfl
  | cons member members ih =>
      obtain ⟨name, c⟩ := member
      cases name with
      | none => simp [membersIn, putMember]
      | some name =>
          cases hpasses : passes c with
          | false => simp [membersIn, putMember, putIn, hpasses]
          | true =>
              rw [List.foldlM_cons]
              simp only [putMember, putIn, hpasses, Option.bind_some, if_true, bind]
              rw [ih, membersIn, membersIn, List.all_cons, hpasses]
              rfl

/-- Putting every member of an object into its slot finds what is found by looking for
each member of the record. -/
theorem foldlM_putMember (passes : Content → Bool)
    (value : (m : Member) → Content → Option m.Value) (ms : List Member)
    (members : List (Option String × Content)) :
    (members.foldlM (putMember passes value ms) (.empty ms)).bind
        (fun slots => (Slots.fill ms slots).toOption) =
      membersIn passes value ms members := by
  induction ms generalizing members with
  | nil =>
      rw [Slots.empty, foldlM_putMember_nil]
      exact Option.bind_fun_some _
  | cons m ms ih =>
      have hsplit : members.foldlM (putMember passes value (m :: ms)) (.empty (m :: ms)) =
          ((withName m.name members).foldlM (putOwn (value m)) none).bind fun slot =>
            ((withoutName m.name members).foldlM (putMember passes value ms) (.empty ms)).map
              fun slots => (slot, slots) := by
        exact foldlM_split Prod.mk
          (fun slot slots => putMember_cons passes value m ms (slot, slots)) members _ _
      rw [hsplit, membersIn, ← foldlM_putOwn, ← ih]
      cases (withName m.name members).foldlM (putOwn (value m)) none with
      | none => rfl
      | some slot =>
          cases (withoutName m.name members).foldlM (putMember passes value ms) (.empty ms) with
          | none => cases hslot : slot.or m.absence.inObject? <;> simp [hslot]
          | some slots =>
              cases hslot : slot.or m.absence.inObject? with
              | none => simp [Slots.fill, hslot]
              | some own =>
                  cases hfill : Slots.fill ms slots <;> simp [Slots.fill, hslot, hfill]

end MessageExport.Wire
