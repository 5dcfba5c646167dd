import MessageExport.Proofs.Json.Contents
import MessageExport.Proofs.Wire.Reading
/-!
# MessageExport.Proofs.Wire.Buffering

Decoding a tree is **reading** what the tree says, in the buffered manner
(`toOption_ofTree`). Decoders tell why they fail and `read` does not, so all that is said of a
decoder is said of its result as an option.

Conversely, all that is read in the buffered manner has been read as a tree before
(`isSome_tree?_of_read`), with no more containers inside each other than there is room for.

## Shape of the proofs

Both go by induction on the room for containers. What is read of a container depends on what is
read of the things in it, with room for one container less, so each kind of container has a
lemma about an arbitrary reader of these things. In the first direction the assumption on that
reader is `DecodesAs`; in the second it is that what it reads is a tree.

Records are where the two sides look least alike. The decoder goes through the members once and
fills slots, and `read` asks for each slot which members have its name; `foldlM_putMember` has
the two agree, and here it only has to be fed with what happens to one member.
-/

namespace MessageExport.Wire

open Json (Content Tree isSome_tree?_array isSome_tree?_object)

variable {α β : Type}

/-- The manner of the decoder that starts from a tree. -/
abbrev Manner.buffer : Manner := Manner.streamed.afterwards

/-! ### Scalars

A scalar is decoded by looking at the constructor of the tree, which is what `read` does with
the content. So most of these are true by cases. -/

/-- What is of the wrong kind is not converted. -/
@[simp] theorem toOption_unexpected (tree : Tree) (expected : String) :
    (unexpected tree expected : Except Cause α).toOption = none := rfl

/-- A text is converted from a string. -/
@[simp] theorem toOption_asText (tree : Tree) : (asText tree).toOption = textIn tree.content := by
  cases tree <;> rfl

/-- An empty identifier is refused by both. -/
@[simp] theorem toOption_asIdentifier (kind : IdKind) (raw : String) :
    (asIdentifier kind raw).toOption = Identifier.ofString? kind raw := by
  unfold asIdentifier
  split <;> simp_all

/-- Only a number without a sign, a fraction or an exponent will do. -/
@[simp] theorem toOption_asNatural (tree : Tree) :
    (asNatural tree).toOption = naturalIn tree.content := by
  cases tree with
  | number n => cases n <;> rfl
  | null | boolean | text | array | object => rfl

/-- An instant is converted from a string that is a timestamp. -/
@[simp] theorem toOption_asInstant (tree : Tree) : (asInstant tree).toOption =
    textIn tree.content >>= fun s => (Instant.ofString s).toOption := by
  cases tree with
  | text s => simp [asInstant, Tree.content, textIn]
  | null | boolean | number | array | object => rfl

/-- A name is converted to what it stands for. -/
@[simp] theorem toOption_ofName (names : List (String × α)) (name : String) :
    (ofName names name).toOption = named names name := by
  unfold ofName named
  cases names.find? fun entry => entry.1 == name <;> rfl

/-- A tag is a name, or the number of a variant. -/
@[simp] theorem toOption_variantOf (kind : TaggedKind) (tree : Tree) :
    (variantOf kind tree).toOption = variantIn .buffer kind tree.content := by
  cases tree with
  | text name => exact toOption_ofName _ _
  | number n =>
      cases n with
      | natural n =>
          simp only [variantOf, Tree.content, variantIn, Manner.afterwards, if_true]
          cases kind.variants[n.toNat]? <;> rfl
      | negative | real => rfl
  | null | boolean | array | object => rfl

/-- A choice that is written as an object is a name and nothing else. -/
theorem toOption_asChoice_object {member : String × Tree} {depth : Nat}
    (h : (Tree.object [member]).depth ≤ depth) (expected : String) (names : List (String × α)) :
    (asChoice expected names (.object [member])).toOption =
      choiceIn .buffer names depth (Tree.object [member]).content := by
  obtain ⟨name, content⟩ := member
  simp only [Tree.depth, Tree.membersDepth] at h
  have hdepth : 1 ≤ depth := by omega
  cases content with
  | null =>
      simp only [asChoice, toOption_bind, toOption_ofName, asNothing, Tree.content,
        Tree.memberContents, choiceIn, if_pos hdepth]
      cases named names name <;> rfl
  | object members =>
      cases members with
      | nil =>
          have hdepth' : 2 ≤ depth := by
            simp only [Tree.depth] at h
            omega
          simp only [asChoice, toOption_bind, toOption_ofName, Tree.content, Tree.memberContents,
            choiceIn, Manner.afterwards, hdepth', and_self, if_true]
          cases named names name <;> rfl
      | cons =>
          simp only [asChoice, asNothing, toOption_bind, toOption_unexpected, Tree.content,
            Tree.memberContents, choiceIn]
          cases ofName names name <;> rfl
  | boolean | number | text | array =>
      simp only [asChoice, asNothing, toOption_bind, toOption_unexpected, Tree.content,
        Tree.memberContents, choiceIn]
      cases ofName names name <;> rfl

/-- A choice is found in a tree that is not nested too deeply. -/
theorem toOption_asChoice {tree : Tree} {depth : Nat} (h : tree.depth ≤ depth)
    (expected : String) (names : List (String × α)) :
    (asChoice expected names tree).toOption = choiceIn .buffer names depth tree.content := by
  cases tree with
  | null | boolean | number | array => rfl
  | text name => exact toOption_ofName names name
  | object members =>
      cases members with
      | nil => rfl
      | cons member more =>
          cases more with
          | nil => exact toOption_asChoice_object h expected names
          | cons => simp [asChoice, Tree.content, Tree.memberContents, choiceIn]

/-! ### Containers

Trees of containers are converted element by element and member by member. The content of such a
tree has the contents of these in the same order, so the two lists are compared side by side. -/

variable {inner : (shape : Shape) → Content → Option shape.Value} {depth : Nat}

/-- The trees that are not nested too deeply are decoded as they are read. -/
def DecodesAs (inner : (shape : Shape) → Content → Option shape.Value) (depth : Nat) : Prop :=
  ∀ (shape : Shape) (tree : Tree), tree.depth ≤ depth →
    (ofTree shape tree).toOption = inner shape tree.content

/-- A slot for nothing or something is decided by whether the tree is `null`. -/
theorem toOption_inSlot (hinner : DecodesAs inner depth) {tree : Tree} (h : tree.depth ≤ depth)
    (slot : Slot) :
    (inSlot tree (fun shape => ofTree shape tree) slot).toOption =
      slotIn inner slot tree.content := by
  cases slot with
  | plain shape => exact hinner shape tree h
  | nullable shape =>
      cases tree with
      | null => rfl
      | boolean | number | text | array | object =>
          simp only [inSlot, toOption_map, hinner shape _ h, Tree.content, slotIn]

/-- The first element that is refused ends both. -/
theorem toOption_ofTrees (hinner : DecodesAs inner depth) (element : Shape) {trees : List Tree}
    (h : ∀ tree ∈ trees, tree.depth ≤ depth) :
    (ofTrees element trees).toOption = (Tree.contents trees).mapM (inner element) := by
  induction trees with
  | nil => rfl
  | cons tree trees ih =>
      obtain ⟨htree, htrees⟩ := List.forall_mem_cons.mp h
      simp only [ofTrees, toOption_bind, hinner element tree htree, ih htrees, Tree.contents,
        List.mapM_cons, toOption_ok]
      rfl

/-- The decoder of a dictionary puts the entries into it as they come, and `read` after all of
them have been read. The entries that were gathered before are in the way of neither. -/
theorem toOption_ofEntries (hinner : DecodesAs inner depth) (kind : IdKind) (value : Shape)
    {entries : List (String × Tree)} (h : ∀ entry ∈ entries, entry.2.depth ≤ depth)
    (gathered : IdMap kind value.Value) :
    (ofEntries kind value entries gathered).toOption =
      ((Tree.memberContents entries).mapM (entryIn kind (inner value))).map
        gathered.insertAll := by
  induction entries generalizing gathered with
  | nil => rfl
  | cons entry entries ih =>
      obtain ⟨hentry, hentries⟩ := List.forall_mem_cons.mp h
      obtain ⟨name, tree⟩ := entry
      simp only [ofEntries, toOption_bind, toOption_asIdentifier, hinner value tree hentry,
        ih hentries, Tree.memberContents, List.mapM_cons]
      cases hkey : Identifier.ofString? kind name with
      | none => simp [entryIn, hkey]
      | some key =>
          cases hvalue : inner value tree.content with
          | none => simp [entryIn, hkey, hvalue]
          | some value =>
              simp [entryIn, hkey, hvalue, Function.comp_def]
              cases List.mapM (entryIn kind _) (Tree.memberContents entries) <;> rfl

/-- How the record is called does not matter for what is missing. -/
theorem toOption_pastEnd (label : String) (count : Nat) (ms : List Member) :
    (Values.pastEnd label count ms).toOption = (Values.pastEnd "" 0 ms).toOption := by
  induction ms with
  | nil => rfl
  | cons m ms ih =>
      simp only [Values.pastEnd]
      cases m.absence.inArray? with
      | none => rfl
      | some value => simp only [toOption_bind, ih, toOption_ok]

/-- The elements of a record that is written as an array belong to its members in order. What is
left over on one side decides: more elements are refused, and more members may be absent. -/
theorem toOption_ofElements (hinner : DecodesAs inner depth) (label : String) (count : Nat)
    (ms : List Member) {trees : List Tree} (h : ∀ tree ∈ trees, tree.depth ≤ depth) :
    (ofElements label count ms trees).toOption =
      elementsIn (fun m => slotIn inner m.slot) ms (Tree.contents trees) := by
  induction trees generalizing ms with
  | nil =>
      rw [ofElements, Tree.contents, elementsIn]
      exact toOption_pastEnd label count ms
  | cons tree trees ih =>
      obtain ⟨htree, htrees⟩ := List.forall_mem_cons.mp h
      cases ms with
      | nil => rfl
      | cons m ms =>
          simp only [ofElements, toOption_bind, toOption_inSlot hinner htree, ih ms htrees,
            Tree.contents, elementsIn, toOption_ok]
          rfl

/-- One member after the other finds its slot, or is passed over if it is not declared. What is
passed over must have been a tree already, which is what `passes` says of it. -/
theorem toOption_ofMembers (hinner : DecodesAs inner depth) (passes : Content → Bool)
    (ms : List Member) {entries : List (String × Tree)}
    (h : ∀ entry ∈ entries, entry.2.depth ≤ depth)
    (hpasses : ∀ entry ∈ entries, passes entry.2.content = true) (slots : Slots ms) :
    (ofMembers none ms slots entries).toOption =
      (Tree.memberContents entries).foldlM
        (putMember passes (fun m => slotIn inner m.slot) ms) slots := by
  induction entries generalizing slots with
  | nil => rfl
  | cons entry entries ih =>
      obtain ⟨hentry, hentries⟩ := List.forall_mem_cons.mp h
      obtain ⟨hentry', hentries'⟩ := List.forall_mem_cons.mp hpasses
      obtain ⟨name, tree⟩ := entry
      -- the two things that can become of a member: it is declared, or it is not
      have hknown (m : Member) : (do
          let value ← inSlot tree (fun shape => ofTree shape tree) m.slot
          .ok (value, ()) : Except Cause (m.Value × Unit)).toOption =
            (slotIn inner m.slot tree.content).map fun value => (value, ()) := by
        rw [toOption_bind, toOption_inSlot hinner hentry]
        cases slotIn inner m.slot tree.content <;> rfl
      have hunknown : (Except.ok () : Except Cause Unit).toOption =
          if passes tree.content then some () else none := by
        rw [if_pos hentry']
        rfl
      have hput : putMember passes (fun m => slotIn inner m.slot) ms slots
          (some name, tree.content) =
            putIn passes (fun m => slotIn inner m.slot) name tree.content ms slots := rfl
      rw [ofMembers, if_neg nofun, toOption_bind, toOption_place passes
        (fun m => slotIn inner m.slot) name tree.content hknown hunknown, Tree.memberContents,
        List.foldlM_cons, hput]
      cases putIn passes (fun m => slotIn inner m.slot) name tree.content ms slots with
      | none => rfl
      | some slots => exact ih hentries hentries' slots

/-- The tag is left out. -/
theorem ofMembers_tag (tag : String) (ms : List Member) (slots : Slots ms)
    (entries : List (String × Tree)) :
    ofMembers (some tag) ms slots entries =
      ofMembers none ms slots (entries.filter fun entry => entry.1 != tag) := by
  induction entries generalizing slots with
  | nil => rfl
  | cons entry entries ih =>
      obtain ⟨name, tree⟩ := entry
      by_cases hname : name = tag
      · rw [List.filter_cons_of_neg (by simp [hname]), ofMembers, if_pos (by rw [hname]), ih]
      · have htag : some tag ≠ some name := fun h => hname (Option.some.inj h).symm
        rw [List.filter_cons_of_pos (by simp [hname]), ofMembers, if_neg htag, ofMembers,
          if_neg nofun]
        simp only [ih]

/-- The members of one name are the same before and after the content is taken. -/
theorem withName_memberContents (name : String) (entries : List (String × Tree)) :
    withName name (Tree.memberContents entries) =
      Tree.memberContents (entries.filter fun entry => entry.1 == name) := by
  rw [withName, Tree.memberContents_eq_map, Tree.memberContents_eq_map, List.filter_map]
  rfl

/-- Taking the members of a name out of a tree takes them out of its content. -/
theorem withoutName_memberContents (name : String) (entries : List (String × Tree)) :
    withoutName name (Tree.memberContents entries) =
      Tree.memberContents (entries.filter fun entry => entry.1 != name) := by
  rw [withoutName, Tree.memberContents_eq_map, Tree.memberContents_eq_map, List.filter_map]
  rfl

/-- The variant is found among the members that have the name of the tag. -/
theorem toOption_variantAmong (kind : TaggedKind) (entries : List (String × Tree))
    (found : Option (Variant kind.Value)) :
    (variantAmong kind found entries).toOption =
      ((withName kind.tag (Tree.memberContents entries)).foldlM
        (putOwn (variantIn .buffer kind)) found).bind fun slot => slot.or none := by
  induction entries generalizing found with
  | nil => cases found <;> rfl
  | cons entry entries ih =>
      obtain ⟨name, tree⟩ := entry
      rw [withName_memberContents] at ih ⊢
      by_cases hname : name = kind.tag
      · rw [List.filter_cons_of_pos (by simp [hname]), Tree.memberContents, List.foldlM_cons,
          variantAmong.eq_def]
        cases found with
        | some variant => simp [hname, putOwn]
        | none =>
            simp only [hname, if_true, Option.isSome_none, Bool.false_eq_true, if_false,
              toOption_bind, toOption_variantOf, putOwn, ih]
            cases variantIn .buffer kind tree.content <;> rfl
      · rw [List.filter_cons_of_neg (by simp [hname]), ← ih found, variantAmong.eq_def]
        cases found <;> simp only [hname, if_false]

/-! ### Shapes

Each kind of container is decoded as it is read, if what is in it is. The depth bounds what is
in it, which is why there is one more to go here. -/

/-- A value that has been read as a tree is let pass. -/
theorem passesIn_content {tree : Tree} (h : tree.depth ≤ depth) (m : Manner) :
    passesIn m depth tree.content = true := by
  simp [passesIn, Json.tree?_content h]

/-- The members of an object are gathered and then laid into the record, and what is missing is
looked for at the end. -/
theorem toOption_record_object (hinner : DecodesAs inner depth) (m : Manner) {α : Type}
    (r : Record α) {entries : List (String × Tree)}
    (h : ∀ entry ∈ entries, entry.2.depth ≤ depth) :
    (ofMembers none r.members (.empty _) entries >>= Slots.fill r.members).toOption =
      membersIn (passesIn m depth) (fun member => slotIn inner member.slot) r.members
        (Tree.memberContents entries) := by
  rw [toOption_bind, toOption_ofMembers hinner (passesIn m depth) r.members h
    (fun entry hentry => passesIn_content (h entry hentry) m), foldlM_putMember]

/-- Anything but an array is refused by both. -/
theorem toOption_ofTree_list (hinner : DecodesAs inner depth) (element : Shape) {tree : Tree}
    (h : tree.depth ≤ depth + 1) :
    (ofTree (.list element) tree).toOption = listIn (inner element) tree.content := by
  cases tree with
  | null | boolean | number | text | object => rfl
  | array trees =>
      exact toOption_ofTrees hinner element (Tree.depth_array_le.mp h)

/-- Anything but an object is refused by both. -/
theorem toOption_ofTree_dictionary (hinner : DecodesAs inner depth) (kind : IdKind)
    (value : Shape) {tree : Tree} (h : tree.depth ≤ depth + 1) :
    (ofTree (.dictionary kind value) tree).toOption =
      objectIn (dictionaryIn .buffer kind (inner value)) tree.content := by
  cases tree with
  | null | boolean | number | text | array => rfl
  | object entries =>
      have hentries := toOption_ofEntries hinner kind value
        (Tree.depth_object_le.mp h) .empty
      rw [ofTree, hentries]
      simp only [Tree.content, objectIn, dictionaryIn]
      cases List.mapM (entryIn kind _) (Tree.memberContents entries) <;> rfl

/-- A record is written as an object of its members, or as an array of their values in order. -/
theorem toOption_ofTree_record (hinner : DecodesAs inner depth) (kind : RecordKind)
    {tree : Tree} (h : tree.depth ≤ depth + 1) :
    (ofTree (.record kind) tree).toOption =
      recordIn (passesIn .buffer depth) (fun member => slotIn inner member.slot) kind.record
        tree.content := by
  cases tree with
  | null | boolean | number | text => rfl
  | array trees =>
      have helements := toOption_ofElements hinner kind.record.arrayLabel
        kind.record.members.length kind.record.members
        (Tree.depth_array_le.mp h)
      simp only [ofTree, toOption_bind, helements, toOption_ok]
      exact (Option.map_eq_bind).symm
  | object entries =>
      have hmembers := toOption_record_object hinner .buffer kind.record
        (Tree.depth_object_le.mp h)
      simp only [ofTree, toOption_bind, toOption_ok] at hmembers ⊢
      rw [Tree.content, recordIn, ← hmembers, Option.map_bind]
      exact congrArg _ (funext fun slots => Option.map_eq_bind.symm)

/-- The tag has been looked for in all members before the others are decoded. -/
theorem toOption_ofTree_tagged (hinner : DecodesAs inner depth) (kind : TaggedKind)
    {tree : Tree} (h : tree.depth ≤ depth + 1) :
    (ofTree (.tagged kind) tree).toOption =
      taggedIn (variantIn .buffer kind) kind.tag (passesIn .buffer depth)
        (fun member => slotIn inner member.slot) tree.content := by
  cases tree with
  | null | boolean | number | text => rfl
  | array trees =>
      cases trees with
      | nil => rfl
      | cons tag trees =>
          have hdepth := (List.forall_mem_cons.mp
            (Tree.depth_array_le.mp h)).2
          simp only [ofTree, toOption_bind, toOption_variantOf,
            toOption_ofElements hinner _ _ _ hdepth, toOption_ok]
          rfl
  | object entries =>
      have hdepth := Tree.depth_object_le.mp h
      -- the other members, whose depth is that of the whole object less one
      have hothers : ∀ entry ∈ entries.filter fun entry => entry.1 != kind.tag,
          entry.2.depth ≤ depth :=
        fun entry hentry => hdepth entry (List.mem_filter.mp hentry).1
      have hmembers (r : Record kind.Value) := toOption_record_object hinner .buffer r hothers
      rw [ofTree]
      simp only [toOption_bind, toOption_variantAmong, ofMembers_tag, toOption_ok] at hmembers ⊢
      rw [Tree.content, taggedIn, ← foldlM_putOwn, withoutName_memberContents]
      refine congrArg (Option.bind _) (funext fun variant => ?_)
      rw [← Option.bind_assoc, hmembers variant.record]
      rfl

/-- A tree is decoded as what it says is read in the buffered manner. -/
theorem toOption_ofTree (depth : Nat) : DecodesAs (read depth .buffer) depth := by
  induction depth with
  | zero =>
      intro shape tree h
      cases shape with
      | text | natural | instant | identifier => simp [ofTree]
      | choice => simp only [ofTree, read, toOption_asChoice h]
      | list | dictionary | record | tagged =>
          -- there is no room for a container, and so none in the tree
          cases tree with
          | array | object => simp [Tree.depth] at h
          | null | boolean | number | text => rfl
  | succ depth ih =>
      intro shape tree h
      cases shape with
      | text | natural | instant | identifier => simp [ofTree]
      | choice => simp only [ofTree, read, toOption_asChoice h]
      | list element => exact toOption_ofTree_list ih element h
      | dictionary kind value => exact toOption_ofTree_dictionary ih kind value h
      | record kind => exact toOption_ofTree_record ih kind h
      | tagged kind => exact toOption_ofTree_tagged ih kind h

/-! ### Contents

A content need not be that of a tree: a text may hold a broken surrogate, and a number may be
too large. What has been read is free of these, and so is all of it. -/

/-- A name that may be there once at most leaves one member to look at, or none. -/
theorem passes_of_onlyIn (passes : Content → Bool) {value : Content → Option α}
    (hvalue : ∀ c v, value c = some v → passes c = true) {absent : Option α}
    {members : List (Option String × Content)} {v : α}
    (h : onlyIn value absent members = some v) :
    ∀ member ∈ members, passes member.2 = true := by
  match members with
  | [] => exact fun member hmember => absurd hmember List.not_mem_nil
  | [member] =>
      intro other hother
      rw [List.mem_singleton.mp hother]
      exact hvalue _ v h
  | _ :: _ :: _ => cases h

/-- A member has a name or has it not. -/
theorem mem_withName_or_withoutName (name : String) {member : Option String × Content}
    {members : List (Option String × Content)} (h : member ∈ members) :
    (member ∈ withName name members ∧ member.1 = some name) ∨
      member ∈ withoutName name members := by
  by_cases hname : member.1 = some name
  · exact .inl ⟨List.mem_filter.mpr ⟨h, by simp [hname]⟩, hname⟩
  · exact .inr (List.mem_filter.mpr ⟨h, by simp [hname]⟩)

/-- What has been read from members is let pass. -/
theorem passes_of_membersIn {passes : Content → Bool}
    {value : (m : Member) → Content → Option m.Value}
    (hvalue : ∀ m c v, value m c = some v → passes c = true) {ms : List Member}
    {members : List (Option String × Content)} {values : Values ms}
    (h : membersIn passes value ms members = some values) :
    ∀ member ∈ members, member.1.isSome = true ∧ passes member.2 = true := by
  induction ms generalizing members with
  | nil =>
      exact membersIn_nil.mp h
  | cons m ms ih =>
      intro member hmember
      obtain ⟨hown, hothers⟩ := membersIn_cons.mp h
      rcases mem_withName_or_withoutName m.name hmember with ⟨hmember, hname⟩ | hmember
      · exact ⟨by simp [hname], passes_of_onlyIn passes (hvalue m) hown member hmember⟩
      · exact ih hothers member hmember

/-- So do the elements of an array. -/
theorem passes_of_elementsIn {passes : Content → Bool}
    {value : (m : Member) → Content → Option m.Value}
    (hvalue : ∀ m c v, value m c = some v → passes c = true) {ms : List Member}
    {elements : List Content} {values : Values ms}
    (h : elementsIn value ms elements = some values) :
    ∀ c ∈ elements, passes c = true := by
  induction elements generalizing ms with
  | nil => exact fun c hc => absurd hc List.not_mem_nil
  | cons c cs ih =>
      cases ms with
      | nil => cases h
      | cons m ms =>
          obtain ⟨hown, hothers⟩ := elementsIn_cons.mp h
          exact List.forall_mem_cons.mpr ⟨hvalue m c _ hown, ih hothers⟩

/-- Scalars first: a content that is read as a text, a number, a choice or a tag is a tree of
its own, whatever the depth. -/
theorem isSome_tree?_of_textIn {c : Content} {s : String} (h : textIn c = some s) (depth : Nat) :
    (c.tree? depth).isSome = true := by
  cases c with
  | text value =>
      cases h
      rw [Content.tree?]
      rfl
  | null | boolean | number | array | object => cases h

/-- A number that is read is a tree. -/
theorem isSome_tree?_of_naturalIn {c : Content} {n : UInt64} (h : naturalIn c = some n)
    (depth : Nat) : (c.tree? depth).isSome = true := by
  unfold naturalIn at h
  split at h
  · rw [Content.tree?]
    rfl
  · cases h

/-- A choice that is written as an object needs room for one container, and for two if it holds
an empty object. -/
theorem isSome_tree?_of_choiceIn {m : Manner} {names : List (String × α)} {depth : Nat}
    {c : Content} {v : α} (h : choiceIn m names depth c = some v) :
    (c.tree? depth).isSome = true := by
  unfold choiceIn at h
  split at h
  · rw [Content.tree?]
    rfl
  · split at h
    · rename_i hdepth
      obtain ⟨depth, rfl⟩ := Nat.exists_eq_add_of_le' hdepth
      rw [isSome_tree?_object, List.forall_mem_singleton, Content.tree?]
      exact ⟨rfl, rfl⟩
    · cases h
  · split at h
    · rename_i hdepth
      obtain ⟨depth, rfl⟩ := Nat.exists_eq_add_of_le' hdepth.2
      simp [isSome_tree?_object]
    · cases h
  · cases h

/-- A tag that is read is a tree. -/
theorem isSome_tree?_of_variantIn {m : Manner} {kind : TaggedKind} {c : Content}
    {v : Variant kind.Value} (h : variantIn m kind c = some v) (depth : Nat) :
    (c.tree? depth).isSome = true := by
  unfold variantIn at h
  split at h
  · rw [Content.tree?]
    rfl
  · rw [Content.tree?]
    rfl
  · cases h

/-- For `null` there is a tree in any case. -/
theorem isSome_tree?_of_slotIn {inner : (shape : Shape) → Content → Option shape.Value}
    {depth : Nat} (hinner : ∀ shape c v, inner shape c = some v → (c.tree? depth).isSome = true)
    (slot : Slot) {c : Content} {v : slot.Value} (h : slotIn inner slot c = some v) :
    (c.tree? depth).isSome = true := by
  cases slot with
  | plain shape => exact hinner shape c v h
  | nullable shape =>
      cases c with
      | null => simp [Content.tree?]
      | boolean | number | text | array | object =>
          obtain ⟨x, hx, -⟩ := Option.map_eq_some_iff.mp h
          exact hinner shape _ x hx

/-- What is read from a slot is let pass. -/
theorem passesIn_of_slotIn {inner : (shape : Shape) → Content → Option shape.Value}
    {depth : Nat} (hinner : ∀ shape c v, inner shape c = some v → (c.tree? depth).isSome = true)
    (slot : Slot) {m : Manner} {c : Content} {v : slot.Value} (h : slotIn inner slot c = some v) :
    passesIn m depth c = true := by
  have htree := isSome_tree?_of_slotIn hinner slot h
  simp [passesIn, htree]

/-- With each element, the array is a tree. -/
theorem isSome_tree?_of_listIn {depth : Nat} {find : Content → Option α}
    (hfind : ∀ c v, find c = some v → (c.tree? depth).isSome = true) {c : Content} {v : List α}
    (h : listIn find c = some v) : (c.tree? (depth + 1)).isSome = true := by
  cases c with
  | null | boolean | number | text | object => cases h
  | array elements =>
      have hall := isSome_mapM.mp (Option.isSome_of_eq_some h)
      refine isSome_tree?_array.mpr fun c hc => ?_
      obtain ⟨v, hv⟩ := Option.isSome_iff_exists.mp (hall c hc)
      exact hfind c v hv

/-- With each value, the object is a tree; its names have been read as identifiers. -/
theorem isSome_tree?_of_dictionaryIn {depth : Nat} {m : Manner} {kind : IdKind}
    {find : Content → Option α}
    (hfind : ∀ c v, find c = some v → (c.tree? depth).isSome = true) {c : Content}
    {v : IdMap kind α} (h : objectIn (dictionaryIn m kind find) c = some v) :
    (c.tree? (depth + 1)).isSome = true := by
  cases c with
  | null | boolean | number | text | array => cases h
  | object members =>
      obtain ⟨entries, hentries, -⟩ := dictionaryIn_eq_some.mp h
      have hall := isSome_mapM.mp (Option.isSome_of_eq_some hentries)
      refine isSome_tree?_object.mpr fun member hmember => ?_
      obtain ⟨entry, hentry⟩ := Option.isSome_iff_exists.mp (hall member hmember)
      obtain ⟨name, hname, -, hv⟩ := entryIn_eq_some.mp hentry
      exact ⟨Option.isSome_of_eq_some hname, hfind _ _ hv⟩

section

variable {depth : Nat} {passes : Content → Bool}
variable {value : (m : Member) → Content → Option m.Value}

/-- Of a record, the members that it does not declare count as well: these have been let pass.
-/
theorem isSome_tree?_of_recordIn
    (hpasses : ∀ c, passes c = true → (c.tree? depth).isSome = true)
    (hvalue : ∀ m c v, value m c = some v → passes c = true) {r : Record α} {c : Content} {v : α}
    (h : recordIn passes value r c = some v) : (c.tree? (depth + 1)).isSome = true := by
  cases c with
  | null | boolean | number | text => cases h
  | array elements =>
      obtain ⟨values, hvalues, -⟩ := Option.map_eq_some_iff.mp h
      exact isSome_tree?_array.mpr fun c hc =>
        hpasses c (passes_of_elementsIn hvalue hvalues c hc)
  | object members =>
      obtain ⟨values, hvalues, -⟩ := Option.map_eq_some_iff.mp h
      exact isSome_tree?_object.mpr fun member hmember =>
        (passes_of_membersIn hvalue hvalues member hmember).imp_right (hpasses member.2)

/-- The member that holds the tag is not among those that are read into the record. -/
theorem isSome_tree?_of_taggedIn
    (hpasses : ∀ c, passes c = true → (c.tree? depth).isSome = true)
    (hvalue : ∀ m c v, value m c = some v → passes c = true) {m : Manner} {kind : TaggedKind}
    {c : Content} {v : kind.Value}
    (h : taggedIn (variantIn m kind) kind.tag passes value c = some v) :
    (c.tree? (depth + 1)).isSome = true := by
  cases c with
  | null | boolean | number | text => cases h
  | array elements =>
      cases elements with
      | nil => cases h
      | cons c cs =>
          obtain ⟨variant, values, hvariant, hvalues, -⟩ := taggedIn_array.mp h
          exact isSome_tree?_array.mpr (List.forall_mem_cons.mpr
            ⟨isSome_tree?_of_variantIn hvariant depth,
              fun c hc => hpasses c (passes_of_elementsIn hvalue hvalues c hc)⟩)
  | object members =>
      obtain ⟨variant, values, hvariant, hvalues, -⟩ := taggedIn_object.mp h
      refine isSome_tree?_object.mpr fun member hmember => ?_
      rcases mem_withName_or_withoutName kind.tag hmember with ⟨hmember, hname⟩ | hmember
      · refine ⟨by simp [hname], ?_⟩
        exact passes_of_onlyIn (fun c => (c.tree? depth).isSome)
          (fun c v h => isSome_tree?_of_variantIn h depth) hvariant member hmember
      · exact (passes_of_membersIn hvalue hvalues member hmember).imp_right (hpasses member.2)

end

/-- What is read in a buffered manner has been read as a tree. -/
theorem isSome_tree?_of_read {depth : Nat} {m : Manner} (hm : m.buffered = true) {shape : Shape}
    {c : Content} {v : shape.Value} (h : read depth m shape c = some v) :
    (c.tree? depth).isSome = true := by
  have hpasses (m : Manner) (hm : m.buffered = true) (depth : Nat) (c : Content)
      (h : passesIn m depth c = true) : (c.tree? depth).isSome = true := by
    simpa [passesIn, hm] using h
  induction depth using Nat.strongRecOn generalizing m shape c with
  | ind depth ih =>
      -- what is read from a slot with less room is let pass, by induction
      have hslot {inner : Nat} (hlt : inner < depth) (m : Manner) (hm : m.buffered = true)
          (member : Member) (c : Content) (v : member.Value)
          (h : slotIn (fun shape => read inner m shape) member.slot c = some v) :
          passesIn m inner c = true :=
        passesIn_of_slotIn (fun _ _ _ => ih inner hlt hm) member.slot h
      cases shape with
      | text =>
          rw [read_text] at h
          exact isSome_tree?_of_textIn h depth
      | identifier kind =>
          rw [read_identifier] at h
          obtain ⟨s, hs, -⟩ := Option.bind_eq_some_iff.mp h
          exact isSome_tree?_of_textIn hs depth
      | instant =>
          rw [read_instant] at h
          obtain ⟨s, hs, -⟩ := Option.bind_eq_some_iff.mp h
          exact isSome_tree?_of_textIn hs depth
      | natural =>
          rw [read_natural] at h
          exact isSome_tree?_of_naturalIn h depth
      | choice kind =>
          rw [read_choice] at h
          exact isSome_tree?_of_choiceIn h
      | list element =>
          cases depth with
          | zero => cases h
          | succ depth =>
              exact isSome_tree?_of_listIn (fun _ _ => ih depth (Nat.lt_succ_self depth) hm) h
      | dictionary kind value =>
          cases depth with
          | zero => cases h
          | succ depth =>
              exact isSome_tree?_of_dictionaryIn
                (fun _ _ => ih depth (Nat.lt_succ_self depth) hm) h
      | record kind =>
          cases depth with
          | zero => cases h
          | succ depth =>
              exact isSome_tree?_of_recordIn (hpasses m hm depth)
                (hslot (Nat.lt_succ_self depth) m hm) h
      | tagged kind =>
          cases depth with
          | zero => cases h
          | succ depth =>
              exact isSome_tree?_of_taggedIn (hpasses m.afterwards rfl depth)
                (hslot (Nat.lt_succ_self depth) m.afterwards rfl) h

/-- What is read from a slot in the buffered manner is let pass. -/
theorem passesIn_of_read (depth : Nat) (slot : Slot) {c : Content} {v : slot.Value}
    (h : slotIn (fun shape => read depth .buffer shape) slot c = some v) :
    passesIn .buffer depth c = true :=
  passesIn_of_slotIn (fun _ _ _ h => isSome_tree?_of_read rfl h) slot h

end MessageExport.Wire
