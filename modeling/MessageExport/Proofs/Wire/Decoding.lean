import MessageExport.Proofs.Json.Skipping
import MessageExport.Proofs.Wire.Streaming
/-!
# MessageExport.Proofs.Wire.Decoding

Decoding a text is **reading** its content, in the streamed manner.

A record is read from its members as they come, each into the slot of its name, while a
tagged record is taken in as a tree before its variant is known. From both, every shape is
read as its decoder reads it.

## Shape of the proofs

The texts that a decoder is run on are the texts of sources, with blanks before and something
behind, and `Reads` says that the decoder finds the value of the content there and leaves what
is behind. Loops over members and elements are dealt with once and for all by `members_source`
and `elements_source`: what remains is what becomes of one member or element.

A tagged record cannot be decoded as it comes, for the tag may stand behind the other members.
The decoder keeps these as trees, so that a tagged record is a matter of three steps: its
members are split into tags and others (`foldlM_split`), the others are taken in as trees, and
these are decoded as in `toOption_ofTree`. What is no tree cannot be read either, by
`isSome_tree?_of_read`, so nothing is lost on the way.
-/

namespace MessageExport.Wire

open Json (Content Tree Source Scalar Blank MemberName Reads Ends blanksText trim
  trim_blanksText_cons trim_blanksText_append trim_cons_of_not_isBlank colon_blanksText
  elements_source members_source isSome_tree?_array isSome_tree?_object)

variable {α : Type}

/-! ### Records

A record may be written as an object or as an array. How its values are read is a parameter, so
the lemmas serve for every depth. -/

section

variable {decoder : (shape : Shape) → Decoder shape.Value}
variable {inner : (shape : Shape) → Content → Option shape.Value}

/-- What stands in a slot is read if values are. -/
theorem slot_reads (hdecoder : ∀ shape s, Reads (decoder shape) (inner shape) s) (sl : Slot)
    (s : Source) : Reads (slot decoder sl) (slotIn inner sl) s := by
  cases sl with
  | plain shape => exact hdecoder shape s
  | nullable shape =>
      intro blanks rest hrest
      obtain ⟨c, more, hcore, -, -⟩ := s.exists_core_eq
      have hvalue := hdecoder shape s [] rest hrest
      have hnothing := nothing_reads s [] rest hrest
      have htrim := s.trim_core_append blanks rest
      simp only [Json.blanksText_nil, List.nil_append] at hvalue hnothing
      simp only [slot, htrim]
      split
      · -- only `null` begins with its letter
        rename_i heq
        have hnull : s.content = .null := by
          rw [hcore, List.cons_append] at heq
          obtain ⟨rfl, -⟩ := List.cons.inj heq
          exact Source.content_eq_null_of_core hcore
        rw [toOption_bind, ← heq, hnothing, hnull]
        rfl
      · rename_i hletter
        have hnull : s.content ≠ .null := fun h =>
          hletter _ (by rw [Source.core_of_content_eq_null h]; rfl)
        rw [toOption_bind, hvalue]
        cases hcontent : s.content with
        | null => exact absurd hcontent hnull
        | boolean | number | text | array | object =>
            simp only [slotIn]
            cases inner shape _ <;> rfl

/-- A member is read into its slot. -/
theorem member_reads {value : (m : Member) → Decoder m.Value}
    {found : (m : Member) → Content → Option m.Value} {s : Source}
    (hvalue : ∀ m, Reads (value m) (found m) s) (ms : List Member) (slots : Slots ms)
    (name : String) (colonBlanks blanks : List Blank) {rest : List Char} (hrest : Ends rest) :
    (member value ms slots name (blanksText colonBlanks ++ ':' ::
        (blanksText blanks ++ (s.core ++ rest)))).toOption =
      (putIn (fun _ => true) found name s.content ms slots).map fun slots => (slots, rest) := by
  -- a member that the record declares is read, and any other is passed over
  refine toOption_place (fun _ => true) found name s.content (fun m => ?_) ?_ ms slots
  · rw [toOption_bind, toOption_mapError, colon_blanksText]
    exact hvalue m blanks rest hrest
  · rw [toOption_bind, toOption_mapError, colon_blanksText, toOption_ok, Option.bind_some,
      toOption_mapError, Json.skip_core s blanks hrest]
    rfl

/-- The members of an object are read. -/
theorem toOption_objectMembers {value : (m : Member) → Decoder m.Value}
    {found : (m : Member) → Content → Option m.Value}
    (hvalue : ∀ m s, Reads (value m) (found m) s) (ms : List Member) (blanks : List Blank)
    (members : List (MemberName × Source)) (rest : List Char) :
    (objectMembers value ms
        (blanksText blanks ++ (Source.membersText true members ++ '}' :: rest))).toOption =
      (membersIn (fun _ => true) found ms (Source.memberContents members)).map
        fun values => (values, '}' :: rest) := by
  have hmembers := members_source Failure.ofJson (member value ms)
    (fun slots name c => putIn (fun _ => true) found name c ms slots) members
    (fun m _ slots name colonBlanks blanks rest hrest =>
      member_reads (fun member => hvalue member m.2) ms slots name colonBlanks blanks hrest)
    (.empty ms) blanks rest
  rw [objectMembers, toOption_bind, hmembers, ← foldlM_putMember]
  change ((List.foldlM (putMember (fun _ => true) found ms) _ _).map _).bind _ = _
  cases List.foldlM (putMember (fun _ => true) found ms) (.empty ms)
      (Source.memberContents members) with
  | none => rfl
  | some slots =>
      cases hfill : Slots.fill ms slots <;> simp [hfill]

/-- An array in which something is left has not ended. -/
theorem toOption_arrayEnd_listText (first : Bool) (blanks : List Blank) (e : Source)
    (es : List Source) (rest : List Char) :
    (arrayEnd (blanksText blanks ++ (Source.listText first (e :: es) ++ rest))).toOption =
      none := by
  -- whatever is found first is not the bracket
  have hnone {s : List Char} (c : Char) (more : List Char) (hc : c ≠ ']')
      (htrim : trim s = c :: more) : (arrayEnd s).toOption = none := by
    simp only [arrayEnd, htrim, hc, if_false]
    split
    · split <;> rfl
    · rfl
  obtain ⟨c, more, hcore, hblank, hbracket⟩ := e.exists_core_eq
  rw [Source.listText]
  cases first with
  | true =>
      have htrim (s : List Char) : trim (blanksText blanks ++
          (blanksText e.around.before ++ (e.core ++ s))) = c :: (more ++ s) := by
        rw [trim_blanksText_append, e.trim_core_append, hcore, List.cons_append]
      simp only [if_true, List.nil_append, List.append_assoc]
      exact hnone c _ hbracket (htrim _)
  | false =>
      simp only [Bool.false_eq_true, if_false, List.append_assoc, List.cons_append,
        List.nil_append]
      exact hnone ',' _ (by decide) (trim_blanksText_cons (by decide) _ _)

/-- The elements of an array are read. -/
theorem toOption_arrayMembers {value : (m : Member) → Decoder m.Value}
    {found : (m : Member) → Content → Option m.Value}
    (hvalue : ∀ m s, Reads (value m) (found m) s) (label : String) (count : Nat) (first : Bool)
    (ms : List Member) (blanks : List Blank) (elements : List Source) (rest : List Char) :
    (arrayMembers value label count first ms
        (blanksText blanks ++ (Source.listText first elements ++ ']' :: rest))).toOption =
      (elementsIn found ms (Source.contents elements)).map fun values => (values, ']' :: rest) := by
  induction ms generalizing first blanks elements with
  | nil =>
      rw [arrayMembers, toOption_bind]
      cases elements with
      | nil =>
          rw [Source.listText, List.nil_append, arrayEnd, trim_blanksText_cons (by decide)]
          rfl
      | cons e es =>
          rw [toOption_arrayEnd_listText]
          rfl
  | cons m ms ih =>
      cases elements with
      | nil =>
          -- the array is over, and the other members have to do without
          have hpast := toOption_pastEnd label count (m :: ms)
          rw [arrayMembers, Source.listText, List.nil_append, Json.nextElement_end,
            Source.contents, elementsIn, ← hpast]
          simp only [trim_blanksText_cons (c := ']') (by decide)]
          cases Values.pastEnd label count (m :: ms) <;> rfl
      | cons e es =>
          have he := hvalue m e [] _ (Json.ends_blanksText_append e.around.after
            (Json.ends_listText es rest))
          rw [arrayMembers, Json.nextElement_listText]
          simp only [Json.blanksText_nil, List.nil_append] at he
          simp only [toOption_bind, he, Source.contents, elementsIn]
          cases found m e.content with
          | none => rfl
          | some own =>
              have hes := ih false e.around.after es
              simp only [Option.map_some, Option.bind_some, hes]
              cases elementsIn found ms (Source.contents es) <;> rfl

/-- A record is read if its members are. -/
theorem record_reads (r : Record α) {value : (m : Member) → Decoder m.Value}
    {found : (m : Member) → Content → Option m.Value}
    (hvalue : ∀ m s, Reads (value m) (found m) s) (s : Source) :
    Reads (record r (some value)) (recordIn (fun _ => true) found r) s := by
  intro blanks rest hrest
  rw [record]
  cases s with
  | scalar _ v =>
      obtain ⟨c, more, hv, hblank, harray, hobject⟩ := v.exists_spelling_eq
      rw [Source.core, hv, List.cons_append, trim_blanksText_cons hblank]
      split
      · rename_i heq
        exact absurd (List.cons.inj heq).1 hobject
      · rename_i heq
        exact absurd (List.cons.inj heq).1 harray
      · cases v <;> simp [Source.content, Source.scalarContent, recordIn]
  | array _ inner elements =>
      have helements := toOption_arrayMembers hvalue r.arrayLabel r.members.length true r.members
        inner elements rest
      rw [Source.core, List.cons_append, trim_blanksText_cons (by decide)]
      simp only [toOption_bind, toOption_inside, List.append_assoc, List.singleton_append,
        helements, Source.content, recordIn]
      cases elementsIn found r.members (Source.contents elements) <;> rfl
  | object _ inner members =>
      have hmembers := toOption_objectMembers hvalue r.members inner members rest
      rw [Source.core, List.cons_append, trim_blanksText_cons (by decide)]
      simp only [toOption_bind, toOption_inside, List.append_assoc, List.singleton_append,
        hmembers, Source.content, recordIn]
      cases membersIn (fun _ => true) found r.members (Source.memberContents members) <;> rfl

/-- Without room for a container there is no record. -/
theorem record_reads_none (r : Record α) (s : Source) :
    Reads (record r none) (fun _ => none) s := by
  intro blanks rest hrest
  rw [record]
  split <;> simp

end

/-! ### Tagged records

The tag is read from the text and the rest from trees, which were read from the text before. -/

/-- The tag is a name; a number will do only where the record is buffered as a whole. -/
theorem tagOf_reads (kind : TaggedKind) (s : Source) :
    Reads (tagOf kind) (variantIn .streamed kind) s := by
  refine scalar_reads (fun tree => ?_) (fun c a h => isSome_tree?_of_variantIn h 0) s
  cases tree with
  | text name => exact toOption_ofName _ _
  | number n => cases n <;> rfl
  | null | boolean | array | object => rfl

/-- The members of an object that are kept as trees are decoded from there. -/
theorem mapM_memberOf_bind (depth : Nat) (r : Record α)
    (members : List (Option String × Content)) :
    ((members.mapM (Content.memberOf (Content.tree? depth))).bind fun trees =>
        (ofMembers none r.members (.empty _) trees >>= Slots.fill r.members).toOption) =
      membersIn (passesIn .buffer depth) (fun m => slotIn (fun shape => read depth .buffer shape)
        m.slot) r.members members := by
  cases htrees : members.mapM (Content.memberOf (Content.tree? depth)) with
  | none =>
      symm
      refine Option.eq_none_iff_forall_ne_some.mpr fun values hvalues => ?_
      -- had they been read, then they would be a tree
      have hall := passes_of_membersIn (fun m _ _ h => passesIn_of_read depth m.slot h) hvalues
      have hobject : ((Content.object members).tree? (depth + 1)).isSome = true :=
        isSome_tree?_object.mpr hall
      rw [Content.tree?, htrees] at hobject
      cases hobject
  | some trees =>
      have hobject : (Content.object members).tree? (depth + 1) = some (.object trees) := by
        rw [Content.tree?, htrees]
        rfl
      obtain ⟨hcontent, hdepth⟩ := Json.content_of_tree? hobject
      obtain rfl := Content.object.inj hcontent
      exact toOption_record_object (toOption_ofTree depth) .buffer r
        (Tree.depth_object_le.mp hdepth)

/-- The elements of an array that are kept as trees are decoded from there. -/
theorem mapM_tree?_bind (depth : Nat) (label : String) (count : Nat) (ms : List Member)
    (elements : List Content) :
    ((elements.mapM (Content.tree? depth)).bind fun trees =>
        (ofElements label count ms trees).toOption) =
      elementsIn (fun m => slotIn (fun shape => read depth .buffer shape) m.slot) ms
        elements := by
  cases htrees : elements.mapM (Content.tree? depth) with
  | none =>
      symm
      refine Option.eq_none_iff_forall_ne_some.mpr fun values hvalues => ?_
      -- had they been read, then they would be a tree
      have hall := passes_of_elementsIn (fun m _ _ h => passesIn_of_read depth m.slot h) hvalues
      have harray : ((Content.array elements).tree? (depth + 1)).isSome = true :=
        isSome_tree?_array.mpr hall
      rw [Content.tree?, htrees] at harray
      cases harray
  | some trees =>
      have harray : (Content.array elements).tree? (depth + 1) = some (.array trees) := by
        rw [Content.tree?, htrees]
        rfl
      obtain ⟨hcontent, hdepth⟩ := Json.content_of_tree? harray
      obtain rfl := Content.array.inj hcontent
      exact toOption_ofElements (toOption_ofTree depth) label count ms
        (Tree.depth_array_le.mp hdepth)

/-- Gather a member of a tagged record. -/
def putTagged (kind : TaggedKind) (depth : Nat) (gathered : Gathered kind) (name : String)
    (c : Content) : Option (Gathered kind) :=
  if name = kind.tag then
    if gathered.variant.isSome then none
    else (variantIn .streamed kind c).map fun variant => { gathered with variant := some variant }
  else (c.tree? depth).map fun tree => { gathered with members := (name, tree) :: gathered.members }

/-- A member is the tag, which may be there only once, or it is kept. -/
theorem taggedMember_reads (kind : TaggedKind) (depth : Nat) (gathered : Gathered kind)
    (name : String) (s : Source) (colonBlanks blanks : List Blank) {rest : List Char}
    (hrest : Ends rest) :
    (taggedMember kind depth gathered name (blanksText colonBlanks ++ ':' ::
        (blanksText blanks ++ (s.core ++ rest)))).toOption =
      (putTagged kind depth gathered name s.content).map fun gathered => (gathered, rest) := by
  rw [taggedMember, putTagged]
  split
  · split
    · rfl
    · rw [toOption_bind, toOption_mapError, colon_blanksText, toOption_ok, Option.bind_some,
        toOption_bind, tagOf_reads kind s blanks rest hrest]
      cases variantIn .streamed kind s.content <;> rfl
  · rw [toOption_bind, liftStep, toOption_mapError,
      Json.treeMember_reads (Json.tree_reads depth s) gathered.members name colonBlanks blanks
        hrest]
    cases s.content.tree? depth <;> rfl

/-- The members of a tagged record are the tag and the others. -/
theorem toOption_taggedMembers (kind : TaggedKind) (depth : Nat) (blanks : List Blank)
    (members : List (MemberName × Source)) (rest : List Char) :
    (taggedMembers kind depth
        (blanksText blanks ++ (Source.membersText true members ++ '}' :: rest))).toOption =
      ((onlyIn (variantIn .streamed kind) none
          (withName kind.tag (Source.memberContents members))).bind fun variant =>
        ((withoutName kind.tag (Source.memberContents members)).mapM
          (Content.memberOf (Content.tree? depth))).map fun trees => (variant, trees)).map
            fun found => (found, '}' :: rest) := by
  have hmembers := members_source Failure.ofJson (taggedMember kind depth)
    (putTagged kind depth) members
    (fun m _ gathered name colonBlanks blanks rest hrest =>
      taggedMember_reads kind depth gathered name m.2 colonBlanks blanks hrest)
    {} blanks rest
  -- tags and other members do not get in each other's way
  have hsplit : (Source.memberContents members).foldlM
      (fun gathered (member : Option String × Content) =>
        member.1.bind fun name => putTagged kind depth gathered name member.2) {} =
      ((withName kind.tag (Source.memberContents members)).foldlM
          (putOwn (variantIn .streamed kind)) none).bind fun variant =>
        ((withoutName kind.tag (Source.memberContents members)).foldlM
          (fun gathered (m : Option String × Content) => m.1.bind fun name =>
            (m.2.tree? depth).map fun tree => (name, tree) :: gathered) []).map
              fun trees => ⟨variant, trees⟩ := by
    refine foldlM_split Gathered.mk (fun variant trees member => ?_)
      (Source.memberContents members) none []
    obtain ⟨name, c⟩ := member
    cases name with
    | none => rfl
    | some name =>
        by_cases hname : name = kind.tag
        · cases variant <;> simp [putTagged, putOwn, hname, Function.comp_def]
        · simp [putTagged, hname, Function.comp_def]
  rw [taggedMembers, toOption_bind, hmembers, hsplit, Json.foldlM_member_tree, ← foldlM_putOwn]
  cases (withName kind.tag (Source.memberContents members)).foldlM
      (putOwn (variantIn .streamed kind)) none with
  | none => rfl
  | some variant =>
      cases (withoutName kind.tag (Source.memberContents members)).mapM
          (Content.memberOf (Content.tree? depth)) with
      | none => cases variant <;> rfl
      | some trees => cases variant <;> simp

/-- The elements of a tagged record are the tag and the others. -/
theorem toOption_taggedElements (kind : TaggedKind) (depth : Nat) (blanks : List Blank)
    (elements : List Source) (rest : List Char) :
    (taggedElements kind depth
        (blanksText blanks ++ (Source.listText true elements ++ ']' :: rest))).toOption =
      match elements with
      | [] => none
      | tag :: others =>
          ((variantIn .streamed kind tag.content).bind fun variant =>
            ((Source.contents others).mapM (Content.tree? depth)).map fun trees =>
              (variant, trees)).map fun found => (found, ']' :: rest) := by
  cases elements with
  | nil =>
      rw [taggedElements, Source.listText, List.nil_append, Json.nextElement_end]
      rfl
  | cons tag others =>
      have htag := tagOf_reads kind tag [] _ (Json.ends_blanksText_append tag.around.after
        (Json.ends_listText others rest))
      have hreads (e : Source) : Reads (liftStep (Json.tree depth)) (Content.tree? depth) e := by
        intro blanks rest hrest
        rw [liftStep, toOption_mapError]
        exact Json.tree_reads depth e blanks rest hrest
      have hothers := elements_source Failure.ofJson others (fun e _ => hreads e) false
        tag.around.after rest
      simp only [Json.blanksText_nil, List.nil_append] at htag
      rw [taggedElements, Json.nextElement_listText]
      simp only [toOption_bind, htag]
      cases variantIn .streamed kind tag.content with
      | none => rfl
      | some variant =>
          simp only [Option.map_some, Option.bind_some, hothers]
          cases (Source.contents others).mapM (Content.tree? depth) <;> rfl

/-- A tagged record is read. -/
theorem tagged_reads (kind : TaggedKind) (depth : Nat) (s : Source) :
    Reads (tagged kind (some depth)) (read (depth + 1) .streamed (.tagged kind)) s := by
  intro blanks rest hrest
  simp only [tagged]
  cases s with
  | scalar _ v =>
      obtain ⟨c, more, hv, hblank, harray, hobject⟩ := v.exists_spelling_eq
      rw [Source.core, hv, List.cons_append, trim_blanksText_cons hblank]
      split
      · rename_i heq
        exact absurd (List.cons.inj heq).1 hobject
      · rename_i heq
        exact absurd (List.cons.inj heq).1 harray
      · -- a scalar is no record
        cases v <;> simp [Source.content, Source.scalarContent, read, taggedIn]
  | array _ inner elements =>
      have helements := toOption_taggedElements kind depth inner elements rest
      rw [Source.core, List.cons_append, trim_blanksText_cons (by decide)]
      simp only [toOption_bind, toOption_inside, List.append_assoc, List.singleton_append,
        helements, Source.content, read]
      cases elements with
      | nil => rfl
      | cons tag others =>
          simp only [Source.contents, taggedIn]
          cases variantIn .streamed kind tag.content with
          | none => rfl
          | some variant =>
              have hothers := mapM_tree?_bind depth variant.record.arrayLabel
                variant.record.members.length variant.record.members (Source.contents others)
              simp only [bind, Option.bind_some, ← hothers]
              cases (Source.contents others).mapM (Content.tree? depth) with
              | none => rfl
              | some trees =>
                  simp only [Option.map_some, Option.bind_some]
                  cases ofElements variant.record.arrayLabel _ variant.record.members trees <;> rfl
  | object _ inner members =>
      have hmembers := toOption_taggedMembers kind depth inner members rest
      rw [Source.core, List.cons_append, trim_blanksText_cons (by decide)]
      simp only [toOption_bind, toOption_inside, List.append_assoc, List.singleton_append,
        hmembers, Source.content, read, taggedIn]
      cases onlyIn (variantIn .streamed kind) none
          (withName kind.tag (Source.memberContents members)) with
      | none => rfl
      | some variant =>
          have hothers := mapM_memberOf_bind depth variant.record
            (withoutName kind.tag (Source.memberContents members))
          simp only [bind, Option.bind_some, ← hothers]
          cases (withoutName kind.tag (Source.memberContents members)).mapM
              (Content.memberOf (Content.tree? depth)) with
          | none => rfl
          | some trees =>
              simp only [Option.map_some, Option.bind_some]
              generalize (ofMembers none variant.record.members _ trees).bind _ = values
              cases values <;> rfl

/-- Without room for a container there is no tagged record. -/
theorem tagged_reads_none (kind : TaggedKind) (s : Source) :
    Reads (tagged kind none) (fun _ => none) s := by
  intro blanks rest hrest
  simp only [tagged]
  split <;> simp

/-! ### Shapes

Containers need room for one more. Where there is none the decoder refuses them, and so does
`read`. -/

/-- Every shape is read from the text. -/
theorem decode_reads (depth : Nat) (shape : Shape) (s : Source) :
    Reads (decode depth shape) (read depth .streamed shape) s := by
  induction depth generalizing shape s with
  | zero =>
      cases shape with
      | text => exact text_reads s
      | identifier kind => exact identifier_reads kind s
      | natural => exact natural_reads s
      | instant => exact instant_reads s
      | choice kind => exact choice_reads kind.names 0 s
      | list element => exact list_reads_none _ s
      | dictionary kind value => exact dictionary_reads_none _ kind s
      | record kind => exact record_reads_none _ s
      | tagged kind => exact tagged_reads_none kind s
  | succ depth ih =>
      cases shape with
      | text => exact text_reads s
      | identifier kind => exact identifier_reads kind s
      | natural => exact natural_reads s
      | instant => exact instant_reads s
      | choice kind => exact choice_reads kind.names (depth + 1) s
      | list element => exact list_reads _ (ih element) s
      | dictionary kind value => exact dictionary_reads _ kind (ih value) s
      | record kind =>
          exact record_reads kind.record (fun m => slot_reads ih m.slot) s
      | tagged kind => exact tagged_reads kind depth s

/-- A text is decoded as its content is read. -/
theorem decodeText_eq_ok_iff {shape : Shape} {s : Source} {v : shape.Value} :
    decodeText shape s.text = .ok v ↔
      read Json.maxDepth .streamed shape s.content = some v := by
  have hreads := decode_reads Json.maxDepth shape s s.around.before (blanksText s.around.after)
    (by simpa using Json.ends_blanksText_append s.around.after Json.ends_nil)
  have hend : trim (blanksText s.around.after) = [] := by
    simpa using trim_blanksText_append s.around.after []
  rw [← toOption_eq_some, decodeText, toOption_bind, Source.text, List.append_assoc, hreads]
  cases read Json.maxDepth .streamed shape s.content with
  | none => simp
  | some v => simp [hend]

end MessageExport.Wire
