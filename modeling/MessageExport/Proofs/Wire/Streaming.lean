import MessageExport.Proofs.Wire.Buffering
/-!
# MessageExport.Proofs.Wire.Streaming

Decoding **scalars, lists, dictionaries and choices** straight from a text.

Every decoder reads the sources of its values (`Json.Reads`): it finds what `read` finds in
the content, in the streamed manner, and leaves what follows. Decoders of containers do so
if the decoders of what is inside do.

## Shape of the proofs

A decoder looks at the first character behind the blanks and so at the kind of the source. Each
proof therefore goes through the three kinds of source. Scalars of the wrong kind are spelt with
a first character that is neither bracket (`Scalar.exists_spelling_eq`), and containers of the
wrong kind are refused at their bracket. In the case that is left the text behind the bracket is
that of the elements or members, and the loops over them have been dealt with for any decoder in
`Json.elements_source` and `Json.members_source`.

What a decoder finds is compared with what is found in the content, as options: which failure it
is does not matter.
-/

namespace MessageExport.Wire

open Json (Content Tree Source Scalar Blank MemberName Reads Ends blanksText trim
  trim_blanksText_cons trim_blanksText_append trim_cons_of_not_isBlank colon_blanksText
  elements_source members_source)

variable {α : Type}

/-! ### Scalars

All scalars are decoded in the same way: the next value is read as a tree without any container,
and converted. So one lemma, `scalar_reads`, serves for texts, numbers and instants, and
identifiers are checked texts. It asks that the conversion finds in a tree what is to be found
in its content, and nothing in what is no tree. -/

/-- Nothing. -/
def nothingIn : Content → Option Unit
  | .null => some ()
  | _ => none

@[simp] theorem toOption_asNothing (tree : Tree) :
    (asNothing tree).toOption = nothingIn tree.content := by
  cases tree <;> rfl

/-- The only nothing is `null`, which is a tree. -/
theorem isSome_tree?_of_nothingIn {c : Content} {u : Unit} (h : nothingIn c = some u)
    (depth : Nat) : (c.tree? depth).isSome = true := by
  cases c with
  | null => rw [Content.tree?]; rfl
  | boolean | number | text | array | object => cases h

/-- A scalar is converted from its tree. -/
theorem scalar_spelling (convert : Tree → Except Cause α) (v : Scalar) (blanks : List Blank)
    {rest : List Char} (hrest : Ends rest) :
    (scalar convert (blanksText blanks ++ (v.spelling ++ rest))).toOption =
      ((Source.scalarContent v).tree? 0).bind fun tree =>
        (convert tree).toOption.map fun a => (a, rest) := by
  obtain ⟨c, more, hv, hblank, harray, hobject⟩ := v.exists_spelling_eq
  have hscalar := Json.scalar_spelling v hrest 0
  rw [scalar]
  rw [hv, List.cons_append] at hscalar ⊢
  rw [trim_blanksText_cons hblank]
  split
  · rename_i heq
    exact absurd (List.cons.inj heq).1 harray
  · rename_i heq
    exact absurd (List.cons.inj heq).1 hobject
  · rw [liftStep, toOption_bind, toOption_mapError, hscalar]
    cases (Source.scalarContent v).tree? 0 with
    | none => rfl
    | some tree =>
        simp only [Option.map_some, Option.bind_some, scalar.reject]
        cases convert tree <;> rfl

/-- A container is not converted, only handed over empty to say what was found instead. -/
theorem scalar_container (convert : Tree → Except Cause α) {c : Char}
    (hblank : Json.isBlank c = false) (blanks : List Blank) (rest : List Char)
    (hc : c = '[' ∧ (convert (.array [])).toOption = none ∨
      c = '{' ∧ (convert (.object [])).toOption = none) :
    (scalar convert (blanksText blanks ++ c :: rest)).toOption = none := by
  rw [scalar, trim_blanksText_cons hblank]
  rcases hc with ⟨rfl, hconvert⟩ | ⟨rfl, hconvert⟩
  · simp only [scalar.reject]
    cases h : convert (.array []) <;> simp_all
  · simp only [scalar.reject]
    cases h : convert (.object []) <;> simp_all

/-- A decoder of scalars reads what it converts. -/
theorem scalar_reads {convert : Tree → Except Cause α} {find : Content → Option α}
    (hconvert : ∀ tree, (convert tree).toOption = find tree.content)
    (hclosed : ∀ c a, find c = some a → (c.tree? 0).isSome = true) (s : Source) :
    Reads (scalar convert) find s := by
  have hnone (c : Content) (h : c.tree? 0 = none) : find c = none := by
    cases hfind : find c with
    | none => rfl
    | some a =>
        have := hclosed c a hfind
        rw [h] at this
        cases this
  intro blanks rest hrest
  cases s with
  | scalar _ v =>
      rw [Source.core, scalar_spelling convert v blanks hrest, Source.content]
      cases htree : (Source.scalarContent v).tree? 0 with
      | none =>
          rw [hnone _ htree]
          rfl
      | some tree =>
          obtain ⟨hcontent, -⟩ := Json.content_of_tree? htree
          rw [Option.bind_some, hconvert, hcontent]
  | array _ inner elements =>
      rw [Source.content, hnone _ rfl, Source.core, List.cons_append]
      exact scalar_container convert (by decide) blanks _
        (.inl ⟨rfl, (hconvert (.array [])).trans (hnone _ rfl)⟩)
  | object _ inner members =>
      rw [Source.content, hnone _ rfl, Source.core, List.cons_append]
      exact scalar_container convert (by decide) blanks _
        (.inr ⟨rfl, (hconvert (.object [])).trans (hnone _ rfl)⟩)

/-- A value of the wrong kind is not decoded. -/
@[simp] theorem toOption_mismatch (expected : String) (s : List Char) :
    (mismatch expected s : Except Failure (α × List Char)).toOption = none := by
  unfold mismatch scalar
  split
  · rfl
  · rfl
  · rw [toOption_bind]
    cases (liftStep Json.scalar _).toOption <;> rfl

/-- A text is read. -/
theorem text_reads (s : Source) : Reads (scalar asText) textIn s :=
  scalar_reads toOption_asText (fun _ _ h => isSome_tree?_of_textIn h 0) s

/-- Nothing is read. -/
theorem nothing_reads (s : Source) : Reads (scalar asNothing) nothingIn s :=
  scalar_reads toOption_asNothing (fun _ _ h => isSome_tree?_of_nothingIn h 0) s

/-- An identifier is read as a text and then checked. -/
theorem identifier_reads (kind : IdKind) (s : Source) :
    Reads (identifier kind) (fun c => textIn c >>= Identifier.ofString? kind) s := by
  intro blanks rest hrest
  rw [identifier, toOption_bind, text_reads s blanks rest hrest]
  cases htext : textIn s.content with
  | none => simp [htext]
  | some raw =>
      have hraw := toOption_asIdentifier kind raw
      cases has : asIdentifier kind raw <;> rw [has] at hraw <;> simp [has, htext, ← hraw]

/-- A natural number is read. -/
theorem natural_reads (s : Source) : Reads (scalar asNatural) naturalIn s :=
  scalar_reads toOption_asNatural (fun _ _ h => isSome_tree?_of_naturalIn h 0) s

/-- An instant is read as a text that is parsed. -/
theorem instant_reads (s : Source) :
    Reads (scalar asInstant) (fun c => textIn c >>= fun s => (Instant.ofString s).toOption) s := by
  refine scalar_reads toOption_asInstant (fun c t h => ?_) s
  obtain ⟨raw, hraw, -⟩ := Option.bind_eq_some_iff.mp h
  exact isSome_tree?_of_textIn hraw 0

/-! ### Containers

How what is inside is read is a parameter, and `none` stands for a container too deep to be
opened. -/

/-- The inside of a container that may be opened. -/
theorem toOption_inside {β : Type} (container : Json.Container) (inner : β) (body : β → Decoder α)
    (bracket : Char) (rest : List Char) :
    (inside container (some inner) body (bracket :: rest)).toOption =
      (body inner rest).toOption.map fun p => (p.1, p.2.drop 1) := by
  simp only [inside, List.drop_succ_cons, List.drop_zero]
  cases body inner rest <;> rfl

@[simp] theorem toOption_inside_none {β : Type} (container : Json.Container)
    (body : β → Decoder α) (s : List Char) :
    (inside container none body s).toOption = none := rfl

/-- A list is read if its elements are. -/
theorem list_reads (expected : String) {element : Decoder α} {find : Content → Option α}
    (helement : ∀ s, Reads element find s) (s : Source) :
    Reads (list expected (some element)) (listIn find) s := by
  intro blanks rest hrest
  rw [list]
  cases s with
  | scalar _ v =>
      obtain ⟨c, more, hv, hblank, harray, -⟩ := v.exists_spelling_eq
      rw [Source.core, hv, List.cons_append, trim_blanksText_cons hblank]
      split
      · rename_i heq
        exact absurd (List.cons.inj heq).1 harray
      · cases v <;> simp [Source.content, Source.scalarContent, listIn]
  | object _ inner members =>
      rw [Source.core, List.cons_append, trim_blanksText_cons (by decide)]
      simp [Source.content, listIn]
  | array _ inner elements =>
      have helements := elements_source Failure.ofJson elements (fun e _ => helement e) true inner
        rest
      rw [Source.core, List.cons_append, trim_blanksText_cons (by decide)]
      simp only [toOption_inside, List.append_assoc, List.singleton_append, helements]
      simp [Source.content, listIn, Function.comp_def]

/-- Without room for a container there is no list. -/
theorem list_reads_none (expected : String) (s : Source) :
    Reads (list expected (none : Option (Decoder α))) (fun _ => none) s := by
  intro blanks rest hrest
  rw [list]
  split <;> simp

/-- An entry of a dictionary is read onto the entries before it. -/
theorem entry_reads (kind : IdKind) {value : Decoder α} {find : Content → Option α} {s : Source}
    (hs : Reads value find s) (gathered : IdMap kind α) (name : String)
    (colonBlanks blanks : List Blank) {rest : List Char} (hrest : Ends rest) :
    (entry kind value gathered name (blanksText colonBlanks ++ ':' ::
        (blanksText blanks ++ (s.core ++ rest)))).toOption =
      ((entryIn kind find (some name, s.content)).map fun entry =>
        gathered.insert entry.1 entry.2).map fun g => (g, rest) := by
  have hkey := toOption_asIdentifier kind name
  unfold entry
  split
  · rename_i heq
    rw [heq] at hkey
    -- the empty key is refused before its value is read
    simp [entryIn, ← hkey]
  · rename_i heq
    rw [heq] at hkey
    rw [toOption_bind, toOption_mapError, colon_blanksText, toOption_ok, Option.bind_some,
      toOption_bind, hs blanks rest hrest]
    cases hfind : find s.content <;> simp [entryIn, ← hkey, hfind]

/-- Entries are inserted one after another. -/
theorem foldlM_insert (kind : IdKind) (find : Content → Option α)
    (members : List (Option String × Content)) (gathered : IdMap kind α) :
    members.foldlM (fun gathered (member : Option String × Content) =>
        member.1.bind fun name => (entryIn kind find (some name, member.2)).map fun entry =>
          gathered.insert entry.1 entry.2) gathered =
      (members.mapM (entryIn kind find)).map gathered.insertAll := by
  induction members generalizing gathered with
  | nil => rfl
  | cons member members ih =>
      obtain ⟨name, c⟩ := member
      cases name with
      | none => simp [entryIn]
      | some name =>
          cases hentry : entryIn kind find (some name, c) with
          | none => simp [hentry]
          | some entry =>
              simp [hentry, ih, Function.comp_def]
              exact Option.map_eq_bind

/-- A dictionary is read if its values are. -/
theorem dictionary_reads (expected : String) (kind : IdKind) {value : Decoder α}
    {find : Content → Option α} (hvalue : ∀ s, Reads value find s) (s : Source) :
    Reads (dictionary expected kind (some value))
      (objectIn (dictionaryIn .streamed kind find)) s := by
  intro blanks rest hrest
  rw [dictionary]
  cases s with
  | scalar _ v =>
      obtain ⟨c, more, hv, hblank, -, hobject⟩ := v.exists_spelling_eq
      rw [Source.core, hv, List.cons_append, trim_blanksText_cons hblank]
      split
      · rename_i heq
        exact absurd (List.cons.inj heq).1 hobject
      · cases v <;> simp [Source.content, Source.scalarContent, objectIn]
  | array _ inner elements =>
      rw [Source.core, List.cons_append, trim_blanksText_cons (by decide)]
      simp [Source.content, objectIn]
  | object _ inner members =>
      have hmembers := members_source Failure.ofJson (entry kind value)
        (fun gathered name c => (entryIn kind find (some name, c)).map fun entry =>
          gathered.insert entry.1 entry.2) members
        (fun m _ gathered name colonBlanks blanks rest hrest =>
          entry_reads kind (hvalue m.2) gathered name colonBlanks blanks hrest) .empty inner rest
      rw [Source.core, List.cons_append, trim_blanksText_cons (by decide)]
      simp only [toOption_inside, List.append_assoc, List.singleton_append, hmembers,
        foldlM_insert, Source.content, objectIn, dictionaryIn]
      cases List.mapM (entryIn kind find) (Source.memberContents members) <;> rfl

/-- Without room for a container there is no dictionary. -/
theorem dictionary_reads_none (expected : String) (kind : IdKind) (s : Source) :
    Reads (dictionary expected kind (none : Option (Decoder α))) (fun _ => none) s := by
  intro blanks rest hrest
  rw [dictionary]
  split <;> simp

/-! ### Choices

A choice is written as a name, or as an object of one member whose value is `null`. The object
is read by hand, with no loop over members: its first member is looked at, and it has to be the
last one. -/

/-- A choice that is written as a name is read. -/
theorem choiceName_reads (names : List (String × α)) (s : Source) :
    Reads (choiceName names) (fun c => textIn c >>= named names) s := by
  refine scalar_reads (fun tree => ?_) (fun c a h => ?_) s
  · cases tree with
    | text name => exact toOption_ofName names name
    | null | boolean | number | array | object => rfl
  · obtain ⟨name, hname, -⟩ := Option.bind_eq_some_iff.mp h
    exact isSome_tree?_of_textIn hname 0

/-- In a text, a choice that is written as an object is a name and `null`. -/
theorem choiceIn_object_cons (names : List (String × α)) (name : Option String) (c : Content)
    (more : List (Option String × Content)) :
    choiceIn .streamed names 1 (.object ((name, c) :: more)) =
      (name >>= named names).bind fun a =>
        (nothingIn c).bind fun _ => if more.isEmpty then some a else none := by
  cases name with
  | none => simp [choiceIn]
  | some name =>
      cases more with
      | nil =>
          cases c with
          | object members => cases members <;> simp [choiceIn, nothingIn, Manner.streamed]
          | null | boolean | number | text | array => simp [choiceIn, nothingIn]
      | cons => cases c <;> simp [choiceIn]

/-- A choice that is written as an object needs room for one container. -/
theorem choiceIn_object (names : List (String × α)) (depth : Nat)
    (members : List (Option String × Content)) :
    choiceIn .streamed names depth (.object members) =
      if depth = 0 then none else choiceIn .streamed names 1 (.object members) := by
  unfold choiceIn
  cases depth with
  | zero => split <;> simp_all
  | succ depth => split <;> simp [Manner.streamed]

/-- A choice that is written as an object is read. -/
theorem toOption_choiceObject (names : List (String × α)) (inner : List Blank)
    (members : List (MemberName × Source)) (rest : List Char) :
    (choiceObject names
      (blanksText inner ++ (Source.membersText true members ++ '}' :: rest))).toOption =
      (choiceIn .streamed names 1 (.object (Source.memberContents members))).map
        fun a => (a, rest) := by
  cases members with
  | nil =>
      rw [choiceObject, Source.membersText, List.nil_append, trim_blanksText_cons (by decide)]
      simp [Source.memberContents, choiceIn]
  | cons member more =>
      obtain ⟨name, value⟩ := member
      have hafter : Ends (Json.afterName name value more ('}' :: rest)) :=
        Json.ends_blanksText_append _ (Json.ends_cons (by decide) _)
      have hname := choiceName_reads names (.scalar ⟨[], []⟩ (.text name.parts)) [] _ hafter
      have hvalue := nothing_reads value value.around.before _
        (Json.ends_blanksText_append value.around.after (Json.ends_membersText more rest))
      simp only [Source.core, Scalar.spelling, Json.quotedParts, Json.blanksText_nil,
        List.nil_append, List.cons_append, List.append_assoc] at hname
      rw [choiceObject, Json.trim_membersText]
      simp only [toOption_bind, hname, Source.content, Source.scalarContent, textIn,
        Source.memberContents, choiceIn_object_cons]
      cases (Json.partsString? name.parts >>= named names) with
      | none => rfl
      | some a =>
          simp only [Option.map_some, Option.bind_some, toOption_mapError,
            Json.afterName, colon_blanksText, toOption_ok, hvalue]
          cases nothingIn value.content with
          | none => rfl
          | some u =>
              simp only [Option.map_some, Option.bind_some]
              cases more with
              | nil =>
                  rw [Source.membersText, List.nil_append, trim_blanksText_cons (by decide)]
                  simp [Source.memberContents]
              | cons m more =>
                  obtain ⟨name, value⟩ := m
                  simp only [Source.membersText, List.cons_append, List.append_assoc,
                    List.nil_append, Bool.false_eq_true, if_false]
                  rw [trim_blanksText_cons (by decide)]
                  simp [Source.memberContents]

/-- A choice is read. -/
theorem choice_reads (names : List (String × α)) (depth : Nat) (s : Source) :
    Reads (choice names depth) (choiceIn .streamed names depth) s := by
  intro blanks rest hrest
  rw [choice]
  cases s with
  | scalar around v =>
      obtain ⟨c, more, hv, hblank, -, hobject⟩ := v.exists_spelling_eq
      have hname := choiceName_reads names (.scalar around v) [] rest hrest
      rw [Source.core, hv, List.cons_append] at hname ⊢
      rw [trim_blanksText_cons hblank]
      split
      · rename_i heq
        cases heq
      · rename_i heq
        obtain ⟨rfl, rfl⟩ := List.cons.inj heq
        obtain ⟨parts, rfl⟩ := Scalar.eq_text_of_spelling hv
        simp only [Json.blanksText_nil, List.nil_append] at hname
        rw [hname]
        cases hparts : Json.partsString? parts <;>
          simp [Source.content, Source.scalarContent, choiceIn, textIn, hparts]
      · rename_i heq
        exact absurd (List.cons.inj heq).1 hobject
      · rename_i hquote _
        rw [toOption_error, Source.content]
        cases v with
        | text parts =>
            obtain ⟨rfl, rfl⟩ := List.cons.inj hv
            exact absurd rfl (hquote _)
        | null | boolean | number => simp [Source.scalarContent, choiceIn]
  | array _ inner elements =>
      rw [Source.core, List.cons_append, trim_blanksText_cons (by decide)]
      simp [Source.content, choiceIn]
  | object _ inner members =>
      have hmembers := toOption_choiceObject names inner members rest
      rw [Source.core, List.cons_append, trim_blanksText_cons (by decide)]
      simp only [List.append_assoc, List.cons_append, List.nil_append, Source.content]
      rw [choiceIn_object]
      split
      · rfl
      · exact hmembers

end MessageExport.Wire
