import MessageExport.Proofs.Json.Walk
/-!
# MessageExport.Proofs.Json.Trees

Reading a **tree**: what a text says, as far as it is not nested too deeply.

The reader needs room for every container that it opens, so that the induction is on the
room that is left: without room, there are only scalars.
-/

namespace MessageExport.Json

/-! ### Scalars -/

/-- A scalar is read as its tree. -/
theorem scalar_spelling (v : Scalar) {rest : List Char} (hrest : Ends rest) (depth : Nat) :
    (scalar (v.spelling ++ rest)).toOption =
      ((Source.scalarContent v).tree? depth).map fun tree => (tree, rest) := by
  cases v with
  | null => simp [Scalar.spelling, scalar, word, Source.scalarContent, Content.tree?]
  | boolean value =>
      cases value <;> simp [Scalar.spelling, scalar, word, Source.scalarContent, Content.tree?]
  | text parts =>
      simp only [Scalar.spelling, quotedParts, List.cons_append, List.append_assoc, scalar,
        List.nil_append, toOption_bind, string_parts, Source.scalarContent, Content.tree?]
      cases partsString? parts <;> rfl
  | number n =>
      have hnumber := number_body_append n hrest
      simp only [Scalar.spelling, Numeral.text, Source.scalarContent, Content.tree?]
      cases hsign : n.isNegative with
      | true =>
          rw [hsign] at hnumber
          simp only [if_true, List.cons_append, scalar, toOption_bind, hnumber]
          cases n.value? <;> rfl
      | false =>
          rw [hsign] at hnumber
          -- a digit begins none of the other scalars
          have hscalar (s : List Char) : scalar (n.first.val :: s) =
              number false (n.first.val :: s) >>= fun found => .ok (.number found.1, found.2) := by
            have hn := n.first.ne (c := 'n') (by decide)
            have ht := n.first.ne (c := 't') (by decide)
            have hf := n.first.ne (c := 'f') (by decide)
            have hquote := n.first.ne (c := '"') (by decide)
            have hminus := n.first.ne (c := '-') (by decide)
            rw [scalar, if_pos n.first.property] <;> assumption
          simp only [Bool.false_eq_true, if_false, Numeral.body, List.cons_append,
            hscalar] at hnumber ⊢
          rw [toOption_bind, hnumber]
          cases n.value? <;> rfl

/-! ### Containers

Elements are collected in their order, and members in front of one another, so that they are
turned round at the end. -/

/-- Members put in front of one another come out last first. -/
theorem foldlM_member_tree (depth : Nat) (members : List (Option String × Content))
    (gathered : List (String × Tree)) :
    members.foldlM (fun gathered (m : Option String × Content) => m.1.bind fun name =>
        (m.2.tree? depth).map fun tree => (name, tree) :: gathered) gathered =
      (members.mapM (Content.memberOf (Content.tree? depth))).map
        fun trees => trees.reverse ++ gathered := by
  induction members generalizing gathered with
  | nil => rfl
  | cons m members ih =>
      obtain ⟨name, value⟩ := m
      cases name with
      | none => simp [Content.memberOf]
      | some name =>
          cases htree : value.tree? depth with
          | none => simp [Content.memberOf, htree]
          | some tree =>
              simp only [Content.memberOf, htree, ih, List.foldlM_cons, List.mapM_cons,
                Option.bind_some, Option.map_some]
              cases members.mapM (Content.memberOf (Content.tree? depth)) <;> simp

/-- A member is read behind its colon and put in front of the others. -/
theorem treeMember_reads {value : Step Tree} {find : Content → Option Tree} {s : Source}
    (hs : Reads value find s) (gathered : List (String × Tree)) (name : String)
    (colonBlanks blanks : List Blank) {rest : List Char} (hrest : Ends rest) :
    (treeMember value gathered name (blanksText colonBlanks ++ ':' ::
        (blanksText blanks ++ (s.core ++ rest)))).toOption =
      ((find s.content).map fun tree => (name, tree) :: gathered).map fun g => (g, rest) := by
  rw [treeMember, colon_blanksText, toOption_bind, toOption_ok, Option.bind_some, toOption_bind,
    hs blanks rest hrest]
  cases find s.content <;> rfl

/-- A scalar is read as its tree wherever a value may stand. -/
theorem tree_scalar (depth : Nat) (v : Scalar) (blanks : List Blank) (rest : List Char) :
    tree depth (blanksText blanks ++ (v.spelling ++ rest)) = scalar (v.spelling ++ rest) := by
  obtain ⟨c, more, hv, hblank, harray, hobject⟩ := v.exists_spelling_eq
  rw [tree, hv, List.cons_append, trim_blanksText_cons hblank]
  split
  · rename_i heq
    exact absurd (List.cons.inj heq).1 harray
  · rename_i heq
    exact absurd (List.cons.inj heq).1 hobject
  · rfl

/-- Any value is read as its tree. -/
theorem tree_reads (depth : Nat) (s : Source) : Reads (tree depth) (Content.tree? depth) s := by
  induction depth generalizing s with
  | zero =>
      intro blanks rest hrest
      cases s with
      | scalar around v =>
          rw [Source.core, tree_scalar, Source.content]
          exact scalar_spelling v hrest 0
      | array around inner es =>
          -- no room for a container
          rw [tree, Source.trim_core_append]
          rfl
      | object around inner ms =>
          rw [tree, Source.trim_core_append]
          rfl
  | succ depth ih =>
      intro blanks rest hrest
      cases s with
      | scalar around v =>
          rw [Source.core, tree_scalar, Source.content]
          exact scalar_spelling v hrest (depth + 1)
      | array around inner es =>
          have hes := elements_source id es (fun e _ => ih e) true inner rest
          rw [tree, Source.trim_core_append]
          simp only [Source.core, List.cons_append, List.append_assoc, List.nil_append,
            toOption_bind, hes, Source.content, Content.tree?]
          cases (Source.contents es).mapM (Content.tree? depth) <;> rfl
      | object around inner ms =>
          have hms := members_source id (treeMember (tree depth))
            (fun gathered name content =>
              (content.tree? depth).map fun tree => (name, tree) :: gathered) ms
            (fun m _ gathered name colonBlanks blanks rest hrest =>
              treeMember_reads (ih m.2) gathered name colonBlanks blanks hrest) [] inner rest
          rw [tree, Source.trim_core_append]
          simp only [Source.core, List.cons_append, List.append_assoc, List.nil_append,
            toOption_bind, hms, foldlM_member_tree, Source.content, Content.tree?]
          cases (Source.memberContents ms).mapM (Content.memberOf (Content.tree? depth)) <;> simp

end MessageExport.Json
