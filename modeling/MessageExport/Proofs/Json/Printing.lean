import MessageExport.Json.Printer
import MessageExport.Proofs.Json.Contents
import MessageExport.Proofs.Json.Respelling
import MessageExport.Proofs.Text.Decimal
/-!
# MessageExport.Proofs.Json.Printing

What is **printed** is a JSON text that says what was printed.

Numbers of the wire format are natural, and only those are considered here.

## Shape of the proofs

What is printed is turned into a source, piece by piece: the characters of a string become text
parts, the digits of a number a numeral, and the line breaks of a layout blanks. That the source
says what was printed is then a matter of its content. A source has the blanks before and after
every value, whereas a printer puts them before elements and before the closing bracket: so the
elements of a container are printed with the blanks before its end behind the last of them
(`elements_print`, `members_print`).

A layout is a parameter throughout, and `Layout.Blanks` is all that is asked of it.
-/

namespace MessageExport.Json

open MessageExport.Text

/-- Every number is natural. -/
inductive Tree.Natural : Tree → Prop where
  | null : Natural .null
  | boolean (value : Bool) : Natural (.boolean value)
  | number (value : UInt64) : Natural (.number (.natural value))
  | text (value : String) : Natural (.text value)
  | array {elements : List Tree} (inner : ∀ e ∈ elements, Natural e) : Natural (.array elements)
  | object {members : List (String × Tree)} (inner : ∀ member ∈ members, Natural member.2) :
      Natural (.object members)

@[simp] theorem Tree.natural_array_iff {elements : List Tree} :
    Tree.Natural (.array elements) ↔ ∀ e ∈ elements, e.Natural := by
  constructor
  · intro h
    cases h with
    | array inner => exact inner
  · exact .array

@[simp] theorem Tree.natural_object_iff {members : List (String × Tree)} :
    Tree.Natural (.object members) ↔ ∀ member ∈ members, member.2.Natural := by
  constructor
  · intro h
    cases h with
    | object inner => exact inner
  · exact .object

/-! ### Strings

Every character that is printed has one spelling, a short escape, four hexadecimal digits or
itself, and each of them stands for that character alone. -/

/-- Hexadecimal digits are read as what they were printed for. -/
theorem hexDigit?_digitChar : ∀ d : Fin 16, hexDigit? (Nat.digitChar d) = some d.val := by
  decide

/-- A number below sixteen as a digit. -/
def HexDigit.ofFin (d : Fin 16) : HexDigit :=
  ⟨Nat.digitChar d, by rw [hexDigit?_digitChar]; rfl⟩

@[simp] theorem HexDigit.value_ofFin (d : Fin 16) : (HexDigit.ofFin d).value = d.val :=
  Option.get_of_eq_some _ (hexDigit?_digitChar d)

/-- What is printed for a character stands for it. -/
theorem exists_part (c : Char) :
    ∃ part : TextPart, part.text = escapedChar c ∧ part.char? = some c := by
  unfold escapedChar
  split
  · exact ⟨.short '"' rfl, rfl, rfl⟩
  · exact ⟨.short '\\' rfl, rfl, rfl⟩
  · exact ⟨.short 'b' rfl, rfl, rfl⟩
  · exact ⟨.short 't' rfl, rfl, rfl⟩
  · exact ⟨.short 'n' rfl, rfl, rfl⟩
  · exact ⟨.short 'f' rfl, rfl, rfl⟩
  · exact ⟨.short 'r' rfl, rfl, rfl⟩
  · rename_i hquote hbackslash _ _ _ _ _
    split
    · rename_i hcontrol
      have hlt : c.toNat < 32 := hcontrol
      let quad : HexQuad :=
        ⟨.ofFin 0, .ofFin 0, .ofFin ⟨c.toNat / 16, by omega⟩, .ofFin ⟨c.toNat % 16, by omega⟩⟩
      have hquad : quad.value = c.toNat := by
        simp only [quad, HexQuad.value, HexDigit.value_ofFin, Fin.val_zero]
        omega
      obtain ⟨htrailing, hleading⟩ := not_isSurrogate_toNat c
      refine ⟨.unit quad, rfl, ?_⟩
      rw [TextPart.char?, hquad, htrailing, hleading]
      simp [Char.ofNat_toNat]
    · rename_i hcontrol
      exact ⟨.plain c ⟨hquote, hbackslash, hcontrol⟩, rfl, rfl⟩

/-- What is printed for a string stands for it. -/
theorem exists_parts (s : String) :
    ∃ parts, quotedParts parts = stringText s ∧ partsString? parts = some s := by
  have hparts (cs : List Char) :
      ∃ parts, partsText parts = cs.flatMap escapedChar ∧ partsValue? parts = some cs := by
    induction cs with
    | nil => exact ⟨[], rfl, rfl⟩
    | cons c cs ih =>
        obtain ⟨part, htext, hchar⟩ := exists_part c
        obtain ⟨parts, htexts, hvalue⟩ := ih
        refine ⟨part :: parts, ?_, ?_⟩
        · rw [partsText, List.flatMap_cons, htext, ← partsText, htexts, List.flatMap_cons]
        · rw [partsValue?_cons_of_char? hchar, hvalue]
          rfl
  obtain ⟨parts, htext, hvalue⟩ := hparts s.toList
  refine ⟨parts, ?_, ?_⟩
  · rw [quotedParts, htext, stringText]
  · rw [partsString?, hvalue, Option.map_some, String.ofList_toList]

/-! ### Numbers

A natural number is printed in its decimal digits, without a zero in front, and these are a
numeral. -/

/-- The digits of a number of 64 bits are read as that number. -/
theorem wholeDigits_digits (digits : List Char) (hdigits : ∀ c ∈ digits, c.isDigit = true)
    (value : Nat) (hmax : Nat.ofDigitChars 10 digits value ≤ maxSignificand) :
    wholeDigits false value digits =
      .ok (.natural (UInt64.ofNat (Nat.ofDigitChars 10 digits value)), []) := by
  induction digits generalizing value with
  | nil => rfl
  | cons c digits ih =>
      obtain ⟨hc, hdigits⟩ := List.forall_mem_cons.mp hdigits
      rw [Nat.ofDigitChars_cons] at hmax ⊢
      have hnot : ¬ maxSignificand < 10 * value + (c.toNat - '0'.toNat) :=
        Nat.not_lt.mpr (Nat.le_trans (le_ofDigitChars digits _) hmax)
      simp only [wholeDigits, digit?_of_isDigit hc, if_neg hnot]
      exact ih hdigits _ hmax

/-- The digits of a number of 64 bits are read as that number. -/
theorem number_toDigits (n : UInt64) :
    number false (Nat.toDigits 10 n.toNat) = .ok (.natural n, []) := by
  have hdigits : ∀ c ∈ Nat.toDigits 10 n.toNat, c.isDigit = true :=
    fun c => char_isDigit_of_mem_toDigits
  have hvalue : Nat.ofDigitChars 10 (Nat.toDigits 10 n.toNat) 0 = n.toNat :=
    Nat.ofDigitChars_toDigits (by decide) (by decide)
  have hread := wholeDigits_digits _ hdigits 0 (by
    rw [hvalue]
    exact Nat.le_of_lt_succ n.toNat_lt)
  rw [hvalue, UInt64.ofNat_toNat] at hread
  match hn : Nat.toDigits 10 n.toNat with
  | [] => exact absurd hn Nat.toDigits_ne_nil
  | c :: more =>
      -- only zero begins with a zero
      by_cases hc : c = '0'
      · subst hc
        have hzero : n.toNat = 0 := eq_zero_of_toDigits hn
        rw [hzero, Nat.toDigits_zero] at hn
        obtain rfl := (List.cons.inj hn).2
        obtain rfl : n = 0 := UInt64.toNat_inj.mp hzero
        rfl
      · rw [hn] at hread hdigits
        rw [number]
        · rw [if_pos (isDigit_of_char_isDigit (hdigits c List.mem_cons_self)), hread]
        · exact hc

/-- What is printed for a natural number is a numeral. -/
theorem exists_numeral (n : UInt64) : ∃ numeral : Numeral,
    numeral.text = (Number.natural n).text ∧ numeral.value? = some (.natural n) := by
  have hnumber := number_toDigits n
  have hdigits : ∀ c ∈ Nat.toDigits 10 n.toNat, isDigit c = true :=
    fun c h => isDigit_of_char_isDigit (char_isDigit_of_mem_toDigits h)
  match hn : Nat.toDigits 10 n.toNat with
  | [] => exact absurd hn Nat.toDigits_ne_nil
  | first :: more =>
      rw [hn] at hdigits hnumber
      obtain ⟨hfirst, hmore⟩ := List.forall_mem_cons.mp hdigits
      have hback : digitsText (more.pmap Subtype.mk hmore) = more := by
        simp [digitsText, List.map_pmap]
      have hzero : first = '0' → more.pmap Subtype.mk hmore = [] := by
        rintro rfl
        rw [eq_zero_of_toDigits hn, Nat.toDigits_zero] at hn
        obtain rfl := (List.cons.inj hn).2
        rfl
      let numeral : Numeral :=
        { isNegative := false, first := ⟨first, hfirst⟩, more := more.pmap Subtype.mk hmore,
          zero_alone := hzero }
      have hbody : numeral.body = first :: more := by
        simp [numeral, Numeral.body, Numeral.tail, Numeral.fractionText, Numeral.exponentText,
          hback]
      refine ⟨numeral, ?_, ?_⟩
      · rw [Numeral.text, hbody, Number.text, toList_toString, hn]
        rfl
      · rw [Numeral.value?, hbody, hnumber]
        rfl

/-! ### Layouts -/

/-- The blanks that a layout puts between tokens. -/
structure Layout.Blanks (layout : Layout) where
  lineBreak : Nat → List Blank
  afterColon : List Blank
  text_lineBreak : ∀ depth, blanksText (lineBreak depth) = layout.lineBreak depth
  text_afterColon : blanksText afterColon = layout.afterColon

/-- Compact text has no blanks. -/
def Layout.compactBlanks : Layout.compact.Blanks where
  lineBreak _ := []
  afterColon := []
  text_lineBreak _ := rfl
  text_afterColon := rfl

/-- Pretty text has line ends and spaces. -/
def Layout.prettyBlanks : Layout.pretty.Blanks where
  lineBreak depth := ⟨'\n', rfl⟩ :: List.replicate (2 * depth) ⟨' ', rfl⟩
  afterColon := [⟨' ', rfl⟩]
  text_lineBreak depth := by simp [blanksText, Layout.pretty]
  text_afterColon := rfl

/-! ### Trees

The statement is about any depth and any blanks around, because inside a container a value is
printed at a greater depth and with the blanks of its place. -/

/-- No blanks. -/
def Spacing.none : Spacing := ⟨[], []⟩

/-- What is printed for a tree at any depth, between any blanks, says what the tree says. -/
def Prints (layout : Layout) (tree : Tree) : Prop :=
  ∀ depth around, ∃ s : Source, s.around = around ∧ s.core = treeText layout depth tree ∧
    s.content = tree.content

section

variable {layout : Layout}

/-- The elements of an array, with the blanks before its end after the last of them. -/
theorem elements_print (blanks : layout.Blanks) {tree : Tree} {more : List Tree}
    (h : ∀ e ∈ tree :: more, Prints layout e) (depth : Nat) (close : List Blank) :
    ∃ es : List Source,
      (∀ first, Source.listText first es = (if first then [] else [',']) ++
        (layout.lineBreak depth ++ treeText layout depth tree ++ elementsText layout depth more ++
          blanksText close)) ∧
      Source.contents es = Tree.contents (tree :: more) := by
  induction more generalizing tree with
  | nil =>
      obtain ⟨s, haround, hcore, hcontent⟩ :=
        h tree List.mem_cons_self depth ⟨blanks.lineBreak depth, close⟩
      refine ⟨[s], fun first => ?_, ?_⟩
      · simp only [Source.listText, haround, hcore, blanks.text_lineBreak, elementsText,
          List.append_nil, List.append_assoc]
      · simp only [Source.contents, Tree.contents, hcontent]
  | cons next more ih =>
      obtain ⟨htree, hmore⟩ := List.forall_mem_cons.mp h
      obtain ⟨s, haround, hcore, hcontent⟩ := htree depth ⟨blanks.lineBreak depth, []⟩
      obtain ⟨es, htext, hcontents⟩ := ih hmore
      refine ⟨s :: es, fun first => ?_, ?_⟩
      · simp only [Source.listText, haround, hcore, htext, blanks.text_lineBreak, elementsText,
          blanksText_nil, List.append_nil, List.append_assoc, Bool.false_eq_true,
          if_false, List.cons_append, List.nil_append]
      · rw [Source.contents, Tree.contents, hcontent, hcontents]

/-- The members of an object, with the blanks before its end after the last of them. -/
theorem members_print (blanks : layout.Blanks) {name : String} {tree : Tree}
    {more : List (String × Tree)} (h : ∀ member ∈ (name, tree) :: more, Prints layout member.2)
    (depth : Nat) (close : List Blank) :
    ∃ ms : List (MemberName × Source),
      (∀ first, Source.membersText first ms = (if first then [] else [',']) ++
        (layout.lineBreak depth ++ stringText name ++ ':' :: layout.afterColon ++
          treeText layout depth tree ++ membersText layout depth more ++ blanksText close)) ∧
      Source.memberContents ms = Tree.memberContents ((name, tree) :: more) := by
  induction more generalizing name tree with
  | nil =>
      obtain ⟨s, haround, hcore, hcontent⟩ :=
        h (name, tree) List.mem_cons_self depth ⟨blanks.afterColon, close⟩
      obtain ⟨parts, hparts, hname⟩ := exists_parts name
      refine ⟨[(⟨⟨blanks.lineBreak depth, []⟩, parts⟩, s)], fun first => ?_, ?_⟩
      · simp only [Source.membersText, MemberName.text, haround, hcore, hparts,
          blanks.text_lineBreak, blanks.text_afterColon, membersText, blanksText_nil,
          List.append_nil, List.append_assoc, List.cons_append, List.nil_append]
      · simp only [Source.memberContents, Tree.memberContents, hname, hcontent]
  | cons next more ih =>
      obtain ⟨nextName, nextTree⟩ := next
      obtain ⟨htree, hmore⟩ := List.forall_mem_cons.mp h
      obtain ⟨s, haround, hcore, hcontent⟩ := htree depth ⟨blanks.afterColon, []⟩
      obtain ⟨parts, hparts, hname⟩ := exists_parts name
      obtain ⟨ms, htext, hcontents⟩ := ih hmore
      refine ⟨(⟨⟨blanks.lineBreak depth, []⟩, parts⟩, s) :: ms, fun first => ?_, ?_⟩
      · simp only [Source.membersText, MemberName.text, haround, hcore, hparts, htext,
          blanks.text_lineBreak, blanks.text_afterColon, membersText, blanksText_nil,
          List.append_nil, List.append_assoc, List.cons_append, List.nil_append,
          Bool.false_eq_true, if_false]
      · rw [Source.memberContents, Tree.memberContents, hname, hcontent, hcontents]

/-- Whatever is printed is a source that says it. -/
theorem Tree.Natural.prints {tree : Tree} (h : tree.Natural) (blanks : layout.Blanks) :
    Prints layout tree := by
  induction h with
  | null => exact fun _ around => ⟨.scalar around .null, rfl, rfl, rfl⟩
  | boolean value =>
      exact fun _ around => ⟨.scalar around (.boolean value), rfl, by cases value <;> rfl, rfl⟩
  | number value =>
      obtain ⟨numeral, htext, hvalue⟩ := exists_numeral value
      refine fun _ around => ⟨.scalar around (.number numeral), rfl, htext, ?_⟩
      rw [Source.content, Source.scalarContent, hvalue, content]
  | text value =>
      obtain ⟨parts, htext, hvalue⟩ := exists_parts value
      refine fun _ around => ⟨.scalar around (.text parts), rfl, htext, ?_⟩
      rw [Source.content, Source.scalarContent, hvalue, content]
  | @array elements _ ih =>
      intro depth around
      cases elements with
      | nil => exact ⟨.array around [] [], rfl, rfl, rfl⟩
      -- in a container that is not empty every element has a line of its own, and so has the
      -- closing bracket
      | cons tree more =>
          obtain ⟨es, htext, hcontents⟩ :=
            elements_print blanks ih (depth + 1) (blanks.lineBreak depth)
          refine ⟨.array around [] es, rfl, ?_, ?_⟩
          · simp only [Source.core, treeText, htext, blanks.text_lineBreak, blanksText_nil,
              List.nil_append, List.append_assoc, if_true]
          · rw [Source.content, content, hcontents]
  | @object members _ ih =>
      intro depth around
      cases members with
      | nil => exact ⟨.object around [] [], rfl, rfl, rfl⟩
      | cons member more =>
          obtain ⟨ms, htext, hcontents⟩ :=
            members_print blanks ih (depth + 1) (blanks.lineBreak depth)
          refine ⟨.object around [] ms, rfl, ?_, ?_⟩
          · simp only [Source.core, treeText, htext, blanks.text_lineBreak, blanksText_nil,
              List.nil_append, List.append_assoc, List.cons_append, if_true]
          · rw [Source.content, content, hcontents]

/-- The text of a tree in a layout that puts blanks between its tokens, with blanks around
it, is a JSON text that says what the tree says. -/
theorem exists_source_render (blanks : layout.Blanks) {tree : Tree} (h : tree.Natural)
    (around : Spacing) :
    ∃ s : Source,
      s.text = blanksText around.before ++ (tree.render layout).toList ++
        blanksText around.after ∧
      s.content = tree.content := by
  obtain ⟨s, haround, hcore, hcontent⟩ := h.prints blanks 0 around
  refine ⟨s, ?_, hcontent⟩
  rw [Source.text, haround, hcore, Tree.render, String.toList_ofList]

end

/-- The compact text of a tree is a JSON text that says what the tree says. -/
theorem exists_source_compact {tree : Tree} (h : tree.Natural) :
    ∃ s : Source, s.text = tree.compact.toList ∧ s.content = tree.content := by
  obtain ⟨s, htext, hcontent⟩ := exists_source_render Layout.compactBlanks h .none
  refine ⟨s, ?_, hcontent⟩
  rw [htext, Tree.compact, Spacing.none]
  exact List.append_nil _

end MessageExport.Json
