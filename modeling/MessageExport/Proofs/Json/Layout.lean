import MessageExport.Proofs.Json.Printing
import MessageExport.Text.Blank
/-!
# MessageExport.Proofs.Json.Layout

A layout adds **blanks outside strings** and nothing else.

To say so, a text is read by a scanner that only knows where strings begin and end. A
text *spreads* another if the scanner, which drops the blanks outside strings, makes the
other of it. That goes piece by piece, as long as each piece begins where the one before
it left the scanner, and a string leaves it outside: every quote in it is escaped.
-/

namespace MessageExport.Json

open MessageExport.Text

/-! ### The scanner

Three states are enough to tell strings from the rest: outside, inside, and right behind a
backslash. -/

/-- Where the scanner of a text stands. -/
inductive Region where
  | outside
  | inside
  /-- Inside a string, after a backslash. -/
  | escaped
  deriving DecidableEq

namespace Region

/-- Where the scanner stands after a character. -/
def next : Region → Char → Region
  | outside, c => if c = '"' then inside else outside
  | inside, c => if c = '"' then outside else if c = '\\' then escaped else inside
  | escaped, _ => inside

/-- The text without the blanks that are outside its strings. -/
def squeeze : Region → List Char → List Char
  | _, [] => []
  | region, c :: rest =>
      if region = outside ∧ Text.isBlank c then squeeze (region.next c) rest
      else c :: squeeze (region.next c) rest

/-- One text and another are scanned one after the other, the second from where the first left
the scanner. -/
theorem squeeze_append (region : Region) (text rest : List Char) :
    region.squeeze (text ++ rest) =
      region.squeeze text ++ (text.foldl next region).squeeze rest := by
  induction text generalizing region with
  | nil => rfl
  | cons c text ih =>
      simp only [List.cons_append, squeeze, List.foldl_cons, ih]
      split <;> rfl

end Region

/-- A JSON text without the blanks that are outside its strings. -/
def squeezed (text : String) : String :=
  String.ofList (Region.outside.squeeze text.toList)

/-! ### Spreading -/

/-- A character that is kept wherever it stands outside strings. -/
def isSolid (c : Char) : Bool :=
  c != '"' && !Text.isBlank c && 0x20 ≤ c.toNat

theorem isSolid_iff {c : Char} :
    isSolid c = true ↔ c ≠ '"' ∧ Text.isBlank c = false ∧ 0x20 ≤ c.toNat := by
  simp [isSolid, and_assoc]

/-- Between two places, a text is what is kept of it with blanks outside strings, and
what is kept has no control characters. -/
structure Spreads (start stop : Region) (text kept : List Char) : Prop where
  squeeze_eq : start.squeeze text = kept
  foldl_next : text.foldl Region.next start = stop
  visible : ∀ c ∈ kept, 0x20 ≤ c.toNat

namespace Spreads

variable {start middle stop : Region} {text text' kept kept' : List Char} {c : Char}

theorem nil : Spreads start start [] [] :=
  ⟨rfl, rfl, nofun⟩

theorem append (h : Spreads start middle text kept) (h' : Spreads middle stop text' kept') :
    Spreads start stop (text ++ text') (kept ++ kept') where
  squeeze_eq := by rw [Region.squeeze_append, h.squeeze_eq, h.foldl_next, h'.squeeze_eq]
  foldl_next := by rw [List.foldl_append, h.foldl_next, h'.foldl_next]
  visible := List.forall_mem_append.mpr ⟨h.visible, h'.visible⟩

/-- Blanks outside strings are dropped. -/
theorem blanks (h : ∀ c ∈ text, Text.isBlank c = true) : Spreads .outside .outside text [] := by
  induction text with
  | nil => exact nil
  | cons c text ih =>
      obtain ⟨hc, htext⟩ := List.forall_mem_cons.mp h
      have hquote : c ≠ '"' := by
        rintro rfl
        cases hc
      have hdrop : Spreads .outside .outside [c] [] :=
        ⟨by simp [Region.squeeze, hc], by simp [Region.next, hquote], nofun⟩
      exact hdrop.append (ih htext)

/-- Anything else is kept. -/
theorem char (hkept : start = .outside → Text.isBlank c = false) (hvisible : 0x20 ≤ c.toNat) :
    Spreads start (start.next c) [c] [c] where
  squeeze_eq := by
    have hdrop : ¬ (start = .outside ∧ Text.isBlank c = true) := by
      rintro ⟨hstart, hblank⟩
      rw [hkept hstart] at hblank
      cases hblank
    simp only [Region.squeeze, if_neg hdrop]
  foldl_next := rfl
  visible := by simpa using hvisible

/-- A character that needs no escape stays in a string. -/
theorem plain (hquote : c ≠ '"') (hbackslash : c ≠ '\\') (hvisible : 0x20 ≤ c.toNat) :
    Spreads .inside .inside [c] [c] := by
  have h : Spreads .inside (Region.inside.next c) [c] [c] := char nofun hvisible
  rwa [Region.next, if_neg hquote, if_neg hbackslash] at h

/-- A word, such as a number, is kept. -/
theorem word (h : text.all isSolid = true) :
    Spreads .outside .outside text text := by
  induction text with
  | nil => exact nil
  | cons c text ih =>
      rw [List.all_cons, Bool.and_eq_true] at h
      obtain ⟨hquote, hblank, hvisible⟩ := isSolid_iff.mp h.1
      have hc : Spreads .outside (Region.outside.next c) [c] [c] := char (fun _ => hblank) hvisible
      rw [Region.next, if_neg hquote] at hc
      exact hc.append (ih h.2)

end Spreads

/-! ### Strings and numbers -/

/-- What is printed for a character stays in the string. -/
theorem spreads_escapedChar (c : Char) :
    Spreads .inside .inside (escapedChar c) (escapedChar c) := by
  unfold escapedChar
  split
  · exact ⟨rfl, rfl, by simp⟩
  · exact ⟨rfl, rfl, by simp⟩
  · exact ⟨rfl, rfl, by simp⟩
  · exact ⟨rfl, rfl, by simp⟩
  · exact ⟨rfl, rfl, by simp⟩
  · exact ⟨rfl, rfl, by simp⟩
  · exact ⟨rfl, rfl, by simp⟩
  · rename_i hquote hbackslash _ _ _ _ _
    split
    · rename_i hcontrol
      have hlt : c.toNat < 32 := hcontrol
      have hescape : Spreads .inside .inside ['\\', 'u', '0', '0'] ['\\', 'u', '0', '0'] :=
        ⟨rfl, rfl, by simp⟩
      have hdigits : ∀ d : Fin 16, Nat.digitChar d ≠ '"' ∧ Nat.digitChar d ≠ '\\' ∧
          0x20 ≤ (Nat.digitChar d).toNat := by decide
      have hdigit (d : Fin 16) : Spreads .inside .inside [Nat.digitChar d] [Nat.digitChar d] :=
        .plain (hdigits d).1 (hdigits d).2.1 (hdigits d).2.2
      exact hescape.append
        ((hdigit ⟨c.toNat / 16, by omega⟩).append (hdigit ⟨c.toNat % 16, by omega⟩))
    · rename_i hvisible
      exact .plain hquote hbackslash (Nat.not_lt.mp hvisible)

/-- A string is kept, with the blanks in it. -/
theorem spreads_stringText (s : String) :
    Spreads .outside .outside (stringText s) (stringText s) := by
  have hopen : Spreads .outside .inside ['"'] ['"'] := ⟨rfl, rfl, by simp⟩
  have hclose : Spreads .inside .outside ['"'] ['"'] := ⟨rfl, rfl, by simp⟩
  have hinside (cs : List Char) :
      Spreads .inside .inside (cs.flatMap escapedChar) (cs.flatMap escapedChar) := by
    induction cs with
    | nil => exact .nil
    | cons c cs ih => exact (spreads_escapedChar c).append ih
  exact hopen.append ((hinside s.toList).append hclose)

/-- Digits are no blanks. -/
theorem spreads_natural (n : UInt64) :
    Spreads .outside .outside (Number.natural n).text (Number.natural n).text := by
  refine Spreads.word (List.all_eq_true.mpr fun c hc => isSolid_iff.mpr ?_)
  rw [Number.text, toList_toString] at hc
  have hdigit := char_isDigit_of_mem_toDigits hc
  have hbounds := toNat_of_isDigit hdigit
  have hquote : c ≠ '"' := by
    rintro rfl
    cases hdigit
  exact ⟨hquote, not_isBlank_of_isDigit hdigit, by omega⟩

/-! ### Trees -/

/-- The blanks of JSON are blanks. -/
theorem spreads_blanksText (blanks : List Blank) :
    Spreads .outside .outside (blanksText blanks) [] := by
  refine Spreads.blanks fun c hc => ?_
  obtain ⟨⟨c, hblank⟩, -, rfl⟩ := List.mem_map.mp hc
  simp only [isBlank, Bool.or_eq_true, beq_iff_eq] at hblank
  rcases hblank with ((rfl | rfl) | rfl) | rfl <;> rfl

/-- The text of a tree is its compact text with blanks between its tokens. -/
def SpreadsCompact (layout : Layout) (tree : Tree) : Prop :=
  ∀ depth depth', Spreads .outside .outside (treeText layout depth tree)
    (treeText .compact depth' tree)

section

variable {layout : Layout}

theorem Layout.Blanks.spreads_lineBreak (blanks : layout.Blanks) (depth depth' : Nat) :
    Spreads .outside .outside (layout.lineBreak depth) (Layout.compact.lineBreak depth') := by
  rw [← blanks.text_lineBreak]
  exact spreads_blanksText _

theorem Layout.Blanks.spreads_afterColon (blanks : layout.Blanks) :
    Spreads .outside .outside layout.afterColon Layout.compact.afterColon := by
  rw [← blanks.text_afterColon]
  exact spreads_blanksText _

/-- A mark between tokens is kept. -/
theorem spreads_mark {c : Char} (h : isSolid c = true) : Spreads .outside .outside [c] [c] :=
  .word (by rw [List.all_cons, h]; rfl)

/-- Elements are spread one by one, with the commas between them. -/
theorem elementsText_spreads (blanks : layout.Blanks) {elements : List Tree}
    (h : ∀ e ∈ elements, SpreadsCompact layout e) (depth depth' : Nat) :
    Spreads .outside .outside (elementsText layout depth elements)
      (elementsText .compact depth' elements) := by
  induction elements with
  | nil => exact .nil
  | cons tree more ih =>
      obtain ⟨htree, hmore⟩ := List.forall_mem_cons.mp h
      have hbreak := blanks.spreads_lineBreak depth depth'
      exact (spreads_mark rfl).append
        ((hbreak.append (htree depth depth')).append (ih hmore))

/-- A member is kept. -/
theorem memberText_spreads (blanks : layout.Blanks) (name : String) {tree : Tree}
    (h : SpreadsCompact layout tree) (depth depth' : Nat) :
    Spreads .outside .outside
      (layout.lineBreak depth ++ stringText name ++ ':' :: layout.afterColon ++
        treeText layout depth tree)
      (Layout.compact.lineBreak depth' ++ stringText name ++ ':' :: Layout.compact.afterColon ++
        treeText .compact depth' tree) := by
  have hbreak := blanks.spreads_lineBreak depth depth'
  have hcolon := (spreads_mark (c := ':') (by decide)).append blanks.spreads_afterColon
  exact ((hbreak.append (spreads_stringText name)).append hcolon).append (h depth depth')

/-- Members are spread one by one, with their names and the commas between them. -/
theorem membersText_spreads (blanks : layout.Blanks) {members : List (String × Tree)}
    (h : ∀ member ∈ members, SpreadsCompact layout member.2) (depth depth' : Nat) :
    Spreads .outside .outside (membersText layout depth members)
      (membersText .compact depth' members) := by
  induction members with
  | nil => exact .nil
  | cons member more ih =>
      obtain ⟨htree, hmore⟩ := List.forall_mem_cons.mp h
      exact (spreads_mark rfl).append
        ((memberText_spreads blanks member.1 htree depth depth').append (ih hmore))

/-- What a layout prints spreads the compact text. -/
theorem Tree.Natural.spreads {tree : Tree} (h : tree.Natural) (blanks : layout.Blanks) :
    SpreadsCompact layout tree := by
  induction h with
  | null =>
      have hword : ['n', 'u', 'l', 'l'].all isSolid = true := rfl
      exact fun _ _ => .word hword
  | boolean value =>
      have htrue : ['t', 'r', 'u', 'e'].all isSolid = true := rfl
      have hfalse : ['f', 'a', 'l', 's', 'e'].all isSolid = true := rfl
      intro depth depth'
      cases value with
      | false => exact .word hfalse
      | true => exact .word htrue
  | number value => exact fun _ _ => spreads_natural value
  | text value => exact fun _ _ => spreads_stringText value
  | @array elements _ ih =>
      intro depth depth'
      cases elements with
      | nil => exact (spreads_mark (c := '[') (by decide)).append (spreads_mark rfl)
      | cons tree more =>
          obtain ⟨htree, hmore⟩ := List.forall_mem_cons.mp ih
          have hfirst := (blanks.spreads_lineBreak (depth + 1) (depth' + 1)).append
            (htree (depth + 1) (depth' + 1))
          have hall := hfirst.append (elementsText_spreads blanks hmore (depth + 1) (depth' + 1))
          exact (spreads_mark rfl).append
            ((hall.append (blanks.spreads_lineBreak depth depth')).append
              (spreads_mark rfl))
  | @object members _ ih =>
      intro depth depth'
      cases members with
      | nil => exact (spreads_mark (c := '{') (by decide)).append (spreads_mark rfl)
      | cons member more =>
          obtain ⟨htree, hmore⟩ := List.forall_mem_cons.mp ih
          have hfirst := memberText_spreads blanks member.1 htree (depth + 1) (depth' + 1)
          have hall := hfirst.append (membersText_spreads blanks hmore (depth + 1) (depth' + 1))
          exact (spreads_mark rfl).append
            ((hall.append (blanks.spreads_lineBreak depth depth')).append
              (spreads_mark rfl))

/-- Without the blanks outside its strings, the text of a tree is its compact text, with
blanks after it as well. -/
theorem squeezed_render (blanks : layout.Blanks) {tree : Tree} (h : tree.Natural)
    (after : List Blank) :
    squeezed (tree.render layout ++ String.ofList (blanksText after)) = tree.compact := by
  have hspreads := (h.spreads blanks 0 0).append (spreads_blanksText after)
  rw [squeezed, String.toList_append, Tree.render, String.toList_ofList, String.toList_ofList,
    hspreads.squeeze_eq, List.append_nil, Tree.compact, Tree.render]

example : squeezed (Tree.object [("a \" b", .array [.text "\n", .array []])]).pretty =
    "\x7b\"a \\\" b\":[\"\\n\",[]]\x7d" := by decide

end

/-- Compact text has no control characters. -/
theorem visible_compact {tree : Tree} (h : tree.Natural) :
    ∀ c ∈ tree.compact.toList, 0x20 ≤ c.toNat := by
  rw [Tree.compact, Tree.render, String.toList_ofList]
  exact (h.spreads Layout.compactBlanks 0 0).visible

end MessageExport.Json
