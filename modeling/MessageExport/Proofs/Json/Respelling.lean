import Mathlib.Data.List.Basic
import MessageExport.Proofs.Json.Strings
/-!
# MessageExport.Proofs.Json.Respelling

**Respelling** a JSON text: more blanks between its tokens, and characters of its strings
written as numeric escapes. What the text says stays the same.

Blanks are no part of the content, so the one thing to be shown is about strings: a character
may be written as an escape in any place of a string (`partsString?_of_respellsText`). The parts
before that place are read first, and they might end in the first half of a surrogate pair,
which would take the next part for its second half. It does not: neither spelling of a character
begins with such a half (`StartsFresh`).
-/

namespace MessageExport.Json

/-! ### Strings -/

/-- The character that a part stands for on its own. -/
def TextPart.char? : TextPart → Option Char
  | plain c _ => some c
  | short letter _ => shortEscape? letter
  | unit quad =>
      if isTrailing quad.value || isLeading quad.value then none else some (Char.ofNat quad.value)

/-- One character of a string is written as a numeric escape, or as a pair of them. -/
inductive RespellsText : List TextPart → List TextPart → Prop where
  | unit (before after : List TextPart) {part : TextPart} {c : Char} {quad : HexQuad}
      (hpart : part.char? = some c) (hquad : quad.value = c.toNat) :
      RespellsText (before ++ part :: after) (before ++ .unit quad :: after)
  | pair (before after : List TextPart) {part : TextPart} {c : Char} {leading trailing : HexQuad}
      (hpart : part.char? = some c) (hleading : isLeading leading.value = true)
      (htrailing : isTrailing trailing.value = true)
      (hpair : pairChar leading.value trailing.value = c) :
      RespellsText (before ++ part :: after) (before ++ .unit leading :: .unit trailing :: after)

/-! ### Values -/

/-- Blanks are put in among others. -/
structure Spacing.Widens (a b : Spacing) : Prop where
  before : a.before.Sublist b.before
  after : a.after.Sublist b.after

/-- A name is respelled, or blanks are put in around it. -/
inductive MemberName.Respells : MemberName → MemberName → Prop where
  | spacing {around around' : Spacing} {parts : List TextPart} (h : around.Widens around') :
      Respells ⟨around, parts⟩ ⟨around', parts⟩
  | text {around : Spacing} {parts parts' : List TextPart} (h : RespellsText parts parts') :
      Respells ⟨around, parts⟩ ⟨around, parts'⟩

namespace Source

/-- A value between other blanks. -/
def withAround (s : Source) (around : Spacing) : Source :=
  match s with
  | .scalar _ value => scalar around value
  | .array _ inner elements => array around inner elements
  | .object _ inner members => object around inner members

/-- A value is respelled in one place, or blanks are put in between its tokens. -/
inductive Respells : Source → Source → Prop where
  | spacing {s : Source} {around : Spacing} (h : s.around.Widens around) :
      Respells s (s.withAround around)
  | arraySpacing {around : Spacing} {inner inner' : List Blank} {elements : List Source}
      (h : inner.Sublist inner') :
      Respells (array around inner elements) (array around inner' elements)
  | objectSpacing {around : Spacing} {inner inner' : List Blank}
      {members : List (MemberName × Source)} (h : inner.Sublist inner') :
      Respells (object around inner members) (object around inner' members)
  | text {around : Spacing} {parts parts' : List TextPart} (h : RespellsText parts parts') :
      Respells (scalar around (.text parts)) (scalar around (.text parts'))
  | name {around : Spacing} {inner : List Blank} (before after : List (MemberName × Source))
      {name name' : MemberName} {value : Source} (h : name.Respells name') :
      Respells (object around inner (before ++ (name, value) :: after))
        (object around inner (before ++ (name', value) :: after))
  | element {around : Spacing} {inner : List Blank} (before after : List Source)
      {e e' : Source} (h : Respells e e') :
      Respells (array around inner (before ++ e :: after))
        (array around inner (before ++ e' :: after))
  | member {around : Spacing} {inner : List Blank} (before after : List (MemberName × Source))
      {name : MemberName} {value value' : Source} (h : Respells value value') :
      Respells (object around inner (before ++ (name, value) :: after))
        (object around inner (before ++ (name, value') :: after))

end Source

/-! ### What stays the same

From the part that is respelled the equality is carried to the string, and from there to the
value, along the constructors of `Respells`. -/

/-- A character is no half of a surrogate pair. -/
theorem not_isSurrogate_toNat (c : Char) :
    isTrailing c.toNat = false ∧ isLeading c.toNat = false := by
  have hvalid : c.toNat < 0xD800 ∨ 0xDFFF < c.toNat := by
    rcases c.valid with h | h
    · exact .inl h
    · exact .inr h.1
  simp only [isTrailing, isLeading, Bool.and_eq_false_iff, decide_eq_false_iff_not]
  omega

/-- A part that stands for a character of its own puts that before the others. -/
theorem partsValue?_cons_of_char? {part : TextPart} {c : Char} (h : part.char? = some c)
    (parts : List TextPart) : partsValue? (part :: parts) = (partsValue? parts).map (c :: ·) := by
  cases part with
  | plain c' hc =>
      obtain rfl := Option.some.inj h
      rfl
  | short letter hletter =>
      have hget : (shortEscape? letter).get hletter = c := Option.get_of_eq_some _ h
      rw [partsValue?, hget]
  | unit quad =>
      simp only [TextPart.char?] at h
      split at h
      · cases h
      · rename_i hquad
        obtain rfl := Option.some.inj h
        simp only [Bool.or_eq_true, not_or] at hquad
        rw [partsValue?.eq_def]
        simp only [hquad.1, hquad.2, if_false, Bool.false_eq_true]

/-- The parts do not begin with the second half of a surrogate pair. -/
def StartsFresh (parts : List TextPart) : Prop :=
  ∀ quad more, parts = .unit quad :: more → isTrailing quad.value = false

/-- Parts that stand for the same characters do so behind any others. -/
theorem partsValue?_append {parts parts' : List TextPart} (hparts : StartsFresh parts)
    (hparts' : StartsFresh parts') (h : partsValue? parts = partsValue? parts')
    (before : List TextPart) :
    partsValue? (before ++ parts) = partsValue? (before ++ parts') := by
  -- the first half of a pair looks at the next part, which may be the first of `parts`
  have hnone {quad : HexQuad} (htrailing : ¬ isTrailing quad.value = true)
      (hleading : isLeading quad.value = true) {more : List TextPart}
      (hmore : StartsFresh more) : partsValue? (.unit quad :: more) = none := by
    rw [partsValue?.eq_def]
    simp only [htrailing, hleading, if_true, if_false, Bool.false_eq_true]
    split
    · rename_i second after
      rw [hmore second after rfl]
      rfl
    · rfl
  fun_induction partsValue? before with
  | case1 => exact h
  | case2 c hc before ih => simp [partsValue?, ih]
  | case3 letter hletter before ih => simp [partsValue?, ih]
  | case4 quad before htrailing =>
      rw [List.cons_append, List.cons_append, partsValue?.eq_def, partsValue?.eq_def]
      simp only [htrailing, if_true]
  | case5 quad htrailing hleading second before hsecond ih =>
      simp only [List.cons_append, partsValue?, htrailing, hleading, hsecond, if_true, ih]
  | case6 quad htrailing hleading second before hsecond =>
      simp only [List.cons_append, partsValue?, htrailing, hleading, hsecond, if_true, if_false,
        Bool.false_eq_true]
  -- the last part before the place is a first half, and both spellings leave it alone
  | case7 quad before htrailing hleading hbefore =>
      cases before with
      | nil => rw [List.cons_append, List.cons_append, List.nil_append, List.nil_append,
          hnone htrailing hleading hparts, hnone htrailing hleading hparts']
      | cons part before =>
          have hfresh (more : List TextPart) : StartsFresh (part :: (before ++ more)) := by
            intro second after heq
            exact absurd (List.cons.inj heq).1 (fun hpart => hbefore second before (by rw [hpart]))
          rw [List.cons_append, List.cons_append, List.cons_append, List.cons_append,
            hnone htrailing hleading (hfresh parts), hnone htrailing hleading (hfresh parts')]
  | case8 quad before htrailing hleading ih =>
      rw [List.cons_append, List.cons_append, partsValue?.eq_def, partsValue?.eq_def]
      simp only [htrailing, hleading, if_false, ih, Bool.false_eq_true]

/-- A part that stands for a character of its own is no half of a surrogate pair. -/
theorem startsFresh_of_char? {part : TextPart} {c : Char} (h : part.char? = some c)
    (parts : List TextPart) : StartsFresh (part :: parts) := by
  intro quad more heq
  obtain ⟨rfl, rfl⟩ := List.cons.inj heq
  simp only [TextPart.char?] at h
  split at h
  · cases h
  · rename_i hquad
    simp only [Bool.or_eq_true, not_or, Bool.not_eq_true] at hquad
    exact hquad.1

/-- Numeric escapes stand for the character that they write. -/
theorem partsString?_of_respellsText {parts parts' : List TextPart}
    (h : RespellsText parts parts') : partsString? parts' = partsString? parts := by
  unfold partsString?
  congr 1
  cases h with
  | @unit before after part c quad hpart hquad =>
      have hunit : TextPart.char? (.unit quad) = some c := by
        obtain ⟨htrailing, hleading⟩ := not_isSurrogate_toNat c
        simp [TextPart.char?, hquad, htrailing, hleading, Char.ofNat_toNat]
      refine partsValue?_append (startsFresh_of_char? hunit after)
        (startsFresh_of_char? hpart after) ?_ before
      rw [partsValue?_cons_of_char? hunit, partsValue?_cons_of_char? hpart]
  | @pair before after part c leading trailing hpart hleading htrailing hpair =>
      have hnot : isTrailing leading.value = false := by
        simp only [isLeading, isTrailing, Bool.and_eq_true, decide_eq_true_eq,
          Bool.and_eq_false_iff, decide_eq_false_iff_not] at hleading ⊢
        omega
      refine partsValue?_append (fun quad more heq => ?_) (startsFresh_of_char? hpart after) ?_
        before
      · obtain ⟨rfl, -⟩ := TextPart.unit.inj (List.cons.inj heq).1
        exact hnot
      · rw [partsValue?_cons_of_char? hpart]
        simp [partsValue?, hnot, hleading, htrailing, hpair]

namespace Source

@[simp] theorem content_withAround (s : Source) (around : Spacing) :
    (s.withAround around).content = s.content := by
  cases s <;> rfl

/-- The elements of an array say what they say one by one. -/
theorem contents_eq_map (elements : List Source) : contents elements = elements.map content := by
  induction elements with
  | nil => rfl
  | cons e more ih => rw [contents, ih, List.map_cons]

/-- The members of an object say what they say one by one. -/
theorem memberContents_eq_map (members : List (MemberName × Source)) :
    memberContents members =
      members.map fun member => (partsString? member.1.parts, member.2.content) := by
  induction members with
  | nil => rfl
  | cons member more ih => rw [memberContents, ih, List.map_cons]

/-- A respelled value says the same. -/
theorem content_of_respells {s t : Source} (h : Respells s t) : t.content = s.content := by
  induction h with
  | spacing h => exact content_withAround _ _
  | arraySpacing h => rfl
  | objectSpacing h => rfl
  | text h => simp only [content, scalarContent, partsString?_of_respellsText h]
  | name before after h =>
      cases h with
      | spacing h => simp only [content, memberContents_eq_map, List.map_append, List.map_cons]
      | text h =>
          simp only [content, memberContents_eq_map, List.map_append, List.map_cons,
            partsString?_of_respellsText h]
  | element before after h ih =>
      simp only [content, contents_eq_map, List.map_append, List.map_cons, ih]
  | member before after h ih =>
      simp only [content, memberContents_eq_map, List.map_append, List.map_cons, ih]

end Source

end MessageExport.Json
