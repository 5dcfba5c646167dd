import MessageExport.Json.Reader.Skip
import MessageExport.Proofs.Json.Source
/-!
# MessageExport.Proofs.Json.Strings

Reading and passing over the **words and strings** of a JSON text.

Each lemma says what a reader does with the text of a token and whatever follows it: it
leaves just that, and finds the value of the token, or nothing if that has none. What
went wrong is of no interest here, so results are compared as options.
-/

namespace MessageExport

/-! ### Success -/

section

variable {ε δ α β : Type}

@[simp] theorem toOption_ok (a : α) : (Except.ok a : Except ε α).toOption = some a := rfl

@[simp] theorem toOption_error (e : ε) : (Except.error e : Except ε α).toOption = none := rfl

/-- One step after another succeeds if both do. -/
@[simp] theorem toOption_bind (x : Except ε α) (f : α → Except ε β) :
    (x >>= f).toOption = x.toOption.bind fun a => (f a).toOption := by
  cases x <;> rfl

@[simp] theorem toOption_map (x : Except ε α) (f : α → β) :
    (x.map f).toOption = x.toOption.map f := by
  cases x <;> rfl

/-- How a failure is reported does not matter for success. -/
@[simp] theorem toOption_mapError (x : Except ε α) (f : ε → δ) :
    (x.mapError f).toOption = x.toOption := by
  cases x <;> rfl

theorem toOption_eq_some {x : Except ε α} {a : α} : x.toOption = some a ↔ x = .ok a := by
  cases x <;> simp

end

namespace Json

open MessageExport.Text (hexDigit? digit?)

/-! ### Blanks -/

/-- Blanks are trimmed off, up to the first character that is none. -/
theorem trim_blanksText_append (blanks : List Blank) (s : List Char) :
    trim (blanksText blanks ++ s) = trim s := by
  induction blanks with
  | nil => rfl
  | cons blank blanks ih =>
      unfold trim blanksText at *
      rw [List.map_cons, List.cons_append, List.dropWhile_cons_of_pos blank.property]
      exact ih

theorem trim_cons_of_not_isBlank {c : Char} (h : isBlank c = false) (s : List Char) :
    trim (c :: s) = c :: s := by
  unfold trim
  rw [List.dropWhile_cons_of_neg (by simp [h])]

/-! ### Escapes

A numeric escape that is the first half of a surrogate pair needs another one behind it. Which
one is wanted shows only when it has been read, so each of the readers is taken apart by what
follows. -/

/-- A hexadecimal digit has a value. -/
theorem HexDigit.hexDigit?_eq (d : HexDigit) : hexDigit? d.val = some d.value := by
  simp [HexDigit.value]

/-- A hexadecimal digit takes up one byte. -/
theorem HexDigit.utf8Size_eq (d : HexDigit) : d.val.utf8Size = 1 := by
  obtain ⟨c, h⟩ := d
  have hle : c.val ≤ 127 := by
    unfold hexDigit? digit? at h
    split at h
    · rename_i hc
      exact Nat.le_trans hc.2 (by decide)
    · split at h
      · rename_i hc
        exact Nat.le_trans hc.2 (by decide)
      · split at h
        · rename_i hc
          exact Nat.le_trans hc.2 (by decide)
        · cases h
  unfold Char.utf8Size
  exact if_pos hle

/-- Four hexadecimal digits have a value. -/
theorem quad?_text (q : HexQuad) :
    quad? q.a.val q.b.val q.c.val q.d.val = some q.value := by
  simp only [quad?, HexDigit.hexDigit?_eq, bind, Option.bind, HexQuad.value]

/-- Four hexadecimal digits are read as their number. -/
theorem quad_text_append (q : HexQuad) (rest : List Char) :
    quad (q.text ++ rest) = .ok (q.value, rest) := by
  have hbytes : byteCount ((q.text ++ rest).take 4) = 4 := by
    simp [HexQuad.text, HexDigit.utf8Size_eq]
  unfold quad
  rw [if_neg (by omega)]
  simp only [HexQuad.text, List.cons_append, List.nil_append, quad?_text]

/-- A letter that makes a short escape is not the one of a numeric escape. -/
theorem ne_u_of_shortEscape? {letter : Char} (h : (shortEscape? letter).isSome = true) :
    letter ≠ 'u' := by
  rintro rfl
  revert h
  decide

/-- A short escape is read as its character. -/
theorem escape_short {letter : Char} (h : (shortEscape? letter).isSome = true)
    (rest : List Char) : escape (letter :: rest) = .ok ((shortEscape? letter).get h, rest) := by
  obtain ⟨e, he⟩ := Option.isSome_iff_exists.mp h
  have hletter := ne_u_of_shortEscape? h
  unfold escape
  split
  · rename_i heq
    cases heq
  · rename_i heq
    cases heq
    exact absurd rfl hletter
  · rename_i heq
    cases heq
    simp only [he, Option.get_some]

/-- A numeric escape reads its four digits first. -/
theorem escape_unit (q : HexQuad) (rest : List Char) :
    escape ('u' :: (q.text ++ rest)) =
      if isTrailing q.value then .error (Fault.loneSurrogate.here rest)
      else if isLeading q.value then trailingHalf q.value rest
      else .ok (Char.ofNat q.value, rest) := by
  simp only [escape, numericEscape, quad_text_append]
  rfl

/-- No second half of a surrogate pair begins without a backslash. -/
theorem trailingHalf_of_ne_backslash {c : Char} (h : c ≠ '\\') (leading : Nat)
    (rest : List Char) : (trailingHalf leading (c :: rest)).toOption = none := by
  unfold trailingHalf
  split <;> simp_all

/-- No second half of a surrogate pair is a short escape. -/
theorem trailingHalf_of_ne_u {letter : Char} (h : letter ≠ 'u') (leading : Nat)
    (rest : List Char) : (trailingHalf leading ('\\' :: letter :: rest)).toOption = none := by
  unfold trailingHalf
  split <;> simp_all

/-- The second half of a pair is read with the first one, if it is one. -/
theorem trailingHalf_unit (leading : Nat) (q : HexQuad) (rest : List Char) :
    (trailingHalf leading ('\\' :: 'u' :: (q.text ++ rest))).toOption =
      if isTrailing q.value then some (pairChar leading q.value, rest) else none := by
  simp only [trailingHalf, quad_text_append, bind, Except.bind]
  split <;> rfl

/-! ### Strings

A string is read along its parts, by the induction that `partsValue?` goes by: the case of a
pair takes two parts at once. The budget is one of characters, and every part has at least one.
-/

@[simp] theorem partsText_nil : partsText [] = [] := rfl

@[simp] theorem partsText_cons (part : TextPart) (parts : List TextPart) :
    partsText (part :: parts) = part.text ++ partsText parts := rfl

/-- A character that stands for itself is read as it is. -/
theorem stringFrom_plain {c : Char} (hc : c ≠ '"' ∧ c ≠ '\\' ∧ ¬ c < ' ') (budget : Nat)
    (read rest : List Char) :
    stringFrom (budget + 1) read (c :: rest) = stringFrom budget (c :: read) rest := by
  rw [stringFrom, if_neg hc.1, if_neg hc.2.1, if_neg hc.2.2]

/-- An escape is read as its character. -/
theorem stringFrom_escape (budget : Nat) (read rest : List Char) :
    (stringFrom (budget + 1) read ('\\' :: rest)).toOption =
      (escape rest).toOption.bind fun e => (stringFrom budget (e.1 :: read) e.2).toOption := by
  rw [stringFrom, if_neg (by decide), if_pos rfl, toOption_bind]

/-- There is no second half where no numeric escape follows. -/
theorem trailingHalf_of_ne_unit {parts : List TextPart}
    (h : ∀ second more, parts = .unit second :: more → False) (leading : Nat)
    (rest : List Char) :
    (trailingHalf leading (partsText parts ++ '"' :: rest)).toOption = none := by
  cases parts with
  | nil => exact trailingHalf_of_ne_backslash (by decide) _ _
  | cons part more =>
      cases part with
      | plain c hc => exact trailingHalf_of_ne_backslash hc.2.1 _ _
      | short letter hletter => exact trailingHalf_of_ne_u (ne_u_of_shortEscape? hletter) _ _
      | unit second => exact absurd rfl (h second more)

/-- The parts of a string are read onto the characters read before them. -/
theorem stringFrom_parts (parts : List TextPart) (budget : Nat) (read rest : List Char)
    (hbudget : parts.length < budget) :
    (stringFrom budget read (partsText parts ++ '"' :: rest)).toOption =
      (partsValue? parts).map fun cs => (String.ofList (read.reverse ++ cs), rest) := by
  obtain ⟨budget, rfl⟩ := Nat.exists_eq_add_one_of_ne_zero (Nat.ne_zero_of_lt hbudget)
  fun_induction partsValue? parts generalizing budget read with
  | case1 => simp [stringFrom]
  | case2 c hc parts ih =>
      rw [List.length_cons] at hbudget
      obtain ⟨budget, rfl⟩ := Nat.exists_eq_add_one_of_ne_zero (n := budget) (by omega)
      rw [partsText_cons, TextPart.text, List.singleton_append, List.cons_append,
        stringFrom_plain hc, ih _ _ (by omega)]
      simp [Function.comp_def]
  | case3 letter h parts ih =>
      rw [List.length_cons] at hbudget
      obtain ⟨budget, rfl⟩ := Nat.exists_eq_add_one_of_ne_zero (n := budget) (by omega)
      simp only [partsText_cons, TextPart.text, List.cons_append, List.nil_append,
        stringFrom_escape, escape_short h, toOption_ok, Option.bind_some]
      rw [ih _ _ (by omega)]
      simp [Function.comp_def]
  -- a second half that comes first
  | case4 quad parts htrailing =>
      simp only [partsText_cons, TextPart.text, List.cons_append, List.append_assoc,
        stringFrom_escape, escape_unit, htrailing, if_true]
      rfl
  -- a pair
  | case5 quad htrailing hleading second parts hsecond ih =>
      rw [List.length_cons, List.length_cons] at hbudget
      obtain ⟨budget, rfl⟩ := Nat.exists_eq_add_one_of_ne_zero (n := budget) (by omega)
      simp only [partsText_cons, TextPart.text, List.cons_append, List.append_assoc,
        stringFrom_escape, escape_unit, htrailing, hleading, if_true, if_false,
        trailingHalf_unit, hsecond, Option.bind_some, Bool.false_eq_true]
      rw [ih _ _ (by omega)]
      simp [Function.comp_def]
  -- a first half with some other numeric escape behind it
  | case6 quad htrailing hleading second parts hsecond =>
      simp only [partsText_cons, TextPart.text, List.cons_append, List.append_assoc,
        stringFrom_escape, escape_unit, htrailing, hleading, if_true, if_false,
        trailingHalf_unit, hsecond, Bool.false_eq_true]
      rfl
  -- a first half with no numeric escape behind it
  | case7 quad parts htrailing hleading hparts =>
      simp only [partsText_cons, TextPart.text, List.cons_append, List.append_assoc,
        stringFrom_escape, escape_unit, htrailing, hleading, if_true, if_false,
        Bool.false_eq_true]
      rw [trailingHalf_of_ne_unit hparts]
      rfl
  | case8 quad parts htrailing hleading ih =>
      rw [List.length_cons] at hbudget
      obtain ⟨budget, rfl⟩ := Nat.exists_eq_add_one_of_ne_zero (n := budget) (by omega)
      simp only [partsText_cons, TextPart.text, List.cons_append, List.append_assoc,
        stringFrom_escape, escape_unit, htrailing, hleading, if_false, toOption_ok,
        Option.bind_some, Bool.false_eq_true]
      rw [ih _ _ (by omega)]
      simp [Function.comp_def]

/-- There are no more parts than characters. -/
theorem length_le_partsText (parts : List TextPart) :
    parts.length ≤ (partsText parts).length := by
  induction parts with
  | nil => exact Nat.le_refl _
  | cons part parts ih =>
      have hpart : 1 ≤ part.text.length := by cases part <;> simp [TextPart.text]
      rw [partsText_cons, List.length_append, List.length_cons]
      omega

/-- A string is read as what its parts stand for. -/
theorem string_parts (parts : List TextPart) (rest : List Char) :
    (string (partsText parts ++ '"' :: rest)).toOption =
      (partsString? parts).map fun s => (s, rest) := by
  have hlength := length_le_partsText parts
  have hbudget : parts.length < (partsText parts ++ '"' :: rest).length := by
    rw [List.length_append, List.length_cons]
    omega
  rw [string, stringFrom_parts parts _ [] rest hbudget, partsString?, Option.map_map]
  rfl

/-- A short escape is passed over. -/
theorem skipEscape_short {letter : Char} (h : (shortEscape? letter).isSome = true)
    (rest : List Char) : skipEscape (letter :: rest) = .ok rest := by
  have hletter := ne_u_of_shortEscape? h
  unfold skipEscape
  split
  · rename_i heq
    cases heq
  · rename_i heq
    cases heq
    exact absurd rfl hletter
  · rename_i heq
    cases heq
    rw [if_pos h]

/-- The parts of a string are passed over one by one; halves of pairs need not match. -/
theorem skipStringFrom_parts (parts : List TextPart) (budget : Nat) (rest : List Char)
    (hbudget : parts.length < budget) :
    skipStringFrom budget (partsText parts ++ '"' :: rest) = .ok rest := by
  induction parts generalizing budget with
  | nil =>
      obtain ⟨budget, rfl⟩ := Nat.exists_eq_add_one_of_ne_zero (Nat.ne_zero_of_lt hbudget)
      rfl
  | cons part parts ih =>
      obtain ⟨budget, rfl⟩ := Nat.exists_eq_add_one_of_ne_zero (Nat.ne_zero_of_lt hbudget)
      rw [List.length_cons] at hbudget
      have hrest := ih budget (by omega)
      cases part with
      | plain c hc =>
          rw [partsText_cons, TextPart.text, List.singleton_append, List.cons_append,
            skipStringFrom, if_neg hc.1, if_neg hc.2.1, if_neg hc.2.2, hrest]
      | short letter h =>
          simp only [partsText_cons, TextPart.text, List.cons_append, List.nil_append,
            skipStringFrom, skipEscape_short h, bind, Except.bind, hrest]
          rfl
      | unit quad =>
          simp only [partsText_cons, TextPart.text, List.cons_append, List.append_assoc,
            skipStringFrom, skipEscape, quad_text_append, bind, Except.bind, hrest]
          rfl

/-- A string is passed over whatever its parts stand for. -/
theorem skipString_parts (parts : List TextPart) (rest : List Char) :
    skipString (partsText parts ++ '"' :: rest) = .ok rest := by
  have hlength := length_le_partsText parts
  refine skipStringFrom_parts parts _ rest ?_
  rw [List.length_append, List.length_cons]
  omega

end Json

end MessageExport
