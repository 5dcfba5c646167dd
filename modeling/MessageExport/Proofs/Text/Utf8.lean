import MessageExport.Text.Utf8
/-!
# MessageExport.Proofs.Text.Utf8

Bytes are a text exactly if they are its **encoding**.

A character that takes several bytes is read in two parts: its first byte says how many
follow and between which bounds the second one lies, and the others complete it
(`Completes`). The bounds are what keeps out long forms, surrogates and numbers past the
last character, so the number that is gathered is encoded as those very bytes again.

## Shape of the proofs

Both directions meet in `Completes`. A run of `chunksFrom` that ends in a character yields the
bytes that complete it (`completes_of_chunksFrom`), and what is completed is encoded as the
bytes that were read (`utf8EncodeChar_of_completes`). The other way round, an encoding begins
with a first byte and goes on with bytes that complete the character (`exists_completes`), which
a run then takes in (`chunksFrom_of_completes`). What is special about two, three and four bytes
is arithmetic: it is stated of the first byte in `begin?_two`, `begin?_three` and `begin?_four`,
over numbers, so `omega` closes the rest.

From one character to a text is an induction along the characters, with the chunks of what is
left in the hypothesis.
-/

namespace MessageExport.Text

namespace Utf8

/-! ### First bytes

A first byte is judged as a number. Which bounds the second byte has to keep is stated for all
numbers at once, so that a caller learns what a byte between them is without looking at the
bounds. -/

/-- Subtraction of bytes does not wrap around where it is subtraction of numbers. -/
theorem toNat_sub_of_le {a b : UInt8} (h : b.toNat ≤ a.toNat) :
    (a - b).toNat = a.toNat - b.toNat :=
  UInt8.toNat_sub_of_le a b (UInt8.le_iff_toNat_le.mpr h)

/-- A first byte of two: the second one may be any that goes on. -/
theorem begin?_two {b : UInt8} (hlow : 0xC2 ≤ b.toNat) (hhigh : b.toNat ≤ 0xDF) :
    begin? b = some ⟨[b], b.toNat - 0xC0, 1, 0x80, 0xBF⟩ := by
  have hbits : (b - 0xC0).toNat = b.toNat - 0xC0 :=
    toNat_sub_of_le (by simp only [UInt8.reduceToNat]; omega)
  simp only [begin?, UInt8.le_iff_toNat_le, UInt8.reduceToNat, hlow, hhigh, and_self, if_true,
    hbits]

/-- After `0xE0` the second byte keeps out long forms, after `0xED` surrogates. -/
theorem begin?_three {b : UInt8} (hlow : 0xE0 ≤ b.toNat) (hhigh : b.toNat ≤ 0xEF) :
    ∃ low high : UInt8, begin? b = some ⟨[b], b.toNat - 0xE0, 2, low, high⟩ ∧
      ∀ n, low.toNat ≤ n ∧ n ≤ high.toNat ↔ (0x80 ≤ n ∧ n ≤ 0xBF) ∧
        (b.toNat = 0xE0 → 0xA0 ≤ n) ∧ (b.toNat = 0xED → n ≤ 0x9F) := by
  have hbits : (b - 0xE0).toNat = b.toNat - 0xE0 :=
    toNat_sub_of_le (by simp only [UInt8.reduceToNat]; omega)
  simp only [begin?, UInt8.le_iff_toNat_le, ← UInt8.toNat_inj, UInt8.reduceToNat, hbits]
  rw [if_neg (by omega)]
  by_cases hfirst : b.toNat = 0xE0
  · -- less would be a long form
    refine ⟨0xA0, 0xBF, by simp [hfirst], fun n => ?_⟩
    simp only [UInt8.reduceToNat]
    omega
  · by_cases hsurrogate : b.toNat = 0xED
    · -- more would be a surrogate
      refine ⟨0x80, 0x9F, by simp [hsurrogate], fun n => ?_⟩
      simp only [UInt8.reduceToNat]
      omega
    · rw [if_neg hfirst, if_neg hsurrogate, if_pos (by omega)]
      refine ⟨0x80, 0xBF, rfl, fun n => ?_⟩
      simp only [UInt8.reduceToNat]
      omega

/-- After `0xF0` the second byte keeps out long forms, after `0xF4` numbers past the last
character. -/
theorem begin?_four {b : UInt8} (hlow : 0xF0 ≤ b.toNat) (hhigh : b.toNat ≤ 0xF4) :
    ∃ low high : UInt8, begin? b = some ⟨[b], b.toNat - 0xF0, 3, low, high⟩ ∧
      ∀ n, low.toNat ≤ n ∧ n ≤ high.toNat ↔ (0x80 ≤ n ∧ n ≤ 0xBF) ∧
        (b.toNat = 0xF0 → 0x90 ≤ n) ∧ (b.toNat = 0xF4 → n ≤ 0x8F) := by
  have hbits : (b - 0xF0).toNat = b.toNat - 0xF0 :=
    toNat_sub_of_le (by simp only [UInt8.reduceToNat]; omega)
  simp only [begin?, UInt8.le_iff_toNat_le, ← UInt8.toNat_inj, UInt8.reduceToNat, hbits]
  rw [if_neg (by omega), if_neg (by omega), if_neg (by omega), if_neg (by omega)]
  by_cases hfirst : b.toNat = 0xF0
  · -- less would be a long form
    refine ⟨0x90, 0xBF, by simp [hfirst], fun n => ?_⟩
    simp only [UInt8.reduceToNat]
    omega
  · by_cases hlast : b.toNat = 0xF4
    · -- more would be past the last character
      refine ⟨0x80, 0x8F, by simp [hlast], fun n => ?_⟩
      simp only [UInt8.reduceToNat]
      omega
    · rw [if_neg hfirst, if_pos (by omega)]
      refine ⟨0x80, 0xBF, rfl, fun n => ?_⟩
      simp only [UInt8.reduceToNat]
      omega

/-- What else begins a character is a character by itself. -/
theorem begin?_eq_none {b : UInt8} (h : ¬ (0xC2 ≤ b.toNat ∧ b.toNat ≤ 0xF4)) :
    begin? b = none := by
  simp only [begin?, UInt8.le_iff_toNat_le, ← UInt8.toNat_inj, UInt8.reduceToNat]
  rw [if_neg (by omega), if_neg (by omega), if_neg (by omega), if_neg (by omega),
    if_neg (by omega), if_neg (by omega), if_neg (by omega)]

/-! ### The bytes that complete a character -/

/-- The bytes that complete a pending character, and the number of the character. -/
inductive Completes : Pending → List UInt8 → Nat → Prop where
  | last {p : Pending} {b : UInt8} (hlow : p.low ≤ b) (hhigh : b ≤ p.high) (howed : p.owed ≤ 1) :
      Completes p [b] (p.bits * 64 + b.toNat % 64)
  | more {p : Pending} {b : UInt8} {bytes : List UInt8} {n : Nat} (hlow : p.low ≤ b)
      (hhigh : b ≤ p.high) (howed : 1 < p.owed)
      (hrest : Completes ⟨b :: p.seen, p.bits * 64 + b.toNat % 64, p.owed - 1, 0x80, 0xBF⟩
        bytes n) :
      Completes p (b :: bytes) n

/-- Bytes that complete a character are read as that character, whatever is behind them. -/
theorem chunksFrom_of_completes {p : Pending} {bytes : List UInt8} {n : Nat}
    (h : Completes p bytes n) (rest : List UInt8) :
    chunksFrom (some p) (bytes ++ rest) = .scalar (Char.ofNat n) :: chunksFrom none rest := by
  induction h with
  | last hlow hhigh howed =>
      rw [List.singleton_append, chunksFrom, step, if_pos ⟨hlow, hhigh⟩]
      simp only [if_pos howed, List.singleton_append]
  | more hlow hhigh howed _ ih =>
      rw [List.cons_append, chunksFrom, step, if_pos ⟨hlow, hhigh⟩]
      simp only [if_neg (Nat.not_le.mpr howed), List.nil_append, ih]

/-- If the first chunk is a character, then the bytes begin with some that complete it, and the
other chunks are those of the rest. -/
theorem completes_of_chunksFrom {p : Pending} {bytes : List UInt8} {c : Char}
    {tail : List Chunk} (h : chunksFrom (some p) bytes = .scalar c :: tail) :
    ∃ more rest n, bytes = more ++ rest ∧ Completes p more n ∧ c = Char.ofNat n ∧
      chunksFrom none rest = tail := by
  induction bytes generalizing p with
  | nil => cases h
  | cons b bytes ih =>
      rw [chunksFrom, step] at h
      split at h
      · rename_i hrange
        simp only at h
        split at h
        · rename_i howed
          obtain ⟨hc, htail⟩ := List.cons.inj h
          exact ⟨[b], bytes, _, rfl, .last hrange.1 hrange.2 howed, (Chunk.scalar.inj hc).symm,
            htail⟩
        · rename_i howed
          obtain ⟨more, rest, n, rfl, hmore, hc, htail⟩ := ih h
          exact ⟨b :: more, rest, n, rfl,
            .more hrange.1 hrange.2 (Nat.not_le.mp howed) hmore, hc, htail⟩
      · -- a byte out of bounds breaks the character off
        cases (List.cons.inj h).1

/-- The last byte of a character, by its number. -/
theorem completes_one_iff {seen bytes : List UInt8} {bits n : Nat} {low high : UInt8} :
    Completes ⟨seen, bits, 1, low, high⟩ bytes n ↔
      ∃ b, bytes = [b] ∧ n = bits * 64 + b.toNat % 64 ∧
        low.toNat ≤ b.toNat ∧ b.toNat ≤ high.toNat := by
  simp only [← UInt8.le_iff_toNat_le]
  constructor
  · intro h
    cases h with
    | last hlow hhigh _ => exact ⟨_, rfl, rfl, hlow, hhigh⟩
    | more _ _ howed _ => exact absurd howed (Nat.lt_irrefl 1)
  · rintro ⟨b, rfl, rfl, hlow, hhigh⟩
    exact .last hlow hhigh (Nat.le_refl 1)

/-- A byte of a character that is not the last one, by its number. -/
theorem completes_more_iff {seen bytes : List UInt8} {bits owed n : Nat} {low high : UInt8} :
    Completes ⟨seen, bits, owed + 2, low, high⟩ bytes n ↔
      ∃ b rest, bytes = b :: rest ∧ (low.toNat ≤ b.toNat ∧ b.toNat ≤ high.toNat) ∧
        Completes ⟨b :: seen, bits * 64 + b.toNat % 64, owed + 1, 0x80, 0xBF⟩ rest n := by
  simp only [← UInt8.le_iff_toNat_le]
  constructor
  · intro h
    cases h with
    | last _ _ howed => exact absurd howed (Nat.not_le.mpr (Nat.lt_add_left owed Nat.one_lt_two))
    | more hlow hhigh _ hrest => exact ⟨_, _, rfl, ⟨hlow, hhigh⟩, hrest⟩
  · rintro ⟨b, rest, rfl, ⟨hlow, hhigh⟩, hrest⟩
    exact .more hlow hhigh (Nat.lt_add_left owed Nat.one_lt_two) hrest

/-! ### The encoding of one character

The encoding takes a number apart by division, and reading it puts it together again. Either way
the numbers are within the bounds of the first byte, which is what the arithmetic needs. -/

/-- The number of a character that there is. -/
theorem val_ofNat {n : Nat} (h : n.isValidChar) : (Char.ofNat n).val.toNat = n := by
  rw [Char.ofNat, dif_pos h]
  rfl

/-- A byte by its number. -/
theorem ofNat_eq_of_toNat {n : Nat} {b : UInt8} (h : n = b.toNat) : UInt8.ofNat n = b := by
  rw [h, UInt8.ofNat_toNat]

/-- Two bytes within their bounds encode the number that is gathered from them. -/
theorem utf8EncodeChar_two {a b : UInt8} (ha : 0xC2 ≤ a.toNat ∧ a.toNat ≤ 0xDF)
    (hb : 0x80 ≤ b.toNat ∧ b.toNat ≤ 0xBF) :
    String.utf8EncodeChar (Char.ofNat ((a.toNat - 0xC0) * 64 + b.toNat % 64)) = [a, b] := by
  unfold String.utf8EncodeChar
  rw [val_ofNat (.inl (by omega))]
  simp only
  rw [if_neg (by omega), if_pos (by omega), ofNat_eq_of_toNat (b := a) (by omega),
    ofNat_eq_of_toNat (b := b) (by omega)]

/-- Three bytes: the bounds of the second one see to it that the number needs three and is no
surrogate. -/
theorem utf8EncodeChar_three {a b c : UInt8} (ha : 0xE0 ≤ a.toNat ∧ a.toNat ≤ 0xEF)
    (hb : 0x80 ≤ b.toNat ∧ b.toNat ≤ 0xBF) (hc : 0x80 ≤ c.toNat ∧ c.toNat ≤ 0xBF)
    (hfirst : a.toNat = 0xE0 → 0xA0 ≤ b.toNat) (hsurrogate : a.toNat = 0xED → b.toNat ≤ 0x9F) :
    String.utf8EncodeChar
      (Char.ofNat (((a.toNat - 0xE0) * 64 + b.toNat % 64) * 64 + c.toNat % 64)) = [a, b, c] := by
  unfold String.utf8EncodeChar
  rw [val_ofNat (by unfold Nat.isValidChar; omega)]
  simp only
  rw [if_neg (by omega), if_neg (by omega), if_pos (by omega),
    ofNat_eq_of_toNat (b := a) (by omega), ofNat_eq_of_toNat (b := b) (by omega),
    ofNat_eq_of_toNat (b := c) (by omega)]

/-- Four bytes: the bounds of the second one see to it that the number needs four and is one of
a character. -/
theorem utf8EncodeChar_four {a b c d : UInt8} (ha : 0xF0 ≤ a.toNat ∧ a.toNat ≤ 0xF4)
    (hb : 0x80 ≤ b.toNat ∧ b.toNat ≤ 0xBF) (hc : 0x80 ≤ c.toNat ∧ c.toNat ≤ 0xBF)
    (hd : 0x80 ≤ d.toNat ∧ d.toNat ≤ 0xBF)
    (hfirst : a.toNat = 0xF0 → 0x90 ≤ b.toNat) (hlast : a.toNat = 0xF4 → b.toNat ≤ 0x8F) :
    String.utf8EncodeChar (Char.ofNat
      ((((a.toNat - 0xF0) * 64 + b.toNat % 64) * 64 + c.toNat % 64) * 64 + d.toNat % 64)) =
        [a, b, c, d] := by
  unfold String.utf8EncodeChar
  rw [val_ofNat (by unfold Nat.isValidChar; omega)]
  simp only
  rw [if_neg (by omega), if_neg (by omega), if_neg (by omega),
    ofNat_eq_of_toNat (b := a) (by omega), ofNat_eq_of_toNat (b := b) (by omega),
    ofNat_eq_of_toNat (b := c) (by omega), ofNat_eq_of_toNat (b := d) (by omega)]

/-- A character that is completed is encoded as its first byte and those that completed it. -/
theorem utf8EncodeChar_of_completes {a : UInt8} {p : Pending} {bytes : List UInt8} {n : Nat}
    (hbegin : begin? a = some p) (h : Completes p bytes n) :
    String.utf8EncodeChar (Char.ofNat n) = a :: bytes := by
  by_cases hrange : 0xC2 ≤ a.toNat ∧ a.toNat ≤ 0xF4
  · by_cases htwo : a.toNat ≤ 0xDF
    · obtain rfl := Option.some.inj ((begin?_two hrange.1 htwo).symm.trans hbegin)
      obtain ⟨b, rfl, rfl, hb⟩ := completes_one_iff.mp h
      exact utf8EncodeChar_two ⟨hrange.1, htwo⟩ hb
    · by_cases hthree : a.toNat ≤ 0xEF
      · obtain ⟨low, high, ha, hsecond⟩ := begin?_three (b := a) (by omega) hthree
        obtain rfl := Option.some.inj (ha.symm.trans hbegin)
        obtain ⟨b, _, rfl, hb, h⟩ := completes_more_iff.mp h
        obtain ⟨c, rfl, rfl, hc⟩ := completes_one_iff.mp h
        obtain ⟨hb, hfirst, hsurrogate⟩ := (hsecond b.toNat).mp hb
        exact utf8EncodeChar_three (by omega) hb hc hfirst hsurrogate
      · obtain ⟨low, high, ha, hsecond⟩ := begin?_four (b := a) (by omega) hrange.2
        obtain rfl := Option.some.inj (ha.symm.trans hbegin)
        obtain ⟨b, _, rfl, hb, h⟩ := completes_more_iff.mp h
        obtain ⟨c, _, rfl, hc, h⟩ := completes_more_iff.mp h
        obtain ⟨d, rfl, rfl, hd⟩ := completes_one_iff.mp h
        obtain ⟨hb, hfirst, hlast⟩ := (hsecond b.toNat).mp hb
        exact utf8EncodeChar_four (by omega) hb hc hd hfirst hlast
  · rw [begin?_eq_none hrange] at hbegin
    cases hbegin

/-- A byte of an encoding that carries six bits. -/
theorem toNat_continuation (n : Nat) :
    (UInt8.ofNat (n % 64 + 128)).toNat = n % 64 + 128 := by
  rw [UInt8.toNat_ofNat']
  omega

/-- A character past the first half of the bytes is encoded as a byte that begins it and
bytes that complete it. -/
theorem exists_completes (c : Char) (h : 0x80 ≤ c.toNat) :
    ∃ a bytes p, String.utf8EncodeChar c = a :: bytes ∧ 0x80 ≤ a.toNat ∧ begin? a = some p ∧
      Completes p bytes c.toNat := by
  -- no surrogates: else three bytes would not do
  have hvalid : c.toNat.isValidChar := c.valid
  unfold Nat.isValidChar at hvalid
  have hval : c.val.toNat = c.toNat := rfl
  unfold String.utf8EncodeChar
  simp only [hval]
  rw [if_neg (by omega)]
  have hd := toNat_continuation c.toNat
  have hc := toNat_continuation (c.toNat / 64)
  have hb := toNat_continuation (c.toNat / 4096)
  by_cases htwo : c.toNat ≤ 2047
  · have ha : (UInt8.ofNat (c.toNat / 64 % 32 + 192)).toNat = c.toNat / 64 + 192 := by
      rw [UInt8.toNat_ofNat']
      omega
    rw [if_pos htwo]
    -- two bytes
    refine ⟨_, _, _, rfl, by omega, begin?_two (by omega) (by omega),
      completes_one_iff.mpr ⟨_, rfl, by omega, ?_⟩⟩
    simp only [UInt8.reduceToNat]
    omega
  · by_cases hthree : c.toNat ≤ 65535
    · have ha : (UInt8.ofNat (c.toNat / 4096 % 16 + 224)).toNat = c.toNat / 4096 + 224 := by
        rw [UInt8.toNat_ofNat']
        omega
      rw [if_neg htwo, if_pos hthree]
      -- three bytes
      obtain ⟨low, high, hbegin, hsecond⟩ :=
        begin?_three (b := UInt8.ofNat (c.toNat / 4096 % 16 + 224)) (by omega) (by omega)
      refine ⟨_, _, _, rfl, by omega, hbegin,
        completes_more_iff.mpr ⟨_, _, rfl, (hsecond _).mpr (by omega),
          completes_one_iff.mpr ⟨_, rfl, by omega, ?_⟩⟩⟩
      simp only [UInt8.reduceToNat]
      omega
    · have ha : (UInt8.ofNat (c.toNat / 262144 % 8 + 240)).toNat = c.toNat / 262144 + 240 := by
        rw [UInt8.toNat_ofNat']
        omega
      rw [if_neg htwo, if_neg hthree]
      -- four bytes
      obtain ⟨low, high, hbegin, hsecond⟩ :=
        begin?_four (b := UInt8.ofNat (c.toNat / 262144 % 8 + 240)) (by omega) (by omega)
      refine ⟨_, _, _, rfl, by omega, hbegin,
        completes_more_iff.mpr ⟨_, _, rfl, (hsecond _).mpr (by omega),
          completes_more_iff.mpr ⟨_, _, rfl, ?_,
            completes_one_iff.mpr ⟨_, rfl, by omega, ?_⟩⟩⟩⟩
      all_goals
        simp only [UInt8.reduceToNat]
        omega

/-! ### The encoding of a text

Chunks are read from left to right, and what is read of one character leaves the state in which
the next one begins. -/

/-- An encoded character is read as that character. -/
theorem chunksFrom_utf8EncodeChar (c : Char) (rest : List UInt8) :
    chunksFrom none (String.utf8EncodeChar c ++ rest) = .scalar c :: chunksFrom none rest := by
  by_cases hone : c.toNat < 0x80
  · have hval : c.val.toNat = c.toNat := rfl
    have hbyte : (UInt8.ofNat c.toNat).toNat = c.toNat := by
      rw [UInt8.toNat_ofNat']
      omega
    have hstart : start (UInt8.ofNat c.toNat) = (some (.scalar c), none) := by
      rw [start, if_pos (by rw [UInt8.lt_iff_toNat_lt, hbyte]; exact hone), hbyte, Char.ofNat_toNat]
    unfold String.utf8EncodeChar
    simp only [hval]
    rw [if_pos (by omega), List.singleton_append, chunksFrom, step, hstart]
    rfl
  · obtain ⟨a, bytes, p, hencode, ha, hbegin, hcompletes⟩ := exists_completes c (by omega)
    have hstart : start a = (none, some p) := by
      rw [start, if_neg (by rw [UInt8.lt_iff_toNat_lt]; exact Nat.not_lt.mpr ha), hbegin]
    rw [hencode, List.cons_append, chunksFrom, step, hstart]
    show chunksFrom (some p) (bytes ++ rest) = _
    rw [chunksFrom_of_completes hcompletes, Char.ofNat_toNat]

/-- Where a character is read first, its encoding stands first. -/
theorem utf8EncodeChar_of_chunksFrom {bytes : List UInt8} {c : Char} {tail : List Chunk}
    (h : chunksFrom none bytes = .scalar c :: tail) :
    ∃ rest, bytes = String.utf8EncodeChar c ++ rest ∧ chunksFrom none rest = tail := by
  cases bytes with
  | nil => cases h
  | cons b bytes =>
      rw [chunksFrom, step] at h
      unfold start at h
      split at h
      · rename_i hone
        obtain ⟨hc, htail⟩ := List.cons.inj h
        obtain rfl := Chunk.scalar.inj hc
        have hlt : b.toNat < 0x80 := UInt8.lt_iff_toNat_lt.mp hone
        refine ⟨bytes, ?_, htail⟩
        unfold String.utf8EncodeChar
        rw [val_ofNat (.inl (by omega))]
        simp only
        rw [if_pos (by omega), UInt8.ofNat_toNat]
        rfl
      · cases hbegin : begin? b with
        | none =>
            rw [hbegin] at h
            cases (List.cons.inj h).1
        | some p =>
            rw [hbegin] at h
            obtain ⟨more, rest, n, rfl, hcompletes, rfl, htail⟩ := completes_of_chunksFrom h
            refine ⟨rest, ?_, htail⟩
            rw [utf8EncodeChar_of_completes hbegin hcompletes]
            rfl

/-- What is pending comes to a chunk in the end. -/
theorem chunksFrom_some_ne_nil (p : Pending) (bytes : List UInt8) :
    chunksFrom (some p) bytes ≠ [] := by
  induction bytes generalizing p with
  | nil => exact List.cons_ne_nil _ _
  | cons b bytes ih =>
      rw [chunksFrom, step]
      split
      · simp only
        split
        · exact List.cons_ne_nil _ _
        · exact ih _
      · exact List.cons_ne_nil _ _

/-- Only no bytes have no chunks. -/
theorem eq_nil_of_chunksFrom {bytes : List UInt8} (h : chunksFrom none bytes = []) :
    bytes = [] := by
  cases bytes with
  | nil => rfl
  | cons b bytes =>
      rw [chunksFrom, step] at h
      unfold start at h
      split at h
      · cases h
      · cases hbegin : begin? b with
        | none =>
            rw [hbegin] at h
            cases h
        | some p =>
            rw [hbegin] at h
            exact absurd h (chunksFrom_some_ne_nil p bytes)

end Utf8

/-- The chunks of an encoded text are its characters. -/
theorem chunks_encode (s : String) : chunks (encode s) = s.toList.map Chunk.scalar := by
  unfold chunks encode
  induction s.toList with
  | nil => rfl
  | cons c rest ih =>
      rw [List.flatMap_cons, Utf8.chunksFrom_utf8EncodeChar, ih]
      rfl

/-- Bytes whose chunks are all characters are the encodings of these, one after another. -/
theorem flatMap_utf8EncodeChar_of_chunks {cs : List Char} {bytes : List UInt8}
    (h : chunks bytes = cs.map Chunk.scalar) : cs.flatMap String.utf8EncodeChar = bytes := by
  unfold chunks at h
  induction cs generalizing bytes with
  | nil => exact (Utf8.eq_nil_of_chunksFrom h).symm
  | cons c cs ih =>
      obtain ⟨rest, rfl, hrest⟩ := Utf8.utf8EncodeChar_of_chunksFrom h
      rw [List.flatMap_cons, ih hrest]

/-- There is a text exactly if no chunk is broken. -/
theorem mapM_scalar?_eq_some_iff {chunks : List Chunk} {cs : List Char} :
    chunks.mapM Chunk.scalar? = some cs ↔ chunks = cs.map Chunk.scalar := by
  induction chunks generalizing cs with
  | nil => cases cs <;> simp
  | cons chunk chunks ih =>
      rw [List.mapM_cons]
      cases chunk with
      | broken bytes => cases cs <;> simp [Chunk.scalar?]
      | scalar c =>
          show ((chunks.mapM Chunk.scalar?).bind fun rest => some (c :: rest)) = some cs ↔ _
          rw [Option.bind_eq_some_iff]
          constructor
          · rintro ⟨rest, hrest, hcs⟩
            obtain rfl := Option.some.inj hcs
            rw [ih.mp hrest, List.map_cons]
          · intro h
            cases cs with
            | nil => cases h
            | cons first rest =>
                obtain ⟨hfirst, hrest⟩ := List.cons.inj h
                exact ⟨rest, ih.mpr hrest, by rw [Chunk.scalar.inj hfirst]⟩

/-- **Bytes are a text exactly if they are its encoding.** -/
theorem decode?_eq_some_iff {bytes : List UInt8} {s : String} :
    decode? bytes = some s ↔ encode s = bytes := by
  unfold decode?
  rw [Option.map_eq_some_iff]
  constructor
  · rintro ⟨cs, hcs, rfl⟩
    unfold encode
    rw [String.toList_ofList]
    exact flatMap_utf8EncodeChar_of_chunks (mapM_scalar?_eq_some_iff.mp hcs)
  · rintro rfl
    exact ⟨s.toList, mapM_scalar?_eq_some_iff.mpr (chunks_encode s), String.ofList_toList⟩

end MessageExport.Text
