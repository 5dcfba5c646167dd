import Mathlib.Data.List.Basic
import MessageExport.Files.Path
/-!
# MessageExport.Proofs.Files.Path

Paths as **pieces between separators**.

Cutting bytes at their separators and pasting the pieces together are inverse to each
other, so a path is its opening and a list of pieces. Whatever is cut off at the end of
that list, what stays is the path of the pieces that stay, with the same opening
(`split_paste`), because an opening is recognised by the first piece alone. The components
of a path can also be read off its bytes directly (`components_eq`).

## Shape of the proofs

`split_paste` is the lemma that the rest stands on. Its condition, `Opening.Precedes`, looks at
the first piece only, so it is kept when pieces are taken off the end
(`Opening.Precedes.shorten`), and this is how the parent of a path is found to have the opening
of the path. For a path that is given as bytes the pieces are found first: `split_cases` goes
through the four kinds of path once, and `bytes_eq`, `precedes_pieces` and `components_eq` are
read off it.

Pieces that name nothing, the empty ones and the dots, are skipped among the components and
trimmed off the end. `named` and `trimPieces` both filter by `Significant`, and the lemmas about
them say what becomes of pieces that are put together.
-/

namespace MessageExport.Path

/-! ### Cutting and pasting

Both functions follow the bytes. As `cut` never gives an empty list, a piece can always be made
longer at its front. -/

/-- No piece holds a separator. -/
theorem slash_not_mem_of_mem_cut {bytes : List UInt8} {piece : Piece} (h : piece ∈ cut bytes) :
    slash ∉ piece := by
  induction bytes generalizing piece with
  | nil =>
      obtain rfl := List.mem_singleton.mp h
      exact List.not_mem_nil
  | cons b rest ih =>
      unfold cut at h
      split at h
      · rcases List.mem_cons.mp h with rfl | h
        · exact List.not_mem_nil
        · exact ih h
      · rename_i hb
        cases hcut : cut rest with
        | nil => exact absurd hcut (cut_ne_nil rest)
        | cons first pieces =>
            rw [hcut] at h ih
            -- the byte belongs to the first piece
            rcases List.mem_cons.mp h with rfl | h
            · rw [List.mem_cons, not_or]
              exact ⟨Ne.symm hb, ih List.mem_cons_self⟩
            · exact ih (List.mem_cons_of_mem first h)

/-- Without a separator there is one piece. -/
theorem cut_of_slash_not_mem {bytes : List UInt8} (h : slash ∉ bytes) : cut bytes = [bytes] := by
  induction bytes with
  | nil => rfl
  | cons b rest ih =>
      rw [List.mem_cons, not_or] at h
      unfold cut
      rw [if_neg (Ne.symm h.1), ih h.2]

/-- A separator ends the first piece. -/
theorem cut_append_slash {piece : Piece} (rest : List UInt8) (h : slash ∉ piece) :
    cut (piece ++ slash :: rest) = piece :: cut rest := by
  induction piece with
  | nil => rw [List.nil_append, cut, if_pos rfl]
  | cons b piece ih =>
      rw [List.mem_cons, not_or] at h
      rw [List.cons_append, cut, if_neg (Ne.symm h.1), ih h.2]

theorem paste_cons_cons (piece next : Piece) (pieces : List Piece) :
    paste (piece :: next :: pieces) = piece ++ slash :: paste (next :: pieces) := rfl

/-- Pieces that are pasted together are found again, unless there are none: no piece at all and
one that is empty are spelt alike. -/
theorem cut_paste {pieces : List Piece} (hne : pieces ≠ [])
    (h : ∀ piece ∈ pieces, slash ∉ piece) : cut (paste pieces) = pieces := by
  induction pieces with
  | nil => exact absurd rfl hne
  | cons piece pieces ih =>
      obtain ⟨hpiece, hpieces⟩ := List.forall_mem_cons.mp h
      cases pieces with
      | nil => exact cut_of_slash_not_mem hpiece
      | cons next pieces =>
          rw [paste_cons_cons, cut_append_slash _ hpiece, ih (List.cons_ne_nil _ _) hpieces]

theorem paste_cons_byte (b : UInt8) (piece : Piece) (pieces : List Piece) :
    paste ((b :: piece) :: pieces) = b :: paste (piece :: pieces) := by
  cases pieces <;> rfl

/-- Between two lists of pieces comes one more separator. -/
theorem paste_append {pieces more : List Piece} (hne : pieces ≠ []) (hmore : more ≠ []) :
    paste (pieces ++ more) = paste pieces ++ slash :: paste more := by
  induction pieces with
  | nil => exact absurd rfl hne
  | cons first pieces ih =>
      cases pieces with
      | nil =>
          obtain ⟨next, more, rfl⟩ := List.exists_cons_of_ne_nil hmore
          rfl
      | cons next pieces =>
          rw [List.cons_append, List.cons_append, paste_cons_cons, paste_cons_cons,
            ← List.cons_append, ih (List.cons_ne_nil _ _), List.append_assoc, List.cons_append]

theorem paste_concat {pieces : List Piece} (hne : pieces ≠ []) (piece : Piece) :
    paste (pieces ++ [piece]) = paste pieces ++ slash :: piece :=
  paste_append hne (List.cons_ne_nil piece [])

/-- The first of several pieces are spelt by the first of the bytes. -/
theorem paste_isPrefix {front pieces : List Piece} (h : front <+: pieces) :
    paste front <+: paste pieces := by
  obtain ⟨more, rfl⟩ := h
  by_cases hfront : front = []
  · rw [hfront]
    exact List.nil_prefix
  by_cases hmore : more = []
  · simp [hmore]
  · rw [paste_append hfront hmore]
    exact List.prefix_append _ _

/-- Nothing is spelt by one empty piece only. -/
theorem paste_eq_nil_iff {piece : Piece} {pieces : List Piece} :
    paste (piece :: pieces) = [] ↔ piece = [] ∧ pieces = [] := by
  cases pieces with
  | nil => simp [paste]
  | cons next pieces => simp [paste_cons_cons]

/-! ### Openings

The opening is split off before the cutting begins. A dot at the beginning is one only if a
separator or nothing follows it: otherwise it belongs to the first piece. -/

/-- The components of an opening. -/
def Opening.components : Opening → List Component
  | .root => [.root]
  | .current => [.current]
  | .none => []

/-- The components that pieces stand for. -/
def named (pieces : List Piece) : List Component :=
  (pieces.filter fun piece => decide (Significant piece)).map Component.ofPiece

/-- Components are those of the opening, then the pieces that name something. -/
theorem components_eq_named (path : Path) :
    path.components = path.opening.components ++ named path.pieces := by
  unfold components named Opening.components
  cases path.opening <;> rfl

theorem named_append (pieces pieces' : List Piece) :
    named (pieces ++ pieces') = named pieces ++ named pieces' := by
  simp [named]

theorem named_eq_nil {pieces : List Piece} (h : ∀ piece ∈ pieces, ¬ Significant piece) :
    named pieces = [] := by
  simpa [named] using h

theorem named_cons_of_significant {piece : Piece} (h : Significant piece)
    (pieces : List Piece) : named (piece :: pieces) = .ofPiece piece :: named pieces := by
  simp [named, h]

/-- Pieces may follow an opening: after the dot for the working directory comes a
separator, and a path that has no opening begins with a piece that names something. -/
def Opening.Precedes : Opening → List Piece → Prop
  | .root, _ => True
  | .current, pieces => ∀ piece ∈ pieces.head?, piece = []
  | .none, pieces => ∀ piece ∈ pieces.head?, Significant piece

/-- What an opening may stand before depends on the first piece, so pieces may be left off at
the end. -/
theorem Opening.Precedes.shorten {opening : Opening} {pieces front : List Piece}
    (h : opening.Precedes pieces) (hfront : front <+: pieces) : opening.Precedes front := by
  have hhead : ∀ piece ∈ front.head?, piece ∈ pieces.head? := by
    obtain ⟨rest, rfl⟩ := hfront
    cases front with
    | nil => intro piece hpiece; cases hpiece
    | cons first front => exact fun piece hpiece => hpiece
  cases opening with
  | root => trivial
  | current => exact fun piece hpiece => h piece (hhead piece hpiece)
  | none => exact fun piece hpiece => h piece (hhead piece hpiece)

/-- Pieces are found again behind an opening that they may follow. -/
theorem split_paste {opening : Opening} {pieces : List Piece}
    (hprecedes : opening.Precedes pieces) (hslash : ∀ piece ∈ pieces, slash ∉ piece) :
    split ⟨opening.bytes ++ paste pieces⟩ = (opening, paste pieces) := by
  cases opening with
  | root => rfl
  | current =>
      have hrest : paste pieces = [] ∨ (paste pieces).head? = some slash := by
        cases pieces with
        | nil => exact .inl rfl
        | cons piece pieces =>
            obtain rfl : piece = [] := hprecedes piece rfl
            cases pieces with
            | nil => exact .inl rfl
            | cons next pieces => exact .inr rfl
      show split ⟨0x2E :: paste pieces⟩ = _
      unfold split
      simp only
      rw [if_neg (by decide), if_pos ⟨rfl, hrest⟩]
  | none =>
      cases pieces with
      | nil => rfl
      | cons piece pieces =>
          -- the first piece begins with a byte that is no separator
          obtain ⟨hne, hdot⟩ : Significant piece := hprecedes piece rfl
          obtain ⟨b, piece, rfl⟩ := List.exists_cons_of_ne_nil hne
          have hpiece : slash ∉ b :: piece := hslash _ List.mem_cons_self
          rw [List.mem_cons, not_or] at hpiece
          -- after a dot at the beginning the first piece goes on
          have hcurrent : ¬ ([b] = dot ∧ (paste (piece :: pieces) = [] ∨
              (paste (piece :: pieces)).head? = some slash)) := by
            rintro ⟨hb, hends⟩
            obtain ⟨c, piece, rfl⟩ := List.exists_cons_of_ne_nil
              (show piece ≠ [] from fun h => hdot (by rw [h, hb]))
            rw [paste_cons_byte] at hends
            rcases hends with hends | hends
            · cases hends
            · exact hpiece.2 (List.mem_cons.mpr (.inl (Option.some.inj hends).symm))
          show split ⟨paste ((b :: piece) :: pieces)⟩ = _
          rw [paste_cons_byte]
          unfold split
          simp only
          rw [if_neg (Ne.symm hpiece.1), if_neg hcurrent]

/-- The first piece is empty exactly if there is nothing before the first separator. -/
theorem head?_cut_eq_nil_iff {bytes : List UInt8} :
    (cut bytes).head? = some [] ↔ bytes = [] ∨ bytes.head? = some slash := by
  cases bytes with
  | nil => simp [cut]
  | cons b rest =>
      unfold cut
      split
      · rename_i hb
        simp [hb]
      · rename_i hb
        cases hcut : cut rest with
        | nil => exact absurd hcut (cut_ne_nil rest)
        | cons first pieces => simp [hb]

/-- The four kinds of path: empty, absolute, beginning with a dot, beginning with a name or
with the directory above. -/
theorem split_cases (path : Path) :
    (path.bytes = [] ∧ path.split = (.none, [])) ∨
      (∃ rest, path.bytes = slash :: rest ∧ path.split = (.root, rest)) ∨
      (∃ rest, path.bytes = 0x2E :: rest ∧ (rest = [] ∨ rest.head? = some slash) ∧
        path.split = (.current, rest)) ∨
      (path.split = (.none, path.bytes) ∧ ∃ piece pieces,
        cut path.bytes = piece :: pieces ∧ Significant piece) := by
  unfold split
  split
  · rename_i hbytes
    exact .inl ⟨hbytes, rfl⟩
  · rename_i b rest hbytes
    split
    · rename_i hb
      exact .inr (.inl ⟨rest, by rw [hbytes, hb], rfl⟩)
    · rename_i hb
      split
      · rename_i hdot
        obtain ⟨rfl, -⟩ := List.cons.inj hdot.1
        exact .inr (.inr (.inl ⟨rest, hbytes, hdot.2, rfl⟩))
      · rename_i hdot
        refine .inr (.inr (.inr ⟨by rw [hbytes], ?_⟩))
        rw [hbytes]
        unfold cut
        rw [if_neg hb]
        cases hcut : cut rest with
        | nil => exact absurd hcut (cut_ne_nil rest)
        | cons first pieces =>
            refine ⟨b :: first, pieces, rfl, List.cons_ne_nil _ _, ?_⟩
            intro hpiece
            obtain ⟨rfl, rfl⟩ := List.cons.inj hpiece
            exact hdot ⟨rfl, head?_cut_eq_nil_iff.mp (by rw [hcut]; rfl)⟩

/-- A path is spelt by its opening and its pieces. -/
theorem bytes_eq (path : Path) : path.bytes = path.opening.bytes ++ paste path.pieces := by
  unfold opening pieces
  rw [paste_cut]
  rcases path.split_cases with ⟨hbytes, hsplit⟩ | ⟨rest, hbytes, hsplit⟩ |
    ⟨rest, hbytes, -, hsplit⟩ | ⟨hsplit, -⟩
  · rw [hsplit, hbytes]
    rfl
  · rw [hsplit, hbytes]
    rfl
  · rw [hsplit, hbytes]
    rfl
  · rw [hsplit]
    rfl

theorem slash_not_mem_of_mem_pieces {path : Path} : ∀ piece ∈ path.pieces, slash ∉ piece :=
  fun _ h => slash_not_mem_of_mem_cut h

/-- The pieces of a path follow its opening, if any of them names something. -/
theorem precedes_pieces {path : Path} {piece : Piece} (hpiece : piece ∈ path.pieces)
    (hsignificant : Significant piece) : path.opening.Precedes path.pieces := by
  unfold pieces at hpiece
  unfold opening pieces
  rcases path.split_cases with ⟨-, hsplit⟩ | ⟨rest, -, hsplit⟩ | ⟨rest, -, hrest, hsplit⟩ |
    ⟨hsplit, first, others, hcut, hfirst⟩
  · -- the empty path has one piece, which names nothing
    rw [hsplit] at hpiece
    obtain rfl := List.mem_singleton.mp hpiece
    exact absurd rfl hsignificant.1
  · rw [hsplit]
    trivial
  · rw [hsplit]
    intro first hfirst
    exact Option.some.inj ((head?_cut_eq_nil_iff.mpr hrest).symm.trans hfirst) ▸ rfl
  · rw [hsplit]
    simp only [hcut]
    intro head hhead
    exact Option.some.inj hhead ▸ hfirst

/-- The components of a path by its bytes: the root of an absolute path, the dot that a
relative one begins with, and what stands between separators and is not empty or a
dot. -/
theorem components_eq (path : Path) :
    path.components =
      (if path.isAbsolute then [.root]
        else if (cut path.bytes).head? = some dot then [.current] else []) ++
      named (cut path.bytes) := by
  rw [components_eq_named]
  unfold opening pieces isAbsolute
  rcases path.split_cases with ⟨hbytes, hsplit⟩ | ⟨rest, hbytes, hsplit⟩ |
    ⟨rest, hbytes, hrest, hsplit⟩ | ⟨hsplit, first, others, hcut, hfirst⟩
  · rw [hsplit, hbytes]
    rfl
  · rw [hsplit, hbytes, cut, if_pos rfl]
    rfl
  · rw [hsplit, hbytes]
    -- the dot at the beginning is a piece of its own
    rcases hrest with rfl | hrest
    · rfl
    · obtain ⟨rest, rfl⟩ : ∃ more, rest = slash :: more := by
        cases rest with
        | nil => cases hrest
        | cons c more => exact ⟨more, by rw [Option.some.inj hrest]⟩
      have hcut : cut (0x2E :: slash :: rest) = dot :: cut rest :=
        @cut_append_slash dot rest (by decide)
      rw [hcut, cut, if_pos rfl]
      rfl
  · -- the first piece names something, so there is neither a separator nor a lone dot before it
    have hroot : path.bytes.head? ≠ some slash := by
      intro hhead
      have hempty := head?_cut_eq_nil_iff.mpr (.inr hhead)
      rw [hcut] at hempty
      exact hfirst.1 (Option.some.inj hempty)
    have hdot : (cut path.bytes).head? ≠ some dot := by
      rw [hcut]
      exact fun hhead => hfirst.2 (Option.some.inj hhead)
    rw [hsplit, if_neg (by simpa using hroot), if_neg hdot]
    rfl

/-! ### The last piece that names something

Trimming works from the end: it is the part of the reversed list from the first piece that names
something. -/

/-- What is trimmed off the end of pieces names nothing. -/
theorem exists_eq_trimPieces_append (pieces : List Piece) :
    ∃ more, pieces = trimPieces pieces ++ more ∧ ∀ piece ∈ more, ¬ Significant piece := by
  refine ⟨(pieces.reverse.takeWhile fun piece => !decide (Significant piece)).reverse, ?_, ?_⟩
  · unfold trimPieces
    rw [← List.reverse_append, List.takeWhile_append_dropWhile, List.reverse_reverse]
  · intro piece hpiece
    simpa using List.all_eq_true.mp List.all_takeWhile piece (List.mem_reverse.mp hpiece)

/-- Pieces at the end that name nothing do not matter. -/
theorem trimPieces_append {pieces more : List Piece} (h : ∀ piece ∈ more, ¬ Significant piece) :
    trimPieces (pieces ++ more) = trimPieces pieces := by
  unfold trimPieces
  rw [List.reverse_append, List.dropWhile_append_of_pos]
  simpa using h

@[simp] theorem trimPieces_concat {piece : Piece} (h : Significant piece) (front : List Piece) :
    trimPieces (front ++ [piece]) = front ++ [piece] := by
  unfold trimPieces
  rw [List.reverse_append, List.reverse_singleton, List.singleton_append,
    List.dropWhile_cons_of_neg (by simpa using h), List.reverse_cons, List.reverse_reverse]

/-- Nothing is left of pieces, or they end in one that names something. -/
theorem trimPieces_cases (pieces : List Piece) :
    trimPieces pieces = [] ∨
      ∃ front piece, trimPieces pieces = front ++ [piece] ∧ Significant piece := by
  unfold trimPieces
  have hhead := List.head?_dropWhile_not (fun piece => !decide (Significant piece)) pieces.reverse
  cases hleft : pieces.reverse.dropWhile fun piece => !decide (Significant piece) with
  | nil => exact .inl rfl
  | cons piece rest =>
      rw [hleft] at hhead
      exact .inr ⟨rest.reverse, piece, List.reverse_cons, by simpa using hhead⟩

theorem trimPieces_trimPieces (pieces : List Piece) :
    trimPieces (trimPieces pieces) = trimPieces pieces := by
  obtain ⟨more, hpieces, hmore⟩ := exists_eq_trimPieces_append pieces
  conv => rhs; rw [hpieces]
  rw [trimPieces_append hmore]

theorem trimPieces_isPrefix (pieces : List Piece) : trimPieces pieces <+: pieces := by
  obtain ⟨more, hpieces, -⟩ := exists_eq_trimPieces_append pieces
  exact ⟨more, hpieces.symm⟩

/-- Trimming takes no component away. -/
theorem named_trimPieces (pieces : List Piece) : named (trimPieces pieces) = named pieces := by
  obtain ⟨more, hpieces, hmore⟩ := exists_eq_trimPieces_append pieces
  conv => rhs; rw [hpieces]
  rw [named_append, named_eq_nil hmore, List.append_nil]

/-! ### Paths made of pieces

A parent is made of an opening and of pieces. Where these may follow that opening, the path that
is made has them for its opening and its pieces again. -/

/-- The path of pieces behind an opening. -/
def ofPieces (opening : Opening) (pieces : List Piece) : Path :=
  ⟨opening.bytes ++ paste pieces⟩

section

variable {opening : Opening} {pieces : List Piece}

theorem opening_ofPieces (hprecedes : opening.Precedes pieces)
    (hslash : ∀ piece ∈ pieces, slash ∉ piece) : (ofPieces opening pieces).opening = opening := by
  rw [Path.opening, ofPieces, split_paste hprecedes hslash]

/-- The pieces are found again, if there are any. -/
theorem pieces_ofPieces (hprecedes : opening.Precedes pieces)
    (hslash : ∀ piece ∈ pieces, slash ∉ piece) (hne : pieces ≠ []) :
    (ofPieces opening pieces).pieces = pieces := by
  rw [Path.pieces, ofPieces, split_paste hprecedes hslash, cut_paste hne hslash]

/-- The components need no such condition, since an empty piece names nothing. -/
theorem components_ofPieces (hprecedes : opening.Precedes pieces)
    (hslash : ∀ piece ∈ pieces, slash ∉ piece) :
    (ofPieces opening pieces).components = opening.components ++ named pieces := by
  rw [components_eq_named, opening_ofPieces hprecedes hslash]
  cases pieces with
  | nil =>
      rw [Path.pieces, ofPieces, split_paste hprecedes hslash]
      rfl
  | cons first rest => rw [pieces_ofPieces hprecedes hslash (List.cons_ne_nil _ _)]

/-- A path that may begin with a name is empty exactly if there are no pieces. -/
theorem bytes_ofPieces_eq_nil_iff (hprecedes : opening.Precedes pieces) :
    (ofPieces opening pieces).bytes = [] ↔ opening = .none ∧ pieces = [] := by
  cases opening with
  | root => simp [ofPieces, Opening.bytes]
  | current => simp [ofPieces, Opening.bytes, dot]
  | none =>
      cases pieces with
      | nil => simp [ofPieces, Opening.bytes, paste]
      | cons first rest =>
          have hfirst : Significant first := hprecedes first rfl
          simp [ofPieces, Opening.bytes, paste_eq_nil_iff, hfirst.1]

end

/-- A path without a separator is a relative one. -/
theorem isAbsolute_eq_false {path : Path} (h : slash ∉ path.bytes) : path.isAbsolute = false := by
  unfold isAbsolute
  cases hbytes : path.bytes with
  | nil => rfl
  | cons b rest =>
      rw [hbytes, List.mem_cons, not_or] at h
      simpa using Ne.symm h.1

/-- A path whose last piece names something does not end in a separator. -/
theorem getLast?_ofPieces_concat {opening : Opening} {front : List Piece} {last : Piece}
    (hlast : Significant last) (hslash : slash ∉ last) :
    (ofPieces opening (front ++ [last])).bytes.getLast? ≠ some slash := by
  have hend : (ofPieces opening (front ++ [last])).bytes.getLast? = last.getLast? := by
    unfold ofPieces
    cases front with
    | nil => simp [paste, List.getLast?_append_of_ne_nil _ hlast.1]
    | cons first rest =>
        rw [paste_concat (List.cons_ne_nil _ _), ← List.append_assoc,
          List.getLast?_append_of_ne_nil _ (List.cons_ne_nil _ _), List.getLast?_cons]
        simp [List.getLast?_eq_some_getLast hlast.1]
  rw [hend]
  exact fun h => hslash (List.mem_of_getLast? h)

/-! ### The name at the end

Behind the name at the end of a path may be more pieces, as long as they name nothing. That is
how `a/b/.` and `a/b/` both have the name `b`. -/

/-- Pieces end in a name, but for what says nothing. -/
structure EndsIn (pieces front : List Piece) (name : Piece) (more : List Piece) : Prop where
  pieces_eq : pieces = front ++ name :: more
  significant : Significant name
  ne_dotDot : name ≠ dotDot
  not_significant : ∀ piece ∈ more, ¬ Significant piece

namespace EndsIn

variable {pieces front more : List Piece} {name : Piece}

theorem named_eq (h : EndsIn pieces front name more) :
    named pieces = named front ++ [.name name] := by
  rw [h.pieces_eq, named_append, named_cons_of_significant h.significant,
    named_eq_nil h.not_significant, Component.ofPiece, if_neg h.ne_dotDot]

theorem trimPieces_eq (h : EndsIn pieces front name more) :
    trimPieces pieces = front ++ [name] := by
  rw [h.pieces_eq, ← List.singleton_append, ← List.append_assoc,
    trimPieces_append h.not_significant, trimPieces_concat h.significant]

end EndsIn

/-- The components of a path end in a name exactly if its pieces do. -/
theorem components_eq_concat_iff {path : Path} {components : List Component} {name : Piece} :
    path.components = components ++ [.name name] ↔
      ∃ front more, EndsIn path.pieces front name more ∧
        components = path.opening.components ++ named front := by
  rw [components_eq_named]
  constructor
  · intro h
    rcases List.eq_nil_or_concat' (path.pieces.filter fun piece => decide (Significant piece)) with
      hnone | ⟨others, piece, hfilter⟩
    · -- an opening is no name
      exfalso
      rw [named, hnone, List.map_nil, List.append_nil] at h
      have hlast : path.opening.components.getLast? = some (.name name) := by
        rw [h, List.getLast?_concat]
      cases hopening : path.opening <;> rw [hopening] at hlast <;> cases hlast
    · -- the last piece that is kept, with what was skipped before and behind it
      obtain ⟨front, rest, hpieces, hfront, hrest⟩ := List.filter_eq_append_iff.mp hfilter
      obtain ⟨skipped, more, rfl, hskipped, hpiece, hmore⟩ := List.filter_eq_cons_iff.mp hrest
      have hnamed : named path.pieces = named (front ++ skipped) ++ [.ofPiece piece] := by
        rw [named_append, @named_eq_nil skipped (by simpa using hskipped),
          List.append_nil, named, named, hfilter, hfront, List.map_append, List.map_singleton]
      rw [hnamed, ← List.append_assoc] at h
      obtain ⟨hcomponents, hlast⟩ := List.append_inj' h rfl
      have hname : Component.ofPiece piece = .name name := List.singleton_inj.mp hlast
      unfold Component.ofPiece at hname
      split at hname
      · cases hname
      · rename_i hdotDot
        obtain rfl := Component.name.inj hname
        refine ⟨front ++ skipped, more, ⟨?_, by simpa using hpiece, hdotDot, ?_⟩, hcomponents.symm⟩
        · rw [hpieces, List.append_assoc]
        · simpa using hmore
  · rintro ⟨front, more, hends, rfl⟩
    rw [hends.named_eq, List.append_assoc]

/-- The name of a file is the last component, where that is a name. -/
theorem fileName?_eq_some_iff {path : Path} {name : Piece} :
    path.fileName? = some name ↔ ∃ components, path.components = components ++ [.name name] := by
  rw [← List.getLast?_eq_some_iff]
  unfold fileName?
  constructor
  · intro h
    split at h
    · rename_i hlast
      rw [hlast, Option.some.inj h]
    · cases h
  · intro h
    rw [h]

/-- What is before the name at the end of a path is its parent. -/
theorem parent?_eq {path : Path} {front more : List Piece} {name : Piece}
    (h : EndsIn path.pieces front name more) :
    path.parent? = some (ofPieces path.opening (trimPieces front)) := by
  unfold parent?
  rw [h.trimPieces_eq]
  split
  · rename_i hnil
    exact absurd hnil (by simp)
  · rename_i hcons
    rw [← hcons, List.dropLast_concat]
    rfl

end MessageExport.Path
