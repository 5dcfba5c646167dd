import MessageExport.Proofs.Files.Path
/-!
# MessageExport.Proofs.Files.Ancestors

The **paths above a path**, and the names that they pass.

The moves of a path are its components, with a dot more here and there (`filter_moves`), so a
path passes the names that are its components. The paths above a path without superfluous
pieces at its end form a ladder (`isLadder_ladder`): each of them ends in a name, and what
comes before that name is as many names as the next one outside has.

## Shape of the proofs

Components, moves and names are all read off the pieces of a path, and `Proofs.Files.Path` says
what the pieces are. So each notion gets a lemma about pieces that are put together and one that
leads back to `named`; an opening adds no name.

A ladder is made from the end of the pieces. The last piece that names something is split off,
its parent is the path of what is left (`parent?_ofPieces_concat`), and that is shorter
(`length_parent_lt`), so the budget of the recursion lasts. The induction is on that budget and
about all pieces that may follow the opening (`isLadder_ancestorsWithin`).
-/

namespace MessageExport.Path

/-! ### Names

A name is a component that leads on. The root, a dot and a step upwards are none. -/

/-- The name that a component is. -/
def Component.name? : Component → Option Piece
  | .name piece => some piece
  | _ => none

/-- The names among components. -/
def namesOf (components : List Component) : List Piece :=
  components.filterMap Component.name?

/-- The names that a path passes. -/
def names (path : Path) : List Piece := namesOf path.components

theorem namesOf_append (components components' : List Component) :
    namesOf (components ++ components') = namesOf components ++ namesOf components' :=
  List.filterMap_append

/-- A name at the end is passed last. -/
theorem namesOf_concat (components : List Component) (name : Piece) :
    namesOf (components ++ [.name name]) = namesOf components ++ [name] :=
  namesOf_append components [.name name]

/-- A dot is no name. -/
theorem namesOf_filter (components : List Component) :
    namesOf (components.filter fun component => component ≠ .current) = namesOf components := by
  unfold namesOf
  rw [List.filterMap_filter]
  congr 1
  funext component
  cases component <;> rfl

/-- An opening has no name. -/
theorem namesOf_opening (opening : Opening) : namesOf opening.components = [] := by
  cases opening <;> rfl

/-- The names of a path are in its pieces. -/
theorem names_eq (path : Path) : path.names = namesOf (named path.pieces) := by
  rw [names, components_eq_named, namesOf_append, namesOf_opening, List.nil_append]

/-! ### Moves

The system looks at every piece between separators: an empty one it passes over, and a dot needs
a directory to be there. The components of a path leave most dots out. That is the whole
difference between the two. -/

/-- The moves that pieces stand for. -/
def movesOf (pieces : List Piece) : List Component :=
  (pieces.filter fun piece => piece ≠ []).map fun piece =>
    if piece = dot then .current else .ofPiece piece

/-- The moves that an opening stands for. -/
def Opening.moves : Opening → List Component
  | .current => [.current]
  | _ => []

theorem movesOf_append (pieces pieces' : List Piece) :
    movesOf (pieces ++ pieces') = movesOf pieces ++ movesOf pieces' := by
  simp [movesOf]

/-- A name at the end is the last move. -/
theorem movesOf_concat {last : Piece} (hlast : Significant last) (hdots : last ≠ dotDot)
    (pieces : List Piece) : movesOf (pieces ++ [last]) = movesOf pieces ++ [.name last] := by
  rw [movesOf_append]
  simp [movesOf, hlast.1, hlast.2, Component.ofPiece, hdots]

/-- Pieces move on by what they name, and stay where they are at every dot. -/
theorem filter_movesOf (pieces : List Piece) :
    (movesOf pieces).filter (fun move => move ≠ .current) = named pieces := by
  induction pieces with
  | nil => rfl
  | cons piece pieces ih =>
      by_cases hpiece : Significant piece
      · have hmove : Component.ofPiece piece ≠ .current := by
          unfold Component.ofPiece
          split <;> exact Component.noConfusion
        rw [named_cons_of_significant hpiece, ← ih]
        simp [movesOf, hpiece.1, hpiece.2, hmove]
      · have hnamed : named (piece :: pieces) = named pieces := by simp [named, hpiece]
        rw [hnamed, ← ih]
        by_cases hempty : piece = []
        · simp [movesOf, hempty]
        · obtain rfl : piece = dot := by_contra fun h => hpiece ⟨hempty, h⟩
          simp [movesOf, hempty]

/-- Moves pass the names that the components are. -/
theorem namesOf_movesOf (pieces : List Piece) :
    namesOf (movesOf pieces) = namesOf (named pieces) := by
  rw [← filter_movesOf, namesOf_filter]

/-- A step upwards is a piece of two dots. -/
theorem parent_mem_named_iff {pieces : List Piece} : .parent ∈ named pieces ↔ dotDot ∈ pieces := by
  unfold named
  rw [List.mem_map]
  constructor
  · rintro ⟨piece, hpiece, hparent⟩
    unfold Component.ofPiece at hparent
    split at hparent
    · rename_i hdots
      exact hdots ▸ (List.mem_filter.mp hpiece).1
    · cases hparent
  · intro hdots
    exact ⟨dotDot, List.mem_filter.mpr ⟨hdots, by decide⟩, rfl⟩

theorem parent_mem_movesOf_iff {pieces : List Piece} :
    .parent ∈ movesOf pieces ↔ dotDot ∈ pieces := by
  rw [← parent_mem_named_iff, ← filter_movesOf]
  simp

/-- The moves of all that is between separators are those of the opening and those of the pieces
behind it. -/
theorem movesOf_cut (path : Path) :
    movesOf (cut path.bytes) = path.opening.moves ++ movesOf path.pieces := by
  unfold opening pieces
  rcases path.split_cases with ⟨hbytes, hsplit⟩ | ⟨rest, hbytes, hsplit⟩ |
    ⟨rest, hbytes, hrest, hsplit⟩ | ⟨hsplit, -⟩
  · rw [hsplit, hbytes]
    rfl
  · rw [hsplit, hbytes, cut, if_pos rfl]
    rfl
  · rw [hsplit, hbytes]
    rcases hrest with rfl | hrest
    · rfl
    · obtain ⟨rest, rfl⟩ : ∃ more, rest = slash :: more := by
        cases rest with
        | nil => cases hrest
        | cons c more => exact ⟨more, by rw [Option.some.inj hrest]⟩
      have hcut : cut (0x2E :: slash :: rest) = dot :: cut rest :=
        @cut_append_slash dot rest (by decide)
      rw [hcut, cut, if_pos rfl]
      rfl
  · rw [hsplit]
    rfl

/-- A path moves by its opening and its pieces, and a separator at its end asks for a directory.
-/
theorem moves_eq (path : Path) :
    path.moves = path.opening.moves ++ movesOf path.pieces ++
      (if path.bytes.getLast? = some slash then [.current] else []) := by
  rw [← movesOf_cut]
  unfold moves movesOf
  split <;> simp

/-- The dots apart, the moves of a path are what its pieces name. -/
theorem filter_moves (path : Path) :
    path.moves.filter (fun move => move ≠ .current) = named path.pieces := by
  have hopening : path.opening.moves.filter (fun move => move ≠ .current) = [] := by
    cases path.opening <;> rfl
  rw [moves_eq, List.filter_append, List.filter_append, filter_movesOf, hopening]
  split <;> simp

/-- What a path passes are its names. -/
theorem namesOf_moves (path : Path) : namesOf path.moves = path.names := by
  rw [← namesOf_filter, filter_moves, names_eq]

theorem parent_mem_moves_iff {path : Path} : .parent ∈ path.moves ↔ .parent ∈ path.components := by
  have hopening : Component.parent ∉ path.opening.components := by
    cases path.opening <;> simp [Opening.components]
  rw [components_eq_named, ← filter_moves]
  simp [hopening]

/-- A path steps upwards exactly if two dots are among its pieces. -/
theorem parent_mem_components_iff {path : Path} :
    .parent ∈ path.components ↔ dotDot ∈ path.pieces := by
  have hopening : Component.parent ∉ path.opening.components := by
    cases path.opening <;> simp [Opening.components]
  rw [components_eq_named, List.mem_append, parent_mem_named_iff]
  exact or_iff_right hopening

/-! ### The paths above a path

The way up is taken by `parent?`, with the length of the path for a budget. What is above a path
is spelt by its first bytes, which is why it starts in the same place and is accepted with it.
-/

/-- A parent is spelt by the first bytes of its path. -/
theorem parent?_isPrefix {path parent : Path} (h : path.parent? = some parent) :
    parent.bytes <+: path.bytes := by
  unfold parent? at h
  split at h
  · cases hopening : path.opening with
    | root => rw [hopening] at h; cases h
    | none => rw [hopening] at h; cases h
    | current =>
        rw [hopening] at h
        obtain rfl := Option.some.inj h
        exact List.nil_prefix
  · rename_i piece others htrim
    obtain rfl := Option.some.inj h
    rw [path.bytes_eq, List.prefix_append_right_inj, ← htrim]
    exact paste_isPrefix
      ((trimPieces_isPrefix _).trans ((List.dropLast_prefix _).trans (trimPieces_isPrefix _)))

/-- What is above a path is spelt by its first bytes. -/
theorem isPrefix_of_mem_ancestorsWithin {budget : Nat} {path ancestor : Path}
    (h : ancestor ∈ ancestorsWithin budget path) : ancestor.bytes <+: path.bytes := by
  induction budget generalizing path with
  | zero =>
      obtain rfl := List.mem_singleton.mp h
      exact List.prefix_rfl
  | succ budget ih =>
      unfold ancestorsWithin at h
      cases hparent : path.parent? with
      | none =>
          rw [hparent] at h
          obtain rfl := List.mem_singleton.mp h
          exact List.prefix_rfl
      | some parent =>
          rw [hparent] at h
          rcases List.mem_cons.mp h with rfl | h
          · exact List.prefix_rfl
          · exact (ih h).trans (parent?_isPrefix hparent)

/-- The paths that have to be there for a path, innermost first: the path itself and those
above it, but not the root and not the empty path. -/
def ladder (path : Path) : List Path :=
  path.ancestors.filter fun ancestor => ancestor.parent?.isSome

/-- What stands on the ladder of a path is not empty, and is spelt by the first bytes of the
path. -/
theorem isPrefix_of_mem_ladder {path rung : Path} (h : rung ∈ path.ladder) :
    rung.bytes ≠ [] ∧ rung.bytes <+: path.bytes := by
  obtain ⟨hmem, hparent⟩ := List.mem_filter.mp h
  refine ⟨?_, isPrefix_of_mem_ancestorsWithin hmem⟩
  intro hempty
  obtain rfl : rung = ⟨[]⟩ := congrArg Path.mk hempty
  exact absurd hparent (by decide)

/-- Paths lead to the places on a way of names, each a name further than the next one, and
the last one a single name from where they start, or nowhere. -/
inductive IsLadder : List Path → List Piece → Prop
  | start : IsLadder [] []
  | dot : IsLadder [⟨Path.dot⟩] []
  | rung {path : Path} {outer : List Path} {before : List Component} {name : Piece}
      (moves_eq : path.moves = before ++ [.name name]) (parent_not_mem : .parent ∉ before)
      (outer_isLadder : IsLadder outer (namesOf before)) :
      IsLadder (path :: outer) (namesOf before ++ [name])

section

variable {opening : Opening} {others : List Piece} {last : Piece}

/-- The parent of a path that ends in a name is what is before it, trimmed. -/
theorem parent?_ofPieces_concat (hprecedes : opening.Precedes (others ++ [last]))
    (hslash : ∀ piece ∈ others ++ [last], slash ∉ piece) (hlast : Significant last)
    (hdots : last ≠ dotDot) :
    (ofPieces opening (others ++ [last])).parent? =
      some (ofPieces opening (trimPieces others)) := by
  have hends : EndsIn (ofPieces opening (others ++ [last])).pieces others last [] :=
    ⟨pieces_ofPieces hprecedes hslash (by simp), hlast, hdots, List.forall_mem_nil _⟩
  rw [parent?_eq hends, opening_ofPieces hprecedes hslash]

/-- A path that ends in a name moves by what is before it, and then by that name. -/
theorem moves_ofPieces_concat (hprecedes : opening.Precedes (others ++ [last]))
    (hslash : ∀ piece ∈ others ++ [last], slash ∉ piece) (hlast : Significant last)
    (hdots : last ≠ dotDot) :
    (ofPieces opening (others ++ [last])).moves =
      opening.moves ++ movesOf others ++ [.name last] := by
  have hend := @getLast?_ofPieces_concat opening others last hlast (hslash last (by simp))
  rw [moves_eq, if_neg hend, opening_ofPieces hprecedes hslash,
    pieces_ofPieces hprecedes hslash (by simp), movesOf_concat hlast hdots, List.append_nil,
    List.append_assoc]

/-- A parent is shorter than its path. -/
theorem length_parent_lt (hlast : Significant last) :
    (ofPieces opening (trimPieces others)).bytes.length <
      (ofPieces opening (others ++ [last])).bytes.length := by
  have hpaste : (paste (trimPieces others)).length ≤ (paste others).length :=
    (paste_isPrefix (trimPieces_isPrefix others)).length_le
  unfold ofPieces
  rw [List.length_append, List.length_append]
  by_cases hothers : others = []
  · have hlength : 0 < last.length := List.length_pos_iff.mpr hlast.1
    subst hothers
    exact Nat.add_lt_add_left (Nat.lt_of_le_of_lt hpaste hlength) _
  · rw [paste_concat hothers, List.length_append, List.length_cons]
    omega

end

/-- Nothing is above the empty path. -/
theorem ancestorsWithin_nil (budget : Nat) : ancestorsWithin budget ⟨[]⟩ = [⟨[]⟩] := by
  cases budget <;> rfl

/-- An opening alone is a dot, or it cannot be made. -/
theorem isLadder_opening (opening : Opening) (budget : Nat) :
    IsLadder ((ancestorsWithin budget (ofPieces opening [])).filter fun ancestor =>
      ancestor.parent?.isSome) [] := by
  cases opening with
  | root => cases budget <;> exact .start
  | none =>
      rw [show ofPieces .none [] = ⟨[]⟩ from rfl, ancestorsWithin_nil]
      exact .start
  | current =>
      cases budget with
      | zero => exact .dot
      | succ budget =>
          have hcons : ancestorsWithin (budget + 1) (ofPieces .current []) =
              ⟨dot⟩ :: ancestorsWithin budget ⟨[]⟩ := rfl
          rw [hcons, ancestorsWithin_nil]
          exact .dot

/-- The paths above a path of trimmed pieces, the root and the empty path left out, form a
ladder to its names. -/
theorem isLadder_ancestorsWithin {opening : Opening} {budget : Nat} {pieces : List Piece}
    (hprecedes : opening.Precedes pieces) (hslash : ∀ piece ∈ pieces, slash ∉ piece)
    (hdots : dotDot ∉ pieces)
    (hbudget : (ofPieces opening (trimPieces pieces)).bytes.length ≤ budget) :
    IsLadder ((ancestorsWithin budget (ofPieces opening (trimPieces pieces))).filter
      fun ancestor => ancestor.parent?.isSome) (namesOf (named pieces)) := by
  rw [← named_trimPieces]
  induction budget generalizing pieces with
  | zero =>
      rcases trimPieces_cases pieces with htrim | ⟨others, last, htrim, hlast⟩
      · rw [htrim]
        exact isLadder_opening opening 0
      · -- a path that ends in a name is not empty
        rw [htrim] at hbudget
        exact absurd (Nat.lt_of_lt_of_le (length_parent_lt hlast) hbudget) (Nat.not_lt_zero _)
  | succ budget ih =>
      rcases trimPieces_cases pieces with htrim | ⟨others, last, htrim, hlast⟩
      · rw [htrim]
        exact isLadder_opening opening (budget + 1)
      · have hfront : others ++ [last] <+: pieces := htrim ▸ trimPieces_isPrefix pieces
        have hothers : others <+: pieces := (List.prefix_append others [last]).trans hfront
        have hname : last ≠ dotDot := by
          rintro rfl
          exact hdots (hfront.subset (by simp))
        have hslash' : ∀ piece ∈ others ++ [last], slash ∉ piece := fun piece hpiece =>
          hslash piece (hfront.subset hpiece)
        have hprecedes' := hprecedes.shorten hfront
        -- the path is a rung above the ladder of what is before its name
        have houter := ih (hprecedes.shorten hothers)
          (fun piece hpiece => hslash piece (hothers.subset hpiece))
          (fun hmem => hdots (hothers.subset hmem))
          (Nat.le_of_lt_succ (Nat.lt_of_lt_of_le (length_parent_lt hlast) (htrim ▸ hbudget)))
        have hmoves := moves_ofPieces_concat hprecedes' hslash' hlast hname
        have hparent := parent?_ofPieces_concat hprecedes' hslash' hlast hname
        have hbefore : namesOf (opening.moves ++ movesOf others) = namesOf (named others) := by
          rw [namesOf_append, namesOf_movesOf]
          cases opening <;> rfl
        have hnames : namesOf (named (others ++ [last])) = namesOf (named others) ++ [last] := by
          rw [named_append, named_cons_of_significant hlast, Component.ofPiece, if_neg hname]
          exact namesOf_concat _ _
        rw [htrim, ancestorsWithin]
        simp only [hparent]
        rw [List.filter_cons_of_pos (by rw [hparent]; rfl), hnames, ← hbefore]
        refine .rung hmoves ?_ (by rw [hbefore, ← named_trimPieces]; exact houter)
        intro hmem
        rcases List.mem_append.mp hmem with hmem | hmem
        · cases opening <;> simp [Opening.moves] at hmem
        · exact hdots (hothers.subset (parent_mem_movesOf_iff.mp hmem))

/-! ### Plain paths

The two facts about ladders are gathered, with what is needed of the components, in a structure:
whoever has a plain path does not have to know how it is spelt. -/

theorem exists_ancestorsWithin_eq_cons (budget : Nat) (path : Path) :
    ∃ outer, ancestorsWithin budget path = path :: outer := by
  cases budget with
  | zero => exact ⟨[], rfl⟩
  | succ budget =>
      unfold ancestorsWithin
      cases path.parent? with
      | none => exact ⟨[], rfl⟩
      | some parent => exact ⟨_, rfl⟩

/-- A path that has a parent is the innermost rung of its ladder. -/
theorem exists_ladder_eq_cons {path : Path} (h : path.parent?.isSome) :
    ∃ outer, path.ladder = path :: outer := by
  obtain ⟨outer, houter⟩ := exists_ancestorsWithin_eq_cons path.bytes.length path
  refine ⟨outer.filter fun ancestor => ancestor.parent?.isSome, ?_⟩
  rw [ladder, ancestors, houter]
  exact List.filter_cons_of_pos (p := fun ancestor : Path => ancestor.parent?.isSome) h

/-- A path is the root, or it stands on a ladder of its own, and it takes no step upwards. -/
structure Plain (path : Path) : Prop where
  parent_not_mem : .parent ∉ path.components
  isLadder : IsLadder path.ladder path.names
  eq_root_or_ladder_eq : path = ⟨[slash]⟩ ∨ ∃ outer, path.ladder = path :: outer

/-- Trimmed pieces that take no step upwards make up a plain path. -/
theorem plain_ofPieces {opening : Opening} {pieces : List Piece}
    (hprecedes : opening.Precedes pieces) (hslash : ∀ piece ∈ pieces, slash ∉ piece)
    (hdots : dotDot ∉ pieces) (hne : (ofPieces opening (trimPieces pieces)).bytes ≠ []) :
    (ofPieces opening (trimPieces pieces)).Plain := by
  have hfront := trimPieces_isPrefix pieces
  have hprecedes' := hprecedes.shorten hfront
  have hslash' : ∀ piece ∈ trimPieces pieces, slash ∉ piece := fun piece hpiece =>
    hslash piece (hfront.subset hpiece)
  have hdots' : dotDot ∉ trimPieces pieces := fun h => hdots (hfront.subset h)
  have hcomponents := components_ofPieces hprecedes' hslash'
  refine ⟨?_, ?_, ?_⟩
  · rw [hcomponents, List.mem_append, parent_mem_named_iff, not_or]
    exact ⟨by cases opening <;> simp [Opening.components], hdots'⟩
  · rw [names, hcomponents, namesOf_append, namesOf_opening, named_trimPieces]
    exact isLadder_ancestorsWithin hprecedes hslash hdots (Nat.le_refl _)
  · rcases trimPieces_cases pieces with htrim | ⟨others, last, htrim, hlast⟩
    · rw [htrim] at hne ⊢
      cases opening with
      | root => exact .inl rfl
      | none => exact absurd rfl hne
      | current => exact .inr ⟨[], by decide⟩
    · rw [htrim] at hprecedes' hslash' hdots' ⊢
      have hname : last ≠ dotDot := fun h => hdots' (by simp [h])
      refine .inr (exists_ladder_eq_cons ?_)
      rw [parent?_ofPieces_concat hprecedes' hslash' hlast hname]
      rfl

theorem IsLadder.names_isPrefix {paths : List Path} {names : List Piece}
    (h : IsLadder paths names) {rung : Path} (hrung : rung ∈ paths) :
    rung.names <+: names ∧ .parent ∉ rung.components := by
  induction h with
  | start => cases hrung
  | dot =>
      obtain rfl := List.mem_singleton.mp hrung
      exact ⟨List.prefix_rfl, by decide⟩
  | @rung path outer before name hmoves hparent _ ih =>
      rcases List.mem_cons.mp hrung with rfl | hrung
      · rw [← namesOf_moves, ← parent_mem_moves_iff, hmoves, namesOf_concat]
        exact ⟨List.prefix_rfl, by simpa using hparent⟩
      · obtain ⟨hnames, hparent⟩ := ih hrung
        exact ⟨hnames.trans (List.prefix_append _ _), hparent⟩

/-- What a path that is no rung is made of says nothing. -/
theorem named_pieces_of_parent? {path : Path} (h : path.parent? = none) :
    named path.pieces = [] := by
  unfold parent? at h
  split at h
  · rename_i htrim
    rw [← named_trimPieces, htrim]
    rfl
  · cases h

/-- A path above a plain one passes the first of its names, and takes no step upwards
either. -/
theorem Plain.names_isPrefix {path ancestor : Path} (hpath : path.Plain)
    (h : ancestor ∈ path.ancestors) :
    ancestor.names <+: path.names ∧ .parent ∉ ancestor.components := by
  cases hparent : ancestor.parent? with
  | some parent =>
      exact hpath.isLadder.names_isPrefix (List.mem_filter.mpr ⟨h, by rw [hparent]; rfl⟩)
  | none =>
      have hnamed := named_pieces_of_parent? hparent
      rw [names_eq, parent_mem_components_iff, ← parent_mem_named_iff, hnamed]
      exact ⟨List.nil_prefix, List.not_mem_nil⟩

end MessageExport.Path
