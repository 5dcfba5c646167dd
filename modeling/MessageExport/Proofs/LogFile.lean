import MessageExport.LogFile
import MessageExport.Proofs.Files.Path
import MessageExport.Proofs.Text.Utf8
/-!
# MessageExport.Proofs.LogFile

Where a **log file** lies.

The directory of a log file is what its path has before the last name, with the ending
that says nothing trimmed off, and the working directory if that leaves nothing
(`logDirectory`). A directory that is got this way ends in a name, unless it is the root or
a dot, so the name can be joined to it again and is split off again as it was.

## Shape of the proofs

`EndsIn` splits the pieces of a path at its last name, and everything is said by such a split:
when a path has a log file (`ofPath_eq_ok_iff`), what the name can be (`fileName_of_endsIn`),
and which components the directory has (`components_logDirectory`). For joining them again the
directory has to be spelt by pieces of its own. There are two cases, which are those of
`trimPieces_cases`: nothing is in front of the name but the opening, or there is another name
(`exists_join_eq_ofPieces`).
-/

namespace MessageExport

open MessageExport.Path (Opening EndsIn ofPieces trimPieces named Significant slash dot dotDot)

namespace LogTarget

/-- The directory of a name that stands behind an opening and pieces. -/
def logDirectory (opening : Opening) (front : List Piece) : Path :=
  if (ofPieces opening (trimPieces front)).bytes = [] then ⟨dot⟩
  else ofPieces opening (trimPieces front)

/-- Pieces at the end that name nothing make no other directory. -/
theorem logDirectory_trimPieces (opening : Opening) (front : List Piece) :
    logDirectory opening (trimPieces front) = logDirectory opening front := by
  unfold logDirectory
  rw [Path.trimPieces_trimPieces]

/-- A directory is never spelt by nothing. -/
theorem bytes_logDirectory_ne_nil (opening : Opening) (front : List Piece) :
    (logDirectory opening front).bytes ≠ [] := by
  unfold logDirectory
  split
  · exact List.cons_ne_nil _ _
  · assumption

/-- Nothing is left of the pieces in front of a name exactly if no component is. -/
theorem bytes_trimmed_eq_nil_iff {opening : Opening} {front : List Piece}
    (hprecedes : opening.Precedes front) :
    (ofPieces opening (trimPieces front)).bytes = [] ↔
      opening.components ++ named front = [] := by
  rw [Path.bytes_ofPieces_eq_nil_iff (hprecedes.shorten (Path.trimPieces_isPrefix front)),
    ← Path.named_trimPieces, List.append_eq_nil_iff]
  refine and_congr ?_ ?_
  · cases opening <;> simp [Opening.components]
  · constructor
    · intro htrim
      rw [htrim]
      rfl
    · intro hnamed
      rcases Path.trimPieces_cases front with htrim | ⟨others, piece, htrim, hpiece⟩
      · exact htrim
      · rw [htrim, Path.named_append, Path.named_cons_of_significant hpiece] at hnamed
        exact absurd hnamed (by simp)

/-- The pieces in front of a name make up the components of its directory. -/
theorem components_logDirectory {opening : Opening} {front : List Piece}
    (hprecedes : opening.Precedes front) (hslash : ∀ piece ∈ front, slash ∉ piece) :
    (logDirectory opening front).components =
      if opening.components ++ named front = [] then [.current]
      else opening.components ++ named front := by
  have hfront := Path.trimPieces_isPrefix front
  unfold logDirectory
  by_cases hempty : (ofPieces opening (trimPieces front)).bytes = []
  · rw [if_pos hempty, if_pos ((bytes_trimmed_eq_nil_iff hprecedes).mp hempty)]
    rfl
  · rw [if_neg hempty, if_neg (mt (bytes_trimmed_eq_nil_iff hprecedes).mpr hempty),
      Path.components_ofPieces (hprecedes.shorten hfront) fun piece hpiece =>
        hslash piece (hfront.subset hpiece), Path.named_trimPieces]

/-! ### Splitting

Bytes that are no text cannot be the name of a log file, so the last name is given as the
encoding of a text. -/

/-- A path that ends in a name has that name for its file, and what is in front of it for its
directory. -/
theorem ofPath_of_endsIn {path : Path} {front more : List Piece} {fileName : String}
    (h : EndsIn path.pieces front (Text.encode fileName) more) :
    ofPath path = .ok ⟨logDirectory path.opening front, fileName⟩ := by
  have hname : path.fileName? = some (Text.encode fileName) :=
    Path.fileName?_eq_some_iff.mpr
      ⟨_, Path.components_eq_concat_iff.mpr ⟨front, more, h, rfl⟩⟩
  have htext : path.fileName?.bind Text.decode? = some fileName := by
    rw [hname]
    exact Text.decode?_eq_some_iff.mpr rfl
  unfold ofPath
  simp only [htext, Path.parent?_eq h]
  rfl

/-- A path that ends in no name, or in one that is no text, is refused. -/
theorem ofPath_eq_error {path : Path}
    (h : ¬ ∃ before fileName, path.components = before ++ [.name (Text.encode fileName)]) :
    ofPath path = .error (.invalidPath path) := by
  have hnone : path.fileName?.bind Text.decode? = none := by
    rw [Option.bind_eq_none_iff]
    intro name hname
    obtain ⟨before, hcomponents⟩ := Path.fileName?_eq_some_iff.mp hname
    cases hdecode : Text.decode? name with
    | none => rfl
    | some fileName =>
        exact absurd ⟨before, fileName, Text.decode?_eq_some_iff.mp hdecode ▸ hcomponents⟩ h
  unfold ofPath
  simp only [hnone]

/-- The log files that a path can have. -/
theorem ofPath_eq_ok_iff {path : Path} {target : LogTarget} :
    ofPath path = .ok target ↔
      ∃ front more, EndsIn path.pieces front (Text.encode target.fileName) more ∧
        target.directory = logDirectory path.opening front := by
  constructor
  · intro h
    by_cases hends :
        ∃ before fileName, path.components = before ++ [.name (Text.encode fileName)]
    · obtain ⟨before, fileName, hcomponents⟩ := hends
      obtain ⟨front, more, hends, -⟩ := Path.components_eq_concat_iff.mp hcomponents
      obtain rfl := Except.ok.inj ((ofPath_of_endsIn hends).symm.trans h)
      exact ⟨front, more, hends, rfl⟩
    · rw [ofPath_eq_error hends] at h
      cases h
  · rintro ⟨front, more, hends, hdirectory⟩
    rw [ofPath_of_endsIn hends, ← hdirectory]

/-- A path has a log file, or it is refused as invalid. -/
theorem ofPath_cases (path : Path) :
    (∃ target, ofPath path = .ok target) ∨ ofPath path = .error (.invalidPath path) := by
  by_cases hends : ∃ before name, path.components = before ++ [.name (Text.encode name)]
  · obtain ⟨before, name, hcomponents⟩ := hends
    obtain ⟨front, more, hends, -⟩ := Path.components_eq_concat_iff.mp hcomponents
    exact .inl ⟨_, ofPath_of_endsIn hends⟩
  · exact .inr (ofPath_eq_error hends)

/-! ### Names of files -/

/-- What ends the pieces of a path is a name of a file: not empty, no dots and without a
separator. -/
theorem fileName_of_endsIn {path : Path} {front more : List Piece} {fileName : String}
    (h : EndsIn path.pieces front (Text.encode fileName) more) :
    fileName ≠ "" ∧ fileName ≠ "." ∧ fileName ≠ ".." ∧ '/' ∉ fileName.toList := by
  have hmem : Text.encode fileName ∈ path.pieces := by simp [h.pieces_eq]
  refine ⟨?_, ?_, ?_, ?_⟩
  · rintro rfl
    exact h.significant.1 rfl
  · rintro rfl
    exact h.significant.2 (by decide)
  · rintro rfl
    exact h.ne_dotDot (by decide)
  · intro hslash
    exact Path.slash_not_mem_of_mem_pieces _ hmem
      (List.mem_flatMap.mpr ⟨'/', hslash, by decide⟩)

/-! ### Joining again

The name has no separator, so it is relative, and is joined behind the directory. The root ends
in a separator, and every other directory does not. -/

/-- A name is joined to a path behind a separator, of which a path that ends in one needs
no other. -/
theorem join_of_getLast?_eq {directory name : Path} (hname : slash ∉ name.bytes)
    (hlast : directory.bytes.getLast? = some slash) :
    directory.join name = ⟨directory.bytes ++ name.bytes⟩ := by
  have hdirectory : directory.bytes ≠ [] := by
    intro hempty
    rw [hempty] at hlast
    cases hlast
  unfold Path.join
  rw [if_neg (by simp [Path.isAbsolute_eq_false hname, hdirectory]), if_pos hlast]

/-- Otherwise there is one separator between them. -/
theorem join_of_getLast?_ne {directory name : Path} (hname : slash ∉ name.bytes)
    (hdirectory : directory.bytes ≠ []) (hlast : directory.bytes.getLast? ≠ some slash) :
    directory.join name = ⟨directory.bytes ++ slash :: name.bytes⟩ := by
  unfold Path.join
  rw [if_neg (by simp [Path.isAbsolute_eq_false hname, hdirectory]), if_neg hlast]

/-- What an opening may stand before may be made longer at its end. -/
theorem precedes_concat {opening : Opening} {pieces : List Piece}
    (h : opening.Precedes pieces) (hne : pieces ≠ []) (piece : Piece) :
    opening.Precedes (pieces ++ [piece]) := by
  cases pieces with
  | nil => exact absurd rfl hne
  | cons first rest => cases opening <;> exact h

/-- The directory is spelt by pieces of its own, and behind them the name is joined to
it. -/
theorem exists_join_eq_ofPieces {path : Path} {front more : List Piece} {fileName : String}
    (h : EndsIn path.pieces front (Text.encode fileName) more) :
    ∃ opening pieces,
      (logDirectory path.opening front).join (.ofString fileName) =
        ofPieces opening (pieces ++ [Text.encode fileName]) ∧
      opening.Precedes (pieces ++ [Text.encode fileName]) ∧ (∀ piece ∈ pieces, slash ∉ piece) ∧
      logDirectory opening pieces = logDirectory path.opening front := by
  have hmem : Text.encode fileName ∈ path.pieces := by simp [h.pieces_eq]
  have hname : slash ∉ Text.encode fileName := Path.slash_not_mem_of_mem_pieces _ hmem
  rcases Path.trimPieces_cases front with htrim | ⟨others, last, htrim, hlast⟩
  · -- nothing is in front of the name but the opening
    have hdirectory : logDirectory path.opening front = logDirectory path.opening [] := by
      rw [← logDirectory_trimPieces, htrim]
    rw [hdirectory]
    cases path.opening with
    | root =>
        exact ⟨.root, [], join_of_getLast?_eq hname rfl, trivial, List.forall_mem_nil _, rfl⟩
    | current =>
        exact ⟨.current, [[]], join_of_getLast?_ne hname (List.cons_ne_nil _ _) (by decide),
          fun piece hpiece => (Option.some.inj hpiece).symm, by simp, rfl⟩
    | none =>
        exact ⟨.current, [[]], join_of_getLast?_ne hname (List.cons_ne_nil _ _) (by decide),
          fun piece hpiece => (Option.some.inj hpiece).symm, by simp, rfl⟩
  · -- the directory ends in a name, and so not in a separator
    have hfront : others ++ [last] <+: path.pieces := by
      rw [← htrim, h.pieces_eq]
      exact (Path.trimPieces_isPrefix front).trans (List.prefix_append _ _)
    have hprecedes : path.opening.Precedes (others ++ [last]) :=
      (Path.precedes_pieces hmem h.significant).shorten hfront
    have hslash : ∀ piece ∈ others ++ [last], slash ∉ piece := fun piece hpiece =>
      Path.slash_not_mem_of_mem_pieces piece (hfront.subset hpiece)
    have hne : (ofPieces path.opening (others ++ [last])).bytes ≠ [] := fun hempty =>
      absurd ((Path.bytes_ofPieces_eq_nil_iff hprecedes).mp hempty).2 (by simp)
    have hdirectory : logDirectory path.opening front =
        ofPieces path.opening (others ++ [last]) := by
      unfold logDirectory
      rw [htrim, if_neg hne]
    refine ⟨path.opening, others ++ [last], ?_, precedes_concat hprecedes (by simp) _, hslash, ?_⟩
    · have hend := @Path.getLast?_ofPieces_concat path.opening others last hlast
        (hslash last (by simp))
      rw [hdirectory, @join_of_getLast?_ne _ (.ofString fileName) hname hne hend]
      unfold ofPieces
      rw [@Path.paste_concat (others ++ [last]) (by simp), ← List.append_assoc]
      rfl
    · rw [← htrim, logDirectory_trimPieces]

/-- The directory and the name, joined together, are split into the same again. -/
theorem ofPath_path {path : Path} {target : LogTarget} (h : ofPath path = .ok target) :
    ofPath target.path = .ok target := by
  obtain ⟨front, more, hends, hfront⟩ := ofPath_eq_ok_iff.mp h
  obtain ⟨opening, pieces, hjoin, hprecedes, hslash, hdirectory⟩ := exists_join_eq_ofPieces hends
  have hpath : target.path = ofPieces opening (pieces ++ [Text.encode target.fileName]) := by
    rw [LogTarget.path, hfront, hjoin]
  have hname : slash ∉ Text.encode target.fileName :=
    Path.slash_not_mem_of_mem_pieces _ (show _ ∈ path.pieces by simp [hends.pieces_eq])
  have hslash' : ∀ piece ∈ pieces ++ [Text.encode target.fileName], slash ∉ piece := by
    intro piece hpiece
    rcases List.mem_append.mp hpiece with hpiece | hpiece
    · exact hslash piece hpiece
    · exact List.mem_singleton.mp hpiece ▸ hname
  refine ofPath_eq_ok_iff.mpr ⟨pieces, [], ⟨?_, hends.significant, hends.ne_dotDot,
    List.forall_mem_nil _⟩, ?_⟩
  · rw [hpath, Path.pieces_ofPieces hprecedes hslash' (by simp)]
  · rw [hpath, Path.opening_ofPieces hprecedes hslash', hdirectory, hfront]

/-- **Splitting the path of a log file.** A path, read as components, has a log file
exactly if the last of them is a name that is text. That name is the file's; it is not
empty, no dots and without a separator. The directory is not empty, and its components are
those before the name, or a dot if there are none. Every other path is refused as
invalid, and for no other reason. The directory and the name, joined together, are split
into the same again. -/
theorem ofPath_components (path : Path) :
    path.components =
        (if path.isAbsolute then [.root]
          else if (Path.cut path.bytes).head? = some dot then [.current] else []) ++
        (((Path.cut path.bytes).filter fun piece => decide (piece ≠ [] ∧ piece ≠ dot)).map
          fun piece => if piece = dotDot then .parent else .name piece) ∧
      ((∃ target, ofPath path = .ok target) ↔
        ∃ before name, path.components = before ++ [.name (Text.encode name)]) ∧
      (∀ target, ofPath path = .ok target →
        (∃ before, path.components = before ++ [.name (Text.encode target.fileName)] ∧
          target.directory.components = (if before = [] then [.current] else before) ∧
          (before = [] → target.directory = .ofString ".")) ∧
        target.fileName ≠ "" ∧ target.fileName ≠ "." ∧ target.fileName ≠ ".." ∧
        '/' ∉ target.fileName.toList ∧
        target.directory.bytes ≠ [] ∧
        ofPath (target.directory.join (.ofString target.fileName)) = .ok target) ∧
      ((¬ ∃ before name, path.components = before ++ [.name (Text.encode name)]) →
        ofPath path = .error (.invalidPath path)) ∧
      ∀ fault, ofPath path = .error fault → fault = .invalidPath path := by
  refine ⟨path.components_eq, ?_, ?_, ofPath_eq_error, ?_⟩
  · constructor
    · rintro ⟨target, h⟩
      obtain ⟨front, more, hends, -⟩ := ofPath_eq_ok_iff.mp h
      exact ⟨_, _, Path.components_eq_concat_iff.mpr ⟨front, more, hends, rfl⟩⟩
    · rintro ⟨before, name, hcomponents⟩
      obtain ⟨front, more, hends, -⟩ := Path.components_eq_concat_iff.mp hcomponents
      exact ⟨_, ofPath_of_endsIn hends⟩
  · intro target h
    obtain ⟨front, more, hends, hdirectory⟩ := ofPath_eq_ok_iff.mp h
    obtain ⟨hempty, hdot, hdotDot, hslash⟩ := fileName_of_endsIn hends
    have hfront : front <+: path.pieces := ⟨_, hends.pieces_eq.symm⟩
    have hprecedes : path.opening.Precedes front :=
      (Path.precedes_pieces (by simp [hends.pieces_eq]) hends.significant).shorten hfront
    have hnames : ∀ piece ∈ front, slash ∉ piece := fun piece hpiece =>
      Path.slash_not_mem_of_mem_pieces piece (hfront.subset hpiece)
    refine ⟨⟨path.opening.components ++ named front,
      Path.components_eq_concat_iff.mpr ⟨front, more, hends, rfl⟩, ?_, ?_⟩,
      hempty, hdot, hdotDot, hslash, ?_, ofPath_path h⟩
    · rw [hdirectory, components_logDirectory hprecedes hnames]
    · intro hnone
      rw [hdirectory, logDirectory, if_pos ((bytes_trimmed_eq_nil_iff hprecedes).mpr hnone)]
      rfl
    · rw [hdirectory]
      exact bytes_logDirectory_ne_nil _ _
  · intro fault h
    by_cases hends : ∃ before name, path.components = before ++ [.name (Text.encode name)]
    · obtain ⟨before, name, hcomponents⟩ := hends
      obtain ⟨front, more, hends, -⟩ := Path.components_eq_concat_iff.mp hcomponents
      rw [ofPath_of_endsIn hends] at h
      cases h
    · rw [ofPath_eq_error hends] at h
      exact (Except.error.inj h).symm

end LogTarget

end MessageExport
