import MessageExport.Proofs.Files.Ancestors
import MessageExport.Proofs.Files.Growth
/-!
# MessageExport.Proofs.Files.Place

Where **paths lead to**.

A path that takes no step upwards leads along its names: a dot stays where it is, and only
needs a directory there. So what becomes of such a path is decided by the names alone, if the
system takes them (`enter_cases`): they lead into a directory, to a place that is missing, or
against a file.

## Shape of the proofs

Making something at a path needs a place: a directory that is there, and a name in it. `place`
finds the directory by following all moves but the last one, which is `enter`, and the lemmas
`enter_root`, `enter_current` and `enter_name` take one move at a time. They hold from a
directory only; `enter_of_error` says that from anything else nothing is entered. So an
induction along the moves needs to know at every step what is seen, and goes through `Sight`
(`enter_cases`).

`enter_cases` asks that the system takes all the names, and `enter_of_file` only those up to the
file: behind a file the moves are not looked at, however long a name is there. `place_eq_ok_iff`
takes the monadic definition apart once; everything else that is known of a place comes from it.
-/

namespace MessageExport

/-- The system takes a path, whatever files there are: the path is neither empty nor too long,
and neither are its names too long. -/
structure Path.Nameable (path : Path) : Prop where
  zero_not_mem : 0 ∉ path.bytes
  bytes_ne_nil : path.bytes ≠ []
  length_bytes_le : path.bytes.length ≤ FileSystem.maxPathLength
  length_name_le : ∀ name ∈ path.names, name.length ≤ FileSystem.maxNameLength

namespace FileSystem

open MessageExport.Path (Component namesOf)

variable {fs fs' : FileSystem}

/-! ### Paths that the system takes

What the system refuses is decided by the bytes of a path before any file is looked at, except
for the length of a name, which is checked when the name is looked up. `Path.Nameable` holds
both, and `nameable_iff` splits them. -/

/-- A path is accepted that holds no zero byte, is not empty, and is not too long. -/
theorem accept_eq_ok_iff {path : Path} :
    accept path = .ok () ↔
      0 ∉ path.bytes ∧ path.bytes ≠ [] ∧ path.bytes.length ≤ maxPathLength := by
  unfold accept
  split_ifs with hzero hempty hlength
  · simp [hzero]
  · simp [hempty]
  · simp [hzero, hempty, hlength]
  · simp [hzero, hempty, Nat.le_of_not_lt hlength]

theorem acceptName_eq_ok_iff {name : Piece} :
    acceptName name = .ok () ↔ name.length ≤ maxNameLength := by
  unfold acceptName
  split_ifs with hlength
  · simp [hlength]
  · simp [Nat.le_of_not_lt hlength]

/-- The two checks that a path has to pass. -/
theorem nameable_iff {path : Path} :
    path.Nameable ↔ accept path = .ok () ∧ ∀ name ∈ path.names, acceptName name = .ok () := by
  simp only [accept_eq_ok_iff, acceptName_eq_ok_iff]
  constructor
  · intro h
    exact ⟨⟨h.zero_not_mem, h.bytes_ne_nil, h.length_bytes_le⟩, h.length_name_le⟩
  · rintro ⟨⟨hzero, hne, hlength⟩, hnames⟩
    exact ⟨hzero, hne, hlength, hnames⟩

/-- A path that is refused holds a zero byte or is too long, if it is not empty. -/
theorem accept_eq_error {path : Path} {fault : IoFault} (h : accept path = .error fault)
    (hne : path.bytes ≠ []) : fault = .zeroByte ∨ fault = .system .nameTooLong := by
  unfold accept at h
  split_ifs at h with hzero hlength
  · exact .inl (Except.error.inj h).symm
  · exact .inr (Except.error.inj h).symm

section

variable {path rung : Path} (hne : rung.bytes ≠ []) (hfront : rung.bytes <+: path.bytes)

include hne hfront

/-- The system takes what a path begins with, if it takes the path. -/
theorem accept_of_isPrefix (h : accept path = .ok ()) : accept rung = .ok () := by
  obtain ⟨hzero, -, hlength⟩ := accept_eq_ok_iff.mp h
  exact accept_eq_ok_iff.mpr
    ⟨fun hmem => hzero (hfront.subset hmem), hne, Nat.le_trans hfront.length_le hlength⟩

/-- Whether a path is absolute is seen at its first byte. -/
theorem start_of_isPrefix : fs.start rung = fs.start path := by
  obtain ⟨b, bytes, hbytes⟩ := List.exists_cons_of_ne_nil hne
  obtain ⟨more, hmore⟩ := hfront
  unfold start Path.isAbsolute
  rw [← hmore, hbytes]
  rfl

end

/-- Every path starts in a directory, if the working directory is one. -/
theorem sightAt_start (hworking : fs.sightAt fs.workingDirectory = .directory) (path : Path) :
    fs.sightAt (fs.start path) = .directory := by
  unfold start
  split
  · by_cases hroot : [] = fs.workingDirectory
    · rwa [← hroot] at hworking
    · exact sightAt_of_isPrefix List.nil_prefix hroot (Sight.ne_nothing_of_directory hworking)
  · exact hworking

/-! ### Entering a directory

A path that is followed may end at a file. To go on from where it leads there has to be a
directory, and `enter` is to follow moves to one. -/

/-- Follow moves to a directory. -/
def enter (fs : FileSystem) (way : List Piece) (moves : List Component) :
    Except IoFault (List Piece) := do
  let found ← fs.follow way moves
  let _ ← fs.directoryAt found
  .ok found

theorem directoryAt_of_nothing {way : List Piece} (h : fs.sightAt way = .nothing) :
    fs.directoryAt way = .error (.system .notFound) := by
  unfold directoryAt at?
  rw [Sight.of_eq_nothing_iff.mp h]

theorem directoryAt_of_file {way : List Piece} {contents : List UInt8}
    (h : fs.sightAt way = .file contents) :
    fs.directoryAt way = .error (.system .notDirectory) := by
  unfold directoryAt at?
  rw [Sight.of_eq_file_iff.mp h]

/-- Moves that are entered are followed, and lead to a directory. -/
theorem enter_eq_ok {way found : List Piece} {moves : List Component} :
    fs.enter way moves = .ok found ↔
      fs.follow way moves = .ok found ∧ fs.sightAt found = .directory := by
  unfold enter
  cases hfollow : fs.follow way moves with
  | error fault => simp [bind, Except.bind]
  | ok place =>
      cases hentries : fs.directoryAt place with
      | error fault =>
          have hsight : fs.sightAt place ≠ .directory := by
            rw [Ne, sightAt_eq_directory, hentries]
            simp
          simp only [bind, Except.bind, hentries, Except.ok.injEq, reduceCtorEq, false_iff]
          rintro ⟨rfl, hfound⟩
          exact hsight hfound
      | ok entries =>
          have hsight : fs.sightAt place = .directory := sightAt_eq_directory.mpr ⟨_, hentries⟩
          simp only [bind, Except.bind, hentries, Except.ok.injEq]
          exact ⟨fun h => ⟨h, h ▸ hsight⟩, And.left⟩

/-- Where there is no directory, nothing is entered from. -/
theorem enter_of_error {way : List Piece} {fault : IoFault} (h : fs.directoryAt way = .error fault)
    (moves : List Component) : fs.enter way moves = .error fault := by
  unfold enter
  cases moves with
  | nil => simp [follow, h, bind, Except.bind]
  | cons move moves => simp [follow, h, bind, Except.bind]

/-- A directory is entered by no moves. -/
theorem enter_nil {way : List Piece} (h : fs.sightAt way = .directory) :
    fs.enter way [] = .ok way :=
  enter_eq_ok.mpr ⟨rfl, h⟩

section

variable {way : List Piece} (hway : fs.sightAt way = .directory) (moves : List Component)

include hway

theorem enter_root : fs.enter way (.root :: moves) = fs.enter way moves := by
  obtain ⟨entries, hentries⟩ := sightAt_eq_directory.mp hway
  simp [enter, follow, hentries, bind, Except.bind]

theorem enter_current : fs.enter way (.current :: moves) = fs.enter way moves := by
  obtain ⟨entries, hentries⟩ := sightAt_eq_directory.mp hway
  simp [enter, follow, hentries, bind, Except.bind]

/-- A name leads to its place, even if nothing is there: what cannot be entered is found out
there. -/
theorem enter_name {name : Piece} (hname : acceptName name = .ok ()) :
    fs.enter way (.name name :: moves) = fs.enter (way ++ [name]) moves := by
  obtain ⟨entries, hentries⟩ := sightAt_eq_directory.mp hway
  by_cases hnamed : (FileTree.named? name entries).isSome = true
  · simp [enter, follow, hentries, hname, hnamed, bind, Except.bind]
  · have hnothing : fs.sightAt (way ++ [name]) = .nothing := by
      -- a name that is not among the entries is one at which nothing is seen
      by_contra hsight
      exact hnamed ((isSome_named? hentries name).mpr hsight)
    rw [enter_of_error (directoryAt_of_nothing hnothing)]
    simp [enter, follow, hentries, hname, hnamed, bind, Except.bind]

end

/-- Names that the system takes lead into a directory, to a place that is missing, or against
a file. -/
theorem enter_cases {way : List Piece} {moves : List Component}
    (hway : fs.sightAt way = .directory) (hparent : .parent ∉ moves)
    (hnames : ∀ name ∈ namesOf moves, acceptName name = .ok ()) :
    (fs.sightAt (way ++ namesOf moves) = .directory ∧
        fs.enter way moves = .ok (way ++ namesOf moves)) ∨
      (fs.sightAt (way ++ namesOf moves) = .nothing ∧ ¬ fs.Blocked (way ++ namesOf moves) ∧
        fs.enter way moves = .error (.system .notFound)) ∨
      (fs.Blocked (way ++ namesOf moves) ∧
        fs.enter way moves = .error (.system .notDirectory)) := by
  induction moves generalizing way with
  | nil =>
      rw [show namesOf [] = [] from rfl, List.append_nil]
      exact .inl ⟨hway, enter_nil hway⟩
  | cons move moves ih =>
      rw [List.mem_cons, not_or] at hparent
      cases move with
      | root =>
          rw [enter_root hway]
          exact ih hway hparent.2 hnames
      | current =>
          rw [enter_current hway]
          exact ih hway hparent.2 hnames
      | parent => exact absurd rfl hparent.1
      | name name =>
          have hcons : namesOf (.name name :: moves) = name :: namesOf moves := rfl
          rw [hcons] at hnames ⊢
          obtain ⟨hname, hnames⟩ := List.forall_mem_cons.mp hnames
          rw [enter_name hway moves hname, List.append_cons]
          cases hsight : fs.sightAt (way ++ [name]) with
          -- the name leads into a directory, and the other moves go on from there
          | directory => exact ih hsight hparent.2 hnames
          | file contents =>
              -- a file is in the way of all that is behind it
              exact .inr (.inr ⟨⟨_, List.prefix_append _ _, contents, hsight⟩,
                enter_of_error (directoryAt_of_file hsight) moves⟩)
          | nothing =>
              -- where nothing is seen, nothing is seen behind it, and no file was passed before
              have hfront := List.prefix_append (way ++ [name]) (namesOf moves)
              refine .inr (.inl ⟨sightAt_of_nothing hfront hsight, ?_,
                enter_of_error (directoryAt_of_nothing hsight) moves⟩)
              intro hblocked
              rcases blocked_concat_iff.mp (hblocked.of_nothing hfront hsight) with h | ⟨_, h⟩
              · exact not_blocked_of_directory hway h
              · rw [hsight] at h
                cases h

/-- Against a file, moves come to their end, whatever they would pass beyond it. -/
theorem enter_of_file {way front : List Piece} {moves : List Component} {contents : List UInt8}
    (hway : fs.sightAt way = .directory) (hparent : .parent ∉ moves)
    (hfront : front <+: namesOf moves) (hnames : ∀ name ∈ front, acceptName name = .ok ())
    (hfile : fs.sightAt (way ++ front) = .file contents) :
    fs.enter way moves = .error (.system .notDirectory) := by
  induction moves generalizing way front with
  | nil =>
      rw [List.prefix_nil.mp hfront, List.append_nil, hway] at hfile
      cases hfile
  | cons move moves ih =>
      rw [List.mem_cons, not_or] at hparent
      cases move with
      | root =>
          rw [enter_root hway]
          exact ih hway hparent.2 hfront hnames hfile
      | current =>
          rw [enter_current hway]
          exact ih hway hparent.2 hfront hnames hfile
      | parent => exact absurd rfl hparent.1
      | name name =>
          rcases List.prefix_cons_iff.mp hfront with rfl | ⟨front, rfl, hmore⟩
          · rw [List.append_nil, hway] at hfile
            cases hfile
          · obtain ⟨hname, hnames⟩ := List.forall_mem_cons.mp hnames
            rw [List.append_cons] at hfile
            rw [enter_name hway moves hname]
            cases hsight : fs.sightAt (way ++ [name]) with
            | directory => exact ih hsight hparent.2 hmore hnames hfile
            | file => exact enter_of_error (directoryAt_of_file hsight) moves
            | nothing =>
                rw [sightAt_of_nothing (List.prefix_append _ _) hsight] at hfile
                cases hfile

/-- Where moves without a step upwards lead to. -/
theorem follow_eq_ok_of_parent_not_mem {way found : List Piece} {moves : List Component}
    (hparent : .parent ∉ moves) (hfound : fs.follow way moves = .ok found) :
    found = way ++ namesOf moves ∧ ∀ name ∈ namesOf moves, acceptName name = .ok () := by
  induction moves generalizing way with
  | nil =>
      obtain rfl := Except.ok.inj hfound
      exact ⟨(List.append_nil way).symm, List.forall_mem_nil _⟩
  | cons move moves ih =>
      rw [List.mem_cons, not_or] at hparent
      obtain ⟨-, hmove⟩ := follow_cons_eq_ok.mp hfound
      cases move with
      | root => exact ih hparent.2 hmove
      | current => exact ih hparent.2 hmove
      | parent => exact absurd rfl hparent.1
      | name name =>
          obtain ⟨hname, -, hrest⟩ := hmove
          obtain ⟨rfl, hnames⟩ := ih hparent.2 hrest
          exact ⟨(List.append_cons way name _).symm, List.forall_mem_cons.mpr ⟨hname, hnames⟩⟩

/-- To follow moves and then more of them is to follow them all. -/
theorem follow_append (way : List Piece) (moves moves' : List Component) :
    fs.follow way (moves ++ moves') =
      fs.follow way moves >>= fun found => fs.follow found moves' := by
  induction moves generalizing way with
  | nil => rfl
  | cons move moves ih =>
      rw [List.cons_append, follow, follow]
      cases fs.directoryAt way with
      | error fault => rfl
      | ok entries =>
          cases move with
          | root => exact ih way
          | current => exact ih way
          | parent => exact ih way.dropLast
          | name name =>
              cases hname : acceptName name with
              | error fault => simp [bind, Except.bind, hname]
              | ok =>
                  by_cases hnamed : (FileTree.named? name entries).isSome = true
                  · simpa [bind, Except.bind, hname, hnamed] using ih (way ++ [name])
                  · simp [bind, Except.bind, hname, hnamed]

/-! ### Places of names

Only the last move decides what `place` makes of a path: a name has a place, a dot or a step
upwards names a directory that is there already. The lemmas for the two kinds of last move
replace the definition from here on. -/

/-- A path that ends in a name has its place in the directory that is entered by the moves
before. -/
theorem place_eq {path : Path} {before : List Component} {name : Piece}
    (hmoves : path.moves = before ++ [.name name]) :
    fs.place path = (do
      accept path
      let way ← fs.enter (fs.start path) before
      acceptName name
      .ok (way, name)) := by
  unfold place enter
  simp only [hmoves, List.reverse_concat, List.reverse_reverse, bind_assoc]
  rfl

/-- A path that ends in anything else has no place to make something at. -/
theorem place_eq_of_ne_name {path : Path} {before : List Component} {last : Component}
    (hmoves : path.moves = before ++ [last]) (hlast : ∀ name, last ≠ .name name) :
    fs.place path = (do
      accept path
      let _ ← fs.enter (fs.start path) before
      .error (.system .alreadyExists)) := by
  unfold place enter
  simp only [hmoves, List.reverse_concat, List.reverse_reverse, bind_assoc]
  cases last with
  | name name => exact absurd rfl (hlast name)
  | root => rfl
  | current => rfl
  | parent => rfl

/-- A path has a place if the system accepts it, the moves before its last name lead into a
directory, and that name is not too long. -/
theorem place_eq_ok_iff {path : Path} {way : List Piece} {name : Piece} :
    fs.place path = .ok (way, name) ↔
      accept path = .ok () ∧ (∃ before, path.moves = before ++ [.name name] ∧
        fs.enter (fs.start path) before = .ok way) ∧ acceptName name = .ok () := by
  constructor
  · intro hplace
    rcases List.eq_nil_or_concat' path.moves with hmoves | ⟨before, last, hmoves⟩
    · unfold place at hplace
      rw [hmoves] at hplace
      cases haccept : accept path <;> rw [haccept] at hplace <;> cases hplace
    · by_cases hlast : ∃ name, last = .name name
      · obtain ⟨name, rfl⟩ := hlast
        rw [place_eq hmoves] at hplace
        cases haccept : accept path with
        | error fault => rw [haccept] at hplace; cases hplace
        | ok =>
            cases henter : fs.enter (fs.start path) before with
            | error fault => rw [haccept, henter] at hplace; cases hplace
            | ok found =>
                cases hname : acceptName name with
                | error fault => rw [haccept, henter, hname] at hplace; cases hplace
                | ok =>
                    rw [haccept, henter, hname] at hplace
                    cases hplace
                    exact ⟨rfl, ⟨before, hmoves, henter⟩, hname⟩
      · -- whatever ends in no name is refused in the end
        rw [place_eq_of_ne_name hmoves (fun name h => hlast ⟨name, h⟩)] at hplace
        cases haccept : accept path with
        | error fault => rw [haccept] at hplace; cases hplace
        | ok =>
            cases henter : fs.enter (fs.start path) before with
            | error fault => rw [haccept, henter] at hplace; cases hplace
            | ok found => rw [haccept, henter] at hplace; cases hplace
  · rintro ⟨haccept, ⟨before, hmoves, henter⟩, hname⟩
    rw [place_eq hmoves, haccept, henter]
    show (acceptName name >>= fun _ => Except.ok (way, name)) = _
    rw [hname]
    rfl

/-- What is at the place of a path is what the path leads to. -/
theorem locate_of_place {path : Path} {way : List Piece} {name : Piece}
    (hplace : fs.place path = .ok (way, name)) (hsight : fs.sightAt (way ++ [name]) ≠ .nothing) :
    fs.locate path = .ok (way ++ [name]) := by
  obtain ⟨haccept, ⟨before, hmoves, henter⟩, hname⟩ := place_eq_ok_iff.mp hplace
  obtain ⟨hfollow, hdirectory⟩ := enter_eq_ok.mp henter
  unfold locate
  rw [haccept, hmoves]
  show fs.follow (fs.start path) (before ++ [.name name]) = _
  rw [follow_append, hfollow]
  show fs.follow way [.name name] = _
  exact follow_cons_eq_ok.mpr ⟨hdirectory, hname, hsight, rfl⟩

/-- What is seen of a path is what is seen at its place. -/
theorem sightOf_of_place {path : Path} {way : List Piece} {name : Piece}
    (hplace : fs.place path = .ok (way, name)) (hsight : fs.sightAt (way ++ [name]) ≠ .nothing) :
    fs.sightOf path = fs.sightAt (way ++ [name]) :=
  sightOf_of_locate (locate_of_place hplace hsight)

/-- A place stays the place of its path as long as directories stay directories. -/
theorem Retains.place (h : Retains fs fs') {path : Path} {way : List Piece} {name : Piece}
    (hplace : fs.place path = .ok (way, name)) : fs'.place path = .ok (way, name) := by
  obtain ⟨haccept, ⟨before, hmoves, henter⟩, hname⟩ := place_eq_ok_iff.mp hplace
  obtain ⟨hfollow, hdirectory⟩ := enter_eq_ok.mp henter
  refine place_eq_ok_iff.mpr ⟨haccept, ⟨before, hmoves, ?_⟩, hname⟩
  rw [h.start]
  exact enter_eq_ok.mpr ⟨h.follow hfollow, h.directory hdirectory⟩

/-- A place lies in a directory. -/
theorem sightAt_of_place {path : Path} {way : List Piece} {name : Piece}
    (hplace : fs.place path = .ok (way, name)) : fs.sightAt way = .directory := by
  obtain ⟨-, ⟨before, -, henter⟩, -⟩ := place_eq_ok_iff.mp hplace
  exact (enter_eq_ok.mp henter).2

/-- A path that has a place and does not step upwards passes names that the system takes, and
its place is at their end. -/
theorem names_of_place {path : Path} {way : List Piece} {name : Piece}
    (hplace : fs.place path = .ok (way, name)) (hparent : .parent ∉ path.components) :
    way ++ [name] = fs.start path ++ path.names ∧
      ∀ name ∈ path.names, acceptName name = .ok () := by
  obtain ⟨-, ⟨before, hmoves, henter⟩, hname⟩ := place_eq_ok_iff.mp hplace
  -- the moves before the last one take no step upwards either
  have hbefore : .parent ∉ before := by
    rw [← Path.parent_mem_moves_iff, hmoves] at hparent
    exact fun h => hparent (List.mem_append_left _ h)
  obtain ⟨rfl, hnames⟩ := follow_eq_ok_of_parent_not_mem hbefore (enter_eq_ok.mp henter).1
  rw [← Path.namesOf_moves, hmoves, Path.namesOf_concat, List.append_assoc]
  refine ⟨rfl, ?_⟩
  intro other hother
  rcases List.mem_append.mp hother with hother | hother
  · exact hnames other hother
  · exact List.mem_singleton.mp hother ▸ hname

/-- Names that the system takes lead to a place in a directory, or in one that is missing, or
against a file. -/
theorem place_cases {path : Path} {before : List Component} {name : Piece}
    (hmoves : path.moves = before ++ [.name name]) (hparent : .parent ∉ before)
    (hstart : fs.sightAt (fs.start path) = .directory) (haccept : accept path = .ok ())
    (hnames : ∀ other ∈ namesOf before ++ [name], acceptName other = .ok ()) :
    fs.place path = .ok (fs.start path ++ namesOf before, name) ∨
      (¬ fs.Blocked (fs.start path ++ namesOf before) ∧
        fs.sightAt (fs.start path ++ namesOf before) = .nothing ∧
        fs.place path = .error (.system .notFound)) ∨
      (fs.Blocked (fs.start path ++ namesOf before) ∧
        fs.place path = .error (.system .notDirectory)) := by
  have hname := hnames name (by simp)
  rw [place_eq hmoves, haccept]
  rcases enter_cases hstart hparent (fun other h => hnames other (List.mem_append_left _ h)) with
    ⟨-, henter⟩ | ⟨hnothing, hblocked, henter⟩ | ⟨hblocked, henter⟩
  · rw [henter]
    left
    show (acceptName name >>= fun _ => _) = _
    rw [hname]
    rfl
  · rw [henter]
    exact .inr (.inl ⟨hblocked, hnothing, rfl⟩)
  · rw [henter]
    exact .inr (.inr ⟨hblocked, rfl⟩)

/-! ### Places of paths

What a path leads to, as far as it takes no step upwards: the names of the path behind where it
starts. Both directions are needed, one to find out what an existing path says of its names, the
other to find a directory that was made. -/

/-- A path that takes no step upwards leads along its names, which the system takes. -/
theorem names_of_locate {path : Path} {found : List Piece} (hparent : .parent ∉ path.components)
    (h : fs.locate path = .ok found) : found = fs.start path ++ path.names ∧ path.Nameable := by
  rw [← Path.parent_mem_moves_iff] at hparent
  unfold locate at h
  cases haccept : accept path with
  | error fault => rw [haccept] at h; cases h
  | ok =>
      rw [haccept] at h
      obtain ⟨hfound, hnames⟩ := follow_eq_ok_of_parent_not_mem hparent h
      rw [Path.namesOf_moves] at hfound hnames
      exact ⟨hfound, nameable_iff.mpr ⟨haccept, hnames⟩⟩

/-- Where a directory is seen at the end of its names, a path leads there. -/
theorem locate_of_directory {path : Path} (hparent : .parent ∉ path.components)
    (hnameable : path.Nameable) (hstart : fs.sightAt (fs.start path) = .directory)
    (hsight : fs.sightAt (fs.start path ++ path.names) = .directory) :
    fs.locate path = .ok (fs.start path ++ path.names) := by
  rw [← Path.parent_mem_moves_iff] at hparent
  obtain ⟨haccept, hnames⟩ := nameable_iff.mp hnameable
  rw [← Path.namesOf_moves] at hnames hsight ⊢
  have hfollow : fs.follow (fs.start path) path.moves =
      .ok (fs.start path ++ namesOf path.moves) := by
    rcases enter_cases hstart hparent hnames with ⟨-, henter⟩ | ⟨hnothing, -⟩ | ⟨hblocked, -⟩
    · exact (enter_eq_ok.mp henter).1
    · rw [hsight] at hnothing
      cases hnothing
    · exact absurd hblocked (not_blocked_of_directory hsight)
  unfold locate
  rw [haccept]
  exact hfollow

end FileSystem

end MessageExport
