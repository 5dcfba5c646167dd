import MessageExport.Proofs.Files.Place
/-!
# MessageExport.Proofs.Files.Directories

**Making directories** along a path.

The directories of a path are made from the outermost missing one in. That is the same as to
try the whole path and, if what it would lie in is missing, to make that first, in the same
way (`makeDirectories_eq_makeNested`). Read like this, one step adds the place of one path
(`grownBy_makeEach`), and on a ladder of paths that the system takes, either a file stands in
the way and nothing is made, or everything is (`makeNested_cases`).

## Shape of the proofs

* One directory: `makeDirectory_eq_ok_iff` says when it is made, and the other lemmas of its
  section what it fails with. Making sure of a directory (`makeEach` of one path) is settled by
  what is seen at its place: a file, nothing or a directory.
* A list of paths: `makeNested_cons_cases` has the three ways in which the first path of a list
  can fare, and what is shown of all lists goes through them by induction. What was made for the
  outer paths only adds directories (`grownBy_makeNested`), so what is known of the files
  before still holds when the inner path is tried again.
* A path: its ladder is such a list. The theorems at the end put the two together with what
  `Path.Plain` knows about the ladder.
-/

namespace MessageExport.FileSystem

open MessageExport.Path (Component namesOf IsLadder)

variable {fs made : FileSystem}

/-! ### Making one directory

A directory is made at a place at which nothing is seen. The fault is that of the place if there
is none, and that something is there otherwise. -/

/-- A directory is made exactly if its path has a place and nothing is there. -/
theorem makeDirectory_eq_ok_iff {path : Path} :
    fs.makeDirectory path = .ok made ↔
      ∃ way name, fs.place path = .ok (way, name) ∧ fs.sightAt (way ++ [name]) = .nothing ∧
        made = fs.put (way ++ [name]) .empty := by
  unfold makeDirectory
  cases hplace : fs.place path with
  | error fault => simp [bind, Except.bind]
  | ok found =>
      obtain ⟨way, name⟩ := found
      simp only [bind, Except.bind, Except.ok.injEq, Prod.mk.injEq]
      cases hat : fs.at? (way ++ [name]) with
      | none =>
          constructor
          · intro h
            exact ⟨way, name, ⟨rfl, rfl⟩, Sight.of_eq_nothing_iff.mpr hat, (Except.ok.inj h).symm⟩
          · rintro ⟨way, name, ⟨rfl, rfl⟩, -, rfl⟩
            rfl
      | some tree =>
          constructor
          · intro h
            cases h
          · rintro ⟨way, name, ⟨rfl, rfl⟩, hnothing, -⟩
            have hnone := Sight.of_eq_nothing_iff.mp hnothing
            rw [at?, hnone] at hat
            cases hat

/-- Where there is something, no directory is made. -/
theorem makeDirectory_of_sight {path : Path} {way : List Piece} {name : Piece}
    (hplace : fs.place path = .ok (way, name)) (hsight : fs.sightAt (way ++ [name]) ≠ .nothing) :
    fs.makeDirectory path = .error (.system .alreadyExists) := by
  unfold makeDirectory
  simp only [hplace, bind, Except.bind]
  cases hat : fs.at? (way ++ [name]) with
  | none => exact absurd (Sight.of_eq_nothing_iff.mpr hat) hsight
  | some tree => rfl

/-- A path without a place fails with the fault of that. -/
theorem makeDirectory_of_error {path : Path} {fault : IoFault}
    (hplace : fs.place path = .error fault) : fs.makeDirectory path = .error fault := by
  unfold makeDirectory
  rw [hplace]
  rfl

/-- If a path has a place, then what it lies in is not missing. -/
theorem makeDirectory_ne_notFound {path : Path} {way : List Piece} {name : Piece}
    (hplace : fs.place path = .ok (way, name)) :
    fs.makeDirectory path ≠ .error (.system .notFound) := by
  by_cases hnothing : fs.sightAt (way ++ [name]) = .nothing
  · rw [makeDirectory_eq_ok_iff.mpr ⟨way, name, hplace, hnothing, rfl⟩]
    simp
  · rw [makeDirectory_of_sight hplace hnothing]
    simp

/-- A directory that is made is there afterwards. -/
theorem sightOf_of_makeDirectory {path : Path} (h : fs.makeDirectory path = .ok made) :
    made.sightOf path = .directory := by
  obtain ⟨way, name, hplace, hnothing, rfl⟩ := makeDirectory_eq_ok_iff.mp h
  have hfolder := sightAt_of_place hplace
  have hextends : Extends fs (fs.put (way ++ [name]) .empty) := extends_put rfl hfolder hnothing
  have hsight : (fs.put (way ++ [name]) .empty).sightAt (way ++ [name]) = .directory :=
    (sightAt_put_of_nothing rfl hfolder hnothing _).trans (if_pos rfl)
  have hplace' := hextends.retains.place hplace
  rw [sightOf_of_place hplace' (Sight.ne_nothing_of_directory hsight), hsight]

/-! ### Making sure of one directory

That something is there already is no fault if it is a directory. -/

section

variable {path : Path} {way : List Piece} {name : Piece}

/-- Without a place there is no directory to make sure of, and nothing changes. -/
theorem makeEach_of_error {fault : IoFault} (hplace : fs.place path = .error fault)
    (hne : fault ≠ .system .alreadyExists) : fs.makeEach [path] = (fs, .error fault) := by
  rw [makeEach, makeDirectory_of_error hplace]
  exact if_neg fun h => hne h.1

/-- Where no file is, there is a directory afterwards. -/
theorem exists_makeEach_eq_ok (hplace : fs.place path = .ok (way, name))
    (hfile : ∀ contents, fs.sightAt (way ++ [name]) ≠ .file contents) :
    ∃ made, fs.makeEach [path] = (made, .ok ()) ∧ made.sightAt (way ++ [name]) = .directory := by
  cases hsight : fs.sightAt (way ++ [name]) with
  | file contents => exact absurd hsight (hfile contents)
  | nothing =>
      -- it is made
      refine ⟨fs.put (way ++ [name]) .empty, ?_, ?_⟩
      · rw [makeEach, makeDirectory_eq_ok_iff.mpr ⟨way, name, hplace, hsight, rfl⟩]
        rfl
      · exact (sightAt_put_of_nothing rfl (sightAt_of_place hplace) hsight _).trans (if_pos rfl)
  | directory =>
      -- it is there already
      have hne : fs.sightAt (way ++ [name]) ≠ .nothing := Sight.ne_nothing_of_directory hsight
      refine ⟨fs, ?_, hsight⟩
      rw [makeEach, makeDirectory_of_sight hplace hne]
      exact if_pos ⟨rfl, hasDirectory_iff.mpr ((sightOf_of_place hplace hne).trans hsight)⟩

/-- A file stays a file. -/
theorem makeEach_of_file {contents : List UInt8} (hplace : fs.place path = .ok (way, name))
    (hfile : fs.sightAt (way ++ [name]) = .file contents) :
    fs.makeEach [path] = (fs, .error (.system .alreadyExists)) := by
  have hne : fs.sightAt (way ++ [name]) ≠ .nothing := Sight.ne_nothing_of_file hfile
  rw [makeEach, makeDirectory_of_sight hplace hne]
  refine if_neg fun h => ?_
  have hdirectory := hasDirectory_iff.mp h.2
  rw [sightOf_of_place hplace hne, hfile] at hdirectory
  cases hdirectory

/-- What was made sure of is a directory. -/
theorem sightOf_of_makeEach (h : fs.makeEach [path] = (made, .ok ())) :
    made.sightOf path = .directory := by
  rw [makeEach] at h
  cases hmake : fs.makeDirectory path with
  | ok own =>
      rw [hmake] at h
      cases h
      exact sightOf_of_makeDirectory hmake
  | error fault =>
      rw [hmake] at h
      dsimp only at h
      split at h
      · rename_i hcondition
        cases h
        exact hasDirectory_iff.mp hcondition.2
      · cases h

/-- At most the place of the path comes in addition. -/
theorem grownBy_makeEach {added : List Piece → Prop}
    (hadded : ∀ way name, fs.place path = .ok (way, name) → added (way ++ [name])) :
    GrownBy added fs (fs.makeEach [path]).1 := by
  rw [makeEach]
  cases hmake : fs.makeDirectory path with
  | ok own =>
      obtain ⟨way, name, hplace, hnothing, rfl⟩ := makeDirectory_eq_ok_iff.mp hmake
      exact GrownBy.put_empty (sightAt_of_place hplace) hnothing (hadded way name hplace)
  | error fault =>
      dsimp only
      split <;> exact GrownBy.refl added fs

end

/-! ### Directories one after another

The program first looks for the innermost path that can be made, remembering those that cannot,
and then makes these. As a recursion along the paths this is one definition, `makeNested`, whose
cases need no list of what is still missing. -/

/-- Make sure that the first of a list of paths is a directory, from the outermost of those in
the list that have to be made in. -/
def makeNested (fs : FileSystem) : List Path → FileSystem × Except IoFault Unit
  | [] => (fs, .ok ())
  | path :: outer =>
      match fs.makeDirectory path with
      | .error (.system .notFound) =>
          match fs.makeNested outer with
          | (made, .ok ()) => made.makeEach [path]
          | (made, .error fault) => (made, .error fault)
      | _ => fs.makeEach [path]

/-- Paths are made sure of one after another, up to the first fault. -/
theorem makeEach_append (fs : FileSystem) (paths paths' : List Path) :
    fs.makeEach (paths ++ paths') =
      match fs.makeEach paths with
      | (made, .ok ()) => made.makeEach paths'
      | (made, .error fault) => (made, .error fault) := by
  induction paths generalizing fs with
  | nil => rfl
  | cons path paths ih =>
      rw [List.cons_append, makeEach, makeEach]
      cases fs.makeDirectory path with
      | ok made => exact ih made
      | error fault =>
          dsimp only
          split
          · exact ih fs
          · rfl

/-- What fails for another reason than that the outer paths are missing does not look at them.
-/
theorem makeNested_of_ne {path : Path} (outer : List Path)
    (h : fs.makeDirectory path ≠ .error (.system .notFound)) :
    fs.makeNested (path :: outer) = fs.makeEach [path] := by
  rw [makeNested]
  split
  · rename_i hmissing
    exact absurd hmissing h
  · rfl

/-- A path without a place ends the work, unless the path is there or what it lies in is
missing. -/
theorem makeNested_of_error {path : Path} {fault : IoFault} (outer : List Path)
    (hplace : fs.place path = .error fault) (hmissing : fault ≠ .system .notFound)
    (hthere : fault ≠ .system .alreadyExists) :
    fs.makeNested (path :: outer) = (fs, .error fault) := by
  have hmake := makeDirectory_of_error hplace
  rw [makeNested_of_ne outer (by simpa [hmake] using hmissing), makeEach_of_error hplace hthere]

/-- What comes of a list of paths: the first one is made after the others, it stays unmade with
one of them, or it does not need them. -/
theorem makeNested_cons_cases (fs : FileSystem) (path : Path) (outer : List Path) :
    (fs.makeDirectory path = .error (.system .notFound) ∧
        ∃ made, fs.makeNested outer = (made, .ok ()) ∧
          fs.makeNested (path :: outer) = made.makeEach [path]) ∨
      (fs.makeDirectory path = .error (.system .notFound) ∧
        ∃ made fault, fs.makeNested outer = (made, .error fault) ∧
          fs.makeNested (path :: outer) = (made, .error fault)) ∨
      (fs.makeDirectory path ≠ .error (.system .notFound) ∧
        fs.makeNested (path :: outer) = fs.makeEach [path]) := by
  by_cases hmissing : fs.makeDirectory path = .error (.system .notFound)
  · rcases hnested : fs.makeNested outer with ⟨made, fault | ⟨⟩⟩
    · refine .inr (.inl ⟨hmissing, made, fault, rfl, ?_⟩)
      rw [makeNested, hmissing, hnested]
    · refine .inl ⟨hmissing, made, rfl, ?_⟩
      rw [makeNested, hmissing, hnested]
  · exact .inr (.inr ⟨hmissing, makeNested_of_ne outer hmissing⟩)

/-- The search ends at a path that fails for another reason than that what it lies in is
missing. -/
theorem makeInnermost_of_ne {path : Path} {fault : IoFault} (outer : List Path)
    (hmake : fs.makeDirectory path = .error fault) (hne : fault ≠ .system .notFound) :
    fs.makeInnermost (path :: outer) =
      if fault = .system .alreadyExists ∧ fs.hasDirectory path then .ok (fs, [])
      else .error fault := by
  rw [makeInnermost, hmake]
  split
  · rename_i heq
    cases heq
  · rename_i heq
    exact absurd (Except.error.inj heq) hne
  · rename_i heq
    rw [Except.error.inj heq]

/-- The recursion comes to the same as the search and the making after it. -/
theorem makeNested_eq (fs : FileSystem) (paths : List Path) :
    fs.makeNested paths =
      match fs.makeInnermost paths with
      | .error fault => (fs, .error fault)
      | .ok (made, missing) => made.makeEach missing.reverse := by
  induction paths with
  | nil => rfl
  | cons path outer ih =>
      cases hmake : fs.makeDirectory path with
      | ok made =>
          rw [makeNested_of_ne outer (by simp [hmake]), makeEach,
            makeInnermost, hmake]
          rfl
      | error fault =>
          by_cases hmissing : fault = .system .notFound
          · subst hmissing
            -- what is missing is put behind what the search finds, so it is made after it
            rw [makeNested, makeInnermost, hmake]
            simp only [ih]
            cases fs.makeInnermost outer with
            | error fault => rfl
            | ok found =>
                obtain ⟨made, missing⟩ := found
                simp [bind, Except.bind, makeEach_append]
          · rw [makeNested_of_ne outer (by simpa [hmake] using hmissing), makeEach, hmake,
              makeInnermost_of_ne outer hmake hmissing]
            dsimp only
            split <;> rfl

/-- Making the missing directories from the outermost in is to make first what a path lies
in, if that is missing. -/
theorem makeDirectories_eq_makeNested (fs : FileSystem) (path : Path) :
    fs.makeDirectories path = fs.makeNested path.ladder := by
  rw [makeNested_eq]
  rfl

/-- The directory that relative paths start in needs not be made. -/
theorem makeNested_dot (hstart : fs.sightAt (fs.start ⟨Path.dot⟩) = .directory) :
    fs.makeNested [⟨Path.dot⟩] = (fs, .ok ()) := by
  have hplace : fs.place ⟨Path.dot⟩ = .error (.system .alreadyExists) := by
    rw [@place_eq_of_ne_name fs ⟨Path.dot⟩ [] .current rfl (fun _ => Component.noConfusion),
      enter_nil hstart]
    rfl
  have hlocate : fs.locate ⟨Path.dot⟩ = .ok (fs.start ⟨Path.dot⟩) :=
    show fs.follow (fs.start ⟨Path.dot⟩) [.current] = _ from
      follow_cons_eq_ok.mpr ⟨hstart, rfl⟩
  have hmake := makeDirectory_of_error hplace
  rw [makeNested_of_ne [] (by simp [hmake]), makeEach, hmake]
  exact if_pos ⟨rfl, hasDirectory_iff.mpr ((sightOf_of_locate hlocate).trans hstart)⟩

/-- What is made lies at places of the paths. -/
theorem grownBy_makeNested {added : List Piece → Prop} {paths : List Path}
    (hadded : ∀ path ∈ paths, ∀ fs' : FileSystem, fs'.workingDirectory = fs.workingDirectory →
      ∀ way name, fs'.place path = .ok (way, name) → added (way ++ [name])) :
    GrownBy added fs (fs.makeNested paths).1 := by
  induction paths with
  | nil => exact GrownBy.refl added fs
  | cons path outer ih =>
      obtain ⟨hpath, houter⟩ := List.forall_mem_cons.mp hadded
      rcases fs.makeNested_cons_cases path outer with
        ⟨-, made, hnested, heq⟩ | ⟨-, made, fault, hnested, heq⟩ | ⟨-, heq⟩
      · have hgrown := ih houter
        rw [hnested] at hgrown
        rw [heq]
        exact hgrown.trans (grownBy_makeEach (hpath made hgrown.workingDirectory))
      · have hgrown := ih houter
        rw [hnested] at hgrown
        rw [heq]
        exact hgrown
      · rw [heq]
        exact grownBy_makeEach (hpath fs rfl)

/-- The first path of a list is a directory if the list is made. -/
theorem sightOf_of_makeNested {path : Path} {outer : List Path}
    (h : fs.makeNested (path :: outer) = (made, .ok ())) : made.sightOf path = .directory := by
  rcases fs.makeNested_cons_cases path outer with
    ⟨-, own, -, heq⟩ | ⟨-, own, fault, -, heq⟩ | ⟨-, heq⟩
  · rw [heq] at h
    exact sightOf_of_makeEach h
  · rw [heq] at h
    cases h
  · rw [heq] at h
    exact sightOf_of_makeEach h

/-- On a ladder of paths that the system takes, a file stands in the way and nothing is made,
or everything is. -/
theorem makeNested_cases {paths : List Path} {names base : List Piece}
    (hladder : IsLadder paths names)
    (hpaths : ∀ path ∈ paths, fs.start path = base ∧ accept path = .ok ())
    (hbase : fs.sightAt base = .directory) (hnames : ∀ name ∈ names, acceptName name = .ok ()) :
    (¬ fs.Blocked (base ++ names) ∧
        ∃ made, fs.makeNested paths = (made, .ok ()) ∧
          made.sightAt (base ++ names) = .directory) ∨
      (fs.Blocked (base ++ names) ∧
        (∃ path ∈ paths, ∃ contents, fs.sightOf path = .file contents) ∧
        ∃ fault, fs.makeNested paths = (fs, .error fault)) := by
  induction hladder with
  | start =>
      rw [List.append_nil]
      exact .inl ⟨not_blocked_of_directory hbase, fs, rfl, hbase⟩
  | dot =>
      obtain ⟨⟨rfl, haccept⟩, -⟩ := List.forall_mem_cons.mp hpaths
      rw [List.append_nil]
      exact .inl ⟨not_blocked_of_directory hbase, fs, makeNested_dot hbase, hbase⟩
  | @rung path outer before name hmoves hparent _ ih =>
      obtain ⟨⟨rfl, haccept⟩, hpaths⟩ := List.forall_mem_cons.mp hpaths
      have hbefore := ih hpaths fun other h => hnames other (List.mem_append_left _ h)
      rw [← List.append_assoc, blocked_concat_iff]
      rcases place_cases hmoves hparent hbase haccept hnames with
        hplace | ⟨hblocked, hnothing, hplace⟩ | ⟨hblocked, hplace⟩
      · -- the directory that the path lies in is there
        have hnot := not_blocked_of_directory (sightAt_of_place hplace)
        rw [makeNested_of_ne outer (makeDirectory_ne_notFound hplace)]
        by_cases hfile : ∃ contents,
            fs.sightAt (fs.start path ++ namesOf before ++ [name]) = .file contents
        · obtain ⟨contents, hfile⟩ := hfile
          have hsight := sightOf_of_place hplace (Sight.ne_nothing_of_file hfile)
          exact .inr ⟨.inr ⟨contents, hfile⟩,
            ⟨path, List.mem_cons_self, contents, hsight.trans hfile⟩, _,
              makeEach_of_file hplace hfile⟩
        · exact .inl ⟨not_or.mpr ⟨hnot, hfile⟩,
            exists_makeEach_eq_ok hplace fun contents h => hfile ⟨contents, h⟩⟩
      · -- it is missing, and so is everything in it, until it is made
        obtain ⟨-, own, hnested, hdirectory⟩ := hbefore.resolve_right fun h => hblocked h.1
        have hgrown : GrownBy (fun _ => True) fs own := by
          have h : GrownBy (fun _ => True) fs (fs.makeNested outer).1 :=
            grownBy_makeNested fun _ _ _ _ _ _ _ => trivial
          rwa [hnested] at h
        have hfile : ¬ ∃ contents,
            fs.sightAt (fs.start path ++ namesOf before ++ [name]) = .file contents := by
          rintro ⟨contents, hfile⟩
          rw [sightAt_of_nothing (List.prefix_append _ _) hnothing] at hfile
          cases hfile
        have hplace' : own.place path = .ok (fs.start path ++ namesOf before, name) := by
          rw [← hgrown.retains.start path] at hbase hdirectory ⊢
          rcases place_cases hmoves hparent (hgrown.retains.directory hbase) haccept hnames with
            hplace' | ⟨-, hnothing', -⟩ | ⟨hblocked', -⟩
          · exact hplace'
          · rw [hdirectory] at hnothing'
            cases hnothing'
          · exact absurd hblocked' (not_blocked_of_directory hdirectory)
        have hmake := makeDirectory_of_error hplace
        rcases fs.makeNested_cons_cases path outer with
          ⟨-, made, hnested', heq⟩ | ⟨-, made, fault, hnested', -⟩ | ⟨hne, -⟩
        · obtain rfl : own = made := by simpa [hnested] using hnested'
          rw [heq]
          refine .inl ⟨not_or.mpr ⟨hblocked, hfile⟩, exists_makeEach_eq_ok hplace' ?_⟩
          intro contents h
          exact hfile ⟨contents, hgrown.sightAt_eq_file_iff.mp h⟩
        · rw [hnested] at hnested'
          cases hnested'
        · exact absurd hmake hne
      · -- a file stands in the way already outside
        obtain ⟨-, ⟨rung, hrung, hfile⟩, -⟩ := hbefore.resolve_left fun h => h.1 hblocked
        exact .inr ⟨.inl hblocked, ⟨rung, List.mem_cons_of_mem path hrung, hfile⟩, _,
          makeNested_of_error outer hplace (by simp) (by simp)⟩

/-! ### The directories of a path

A path that is plain has a ladder, so `makeNested_cases` applies to it as soon as the system
takes the path with all its names. Names that are too long are dealt with at the end: with a
file in the way they are not reached. -/

/-- Whatever comes of making directories, what was there is there as it was. -/
theorem extends_makeDirectories (path : Path) : Extends fs (fs.makeDirectories path).1 := by
  rw [makeDirectories_eq_makeNested]
  have hgrown : GrownBy (fun _ => True) fs
      (fs.makeNested path.ladder).1 :=
    grownBy_makeNested fun _ _ _ _ _ _ _ => trivial
  exact hgrown.toExtends

/-- What stands on the ladder of a path starts where the path does, and is accepted with it. -/
theorem accept_of_mem_ladder {path rung : Path} (haccept : accept path = .ok ())
    (hrung : rung ∈ path.ladder) : fs.start rung = fs.start path ∧ accept rung = .ok () := by
  obtain ⟨hne, hfront⟩ := Path.isPrefix_of_mem_ladder hrung
  exact ⟨start_of_isPrefix hne hfront, accept_of_isPrefix hne hfront haccept⟩

section

variable {path : Path} (hpath : path.Plain)

include hpath

/-- What is made are places of paths above the path, and the system takes these. -/
theorem grownBy_makeDirectories :
    GrownBy (fun way => ∃ ancestor ∈ path.ancestors, ancestor.Nameable ∧
        .parent ∉ ancestor.components ∧ way = fs.start ancestor ++ ancestor.names)
      fs (fs.makeDirectories path).1 := by
  rw [makeDirectories_eq_makeNested]
  refine grownBy_makeNested ?_
  intro rung hrung fs' hworking way name hplace
  have hancestor : rung ∈ path.ancestors := (List.mem_filter.mp hrung).1
  have hparent := (hpath.names_isPrefix hancestor).2
  obtain ⟨hway, hnames⟩ := names_of_place hplace hparent
  have hstart : fs'.start rung = fs.start rung := by
    unfold start
    rw [hworking]
  rw [hstart] at hway
  exact ⟨rung, hancestor, nameable_iff.mpr ⟨(place_eq_ok_iff.mp hplace).1, hnames⟩, hparent, hway⟩

/-- A file above a path stands on the way that the names of the path lead. -/
theorem sightAt_of_file_above {ancestor : Path} {contents : List UInt8}
    (hancestor : ancestor ∈ path.ancestors) (hfile : fs.sightOf ancestor = .file contents) :
    ancestor.names <+: path.names ∧ ancestor.Nameable ∧
      fs.sightAt (fs.start path ++ ancestor.names) = .file contents := by
  obtain ⟨hnames, hparent⟩ := hpath.names_isPrefix hancestor
  obtain ⟨way, hlocate, hsight⟩ := exists_locate_of_sightOf (Sight.ne_nothing_of_file hfile)
  obtain ⟨rfl, hnameable⟩ := names_of_locate hparent hlocate
  refine ⟨hnames, hnameable, ?_⟩
  rw [← start_of_isPrefix hnameable.bytes_ne_nil
    (Path.isPrefix_of_mem_ancestorsWithin hancestor)]
  exact hsight.trans hfile

variable (hworking : fs.sightAt fs.workingDirectory = .directory)

include hworking

/-- A directory in addition is what a path above the path leads to, and led to nothing
before. -/
theorem exists_ancestor_of_makeDirectories {way : List Piece}
    (hway : fs.sightAt way ≠ .directory)
    (hmade : (fs.makeDirectories path).1.sightAt way = .directory) :
    ∃ ancestor ∈ path.ancestors, fs.sightOf ancestor = .nothing ∧
      (fs.makeDirectories path).1.locate ancestor = .ok way := by
  have hgrown := fs.grownBy_makeDirectories hpath
  -- it cannot have been a file, for files stay what they are
  have hnothing : fs.sightAt way = .nothing := by
    by_contra hsight
    exact hway ((hgrown.sightAt_eq way hsight).symm.trans hmade)
  obtain ⟨-, ancestor, hancestor, hnameable, hparent, rfl⟩ :=
    hgrown.added_of_ne way hnothing (Sight.ne_nothing_of_directory hmade)
  refine ⟨ancestor, hancestor, ?_, ?_⟩
  · -- had the path led anywhere, then to the place at which nothing was
    by_contra hsight
    obtain ⟨found, hlocate, hfound⟩ := exists_locate_of_sightOf hsight
    obtain ⟨rfl, -⟩ := names_of_locate hparent hlocate
    exact hsight (hfound.symm.trans hnothing)
  · have hstart := hgrown.retains.directory (sightAt_start hworking ancestor)
    rw [← hgrown.retains.start] at hstart hmade ⊢
    exact locate_of_directory hparent hnameable hstart hmade

/-- If a path is made, it is there. -/
theorem sightOf_of_makeDirectories (h : (fs.makeDirectories path).2 = .ok ()) :
    (fs.makeDirectories path).1.sightOf path = .directory := by
  rcases hpath.eq_root_or_ladder_eq with rfl | ⟨outer, hladder⟩
  · -- the root needs not be made
    have hroot := (grownBy_makeDirectories hpath).retains.directory
      (sightAt_start hworking ⟨[Path.slash]⟩)
    have hlocate : (fs.makeDirectories ⟨[Path.slash]⟩).1.locate ⟨[Path.slash]⟩ = .ok [] :=
      show FileSystem.follow _ [] [.current] = _ from follow_cons_eq_ok.mpr ⟨hroot, rfl⟩
    exact (sightOf_of_locate hlocate).trans hroot
  · rw [makeDirectories_eq_makeNested, hladder] at h ⊢
    exact sightOf_of_makeNested (Prod.ext rfl h)

/-- A path that is made is one that the system takes, and no path above it is a file. -/
theorem nameable_of_makeDirectories (h : (fs.makeDirectories path).2 = .ok ()) :
    path.Nameable ∧ ∀ ancestor ∈ path.ancestors, ∀ contents,
      fs.sightOf ancestor ≠ .file contents := by
  have hsight := sightOf_of_makeDirectories hpath hworking h
  have hgrown := fs.grownBy_makeDirectories hpath
  obtain ⟨found, hlocate, hfound⟩ :=
    exists_locate_of_sightOf (Sight.ne_nothing_of_directory hsight)
  obtain ⟨rfl, hnameable⟩ := names_of_locate hpath.parent_not_mem hlocate
  refine ⟨hnameable, ?_⟩
  intro ancestor hancestor contents hfile
  -- a file would stay what it is, but stands on the way to the directory
  obtain ⟨hnames, -, hfileAt⟩ := sightAt_of_file_above hpath hancestor hfile
  rw [← hgrown.sightAt_eq_file_iff] at hfileAt
  refine not_blocked_of_directory (hfound.trans hsight) ⟨_, ?_, contents, hfileAt⟩
  rw [hgrown.retains.start]
  exact List.prefix_append_right_inj _ |>.mpr hnames

/-- A path that the system takes is made, if no path above it is a file. -/
theorem makeDirectories_eq_ok (hnameable : path.Nameable)
    (hfile : ∀ ancestor ∈ path.ancestors, ∀ contents, fs.sightOf ancestor ≠ .file contents) :
    (fs.makeDirectories path).2 = .ok () := by
  obtain ⟨haccept, hnames⟩ := nameable_iff.mp hnameable
  rw [makeDirectories_eq_makeNested]
  rcases makeNested_cases hpath.isLadder (fun rung => accept_of_mem_ladder haccept)
      (sightAt_start hworking path) hnames with
    ⟨-, made, heq, -⟩ | ⟨-, ⟨rung, hrung, contents, hrungFile⟩, -⟩
  · rw [heq]
  · exact absurd hrungFile (hfile rung (List.mem_filter.mp hrung).1 contents)

/-- Behind a file nothing is made, also if a name there is too long. -/
theorem makeDirectories_of_file_above (haccept : accept path = .ok ())
    (hnames : ¬ ∀ name ∈ path.names, acceptName name = .ok ()) {ancestor : Path}
    {contents : List UInt8} (hancestor : ancestor ∈ path.ancestors)
    (hfile : fs.sightOf ancestor = .file contents) : (fs.makeDirectories path).1 = fs := by
  obtain ⟨hfront, hnameable, hfileAt⟩ := sightAt_of_file_above hpath hancestor hfile
  have hshort := (nameable_iff.mp hnameable).2
  have hstart := sightAt_start hworking path
  rcases hpath.eq_root_or_ladder_eq with rfl | ⟨outer, hcons⟩
  · exact absurd (List.forall_mem_nil _) hnames
  · have hladder := hcons ▸ hpath.isLadder
    rw [makeDirectories_eq_makeNested, hcons]
    generalize path.names = names at hladder hnames hfront
    cases hladder with
    | dot => exact absurd (List.forall_mem_nil _) hnames
    | @rung _ _ before name hmoves hparent _ =>
        rcases List.prefix_concat_iff.mp hfront with heq | hbefore
        · -- the file is the path itself, and all of its names are short
          exact absurd (heq ▸ hshort) hnames
        · have hplace : fs.place path = .error (.system .notDirectory) := by
            rw [place_eq hmoves, haccept, enter_of_file hstart hparent hbefore hshort hfileAt]
            rfl
          rw [makeNested_of_error outer hplace (by simp) (by simp)]

/-- Where a path is not made, nothing is, unless no file is in the way and the system takes all
of the path but a name. -/
theorem makeDirectories_unchanged (h : (fs.makeDirectories path).2 ≠ .ok ()) :
    (fs.makeDirectories path).1 = fs ∨
      accept path = .ok () ∧ (∃ name ∈ path.names, maxNameLength < name.length) ∧
        ∀ ancestor ∈ path.ancestors, ∀ contents, fs.sightOf ancestor ≠ .file contents := by
  cases haccept : accept path with
  | error fault =>
      left
      rcases hpath.eq_root_or_ladder_eq with rfl | ⟨outer, hladder⟩
      · cases haccept
      · -- the path is refused before anything is tried
        have hne := (Path.isPrefix_of_mem_ladder (hladder ▸ List.mem_cons_self)).1
        have hplace : fs.place path = .error fault := by
          unfold place
          rw [haccept]
          rfl
        rw [makeDirectories_eq_makeNested, hladder]
        rcases accept_eq_error haccept hne with rfl | rfl
        · rw [makeNested_of_error outer hplace (by simp) (by simp)]
        · rw [makeNested_of_error outer hplace (by simp) (by simp)]
  | ok =>
      by_cases hnames : ∀ name ∈ path.names, acceptName name = .ok ()
      · left
        rw [makeDirectories_eq_makeNested] at h ⊢
        rcases makeNested_cases hpath.isLadder (fun rung => accept_of_mem_ladder haccept)
            (sightAt_start hworking path) hnames with ⟨-, made, heq, -⟩ | ⟨-, -, fault, heq⟩
        · rw [heq] at h
          exact absurd rfl h
        · rw [heq]
      · by_cases hfile : ∃ ancestor ∈ path.ancestors, ∃ contents,
            fs.sightOf ancestor = .file contents
        · obtain ⟨ancestor, hancestor, contents, hfile⟩ := hfile
          exact .inl
            (makeDirectories_of_file_above hpath hworking haccept hnames hancestor hfile)
        · -- a name is too long, and directories outside of it may have been made
          refine .inr ⟨rfl, by simpa [acceptName_eq_ok_iff] using hnames, ?_⟩
          intro ancestor hancestor contents h
          exact hfile ⟨ancestor, hancestor, contents, h⟩

end

end MessageExport.FileSystem
