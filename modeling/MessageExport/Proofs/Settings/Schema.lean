import MessageExport.Proofs.Settings.Layers
import MessageExport.Proofs.Text.Utf8
import MessageExport.Proofs.Toml.Order
/-!
# MessageExport.Proofs.Settings.Schema

Which **entries** a settings file may have, and what is said of the first that it may not.

The text is read as TOML to its end before any entry is looked at. The entries are then gone
through in their order; each has to fit its key, and the first that does not is reported.
If all of them fit, they are taken up, and their order does not matter (`load_of_text`).

## Shape of the proofs

`Fits` and `Offends` are the two ways in which an entry can fare, and `fits_or_offends` says
that there is no third one. One entry fits exactly if `set` takes it up (`set_of_fits`,
`set_of_offends`). From there two inductions run along the entries: forwards, up to the first
one at fault, and backwards, where the last entry is under a new key, so that what the others
say is not touched (`Says.concat`).

The text comes in at the end. A document is what `Toml.parse?` accepts, its keys are distinct
and no array of tables in it is empty, and that is all that is needed of it. As what is accepted
are values only, the lines of an accepted text may be put in any other order, for values do not
depend on the lines before them.
-/

namespace MessageExport.SettingsFile

open Toml (Item Entries Statement IsDocument Reads Written afterMark topKeys)

/-- The entries that a settings file may have. -/
inductive Fits : String × Item → Prop where
  | logFile (value : String) : Fits ("log_file_path", .text value)
  | credentialsInUrl (value : Bool) : Fits ("credentials_in_url", .boolean value)
  | defaultFields (names : List String) : Fits ("default_fields", .array (names.map .text))
  | pretty (value : Bool) : Fits ("pretty", .boolean value)

/-- What is wrong with an entry. -/
inductive Offends : String × Item → SchemaFault → Prop where
  | unknownKey {key : String} {item : Item} (hkey : key ∉ keys) :
      Offends (key, item) (.unknownKey key)
  | noText {item : Item} (hitem : ∀ value, item ≠ .text value) :
      Offends ("log_file_path", item) (.wrongKind item.describe "path string")
  | noBoolean {key : String} {item : Item}
      (hkey : key = "credentials_in_url" ∨ key = "pretty")
      (hitem : ∀ value, item ≠ .boolean value) :
      Offends (key, item) (.wrongKind item.describe "a boolean")
  | noArray {item : Item} (harray : ∀ elements, item ≠ .array elements)
      (htables : ∀ elements, item ≠ .tables elements) :
      Offends ("default_fields", item) (.wrongKind item.describe "a sequence")
  /-- The names before the first element that is none do not matter. -/
  | noName (names : List String) {element : Item} (rest : List Item)
      (helement : ∀ value, element ≠ .text value) :
      Offends ("default_fields", .array (names.map .text ++ element :: rest))
        (.wrongKind element.describe "a string")
  | tables (first : Entries) (rest : List Entries) :
      Offends ("default_fields", .tables (first :: rest)) (.wrongKind "map" "a string")

/-- Some entry is at fault, and all those before it fit. -/
def FirstOffence (entries : Entries) (fault : SchemaFault) : Prop :=
  ∃ before entry after, entries = before ++ entry :: after ∧
    (∀ earlier ∈ before, Fits earlier) ∧ Offends entry fault

/-- A member has the value that is written under a key, and none if nothing is written
there. `write` is the item of a value and `take` what the member makes of it. -/
def Sets {α β : Type} (key : String) (write : β → Item) (take : β → α) (entries : Entries)
    (member : Option α) : Prop :=
  ∀ value, member = some value ↔ ∃ given, (key, write given) ∈ entries ∧ take given = value

/-- The file sets what the entries say, and nothing else. -/
structure Says (entries : Entries) (file : SettingsFile) : Prop where
  logFile : Sets "log_file_path" Item.text Path.ofString entries file.logFile
  credentialsInUrl : Sets "credentials_in_url" Item.boolean id entries file.credentialsInUrl
  defaultFields : Sets "default_fields" (fun names : List String => .array (names.map .text)) id
    entries file.defaultFields
  pretty : Sets "pretty" Item.boolean id entries file.pretty

variable {entry : String × Item} {entries : Entries} {file : SettingsFile}
  {fault : SchemaFault}

/-! ### One entry

Names of fields are the one value that has parts: it is gone through until an element is no
name, and that element is reported. -/

/-- An array of strings is a list of names. -/
theorem asTexts_of_names (names : List String) :
    asTexts (.array (names.map .text)) = .ok names := by
  rw [asTexts]
  induction names with
  | nil => rfl
  | cons name names ih =>
      rw [List.map_cons, List.mapM_cons, ih]
      rfl

/-- The first element that is no string is reported. -/
theorem asTexts_of_noName (names : List String) {element : Item} (rest : List Item)
    (helement : ∀ value, element ≠ .text value) :
    asTexts (.array (names.map .text ++ element :: rest)) =
      .error (.wrongKind element.describe "a string") := by
  rw [asTexts]
  induction names with
  | nil =>
      rw [List.map_nil, List.nil_append, List.mapM_cons]
      cases element with
      | text value => exact absurd rfl (helement value)
      | _ => rfl
  | cons name names ih =>
      rw [List.map_cons, List.cons_append, List.mapM_cons, ih]
      rfl

/-- What fits is taken up. -/
theorem set_of_fits (file : SettingsFile) (h : Fits entry) :
    ∃ next, file.set entry.1 entry.2 = .ok next := by
  cases h with
  | logFile value => exact ⟨_, rfl⟩
  | credentialsInUrl value => exact ⟨_, rfl⟩
  | defaultFields names =>
      refine ⟨{ file with defaultFields := some names }, ?_⟩
      show (asTexts (.array (names.map .text))).bind _ = _
      rw [asTexts_of_names]
      rfl
  | pretty value => exact ⟨_, rfl⟩

/-- What is at fault is refused, with its fault, whatever was taken up before. -/
theorem set_of_offends (file : SettingsFile) (h : Offends entry fault) :
    file.set entry.1 entry.2 = .error fault := by
  cases h with
  | @unknownKey key item hkey =>
      simp only [keys, List.mem_cons, not_or] at hkey
      -- the key is none of the four, and there is no fifth one
      obtain ⟨hlogFile, hcredentials, hfields, hpretty, -⟩ := hkey
      unfold set
      split
      · exact absurd ‹key = _› hlogFile
      · exact absurd ‹key = _› hcredentials
      · exact absurd ‹key = _› hfields
      · exact absurd ‹key = _› hpretty
      · rfl
  | @noText item hitem =>
      cases item with
      | text value => exact absurd rfl (hitem value)
      | _ => rfl
  | @noBoolean key item hkey hitem =>
      rcases hkey with rfl | rfl <;> cases item with
      | boolean value => exact absurd rfl (hitem value)
      | _ => rfl
  | @noArray item harray htables =>
      cases item with
      | array elements => exact absurd rfl (harray elements)
      | tables elements => exact absurd rfl (htables elements)
      | _ => rfl
  | noName names rest helement =>
      show (asTexts _).bind _ = _
      rw [asTexts_of_noName names rest helement]
      rfl
  | tables first rest => rfl

/-- Names are told from the array of them. -/
theorem injective_array_text :
    Function.Injective fun names : List String => Item.array (names.map .text) := by
  intro names others h
  exact List.map_injective_iff.mpr (fun _ _ => Item.text.inj) (Item.array.inj h)

/-- Elements are names, or there is a first one that is none. -/
theorem names_or_noName (elements : List Item) :
    (∃ names : List String, elements = names.map .text) ∨
      ∃ (names : List String) (element : Item) (rest : List Item),
        elements = names.map .text ++ element :: rest ∧ ∀ value, element ≠ .text value := by
  induction elements with
  | nil => exact .inl ⟨[], rfl⟩
  | cons first elements ih =>
      by_cases hfirst : ∃ value, first = .text value
      · obtain ⟨value, rfl⟩ := hfirst
        rcases ih with ⟨names, rfl⟩ | ⟨names, element, rest, rfl, helement⟩
        · exact .inl ⟨value :: names, rfl⟩
        · exact .inr ⟨value :: names, element, rest, rfl, helement⟩
      · exact .inr ⟨[], first, elements, rfl, fun value hvalue => hfirst ⟨value, hvalue⟩⟩

/-- Every entry that a document can have fits or is at fault. -/
theorem fits_or_offends (hentry : entry.2 ≠ .tables []) :
    Fits entry ∨ ∃ fault, Offends entry fault := by
  obtain ⟨key, item⟩ := entry
  have hboolean : key = "credentials_in_url" ∨ key = "pretty" →
      (∃ value, item = .boolean value) ∨ ∃ fault, Offends (key, item) fault := by
    intro hkey
    by_cases hitem : ∃ value, item = .boolean value
    · exact .inl hitem
    · exact .inr ⟨_, .noBoolean hkey fun value hvalue => hitem ⟨value, hvalue⟩⟩
  by_cases hkey : key ∈ keys
  · simp only [keys, List.mem_cons, List.not_mem_nil, or_false] at hkey
    rcases hkey with rfl | rfl | rfl | rfl
    · by_cases hitem : ∃ value, item = .text value
      · obtain ⟨value, rfl⟩ := hitem
        exact .inl (.logFile value)
      · exact .inr ⟨_, .noText fun value hvalue => hitem ⟨value, hvalue⟩⟩
    · exact (hboolean (.inl rfl)).imp_left fun ⟨value, hvalue⟩ => hvalue ▸ .credentialsInUrl value
    · cases item with
      | array elements =>
          rcases names_or_noName elements with ⟨names, rfl⟩ | ⟨names, element, rest, rfl, helement⟩
          · exact .inl (.defaultFields names)
          · exact .inr ⟨_, .noName names rest helement⟩
      | tables elements =>
          cases elements with
          | nil => exact absurd rfl hentry
          | cons first rest => exact .inr ⟨_, .tables first rest⟩
      | _ => exact .inr ⟨_, .noArray nofun nofun⟩
    · exact (hboolean (.inr rfl)).imp_left fun ⟨value, hvalue⟩ => hvalue ▸ .pretty value
  · exact .inr ⟨_, .unknownKey hkey⟩

/-! ### All entries

What the entries set is described member by member. `Sets` holds in both directions, so the
member is determined by the entries (`Sets.unique`), and it asks only which entries there are,
so that their order does not matter (`Sets.perm`). -/

/-- The file after further entries. -/
def setAll (file : SettingsFile) (entries : Entries) : Except SchemaFault SettingsFile :=
  entries.foldlM (fun file entry => file.set entry.1 entry.2) file

/-- Entries that all fit are all taken up. -/
theorem setAll_of_fits (file : SettingsFile) (h : ∀ entry ∈ entries, Fits entry) :
    ∃ last, file.setAll entries = .ok last := by
  induction entries generalizing file with
  | nil => exact ⟨file, rfl⟩
  | cons entry entries ih =>
      obtain ⟨hentry, hrest⟩ := List.forall_mem_cons.mp h
      obtain ⟨next, hnext⟩ := set_of_fits file hentry
      obtain ⟨last, hlast⟩ := ih next hrest
      refine ⟨last, ?_⟩
      rw [setAll, List.foldlM_cons, hnext]
      exact hlast

/-- The first entry at fault decides, whatever comes behind it. -/
theorem ofEntries_of_firstOffence (h : FirstOffence entries fault) :
    ofEntries entries = .error fault := by
  obtain ⟨before, entry, after, rfl, hbefore, hentry⟩ := h
  obtain ⟨file, hfile⟩ := setAll_of_fits {} hbefore
  rw [ofEntries, List.foldlM_append]
  show (setAll {} before).bind _ = _
  rw [hfile]
  show (file.set entry.1 entry.2).bind _ = _
  rw [set_of_offends file hentry]
  rfl

/-- Unless all entries fit, there is a first one at fault. -/
theorem fits_or_firstOffence (h : ∀ entry ∈ entries, entry.2 ≠ .tables []) :
    (∀ entry ∈ entries, Fits entry) ∨ ∃ fault, FirstOffence entries fault := by
  induction entries with
  | nil => exact .inl nofun
  | cons first entries ih =>
      obtain ⟨hfirst, hrest⟩ := List.forall_mem_cons.mp h
      rcases fits_or_offends hfirst with hfits | ⟨fault, hoffends⟩
      · rcases ih hrest with hall | ⟨fault, before, entry, after, rfl, hbefore, hentry⟩
        · exact .inl (List.forall_mem_cons.mpr ⟨hfits, hall⟩)
        · exact .inr ⟨fault, first :: before, entry, after, rfl,
            List.forall_mem_cons.mpr ⟨hfits, hbefore⟩, hentry⟩
      · exact .inr ⟨fault, [], first, entries, rfl, nofun, hoffends⟩

namespace Sets

variable {α β : Type} {key : String} {write : β → Item} {take : β → α} {member : Option α}

theorem unique {other : Option α} (h : Sets key write take entries member)
    (h' : Sets key write take entries other) : member = other :=
  Option.ext fun value => (h value).trans (h' value).symm

theorem perm {others : Entries} (h : Sets key write take entries member)
    (hperm : others.Perm entries) : Sets key write take others member := by
  intro value
  simp only [h value, hperm.mem_iff]

theorem empty : Sets key write take [] none :=
  fun _ => iff_of_false nofun fun ⟨_, hmem, _⟩ => nomatch hmem

/-- An entry under another key leaves a member as it is. -/
theorem concat_other {item : Item} {k : String} (h : Sets key write take entries member)
    (hkey : key ≠ k) : Sets key write take (entries ++ [(k, item)]) member := by
  intro value
  simp only [h value, Entries.mem_concat_of_ne hkey]

/-- The only entry under the key of a member gives it its value. -/
theorem concat_self {given : β} (hnew : key ∉ Entries.keys entries)
    (hwrite : Function.Injective write) :
    Sets key write take (entries ++ [(key, write given)]) (some (take given)) := by
  intro value
  simp only [Entries.mem_concat_self hnew, hwrite.eq_iff, exists_eq_left, Option.some.injEq]

end Sets

namespace Says

theorem unique {other : SettingsFile} (h : Says entries file) (h' : Says entries other) :
    file = other := by
  obtain ⟨_, _, _, _⟩ := file
  obtain ⟨_, _, _, _⟩ := other
  rw [mk.injEq]
  exact ⟨h.logFile.unique h'.logFile, h.credentialsInUrl.unique h'.credentialsInUrl,
    h.defaultFields.unique h'.defaultFields, h.pretty.unique h'.pretty⟩

/-- What entries say does not depend on their order. -/
theorem perm {others : Entries} (h : Says entries file) (hperm : others.Perm entries) :
    Says others file :=
  ⟨h.logFile.perm hperm, h.credentialsInUrl.perm hperm, h.defaultFields.perm hperm,
    h.pretty.perm hperm⟩

/-- An entry under a new key sets what it says. -/
theorem concat {next : SettingsFile} (h : Says entries file) (hentry : Fits entry)
    (hnew : entry.1 ∉ Entries.keys entries) (hnext : file.set entry.1 entry.2 = .ok next) :
    Says (entries ++ [entry]) next := by
  obtain ⟨hlogFile, hcredentials, hfields, hpretty⟩ := h
  cases hentry with
  | logFile value =>
      cases hnext
      exact ⟨.concat_self hnew fun _ _ => Item.text.inj, hcredentials.concat_other (by decide),
        hfields.concat_other (by decide), hpretty.concat_other (by decide)⟩
  | credentialsInUrl value =>
      cases hnext
      exact ⟨hlogFile.concat_other (by decide), .concat_self hnew fun _ _ => Item.boolean.inj,
        hfields.concat_other (by decide), hpretty.concat_other (by decide)⟩
  | defaultFields names =>
      have hset : (asTexts (.array (names.map .text))).bind
          (fun fields => .ok { file with defaultFields := some fields }) = .ok next := hnext
      rw [asTexts_of_names] at hset
      cases hset
      exact ⟨hlogFile.concat_other (by decide), hcredentials.concat_other (by decide),
        .concat_self hnew injective_array_text, hpretty.concat_other (by decide)⟩
  | pretty value =>
      cases hnext
      exact ⟨hlogFile.concat_other (by decide), hcredentials.concat_other (by decide),
        hfields.concat_other (by decide), .concat_self hnew fun _ _ => Item.boolean.inj⟩

end Says

/-- Entries that fit, under distinct keys, are taken up. -/
theorem ofEntries_of_fits (hnodup : (Entries.keys entries).Nodup)
    (h : ∀ entry ∈ entries, Fits entry) :
    ∃ file, ofEntries entries = .ok file ∧ Says entries file := by
  induction entries using List.reverseRecOn with
  | nil => exact ⟨{}, rfl, .empty, .empty, .empty, .empty⟩
  | append_singleton entries entry ih =>
      rw [Entries.keys_concat, List.nodup_append] at hnodup
      obtain ⟨hbefore, hentry⟩ := List.forall_mem_append.mp h
      obtain ⟨file, hfile, hsaid⟩ := ih hnodup.1 hbefore
      have hfits := hentry entry (List.mem_singleton_self _)
      obtain ⟨next, hnext⟩ := set_of_fits file hfits
      have hnew : entry.1 ∉ Entries.keys entries := fun hmem =>
        hnodup.2.2 entry.1 hmem entry.1 (List.mem_singleton_self _) rfl
      refine ⟨next, ?_, hsaid.concat hfits hnew hnext⟩
      rw [ofEntries, List.foldlM_append]
      show (ofEntries entries).bind _ = _
      rw [hfile]
      show (file.set entry.1 entry.2).bind _ = _
      rw [hnext]
      rfl

/-! ### The file

What is read is the text of the file: that it is encoded in UTF-8 is taken for granted here, and
a file that is not is another matter. -/

variable {fs : FileSystem} {path : Path} {text : String}

/-- A text is loaded as what it says, or with what is wrong with it. -/
theorem load_eq_of_lookup (there : fs.lookup path = some (.file (Text.encode text))) :
    load fs path =
      match ofString text with
      | .error fault => .error (.malformed path fault.message)
      | .ok file => .ok (some file) := by
  have hdecode : Text.decode? (Text.encode text) = some text :=
    Text.decode?_eq_some_iff.mpr rfl
  rw [load_eq_ofSight, FileSystem.sightOf, there]
  cases hfile : ofString text with
  | error fault => simp only [Sight.of, ofSight, hdecode, hfile]
  | ok file => simp only [Sight.of, ofSight, hdecode, hfile]

/-- Tables do not fit, so what fits is a value. -/
theorem Fits.isValue (h : Fits entry) : entry.2.IsValue := by
  cases h <;> trivial

section Document

variable {statements : List Statement}

/-- The entries of a document are those that its text says. -/
theorem ofString_of_isDocument (h : IsDocument text statements entries) :
    ofString text = ofEntries entries := by
  rw [ofString, Toml.parse?_eq_some_iff.mpr ⟨statements, h⟩]

/-- No key of a document is there twice. -/
theorem nodup_keys_of_isDocument (h : IsDocument text statements entries) :
    (Entries.keys entries).Nodup := by
  obtain ⟨progress, hprogress, rfl⟩ := Option.map_eq_some_iff.mp h.makes
  exact Toml.Progress.nodup_keys hprogress

/-- What is written under a key at the top is a value. -/
theorem isValue_of_written (h : IsDocument text statements entries)
    (hwritten : Written statements entry) : entry.2.IsValue := by
  obtain ⟨before, after, rfl, -⟩ := hwritten
  exact h.reads.isValue ⟨[], entry.1⟩ entry.2
    (List.mem_append_right _ (List.mem_cons_self ..))

/-- The entries of a document are the values that are written at its top, and tables. -/
theorem entries_of_isDocument (h : IsDocument text statements entries) :
    (∀ entry ∈ entries, Written statements entry ∨ entry.2.IsOpenTable) ∧
      ∀ entry, Written statements entry → entry ∈ entries := by
  obtain ⟨progress, hprogress, hentries⟩ := Option.map_eq_some_iff.mp h.makes
  refine ⟨hentries ▸ Toml.Progress.mem_entries_cases hprogress, fun entry hwritten => ?_⟩
  exact hentries ▸
    Toml.Progress.mem_entries_of_written hprogress (isValue_of_written h hwritten) hwritten

/-- No array of tables at the top of a document is empty. -/
theorem ne_tables_nil (h : IsDocument text statements entries) :
    ∀ entry ∈ entries, entry.2 ≠ .tables [] := by
  intro entry hentry htables
  rcases (entries_of_isDocument h).1 entry hentry with hwritten | hopen
  · have hvalue := isValue_of_written h hwritten
    rw [htables] at hvalue
    exact hvalue
  · rw [htables] at hopen
    exact hopen rfl

/-- A document whose entries all fit is accepted, and sets what they say. -/
theorem load_of_fits (there : fs.lookup path = some (.file (Text.encode text)))
    (h : IsDocument text statements entries) (hfits : ∀ entry ∈ entries, Fits entry) :
    ∃ file, load fs path = .ok (some file) ∧ Says entries file := by
  obtain ⟨file, hfile, hsaid⟩ := ofEntries_of_fits (nodup_keys_of_isDocument h) hfits
  refine ⟨file, ?_, hsaid⟩
  rw [load_eq_of_lookup there, ofString_of_isDocument h, hfile]

/-- A document with an entry at fault is refused, with the fault of the first such entry. -/
theorem load_of_firstOffence (there : fs.lookup path = some (.file (Text.encode text)))
    (h : IsDocument text statements entries) (hfault : FirstOffence entries fault) :
    load fs path = .error (.malformed path fault.message) := by
  rw [load_eq_of_lookup there, ofString_of_isDocument h, ofEntries_of_firstOffence hfault]

/-- What is accepted fits, and says what is set. -/
theorem fits_of_load (there : fs.lookup path = some (.file (Text.encode text)))
    (h : IsDocument text statements entries) (hload : load fs path = .ok (some file)) :
    (∀ entry ∈ entries, Fits entry) ∧ Says entries file := by
  rcases fits_or_firstOffence (ne_tables_nil h) with hfits | ⟨fault, hfault⟩
  · obtain ⟨other, hother, hsaid⟩ := load_of_fits there h hfits
    cases hload.symm.trans hother
    exact ⟨hfits, hsaid⟩
  · rw [load_of_firstOffence there h hfault] at hload
    cases hload

/-- The same entries in another order set the same. -/
theorem load_of_perm {fs' : FileSystem} {path' : Path} {text' : String}
    {others : List Statement} {rearranged : Entries}
    (there : fs.lookup path = some (.file (Text.encode text)))
    (there' : fs'.lookup path' = some (.file (Text.encode text')))
    (h : IsDocument text statements entries) (h' : IsDocument text' others rearranged)
    (hperm : rearranged.Perm entries) (hload : load fs path = .ok (some file)) :
    load fs' path' = .ok (some file) := by
  obtain ⟨hfits, hsaid⟩ := fits_of_load there h hload
  obtain ⟨other, hother, hsaid'⟩ := load_of_fits there' h' fun entry hentry =>
    hfits entry (hperm.mem_iff.mp hentry)
  rw [hother, hsaid'.unique (hsaid.perm hperm)]

end Document

/-- **The schema of a settings file.** Let a text be at a path. If it is no document, down to
its last line, then that is what is reported, whatever its lines say. If it is one, its keys
stand in the order of the text and are distinct, and under each is the value that is written
there or a table. The text is accepted exactly if each entry fits its key, and then it sets
what the entries say and nothing else. Otherwise there is a first entry at fault, and its
fault is reported. An accepted text may be rearranged: any text whose lines say the same in
another order is accepted as well and sets the same, and so does any document with the same
entries in another order. -/
theorem load_of_text (fs : FileSystem) (path : Path) (text : String)
    (there : fs.lookup path = some (.file (Text.encode text))) :
    ((¬∃ statements entries, IsDocument text statements entries) →
        load fs path = .error (.malformed path SchemaFault.notToml.message)) ∧
      ∀ (statements : List Statement) (entries : Entries),
        IsDocument text statements entries →
          Entries.keys entries = topKeys statements ∧ (Entries.keys entries).Nodup ∧
          (∀ entry ∈ entries, Written statements entry ∨ entry.2.IsOpenTable) ∧
          (∀ entry, Written statements entry → entry ∈ entries) ∧
          ((∃ file, load fs path = .ok (some file)) ↔ ∀ entry ∈ entries, Fits entry) ∧
          (∀ file, load fs path = .ok (some file) → Says entries file) ∧
          ((∀ entry ∈ entries, Fits entry) ∨ ∃ fault, FirstOffence entries fault) ∧
          (∀ fault, FirstOffence entries fault →
            load fs path = .error (.malformed path fault.message)) ∧
          (∀ file, load fs path = .ok (some file) →
            ∀ (fs' : FileSystem) (path' : Path) (text' : String),
              fs'.lookup path' = some (.file (Text.encode text')) →
              (∃ others, Reads (afterMark text') others ∧ others.Perm statements) ∨
                (∃ others rearranged, IsDocument text' others rearranged ∧
                  rearranged.Perm entries) →
              load fs' path' = .ok (some file)) := by
  constructor
  · intro hnone
    have hparse : Toml.parse? text = none := by
      cases hparse : Toml.parse? text with
      | none => rfl
      | some entries =>
          obtain ⟨statements, hdocument⟩ := Toml.parse?_eq_some_iff.mp hparse
          exact absurd ⟨statements, entries, hdocument⟩ hnone
    rw [load_eq_of_lookup there, ofString, hparse]
  · intro statements entries hdocument
    obtain ⟨hentries, hwritten⟩ := entries_of_isDocument hdocument
    refine ⟨Toml.keys_of_document hdocument.makes, nodup_keys_of_isDocument hdocument,
      hentries, hwritten, ?_, fun file hfile => (fits_of_load there hdocument hfile).2,
      fits_or_firstOffence (ne_tables_nil hdocument),
      fun fault => load_of_firstOffence there hdocument, ?_⟩
    · constructor
      · -- an accepted text has no entry at fault, since that would have been reported
        rintro ⟨file, hfile⟩
        exact (fits_of_load there hdocument hfile).1
      · intro hfits
        obtain ⟨file, hfile, -⟩ := load_of_fits there hdocument hfits
        exact ⟨file, hfile⟩
    · intro file hfile fs' path' text' there' hsame
      rcases hsame with ⟨others, hreads, hperm⟩ | ⟨others, rearranged, hdocument', hperm⟩
      · -- all that is accepted are values, so the lines may come in any order
        obtain ⟨rearranged, hrearranged, hmakes⟩ := Toml.document?_of_perm hdocument.makes
          (fun entry hentry => ((fits_of_load there hdocument hfile).1 entry hentry).isValue)
          hperm
        exact load_of_perm there there' hdocument ⟨hreads, hmakes⟩ hrearranged hfile
      · exact load_of_perm there there' hdocument hdocument' hperm hfile

/-- A text as the only file there is. -/
def soleFile (text : String) : FileSystem :=
  { root := .directory [(Text.encode "c.toml", .file (Text.encode text))], workingDirectory := [] }

/-- A table that the settings do not know, below a setting that they do. -/
theorem load_of_text_unknown_table :
    let text := "pretty = true\n[theme.dark]\n"
    let path : Path := .ofString "/c.toml"
    (soleFile text).lookup path = some (.file (Text.encode text)) ∧
      load (soleFile text) path =
        .error (.malformed path (SchemaFault.unknownKey "theme").message) := by
  intro text path
  have there : (soleFile text).lookup path = some (.file (Text.encode text)) := rfl
  have hfault : FirstOffence [("pretty", .boolean true),
      ("theme", .table .implied [("dark", .table .header [])])] (.unknownKey "theme") :=
    ⟨[("pretty", .boolean true)], _, [], rfl, by simp [Fits.pretty],
      .unknownKey (by decide)⟩
  obtain ⟨statements, hdocument⟩ := Toml.parse?_eq_some_iff.mp
    (rfl : Toml.parse? "pretty = true\n[theme.dark]\n" = some
      [("pretty", .boolean true), ("theme", .table .implied [("dark", .table .header [])])])
  obtain ⟨-, -, -, -, -, -, -, hrefused, -⟩ :=
    (load_of_text (soleFile text) path text there).2 statements _ hdocument
  exact ⟨there, hrefused _ hfault⟩

/-- The keys of a document in the order in which they are first mentioned. -/
def firstMentions (statements : List Statement) : List String :=
  ((Toml.mentions [] statements).map Toml.Mention.key).eraseDups

/-- The first mention of a key is not its place: a table that is only implied there is
reported where its header stands, behind a key that comes in between. -/
theorem not_load_by_first_mention :
    ¬∀ (fs : FileSystem) (path : Path) (text : String) (statements : List Statement)
      (entries inOrder : Entries) (fault : SchemaFault),
      fs.lookup path = some (.file (Text.encode text)) →
      IsDocument text statements entries → inOrder.Perm entries →
      Entries.keys inOrder = firstMentions statements → FirstOffence inOrder fault →
        load fs path = .error (.malformed path fault.message) := by
  intro h
  let text := "[pretty.x]\n[theme]\n[pretty]"
  let path : Path := .ofString "/c.toml"
  let pretty : String × Item := ("pretty", .table .header [("x", .table .header [])])
  let theme : String × Item := ("theme", .table .header [])
  have hlast : Reads "[pretty]".toList [.table ⟨[], "pretty"⟩] :=
    @Reads.line _ _ _ (some (.table ⟨[], "pretty"⟩)) _ rfl rfl (.done rfl)
  have hrest : Reads "[theme]\n[pretty]".toList [.table ⟨[], "theme"⟩, .table ⟨[], "pretty"⟩] :=
    @Reads.line _ _ _ (some (.table ⟨[], "theme"⟩)) _ rfl rfl hlast
  have hreads : Reads (afterMark "[pretty.x]\n[theme]\n[pretty]")
      [.table ⟨["pretty"], "x"⟩, .table ⟨[], "theme"⟩, .table ⟨[], "pretty"⟩] :=
    @Reads.line _ _ _ (some (.table ⟨["pretty"], "x"⟩)) _ rfl rfl hrest
  have hload := h (soleFile text) path text _ [theme, pretty] [pretty, theme]
    (.wrongKind "map" "a boolean") rfl ⟨hreads, rfl⟩ (.swap _ _ _) rfl
    ⟨[], pretty, [theme], rfl, nofun, .noBoolean (.inr rfl) nofun⟩
  have hactual : load (soleFile text) path =
      .error (.malformed path (SchemaFault.unknownKey "theme").message) := by
    decide +kernel
  rw [hactual] at hload
  revert hload
  decide +kernel

end MessageExport.SettingsFile
