import Mathlib.Logic.Relation
import MessageExport.Proofs.Json.Printing
import MessageExport.Proofs.Wire.Decoding
import MessageExport.Proofs.Wire.Members
/-!
# MessageExport.Proofs.Wire.Rewriting

**Rewriting** a text without changing the value that it decodes as.

What may be rewritten depends on the *place* of a value: the members of an object may
change places anywhere, but members can only be added to records, and only a record may
become an array. The place of what is inside a value follows from the place of the value,
and inside a tagged record from its tag.

The key idea is to read strictly. A strict reading does not depend on any order at all, and
a text in which no object repeats a name is read strictly as it is decoded.

## Shape of the proofs

`Keeps` is what one rewriting preserves: what is read strictly from the old content is read from
the new one, with any number of containers allowed, and what was a tree is still one. There is a
lemma for each constructor of `Rewrites`, and `Rewrites.keeps` is the induction that puts them
together. The two constructors for one place inside a container need that what is inside is
kept, which is the hypothesis of the induction; the other three change a whole object.

That a content is a container before and after is part of `Keeps`. It is needed where a
container would be replaced by something else of meaning: a tag or `null`, or the value of a
choice.

To come from decoding to reading strictly, no name may be repeated in the text at the beginning.
On the way back nothing is needed, as a strict reading is a reading. So the texts in between
need not be looked at.
-/

namespace MessageExport.Wire

open Json (Content Source)

/-! ### Places

A rewriting may happen at any depth, so what is allowed there has to be known from the outside.
The place of a value is followed inwards along members and elements. -/

/-- What a value is read as where it stands, or nothing if it is let pass there. -/
abbrev Place := Option Shape

/-- The variant of a tagged record, by its tag. -/
def variantAt? (kind : TaggedKind) (members : List (Option String × Content)) :
    Option (Variant kind.Value) :=
  (members.find? fun member => member.1 == some kind.tag).bind fun member =>
    variantIn .buffer kind member.2

/-- The names of a record's members in their order, the tag of a tagged record first. -/
def declaredNames? (members : List (Option String × Content)) : Shape → Option (List String)
  | .record kind => some (kind.record.members.map Member.name)
  | .tagged kind => (variantAt? kind members).map fun variant =>
      kind.tag :: variant.record.members.map Member.name
  | _ => none

/-- The place of the member that has a name. -/
def placeNamed (ms : List Member) (name : Option String) : Place :=
  (ms.find? fun m => name == some m.name).map fun m => m.slot.shape

/-- The place of a member of an object. -/
def memberPlace (members : List (Option String × Content)) (name : Option String) :
    Place → Place
  | some (.dictionary _ value) => some value
  | some (.record kind) => placeNamed kind.record.members name
  | some (.tagged kind) =>
      if name = some kind.tag then none
      else (variantAt? kind members).bind fun variant => placeNamed variant.record.members name
  | _ => none

/-- The place of an element of an array. -/
def elementPlace (elements : List Content) (i : Nat) : Place → Place
  | some (.list element) => some element
  | some (.record kind) => kind.record.members[i]?.map fun m => m.slot.shape
  | some (.tagged kind) =>
      match elements, i with
      | tag :: _, i + 1 => (variantIn .buffer kind tag).bind fun variant =>
          variant.record.members[i]?.map fun m => m.slot.shape
      | _, _ => none
  | _ => none

/-! ### Rewriting

Rewritings are steps, and any number of them may be taken one after another. A step on the text
that keeps its content is a respelling, which is a relation of its own. -/

/-- A content is rewritten in one place. -/
inductive Rewrites : Place → Content → Content → Prop where
  /-- The members of an object change places. -/
  | permute (place : Place) {members members' : List (Option String × Content)}
      (h : members.Perm members') : Rewrites place (.object members) (.object members')
  /-- A record gets a member that it does not declare. -/
  | extra {shape : Shape} (before after : List (Option String × Content)) {names : List String}
      {name : String} {c : Content}
      (hnames : declaredNames? (before ++ after) shape = some names)
      (hname : name ∉ names) (hc : c = .null ∨ ∃ s, c = .text (some s)) :
      Rewrites (some shape) (.object (before ++ after))
        (.object (before ++ (some name, c) :: after))
  /-- A record with exactly its declared members becomes the array of their values in the
  order in which they are declared. -/
  | positional {shape : Shape} {members ordered : List (Option String × Content)}
      {names : List String} (hnames : declaredNames? members shape = some names)
      (hordered : members.Perm ordered) (h : ordered.map Prod.fst = names.map some) :
      Rewrites (some shape) (.object members) (.array (ordered.map Prod.snd))
  | element {place : Place} (before after : List Content) {c c' : Content}
      (h : Rewrites (elementPlace (before ++ c :: after) before.length place) c c') :
      Rewrites place (.array (before ++ c :: after)) (.array (before ++ c' :: after))
  | member {place : Place} (before after : List (Option String × Content))
      {name : Option String} {c c' : Content}
      (h : Rewrites (memberPlace (before ++ (name, c) :: after) name place) c c') :
      Rewrites place (.object (before ++ (name, c) :: after))
        (.object (before ++ (name, c') :: after))

/-- A text is rewritten: it is respelled, or replaced by any text that says the rewritten
content. -/
inductive RewritesText (shape : Shape) : Source → Source → Prop where
  | respelling {s t : Source} (h : s.Respells t) : RewritesText shape s t
  | content {s t : Source} (h : Rewrites (some shape) s.content t.content) :
      RewritesText shape s t

/-! ### What a rewriting keeps -/

/-- What is an array or an object. -/
inductive IsContainer : Content → Prop where
  | array (elements : List Content) : IsContainer (.array elements)
  | object (members : List (Option String × Content)) : IsContainer (.object members)

/-- A container is replaced by another from which the same is read. -/
structure Keeps (place : Place) (c c' : Content) : Prop where
  before : IsContainer c
  after : IsContainer c'
  tree : ∀ depth, (c.tree? depth).isSome = true → (c'.tree? depth).isSome = true
  /-- Nothing gets into an object that is let pass. -/
  nothing : place = none → c = .object [] → c' = .object []
  read : ∀ shape, place = some shape → ∀ depth m, m.strict = true →
    Carries (read depth m shape) (read depth m shape) c c'

/-- No container is `null`. -/
theorem IsContainer.ne_null {c : Content} (h : IsContainer c) : c ≠ .null := by
  cases h <;> nofun

/-- Rewritings can be taken one after another. -/
theorem Keeps.trans {place : Place} {c c' c'' : Content} (h : Keeps place c c')
    (h' : Keeps place c' c'') : Keeps place c c'' where
  before := h.before
  after := h'.after
  tree depth hc := h'.tree depth (h.tree depth hc)
  nothing hplace hc := h'.nothing hplace (h.nothing hplace hc)
  read shape hplace depth m hm v hv :=
    h'.read shape hplace depth m hm v (h.read shape hplace depth m hm v hv)

/-! ### Tags

The variant of a tagged record is found twice: by its decoder, and by `variantAt?` when the
places inside are to be known. Where the record is read they agree. -/

/-- A tag that is read names a variant also after a tree. -/
theorem variantIn_buffer {m : Manner} {kind : TaggedKind} {c : Content}
    {variant : Variant kind.Value} (h : variantIn m kind c = some variant) :
    variantIn .buffer kind c = some variant := by
  unfold variantIn at h ⊢
  split at h
  · exact h
  · split at h
    · exact h
    · cases h
  · cases h

/-- The variant that is read from the members is the one that their tag gives. -/
theorem variantAt?_of_onlyIn {m : Manner} {kind : TaggedKind}
    {members : List (Option String × Content)} {variant : Variant kind.Value}
    (h : onlyIn (variantIn m kind) none (withName kind.tag members) = some variant) :
    variantAt? kind members = some variant := by
  rw [variantAt?, ← List.head?_filter]
  rw [withName] at h
  cases hmembers : members.filter fun member => member.1 == some kind.tag with
  | nil =>
      rw [hmembers] at h
      cases h
  | cons member more =>
      rw [hmembers] at h
      cases more with
      | nil => exact variantIn_buffer h
      | cons => cases h

/-! ### A whole object

Each of the three changes is followed through all shapes. Where a shape is not read from an
object there is nothing to show, and records and tagged records are the cases of interest. -/

/-- The members of an object may change places, whatever the object is read as. -/
theorem keeps_permute (place : Place) {members members' : List (Option String × Content)}
    (h : members.Perm members') : Keeps place (.object members) (.object members') := by
  refine ⟨.object _, .object _, fun depth hdepth => ?_, fun _ hc => ?_, ?_⟩
  · cases depth with
    | zero => cases hdepth
    | succ depth =>
        rw [Json.isSome_tree?_object] at hdepth ⊢
        exact fun member hmember => hdepth member (h.mem_iff.mpr hmember)
  · obtain rfl := Content.object.inj hc
    rw [List.nil_perm.mp h]
  · rintro shape rfl depth m hm v hv
    cases shape with
    | text | natural | identifier | instant => simp [textIn, naturalIn] at hv
    | choice kind =>
        rw [read_choice] at hv ⊢
        exact choiceIn_perm m _ depth h hv
    | list => cases depth <;> cases hv
    | dictionary kind value =>
        cases depth with
        | zero => cases hv
        | succ depth => exact dictionaryIn_perm hm kind _ h hv
    | record kind =>
        cases depth with
        | zero => cases hv
        | succ depth =>
            obtain ⟨values, hvalues, rfl⟩ := Option.map_eq_some_iff.mp hv
            rw [membersIn_perm _ _ _ h] at hvalues
            exact Option.map_eq_some_iff.mpr ⟨values, hvalues, rfl⟩
    | tagged kind =>
        cases depth with
        | zero => cases hv
        | succ depth =>
            obtain ⟨variant, values, hvariant, hvalues, rfl⟩ := taggedIn_object.mp hv
            rw [withName, onlyIn_perm _ _ (h.filter _)] at hvariant
            rw [withoutName, membersIn_perm _ _ _ (h.filter _)] at hvalues
            exact taggedIn_object.mpr ⟨variant, values, hvariant, hvalues, rfl⟩

/-- A member that is neither declared nor the tag is let pass. -/
theorem tagged_extra {kind : TaggedKind} {members : List (Option String × Content)}
    {names : List String} {name : String} {c : Content}
    (hnames : declaredNames? members (.tagged kind) = some names) (hname : name ∉ names)
    {depth : Nat} {m : Manner} (hc : passesIn m.afterwards depth c = true) {v : kind.Value}
    (hv : read (depth + 1) m (.tagged kind) (.object members) = some v) :
    read (depth + 1) m (.tagged kind) (.object ((some name, c) :: members)) = some v := by
  obtain ⟨variant, values, hvariant, hvalues, rfl⟩ := taggedIn_object.mp hv
  rw [declaredNames?, variantAt?_of_onlyIn hvariant] at hnames
  obtain rfl := Option.some.inj hnames
  rw [List.mem_cons, not_or] at hname
  have hne : some name ≠ some kind.tag := fun h => hname.1 (Option.some.inj h)
  refine taggedIn_object.mpr ⟨variant, values, ?_, ?_, rfl⟩
  · rw [withName_cons_of_ne hne]
    exact hvariant
  · rw [withoutName_cons_of_ne hne, membersIn_extra _ hname.2 hc]
    exact hvalues

/-- A record may get a member that it does not declare. -/
theorem keeps_extra {shape : Shape} (before after : List (Option String × Content))
    {names : List String} {name : String} {c : Content}
    (hnames : declaredNames? (before ++ after) shape = some names) (hname : name ∉ names)
    (hc : c = .null ∨ ∃ s, c = .text (some s)) :
    Keeps (some shape) (.object (before ++ after))
      (.object (before ++ (some name, c) :: after)) := by
  have htree (depth : Nat) : (c.tree? depth).isSome = true := by
    rcases hc with rfl | ⟨s, rfl⟩ <;> (rw [Content.tree?]; rfl)
  have hpasses (m : Manner) (depth : Nat) : passesIn m depth c = true := by
    simp [passesIn, htree]
  -- where the new member stands does not matter, so that it may be the first
  refine Keeps.trans ?_ (keeps_permute _ List.perm_middle.symm)
  generalize before ++ after = members at hnames
  refine ⟨.object _, .object _, fun depth hdepth => ?_,
    fun hplace => absurd hplace (Option.some_ne_none shape), ?_⟩
  · cases depth with
    | zero => cases hdepth
    | succ depth =>
        rw [Json.isSome_tree?_object] at hdepth ⊢
        exact List.forall_mem_cons.mpr ⟨⟨rfl, htree depth⟩, hdepth⟩
  · rintro shape' hshape depth m - v hv
    obtain rfl := Option.some.inj hshape
    cases shape with
    | text | natural | identifier | instant | choice | list | dictionary => cases hnames
    | record kind =>
        obtain rfl := Option.some.inj hnames
        cases depth with
        | zero => cases hv
        | succ depth =>
            obtain ⟨values, hvalues, rfl⟩ := Option.map_eq_some_iff.mp hv
            rw [← membersIn_extra _ hname (hpasses m depth)] at hvalues
            exact Option.map_eq_some_iff.mpr ⟨values, hvalues, rfl⟩
    | tagged kind =>
        cases depth with
        | zero => cases hv
        | succ depth => exact tagged_extra hnames hname (hpasses m.afterwards depth) hv

/-- A tagged record is read from its values in their order, the tag first. -/
theorem tagged_positional {kind : TaggedKind} {members ordered : List (Option String × Content)}
    {names : List String} (hnames : declaredNames? members (.tagged kind) = some names)
    (hordered : members.Perm ordered) (h : ordered.map Prod.fst = names.map some) {depth : Nat}
    {m : Manner} {v : kind.Value}
    (hv : read (depth + 1) m (.tagged kind) (.object members) = some v) :
    read (depth + 1) m (.tagged kind) (.array (ordered.map Prod.snd)) = some v := by
  obtain ⟨variant, values, hvariant, hvalues, rfl⟩ := taggedIn_object.mp hv
  rw [declaredNames?, variantAt?_of_onlyIn hvariant] at hnames
  obtain rfl := Option.some.inj hnames
  rw [withName, onlyIn_perm _ _ (hordered.filter _)] at hvariant
  rw [withoutName, membersIn_perm _ _ _ (hordered.filter _)] at hvalues
  cases ordered with
  | nil => cases h
  | cons first others =>
      obtain ⟨name, tag⟩ := first
      -- the tag is declared first, so it comes first in the array
      obtain ⟨rfl, hmore⟩ := List.cons.inj h
      rw [List.map_map] at hmore
      obtain ⟨htag, hothers⟩ := eq_of_onlyIn_cons hvariant
      rw [← withoutName, hothers] at hvalues
      exact taggedIn_array.mpr
        ⟨variant, values, htag, elementsIn_of_membersIn hmore hvalues, rfl⟩

/-- A record may become the array of its values. -/
theorem keeps_positional {shape : Shape} {members ordered : List (Option String × Content)}
    {names : List String} (hnames : declaredNames? members shape = some names)
    (hordered : members.Perm ordered) (h : ordered.map Prod.fst = names.map some) :
    Keeps (some shape) (.object members) (.array (ordered.map Prod.snd)) := by
  refine ⟨.object _, .array _, fun depth hdepth => ?_,
    fun hplace => absurd hplace (Option.some_ne_none shape), ?_⟩
  · cases depth with
    | zero => cases hdepth
    | succ depth =>
        rw [Json.isSome_tree?_object] at hdepth
        rw [Json.isSome_tree?_array]
        intro c hc
        obtain ⟨member, hmember, rfl⟩ := List.mem_map.mp hc
        exact (hdepth member (hordered.mem_iff.mpr hmember)).2
  · rintro shape' hshape depth m - v hv
    obtain rfl := Option.some.inj hshape
    cases shape with
    | text | natural | identifier | instant | choice | list | dictionary => cases hnames
    | record kind =>
        obtain rfl := Option.some.inj hnames
        rw [List.map_map] at h
        cases depth with
        | zero => cases hv
        | succ depth =>
            obtain ⟨values, hvalues, rfl⟩ := Option.map_eq_some_iff.mp hv
            rw [membersIn_perm _ _ _ hordered] at hvalues
            exact Option.map_eq_some_iff.mpr
              ⟨values, elementsIn_of_membersIn h hvalues, rfl⟩
    | tagged kind =>
        cases depth with
        | zero => cases hv
        | succ depth => exact tagged_positional hnames hordered h hv

/-! ### One place in a container

What is inside changes, and everything beside it stays as it is. Elements and members beside it
carry over by `Carries.refl`, so the lemmas compare two lists that differ in one place. -/

variable {α : Type}

/-- Lists that differ in one place only. -/
theorem forall₂_append_cons {β : Type} {r : β → β → Prop} (hr : ∀ b, r b b) (before after : List β)
    {b b' : β} (h : r b b') : List.Forall₂ r (before ++ b :: after) (before ++ b' :: after) := by
  induction before with
  | nil => exact .cons h (List.forall₂_same.mpr fun b _ => hr b)
  | cons b before ih => exact .cons (hr b) ih

/-- What stands in a slot carries over from one container to another. -/
theorem slot_carries {place : Place} {c c' : Content} (h : Keeps place c c') {m : Manner}
    (hm : m.strict = true) (depth : Nat) {slot : Slot} (hplace : place = some slot.shape) :
    Carries (slotIn (fun shape => read depth m shape) slot)
      (slotIn (fun shape => read depth m shape) slot) c c' :=
  slotIn_mono slot ⟨fun hc => absurd hc h.before.ne_null, fun hc => absurd hc h.after.ne_null⟩
    (h.read _ hplace depth m hm)

/-- No tag is a container. -/
theorem variantIn_of_isContainer {c : Content} (h : IsContainer c) (m : Manner)
    (kind : TaggedKind) : variantIn m kind c = none := by
  cases h <;> rfl

/-- Where names are not repeated, the place of a member is that of its own slot. -/
theorem placeNamed_eq {ms : List Member} (hms : (ms.map Member.name).Nodup) {m : Member}
    (hm : m ∈ ms) : placeNamed ms (some m.name) = some m.slot.shape := by
  cases hfind : ms.find? fun m' => some m.name == some m'.name with
  | none =>
      have := List.find?_eq_none.mp hfind m hm
      simp at this
  | some m' =>
      have hname : m.name = m'.name := by simpa using List.find?_some hfind
      obtain rfl := List.inj_on_of_nodup_map hms hm (List.mem_of_find?_eq_some hfind) hname
      rw [placeNamed, hfind]
      rfl

/-- An element is kept apart from the others. -/
theorem elementsIn_keeps {ms : List Member} {before after : List Content} {c c' : Content}
    {place : Place} (h : Keeps place c c')
    (hplace : place = ms[before.length]?.map fun m => m.slot.shape) {m : Manner}
    (hm : m.strict = true) {depth : Nat} {values : Values ms}
    (hvalues : elementsIn (fun member => slotIn (fun shape => read depth m shape) member.slot) ms
      (before ++ c :: after) = some values) :
    elementsIn (fun member => slotIn (fun shape => read depth m shape) member.slot) ms
      (before ++ c' :: after) = some values := by
  refine elementsIn_mono (by simp) (fun i member x x' hmember hx hx' => ?_) hvalues
  by_cases hi : i = before.length
  · subst hi
    -- the element that was rewritten stands in the slot of its position
    obtain rfl : c = x := by simpa using hx
    obtain rfl : c' = x' := by simpa using hx'
    rw [hmember] at hplace
    exact slot_carries h hm depth hplace
  · obtain rfl : x = x' := by
      rcases Nat.lt_or_gt_of_ne hi with hi | hi
      · rw [List.getElem?_append_left hi] at hx hx'
        exact Option.some.inj (hx.symm.trans hx')
      · obtain ⟨k, hk⟩ : ∃ k, i - before.length = k + 1 := ⟨i - before.length - 1, by omega⟩
        rw [List.getElem?_append_right (by omega), hk, List.getElem?_cons_succ] at hx hx'
        exact Option.some.inj (hx.symm.trans hx')
    exact Carries.refl _ x

/-- What is rewritten in a tagged record is not the tag, which stands first. -/
theorem tagged_element {kind : TaggedKind} (before after : List Content) {c c' : Content}
    (h : Keeps (elementPlace (before ++ c :: after) before.length (some (.tagged kind))) c c')
    {depth : Nat} {m : Manner} (hm : m.strict = true) {v : kind.Value}
    (hv : read (depth + 1) m (.tagged kind) (.array (before ++ c :: after)) = some v) :
    read (depth + 1) m (.tagged kind) (.array (before ++ c' :: after)) = some v := by
  cases before with
  | nil =>
      -- the tag would be rewritten, but no tag is a container
      obtain ⟨variant, _, hvariant, -, -⟩ := taggedIn_array.mp hv
      rw [variantIn_of_isContainer h.before] at hvariant
      cases hvariant
  | cons tag before =>
      obtain ⟨variant, values, hvariant, hvalues, rfl⟩ := taggedIn_array.mp hv
      have hplace : elementPlace ((tag :: before) ++ c :: after) (tag :: before).length
          (some (.tagged kind)) =
            variant.record.members[before.length]?.map fun m => m.slot.shape := by
        simp [elementPlace, variantIn_buffer hvariant]
      have hvalues' := elementsIn_keeps h hplace (m := m.afterwards) hm hvalues
      exact taggedIn_array.mpr ⟨variant, values, hvariant, hvalues', rfl⟩

/-- An array is kept if one of its elements is. -/
theorem keeps_element {place : Place} (before after : List Content) {c c' : Content}
    (h : Keeps (elementPlace (before ++ c :: after) before.length place) c c') :
    Keeps place (.array (before ++ c :: after)) (.array (before ++ c' :: after)) := by
  refine ⟨.array _, .array _, fun depth hdepth => ?_, fun _ hc => (by cases hc), ?_⟩
  · cases depth with
    | zero => cases hdepth
    | succ depth =>
        rw [Json.isSome_tree?_array, List.forall_mem_append, List.forall_mem_cons] at hdepth ⊢
        exact ⟨hdepth.1, h.tree depth hdepth.2.1, hdepth.2.2⟩
  · rintro shape rfl depth m hm v hv
    cases shape with
    | text | natural | identifier | instant => simp [textIn, naturalIn] at hv
    | choice kind => simp [choiceIn] at hv
    | dictionary => cases depth <;> cases hv
    | list element =>
        cases depth with
        | zero => cases hv
        | succ depth =>
            exact mapM_mono (forall₂_append_cons (fun c => Carries.refl _ c) before after
              (h.read element rfl depth m hm)) hv
    | record kind =>
        cases depth with
        | zero => cases hv
        | succ depth =>
            obtain ⟨values, hvalues, rfl⟩ := Option.map_eq_some_iff.mp hv
            exact Option.map_eq_some_iff.mpr ⟨values, elementsIn_keeps h rfl hm hvalues, rfl⟩
    | tagged kind =>
        cases depth with
        | zero => cases hv
        | succ depth => exact tagged_element before after h hm hv

/-- A member is kept apart from the others. -/
theorem membersIn_keeps {ms : List Member} (hms : (ms.map Member.name).Nodup)
    {before after : List (Option String × Content)} {name : Option String} {c c' : Content}
    {place : Place} (h : Keeps place c c') (hplace : place = placeNamed ms name) {m : Manner}
    (hm : m.strict = true) {depth : Nat} {values : Values ms}
    (hvalues : membersIn (passesIn m depth)
      (fun member => slotIn (fun shape => read depth m shape) member.slot) ms
      (before ++ (name, c) :: after) = some values) :
    membersIn (passesIn m depth)
      (fun member => slotIn (fun shape => read depth m shape) member.slot) ms
      (before ++ (name, c') :: after) = some values := by
  let value (member : Member) := slotIn (fun shape => read depth m shape) member.slot
  have hchanged : CarriesMember (passesIn m depth) (passesIn m depth) value value ms
      (name, c) (name, c') := by
    refine ⟨rfl, fun hpasses => ?_, fun member hmember hname => ?_⟩
    · simp only [passesIn, Bool.or_eq_true] at hpasses ⊢
      exact hpasses.imp_right (h.tree depth)
    · refine slot_carries h hm depth ?_
      obtain rfl : name = some member.name := hname
      rw [hplace, placeNamed_eq hms hmember]
  exact membersIn_mono (forall₂_append_cons
    (fun member => ⟨rfl, id, fun m _ _ => Carries.refl _ _⟩) before after hchanged) hvalues

/-- Nothing that is read as a choice can be rewritten inside. -/
theorem choiceIn_keeps (m : Manner) (names : List (String × α)) (depth : Nat)
    {before after : List (Option String × Content)} {name : Option String} {c c' : Content}
    (h : Keeps none c c') {v : α}
    (hv : choiceIn m names depth (.object (before ++ (name, c) :: after)) = some v) :
    choiceIn m names depth (.object (before ++ (name, c') :: after)) = some v := by
  match before, after with
  | [], [] =>
      cases h.before with
      | array elements => simp [choiceIn] at hv
      | object members =>
          cases members with
          | nil =>
              rw [h.nothing rfl rfl]
              exact hv
          | cons => simp [choiceIn] at hv
  | [], _ :: _ => simp [choiceIn] at hv
  | [_], _ => simp [choiceIn] at hv
  | _ :: _ :: _, _ => simp [choiceIn] at hv

/-- What is rewritten in a tagged record is not the tag, and the variant stays. -/
theorem tagged_member {kind : TaggedKind} (before after : List (Option String × Content))
    {name : Option String} {c c' : Content}
    (h : Keeps (memberPlace (before ++ (name, c) :: after) name (some (.tagged kind))) c c')
    {depth : Nat} {m : Manner} (hm : m.strict = true) {v : kind.Value}
    (hv : read (depth + 1) m (.tagged kind) (.object (before ++ (name, c) :: after)) = some v) :
    read (depth + 1) m (.tagged kind) (.object (before ++ (name, c') :: after)) = some v := by
  obtain ⟨variant, values, hvariant, hvalues, rfl⟩ := taggedIn_object.mp hv
  have hname : name ≠ some kind.tag := by
    rintro rfl
    -- the tag would be rewritten, but no tag is a container
    have hvalue := value_of_onlyIn_of_mem (mem_withName_middle before after) hvariant
    rw [variantIn_of_isContainer h.before] at hvalue
    cases hvalue
  have hplace : memberPlace (before ++ (name, c) :: after) name (some (.tagged kind)) =
      placeNamed variant.record.members name := by
    rw [memberPlace, if_neg hname, variantAt?_of_onlyIn hvariant]
    rfl
  obtain ⟨_, -, htag⟩ := exists_of_onlyIn hvariant
  have hnames :=
    (List.nodup_cons.mp (variantNames_nodup kind (mem_variants_of_variantIn htag))).2
  rw [withName_middle_of_ne hname] at hvariant
  rw [withoutName_middle_of_ne hname] at hvalues
  refine taggedIn_object.mpr ⟨variant, values, ?_, ?_, rfl⟩
  · rw [withName_middle_of_ne hname]
    exact hvariant
  · rw [withoutName_middle_of_ne hname]
    exact membersIn_keeps hnames h hplace (m := m.afterwards) hm hvalues

/-- An object is kept if the value of one of its members is. -/
theorem keeps_member {place : Place} (before after : List (Option String × Content))
    {name : Option String} {c c' : Content}
    (h : Keeps (memberPlace (before ++ (name, c) :: after) name place) c c') :
    Keeps place (.object (before ++ (name, c) :: after))
      (.object (before ++ (name, c') :: after)) := by
  refine ⟨.object _, .object _, fun depth hdepth => ?_, fun _ hc => ?_, ?_⟩
  · cases depth with
    | zero => cases hdepth
    | succ depth =>
        rw [Json.isSome_tree?_object, List.forall_mem_append, List.forall_mem_cons] at hdepth ⊢
        exact ⟨hdepth.1, hdepth.2.1.imp_right (h.tree depth), hdepth.2.2⟩
  · simp at hc
  · rintro shape rfl depth m hm v hv
    cases shape with
    | text | natural | identifier | instant => simp [textIn, naturalIn] at hv
    | list => cases depth <;> cases hv
    | choice kind =>
        rw [read_choice] at hv ⊢
        exact choiceIn_keeps m _ depth h hv
    | dictionary kind value =>
        cases depth with
        | zero => cases hv
        | succ depth =>
            obtain ⟨entries, hentries, hkeys, rfl⟩ := dictionaryIn_eq_some.mp hv
            refine dictionaryIn_eq_some.mpr ⟨entries, ?_, hkeys, rfl⟩
            refine mapM_mono (forall₂_append_cons (fun member entry h => h) before after
              fun entry hentry => ?_) hentries
            obtain ⟨key, hname, hkey, hx⟩ := entryIn_eq_some.mp hentry
            exact entryIn_eq_some.mpr
              ⟨key, hname, hkey, h.read value rfl depth m hm entry.2 hx⟩
    | record kind =>
        cases depth with
        | zero => cases hv
        | succ depth =>
            obtain ⟨values, hvalues, rfl⟩ := Option.map_eq_some_iff.mp hv
            exact Option.map_eq_some_iff.mpr
              ⟨values, membersIn_keeps (names_nodup kind) h rfl hm hvalues, rfl⟩
    | tagged kind =>
        cases depth with
        | zero => cases hv
        | succ depth => exact tagged_member before after h hm hv

/-- What is rewritten still says as much. -/
theorem Rewrites.keeps {place : Place} {c c' : Content} (h : Rewrites place c c') :
    Keeps place c c' := by
  induction h with
  | permute place h => exact keeps_permute place h
  | extra before after hnames hname hc => exact keeps_extra before after hnames hname hc
  | positional hnames hordered h => exact keeps_positional hnames hordered h
  | element before after _ ih => exact keeps_element before after ih
  | member before after _ ih => exact keeps_member before after ih

/-! ### Texts

From contents to texts there is only the step that a respelling does not change the content. -/

/-- What is read strictly stays the same when the text is rewritten. -/
theorem read_of_rewritesText {shape : Shape} {s t : Source} (h : RewritesText shape s t)
    {depth : Nat} {m : Manner} (hm : m.strict = true) :
    Carries (read depth m shape) (read depth m shape) s.content t.content := by
  cases h with
  | respelling h =>
      rw [Json.Source.content_of_respells h]
      exact Carries.refl _ _
  | content h => exact h.keeps.read shape rfl depth m hm

/-- **Rewriting**: a text in which no object repeats a name decodes as the same value
however often it is rewritten, and wherever. -/
theorem decodeText_of_rewritesText {shape : Shape} {s t : Source} {v : shape.Value}
    (hdistinct : s.content.Distinct) (hv : decodeText shape s.text = .ok v)
    (h : Relation.ReflTransGen (RewritesText shape) s t) : decodeText shape t.text = .ok v := by
  rw [decodeText_eq_ok_iff] at hv ⊢
  have hstrict : read Json.maxDepth ⟨false, true⟩ shape t.content = some v := by
    induction h with
    | refl => exact read_strict_carries (fun _ => hdistinct) v hv
    | tail _ hstep ih => exact read_of_rewritesText hstep rfl v ih
  -- the way back needs no names to be distinct
  have hback : Carries (read Json.maxDepth ⟨false, true⟩ shape)
      (read Json.maxDepth .streamed shape) t.content t.content :=
    read_strict_carries nofun
  exact hback v hstrict

theorem decodeText_of_rewritesText_keyword :
    ∃ s t : Source, s.text = "\x7b\"keyword\":\"k\",\"type\":\"keyword\"\x7d".toList ∧
      t.text = "[\"keyword\",\"k\"]".toList ∧
      s.content.Distinct ∧ decodeText (.tagged .timeRange) s.text = .ok (.keyword "k") ∧
      Relation.ReflTransGen (RewritesText (.tagged .timeRange)) s t ∧
      decodeText (.tagged .timeRange) t.text = .ok (.keyword "k") := by
  let members : List (String × Json.Tree) := [("keyword", .text "k"), ("type", .text "keyword")]
  have hmembers : Json.Tree.Natural (.object members) :=
    .object (by simp [members, Json.Tree.Natural.text])
  have helements : Json.Tree.Natural (.array [.text "keyword", .text "k"]) :=
    .array (by simp [Json.Tree.Natural.text])
  obtain ⟨s, hs, hcontent⟩ := Json.exists_source_compact hmembers
  obtain ⟨t, ht, hcontent'⟩ := Json.exists_source_compact helements
  have hdistinct : s.content.Distinct := by
    rw [hcontent]
    exact .object (by decide)
      (by simp [members, Json.Tree.memberContents, Json.Tree.content, Content.Distinct.text])
  have hv : decodeText (.tagged .timeRange) s.text = .ok (.keyword "k") := by
    rw [decodeText_eq_ok_iff, hcontent]
    rfl
  have hsteps : Relation.ReflTransGen (RewritesText (.tagged .timeRange)) s t := by
    refine .single (.content ?_)
    rw [hcontent, hcontent']
    have hnames : declaredNames? (Json.Tree.memberContents members) (.tagged .timeRange) =
        some ["type", "keyword"] := rfl
    exact .positional hnames (List.Perm.swap _ _ _) rfl
  refine ⟨s, t, ?_, ?_, hdistinct, hv, hsteps, decodeText_of_rewritesText hdistinct hv hsteps⟩
  · rw [hs]
    rfl
  · rw [ht]
    rfl

end MessageExport.Wire
