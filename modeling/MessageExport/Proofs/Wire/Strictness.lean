import MessageExport.Proofs.IdMap
import MessageExport.Proofs.Wire.Buffering
/-!
# MessageExport.Proofs.Wire.Strictness

What is read from some contents is read from others that **carry** at least as much.

The members of two objects are compared one by one. The first use of it is that a text in
which no object repeats a name can be read strictly: only there the order of the entries
of a dictionary does not matter.

## Shape of the proofs

A reading follows the content, and so does the comparison of two readings. For every part of
`read` there is a lemma that what is read of the parts carries over to the whole: `onlyIn_mono`,
`membersIn_mono`, `elementsIn_mono`, `mapM_mono` and `slotIn_mono`. These compare two contents
and two ways to read. The lemmas about strict reading are the case of one content, read strictly
or not, and `read_strict_carries` is the induction on the number of containers that puts them
together.

Strictness only shows in dictionaries. There it asks that no key occurs twice, which is what
`Content.Distinct` gives, as keys are names.
-/

namespace MessageExport.Wire

open Json (Content)

variable {α : Type}

/-- The shape of the values that a slot is for. -/
def Slot.shape : Slot → Shape
  | .plain shape => shape
  | .nullable shape => shape

/-! ### Carrying over

Two lists of members are compared pairwise. Pairs have the same name, so the members that are
read under a name, and those that are left when these are taken out, correspond to each other
again (`forall₂_withName`). -/

/-- Whatever is read from a content is read from another. -/
def Carries (read read' : Content → Option α) (c c' : Content) : Prop :=
  ∀ v, read c = some v → read' c' = some v

/-- What is read from a content is read from it. -/
theorem Carries.refl (read : Content → Option α) (c : Content) : Carries read read c c :=
  fun _ h => h

/-- A member carries over as far as members of that name are read. -/
structure CarriesMember (passes passes' : Content → Bool)
    (value value' : (m : Member) → Content → Option m.Value) (ms : List Member)
    (member member' : Option String × Content) : Prop where
  name : member'.1 = member.1
  passes : passes member.2 = true → passes' member'.2 = true
  value : ∀ m ∈ ms, member.1 = some m.name → Carries (value m) (value' m) member.2 member'.2

/-- Members that correspond still do when they are sorted by a name. -/
theorem forall₂_withName {r : Option String × Content → Option String × Content → Prop}
    (hr : ∀ member member', r member member' → member'.1 = member.1) (name : String)
    {members members' : List (Option String × Content)} (h : List.Forall₂ r members members') :
    List.Forall₂ r (withName name members) (withName name members') ∧
      List.Forall₂ r (withoutName name members) (withoutName name members') := by
  induction h with
  | nil => exact ⟨.nil, .nil⟩
  | @cons member member' members members' hhead _ ih =>
      have hname := hr member member' hhead
      unfold withName withoutName at *
      by_cases h : member.1 = some name
      · rw [List.filter_cons_of_pos (by simp [h]), List.filter_cons_of_pos (by simp [hname, h]),
          List.filter_cons_of_neg (by simp [h]), List.filter_cons_of_neg (by simp [hname, h])]
        exact ⟨.cons hhead ih.1, ih.2⟩
      · rw [List.filter_cons_of_neg (by simp [h]), List.filter_cons_of_neg (by simp [hname, h]),
          List.filter_cons_of_pos (by simp [h]), List.filter_cons_of_pos (by simp [hname, h])]
        exact ⟨ih.1, .cons hhead ih.2⟩

/-- The only member of a name corresponds to the only one of that name. -/
theorem onlyIn_mono {r : Option String × Content → Option String × Content → Prop}
    {value value' : Content → Option α} {absent : Option α}
    {members members' : List (Option String × Content)} (h : List.Forall₂ r members members')
    (hr : ∀ member ∈ members, ∀ member', r member member' →
      Carries value value' member.2 member'.2)
    {v : α} (hv : onlyIn value absent members = some v) :
    onlyIn value' absent members' = some v := by
  match h with
  | .nil => exact hv
  | .cons hhead .nil => exact hr _ List.mem_cons_self _ hhead v hv
  | .cons _ (.cons _ _) => cases hv

/-- What is found under a name has that name. -/
theorem of_mem_withName {name : String} {member : Option String × Content}
    {members : List (Option String × Content)} (h : member ∈ withName name members) :
    member.1 = some name := by
  simpa using (List.mem_filter.mp h).2

/-- The members of a record carry over one by one. -/
theorem membersIn_mono {passes passes' : Content → Bool}
    {value value' : (m : Member) → Content → Option m.Value} {ms : List Member}
    {members members' : List (Option String × Content)}
    (h : List.Forall₂ (CarriesMember passes passes' value value' ms) members members')
    {values : Values ms} (hvalues : membersIn passes value ms members = some values) :
    membersIn passes' value' ms members' = some values := by
  induction ms generalizing members members' with
  | nil =>
      -- what is left is let pass on both sides
      rw [membersIn_nil] at hvalues ⊢
      induction h with
      | nil => exact List.forall_mem_nil _
      | cons hhead _ ih =>
          obtain ⟨⟨hname, hpasses⟩, hmore⟩ := List.forall_mem_cons.mp hvalues
          exact List.forall_mem_cons.mpr
            ⟨⟨hhead.name ▸ hname, hhead.passes hpasses⟩, ih hmore⟩
  | cons m ms ih =>
      obtain ⟨hown, hothers⟩ := membersIn_cons.mp hvalues
      obtain ⟨hwith, hwithout⟩ := forall₂_withName (fun _ _ h => h.name) m.name h
      have hown' := onlyIn_mono hwith (fun member hmember member' h =>
        h.value m List.mem_cons_self (of_mem_withName hmember)) hown
      have hothers' := ih (hwithout.imp fun _ _ h => ⟨h.name, h.passes, fun m hm =>
        h.value m (List.mem_cons_of_mem _ hm)⟩) hothers
      exact membersIn_cons.mpr ⟨hown', hothers'⟩

/-- The elements of a record carry over one by one. -/
theorem elementsIn_mono {value value' : (m : Member) → Content → Option m.Value}
    {ms : List Member} {elements elements' : List Content}
    (hlength : elements.length = elements'.length)
    (h : ∀ (i : Nat) m c c', ms[i]? = some m → elements[i]? = some c → elements'[i]? = some c' →
      Carries (value m) (value' m) c c')
    {values : Values ms} (hvalues : elementsIn value ms elements = some values) :
    elementsIn value' ms elements' = some values := by
  induction elements generalizing ms elements' with
  | nil =>
      obtain rfl := List.length_eq_zero_iff.mp hlength.symm
      rw [elementsIn] at hvalues ⊢
      exact hvalues
  | cons c cs ih =>
      obtain ⟨c', cs', rfl⟩ := List.exists_cons_of_length_eq_add_one hlength.symm
      cases ms with
      | nil => cases hvalues
      | cons m ms =>
          obtain ⟨hown, hothers⟩ := elementsIn_cons.mp hvalues
          have hown' := h 0 m c c' rfl rfl rfl _ hown
          have hothers' := ih (Nat.succ.inj hlength)
            (fun i m c c' hm hc hc' => h (i + 1) m c c' hm hc hc') hothers
          exact elementsIn_cons.mpr ⟨hown', hothers'⟩

/-- All elements carry over if every one does. -/
theorem mapM_mono {β γ : Type} {f f' : γ → Option β} {as as' : List γ}
    (h : List.Forall₂ (fun a a' => ∀ b, f a = some b → f' a' = some b) as as') {bs : List β}
    (hbs : as.mapM f = some bs) : as'.mapM f' = some bs := by
  induction h generalizing bs with
  | nil => exact hbs
  | cons hhead _ ih =>
      rw [List.mapM_cons] at hbs ⊢
      obtain ⟨b, hb, hbs⟩ := Option.bind_eq_some_iff.mp hbs
      obtain ⟨bs, htail, heq⟩ := Option.bind_eq_some_iff.mp hbs
      exact Option.bind_eq_some_iff.mpr
        ⟨b, hhead b hb, Option.bind_eq_some_iff.mpr ⟨bs, ih htail, heq⟩⟩

/-- In a slot, nothing has to correspond to nothing, and values to values. -/
theorem slotIn_mono {inner inner' : (shape : Shape) → Content → Option shape.Value}
    (slot : Slot) {c c' : Content} (hnull : c = .null ↔ c' = .null)
    (h : Carries (inner slot.shape) (inner' slot.shape) c c') :
    Carries (slotIn inner slot) (slotIn inner' slot) c c' := by
  cases slot with
  | plain shape => exact h
  | nullable shape =>
      by_cases hc : c = .null
      · rw [hc, hnull.mp hc]
        exact fun v hv => hv
      · have hc' : c' ≠ .null := fun h => hc (hnull.mpr h)
        intro v hv
        rw [slotIn_nullable _ _ hc] at hv
        obtain ⟨x, hx, rfl⟩ := Option.map_eq_some_iff.mp hv
        have hx' : inner' shape c' = some x := h x hx
        rw [slotIn_nullable _ _ hc', hx']
        rfl

/-! ### Strict reading

The condition on the content is only needed where the second reading is strict, and so it is
stated: one lemma serves for both directions. -/

/-- The keys of a dictionary are the names of its members. -/
theorem keys_of_entriesIn {kind : IdKind} {value : Content → Option α}
    {members : List (Option String × Content)} {entries : List (Identifier kind × α)}
    (h : members.mapM (entryIn kind value) = some entries) :
    members.filterMap Prod.fst = (entries.map Prod.fst).map Identifier.raw := by
  have hall := mapM_eq_some_iff.mp h
  clear h
  induction hall with
  | nil => rfl
  | @cons member entry _ _ hhead _ ih =>
      obtain ⟨name, hname, hkey, -⟩ := entryIn_eq_some.mp hhead
      rw [List.filterMap_cons_some hname, ih, List.map_cons, List.map_cons,
        Identifier.ofString?_eq_some.mp hkey]

section

variable {strict : Bool} {value value' : Content → Option α}

/-- A list is read strictly if its elements are. -/
theorem listIn_carries
    (hvalue : ∀ c, (strict = true → c.Distinct) → Carries value value' c c) {c : Content}
    (hc : strict = true → c.Distinct) : Carries (listIn value) (listIn value') c c := by
  intro v hv
  cases c with
  | null | boolean | number | text | object => cases hv
  | array elements =>
      exact mapM_mono (List.forall₂_same.mpr fun e he =>
        hvalue e fun hstrict => (hc hstrict).element e he) hv

/-- Where no name is repeated, no key of a dictionary is. -/
theorem dictionaryIn_carries {buffered strict' : Bool} {kind : IdKind}
    (hvalue : ∀ c, (strict = true → c.Distinct) → Carries value value' c c) {c : Content}
    (hc : strict = true → c.Distinct) :
    Carries (objectIn (dictionaryIn ⟨buffered, strict'⟩ kind value))
      (objectIn (dictionaryIn ⟨buffered, strict⟩ kind value')) c c := by
  intro v hv
  cases c with
  | null | boolean | number | text | array => cases hv
  | object members =>
      obtain ⟨entries, hentries, -, rfl⟩ := dictionaryIn_eq_some.mp hv
      have hentries' : members.mapM (entryIn kind value') = some entries := by
        refine mapM_mono (List.forall₂_same.mpr fun member hmember entry hentry => ?_) hentries
        obtain ⟨name, hname, hkey, hx⟩ := entryIn_eq_some.mp hentry
        have hx' := hvalue member.2 (fun hstrict => (hc hstrict).member member hmember) _ hx
        exact entryIn_eq_some.mpr ⟨name, hname, hkey, hx'⟩
      have hkeys (hstrict : strict = true) : (entries.map Prod.fst).Nodup := by
        have hnames := (hc hstrict).names
        rw [keys_of_entriesIn hentries] at hnames
        exact List.Nodup.of_map Identifier.raw hnames
      exact dictionaryIn_eq_some.mpr ⟨entries, hentries', hkeys, rfl⟩

end

section

variable {strict : Bool} {passes : Content → Bool}
variable {value value' : (m : Member) → Content → Option m.Value}

/-- The members of an object are read strictly, each for itself. -/
theorem membersIn_carries
    (hvalue : ∀ m c, (strict = true → c.Distinct) → Carries (value m) (value' m) c c)
    {ms : List Member} {members : List (Option String × Content)}
    (h : ∀ member ∈ members, strict = true → member.2.Distinct) {values : Values ms}
    (hvalues : membersIn passes value ms members = some values) :
    membersIn passes value' ms members = some values :=
  membersIn_mono (List.forall₂_same.mpr fun member hmember =>
    ⟨rfl, id, fun m _ _ => hvalue m member.2 (h member hmember)⟩) hvalues

/-- The elements of an array are read strictly, each for itself. -/
theorem elementsIn_carries
    (hvalue : ∀ m c, (strict = true → c.Distinct) → Carries (value m) (value' m) c c)
    {ms : List Member} {elements : List Content}
    (h : ∀ e ∈ elements, strict = true → e.Distinct) {values : Values ms}
    (hvalues : elementsIn value ms elements = some values) :
    elementsIn value' ms elements = some values := by
  refine elementsIn_mono rfl (fun i m c c' _ hc hc' => ?_) hvalues
  obtain rfl := Option.some.inj (hc.symm.trans hc')
  exact hvalue m c (h c (List.mem_of_getElem? hc))

/-- A record is read strictly if its members are, in an object or in an array. -/
theorem recordIn_carries
    (hvalue : ∀ m c, (strict = true → c.Distinct) → Carries (value m) (value' m) c c)
    (r : Record α) {c : Content} (hc : strict = true → c.Distinct) :
    Carries (recordIn passes value r) (recordIn passes value' r) c c := by
  intro v hv
  cases c with
  | null | boolean | number | text => cases hv
  | array elements =>
      obtain ⟨values, hvalues, rfl⟩ := Option.map_eq_some_iff.mp hv
      have hvalues' := elementsIn_carries hvalue
        (fun e he hstrict => (hc hstrict).element e he) hvalues
      exact Option.map_eq_some_iff.mpr ⟨values, hvalues', rfl⟩
  | object members =>
      obtain ⟨values, hvalues, rfl⟩ := Option.map_eq_some_iff.mp hv
      have hvalues' := membersIn_carries hvalue
        (fun member hmember hstrict => (hc hstrict).member member hmember) hvalues
      exact Option.map_eq_some_iff.mpr ⟨values, hvalues', rfl⟩

/-- A tagged record is read strictly if its members are; its tag is read either way. -/
theorem taggedIn_carries
    (hvalue : ∀ m c, (strict = true → c.Distinct) → Carries (value m) (value' m) c c)
    (variant : Content → Option (Variant α)) (tag : String) {c : Content}
    (hc : strict = true → c.Distinct) :
    Carries (taggedIn variant tag passes value) (taggedIn variant tag passes value') c c := by
  intro v hv
  cases c with
  | null | boolean | number | text => cases hv
  | array elements =>
      cases elements with
      | nil => cases hv
      | cons first others =>
          obtain ⟨found, values, hfound, hvalues, rfl⟩ := taggedIn_array.mp hv
          have hvalues' := elementsIn_carries hvalue
            (fun e he hstrict => (hc hstrict).element e (List.mem_cons_of_mem _ he)) hvalues
          exact taggedIn_array.mpr ⟨found, values, hfound, hvalues', rfl⟩
  | object members =>
      obtain ⟨found, values, hfound, hvalues, rfl⟩ := taggedIn_object.mp hv
      have hvalues' := membersIn_carries hvalue
        (fun member hmember hstrict =>
          (hc hstrict).member member (List.mem_filter.mp hmember).1) hvalues
      exact taggedIn_object.mpr ⟨found, values, hfound, hvalues', rfl⟩

end

/-- A text in which no object repeats a name can be read strictly, and what is read strictly
is read. -/
theorem read_strict_carries {depth : Nat} {buffered strict strict' : Bool} {shape : Shape}
    {c : Content} (hc : strict' = true → c.Distinct) :
    Carries (read depth ⟨buffered, strict⟩ shape) (read depth ⟨buffered, strict'⟩ shape) c c := by
  induction depth generalizing buffered shape c with
  | zero => cases shape <;> exact fun v hv => hv
  | succ depth ih =>
      have hslot (buffered : Bool) (member : Member) (c : Content)
          (hc : strict' = true → c.Distinct) :
          Carries (slotIn (fun shape => read depth ⟨buffered, strict⟩ shape) member.slot)
            (slotIn (fun shape => read depth ⟨buffered, strict'⟩ shape) member.slot) c c :=
        slotIn_mono member.slot Iff.rfl (ih hc)
      cases shape with
      | text | identifier | natural | instant | choice => exact fun v hv => hv
      | list element => exact listIn_carries (fun _ => ih) hc
      | dictionary kind value => exact dictionaryIn_carries (fun _ => ih) hc
      | record kind => exact recordIn_carries (hslot buffered) kind.record hc
      | tagged kind => exact taggedIn_carries (hslot true) (variantIn _ kind) kind.tag hc

end MessageExport.Wire
