import MessageExport.Proofs.Wire.Writing
/-!
# MessageExport.Proofs.Wire.Depth

**How deep** a value is written that was decoded.

A value may be written deeper than the text it came from, since members that the text
lacks are written with the values that their absence means. Only filters are nested without
a limit of their own, and what is left out of them is not written; every other type is
written at most as deep as its *floor* where the text is not deeper.

## Shape of the proofs

Whatever a decoder returns has a property if what the decoders inside it return has one:
`Yields` is that statement, and there is one lemma for every combinator. For records the
property is `Each` of their members, with a way out for values that an absence means
(`OrImplied`), since these were not decoded.

The floors are numbers in a table, one for each kind of record, and `floor_members` checks the
table by evaluation: the members have lower floors, and what an absence means is not written
deeper either. The main theorem, `decode_depth`, is then an induction on how many containers may
be opened.
-/

namespace MessageExport.Wire

open Json (Tree)

variable {α β : Type}

/-! ### Decoders

The lemmas follow the loops of the decoders. In a failed run there is nothing to show, so each
proof takes a successful run apart, one step after another. -/

/-- If two steps succeed, then each of them does. -/
theorem exists_of_bind_eq_ok {ε : Type} {x : Except ε α} {f : α → Except ε β} {b : β}
    (h : x >>= f = .ok b) : ∃ a, x = .ok a ∧ f a = .ok b := by
  cases x with
  | error => cases h
  | ok a => exact ⟨a, rfl, h⟩

/-- Whatever is decoded has a property. -/
def Yields (decoder : Decoder α) (P : α → Prop) : Prop :=
  ∀ s a rest, decoder s = .ok (a, rest) → P a

/-- The elements of an array have the property of what the decoder of an element yields. -/
theorem elements_yields {element : Decoder α} {P : α → Prop} (h : Yields element P)
    (budget : Nat) (first : Bool) :
    Yields (Json.elements Failure.ofJson element budget first) fun values =>
      ∀ a ∈ values, P a := by
  induction budget generalizing first with
  | zero => nofun
  | succ budget ih =>
      intro s values rest hok
      simp only [Json.elements] at hok
      split at hok
      · cases hok
      · cases hok
        simp
      · obtain ⟨⟨a, more⟩, ha, hok⟩ := exists_of_bind_eq_ok hok
        obtain ⟨⟨others, after⟩, hothers, hok⟩ := exists_of_bind_eq_ok hok
        cases hok
        exact List.forall_mem_cons.mpr ⟨h _ _ _ ha, ih false _ _ _ hothers⟩

/-- What is gathered member by member keeps an invariant that every member keeps. -/
theorem members_yields {σ : Type} {member : σ → String → Decoder σ} {I : σ → Prop}
    (h : ∀ gathered name, I gathered → Yields (member gathered name) I) (budget : Nat)
    (first : Bool) {gathered : σ} (hgathered : I gathered) :
    Yields (Json.members Failure.ofJson member budget first gathered) I := by
  induction budget generalizing first gathered with
  | zero => nofun
  | succ budget ih =>
      intro s found rest hok
      simp only [Json.members] at hok
      split at hok
      · cases hok
      · cases hok
        exact hgathered
      · obtain ⟨⟨next, more⟩, hnext, hok⟩ := exists_of_bind_eq_ok hok
        exact ih false (h _ _ hgathered _ _ _ hnext) _ _ _ hok

/-- The brackets do not change what is decoded between them. -/
theorem inside_yields {container : Json.Container} {inner : β} {body : β → Decoder α}
    {P : α → Prop} (h : Yields (body inner) P) : Yields (inside container (some inner) body) P := by
  intro s a rest hok
  simp only [inside] at hok
  split at hok
  · rename_i hbody
    cases hok
    exact h _ _ _ hbody
  · cases hok

/-- Nothing is decoded from a value of the wrong kind. -/
theorem mismatch_ne_ok (expected : String) (s : List Char) (r : α × List Char) :
    mismatch expected s ≠ .ok r := by
  intro hok
  unfold mismatch scalar at hok
  split at hok
  · cases hok
  · cases hok
  · obtain ⟨_, _, hok⟩ := exists_of_bind_eq_ok hok
    cases hok

/-- The elements of a decoded list have the property. -/
theorem list_yields {element : Decoder α} {P : α → Prop} (h : Yields element P)
    (expected : String) :
    Yields (list expected (some element)) fun values => ∀ a ∈ values, P a := by
  intro s values rest hok
  unfold list at hok
  split at hok
  · exact inside_yields (fun s => elements_yields h _ _ s) _ _ _ hok
  · exact absurd hok (mismatch_ne_ok _ _ _)

/-- The values of a decoded dictionary have the property: an entry is put among others that
have it, where its key belongs. -/
theorem dictionary_yields {kind : IdKind} {value : Decoder α} {P : α → Prop}
    (h : Yields value P) (expected : String) :
    Yields (dictionary expected kind (some value)) fun m => ∀ e ∈ m.entries, P e.2 := by
  have hentry (gathered : IdMap kind α) (name : String)
      (hgathered : ∀ e ∈ gathered.entries, P e.2) :
      Yields (entry kind value gathered name) fun m => ∀ e ∈ m.entries, P e.2 := by
    intro s m rest hok
    unfold entry at hok
    split at hok
    · cases hok
    · obtain ⟨_, _, hok⟩ := exists_of_bind_eq_ok hok
      obtain ⟨⟨a, after⟩, ha, hok⟩ := exists_of_bind_eq_ok hok
      cases hok
      intro e he
      rcases IdMap.mem_place he with rfl | he
      · exact h _ _ _ ha
      · exact hgathered e he
  have hempty : ∀ e ∈ (IdMap.empty : IdMap kind α).entries, P e.2 := by simp [IdMap.empty]
  intro s m rest hok
  unfold dictionary at hok
  split at hok
  · exact inside_yields (fun s => members_yields hentry _ _ hempty s) _ _ _ hok
  · exact absurd hok (mismatch_ne_ok _ _ _)

/-! ### Records

Members are gathered in slots as they come, and the slots are filled when the record is over.
The property is carried along in the slots (`EachSlot`) and then in the values (`Each`). -/

variable {P : (m : Member) → m.Value → Prop}

/-- Every value of a record has a property. -/
def Each (P : (m : Member) → m.Value → Prop) : (ms : List Member) → Values ms → Prop
  | [], () => True
  | m :: ms, (value, values) => P m value ∧ Each P ms values

/-- Every value that is there has a property. -/
def EachSlot (P : (m : Member) → m.Value → Prop) : (ms : List Member) → Slots ms → Prop
  | [], () => True
  | m :: ms, (slot, slots) => (∀ value, slot = some value → P m value) ∧ EachSlot P ms slots

/-- The value has a property, or is the one that the absence of the member means. -/
def OrImplied (P : (m : Member) → m.Value → Prop) (m : Member) (value : m.Value) : Prop :=
  P m value ∨ m.absence.inObject? = some value

/-- Before any member was read there is no value to speak of. -/
theorem eachSlot_empty (ms : List Member) : EachSlot P ms (.empty ms) := by
  induction ms with
  | nil => trivial
  | cons m ms ih => exact ⟨nofun, ih⟩

/-- A value that is put into its slot was decoded for that slot. -/
theorem place_eachSlot {ε τ : Type} {name : String} {duplicate : ε}
    {known : (m : Member) → Except ε (m.Value × τ)} {unknown : Except ε τ}
    (hknown : ∀ m value also, known m = .ok (value, also) → P m value) {ms : List Member}
    {slots slots' : Slots ms} {also : τ} (hslots : EachSlot P ms slots)
    (hok : Slots.place name duplicate known unknown ms slots = .ok (slots', also)) :
    EachSlot P ms slots' := by
  induction ms with
  | nil => trivial
  | cons m ms ih =>
      obtain ⟨slot, slots⟩ := slots
      simp only [Slots.place] at hok
      split at hok
      · split at hok
        · cases hok
        · obtain ⟨⟨value, _⟩, hvalue, hok⟩ := exists_of_bind_eq_ok hok
          cases hok
          refine ⟨fun found hfound => ?_, hslots.2⟩
          rw [← Option.some.inj hfound]
          exact hknown m _ _ hvalue
      · obtain ⟨⟨others, _⟩, hothers, hok⟩ := exists_of_bind_eq_ok hok
        cases hok
        exact ⟨hslots.1, ih hslots.2 hothers⟩

/-- A slot that stayed empty is filled with what the absence of its member means. -/
theorem fill_each {ms : List Member} {slots : Slots ms} {values : Values ms}
    (hslots : EachSlot P ms slots) (hok : Slots.fill ms slots = .ok values) :
    Each (OrImplied P) ms values := by
  induction ms with
  | nil => trivial
  | cons m ms ih =>
      obtain ⟨slot, slots⟩ := slots
      simp only [Slots.fill] at hok
      split at hok
      · cases hok
      · rename_i value hvalue
        obtain ⟨others, hothers, hok⟩ := exists_of_bind_eq_ok hok
        cases hok
        refine ⟨?_, ih hslots.2 hothers⟩
        cases slot with
        | none => exact .inr hvalue
        | some own =>
            obtain rfl := Option.some.inj hvalue
            exact .inl (hslots.1 _ rfl)

/-- What may be missing at the end of an array may be missing in an object. -/
theorem inObject?_of_inArray? {absence : Absence α} {value : α}
    (h : absence.inArray? = some value) : absence.inObject? = some value := by
  cases absence with
  | required | implied => cases h
  | defaulted => exact h

/-- Members behind the end of an array are absent. -/
theorem pastEnd_each {label : String} {count : Nat} {ms : List Member} {values : Values ms}
    (hok : Values.pastEnd label count ms = .ok values) : Each (OrImplied P) ms values := by
  induction ms with
  | nil => trivial
  | cons m ms ih =>
      simp only [Values.pastEnd] at hok
      split at hok
      · cases hok
      · rename_i value hvalue
        obtain ⟨others, hothers, hok⟩ := exists_of_bind_eq_ok hok
        cases hok
        exact ⟨.inr (inObject?_of_inArray? hvalue), ih hothers⟩

/-- A record that is written as an object. -/
theorem objectMembers_yields {value : (m : Member) → Decoder m.Value}
    (h : ∀ m, Yields (value m) (P m)) (ms : List Member) :
    Yields (objectMembers value ms) (Each (OrImplied P) ms) := by
  intro s values rest hok
  obtain ⟨⟨slots, after⟩, hslots, hok⟩ := exists_of_bind_eq_ok hok
  have heach : EachSlot P ms slots := by
    refine members_yields (fun gathered name hgathered => ?_) _ _ (eachSlot_empty ms) _ _ _ hslots
    intro s slots rest hok
    refine place_eachSlot (fun m x also hx => ?_) hgathered hok
    obtain ⟨_, _, hx⟩ := exists_of_bind_eq_ok hx
    exact h m _ _ _ hx
  cases hfill : Slots.fill ms slots with
  | error => simp [hfill] at hok
  | ok filled =>
      simp only [hfill] at hok
      cases hok
      exact fill_each heach hfill

/-- A record that is written as an array. -/
theorem arrayMembers_yields {value : (m : Member) → Decoder m.Value}
    (h : ∀ m, Yields (value m) (P m)) (label : String) (count : Nat) (first : Bool)
    (ms : List Member) :
    Yields (arrayMembers value label count first ms) (Each (OrImplied P) ms) := by
  induction ms generalizing first with
  | nil => exact fun _ _ _ _ => trivial
  | cons m ms ih =>
      intro s values rest hok
      simp only [arrayMembers] at hok
      split at hok
      · cases hok
      · split at hok
        · rename_i hpast
          cases hok
          exact pastEnd_each hpast
        · cases hok
      · obtain ⟨⟨x, after⟩, hx, hok⟩ := exists_of_bind_eq_ok hok
        obtain ⟨⟨others, last⟩, hothers, hok⟩ := exists_of_bind_eq_ok hok
        cases hok
        exact ⟨.inl (h m _ _ _ hx), ih false _ _ _ hothers⟩

/-- A record is made of values that were decoded or that an absence means. -/
theorem record_yields {r : Record α} {value : (m : Member) → Decoder m.Value}
    (h : ∀ m, Yields (value m) (P m)) :
    Yields (record r (some value)) fun a =>
      ∃ values, r.make values = a ∧ Each (OrImplied P) r.members values := by
  intro s a rest hok
  unfold record at hok
  split at hok
  · obtain ⟨⟨values, after⟩, hvalues, hok⟩ := exists_of_bind_eq_ok hok
    cases hok
    exact ⟨values, rfl, inside_yields (fun s => objectMembers_yields h _ s) _ _ _ hvalues⟩
  · obtain ⟨⟨values, after⟩, hvalues, hok⟩ := exists_of_bind_eq_ok hok
    cases hok
    exact ⟨values, rfl,
      inside_yields (fun s => arrayMembers_yields h _ _ _ _ s) _ _ _ hvalues⟩
  · exact absurd hok (mismatch_ne_ok _ _ _)

/-! ### Floors

A floor is a bound for values that were decoded from a shallow text. It is no bound for filters,
the only record that may hold itself, and these need none: what is absent in a filter is not
written. -/

/-- The floor of a container by the floor of what is inside; without one there is none. -/
def floorOver (floor : Nat) : Nat :=
  if floor = 0 then 0 else floor + 1

/-- How deep a record is written at least, even if the text is not as deep. -/
def RecordKind.floor : RecordKind → Nat
  | .document => 8
  | .view => 7
  | .search => 4
  | .viewState => 5
  | .titles => 2
  | .query => 2
  | .tableSettings => 2
  | .widget => 3
  | .payload => 2
  | .queryText | .filter | .searchType | .sortEntry | .indexedField | .selectedField => 0

/-- How deep a tagged record is written at most. -/
def TaggedKind.floor : TaggedKind → Nat
  | .timeRange => 1
  | .request => 4

/-- How deep a value of a shape is written at least, even if the text is not as deep. -/
def Shape.floor : Shape → Nat
  | .list element => floorOver element.floor
  | .dictionary _ value => floorOver value.floor
  | .record kind => kind.floor
  | .tagged kind => kind.floor
  | .text | .identifier _ | .natural | .instant | .choice _ => 0

/-- How deep the value is written that the absence of a member means. -/
def Member.impliedDepth (m : Member) : Nat :=
  m.absence.inObject?.elim 0 fun value => (m.slot.toJson value).depth

/-- The members of a record have lower floors, and what is not left out is written above
the floor. -/
theorem floor_members (kind : RecordKind) :
    ∀ m ∈ kind.record.members, m.slot.shape.floor ≤ kind.floor - 1 ∧
      (kind.omits = false → m.impliedDepth ≤ kind.floor - 1) := by
  cases kind <;> decide

/-- What is written is as deep as the values that were decoded, and as those that are
implied unless they are left out. -/
theorem depth_of_writes {omits : Bool} {ms : List Member} {values : Values ms}
    {entries : List (String × Tree)} {n : Nat} (hwrites : Writes omits ms values entries)
    (h : Each (OrImplied P) ms values)
    (hdecoded : ∀ m ∈ ms, ∀ value, P m value → (m.slot.toJson value).depth ≤ n)
    (himplied : omits = false → ∀ m ∈ ms, m.impliedDepth ≤ n) :
    ∀ member ∈ entries, member.2.depth ≤ n := by
  induction hwrites with
  | nil => nofun
  | @present m ms value values entries kept _ ih =>
      obtain ⟨hm, hms⟩ := List.forall_mem_cons.mp hdecoded
      refine List.forall_mem_cons.mpr ⟨?_, ih h.2 hms fun ho m' hm' =>
        himplied ho m' (List.mem_cons_of_mem _ hm')⟩
      rcases h.1 with hvalue | hvalue
      · exact hm value hvalue
      · have homits : omits = false := by
          cases omits with
          | false => rfl
          | true => exact absurd hvalue (kept rfl)
        have hle := himplied homits m List.mem_cons_self
        rwa [Member.impliedDepth, hvalue] at hle
  | absent _ _ _ ih =>
      obtain ⟨-, hms⟩ := List.forall_mem_cons.mp hdecoded
      exact ih h.2 hms fun ho m' hm' => himplied ho m' (List.mem_cons_of_mem _ hm')

/-! ### Tagged records

A tagged record is written to a fixed depth, whatever it was read from. So the bound needs no
decoder, and the encoders are looked into once, here. -/

/-- A list is one deeper than its elements. -/
theorem depth_listTree {encode : α → Tree} {n : Nat} (h : ∀ value, (encode value).depth ≤ n)
    (values : List α) : (listTree encode values).depth ≤ n + 1 := by
  refine Tree.depth_array_le.mpr fun tree htree => ?_
  obtain ⟨value, -, rfl⟩ := List.mem_map.mp htree
  exact h value

/-- A member that may be left out is as deep as its value. -/
theorem depth_of_mem_ifPresent {name : String} {encode : α → Tree} {n : Nat}
    (h : ∀ value, (encode value).depth ≤ n) {value : Option α} :
    ∀ member ∈ ifPresent name encode value, member.2.depth ≤ n := by
  cases value with
  | none => nofun
  | some value => exact List.forall_mem_cons.mpr ⟨h value, nofun⟩

/-- A time range has no containers inside. -/
theorem depth_timeRange (value : TimeRange) : value.toJson.depth ≤ 1 := by
  cases value <;> exact Nat.le_refl 1

/-- A payload has lists of objects inside. -/
theorem depth_payload (value : Payload) : value.toJson.depth ≤ 3 := by
  have hsort (entry : SortEntry) : entry.toJson.depth ≤ 1 := Nat.le_refl 1
  have htext (text : String) : (textTree text).depth ≤ 0 := Nat.le_refl 0
  have hquery (text : QueryText) : text.toJson.depth ≤ 2 := Nat.le_succ 1
  have hstreams (streams : List StreamId) : (listTree Identifier.toJson streams).depth ≤ 2 :=
    Nat.le_succ_of_le (depth_listTree (fun _ => Nat.le_refl 0) streams)
  refine Tree.depth_object_le.mpr ?_
  simp only [List.forall_mem_append, List.forall_mem_cons]
  exact ⟨⟨⟨⟨Nat.le_succ_of_le (depth_listTree htext _), depth_listTree hsort _, nofun⟩,
    depth_of_mem_ifPresent fun value => Nat.le_succ_of_le (depth_timeRange value)⟩,
    depth_of_mem_ifPresent hquery⟩, depth_of_mem_ifPresent hstreams⟩

/-- A tagged record is not nested without a limit. -/
theorem depth_tagged (kind : TaggedKind) (value : kind.Value) :
    (kind.toJson value).depth ≤ kind.floor := by
  cases kind with
  | timeRange => exact depth_timeRange value
  | request =>
      cases value with
      | searchType search target payload | allMessages payload =>
          refine Tree.depth_object_le.mpr ?_
          simp [Tree.depth, Identifier.toJson, depth_payload]

/-! ### Shapes -/

/-- A container that may not be opened is not decoded. -/
theorem decode_zero_ne_ok {s rest : List Char} :
    (∀ element value, decode 0 (.list element) s ≠ .ok (value, rest)) ∧
      (∀ kind element value, decode 0 (.dictionary kind element) s ≠ .ok (value, rest)) ∧
      ∀ kind value, decode 0 (.record kind) s ≠ .ok (value, rest) := by
  refine ⟨fun element value hok => ?_, fun kind element value hok => ?_, fun kind value hok => ?_⟩
  · unfold decode list at hok
    split at hok
    · cases hok
    · exact mismatch_ne_ok _ _ _ hok
  · unfold decode dictionary at hok
    split at hok
    · cases hok
    · exact mismatch_ne_ok _ _ _ hok
  · unfold decode record at hok
    split at hok
    · cases hok
    · cases hok
    · exact mismatch_ne_ok _ _ _ hok

/-- What stands in a slot is a value or `null`. -/
theorem slot_depth {decoder : (shape : Shape) → Decoder shape.Value} {n : Shape → Nat}
    (h : ∀ shape, Yields (decoder shape) fun value => (shape.toJson value).depth ≤ n shape)
    (slot : Slot) :
    Yields (Wire.slot decoder slot) fun value => (slot.toJson value).depth ≤ n slot.shape := by
  intro s value rest hok
  cases slot with
  | plain shape => exact h shape s value rest hok
  | nullable shape =>
      simp only [Wire.slot] at hok
      split at hok
      · obtain ⟨_, _, hok⟩ := exists_of_bind_eq_ok hok
        cases hok
        exact Nat.zero_le _
      · obtain ⟨⟨value, after⟩, hvalue, hok⟩ := exists_of_bind_eq_ok hok
        cases hok
        exact h shape _ _ _ hvalue

/-- A record is one deeper than what its members are, whose floors are lower. -/
theorem depth_make {depth : Nat} {kind : RecordKind} {values : Values kind.record.members}
    (h : Each (OrImplied fun m value =>
      (m.slot.toJson value).depth ≤ max depth m.slot.shape.floor) kind.record.members values) :
    (kind.toJson (kind.record.make values)).depth ≤ max (depth + 1) kind.floor := by
  obtain ⟨entries, hobject, hwrites⟩ := kind.writes_make values
  have hmembers : ∀ member ∈ entries, member.2.depth ≤ max depth (kind.floor - 1) := by
    refine depth_of_writes hwrites h (fun m hm value hvalue => ?_) fun homits m hm => ?_
    · -- a value that was decoded is above the floor of its member only if the text is as deep
      have hfloor := (floor_members kind m hm).1
      omega
    · -- a value that an absence means is at most as deep as the floor
      have himplied := (floor_members kind m hm).2 homits
      omega
  have hrecord : (kind.toJson (kind.record.make values)).depth ≤
      max depth (kind.floor - 1) + 1 := by
    rw [hobject]
    exact Tree.depth_object_le.mpr hmembers
  omega

/-- A value is written no deeper than its text, or than its floor. -/
theorem decode_depth {depth : Nat} {shape : Shape} {s rest : List Char} {value : shape.Value}
    (hok : decode depth shape s = .ok (value, rest)) :
    (shape.toJson value).depth ≤ max depth shape.floor := by
  induction depth generalizing shape s rest with
  | zero =>
      -- no container was opened: what was decoded is a scalar, or its bound is the floor
      obtain ⟨hlist, hdictionary, hrecord⟩ := @decode_zero_ne_ok s rest
      cases shape with
      | text | identifier | natural | instant => exact Nat.zero_le _
      | choice kind => cases kind <;> exact Nat.zero_le _
      | list element => exact absurd hok (hlist element value)
      | dictionary kind element => exact absurd hok (hdictionary kind element value)
      | record kind => exact absurd hok (hrecord kind value)
      | tagged kind => exact Nat.le_trans (depth_tagged kind value) (Nat.le_max_right _ _)
  | succ depth ih =>
      -- a container is one deeper than what is inside, and so is its floor
      have hover {n floor : Nat} (h : n ≤ max depth floor) :
          n + 1 ≤ max (depth + 1) (floorOver floor) := by
        unfold floorOver
        split <;> omega
      cases shape with
      | text | identifier | natural | instant => exact Nat.zero_le _
      | choice kind => cases kind <;> exact Nat.zero_le _
      | list element =>
          have hvalues := list_yields (fun s value rest => ih) _ s value rest hok
          refine hover (Tree.elementsDepth_le.mpr fun tree htree => ?_)
          obtain ⟨value', hvalue', rfl⟩ := List.mem_map.mp htree
          exact hvalues value' hvalue'
      | dictionary kind element =>
          have hentries := dictionary_yields (fun s value rest => ih) _ s value rest hok
          refine hover (Tree.membersDepth_le.mpr fun member hmember => ?_)
          obtain ⟨entry, hentry, rfl⟩ := List.mem_map.mp hmember
          exact hentries entry hentry
      | record kind =>
          have hslot (m : Member) : Yields (slot (fun shape => decode depth shape) m.slot)
              fun value => (m.slot.toJson value).depth ≤ max depth m.slot.shape.floor :=
            slot_depth (fun shape s value rest => ih) m.slot
          obtain ⟨values, rfl, heach⟩ := record_yields hslot s value rest hok
          exact depth_make heach
      | tagged kind => exact Nat.le_trans (depth_tagged kind value) (Nat.le_max_right _ _)

end MessageExport.Wire
