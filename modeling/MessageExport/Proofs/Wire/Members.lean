import Mathlib.Data.List.Perm.Basic
import MessageExport.Proofs.IdMap
import MessageExport.Proofs.Wire.Strictness
/-!
# MessageExport.Proofs.Wire.Members

How reading depends on the **members** of an object.

What is read does not depend on the order of the members, and for a record not on members
that it does not declare. If there are just the declared members in their order, a record
is read from their values as well.
-/

namespace MessageExport.Wire

open Json (Content)

variable {α : Type}

/-! ### Members in another order

A record looks for its members by their names, so it does not see their order. For a dictionary
the order would decide which of two equal keys is kept, which is why it has to be read strictly
here. -/

/-- One member is in order whatever it is, and more than one are refused. -/
theorem onlyIn_perm (value : Content → Option α) (absent : Option α)
    {members members' : List (Option String × Content)} (h : members.Perm members') :
    onlyIn value absent members = onlyIn value absent members' := by
  match members, h with
  | [], h => rw [List.nil_perm.mp h]
  | [member], h => rw [List.singleton_perm.mp h]
  | _ :: _ :: _, h =>
      obtain ⟨a, b, more, rfl⟩ : ∃ a b more, members' = a :: b :: more := by
        have hlength := h.length_eq
        match members' with
        | a :: b :: more => exact ⟨a, b, more, rfl⟩
        | [] | [_] => simp at hlength
      rfl

/-- A record is read from its members in any order. -/
theorem membersIn_perm (passes : Content → Bool)
    (value : (m : Member) → Content → Option m.Value) (ms : List Member)
    {members members' : List (Option String × Content)} (h : members.Perm members') :
    membersIn passes value ms members = membersIn passes value ms members' := by
  induction ms generalizing members members' with
  | nil => simp only [membersIn, h.all_eq]
  | cons m ms ih =>
      have hown := onlyIn_perm (value m) m.absence.inObject? (h.filter fun member =>
        member.1 == some m.name)
      have hothers := ih (h.filter fun member => member.1 != some m.name)
      simp only [membersIn, withName, withoutName, hown, hothers]

/-- A dictionary without equal keys is read from its members in any order. -/
theorem dictionaryIn_perm {m : Manner} (hm : m.strict = true) (kind : IdKind)
    (value : Content → Option α) {members members' : List (Option String × Content)}
    (h : members.Perm members') {v : IdMap kind α}
    (hv : dictionaryIn m kind value members = some v) :
    dictionaryIn m kind value members' = some v := by
  obtain ⟨entries, hentries, hnodup, rfl⟩ := dictionaryIn_eq_some.mp hv
  obtain ⟨entries', hentries', hperm⟩ :=
    List.perm_comp_forall₂ h.symm (mapM_eq_some_iff.mp hentries)
  have hnodup' : (entries'.map Prod.fst).Nodup :=
    (hperm.map Prod.fst).nodup_iff.mpr (hnodup hm)
  exact dictionaryIn_eq_some.mpr ⟨entries', mapM_eq_some_iff.mpr hentries', fun _ => hnodup',
    IdMap.ofList_perm hperm hnodup'⟩

/-- A choice that is written as an object has one member. -/
theorem choiceIn_perm (m : Manner) (names : List (String × α)) (depth : Nat)
    {members members' : List (Option String × Content)} (h : members.Perm members') {v : α}
    (hv : choiceIn m names depth (.object members) = some v) :
    choiceIn m names depth (.object members') = some v := by
  match members, h with
  | [], h => rwa [List.nil_perm.mp h]
  | [member], h => rwa [← List.singleton_perm.mp h]
  | a :: b :: more, h => simp [choiceIn] at hv

/-! ### Undeclared members

Whether a member is read depends on its name only. Taking a member of another name out from the
middle, or putting it there, leaves what is found under a name as it is. -/

theorem withName_middle_of_ne {name : String} {member : Option String × Content}
    (h : member.1 ≠ some name) (before after : List (Option String × Content)) :
    withName name (before ++ member :: after) = withName name before ++ withName name after := by
  rw [withName, List.filter_append, ← withName, ← withName, withName_cons_of_ne h]

theorem withoutName_middle_of_ne {name : String} {member : Option String × Content}
    (h : member.1 ≠ some name) (before after : List (Option String × Content)) :
    withoutName name (before ++ member :: after) =
      withoutName name before ++ member :: withoutName name after := by
  rw [withoutName, List.filter_append, ← withoutName, ← withoutName, withoutName_cons_of_ne h]

theorem mem_withName_middle {name : String} {c : Content}
    (before after : List (Option String × Content)) :
    (some name, c) ∈ withName name (before ++ (some name, c) :: after) :=
  List.mem_filter.mpr ⟨List.mem_append_right before List.mem_cons_self, by simp⟩

/-- What is read under a name is read from a member of that name. -/
theorem exists_of_onlyIn {value : Content → Option α}
    {members : List (Option String × Content)} {v : α}
    (h : onlyIn value none members = some v) : ∃ member ∈ members, value member.2 = some v := by
  match members with
  | [member] => exact ⟨member, List.mem_cons_self, h⟩
  | [] | _ :: _ :: _ => cases h

/-- If something is read under a name, then from any member there is of it. -/
theorem value_of_onlyIn_of_mem {value : Content → Option α} {absent : Option α}
    {members : List (Option String × Content)} {member : Option String × Content}
    (hmember : member ∈ members) {v : α} (h : onlyIn value absent members = some v) :
    value member.2 = some v := by
  match members with
  | [other] =>
      obtain rfl := List.mem_singleton.mp hmember
      exact h
  | [] | _ :: _ :: _ => cases hmember <;> cases h

/-- A member that is not declared is let pass. -/
theorem membersIn_extra {passes : Content → Bool}
    (value : (m : Member) → Content → Option m.Value) {ms : List Member} {name : String}
    {c : Content} (hname : name ∉ ms.map Member.name) (hc : passes c = true)
    (members : List (Option String × Content)) :
    membersIn passes value ms ((some name, c) :: members) = membersIn passes value ms members := by
  induction ms generalizing members with
  | nil =>
      rw [membersIn, membersIn, List.all_cons, hc]
      rfl
  | cons m ms ih =>
      rw [List.map_cons, List.mem_cons, not_or] at hname
      have hne : some name ≠ some m.name := fun h => hname.1 (Option.some.inj h)
      rw [membersIn, membersIn, withName_cons_of_ne hne, withoutName_cons_of_ne hne, ih hname.2]

/-! ### Declared members in their order

An array has no names, and its elements are read in the order in which the members are declared.
Where the members come in just that order, each is found first under its name, and not again. -/

/-- A name that is read once is not there again. -/
theorem eq_of_onlyIn_cons {value : Content → Option α} {absent : Option α} {name : String}
    {c : Content} {members : List (Option String × Content)} {v : α}
    (h : onlyIn value absent (withName name ((some name, c) :: members)) = some v) :
    value c = some v ∧ withoutName name ((some name, c) :: members) = members := by
  rw [withName_cons_self] at h
  cases hmore : withName name members with
  | nil =>
      rw [hmore] at h
      exact ⟨h, by rw [withoutName_cons_self, withoutName_eq_self hmore]⟩
  | cons other more =>
      rw [hmore] at h
      cases h

/-- The members of a record in their order are read from an array as from an object. -/
theorem elementsIn_of_membersIn {passes : Content → Bool}
    {value : (m : Member) → Content → Option m.Value} {ms : List Member}
    {members : List (Option String × Content)} {values : Values ms}
    (hnames : members.map Prod.fst = ms.map fun m => some m.name)
    (h : membersIn passes value ms members = some values) :
    elementsIn value ms (members.map Prod.snd) = some values := by
  induction ms generalizing members with
  | nil =>
      obtain rfl := List.map_eq_nil_iff.mp hnames
      rfl
  | cons m ms ih =>
      match members with
      | [] => cases hnames
      | (name, c) :: members =>
          obtain ⟨rfl, hmore⟩ := List.cons.inj hnames
          obtain ⟨hown, hothers⟩ := membersIn_cons.mp h
          obtain ⟨hc, hrest⟩ := eq_of_onlyIn_cons hown
          rw [hrest] at hothers
          exact elementsIn_cons.mpr ⟨hc, ih hmore hothers⟩

end MessageExport.Wire
