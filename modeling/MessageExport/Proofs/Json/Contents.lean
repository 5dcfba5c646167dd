import Mathlib.Data.List.Forall2
import MessageExport.Proofs.Json.Trees
/-!
# MessageExport.Proofs.Json.Contents

**Trees and contents.** A tree is a content with nothing open, so the trees that fit into
so many containers are exactly the contents that are read as trees there.

## Shape of the proofs

A content may have numbers and strings that cannot be represented, and names like that; a tree
has none. `Tree.content` forgets that nothing is open. The two directions are `tree?_content`
and `content_of_tree?`, both by induction on the number of containers, with the elements of a
container as a list that is gone through by `mapM`.
-/

namespace MessageExport

/-- Going through a list succeeds if every step does. -/
theorem mapM_eq_some_iff {α β : Type} {f : α → Option β} {as : List α} {bs : List β} :
    as.mapM f = some bs ↔ List.Forall₂ (fun a b => f a = some b) as bs := by
  induction as generalizing bs with
  | nil => cases bs <;> simp
  | cons a as ih =>
      rw [List.mapM_cons]
      cases bs with
      | nil => simp [Option.bind_eq_some_iff]
      | cons b bs => simp [Option.bind_eq_some_iff, ← ih]

/-- Going through a list succeeds if and only if every step does. -/
theorem isSome_mapM {α β : Type} {f : α → Option β} {as : List α} :
    (as.mapM f).isSome = true ↔ ∀ a ∈ as, (f a).isSome = true := by
  induction as with
  | nil => simp
  | cons a as ih =>
      rw [List.forall_mem_cons, ← ih, List.mapM_cons]
      cases f a with
      | none => simp
      | some b => cases as.mapM f <;> simp

/-- If every step can be taken back, so can all of them. -/
theorem map_eq_of_mapM_eq_some {α β : Type} {f : α → Option β} {g : β → α} {p : β → Prop}
    (hf : ∀ a b, f a = some b → g b = a ∧ p b) {as : List α} {bs : List β}
    (h : as.mapM f = some bs) : bs.map g = as ∧ ∀ b ∈ bs, p b := by
  have hall := mapM_eq_some_iff.mp h
  clear h
  induction hall with
  | nil => simp
  | cons hhead _ ih =>
      obtain ⟨hback, hp⟩ := hf _ _ hhead
      rw [List.map_cons, hback, ih.1, List.forall_mem_cons]
      exact ⟨rfl, hp, ih.2⟩

namespace Json

/-- No object repeats the name of a member. -/
inductive Content.Distinct : Content → Prop where
  | null : Distinct .null
  | boolean (value : Bool) : Distinct (.boolean value)
  | number (value : Option Number) : Distinct (.number value)
  | text (value : Option String) : Distinct (.text value)
  | array {elements : List Content} (inner : ∀ e ∈ elements, Distinct e) :
      Distinct (.array elements)
  | object {members : List (Option String × Content)}
      (names : (members.filterMap Prod.fst).Nodup) (inner : ∀ member ∈ members, Distinct member.2) :
      Distinct (.object members)

/-! ### Distinct names

What `Distinct` says of a container, for what is inside it. -/

namespace Content.Distinct

/-- No object among the elements of an array repeats a name. -/
theorem element {elements : List Content} (h : Distinct (.array elements)) :
    ∀ e ∈ elements, Distinct e := by
  cases h with
  | array inner => exact inner

/-- The names of an object are distinct. -/
theorem names {members : List (Option String × Content)} (h : Distinct (.object members)) :
    (members.filterMap Prod.fst).Nodup := by
  cases h with
  | object names _ => exact names

/-- No object among the members of an object repeats a name. -/
theorem member {members : List (Option String × Content)} (h : Distinct (.object members)) :
    ∀ member ∈ members, Distinct member.2 := by
  cases h with
  | object _ inner => exact inner

end Content.Distinct

@[simp] theorem Content.distinct_array_iff {elements : List Content} :
    Content.Distinct (.array elements) ↔ ∀ e ∈ elements, e.Distinct :=
  ⟨Content.Distinct.element, .array⟩

@[simp] theorem Content.distinct_object_iff {members : List (Option String × Content)} :
    Content.Distinct (.object members) ↔
      (members.filterMap Prod.fst).Nodup ∧ ∀ member ∈ members, member.2.Distinct :=
  ⟨fun h => ⟨h.names, h.member⟩, fun h => .object h.1 h.2⟩

/-! ### Trees as contents

The elements of a tree are lists inside the type, so the functions on trees are mutual. The
lemmas below turn them into maps and into bounds for all elements, and are used instead. -/

namespace Tree

mutual

/-- What a tree says. -/
def content : Tree → Content
  | null => .null
  | boolean value => .boolean value
  | number value => .number (some value)
  | text value => .text (some value)
  | array elements => .array (contents elements)
  | object members => .object (memberContents members)

/-- What the elements of an array say. -/
def contents : List Tree → List Content
  | [] => []
  | tree :: more => tree.content :: contents more

/-- What the members of an object say. -/
def memberContents : List (String × Tree) → List (Option String × Content)
  | [] => []
  | (name, tree) :: more => (some name, tree.content) :: memberContents more

end

mutual

/-- How deep containers are nested in a tree. -/
def depth : Tree → Nat
  | null => 0
  | boolean _ => 0
  | number _ => 0
  | text _ => 0
  | array elements => elementsDepth elements + 1
  | object members => membersDepth members + 1

/-- How deep containers are nested in the elements of an array. -/
def elementsDepth : List Tree → Nat
  | [] => 0
  | tree :: more => max tree.depth (elementsDepth more)

/-- How deep containers are nested in the members of an object. -/
def membersDepth : List (String × Tree) → Nat
  | [] => 0
  | (_, tree) :: more => max tree.depth (membersDepth more)

end

/-- The elements of an array say what they say one by one. -/
theorem contents_eq_map (elements : List Tree) : contents elements = elements.map content := by
  induction elements with
  | nil => rfl
  | cons tree more ih => rw [contents, ih, List.map_cons]

/-- The members of an object say what they say one by one. -/
theorem memberContents_eq_map (members : List (String × Tree)) :
    memberContents members = members.map fun member => (some member.1, member.2.content) := by
  induction members with
  | nil => rfl
  | cons member more ih => rw [memberContents, ih, List.map_cons]

/-- Elements are at most so deep if each of them is. -/
theorem elementsDepth_le {elements : List Tree} {n : Nat} :
    elementsDepth elements ≤ n ↔ ∀ tree ∈ elements, tree.depth ≤ n := by
  induction elements with
  | nil => simp [elementsDepth]
  | cons tree more ih => rw [elementsDepth, Nat.max_le, ih, List.forall_mem_cons]

/-- Members are at most so deep if each of them is. -/
theorem membersDepth_le {members : List (String × Tree)} {n : Nat} :
    membersDepth members ≤ n ↔ ∀ member ∈ members, member.2.depth ≤ n := by
  induction members with
  | nil => simp [membersDepth]
  | cons member more ih => rw [membersDepth, Nat.max_le, ih, List.forall_mem_cons]

/-- An array is one deeper than its elements. -/
theorem depth_array_le {elements : List Tree} {n : Nat} :
    (Tree.array elements).depth ≤ n + 1 ↔ ∀ tree ∈ elements, tree.depth ≤ n := by
  rw [depth, Nat.succ_le_succ_iff, elementsDepth_le]

/-- An object is one deeper than its members. -/
theorem depth_object_le {members : List (String × Tree)} {n : Nat} :
    (Tree.object members).depth ≤ n + 1 ↔ ∀ member ∈ members, member.2.depth ≤ n := by
  rw [depth, Nat.succ_le_succ_iff, membersDepth_le]

/-- What is inside an array is less deep. -/
theorem depth_lt_array {elements : List Tree} {tree : Tree} (h : tree ∈ elements) :
    tree.depth < (Tree.array elements).depth :=
  Nat.lt_succ_of_le (depth_array_le.mp (Nat.le_refl _) tree h)

/-- What is inside an object is less deep. -/
theorem depth_lt_object {members : List (String × Tree)} {member : String × Tree}
    (h : member ∈ members) : member.2.depth < (Tree.object members).depth :=
  Nat.lt_succ_of_le (depth_object_le.mp (Nat.le_refl _) member h)

end Tree

/-! ### Contents as trees

A content is read as a tree as far as the containers that are left allow, and only if nothing in
it is open. -/

/-- An array is a tree if its elements are trees with one container less. -/
theorem isSome_tree?_array {elements : List Content} {n : Nat} :
    ((Content.array elements).tree? (n + 1)).isSome = true ↔
      ∀ e ∈ elements, (e.tree? n).isSome = true := by
  rw [Content.tree?, Option.isSome_map, isSome_mapM]

/-- An object is a tree if its members are, and all of them have names. -/
theorem isSome_tree?_object {members : List (Option String × Content)} {n : Nat} :
    ((Content.object members).tree? (n + 1)).isSome = true ↔
      ∀ member ∈ members, member.1.isSome = true ∧ (member.2.tree? n).isSome = true := by
  rw [Content.tree?, Option.isSome_map, isSome_mapM]
  refine forall₂_congr fun member _ => ?_
  cases hname : member.1 <;> simp [Content.memberOf, hname]

/-- What a tree says is read as that tree if it is not nested too deeply. -/
theorem tree?_content {tree : Tree} {n : Nat} (h : tree.depth ≤ n) :
    tree.content.tree? n = some tree := by
  induction n generalizing tree with
  | zero =>
      cases tree with
      | array elements => simp [Tree.depth] at h
      | object members => simp [Tree.depth] at h
      | null | boolean | number | text => rfl
  | succ n ih =>
      cases tree with
      | null | boolean | number | text => rfl
      | array elements =>
          have hle := Tree.depth_array_le.mp h
          have helements : elements.mapM (Content.tree? n ∘ Tree.content) = some elements :=
            mapM_eq_some_iff.mpr (List.forall₂_same.mpr fun tree htree => ih (hle tree htree))
          rw [Tree.content, Tree.contents_eq_map, Content.tree?, List.mapM_map, helements]
          rfl
      | object members =>
          have hle := Tree.depth_object_le.mp h
          rw [Tree.content, Tree.memberContents_eq_map, Content.tree?, List.mapM_map,
            mapM_eq_some_iff.mpr (List.forall₂_same.mpr fun member hmember => by
              simp [Content.memberOf, ih (hle member hmember)])]
          rfl

/-- A content that is read as a tree is what that tree says. -/
theorem content_of_tree? {c : Content} {n : Nat} {tree : Tree} (h : c.tree? n = some tree) :
    tree.content = c ∧ tree.depth ≤ n := by
  induction n generalizing c tree with
  | zero =>
      cases c with
      | null | boolean =>
          cases h
          exact ⟨rfl, Nat.le_refl _⟩
      | number value | text value =>
          obtain ⟨x, rfl, rfl⟩ := Option.map_eq_some_iff.mp h
          exact ⟨rfl, Nat.le_refl _⟩
      | array | object => cases h
  | succ n ih =>
      cases c with
      | null | boolean =>
          cases h
          exact ⟨rfl, Nat.zero_le _⟩
      | number value | text value =>
          obtain ⟨x, rfl, rfl⟩ := Option.map_eq_some_iff.mp h
          exact ⟨rfl, Nat.zero_le _⟩
      | array elements =>
          obtain ⟨trees, htrees, rfl⟩ := Option.map_eq_some_iff.mp h
          obtain ⟨hback, hdepth⟩ := map_eq_of_mapM_eq_some (fun _ _ h => ih h) htrees
          rw [Tree.content, Tree.contents_eq_map, hback, Tree.depth_array_le]
          exact ⟨rfl, hdepth⟩
      | object members =>
          obtain ⟨trees, htrees, rfl⟩ := Option.map_eq_some_iff.mp h
          have hmember (member : Option String × Content) (tree : String × Tree)
              (h : Content.memberOf (Content.tree? n) member = some tree) :
              (some tree.1, tree.2.content) = member ∧ tree.2.depth ≤ n := by
            obtain ⟨name, c⟩ := member
            obtain ⟨name, rfl, hvalue⟩ := Option.bind_eq_some_iff.mp h
            obtain ⟨value, htree, rfl⟩ := Option.map_eq_some_iff.mp hvalue
            obtain ⟨hback, hdepth⟩ := ih htree
            exact ⟨congrArg (Prod.mk _) hback, hdepth⟩
          obtain ⟨hback, hdepth⟩ := map_eq_of_mapM_eq_some hmember htrees
          rw [Tree.content, Tree.memberContents_eq_map, hback, Tree.depth_object_le]
          exact ⟨rfl, hdepth⟩

end Json

end MessageExport
