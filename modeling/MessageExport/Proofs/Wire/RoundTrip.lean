import MessageExport.Export.Start
import MessageExport.Proofs.Wire.Depth
import MessageExport.Proofs.Wire.Rewriting
/-!
# MessageExport.Proofs.Wire.RoundTrip

**The wire round trip**: what is written for a decoded value decodes as that value, with
the members of its objects in any order.

What is written is read back if it is not too deep (`read_toJson`), and it is not, since the
value was decoded (`decode_depth`). The order of members is a matter of rewriting
(`Rewrites.permute`), which needs no induction but the one over the steps: one step on a tree is
one rewriting of its content.
-/

namespace MessageExport

namespace Json

/-- The members of one object of a tree change places. -/
inductive Tree.Reorders : Tree → Tree → Prop where
  | object {members members' : List (String × Tree)} (h : members.Perm members') :
      Reorders (.object members) (.object members')
  | element (before after : List Tree) {tree tree' : Tree} (h : Reorders tree tree') :
      Reorders (.array (before ++ tree :: after)) (.array (before ++ tree' :: after))
  | member (before after : List (String × Tree)) {name : String} {tree tree' : Tree}
      (h : Reorders tree tree') :
      Reorders (.object (before ++ (name, tree) :: after))
        (.object (before ++ (name, tree') :: after))

/-- Natural numbers stay natural in another order. -/
theorem Tree.Reorders.natural {tree tree' : Tree} (h : Reorders tree tree')
    (hnatural : tree.Natural) : tree'.Natural := by
  induction h with
  | object hperm =>
      cases hnatural with
      | object inner => exact .object fun member hmember => inner member (hperm.mem_iff.mpr hmember)
  | element before after _ ih =>
      cases hnatural with
      | array inner =>
          refine .array ?_
          rw [List.forall_mem_append, List.forall_mem_cons] at inner ⊢
          exact ⟨inner.1, ih inner.2.1, inner.2.2⟩
  | member before after _ ih =>
      cases hnatural with
      | object inner =>
          refine .object ?_
          rw [List.forall_mem_append, List.forall_mem_cons] at inner ⊢
          exact ⟨inner.1, ih inner.2.1, inner.2.2⟩

end Json

namespace Wire

open Json (Tree)

/-- What a reordered tree says is rewritten, wherever it stands. -/
theorem rewrites_of_reorders {tree tree' : Tree} (h : tree.Reorders tree') (place : Place) :
    Rewrites place tree.content tree'.content := by
  induction h generalizing place with
  | object hperm =>
      simp only [Tree.content, Tree.memberContents_eq_map]
      exact .permute place (hperm.map _)
  | element before after _ ih =>
      simp only [Tree.content, Tree.contents_eq_map, List.map_append, List.map_cons]
      exact .element _ _ (ih _)
  | member before after _ ih =>
      simp only [Tree.content, Tree.memberContents_eq_map, List.map_append, List.map_cons]
      exact .member _ _ (ih _)

/-- A value that is written not too deep is decoded from its text in any layout, with
blanks after it as well. -/
theorem decodeText_render {layout : Json.Layout} (blanks : layout.Blanks) {shape : Shape}
    {value : shape.Value} (hdepth : (shape.toJson value).depth ≤ Json.maxDepth)
    (after : List Json.Blank) :
    decodeText shape
      ((shape.toJson value).render layout ++ String.ofList (Json.blanksText after)).toList =
        .ok value := by
  obtain ⟨s, htext, hcontent⟩ :=
    Json.exists_source_render blanks (natural_toJson shape value) ⟨[], after⟩
  have htext' : s.text =
      ((shape.toJson value).render layout ++ String.ofList (Json.blanksText after)).toList := by
    rw [htext, String.toList_append, String.toList_ofList, Json.blanksText_nil, List.nil_append]
  rw [← htext', decodeText_eq_ok_iff, hcontent]
  exact read_toJson hdepth

/-- A value that is written not too deep is decoded from its text, in whatever order the
members of objects are written. -/
theorem decodeText_of_reorders {shape : Shape} {value : shape.Value}
    (hdepth : (shape.toJson value).depth ≤ Json.maxDepth) {tree : Tree}
    (h : Relation.ReflTransGen Tree.Reorders (shape.toJson value) tree) :
    decodeText shape tree.compact.toList = .ok value := by
  -- a strict reading is kept by every change of the order
  have htree : tree.Natural ∧ read Json.maxDepth ⟨false, true⟩ shape tree.content = some value := by
    induction h with
    | refl => exact ⟨natural_toJson shape value, read_toJson hdepth⟩
    | tail _ hstep ih =>
        refine ⟨hstep.natural ih.1, ?_⟩
        exact (rewrites_of_reorders hstep (some shape)).keeps.read shape rfl _ _ rfl _ ih.2
  obtain ⟨s, htext, hcontent⟩ := Json.exists_source_compact htree.1
  have hback : Carries (read Json.maxDepth ⟨false, true⟩ shape)
      (read Json.maxDepth .streamed shape) tree.content tree.content :=
    read_strict_carries nofun
  rw [← htext, decodeText_eq_ok_iff, hcontent]
  exact hback value htree.2

/-- The types of the wire format. -/
inductive WireType where
  | choice (kind : ChoiceKind)
  | identifier (kind : IdKind)
  | record (kind : RecordKind)
  | tagged (kind : TaggedKind)

/-- What the values of a type look like. -/
def WireType.shape : WireType → Shape
  | .choice kind => .choice kind
  | .identifier kind => .identifier kind
  | .record kind => .record kind
  | .tagged kind => .tagged kind

/-- No floor is beyond the limit of the decoder. -/
theorem WireType.floor_le (type : WireType) : type.shape.floor ≤ Json.maxDepth := by
  cases type with
  | choice | identifier => exact Nat.zero_le _
  | record kind => cases kind <;> decide
  | tagged kind => cases kind <;> decide

/-- What was decoded as a type is written not too deep. -/
theorem depth_of_decodeText {type : WireType} {text : List Char} {value : type.shape.Value}
    (hok : decodeText type.shape text = .ok value) :
    (type.shape.toJson value).depth ≤ Json.maxDepth := by
  obtain ⟨⟨value', rest⟩, hvalue, hok⟩ := exists_of_bind_eq_ok hok
  have hdepth := decode_depth hvalue
  rw [Nat.max_eq_left type.floor_le] at hdepth
  dsimp only at hok
  split at hok
  · cases hok
    exact hdepth
  · cases hok

/-- **The round trip**: a decoded value of any type is decoded again from the text that is
written for it, in whatever order the members of objects are written, and so is every
request that an export of a decoded view hands out. -/
theorem decodeText_compact :
    (∀ (type : WireType) (text : List Char) (value : type.shape.Value),
      decodeText type.shape text = .ok value → ∀ tree : Tree,
        Relation.ReflTransGen Tree.Reorders (type.shape.toJson value) tree →
          decodeText type.shape tree.compact.toList = .ok value) ∧
      ∀ (text : List Char) (view : View), decodeText (.record .view) text = .ok view →
        ∀ (table : Option Widget) (fields : List SelectedField) (sort : List SortEntry)
          (started : Started), view.startExport table fields sort = .ok started →
            ∀ tree : Tree, Relation.ReflTransGen Tree.Reorders started.request.toJson tree →
              decodeText (.tagged .request) tree.compact.toList = .ok started.request := by
  refine ⟨fun type text value hok tree htree => ?_, ?_⟩
  · exact decodeText_of_reorders (depth_of_decodeText hok) htree
  · intro text view _ table fields sort started _ tree htree
    -- no request is nested deeper than the floor, whatever its parts
    have hdepth : started.request.toJson.depth ≤ Json.maxDepth :=
      Nat.le_trans (depth_tagged .request started.request) (by decide)
    exact @decodeText_of_reorders (.tagged .request) started.request hdepth tree htree

theorem decodeText_compact_twoTitles :
    let titles : Titles := ⟨.ofList [(⟨"a", by decide⟩, "x"), (⟨"b", by decide⟩, "y")]⟩
    let query : Query := { id := ⟨"q", by decide⟩, timeRange := .relative 300 }
    let view : View :=
      { id := ⟨"v", by decide⟩, kind := .search,
        search := { id := ⟨"s", by decide⟩, queries := [query] }, states := [{ titles }] }
    ∃ (tree : Tree) (started : Started),
      decodeText (.record .titles) titles.toJson.compact.toList = .ok titles ∧
      Relation.ReflTransGen Tree.Reorders titles.toJson tree ∧
      tree.compact = "\x7b\"widget\":\x7b\"b\":\"y\",\"a\":\"x\"\x7d\x7d" ∧
      decodeText (.record .titles) tree.compact.toList = .ok titles ∧
      decodeText (.record .view) view.toJson.compact.toList = .ok view ∧
      view.startExport none [⟨"message"⟩] [] = .ok started ∧
      decodeText (.tagged .request) started.request.toJson.compact.toList =
        .ok started.request := by
  intro titles query view
  have htitles : decodeText (.record .titles) titles.toJson.compact.toList = .ok titles :=
    @decodeText_of_reorders (.record .titles) titles (by decide) _ .refl
  have hview : decodeText (.record .view) view.toJson.compact.toList = .ok view :=
    @decodeText_of_reorders (.record .view) view (by decide) _ .refl
  have hreorders : Relation.ReflTransGen Tree.Reorders titles.toJson
      (.object [("widget", .object [("b", .text "y"), ("a", .text "x")])]) :=
    .single (.member [] [] (.object (List.Perm.swap _ _ _)))
  refine ⟨_, _, htitles, hreorders, by rfl,
    decodeText_compact.1 (.record .titles) _ titles htitles _ hreorders, hview, rfl,
    decodeText_compact.2 _ view hview none [⟨"message"⟩] [] _ rfl _ .refl⟩

end Wire

end MessageExport
