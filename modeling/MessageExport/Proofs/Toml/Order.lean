import MessageExport.Proofs.Distinct
import MessageExport.Proofs.Toml.Statements
/-!
# MessageExport.Proofs.Toml.Order

The **order of the keys** at the top of a document.

A key stands where it is first mentioned, be it as a key with a value, as the first part of
a dotted key, or as the first part of a header. There is one exception: a table that headers
further down have only implied so far moves to its own header when that comes
(`keys_of_document`).
-/

namespace MessageExport.Toml

open Entries (keys)

/-- A mention of a key at the top of a document. -/
structure Mention where
  key : String
  /-- The mention is the header of the table under the key. -/
  isHeader : Bool
  deriving DecidableEq, Repr

namespace Statement

/-- The line is the header of a table at the top. -/
def isTopHeader : Statement → Bool
  | .table ⟨[], _⟩ => true
  | _ => false

/-- The mention that a line under a header makes. -/
def mention (above : List String) (said : Statement) : Mention :=
  ⟨said.top above, said.isTopHeader⟩

end Statement

/-- The mentions of keys at the top, line by line. -/
def mentions : (above : List String) → List Statement → List Mention
  | _, [] => []
  | above, said :: rest => said.mention above :: mentions (said.header above) rest

/-- The mentions that are not taken back by the header of the table further down. -/
def standing : List Mention → List Mention
  | [] => []
  | mention :: rest =>
      if ⟨mention.key, true⟩ ∈ rest then standing rest else mention :: standing rest

/-- The keys at the top of a document, in their order. -/
def topKeys (statements : List Statement) : List String :=
  ((standing (mentions [] statements)).map Mention.key).eraseDups

/-! ### One mention after another -/

/-- The keys after a further mention. -/
def place (keys : List String) (mention : Mention) : List String :=
  if mention.isHeader then keys.filter (· ≠ mention.key) ++ [mention.key]
  else if mention.key ∈ keys then keys else keys ++ [mention.key]

theorem keys_add {progress next : Progress} {said : Statement}
    (h : progress.add said = some next) :
    keys next.entries = place (keys progress.entries) (said.mention progress.path) := by
  rcases Progress.add_cases h with ⟨key, item, rfl, hpath, hnew, rfl⟩ | ⟨key, inner, rfl, -, rfl⟩ |
    ⟨item, hnot, -, rfl⟩
  · rw [hpath]
    exact Entries.keys_concat.trans (if_neg hnew).symm
  · rw [Entries.keys_concat, Entries.keys_erase]
    rfl
  · have hheader : said.isTopHeader = false := by
      unfold Statement.isTopHeader
      split
      · exact absurd rfl hnot
      · rfl
    rw [Entries.keys_put, place, Statement.mention, hheader]
    rfl

theorem keys_addAll {progress last : Progress} {statements : List Statement}
    (h : progress.addAll statements = some last) :
    keys last.entries =
      (mentions progress.path statements).foldl place (keys progress.entries) := by
  induction statements generalizing progress with
  | nil =>
      cases h
      rfl
  | cons said rest ih =>
      rw [Progress.addAll_cons] at h
      obtain ⟨next, hnext, hrest⟩ := Option.bind_eq_some_iff.mp h
      rw [ih hrest, Progress.path_add hnext, keys_add hnext]
      rfl

/-! ### All mentions at once -/

theorem standing_concat_of_not_header (mentions : List Mention) (key : String) :
    standing (mentions ++ [⟨key, false⟩]) = standing mentions ++ [⟨key, false⟩] := by
  induction mentions with
  | nil => rfl
  | cons first rest ih =>
      have hmem : (⟨first.key, true⟩ : Mention) ∈ rest ++ [⟨key, false⟩] ↔
          (⟨first.key, true⟩ : Mention) ∈ rest := by
        simp
      rw [List.cons_append, standing, standing, ih]
      by_cases hlater : (⟨first.key, true⟩ : Mention) ∈ rest
      · rw [if_pos (hmem.mpr hlater), if_pos hlater]
      · rw [if_neg (mt hmem.mp hlater), if_neg hlater]
        rfl

theorem standing_concat_of_header (mentions : List Mention) (key : String) :
    standing (mentions ++ [⟨key, true⟩]) =
      (standing mentions).filter (fun mention => mention.key ≠ key) ++ [⟨key, true⟩] := by
  induction mentions with
  | nil => rfl
  | cons first rest ih =>
      have hmem : (⟨first.key, true⟩ : Mention) ∈ rest ++ [⟨key, true⟩] ↔
          (⟨first.key, true⟩ : Mention) ∈ rest ∨ first.key = key := by
        simp
      rw [List.cons_append, standing, standing, ih]
      by_cases hlater : (⟨first.key, true⟩ : Mention) ∈ rest
      · rw [if_pos (hmem.mpr (.inl hlater)), if_pos hlater]
      · rw [if_neg hlater, List.filter_cons]
        by_cases hkey : first.key = key
        · rw [if_pos (hmem.mpr (.inr hkey)), if_neg (by simp [hkey])]
        · rw [if_neg fun h => (hmem.mp h).elim hlater hkey, if_pos (by simp [hkey])]
          rfl

/-- The keys come out in the order of the mentions that stand. -/
theorem foldl_place (mentions : List Mention) :
    mentions.foldl place [] = ((standing mentions).map Mention.key).eraseDups := by
  induction mentions using List.reverseRecOn with
  | nil => rfl
  | append_singleton mentions mention ih =>
      obtain ⟨key, isHeader⟩ := mention
      rw [List.foldl_concat, ih, place]
      cases isHeader with
      | true =>
          -- the header takes back all mentions of its key, and stands behind the others
          have hothers : ((standing mentions).filter fun mention => mention.key ≠ key).map
              Mention.key = ((standing mentions).map Mention.key).filter (· ≠ key) := by
            rw [List.filter_map]
            rfl
          rw [standing_concat_of_header, List.map_append, List.map_singleton, hothers,
            eraseDups_concat_of_not_mem (by simp), if_pos rfl, eraseDups_filter]
      | false =>
          rw [standing_concat_of_not_header, List.map_append, List.map_singleton,
            if_neg Bool.false_ne_true]
          by_cases hmem : key ∈ (standing mentions).map Mention.key
          · rw [if_pos (List.mem_eraseDups.mpr hmem), eraseDups_concat_of_mem hmem]
          · rw [if_neg (mt List.mem_eraseDups.mp hmem), eraseDups_concat_of_not_mem hmem]

/-- **The order of the keys.** -/
theorem keys_of_document {statements : List Statement} {entries : Entries}
    (h : document? statements = some entries) : keys entries = topKeys statements := by
  obtain ⟨progress, hprogress, rfl⟩ := Option.map_eq_some_iff.mp h
  exact (keys_addAll hprogress).trans (foldl_place _)

end MessageExport.Toml
