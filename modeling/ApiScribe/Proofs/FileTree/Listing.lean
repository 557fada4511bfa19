import ApiScribe.Proofs.FileTree.Proper
import Mathlib.Data.List.Perm.Subperm
import Mathlib.Data.List.Sort
import Mathlib.Data.String.Basic

/-! Listings of a tree. What is listed below a place depends only on what stands
there: two proper trees that hold the same names list them in the same order,
however they came about. -/
namespace ApiScribe.FileTree

variable {tree other : FileTree} {place : Place} {names : List String}

/-! The order of places is linear. -/

private theorem placeLe_total (left right : Place) :
    (placeLe left right || placeLe right left) = true := by
  induction left generalizing right with
  | nil => rfl
  | cons first rest ih =>
    cases right with
    | nil => rfl
    | cons second others =>
      have below := ih others
      rcases lt_trichotomy first second with less | rfl | more
      · simp [placeLe, less]
      · simpa [placeLe] using below
      · simp [placeLe, more]

/-- Places are ordered by their first names, and by what is below where these are the same. -/
theorem placeLe_cons {first second : String} {rest others : Place} :
    placeLe (first :: rest) (second :: others) = true ↔
      first < second ∨ first = second ∧ placeLe rest others = true := by
  simp [placeLe]

private theorem placeLe_trans (left middle right : Place) (first : placeLe left middle = true)
    (second : placeLe middle right = true) : placeLe left right = true := by
  induction left generalizing middle right with
  | nil => rfl
  | cons name rest ih =>
    cases middle with
    | nil => cases first
    | cons between further =>
      cases right with
      | nil => cases second
      | cons last others =>
        rw [placeLe_cons] at first second ⊢
        rcases first with less | ⟨rfl, below⟩
        · rcases second with more | ⟨rfl, _⟩
          · exact .inl (lt_trans less more)
          · exact .inl less
        · rcases second with more | ⟨rfl, above⟩
          · exact .inl more
          · exact .inr ⟨rfl, ih further others below above⟩

private theorem placeLe_antisymm (left right : Place) (first : placeLe left right = true)
    (second : placeLe right left = true) : left = right := by
  induction left generalizing right with
  | nil =>
    cases right with
    | nil => rfl
    | cons => cases second
  | cons name rest ih =>
    cases right with
    | nil => cases first
    | cons last others =>
      rw [placeLe_cons] at first second
      rcases first with less | ⟨rfl, below⟩
      · rcases second with more | ⟨rfl, _⟩
        · exact absurd more (lt_asymm less)
        · exact absurd less (lt_irrefl _)
      · rcases second with more | ⟨_, above⟩
        · exact absurd more (lt_irrefl _)
        · rw [ih others below above]

/-! What is listed below a place. -/

/-- The rest of a place that lies below another one. -/
def restBelow? (place found : Place) : Option Place :=
  if place.isPrefixOf found && found != place then some (found.drop place.length) else none

private theorem restBelow?_eq_some_iff {found : Place} :
    restBelow? place found = some names ↔ names ≠ [] ∧ found = place ++ names := by
  rw [restBelow?]
  constructor
  · intro rest
    split at rest
    · next front =>
      cases rest
      rw [Bool.and_eq_true, List.isPrefixOf_iff_prefix] at front
      obtain ⟨⟨tail, rfl⟩, apart⟩ := front
      rw [List.drop_left]
      exact ⟨by simpa using apart, rfl⟩
    · cases rest
  · rintro ⟨some, rfl⟩
    rw [if_pos (by simp [List.isPrefixOf_iff_prefix, some]), List.drop_left]

private theorem below_eq (tree : FileTree) (place : Place) :
    tree.below place =
      (tree.nodes.filterMap fun entry => (restBelow? place entry.1).map (·, entry.2)).mergeSort
        fun left right => placeLe left.1 right.1 := by
  rw [below]
  congr 2
  funext entry
  simp only [restBelow?]
  split <;> rfl

private theorem below_perm (tree : FileTree) (place : Place) :
    (tree.below place).Perm
      (tree.nodes.filterMap fun entry => (restBelow? place entry.1).map (·, entry.2)) := by
  rw [below_eq]
  exact List.mergeSort_perm _ _

private theorem below_sorted (tree : FileTree) (place : Place) :
    (tree.below place).Pairwise fun left right => placeLe left.1 right.1 = true :=
  List.pairwise_mergeSort (fun a b c => placeLe_trans a.1 b.1 c.1)
    (fun a b => placeLe_total a.1 b.1) _

/-- What is listed in order already needs no sorting. -/
theorem below_of_sorted
    (sorted :
      (tree.nodes.filterMap fun entry => (restBelow? place entry.1).map (·, entry.2)).Pairwise
        fun left right => placeLe left.1 right.1 = true) :
    tree.below place =
      tree.nodes.filterMap fun entry => (restBelow? place entry.1).map (·, entry.2) := by
  rw [below_eq]
  exact List.mergeSort_of_pairwise sorted

private theorem mem_below {node : Node} (proper : Proper tree) :
    (names, node) ∈ tree.below place ↔
      names ≠ [] ∧ tree.node? (place ++ names) = some node := by
  rw [(below_perm tree place).mem_iff, List.mem_filterMap]
  constructor
  · rintro ⟨⟨found, held⟩, member, rest⟩
    obtain ⟨below, here, same⟩ := Option.map_eq_some_iff.mp rest
    cases same
    obtain ⟨some, rfl⟩ := restBelow?_eq_some_iff.mp here
    exact ⟨some, (proper.node?_eq_some_iff (by simp [some])).mpr member⟩
  · rintro ⟨some, held⟩
    refine ⟨(place ++ names, node), mem_of_node? (by simp [some]) held, ?_⟩
    rw [restBelow?_eq_some_iff.mpr ⟨some, rfl⟩]
    rfl

private theorem below_distinct (proper : Proper tree) (place : Place) :
    ((tree.below place).map Prod.fst).Nodup := by
  have keys : (tree.nodes.filterMap fun entry => (restBelow? place entry.1).map (·, entry.2)).map
      Prod.fst = (tree.nodes.map Prod.fst).filterMap (restBelow? place) := by
    rw [List.map_filterMap, List.filterMap_map]
    congr 1
    funext entry
    cases found : restBelow? place entry.1 <;> simp [found]
  rw [((below_perm tree place).map Prod.fst).nodup_iff, keys]
  refine proper.distinct.filterMap fun found again names here there => ?_
  rw [Option.mem_def, restBelow?_eq_some_iff] at here there
  rw [here.2, there.2]

/-- The names below a place that belong to entries of a kind, in order. -/
def namesBelow (tree : FileTree) (place : Place) (kind : Place × Node → Bool) : List Place :=
  ((tree.below place).filter kind).map Prod.fst

variable {kind otherKind : Place × Node → Bool}

/-- A listing holds exactly what stands below a directory and is of the kind asked for. -/
theorem mem_namesBelow (proper : Proper tree) : names ∈ tree.namesBelow place kind ↔
    names ≠ [] ∧ ∃ node, tree.node? (place ++ names) = some node ∧ kind (names, node) = true := by
  rw [namesBelow, List.mem_map]
  constructor
  · rintro ⟨⟨found, node⟩, member, rfl⟩
    obtain ⟨entry, kinds⟩ := List.mem_filter.mp member
    obtain ⟨some, held⟩ := (mem_below proper).mp entry
    exact ⟨some, node, held, kinds⟩
  · rintro ⟨some, node, held, kinds⟩
    exact ⟨(names, node), List.mem_filter.mpr ⟨(mem_below proper).mpr ⟨some, held⟩, kinds⟩, rfl⟩

/-- Nothing is listed twice. -/
theorem namesBelow_nodup (proper : Proper tree) : (tree.namesBelow place kind).Nodup :=
  (below_distinct proper place).sublist (List.filter_sublist.map _)

/-- A listing is in the order of places. -/
theorem namesBelow_sorted (tree : FileTree) (place : Place) (kind : Place × Node → Bool) :
    (tree.namesBelow place kind).Pairwise fun left right => placeLe left right = true :=
  List.pairwise_map.mpr ((below_sorted tree place).filter kind)

/-- Trees that have the same names list them in the same order. -/
theorem namesBelow_eq (proper : Proper tree) (otherProper : Proper other)
    (same : ∀ names,
      names ∈ tree.namesBelow place kind ↔ names ∈ other.namesBelow place otherKind) :
    tree.namesBelow place kind = other.namesBelow place otherKind :=
  List.Perm.eq_of_pairwise (fun left right _ _ => placeLe_antisymm left right)
    (namesBelow_sorted tree place kind) (namesBelow_sorted other place otherKind)
    ((List.perm_ext_iff_of_nodup (namesBelow_nodup proper) (namesBelow_nodup otherProper)).mpr same)

end ApiScribe.FileTree
