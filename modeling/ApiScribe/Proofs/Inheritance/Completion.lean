import ApiScribe.Proofs.Inheritance.Resolution

/-! The order in which resolution completes classes, on any graph of bases. A class is
remembered when it is complete, and it has got fields from those of its bases that were
remembered before it. Any other base was still being resolved, and so derives from the
class. What a class has in the end is what the bodies of its followed line declare. -/
namespace ApiScribe.Inheritance
open ApiScribe.Field (names)
open Relation

variable {classes : List Declared} {own : Declared → List Field} {memo : Memo}
  {declared base elder : Declared} {entry : String × List Field} {name : String}

/-- Whether fields are remembered for a class. -/
def known (memo : Memo) (declared : Declared) : Bool := (memo.lookup declared.name).isSome

/-- The fields that are remembered for a class. -/
def memorized (memo : Memo) (declared : Declared) : List Field :=
  (memo.lookup declared.name).getD []

/-- What a class has, as far as its bases are remembered. -/
def complete (classes : List Declared) (own : Declared → List Field) (memo : Memo)
    (declared : Declared) : List Field :=
  mergeAll (mergeBases (memorized memo) [] ((parents classes declared).filter (known memo)))
    (own declared)

/-- A memory that has grown class by class. A base that is not remembered when a class is
completed derives from the class. -/
inductive Completed (classes : List Declared) (own : Declared → List Field) : Memo → Prop where
  | nil : Completed classes own []
  | cons {memo : Memo} {declared : Declared} (earlier : Completed classes own memo)
      (member : declared ∈ classes) (fresh : memo.lookup declared.name = none)
      (skipped : ∀ base, IsBase classes base declared → known memo base = false →
        Ancestor classes declared base) :
      Completed classes own ((declared.name, complete classes own memo declared) :: memo)

/-! Visits. -/

/-- A visit to a class: the class is remembered, and no class that is being resolved is. -/
structure Visited (classes : List Declared) (own : Declared → List Field) (resolving : List String)
    (memo : Memo) (declared : Declared) (result : List Field × Memo) : Prop where
  completed : Completed classes own result.2
  extends_ : Extends memo result.2
  held : result.2.lookup declared.name = some result.1
  pending : ∀ name ∈ resolving, result.2.lookup name = none

/-- Bases give what is remembered of them, and a base that is not remembered in the end
has been passed over. -/
structure Inherited (classes : List Declared) (own : Declared → List Field) (inside : List String)
    (bases : List Declared) (before after : List Field × Memo) : Prop where
  completed : Completed classes own after.2
  extends_ : Extends before.2 after.2
  pending : ∀ name ∈ inside, after.2.lookup name = none
  fields : after.1 = mergeBases (memorized after.2) before.1 (bases.filter (known after.2))
  skipped : ∀ base ∈ bases, known after.2 base = false → base.name ∈ inside

private theorem Inherited.pass_over {inside : List String} {bases : List Declared}
    {before after : List Field × Memo} (inherited : Inherited classes own inside bases before after)
    (opened : base.name ∈ inside) : Inherited classes own inside (base :: bases) before after where
  completed := inherited.completed
  extends_ := inherited.extends_
  pending := inherited.pending
  fields := by
    have unknown : known after.2 base = false := by rw [known, inherited.pending _ opened]; rfl
    rw [List.filter_cons_of_neg (by simp [unknown]), inherited.fields]
  skipped other member unknown := by
    rcases List.mem_cons.mp member with rfl | later
    · exact opened
    · exact inherited.skipped other later unknown

private theorem Inherited.visit {inside : List String} {bases : List Declared} {fields : List Field}
    {result after : List Field × Memo} (visited : Visited classes own inside memo base result)
    (inherited : Inherited classes own inside bases (mergeAll fields result.1, result.2) after) :
    Inherited classes own inside (base :: bases) (fields, memo) after where
  completed := inherited.completed
  extends_ := visited.extends_.trans inherited.extends_
  pending := inherited.pending
  fields := by
    have held := inherited.extends_ _ _ visited.held
    have recalled : memorized after.2 base = result.1 := by rw [memorized, held]; rfl
    have taken : known after.2 base = true := by rw [known, held]; rfl
    rw [List.filter_cons_of_pos taken, inherited.fields, ← recalled]
    rfl
  skipped other member unknown := by
    rcases List.mem_cons.mp member with rfl | later
    · rw [known, inherited.extends_ _ _ visited.held] at unknown
      cases unknown
    · exact inherited.skipped other later unknown

private theorem inherit_inherited {inside : List String}
    {visitBase : Memo → Declared → List Field × Memo}
    (visits : ∀ memo base, IsBase classes base declared → base.name ∉ inside →
      (∀ name ∈ inside, memo.lookup name = none) → Completed classes own memo →
      Visited classes own inside memo base (visitBase memo base))
    (here : declared.name ∈ inside) (bases : List String)
    (mentioned : ∀ text ∈ bases, text ∈ declared.bases) (fields : List Field)
    (pending : ∀ name ∈ inside, memo.lookup name = none) (completed : Completed classes own memo) :
    Inherited classes own inside (bases.filterMap (localBase? classes declared)) (fields, memo)
      (inherit classes visitBase inside (fields, memo) bases) := by
  induction bases generalizing fields memo with
  | nil => exact ⟨completed, fun _ _ held => held, pending, rfl, fun _ member => nomatch member⟩
  | cons text rest ih =>
    have later : ∀ text ∈ rest, text ∈ declared.bases :=
      fun text member => mentioned text (List.mem_cons_of_mem _ member)
    cases taken : localBase? classes declared text with
    | none =>
      have itself := localBase?_eq_none_iff.mp taken
      rw [List.filterMap_cons_none taken,
        inherit_passed fun parent named => itself parent named ▸ here]
      exact ih later fields pending completed
    | some parent =>
      obtain ⟨named, _⟩ := localBase?_eq_some_iff.mp taken
      rw [List.filterMap_cons_some taken]
      by_cases opened : parent.name ∈ inside
      · have passed (other : Declared) (same : parent? classes text = some other) :
            other.name ∈ inside := by
          rwa [Option.some.inj (same.symm.trans named)]
        rw [inherit_passed passed]
        exact (ih later fields pending completed).pass_over opened
      · have isBase : IsBase classes parent declared :=
          List.mem_filterMap.mpr ⟨text, mentioned text List.mem_cons_self, taken⟩
        have visited := visits memo parent isBase opened pending completed
        rw [inherit_visited named opened]
        exact (ih later _ visited.pending visited.completed).visit visited

/-- On every graph of bases a visit completes classes one after the other. -/
theorem visit_visited (distinct : (classes.map Declared.name).Nodup) (fuel : Nat)
    {resolving : List String} (opened : Opened classes resolving declared)
    (closed : declared.name ∉ resolving) (member : declared ∈ classes)
    (pending : ∀ name ∈ resolving, memo.lookup name = none)
    (completed : Completed classes own memo) (enough : classes.length < fuel + resolving.length) :
    Visited classes own resolving memo declared
      (visit classes own fuel resolving memo declared) := by
  induction fuel generalizing resolving memo declared with
  | zero =>
    have bound := opened_length opened
    omega
  | succ fuel ih =>
    rw [visit]
    cases held : memo.lookup declared.name with
    | some fields => exact ⟨completed, fun _ _ held => held, held, pending⟩
    | none =>
      have fresh : ∀ name ∈ declared.name :: resolving, memo.lookup name = none :=
        List.forall_mem_cons.mpr ⟨held, pending⟩
      have inherited := inherit_inherited
        (fun memo base isBase closedBase pending completed =>
          ih (opened_base opened closed member isBase) closedBase (isBase_mem isBase).1 pending
            completed (by simp only [List.length_cons]; omega))
        List.mem_cons_self declared.bases (fun _ here => here) [] fresh completed
      dsimp only
      generalize inherit classes (visit classes own fuel (declared.name :: resolving))
        (declared.name :: resolving) ([], memo) declared.bases = result at inherited ⊢
      have unknown := inherited.pending declared.name List.mem_cons_self
      have whole : mergeAll result.1 (own declared) = complete classes own result.2 declared := by
        rw [inherited.fields]
        rfl
      rw [whole]
      refine ⟨.cons inherited.completed member unknown fun base isBase missing => ?_,
        extends_cons held inherited.extends_, (lookup_cons ..).trans (if_pos rfl),
        fun name inside => ?_⟩
      · -- A base that is still being resolved is not the class itself, so it stands below.
        have inside := inherited.skipped base isBase missing
        rcases List.mem_cons.mp inside with self | resolved
        · exact absurd self (isBase_mem isBase).2
        · obtain ⟨heir, heir_mem, same, above⟩ := opened.below _ resolved
          obtain rfl := eq_of_name distinct heir_mem (isBase_mem isBase).1 same
          exact above
      · have other : name ≠ declared.name := fun same => closed (same ▸ inside)
        rw [lookup_cons, if_neg other]
        exact inherited.pending name (List.mem_cons_of_mem _ inside)

/-- What is remembered after a number of classes. -/
def memoryFrom (classes : List Declared) (own : Declared → List Field) (memo : Memo)
    (family : List Declared) : Memo :=
  family.foldl
    (fun memo declared => (visit classes own (classes.length + 1) [] memo declared).2) memo

/-- What is remembered when a family has been resolved, the class completed last first. -/
def memory (classes : List Declared) (own : Declared → List Field) : Memo :=
  memoryFrom classes own [] classes

/-- What holds of a memory in which every class of a family is remembered. -/
theorem memoryFrom_completed (distinct : (classes.map Declared.name).Nodup)
    (family : List Declared) (inside : family ⊆ classes) (completed : Completed classes own memo) :
    let final := memoryFrom classes own memo family
    Completed classes own final ∧ Extends memo final ∧
      (∀ declared ∈ family, known final declared = true) ∧
      resolveFrom classes own memo family =
        family.map fun declared => ⟨declared.record, memorized final declared⟩ := by
  induction family generalizing memo with
  | nil => exact ⟨completed, fun _ _ held => held, by simp, rfl⟩
  | cons first rest ih =>
    obtain ⟨first_mem, below⟩ := List.cons_subset.mp inside
    have opened : Opened classes [] first := ⟨List.nodup_nil, by simp⟩
    have visited := visit_visited distinct (classes.length + 1) opened List.not_mem_nil first_mem
      (by simp) completed (by simp)
    obtain ⟨final, extended, remembered, resolved⟩ := ih below visited.completed
    have settled := extended _ _ visited.held
    refine ⟨final, visited.extends_.trans extended, ?_, ?_⟩
    · refine List.forall_mem_cons.mpr ⟨?_, remembered⟩
      exact Option.isSome_of_eq_some settled
    · have recalled : memorized (memoryFrom classes own memo (first :: rest)) first =
          (visit classes own (classes.length + 1) [] memo first).1 := by
        show (List.lookup _ _).getD [] = _
        rw [show List.lookup first.name (memoryFrom classes own memo (first :: rest)) = _
          from settled]
        rfl
      rw [List.map_cons, recalled]
      exact congrArg (List.cons _) resolved

/-- On every graph of bases resolution completes all classes, one after the other. -/
theorem resolve_completed (distinct : (classes.map Declared.name).Nodup)
    (own : Declared → List Field) :
    Completed classes own (memory classes own) ∧
      (∀ declared ∈ classes, known (memory classes own) declared = true) ∧
      resolve classes own =
        classes.map fun declared => ⟨declared.record, memorized (memory classes own) declared⟩ := by
  have start : Completed classes own [] := .nil
  obtain ⟨completed, _, remembered, resolved⟩ :=
    memoryFrom_completed distinct classes (List.Subset.refl classes) start
  exact ⟨completed, remembered, resolved⟩

/-! Followed lines. -/

/-- One name is remembered before another one. -/
def Before (memo : Memo) (first second : String) : Prop :=
  ∃ later fields earlier,
    memo = later ++ (second, fields) :: earlier ∧ (earlier.lookup first).isSome

/-- A base that is complete when a class takes fields from its bases. -/
def Followed (classes : List Declared) (memo : Memo) (base declared : Declared) : Prop :=
  IsBase classes base declared ∧ Before memo base.name declared.name

private theorem Before.cons (before : Before memo first second) (entry : String × List Field) :
    Before (entry :: memo) first second := by
  obtain ⟨later, fields, earlier, rfl, held⟩ := before
  exact ⟨entry :: later, fields, earlier, rfl, held⟩

/-- What has been remembered last changes nothing about what was remembered before. -/
theorem Before.of_cons {second : String} (before : Before (entry :: memo) first second)
    (other : second ≠ entry.1) : Before memo first second := by
  obtain ⟨later, fields, earlier, split, held⟩ := before
  cases later with
  | nil =>
    cases split
    exact absurd rfl other
  | cons _ later =>
    cases split
    exact ⟨later, fields, earlier, rfl, held⟩

private theorem Before.known (before : Before memo base.name second) : known memo base = true := by
  obtain ⟨later, fields, earlier, rfl, held⟩ := before
  obtain ⟨entry, listed, same⟩ := List.lookup_isSome_iff.mp held
  exact List.lookup_isSome_iff.mpr ⟨entry, by simp [listed], same⟩

private theorem before_newest {first second : String} {fields : List Field}
    (fresh : memo.lookup second = none) :
    Before ((second, fields) :: memo) first second ↔ (memo.lookup first).isSome := by
  constructor
  · rintro ⟨later, found, earlier, split, held⟩
    cases later with
    | nil =>
      cases split
      exact held
    | cons _ later =>
      cases split
      have other := List.lookup_eq_none_iff.mp fresh (second, found) (by simp)
      simp at other
  · exact fun held => ⟨[], fields, memo, rfl, held⟩

private theorem ne_of_known (fresh : memo.lookup name = none) (held : known memo declared = true) :
    declared.name ≠ name := by
  rintro rfl
  rw [known, fresh] at held
  cases held

/-- The line of a class through the bases that it takes fields from. -/
def FollowedLine (classes : List Declared) (memo : Memo) : Declared → Declared → Prop :=
  ReflTransGen (Followed classes memo)

private theorem FollowedLine.inLine (line : FollowedLine classes memo elder declared) :
    InLine classes elder declared :=
  ReflTransGen.mono (show Followed classes memo ≤ IsBase classes from fun _ _ found => found.1)
    elder declared line

/-- The line of a class is settled when the class is remembered. -/
theorem followedLine_cons_iff {entry : String × List Field} (fresh : memo.lookup entry.1 = none)
    (held : known memo declared = true) :
    FollowedLine classes (entry :: memo) elder declared ↔
      FollowedLine classes memo elder declared := by
  constructor
  · intro line
    induction line with
    | refl => exact .refl
    | tail _ followed ih =>
      have before := followed.2.of_cons (ne_of_known fresh held)
      exact (ih before.known).tail ⟨followed.1, before⟩
  · have kept : Followed classes memo ≤ Followed classes (entry :: memo) :=
      fun _ _ followed => ⟨followed.1, followed.2.cons entry⟩
    exact ReflTransGen.mono kept elder declared

private theorem mem_names_complete :
    name ∈ names (complete classes own memo declared) ↔
      (∃ base, IsBase classes base declared ∧ known memo base = true ∧
          name ∈ names (memorized memo base)) ∨ name ∈ names (own declared) := by
  rw [complete, mem_names_mergeAll, mem_names_mergeBases]
  simp [IsBase, names, and_assoc]

/-- A class has the names that the bodies of its followed line declare, and no others. -/
theorem mem_names_memorized (distinct : (classes.map Declared.name).Nodup)
    (completed : Completed classes own memo) (member : declared ∈ classes)
    (held : known memo declared = true) :
    name ∈ names (memorized memo declared) ↔
      ∃ elder, FollowedLine classes memo elder declared ∧ name ∈ names (own elder) := by
  induction completed generalizing declared with
  | nil => cases held
  | @cons memo newest earlier newest_mem fresh _ ih =>
    have lines {declared elder : Declared} (older : known memo declared = true) :=
      @followedLine_cons_iff classes memo declared elder
        (newest.name, complete classes own memo newest) fresh older
    by_cases same : declared.name = newest.name
    · obtain rfl := eq_of_name distinct member newest_mem same
      have recalled :
          memorized ((declared.name, complete classes own memo declared) :: memo) declared =
          complete classes own memo declared := by
        rw [memorized, lookup_cons, if_pos rfl]
        rfl
      rw [recalled, mem_names_complete]
      constructor
      · rintro (⟨base, isBase, heldBase, inherited⟩ | declares)
        · obtain ⟨elder, line, declares⟩ := (ih (isBase_mem isBase).1 heldBase).mp inherited
          have above := (lines heldBase).mpr line
          exact ⟨elder, above.tail ⟨isBase, (before_newest fresh).mpr heldBase⟩, declares⟩
        · exact ⟨declared, .refl, declares⟩
      · rintro ⟨elder, line, declares⟩
        rcases ReflTransGen.cases_tail line with rfl | ⟨base, above, isBase, before⟩
        · exact .inr declares
        · have heldBase := (before_newest fresh).mp before
          refine .inl ⟨base, isBase, heldBase, (ih (isBase_mem isBase).1 heldBase).mpr ?_⟩
          exact ⟨elder, (lines heldBase).mp above, declares⟩
    · have older : known memo declared = true := by
        rwa [known, lookup_cons, if_neg same] at held
      have recalled : memorized ((newest.name, complete classes own memo newest) :: memo) declared =
          memorized memo declared := by
        rw [memorized, lookup_cons, if_neg same, memorized]
      rw [recalled, ih member older]
      simp only [lines older]

/-- Only a base that derives from the class itself is not followed. -/
theorem followed_of_not_below (distinct : (classes.map Declared.name).Nodup)
    (completed : Completed classes own memo) (member : declared ∈ classes)
    (held : known memo declared = true) (isBase : IsBase classes base declared)
    (apart : ¬ Ancestor classes declared base) : Followed classes memo base declared := by
  refine ⟨isBase, ?_⟩
  induction completed with
  | nil => cases held
  | @cons memo newest earlier newest_mem fresh skipped ih =>
    by_cases same : declared.name = newest.name
    · obtain rfl := eq_of_name distinct member newest_mem same
      refine (before_newest fresh).mpr ?_
      by_contra missing
      exact apart (skipped base isBase (Bool.eq_false_iff.mpr missing))
    · have older : known memo declared = true := by
        rwa [known, lookup_cons, if_neg same] at held
      exact (ih older).cons _

/-- Without cycles every base is followed. -/
theorem followedLine_iff_inLine (distinct : (classes.map Declared.name).Nodup)
    (acyclic : Acyclic classes) (completed : Completed classes own memo)
    (remembered : ∀ declared ∈ classes, known memo declared = true) (member : declared ∈ classes) :
    FollowedLine classes memo elder declared ↔ InLine classes elder declared := by
  refine ⟨FollowedLine.inLine, fun line => ?_⟩
  induction line with
  | refl => exact .refl
  | tail _ isBase ih =>
    have apart := fun below => acyclic _ member (TransGen.tail below isBase)
    exact (ih (isBase_mem isBase).1).tail
      (followed_of_not_below distinct completed member (remembered _ member) isBase apart)

end ApiScribe.Inheritance
