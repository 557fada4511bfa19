import ApiScribe.Proofs.Inheritance.Resolution
import ApiScribe.Schema.Declaration
import Mathlib.Data.List.Forall2

/-! Classes of one name, as several files of an application may declare them.
The first of them that is visited settles the fields of all. Every class has the
fields of its own body, whatever bodies declare, exactly if no two classes have
one name. -/
namespace ApiScribe.Inheritance
open ApiScribe.Field (find? last? names)

/-- Under each name that a class declares itself, its entry has the last field
that the class declares. -/
def OwnKept (own : Declared → List Field) (declared : Declared) (entry : ClassFields) : Prop :=
  entry.record = declared.record ∧
    ∀ name ∈ names (own declared), find? entry.fields name = last? (own declared) name

instance (own : Declared → List Field) (declared : Declared) (entry : ClassFields) :
    Decidable (OwnKept own declared entry) :=
  inferInstanceAs (Decidable (_ ∧ _))

/-- Own fields come last, so what is merged for a class keeps them. -/
theorem own_kept (classes : List Declared) (own : Declared → List Field) :
    Kept classes own (fun _ => True) fun declared fields =>
      ∀ name ∈ names (own declared), find? fields name = last? (own declared) name where
  start := trivial
  merged _ _ _ _ _ _ := trivial
  completed declared inherited _ _ name declares := by
    rw [find?_mergeAll]
    exact Option.or_of_isSome (last?_isSome_iff.mpr declares)

/-- Classes that are told apart by their names have their own fields. -/
theorem own_kept_of_names {classes : List Declared}
    (apart : ∀ first ∈ classes, ∀ second ∈ classes, first.name = second.name → first = second)
    (own : Declared → List Field) :
    List.Forall₂ (OwnKept own) classes (resolve classes own) := by
  obtain ⟨table, resolved, filled⟩ := resolve_table (own_kept classes own)
  rw [resolved, List.forall₂_map_right_iff, List.forall₂_same]
  intro declared member
  obtain ⟨found, inside, same, holds⟩ := filled declared member
  obtain rfl := apart found inside declared member same
  exact ⟨rfl, holds⟩

/-- Classes of one name that have their own fields declare nothing differently. -/
theorem agree_of_kept {classes : List Declared} {own : Declared → List Field}
    (kept : List.Forall₂ (OwnKept own) classes (resolve classes own))
    (first_mem : first ∈ classes) (second_mem : second ∈ classes)
    (same : first.name = second.name) (firstDeclares : name ∈ names (own first))
    (secondDeclares : name ∈ names (own second)) :
    last? (own first) name = last? (own second) name := by
  obtain ⟨table, resolved, _⟩ := resolve_table (own_kept classes own)
  rw [resolved, List.forall₂_map_right_iff, List.forall₂_same] at kept
  have firstKept := (kept first first_mem).2 name firstDeclares
  have secondKept := (kept second second_mem).2 name secondDeclares
  rw [← firstKept, ← secondKept, same]

/-- Every class has its own fields, whatever bodies declare, exactly if no two
classes of the family have one name. -/
theorem own_kept_iff_names_apart (classes : List Declared) :
    (∀ own, List.Forall₂ (OwnKept own) classes (resolve classes own)) ↔
      ∀ first ∈ classes, ∀ second ∈ classes, first.name = second.name → first = second := by
  classical
  constructor
  · intro kept first first_mem second second_mem same
    by_contra different
    -- Two bodies that give one name different types cannot both be kept.
    let own (declared : Declared) : List Field :=
      [{ name := "field", type := if declared = first then .integer else .string }]
    have agree : last? (own first) "field" = last? (own second) "field" :=
      agree_of_kept (kept own) first_mem second_mem same List.mem_cons_self List.mem_cons_self
    simp [own, last?, find?, Ne.symm different] at agree
  · exact fun apart own => own_kept_of_names apart own

/-- Two files of an application that both declare a model `Item`. -/
def namesakes : List Declared :=
  Declared.ofFiles
    [.ofText "shop/models.py" "class Item(Model):\n  title = CharField()\n",
     .ofText "shop/old_models.py" "class Item(Model):\n  price = DecimalField()\n"]

/-- The second `Item` has the title of the first and not its own price. -/
theorem namesake_loses_its_fields :
    ¬ List.Forall₂ (OwnKept Field.declaredByModel) namesakes
      (resolve namesakes Field.declaredByModel) := by
  decide +kernel

end ApiScribe.Inheritance
