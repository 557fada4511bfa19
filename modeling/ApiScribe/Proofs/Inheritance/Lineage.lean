import ApiScribe.Proofs.Inheritance.Merge
import Mathlib.Data.Set.Finite.List
import Mathlib.Logic.Relation

/-! Lines of classes and what a class has by plain recursion over them, with no
memory and no order of visits. The class that provides a field is found by its
body first and then by its local bases, of which the last one that has the field
counts. -/
namespace ApiScribe.Inheritance
open ApiScribe.Field (find? last? names)
open Relation

variable {classes : List Declared} {own : Declared → List Field}
  {declared elder source base : Declared} {name : String}

/-- The class that a base of another class names. A class is no base of itself. -/
def localBase? (classes : List Declared) (declared : Declared) (base : String) :
    Option Declared :=
  (parent? classes base).filter fun parent => parent.name != declared.name

/-- The local bases of a class in their order. -/
def parents (classes : List Declared) (declared : Declared) : List Declared :=
  declared.bases.filterMap (localBase? classes declared)

def IsBase (classes : List Declared) (base declared : Declared) : Prop :=
  base ∈ parents classes declared

/-- A class that is reached through any chain of local bases. -/
def Ancestor (classes : List Declared) : Declared → Declared → Prop :=
  TransGen (IsBase classes)

/-- A class that is reached through local bases, the class itself included. -/
def InLine (classes : List Declared) : Declared → Declared → Prop :=
  ReflTransGen (IsBase classes)

/-- No class is its own ancestor. -/
def Acyclic (classes : List Declared) : Prop :=
  ∀ declared ∈ classes, ¬ Ancestor classes declared declared

theorem parent?_mem (found : parent? classes text = some base) : base ∈ classes :=
  List.mem_reverse.mp (List.mem_of_find?_eq_some found)

/-- A base that is a local class counts unless it has the name of the class itself. -/
theorem localBase?_eq_some_iff : localBase? classes declared text = some base ↔
    parent? classes text = some base ∧ base.name ≠ declared.name := by
  rw [localBase?, Option.filter_eq_some_iff, bne_iff_ne]

theorem localBase?_eq_none_iff : localBase? classes declared text = none ↔
    ∀ parent, parent? classes text = some parent → parent.name = declared.name := by
  simp [localBase?, Option.filter_eq_none_iff]

theorem isBase_mem (isBase : IsBase classes base declared) :
    base ∈ classes ∧ base.name ≠ declared.name := by
  obtain ⟨text, _, taken⟩ := List.mem_filterMap.mp isBase
  obtain ⟨found, other⟩ := localBase?_eq_some_iff.mp taken
  exact ⟨parent?_mem found, other⟩

/-- The line of a class of the family stays inside the family. -/
theorem InLine.mem (inLine : InLine classes elder declared) (member : declared ∈ classes) :
    elder ∈ classes := by
  induction inLine using ReflTransGen.head_induction_on with
  | refl => exact member
  | head isBase _ _ => exact (isBase_mem isBase).1

/-- Ranks that fall towards the bases rule out cycles. -/
theorem acyclic_of_rank (rank : Declared → Nat)
    (falls : ∀ declared ∈ classes, ∀ base ∈ parents classes declared,
      rank base < rank declared) : Acyclic classes := by
  have lower : ∀ {elder declared}, declared ∈ classes → Ancestor classes elder declared →
      rank elder < rank declared := by
    intro elder declared member ancestor
    induction ancestor with
    | single isBase => exact falls _ member _ isBase
    | tail _ isBase ih =>
      exact Nat.lt_trans (ih (isBase_mem isBase).1) (falls _ member _ isBase)
  exact fun declared member cycle => Nat.lt_irrefl _ (lower member cycle)

/-- Without cycles a recursion over local bases ends. -/
theorem isBase_wellFounded (acyclic : Acyclic classes) : WellFounded (IsBase classes) := by
  let Above (first second : { declared // declared ∈ classes }) : Prop :=
    Ancestor classes first.1 second.1
  have finite : Finite { declared // declared ∈ classes } := (List.finite_toSet classes).to_subtype
  have transitive : IsTrans _ Above := ⟨fun _ _ _ first second => first.trans second⟩
  have irreflexive : Std.Irrefl Above := ⟨fun found => acyclic found.1 found.2⟩
  have grounded : WellFounded Above := Finite.wellFounded_of_trans_of_irrefl Above
  have accessible : ∀ found : { declared // declared ∈ classes }, Acc (IsBase classes) found.1 := by
    intro found
    induction found using grounded.induction with
    | _ found ih =>
      exact .intro _ fun base isBase => ih ⟨base, (isBase_mem isBase).1⟩ (.single isBase)
  exact ⟨fun declared => .intro _ fun base isBase => accessible ⟨base, (isBase_mem isBase).1⟩⟩

/-- Fields of bases merged base by base into what is there. -/
def mergeBases (fields : Declared → List Field) (start : List Field) (bases : List Declared) :
    List Field :=
  bases.foldl (fun merged base => mergeAll merged (fields base)) start

/-- The fields of a class by plain recursion: those of its local bases and then
its own. -/
noncomputable def plain (acyclic : Acyclic classes) (own : Declared → List Field) :
    Declared → List Field :=
  (isBase_wellFounded acyclic).fix fun declared resolved =>
    mergeAll ((parents classes declared).attach.foldl
      (fun merged base => mergeAll merged (resolved base.1 base.2)) []) (own declared)

/-- The fields of a class are those of its bases, merged in their order, and then its own. -/
theorem plain_eq (acyclic : Acyclic classes) (own : Declared → List Field)
    (declared : Declared) :
    plain acyclic own declared =
      mergeAll (mergeBases (plain acyclic own) [] (parents classes declared)) (own declared) := by
  rw [plain, WellFounded.fix_eq, mergeBases, ← List.foldl_attach (l := parents classes declared)]

/-- Plain recursion reads the bodies of classes of the family only. -/
theorem plain_congr (acyclic : Acyclic classes) {first second : Declared → List Field}
    (agree : ∀ declared ∈ classes, first declared = second declared)
    (member : declared ∈ classes) :
    plain acyclic first declared = plain acyclic second declared := by
  induction declared using (isBase_wellFounded acyclic).induction with
  | _ declared ih =>
    have bases : mergeBases (plain acyclic first) [] (parents classes declared) =
        mergeBases (plain acyclic second) [] (parents classes declared) :=
      List.foldl_ext _ _ _ fun merged base isBase => by
        rw [ih base isBase (isBase_mem isBase).1]
    rw [plain_eq, plain_eq, bases, agree declared member]

/-- Names stay apart through the merges of all bases. -/
theorem mergeBases_distinct {fields : Declared → List Field} {start : List Field}
    {bases : List Declared} (distinct : (names start).Nodup) :
    (names (mergeBases fields start bases)).Nodup := by
  induction bases generalizing start with
  | nil => exact distinct
  | cons base rest ih => exact ih (mergeAll_distinct distinct)

/-- No class has two fields of one name. -/
theorem plain_distinct (acyclic : Acyclic classes) (own : Declared → List Field)
    (declared : Declared) : (names (plain acyclic own declared)).Nodup := by
  rw [plain_eq]
  exact mergeAll_distinct (mergeBases_distinct List.nodup_nil)

/-- The names after all merges are those that the start or some base has. -/
theorem mem_names_mergeBases {fields : Declared → List Field} {start : List Field}
    {bases : List Declared} :
    name ∈ names (mergeBases fields start bases) ↔
      name ∈ names start ∨ ∃ base ∈ bases, name ∈ names (fields base) := by
  induction bases generalizing start with
  | nil => simp [mergeBases]
  | cons base rest ih =>
    have step : mergeBases fields start (base :: rest) =
        mergeBases fields (mergeAll start (fields base)) rest := rfl
    rw [step, ih, mem_names_mergeAll, or_assoc]
    simp

/-- A class has the names that some class of its line declares, and no others. -/
theorem mem_names_plain (acyclic : Acyclic classes) :
    name ∈ names (plain acyclic own declared) ↔
      ∃ elder, InLine classes elder declared ∧ name ∈ names (own elder) := by
  have step : ∀ declared, name ∈ names (plain acyclic own declared) ↔
      (∃ base, IsBase classes base declared ∧ name ∈ names (plain acyclic own base)) ∨
        name ∈ names (own declared) := by
    intro declared
    rw [plain_eq, mem_names_mergeAll, mem_names_mergeBases]
    simp [IsBase, names]
  constructor
  · intro present
    induction declared using (isBase_wellFounded acyclic).induction with
    | _ declared ih =>
      rcases (step declared).mp present with ⟨base, isBase, inherited⟩ | declares
      · obtain ⟨elder, inLine, declares⟩ := ih base isBase inherited
        exact ⟨elder, inLine.tail isBase, declares⟩
      · exact ⟨declared, .refl, declares⟩
  · rintro ⟨elder, inLine, declares⟩
    induction inLine with
    | refl => exact (step _).mpr (.inr declares)
    | tail _ isBase ih => exact (step _).mpr (.inl ⟨_, isBase, ih⟩)

/-- Bases without a name leave what is found there as it was. -/
theorem find?_mergeBases_absent {fields : Declared → List Field} {start : List Field}
    {bases : List Declared} (absent : ∀ base ∈ bases, name ∉ names (fields base)) :
    find? (mergeBases fields start bases) name = find? start name := by
  induction bases generalizing start with
  | nil => rfl
  | cons base rest ih =>
    have first : last? (fields base) name = none := by
      have missing := absent base List.mem_cons_self
      rw [← last?_isSome_iff] at missing
      simpa using missing
    have step : mergeBases fields start (base :: rest) =
        mergeBases fields (mergeAll start (fields base)) rest := rfl
    rw [step, ih fun base member => absent base (List.mem_cons_of_mem _ member),
      find?_mergeAll, first, Option.none_or]

/-- Of several bases that have a name the last one counts. -/
theorem find?_mergeBases_last {fields : Declared → List Field} {start : List Field}
    {before after : List Declared} (present : name ∈ names (fields base))
    (later : ∀ other ∈ after, name ∉ names (fields other)) :
    find? (mergeBases fields start (before ++ base :: after)) name = last? (fields base) name := by
  have split : mergeBases fields start (before ++ base :: after) =
      mergeBases fields (mergeAll (mergeBases fields start before) (fields base)) after := by
    simp [mergeBases]
  rw [split, find?_mergeBases_absent later, find?_mergeAll]
  exact Option.or_of_isSome (last?_isSome_iff.mpr present)

/-- The class whose body gives a class its field of a name: itself if it has
one of its own, and else the class that gives it to the last base whose line has
such a field. -/
inductive Provides (classes : List Declared) (own : Declared → List Field) (name : String) :
    Declared → Declared → Prop where
  | own {declared : Declared} (declares : name ∈ names (own declared)) :
      Provides classes own name declared declared
  | base {source base declared : Declared} {before after : List Declared}
      (absent : name ∉ names (own declared))
      (split : parents classes declared = before ++ base :: after)
      (provides : Provides classes own name source base)
      (later : ∀ other ∈ after, ∀ elder, InLine classes elder other → name ∉ names (own elder)) :
      Provides classes own name source declared

namespace Provides

/-- A provider is a class itself or one that it derives from. -/
theorem inLine (provides : Provides classes own name source declared) :
    InLine classes source declared := by
  induction provides with
  | own => exact .refl
  | base absent split _ _ ih => exact ih.tail (by simp [IsBase, split])

/-- A provider declares the field in its own body. -/
theorem declares (provides : Provides classes own name source declared) :
    name ∈ names (own source) := by
  induction provides with
  | own declares => exact declares
  | base _ _ _ _ ih => exact ih

end Provides

/-- The field of a class is the last one of its name in the body of its provider. -/
theorem find?_plain (acyclic : Acyclic classes)
    (provides : Provides classes own name source declared) :
    find? (plain acyclic own declared) name = last? (own source) name := by
  induction provides with
  | own declares =>
    rw [plain_eq, find?_mergeAll]
    exact Option.or_of_isSome (last?_isSome_iff.mpr declares)
  | @base base declared before after absent split provides later ih =>
    have missing : last? (own declared) name = none := by
      rw [← last?_isSome_iff] at absent
      simpa using absent
    have present : name ∈ names (plain acyclic own base) :=
      (mem_names_plain acyclic).mpr ⟨source, provides.inLine, provides.declares⟩
    have lacking : ∀ other ∈ after, name ∉ names (plain acyclic own other) := by
      intro other member present
      obtain ⟨elder, inLine, declares⟩ := (mem_names_plain acyclic).mp present
      exact later other member elder inLine declares
    rw [plain_eq, find?_mergeAll, missing, Option.none_or, split,
      find?_mergeBases_last present lacking, last?_eq_find? (plain_distinct acyclic own base), ih]

/-- The last item of a list with a property, with the items around it. -/
private theorem split_at_last {α : Type} {P : α → Prop} {items : List α}
    (holds : ∃ item ∈ items, P item) :
    ∃ before last after, items = before ++ last :: after ∧ P last ∧ ∀ item ∈ after, ¬ P item := by
  induction items with
  | nil => simp at holds
  | cons first rest ih =>
    by_cases later : ∃ item ∈ rest, P item
    · obtain ⟨before, last, after, rfl, found⟩ := ih later
      exact ⟨first :: before, last, after, rfl, found⟩
    · have here : P first := by simpa [later] using holds
      exact ⟨[], first, rest, rfl, here, fun item member found => later ⟨item, member, found⟩⟩

/-- Every field that a class has is provided by a class of its line. -/
theorem exists_provider (acyclic : Acyclic classes)
    (present : name ∈ names (plain acyclic own declared)) :
    ∃ source, Provides classes own name source declared := by
  induction declared using (isBase_wellFounded acyclic).induction with
  | _ declared ih =>
    by_cases declares : name ∈ names (own declared)
    · exact ⟨declared, .own declares⟩
    · have inherited : ∃ base ∈ parents classes declared, name ∈ names (plain acyclic own base) := by
        rw [plain_eq, mem_names_mergeAll, mem_names_mergeBases] at present
        rcases present with (nothing | inherited) | own
        · cases nothing
        · exact inherited
        · contradiction
      obtain ⟨before, base, after, split, found, later⟩ := split_at_last inherited
      obtain ⟨source, provides⟩ := ih base (by simp [IsBase, split]) found
      refine ⟨source, .base declares split provides fun other member elder inLine present => ?_⟩
      exact later other member ((mem_names_plain acyclic).mpr ⟨elder, inLine, present⟩)

/-- What a class has under a name is what the body of the provider has last. -/
theorem find?_plain_iff (acyclic : Acyclic classes) {field : Field} :
    find? (plain acyclic own declared) name = some field ↔
      ∃ source, Provides classes own name source declared ∧
        last? (own source) name = some field := by
  constructor
  · intro found
    have present := find?_isSome_iff.mp (Option.isSome_of_eq_some found)
    obtain ⟨source, provides⟩ := exists_provider acyclic present
    rw [find?_plain acyclic provides] at found
    exact ⟨source, provides, found⟩
  · rintro ⟨source, provides, gives⟩
    exact (find?_plain acyclic provides).trans gives

end ApiScribe.Inheritance
