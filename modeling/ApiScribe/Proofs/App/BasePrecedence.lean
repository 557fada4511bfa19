import ApiScribe.Proofs.App.Families

/-! Fields that several bases of a class have. The merge goes through the bases
in their order and lets the later one replace what the earlier one has given, so
the base that is listed last decides. The base that is listed first is heard only
where both bases have got the same field. -/
namespace ApiScribe.App
open ApiScribe.Field (find? last? names)
open Inheritance

/-- The classes that an analysis shows with fields in a role. -/
def shownIn (app : App) : Role → List ClassFields
  | .model => app.models
  | .serializer => app.serializers
  | .view => []

/-- The field of a name that an analysis shows for a class. -/
def shownField? (app : App) (role : Role) (declared : Declared) (name : String) : Option Field :=
  ((shownIn app role).find? fun entry => entry.record == declared.record).bind fun entry =>
    find? entry.fields name

/-- A class has a name of its own or from some class above it. -/
def Has (classes : List Declared) (own : Declared → List Field) (name : String)
    (declared : Declared) : Prop :=
  ∃ elder, InLine classes elder declared ∧ name ∈ names (own elder)

/-- The first and the last of several bases of a class that have a name. -/
structure Rivals (classes : List Declared) (own : Declared → List Field) (name : String)
    (child first last : Declared) : Prop where
  listed : ∃ before between after,
    parents classes child = before ++ first :: (between ++ last :: after) ∧
      ∀ base ∈ before ++ after, ¬ Has classes own name base
  firstHas : Has classes own name first
  lastHas : Has classes own name last

section Roles
variable (extra : Config.Extraction) (tree : FileTree) (files : AppFiles)

def roleClasses (role : Role) : List Declared :=
  family (registry extra tree files) (declaredClasses tree files) role

/-- What the body of a class gives to the classes of a role. -/
def roleBody : Role → Declared → List Field
  | .model => ((registry extra tree files).fields · [])
  | _ => serializerBody extra tree files

theorem shownIn_eq_resolve (fielded : role ≠ .view) :
    shownIn (analyze extra tree files).1 role =
      resolve (roleClasses extra tree files role) (roleBody extra tree files role) := by
  cases role with
  | model => exact analyze_models extra tree files
  | serializer => exact analyze_serializers extra tree files
  | view => exact absurd rfl fielded

end Roles

section Shown
variable {classes : List Declared} {own : Declared → List Field} {declared : Declared}

/-- Distinct classes are told apart by their records. -/
theorem find?_entry (distinct : (classes.map Declared.name).Nodup)
    (fields : Declared → List Field) (member : declared ∈ classes) :
    (classes.map fun found => ClassFields.mk found.record (fields found)).find?
        (fun entry => entry.record == declared.record) =
      some ⟨declared.record, fields declared⟩ := by
  induction classes with
  | nil => cases member
  | cons first rest ih =>
    obtain ⟨fresh, restDistinct⟩ := List.nodup_cons.mp distinct
    rw [List.map_cons]
    rcases List.mem_cons.mp member with rfl | later
    · exact List.find?_cons_of_pos (beq_self_eq_true declared.record)
    · have other : first.record ≠ declared.record := by
        intro same
        have sameName : first.name = declared.name := congrArg ClassRecord.name same
        exact fresh (sameName ▸ List.mem_map_of_mem later)
      rw [List.find?_cons_of_neg (by simpa using other)]
      exact ih restDistinct later

private theorem shownField?_eq_plain {extra : Config.Extraction} {tree : FileTree}
    {files : AppFiles} {role : Role} (fielded : role ≠ .view)
    (distinct : ((roleClasses extra tree files role).map Declared.name).Nodup)
    (acyclic : Acyclic (roleClasses extra tree files role))
    (member : declared ∈ roleClasses extra tree files role) (name : String) :
    shownField? (analyze extra tree files).1 role declared name =
      find? (plain acyclic (roleBody extra tree files role) declared) name := by
  rw [shownField?, shownIn_eq_resolve extra tree files fielded, resolve_eq_plain distinct acyclic,
    find?_entry distinct _ member]
  rfl

end Shown

section Rivals
variable {classes : List Declared} {own : Declared → List Field} {name : String}
  {child first last source : Declared}

private theorem Rivals.first_isBase (rivals : Rivals classes own name child first last) :
    IsBase classes first child := by
  obtain ⟨before, between, after, split, _⟩ := rivals.listed
  simp [IsBase, split]

private theorem Rivals.last_isBase (rivals : Rivals classes own name child first last) :
    IsBase classes last child := by
  obtain ⟨before, between, after, split, _⟩ := rivals.listed
  simp [IsBase, split]

/-- What provides a field to the last base provides it to a class whose own body
does not declare it. -/
theorem Rivals.provides (rivals : Rivals classes own name child first last)
    (undeclared : name ∉ names (own child)) (provides : Provides classes own name source last) :
    Provides classes own name source child := by
  obtain ⟨before, between, after, split, silent⟩ := rivals.listed
  have atLast : parents classes child = (before ++ first :: between) ++ last :: after := by
    rw [split, List.append_assoc, List.cons_append]
  refine .base undeclared atLast provides ?_
  intro other member elder inLine declares
  exact silent other (List.mem_append_right _ member) ⟨elder, inLine, declares⟩

private theorem Rivals.child_has (rivals : Rivals classes own name child first last) :
    Has classes own name child := by
  obtain ⟨elder, inLine, declares⟩ := rivals.firstHas
  exact ⟨elder, inLine.tail rivals.first_isBase, declares⟩

private theorem exists_provider_of_has (acyclic : Acyclic classes)
    (has : Has classes own name child) :
    ∃ source, Provides classes own name source child :=
  exists_provider acyclic ((mem_names_plain acyclic).mpr has)

/-- A class without local bases has nothing above it. -/
theorem eq_of_inLine_of_no_parents (none : parents classes child = [])
    (inLine : InLine classes source child) : source = child := by
  rcases Relation.ReflTransGen.cases_tail inLine with same | ⟨base, _, isBase⟩
  · exact same.symm
  · rw [IsBase, none] at isBase
    cases isBase

end Rivals

section Precedence
variable {extra : Config.Extraction} {tree : FileTree} {files : AppFiles} {role : Role}
  {name : String} {child first last : Declared}

/-- Of several bases that have a field the last one gives it to a class that does
not have it by itself. The class has what the first one gives exactly if the bodies
that provide the field to the class and to its first base declare it alike. -/
theorem first_base_wins_iff (fielded : role ≠ .view)
    (distinct : ((roleClasses extra tree files role).map Declared.name).Nodup)
    (acyclic : Acyclic (roleClasses extra tree files role))
    (member : child ∈ roleClasses extra tree files role)
    (rivals : Rivals (roleClasses extra tree files role) (roleBody extra tree files role) name
      child first last) :
    let shown := fun declared => shownField? (analyze extra tree files).1 role declared name
    (shown first).isSome ∧ (shown last).isSome ∧
      (name ∉ names (roleBody extra tree files role child) → shown child = shown last) ∧
      (shown child = shown first ↔ ∃ origin source,
        Provides (roleClasses extra tree files role) (roleBody extra tree files role) name
          origin first ∧
        Provides (roleClasses extra tree files role) (roleBody extra tree files role) name
          source child ∧
        last? (roleBody extra tree files role origin) name =
          last? (roleBody extra tree files role source) name) := by
  intro shown
  have provided : ∀ {declared source}, declared ∈ roleClasses extra tree files role →
      Provides (roleClasses extra tree files role) (roleBody extra tree files role) name
        source declared →
      shown declared = last? (roleBody extra tree files role source) name := by
    intro declared source inside provides
    rw [← find?_plain acyclic provides]
    exact shownField?_eq_plain fielded distinct acyclic inside name
  have first_mem := (isBase_mem rivals.first_isBase).1
  have last_mem := (isBase_mem rivals.last_isBase).1
  obtain ⟨origin, firstProvides⟩ := exists_provider_of_has acyclic rivals.firstHas
  obtain ⟨heard, lastProvides⟩ := exists_provider_of_has acyclic rivals.lastHas
  obtain ⟨source, childProvides⟩ := exists_provider_of_has acyclic rivals.child_has
  refine ⟨?_, ?_, fun undeclared => ?_, fun same => ?_, ?_⟩
  · rw [provided first_mem firstProvides]
    exact last?_isSome_iff.mpr firstProvides.declares
  · rw [provided last_mem lastProvides]
    exact last?_isSome_iff.mpr lastProvides.declares
  · rw [provided last_mem lastProvides]
    exact provided member (rivals.provides undeclared lastProvides)
  · rw [provided member childProvides, provided first_mem firstProvides] at same
    exact ⟨origin, source, firstProvides, childProvides, same.symm⟩
  · rintro ⟨origin, source, firstProvides, childProvides, same⟩
    rw [provided member childProvides, provided first_mem firstProvides, same]

end Precedence

/-- Two serializers that declare an amount each, and one that derives from both. -/
def orderTree : FileTree :=
  ⟨[(["shop"], .directory),
    (["shop", "serializers.py"], .file (.text
      "class Priced(Serializer):\n  amount = DecimalField()\n\nclass Counted(Serializer):\n  amount = IntegerField()\n\nclass Line(Priced, Counted):\n  pass\n"))]⟩

def orderFiles : AppFiles :=
  { name := "shop"
    rootPath := "shop"
    pythonFiles := ["shop/serializers.py"]
    modelFiles := []
    serializerFiles := ["shop/serializers.py"]
    viewFiles := []
    urlFiles := [] }

def orderSerializers : List Declared := roleClasses {} orderTree orderFiles .serializer

def orderBody : Declared → List Field := roleBody {} orderTree orderFiles .serializer

/-- The amount that the analysis shows for a serializer of the order. -/
def orderAmount? (declared : Declared) : Option Field :=
  shownField? (analyze {} orderTree orderFiles).1 .serializer declared "amount"

/-- The serializer of a line has two bases that declare an amount, of which
neither has a base. It has the amount of the second one. Lines rank the classes. -/
theorem order_checked : (orderSerializers.map Declared.name).Nodup ∧
    (∀ declared ∈ orderSerializers, ∀ base ∈ parents orderSerializers declared,
      base.definition.line < declared.definition.line) ∧
    ∃ child ∈ orderSerializers, "amount" ∉ names (orderBody child) ∧
      (parents orderSerializers child).map Declared.name = ["Priced", "Counted"] ∧
      (∀ base ∈ parents orderSerializers child,
        (parents orderSerializers base).isEmpty ∧ "amount" ∈ names (orderBody base)) ∧
      ((parents orderSerializers child).map fun base => (orderAmount? base).map Field.type) =
        [some .decimal, some .integer] ∧
      (orderAmount? child).map Field.type = some .integer := by
  decide +kernel

private theorem order_acyclic : Acyclic orderSerializers :=
  acyclic_of_rank (fun declared => declared.definition.line) order_checked.2.1

/-- The line with its two bases, which share nothing above them. -/
theorem order_rivals : ∃ child ∈ orderSerializers, ∃ first last,
    Rivals orderSerializers orderBody "amount" child first last ∧
      "amount" ∉ names (orderBody child) ∧
      (∀ elder, InLine orderSerializers elder first → ¬ InLine orderSerializers elder last) ∧
      (orderAmount? first).map Field.type = some .decimal ∧
      (orderAmount? child).map Field.type = some .integer := by
  obtain ⟨_, _, child, child_mem, undeclared, named, bare, types, childType⟩ := order_checked
  obtain ⟨first, rest, two, firstName, restNames⟩ := List.map_eq_cons_iff.mp named
  obtain ⟨last, none, rfl, lastName, noneNames⟩ := List.map_eq_cons_iff.mp restNames
  obtain rfl := List.map_eq_nil_iff.mp noneNames
  have first_mem : first ∈ parents orderSerializers child := by simp [two]
  have last_mem : last ∈ parents orderSerializers child := by simp [two]
  obtain ⟨firstBare, firstDeclares⟩ := bare first first_mem
  obtain ⟨lastBare, lastDeclares⟩ := bare last last_mem
  have apart : ∀ elder, InLine orderSerializers elder first →
      ¬ InLine orderSerializers elder last := by
    intro elder aboveFirst aboveLast
    have isFirst := eq_of_inLine_of_no_parents (List.isEmpty_iff.mp firstBare) aboveFirst
    have isLast := eq_of_inLine_of_no_parents (List.isEmpty_iff.mp lastBare) aboveLast
    rw [← isFirst, isLast, lastName] at firstName
    exact absurd firstName (by decide)
  have rivals : Rivals orderSerializers orderBody "amount" child first last :=
    { listed := ⟨[], [], [], two, fun base member => by cases member⟩
      firstHas := ⟨first, .refl, firstDeclares⟩
      lastHas := ⟨last, .refl, lastDeclares⟩ }
  rw [two] at types
  exact ⟨child, child_mem, first, last, rivals, undeclared, apart, (List.cons.inj types).1,
    childType⟩

theorem line_amount_of_last_base : (orderSerializers.map Declared.name).Nodup ∧
    Acyclic orderSerializers ∧ ∃ child ∈ orderSerializers, ∃ first last,
      Rivals orderSerializers orderBody "amount" child first last ∧
        (orderAmount? last).isSome ∧ orderAmount? child = orderAmount? last := by
  obtain ⟨child, member, first, last, rivals, undeclared, _⟩ := order_rivals
  obtain ⟨_, present, same, _⟩ := first_base_wins_iff (by decide) order_checked.1 order_acyclic
    member rivals
  exact ⟨order_checked.1, order_acyclic, child, member, first, last, rivals, present,
    same undeclared⟩

/-- The line does not have the amount of the base that it lists first. -/
theorem line_amount_not_of_first_base : (orderSerializers.map Declared.name).Nodup ∧
    Acyclic orderSerializers ∧ ∃ child ∈ orderSerializers, ∃ first last,
      Rivals orderSerializers orderBody "amount" child first last ∧
        "amount" ∉ names (orderBody child) ∧
        (∀ elder, InLine orderSerializers elder first → ¬ InLine orderSerializers elder last) ∧
        (orderAmount? first).isSome ∧ orderAmount? child ≠ orderAmount? first := by
  obtain ⟨child, member, first, last, rivals, undeclared, apart, firstType, childType⟩ :=
    order_rivals
  refine ⟨order_checked.1, order_acyclic, child, member, first, last, rivals, undeclared, apart,
    ?_, ?_⟩
  · rw [← Option.isSome_map, firstType]
    rfl
  · intro same
    rw [same, firstType] at childType
    cases childType

end ApiScribe.App
