import ApiScribe.Proofs.App.Families

/-! Names that `Meta` of a serializer lists. `Meta` adds the names that the body
does not declare, and the body is all that it sees: a field that a base declares
is made once more from the model, and what is made replaces what is inherited. -/
namespace ApiScribe
open ApiScribe.Field (find? last? names declaredBySerializer metaModel)
open Inheritance
open Source (Block)

namespace Field

/-- Whether `Meta` lists a name among its fields. -/
def ListedBy (options : Block) (name : String) : Prop :=
  ∃ value, options.value? "fields" = some value ∧ name ∈ value.strings

instance (options : Block) (name : String) : Decidable (ListedBy options name) :=
  inferInstanceAs (Decidable (∃ value ∈ options.value? "fields", name ∈ value.strings))

/-- The names that `Meta` excludes. -/
def excludedBy (options : Block) : List String :=
  ((options.value? "exclude").map Value.strings).getD []

/-- The field that `Meta` makes of a name, from the model or else of unknown type. -/
def madeByMeta (options : Block) (models : ModelIndex) (name : String) : Field :=
  (selected (metaModel options models) name).adjusted options

section Meta
variable {options : Block} {name : String}

private theorem selected_name (modelFields : List Field) (name : String) :
    (selected modelFields name).name = name := by
  rw [selected]
  cases found : find? modelFields name with
  | some field => exact name_of_find? found
  | none =>
    by_cases isId : name = "id"
    · rw [Option.getD_none, if_pos isId, isId]
      rfl
    · rw [Option.getD_none, if_neg isId]

private theorem withReadOnly_name (field : Field) (entry : Option Bool) :
    (field.withReadOnly entry).name = field.name := by
  rcases entry with _ | _ | _ <;> rfl

private theorem withWriteOnly_name (field : Field) (entry : Option Bool) :
    (field.withWriteOnly entry).name = field.name := by
  cases entry <;> rfl

private theorem withRequired_name (field : Field) (entry : Option Bool) :
    (field.withRequired entry).name = field.name := by
  cases entry <;> rfl

private theorem withOptions_name (field : Field) (options : Value) :
    (field.withOptions options).name = field.name := by
  rw [withOptions, withRequired_name, withWriteOnly_name, withReadOnly_name]

/-- `Meta` changes who writes a field and not what it is called. -/
theorem adjusted_name (options : Block) (field : Field) :
    (field.adjusted options).name = field.name := by
  rw [adjusted]
  split <;> split <;> first | rfl | exact withOptions_name _ _

theorem madeByMeta_name (options : Block) (models : ModelIndex) (name : String) :
    (madeByMeta options models name).name = name :=
  (adjusted_name options _).trans (selected_name _ name)

private theorem mem_missingNames {declared exclude wanted : List String} :
    name ∈ missingNames declared exclude wanted ↔
      name ∈ wanted ∧ name ∉ exclude ∧ name ∉ declared := by
  induction wanted generalizing declared with
  | nil => simp [missingNames]
  | cons first rest ih =>
    rw [missingNames, List.mem_cons]
    by_cases passed : (exclude.contains first || declared.contains first) = true
    · rw [if_pos passed, ih]
      have first_out : first ∈ exclude ∨ first ∈ declared := by simpa using passed
      constructor
      · exact fun ⟨later, kept⟩ => ⟨.inr later, kept⟩
      · rintro ⟨rfl | later, included, fresh⟩
        · exact absurd first_out (not_or.mpr ⟨included, fresh⟩)
        · exact ⟨later, included, fresh⟩
    · rw [if_neg passed, List.mem_cons, ih]
      have first_in : first ∉ exclude ∧ first ∉ declared := by simpa using passed
      by_cases same : name = first
      · simp [same, first_in]
      · simp [same]

private theorem selectedNames_of_listed (listed : ListedBy options name)
    (modelNames : List String) :
    name ∈ selectedNames options modelNames := by
  obtain ⟨value, set, member⟩ := listed
  rw [selectedNames, set]
  cases value with
  | str text => cases member
  | _ => exact member

/-- The last field that is made of a name, where each is made of its name alone. -/
theorem last?_map {make : String → Field} (keeps : ∀ name, (make name).name = name)
    (wanted : List String) :
    last? (wanted.map make) name = if name ∈ wanted then some (make name) else none := by
  induction wanted with
  | nil => rfl
  | cons first rest ih =>
    rw [List.map_cons, last?_cons, ih, keeps]
    by_cases later : name ∈ rest
    · rw [if_pos later, if_pos (List.mem_cons_of_mem _ later), Option.some_or]
    · rw [if_neg later, Option.none_or]
      by_cases same : first = name
      · simp [same]
      · simp [same, later, Ne.symm same]

/-- A listed name that the body does not declare is made by `Meta`. -/
theorem last?_ofSerializer {declared : Declared} {found : Source.ClassDef}
    (inner : declared.definition.inner? "Meta" = some found)
    (undeclared : name ∉ names (declaredBySerializer declared))
    (listed : ListedBy found.block name) (included : name ∉ excludedBy found.block)
    (models : ModelIndex) :
    last? (ofSerializer declared models) name = some (madeByMeta found.block models name) := by
  have wanted := mem_missingNames.mpr ⟨selectedNames_of_listed listed
    (names (metaModel found.block models)), included, undeclared⟩
  have made : last? (addedByMeta (declaredBySerializer declared) found.block models) name =
      some (madeByMeta found.block models name) :=
    (last?_map (madeByMeta_name found.block models) _).trans (if_pos wanted)
  rw [ofSerializer, inner]
  exact (last?_append ..).trans (made ▸ Option.some_or)

/-- What a serializer body declares it also has. -/
theorem mem_names_ofSerializer {declared : Declared}
    (declares : name ∈ names (declaredBySerializer declared)) (models : ModelIndex) :
    name ∈ names (ofSerializer declared models) := by
  rw [ofSerializer]
  cases declared.definition.inner? "Meta" with
  | none => exact declares
  | some found => simpa [names] using .inl (List.mem_map.mp declares)

end Meta

/-- Fields that agree in their type and in who writes them. -/
structure Agrees (found field : Field) : Prop where
  type : found.type = field.type
  readOnly : found.readOnly = field.readOnly
  required : found.required = field.required

end Field

namespace App
open ApiScribe.Field (ListedBy excludedBy madeByMeta Agrees)

/-- What the fields of a serializer are expected to hold of an inherited field. -/
def FieldKept (fields : List Field) (name : String) (field : Field) : Prop :=
  ∃ found, find? fields name = some found ∧ Agrees found field

/-- The body that provides a field gives one that agrees with the field. -/
def FieldReaches (classes : List Declared) (own : Declared → List Field) (child : Declared)
    (name : String) (field : Field) : Prop :=
  ∃ source given, Provides classes own name source child ∧
    last? (own source) name = some given ∧ Agrees given field

private theorem fieldKept_iff {classes : List Declared} (acyclic : Acyclic classes)
    (own : Declared → List Field) (child : Declared) (name : String) (field : Field) :
    FieldKept (plain acyclic own child) name field ↔ FieldReaches classes own child name field := by
  constructor
  · rintro ⟨found, foundField, agrees⟩
    obtain ⟨source, provides, gives⟩ := (find?_plain_iff acyclic).mp foundField
    exact ⟨source, found, provides, gives, agrees⟩
  · rintro ⟨source, given, provides, gives, agrees⟩
    exact ⟨given, (find?_plain_iff acyclic).mpr ⟨source, provides, gives⟩, agrees⟩

section Serializers
variable {extra : Config.Extraction} {tree : FileTree} {files : AppFiles} {name : String}

/-- A name that `Meta` of a serializer lists and the body does not declare is
made by `Meta`, whatever a base declares, unless `Meta` excludes it or the class
is a model too. What a base declares is kept then only if what is made agrees
with it, and in the other cases only if what the bases provide does. -/
theorem listed_field_kept_iff
    (distinct : ((serializerClasses extra tree files).map Declared.name).Nodup)
    (acyclic : Acyclic (serializerClasses extra tree files))
    (member : child ∈ serializerClasses extra tree files)
    (listed : entry ∈ (analyze extra tree files).1.serializers)
    (same : entry.record = child.record)
    (ancestor : Ancestor (serializerClasses extra tree files) elder child)
    (declares : last? (declaredBySerializer elder) name = some field)
    (undeclared : name ∉ names (declaredBySerializer child))
    (inner : child.definition.inner? "Meta" = some found) (selects : ListedBy found.block name) :
    ((registry extra tree files).has elder .model = false → name ∈ names entry.fields) ∧
      ((registry extra tree files).has child .model = false → name ∉ excludedBy found.block →
        find? entry.fields name =
            some (madeByMeta found.block (modelIndex extra tree files) name) ∧
          (FieldKept entry.fields name field ↔
            Agrees (madeByMeta found.block (modelIndex extra tree files) name) field)) ∧
      (FieldKept entry.fields name field ↔ FieldReaches (serializerClasses extra tree files)
        (serializerBody extra tree files) child name field) := by
  have elder_mem : elder ∈ serializerClasses extra tree files :=
    InLine.mem ancestor.to_reflTransGen member
  rw [serializer_fields distinct acyclic member listed same]
  refine ⟨fun notModel => ?_, fun notModel included => ?_, fieldKept_iff acyclic _ child name field⟩
  · have declared : name ∈ names (declaredBySerializer elder) :=
      last?_isSome_iff.mp (Option.isSome_of_eq_some declares)
    refine (mem_names_plain acyclic).mpr ⟨elder, ancestor.to_reflTransGen, ?_⟩
    rw [serializerBody_eq notModel elder_mem]
    exact Field.mem_names_ofSerializer declared _
  · have made : last? (serializerBody extra tree files child) name =
        some (madeByMeta found.block (modelIndex extra tree files) name) := by
      rw [serializerBody_eq notModel member]
      exact Field.last?_ofSerializer inner undeclared selects included _
    have own : name ∈ names (serializerBody extra tree files child) :=
      last?_isSome_iff.mp (Option.isSome_of_eq_some made)
    have replaced : find? (plain acyclic (serializerBody extra tree files) child) name =
        some (madeByMeta found.block (modelIndex extra tree files) name) :=
      (find?_plain acyclic (.own own)).trans made
    refine ⟨replaced, ?_⟩
    constructor
    · rintro ⟨field, foundField, agrees⟩
      rw [replaced] at foundField
      cases foundField
      exact agrees
    · exact fun agrees => ⟨_, replaced, agrees⟩

end Serializers

/-- A serializer that declares a date and one that derives from it and lists the date. -/
def journalTree : FileTree :=
  ⟨[(["journal"], .directory),
    (["journal", "serializers.py"], .file (.text
      "class Base(ModelSerializer):\n  at = DateField()\n\nclass Note(Base):\n  class Meta:\n    fields = ['at']\n"))]⟩

def journalFiles : AppFiles :=
  { name := "journal"
    rootPath := "journal"
    pythonFiles := ["journal/serializers.py"]
    modelFiles := []
    serializerFiles := ["journal/serializers.py"]
    viewFiles := []
    urlFiles := [] }

def journalSerializers : List Declared := serializerClasses {} journalTree journalFiles

/-- In the journal a serializer lists a date that its base declares, and has
a field of unknown type instead. Lines rank the classes. -/
theorem journal_checked : (journalSerializers.map Declared.name).Nodup ∧
    (∀ declared ∈ journalSerializers, ∀ base ∈ parents journalSerializers declared,
      base.definition.line < declared.definition.line) ∧
    ∃ elder ∈ journalSerializers, ∃ child ∈ journalSerializers,
      elder.name ∈ (parents journalSerializers child).map Declared.name ∧
      "at" ∉ names (declaredBySerializer child) ∧
      (registry {} journalTree journalFiles).has child .model = false ∧
      (∃ field ∈ last? (declaredBySerializer elder) "at", field.type = .date) ∧
      (∃ found ∈ child.definition.inner? "Meta", ListedBy found.block "at" ∧
        "at" ∉ excludedBy found.block) ∧
      ∃ entry ∈ (analyze {} journalTree journalFiles).1.serializers,
        entry.record = child.record ∧
          (find? entry.fields "at").map Field.type = some .unknown := by
  decide +kernel

private theorem journal_acyclic : Acyclic journalSerializers :=
  acyclic_of_rank (fun declared => declared.definition.line) journal_checked.2.1

theorem journal_date_made : ∃ elder child entry found,
    Ancestor journalSerializers elder child ∧
    entry ∈ (analyze {} journalTree journalFiles).1.serializers ∧
    entry.record = child.record ∧ child.definition.inner? "Meta" = some found ∧
    find? entry.fields "at" = some (madeByMeta found.block
      (modelIndex {} journalTree journalFiles) "at") := by
  obtain ⟨distinct, _, elder, elder_mem, child, child_mem, base, undeclared, notModel,
    ⟨field, declares, _⟩, ⟨found, inner, selects, included⟩, entry, listed, same, _⟩ :=
    journal_checked
  have ancestor : Ancestor journalSerializers elder child :=
    .single (isBase_of_name distinct elder_mem base)
  exact ⟨elder, child, entry, found, ancestor, listed, same, inner,
    ((listed_field_kept_iff distinct journal_acyclic child_mem listed same ancestor declares
      undeclared inner selects).2.1 notModel included).1⟩

/-- The declared date of the journal is not kept. -/
theorem journal_date_not_kept :
    (journalSerializers.map Declared.name).Nodup ∧ Acyclic journalSerializers ∧
      ∃ elder child field found entry, child ∈ journalSerializers ∧
        entry ∈ (analyze {} journalTree journalFiles).1.serializers ∧
        entry.record = child.record ∧ Ancestor journalSerializers elder child ∧
        last? (declaredBySerializer elder) "at" = some field ∧
        "at" ∉ names (declaredBySerializer child) ∧
        child.definition.inner? "Meta" = some found ∧ ListedBy found.block "at" ∧
        ¬ FieldKept entry.fields "at" field := by
  obtain ⟨distinct, _, elder, elder_mem, child, child_mem, base, undeclared, _,
    ⟨field, declares, isDate⟩, ⟨found, inner, selects, _⟩, entry, listed, same, unknown⟩ :=
    journal_checked
  refine ⟨distinct, journal_acyclic, elder, child, field, found, entry, child_mem, listed, same,
    .single (isBase_of_name distinct elder_mem base), declares, undeclared, inner, selects, ?_⟩
  rintro ⟨kept, here, agrees⟩
  rw [here, Option.map_some, agrees.type, isDate] at unknown
  cases unknown

end App
end ApiScribe
