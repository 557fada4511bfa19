import ApiScribe.App.Analysis
import ApiScribe.Proofs.Inheritance.Resolution

/-! The families of models and serializers that the analysis of an application
resolves. Without classes of one name and without cycles of bases, every field
that the analysis shows comes from the body of the class that provides it. -/
namespace ApiScribe.App
open ApiScribe.Field (find? last? names)
open Inheritance

section Families
variable (extra : Config.Extraction) (tree : FileTree) (files : AppFiles)

/-- The classes in those files of an application that can be read. -/
def declaredClasses : List Declared :=
  Declared.ofFiles (classFiles files (readable ((roleFiles files).map (readFile tree))))

def registry : Registry := (Registry.ofExtraction extra).register (declaredClasses tree files)

def modelClasses : List Declared :=
  family (registry extra tree files) (declaredClasses tree files) .model

def serializerClasses : List Declared :=
  family (registry extra tree files) (declaredClasses tree files) .serializer

/-- The models that serializers of the application take fields from. -/
def modelIndex : ModelIndex := indexOf (analyze extra tree files).1.models

/-- What the body of a class gives to the serializers of the application. -/
def serializerBody (declared : Declared) : List Field :=
  (registry extra tree files).fields declared (modelIndex extra tree files)

theorem analyze_models : (analyze extra tree files).1.models =
    resolve (modelClasses extra tree files) ((registry extra tree files).fields · []) := rfl

theorem analyze_serializers : (analyze extra tree files).1.serializers =
    resolve (serializerClasses extra tree files) (serializerBody extra tree files) := rfl

end Families

variable {extra : Config.Extraction} {tree : FileTree} {files : AppFiles}

private theorem fields_of_model {registry : Registry}
    (model : registry.has declared .model = true) :
    registry.fields declared index = Field.declaredByModel declared :=
  if_pos model

private theorem fields_of_serializer {registry : Registry}
    (other : registry.has declared .model = false)
    (serializer : registry.has declared .serializer = true) :
    registry.fields declared index = Field.ofSerializer declared index := by
  rw [Registry.fields, other, serializer]
  rfl

theorem serializerBody_eq (other : (registry extra tree files).has declared .model = false)
    (member : declared ∈ serializerClasses extra tree files) :
    serializerBody extra tree files declared =
      Field.ofSerializer declared (modelIndex extra tree files) :=
  fields_of_serializer other (List.mem_filter.mp member).2

/-- The entry of a model has what the bodies of its line declare for models. -/
theorem model_fields (distinct : ((modelClasses extra tree files).map Declared.name).Nodup)
    (acyclic : Acyclic (modelClasses extra tree files))
    (member : declared ∈ modelClasses extra tree files)
    (listed : entry ∈ (analyze extra tree files).1.models)
    (same : entry.record = declared.record) :
    entry.fields = plain acyclic Field.declaredByModel declared := by
  rw [analyze_models] at listed
  rw [entry_fields distinct acyclic member listed same]
  exact plain_congr acyclic (fun found inside => fields_of_model (List.mem_filter.mp inside).2) member

/-- The entry of a serializer has what the bodies of its line give to serializers. -/
theorem serializer_fields
    (distinct : ((serializerClasses extra tree files).map Declared.name).Nodup)
    (acyclic : Acyclic (serializerClasses extra tree files))
    (member : declared ∈ serializerClasses extra tree files)
    (listed : entry ∈ (analyze extra tree files).1.serializers)
    (same : entry.record = declared.record) :
    entry.fields = plain acyclic (serializerBody extra tree files) declared := by
  rw [analyze_serializers] at listed
  exact entry_fields distinct acyclic member listed same

end ApiScribe.App
