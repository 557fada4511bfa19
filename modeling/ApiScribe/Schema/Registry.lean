import ApiScribe.Config.Basic
import ApiScribe.Schema.Field
import ApiScribe.Source.File

/-! Roles of classes. A class has a role when one of its bases is a framework
base of that role or a class of the same application that has it. Local classes
are learned until nothing new is learned, so the order of declarations does not
matter to chains of bases. -/
namespace ApiScribe
open Text Source

inductive Role where
  | serializer
  | view
  | model
  deriving DecidableEq, Repr

/-- The order in which a class is tried for a role. -/
def Role.inOrder : List Role := [.model, .serializer, .view]

/-- A class definition with the module that it stands in. -/
structure Declared where
  file : String
  module : Block
  definition : ClassDef

namespace Declared

def name (declared : Declared) : String := declared.definition.name

def bases (declared : Declared) : List String := declared.definition.bases

def record (declared : Declared) : ClassRecord :=
  let found := declared.definition
  ⟨found.name, declared.file, found.line, found.bases, found.docstring⟩

/-- The classes at the top of files, in file and then source order. -/
def ofFiles (files : List File) : List Declared :=
  files.flatMap fun file => file.block.classes.map fun found => ⟨file.path, file.block, found⟩

end Declared

/-- The last name of a base without its subscript. -/
def baseName (base : String) : String :=
  String.ofList (lastSegment (trim (base.toList.takeWhile (· ≠ '['))))

/-- A local class with its role and the framework base that it comes from. -/
structure LocalRoot where
  name : String
  role : Role
  root : String
  deriving DecidableEq, Repr

/-- Framework bases by role and the local classes learned so far. -/
structure Registry where
  serializerBases : List String
  viewBases : List String
  modelBases : List String
  roots : List LocalRoot := []

namespace Registry

def builtinSerializers : List String :=
  ["BaseSerializer", "Serializer", "ModelSerializer", "HyperlinkedModelSerializer",
    "ListSerializer"]

def builtinViews : List String :=
  ["View", "APIView", "GenericAPIView", "CreateAPIView", "ListAPIView", "RetrieveAPIView",
    "UpdateAPIView", "DestroyAPIView", "ListCreateAPIView", "RetrieveUpdateAPIView",
    "RetrieveDestroyAPIView", "RetrieveUpdateDestroyAPIView", "ViewSetMixin", "ViewSet",
    "GenericViewSet", "ModelViewSet", "ReadOnlyModelViewSet"]

def builtinModels : List String := ["Model", "AbstractUser", "AbstractBaseUser"]

/-- The registry that knows the framework bases and those a project adds. -/
def ofExtraction (extra : Config.Extraction) : Registry :=
  { serializerBases := builtinSerializers ++ extra.serializerBases
    viewBases := builtinViews ++ extra.viewBases
    modelBases := builtinModels ++ extra.modelBases }

def table (registry : Registry) : Role → List String
  | .serializer => registry.serializerBases
  | .view => registry.viewBases
  | .model => registry.modelBases

def root? (registry : Registry) (name : String) : Option LocalRoot :=
  registry.roots.find? fun root => root.name == name

/-- The framework base that one base of the class `owner` leads to. A class
does not get a role from its own name. -/
def rootOf? (registry : Registry) (owner : String) (role : Role) (base : String) :
    Option String :=
  let name := baseName base
  if (registry.table role).contains name then some name
  else match registry.root? name with
    | some found => if found.role = role ∧ name ≠ owner then some found.root else none
    | none => none

/-- The framework base that a class derives from in a role, by its first base
that leads to one. -/
def rootBase? (registry : Registry) (declared : Declared) (role : Role) : Option String :=
  declared.bases.findSome? (registry.rootOf? declared.name role)

/-- Whether a class has a role. -/
def has (registry : Registry) (declared : Declared) (role : Role) : Bool :=
  (registry.rootBase? declared role).isSome

/-- What is learned about a class: its first role, if it has one. -/
def learn? (registry : Registry) (declared : Declared) : Option LocalRoot :=
  Role.inOrder.findSome? fun role =>
    (registry.rootBase? declared role).map fun root => ⟨declared.name, role, root⟩

/-- Learns a class whose name is not known yet. -/
def learn (registry : Registry) (declared : Declared) : Registry :=
  if (registry.root? declared.name).isSome then registry
  else match registry.learn? declared with
    | some root => { registry with roots := registry.roots ++ [root] }
    | none => registry

/-- Learns classes one after the other. -/
def pass (registry : Registry) (classes : List Declared) : Registry :=
  classes.foldl learn registry

/-- Learns classes in `rounds` passes. -/
def passes (classes : List Declared) : Nat → Registry → Registry
  | 0, registry => registry
  | rounds + 1, registry => passes classes rounds (registry.pass classes)

/-- Learns the roles of classes that derive from each other. A pass that learns
something learns a new name, so there are no more such passes than classes. -/
def register (registry : Registry) (classes : List Declared) : Registry :=
  passes classes classes.length registry

end Registry
end ApiScribe
