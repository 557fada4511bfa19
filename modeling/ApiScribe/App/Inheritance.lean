import ApiScribe.Schema.Registry

/-! Inheritance of fields. A class has the fields of its local bases, base by
base, and then its own; a field that is declared again replaces the earlier one
in its place. Each name is resolved once and remembered. -/
namespace ApiScribe.Inheritance

/-- Puts a field into a list, in the place of one of the same name. -/
def merge : List Field → Field → List Field
  | [], field => [field]
  | old :: rest, field => if old.name = field.name then field :: rest else old :: merge rest field

def mergeAll (fields added : List Field) : List Field := added.foldl merge fields

/-- Names that have been resolved, with their fields. -/
abbrev Memo := List (String × List Field)

/-- The class that a base names. Of several classes of one name it is the last. -/
def parent? (classes : List Declared) (base : String) : Option Declared :=
  classes.reverse.find? fun declared => declared.name == lastSegmentOf base

/-- What bases give to a class, base by base, and what has been resolved since.
Classes whose names are `inside` are passed over. -/
def inherit (classes : List Declared) (visit : Memo → Declared → List Field × Memo)
    (inside : List String) : List Field × Memo → List String → List Field × Memo
  | state, [] => state
  | (fields, memo), base :: rest =>
    match parent? classes base with
    | none => inherit classes visit inside (fields, memo) rest
    | some parent =>
      if inside.contains parent.name then inherit classes visit inside (fields, memo) rest
      else
        let (found, memo) := visit memo parent
        inherit classes visit inside (mergeAll fields found, memo) rest

/-- The fields of a class, given the names that are being resolved. Those are
passed over as bases, which ends every cycle. -/
def visit (classes : List Declared) (own : Declared → List Field) :
    Nat → List String → Memo → Declared → List Field × Memo
  | 0, _, memo, declared => (mergeAll [] (own declared), memo)
  | fuel + 1, resolving, memo, declared =>
    match memo.lookup declared.name with
    | some fields => (fields, memo)
    | none =>
      let inside := declared.name :: resolving
      let (inherited, memo) :=
        inherit classes (visit classes own fuel inside) inside ([], memo) declared.bases
      let fields := mergeAll inherited (own declared)
      (fields, (declared.name, fields) :: memo)

/-- Resolves classes one after the other. Each level of `visit` opens another
name, so there are no more levels than classes. -/
def resolveFrom (classes : List Declared) (own : Declared → List Field) :
    Memo → List Declared → List ClassFields
  | _, [] => []
  | memo, declared :: rest =>
    let (fields, memo) := visit classes own (classes.length + 1) [] memo declared
    ⟨declared.record, fields⟩ :: resolveFrom classes own memo rest

/-- The fields of each class of a family. -/
def resolve (classes : List Declared) (own : Declared → List Field) : List ClassFields :=
  resolveFrom classes own [] classes

end ApiScribe.Inheritance
