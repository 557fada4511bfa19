import ApiScribe.Error
import ApiScribe.Path

/-! File trees. A tree maps the names below its root to directories and files;
the root is a directory that is always there. Following a path can fail only
where a name is missing or stands for a file that should be a directory. -/
namespace ApiScribe
open Text

/-- The content of a file. Bytes that are no text are kept as bytes. -/
inductive Content where
  | text (text : String)
  | binary (bytes : List UInt8)
  deriving DecidableEq, Repr

def Content.ofBytes (bytes : ByteArray) : Content :=
  match String.fromUTF8? bytes with
  | some found => .text found
  | none => .binary bytes.toList

inductive Node where
  | directory
  | file (content : Content)
  deriving DecidableEq, Repr

/-- A place in a tree: the names that lead to it from the root. -/
abbrev Place := List String

structure FileTree where
  nodes : List (Place × Node)
  deriving Repr

namespace FileTree

def empty : FileTree := ⟨[]⟩

/-- What stands at a place. -/
def node? (tree : FileTree) (place : Place) : Option Node :=
  if place = [] then some .directory else tree.nodes.lookup place

/-- Puts a node at a place, instead of what stood there. -/
def put (tree : FileTree) (place : Place) (node : Node) : FileTree :=
  ⟨(place, node) :: tree.nodes.filter fun entry => entry.1 != place⟩

theorem node?_put (tree : FileTree) (place : Place) (node : Node) (inside : place ≠ []) :
    (tree.put place node).node? place = some node := by
  rw [node?, if_neg inside, put, List.lookup_cons_self]

/-- Other places hold what they held. -/
theorem node?_put_of_ne (tree : FileTree) {place other : Place} (node : Node)
    (apart : other ≠ place) : (tree.put place node).node? other = tree.node? other := by
  have kept : (tree.nodes.filter fun entry => entry.1 != place).lookup other =
      tree.nodes.lookup other := by
    induction tree.nodes with
    | nil => rfl
    | cons entry rest ih =>
      obtain ⟨found, held⟩ := entry
      by_cases replaced : found = place
      · have passed : (other == found) = false := by simpa [replaced] using apart
        rw [List.filter_cons_of_neg (by simpa using replaced), ih, List.lookup_cons, passed]
      · rw [List.filter_cons_of_pos (by simpa using replaced), List.lookup_cons,
          List.lookup_cons, ih]
  have different : (other == place) = false := by simpa using apart
  by_cases root : other = []
  · rw [node?, node?, if_pos root, if_pos root]
  · rw [node?, node?, if_neg root, if_neg root, put, List.lookup_cons, different]
    exact kept

/-- Everything that one tree holds is in another one, which may hold more. -/
def Extends (before after : FileTree) : Prop :=
  ∀ place node, before.node? place = some node → after.node? place = some node

theorem Extends.refl (tree : FileTree) : tree.Extends tree := fun _ _ held => held

private theorem Extends.trans {before between after : FileTree} (first : before.Extends between)
    (second : between.Extends after) : before.Extends after :=
  fun place node held => second place node (first place node held)

/-- Removes a place and all places below it. -/
def drop (tree : FileTree) (place : Place) : FileTree :=
  ⟨tree.nodes.filter fun entry => !place.isPrefixOf entry.1⟩

/-- The names that a path goes through. -/
def steps (path : String) : List String :=
  ((splitAt (· == '/') path.toList).filter (!·.isEmpty)).map String.ofList

/-- Follows names from a place. Every name but the last has to lead to a
directory; whether the last one leads anywhere is left open. -/
def follow (tree : FileTree) (place : Place) : List String → Except FileError Place
  | [] => .ok place
  | name :: rest =>
    match tree.node? place with
    | none => .error .missing
    | some (.file _) => .error .notDirectory
    | some .directory =>
      if name = "." then tree.follow place rest
      else if name = ".." then tree.follow place.dropLast rest
      else tree.follow (place ++ [name]) rest

/-- The place that a path leads to, which may hold nothing. -/
def locate (tree : FileTree) (path : String) : Except FileError Place :=
  if path.isEmpty then .error .missing else tree.follow [] (steps path)

/-- What stands at a path. With a slash at its end it names a directory only. -/
def look (tree : FileTree) (path : String) : Except FileError (Place × Node) :=
  match tree.locate (if endsWith path "/" then path ++ "." else path) with
  | .error cause => .error cause
  | .ok place =>
    match tree.node? place with
    | none => .error .missing
    | some node => .ok (place, node)

def directory? (tree : FileTree) (path : String) : Option Place :=
  match tree.look path with
  | .ok (place, .directory) => some place
  | _ => none

def isDirectory (tree : FileTree) (path : String) : Bool := (tree.directory? path).isSome

def isFile (tree : FileTree) (path : String) : Bool :=
  match tree.look path with
  | .ok (_, .file _) => true
  | _ => false

def holds (tree : FileTree) (path : String) : Bool :=
  match tree.look path with
  | .ok _ => true
  | .error _ => false

/-- The text of a file. -/
def read (tree : FileTree) (path : String) : Except FileError String :=
  match tree.look path with
  | .error cause => .error cause
  | .ok (_, .directory) => .error .isDirectory
  | .ok (_, .file (.text text)) => .ok text
  | .ok (_, .file (.binary _)) => .error .notText

/-- Makes one directory, in a directory that is there. -/
def makeDirectory (tree : FileTree) (path : String) : Except FileError FileTree :=
  match tree.locate path with
  | .error cause => .error cause
  | .ok place =>
    match tree.node? place with
    | some _ => .error .exists
    | none => .ok (tree.put place .directory)

private theorem makeDirectory_extends {tree made : FileTree} {path : String}
    (ran : tree.makeDirectory path = .ok made) : tree.Extends made := by
  rw [makeDirectory] at ran
  cases located : tree.locate path with
  | error cause => simp [located] at ran
  | ok place =>
    cases empty : tree.node? place with
    | some node => simp [located, empty] at ran
    | none =>
      simp only [located, empty, Except.ok.injEq] at ran
      subst ran
      intro other node held
      have apart : other ≠ place := by
        rintro rfl
        rw [empty] at held
        cases held
      rw [node?_put_of_ne tree .directory apart, held]

private def orThere (tree : FileTree) (path : String) (cause : FileError) :
    FileTree × Option FileError :=
  (tree, if tree.isDirectory path then none else some cause)

private def makeAbove (tree : FileTree) (path : String) : Nat → FileTree × Option FileError
  | 0 => (tree, some .missing)
  | fuel + 1 =>
    if path.isEmpty then (tree, none)
    else match tree.makeDirectory path with
      | .ok made => (made, none)
      | .error .missing =>
        match (Path.parent? path).map (tree.makeAbove · fuel) with
        | none => (tree, some .missing)
        | some (above, some cause) => (above, some cause)
        | some (above, none) =>
          match above.makeDirectory path with
          | .ok made => (made, none)
          | .error cause => orThere above path cause
      | .error cause => orThere tree path cause

private theorem makeAbove_extends (tree : FileTree) (path : String) (fuel : Nat) :
    tree.Extends (tree.makeAbove path fuel).1 := by
  induction fuel generalizing path with
  | zero => exact .refl tree
  | succ fuel ih =>
    rw [makeAbove]
    split
    · exact .refl tree
    · split
      · next made => exact makeDirectory_extends made
      · split
        · exact .refl tree
        · next above cause found =>
          obtain ⟨parent, _, ran⟩ := Option.map_eq_some_iff.mp found
          have reached := ih parent
          rwa [ran] at reached
        · next above found =>
          obtain ⟨parent, _, ran⟩ := Option.map_eq_some_iff.mp found
          have reached := ih parent
          rw [ran] at reached
          split
          · next made => exact reached.trans (makeDirectory_extends made)
          · exact reached
      · exact .refl tree

/-- Makes a directory and those above it that are missing. What was made stays
also when a later step fails. A parent is shorter than its path, so the length
of the path is enough steps. -/
def makeDirectories (tree : FileTree) (path : String) : FileTree × Option FileError :=
  tree.makeAbove path (path.length + 1)

/-- Making directories neither removes nor replaces anything, whether or not it
comes to its end. -/
theorem makeDirectories_extends (tree : FileTree) (path : String) :
    tree.Extends (tree.makeDirectories path).1 := makeAbove_extends tree path _

private theorem makeAbove_fuel (tree : FileTree) {fuel other : Nat} (enough : path.length < fuel)
    (otherEnough : path.length < other) (regular : Path.Regular path) :
    tree.makeAbove path fuel = tree.makeAbove path other := by
  induction fuel generalizing path other with
  | zero => omega
  | succ fuel ih =>
    cases other with
    | zero => omega
    | succ other =>
      rcases regular with rfl | rfl | closed
      · rfl
      · rfl
      · obtain ⟨parent, _, _, found, _, _, shorter, above⟩ := Path.parent?_closed closed
        have same : tree.makeAbove parent fuel = tree.makeAbove parent other :=
          ih (by omega) (by omega) above
        simp only [makeAbove, found, Option.map_some, same]

/-- Makes the directory itself, or after those above it if they are missing. -/
theorem makeDirectories_eq (tree : FileTree) (regular : Path.Regular path) :
    tree.makeDirectories path =
      let orThere (tree : FileTree) (cause : FileError) :=
        (tree, if tree.isDirectory path then none else some cause)
      if path.isEmpty then (tree, none)
      else match tree.makeDirectory path with
        | .ok made => (made, none)
        | .error .missing =>
          match (Path.parent? path).map tree.makeDirectories with
          | none => (tree, some .missing)
          | some (above, some cause) => (above, some cause)
          | some (above, none) =>
            match above.makeDirectory path with
            | .ok made => (made, none)
            | .error cause => orThere above cause
        | .error cause => orThere tree cause := by
  rcases regular with rfl | rfl | closed
  · rfl
  · rfl
  · obtain ⟨parent, _, _, found, _, _, shorter, above⟩ := Path.parent?_closed closed
    have same : tree.makeAbove parent path.length = tree.makeDirectories parent :=
      makeAbove_fuel tree shorter (Nat.lt_succ_self _) above
    rw [makeDirectories, makeAbove, found, Option.map_some, Option.map_some, same]
    rfl

/-- Writes a file in a directory that is there, over a file of that name. -/
def write (tree : FileTree) (path : String) (content : Content) : Except FileError FileTree :=
  if endsWith path "/" then
    match tree.look path with
    | .error .notDirectory => .error .notDirectory
    | _ => .error .isDirectory
  else
    match tree.locate path with
    | .error cause => .error cause
    | .ok place =>
      match tree.node? place with
      | some .directory => .error .isDirectory
      | _ => .ok (tree.put place (.file content))

/-- Removes what stands at a path, if anything does. -/
def remove (tree : FileTree) (path : String) : FileTree :=
  match tree.look path with
  | .ok (place, _) => tree.drop place
  | .error _ => tree

/-- The order of places: names one after the other, a directory before what is
in it. -/
def placeLe : Place → Place → Bool
  | [], _ => true
  | _ :: _, [] => false
  | left :: lefts, right :: rights => left < right || (left == right && placeLe lefts rights)

/-- Everything below a place, by the names from there on, in the order of places. -/
def below (tree : FileTree) (place : Place) : List (Place × Node) :=
  let inside := tree.nodes.filterMap fun (found, node) =>
    if place.isPrefixOf found && found != place then some (found.drop place.length, node)
    else none
  inside.mergeSort fun left right => placeLe left.1 right.1

end FileTree

/-- Which step of saving a file failed. -/
inductive SaveError where
  | directory (path : String) (cause : FileError)
  | file (path : String) (cause : FileError)
  deriving DecidableEq, Repr

namespace SaveError

def cause : SaveError → FileError
  | .directory _ cause => cause
  | .file _ cause => cause

/-- What failed, without its cause. -/
def summary : SaveError → String
  | .directory path _ => "Failed to create directory: " ++ path
  | .file path _ => "Failed to write to file: " ++ path

/-- What failed and why. The cause stands there as an error and by itself. -/
def message (error : SaveError) : String :=
  error.summary ++ ": " ++ (Error.io error.cause.message).message ++ ": " ++ error.cause.message

end SaveError

/-- Saves a text under a path, with the directories that it needs. -/
def FileTree.save (tree : FileTree) (path text : String) : FileTree × Option SaveError :=
  let (tree, failed) := match Path.parent? path with
    | none => (tree, none)
    | some parent =>
      let (made, cause) := tree.makeDirectories parent
      (made, cause.map (SaveError.directory parent))
  match failed with
  | some error => (tree, some error)
  | none =>
    match tree.write path (.text text) with
    | .error cause => (tree, some (.file path cause))
    | .ok saved => (saved, none)

end ApiScribe
