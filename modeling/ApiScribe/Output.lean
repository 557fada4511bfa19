import ApiScribe.FileTree.Basic

/-! Output of a run: files to save and problems to report, in the order in which
they come up. Deciding what to write is kept apart from writing it, so a dry
run goes through the same emissions. -/
namespace ApiScribe

/-- Why a declaration file is not what was asked for. -/
inductive RenderProblem where
  | repeatedName (name : String)
  | exportedBefore (name module owner : String)
  deriving DecidableEq, Repr

def RenderProblem.message : RenderProblem → String
  | .repeatedName name => "duplicate type name '" ++ name ++ "', later declaration skipped"
  | .exportedBefore name module owner =>
    "type name '" ++ name ++ "' of '" ++ module ++ "' is already exported by '" ++ owner ++
      "', not re-exported"

/-- A file to save or a problem with one. -/
inductive Emission where
  | file (path text : String)
  | problem (path : String) (problem : RenderProblem)
  deriving DecidableEq, Repr

/-- What saving has led to: the tree, the files saved and the errors. -/
structure Saved where
  tree : FileTree
  written : List String := []
  errors : List Error := []

namespace Saved

/-- Saves one file or reports one problem. A file that cannot be saved does not
keep the others from being saved. -/
def emit (dryRun : Bool) (saved : Saved) : Emission → Saved
  | .problem path problem =>
    { saved with errors := saved.errors ++ [.render path problem.message] }
  | .file path text =>
    if dryRun then saved
    else match saved.tree.save path text with
      | (tree, none) => { saved with tree, written := saved.written ++ [path] }
      | (tree, some error) =>
        { saved with tree, errors := saved.errors ++ [.render path error.message] }

/-- Goes through emissions one after the other. -/
def emitAll (dryRun : Bool) (saved : Saved) (emissions : List Emission) : Saved :=
  emissions.foldl (emit dryRun) saved

end Saved
end ApiScribe
