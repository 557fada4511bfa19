import ApiScribe.Path
import ApiScribe.Source.Block

/-! A source file: its path and the statements of its text. -/
namespace ApiScribe.Source

structure File where
  path : String
  block : Block

namespace File

/-- Reads the text of a file. Every text can be read. -/
def ofText (path text : String) : File := ⟨path, .ofLines (lines text.toList)⟩

/-- The module that a file is, which handles the requests of its functions. -/
def moduleName (file : File) : String := (Path.stem? file.path).getD ""

end File
end ApiScribe.Source
