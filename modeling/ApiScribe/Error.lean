/-! Errors and warnings as causes. What a cause says is decided here and nowhere
else; each kind of error opens its message with words of its own. -/
namespace ApiScribe

/-- Why a file could not be read or written. -/
inductive FileError where
  | missing
  | exists
  | notDirectory
  | isDirectory
  | notText
  deriving DecidableEq, Repr

def FileError.message : FileError → String
  | .missing => "No such file or directory (os error 2)"
  | .exists => "File exists (os error 17)"
  | .notDirectory => "Not a directory (os error 20)"
  | .isDirectory => "Is a directory (os error 21)"
  | .notText => "stream did not contain valid UTF-8"

/-- An error by its kind. -/
inductive Error where
  | validation (message : String)
  | extraction (file message : String)
  | render (path message : String)
  | io (message : String)
  | config (message : String)
  | serialization (message : String)
  deriving DecidableEq, Repr

def Error.message : Error → String
  | .validation message => "Validation error: " ++ message
  | .extraction file message => "Extraction warning " ++ file ++ ": " ++ message
  | .render path message => "Render error " ++ path ++ ": " ++ message
  | .io message => "IO error: " ++ message
  | .config message => "Configuration error: " ++ message
  | .serialization message => "Serialization error: " ++ message

/-- What keeps a source file from being documented in full. -/
inductive Warning where
  /-- A verb that has no endpoint, on the view or function that asks for it. -/
  | unsupportedVerb (file verb owner : String)
  | unreadable (file : String) (cause : FileError)
  deriving DecidableEq, Repr

def Warning.message : Warning → String
  | .unsupportedVerb file verb owner =>
    (Error.extraction file
      ("unsupported HTTP method '" ++ verb ++ "' on " ++ owner)).message
  | .unreadable file cause =>
    (Error.extraction file ("Failed to read file: " ++ file ++ ": " ++ cause.message)).message

end ApiScribe
