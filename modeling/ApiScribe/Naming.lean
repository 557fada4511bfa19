import ApiScribe.Text.Cut

/-! Spellings of a name. The same words appear as types, path segments,
constants and headings, each with its own rule for capitals and separators.
All rules are about ASCII; other characters separate words of a pascal or
constant spelling and are kept by the others. -/
namespace ApiScribe.Naming
open Text

/-- A word with its first character raised. -/
def capitalized : List Char → List Char
  | [] => []
  | c :: rest => c.toUpper :: rest

private def namedWords (separator : Char → Bool) (name : List Char) : List (List Char) :=
  (splitAt separator name).filter (!·.isEmpty)

/-- `order_line` as `OrderLine`. Capitals inside a word stay, so a name already
in this spelling is kept. -/
def pascal (name : List Char) : List Char :=
  ((namedWords (fun c => !c.isAlphanum) name).map capitalized).flatten

/-- `partial_update` as `Partial Update`. -/
def title (name : List Char) : List Char :=
  joined [' '] ((namedWords (fun c => c == '_' || c == '-') name).map capitalized)

/-- Whether a capital opens a new word: after a small letter or digit, or as
the last capital of a run that a small letter follows. -/
def opensWord (before : Option Char) (c : Char) (rest : List Char) : Bool :=
  match before with
  | none => false
  | some b =>
    c.isUpper && (b.isLower || b.isDigit ||
      (b.isUpper && (match rest with | [] => false | next :: _ => next.isLower)))

/-- Whether a dash may follow what has been written: there is something, and it
does not end in a dash. -/
def admitsDash (written : Option Char) : Bool :=
  written.isSome && written != some '-'

def isKebabSeparator (c : Char) : Bool := c == '_' || c == ' ' || c == '-'

/-- Kebab spelling of the rest of a name, given the character read last and the
character written last. A dash may remain at the end. -/
def kebabFrom (before written : Option Char) : List Char → List Char
  | [] => []
  | c :: rest =>
    if isKebabSeparator c then
      if admitsDash written then '-' :: kebabFrom (some c) (some '-') rest
      else kebabFrom (some c) written rest
    else
      let tail := c.toLower :: kebabFrom (some c) (some c.toLower) rest
      if opensWord before c rest && admitsDash written then '-' :: tail else tail

/-- `APIKey` as `api-key`: a run of capitals is one word up to its last
capital, which belongs to the small letters after it. -/
def kebab (name : List Char) : List Char := dropTrailing '-' (kebabFrom none none name)

/-- Raised letters and digits with one underscore for each run of anything
else that follows a written character. -/
def constantFrom (written : Option Char) : List Char → List Char
  | [] => []
  | c :: rest =>
    if c.isAlphanum then c.toUpper :: constantFrom (some c.toUpper) rest
    else if written.isSome && written != some '_' then '_' :: constantFrom (some '_') rest
    else constantFrom written rest

/-- The symbol of an enumeration member. What would be empty or begin with a
digit gets the word `VALUE`, because neither is an identifier. -/
def constant (name : List Char) : List Char :=
  match dropTrailing '_' (constantFrom none name) with
  | [] => "VALUE".toList
  | c :: rest => if c.isDigit then "VALUE_".toList ++ c :: rest else c :: rest

/-- A name without `tail`, unless nothing would remain. -/
def withoutTail (tail name : List Char) : List Char :=
  match dropTail? tail name with
  | some (c :: rest) => c :: rest
  | _ => name

end ApiScribe.Naming
