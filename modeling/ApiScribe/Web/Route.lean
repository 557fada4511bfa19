import ApiScribe.Text.Cut
import ApiScribe.Text.Letter

/-! Routes as paths. A route pattern becomes a path with a placeholder in curly
brackets for each parameter, whichever way the pattern spells its parameters.
Every path begins and ends with a slash. -/
namespace ApiScribe.Route
open Text

/-- The name of a named group and the text after the group, given the text
after its opening bracket. The group ends at the first closing bracket. -/
def readGroup? (text : List Char) : Option (List Char × List Char) :=
  match text with
  | '?' :: 'P' :: '<' :: rest =>
    let name := rest.takeWhile isWordChar
    if name.isEmpty then none
    else match rest.dropWhile isWordChar with
      | '>' :: body =>
        match body.dropWhile (· ≠ ')') with
        | ')' :: after => some (name, after)
        | _ => none
      | _ => none
  | _ => none

/-- A word before a closing angle bracket and the text after the bracket. -/
def readClosedWord? (text : List Char) : Option (List Char × List Char) :=
  let word := text.takeWhile isWordChar
  if word.isEmpty then none
  else match text.dropWhile isWordChar with
    | '>' :: after => some (word, after)
    | _ => none

/-- The name of a converter and the text after it, given the text after its
opening bracket. A type may stand before the name. -/
def readConverter? (text : List Char) : Option (List Char × List Char) :=
  (readClosedWord? text).or
    (if (text.takeWhile isWordChar).isEmpty then none
    else match text.dropWhile isWordChar with
      | ':' :: rest => readClosedWord? rest
      | _ => none)

private theorem readGroup?_length {text name after : List Char}
    (read : readGroup? text = some (name, after)) : after.length < text.length := by
  unfold readGroup? at read
  split at read
  · next rest =>
    simp only at read
    split at read
    · simp at read
    · split at read
      · next body found =>
        split at read
        · next tail closed =>
          simp only [Option.some.injEq, Prod.mk.injEq] at read
          obtain ⟨-, rfl⟩ := read
          have first := (List.dropWhile_suffix isWordChar (l := rest)).length_le
          have second := (List.dropWhile_suffix (· ≠ ')') (l := body)).length_le
          rw [found] at first
          rw [closed] at second
          simp only [List.length_cons] at first second ⊢
          omega
        · simp at read
      · simp at read
  · simp at read

private theorem readClosedWord?_length {text word after : List Char}
    (read : readClosedWord? text = some (word, after)) : after.length < text.length := by
  unfold readClosedWord? at read
  simp only at read
  split at read
  · simp at read
  · split at read
    · next found =>
      simp only [Option.some.injEq, Prod.mk.injEq] at read
      obtain ⟨-, rfl⟩ := read
      have first := (List.dropWhile_suffix isWordChar (l := text)).length_le
      rw [found] at first
      simp only [List.length_cons] at first
      omega
    · simp at read

private theorem readConverter?_length {text name after : List Char}
    (read : readConverter? text = some (name, after)) : after.length < text.length := by
  unfold readConverter? at read
  rcases Option.or_eq_some_iff.mp read with plain | ⟨-, typed⟩
  · exact readClosedWord?_length plain
  · split at typed
    · simp at typed
    · split at typed
      · next rest found =>
        have first := (List.dropWhile_suffix isWordChar (l := text)).length_le
        have second := readClosedWord?_length typed
        rw [found] at first
        simp only [List.length_cons] at first
        omega
      · simp at typed

def placeholder (name : List Char) : List Char := '\x7b' :: name ++ ['\x7d']

/-- Writes a placeholder for each named group. -/
def replaceGroups : List Char → List Char
  | [] => []
  | c :: rest =>
    if c = '(' then
      match _read : readGroup? rest with
      | some (name, after) => placeholder name ++ replaceGroups after
      | none => c :: replaceGroups rest
    else c :: replaceGroups rest
termination_by text => text.length
decreasing_by
  · have shorter := readGroup?_length _read
    simp only [List.length_cons]
    omega
  · simp
  · simp

/-- Writes a placeholder for each converter. -/
def replaceConverters : List Char → List Char
  | [] => []
  | c :: rest =>
    if c = '<' then
      match _read : readConverter? rest with
      | some (name, after) => placeholder name ++ replaceConverters after
      | none => c :: replaceConverters rest
    else c :: replaceConverters rest
termination_by text => text.length
decreasing_by
  · have shorter := readConverter?_length _read
    simp only [List.length_cons]
    omega
  · simp
  · simp

/-- Drops the backslash before characters that paths are made of. -/
def unescape : List Char → List Char
  | '\\' :: '.' :: rest => '.' :: unescape rest
  | '\\' :: '-' :: rest => '-' :: unescape rest
  | '\\' :: '/' :: rest => '/' :: unescape rest
  | c :: rest => c :: unescape rest
  | [] => []

/-- A regular expression without its anchors, with its groups as placeholders. -/
def ofRegex (pattern : List Char) : List Char :=
  unescape (replaceGroups (dropTrailing '$' (pattern.dropWhile (· == '^'))))

/-- Adds the slashes that a path begins and ends with. -/
def withSlashes (path : List Char) : List Char :=
  let opened := if path.head? = some '/' then path else '/' :: path
  if opened.getLast? = some '/' then opened else opened ++ ['/']

/-- The path of a route pattern, which is a regular expression or plain. -/
def normalize (pattern : List Char) (regex : Bool) : List Char :=
  let text := trim pattern
  withSlashes (replaceConverters (if regex then ofRegex text else text))

/-- The path of a route below another one. -/
def join (base path : List Char) : List Char :=
  if base = [] ∨ base = ['/'] then path else dropTrailing '/' base ++ path

end ApiScribe.Route
