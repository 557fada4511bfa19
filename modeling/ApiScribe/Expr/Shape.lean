import ApiScribe.Expr.Literal
import ApiScribe.Expr.Number
import ApiScribe.Text.Letter

/-! The outermost shape of an expression: what its text is made of, with the
texts of its parts still unread. A text has exactly one shape, found by trying
the shapes in a fixed order, and every part is strictly shorter than the whole. -/
namespace ApiScribe.Expr
open Text

/-- Names joined by single points. -/
def isDottedName : List Char → Bool
  | [] => false
  | c :: rest =>
    (isLetter c || c == '_') && (c :: rest).getLast? != some '.' &&
      !contains ['.', '.'] (c :: rest) &&
      rest.all fun c => isAlphanumeric c || c == '_' || c == '.'

def isIdentifier (text : List Char) : Bool := isDottedName text && !text.contains '.'

/-- The outermost shape of an expression. -/
inductive Shape where
  | atom (value : Value)
  | group (inside : List Char)
  | list (items : List (List Char))
  | tuple (items : List (List Char))
  | dict (entries : List (List Char × List Char))
  | call (callee : String) (args : List (List Char)) (named : List (String × List Char))

/-- The texts that a shape leaves to be read. -/
def Shape.parts : Shape → List (List Char)
  | .atom _ => []
  | .group inside => [inside]
  | .list items => items
  | .tuple items => items
  | .dict entries => entries.flatMap fun entry => [entry.1, entry.2]
  | .call _ args named => args ++ named.map (·.2)

/-- The name and value of a named argument. A doubled equals sign compares. -/
def cutNamed? (arg : List Char) : Option (String × List Char) :=
  match cutTopLevel? '=' arg with
  | none => none
  | some (left, right) =>
    if right.head? == some '=' || !isIdentifier (trim left) then none
    else some (String.ofList (trim left), right)

/-- The callee and the text of the arguments, if a text is one call. -/
def cutCall? (text : List Char) : Option (String × List Char) :=
  let callee := text.takeWhile (· ≠ '(')
  if isDottedName (trim callee) then
    (enclosed? (text.drop callee.length)).map fun inside => (String.ofList (trim callee), inside)
  else none

/-- The shape of a call with the given text of arguments. Unpacked arguments
are left out. -/
def callShape (callee : String) (inside : List Char) : Shape :=
  let pieces := (splitTopLevel ',' inside).filter fun piece => piece.head? != some '*'
  .call callee (pieces.filter fun piece => (cutNamed? piece).isNone) (pieces.filterMap cutNamed?)

/-- The shape of a text in round brackets. A single item makes a tuple only
with a comma behind it. -/
def groupShape (inside : List Char) : Shape :=
  if isBlankLine inside then .tuple []
  else
    let items := splitTopLevel ',' inside
    if items.length = 1 && (trimEnd inside).getLast? != some ',' then .group inside
    else .tuple items

/-- The shape of a text in curly brackets; none if an item has no colon. -/
def dictShape? (inside : List Char) : Option Shape :=
  ((splitTopLevel ',' inside).mapM (cutTopLevel? ':')).map .dict

/-- The shape of a text that begins with the bracket that its end closes. -/
def bracketShape? (text : List Char) : Option Shape :=
  match text.head?, enclosed? text with
  | some '[', some inside => some (.list (splitTopLevel ',' inside))
  | some '(', some inside => some (groupShape inside)
  | some '{', some inside => some ((dictShape? inside).getD (.atom (.raw (String.ofList text))))
  | _, _ => none

/-- The shape of a name or a call, and of a text of any other kind. -/
def namedShape (text : List Char) : Shape :=
  if isDottedName text then .atom (.name (String.ofList text))
  else match cutCall? text with
    | some (callee, inside) => callShape callee inside
    | none => .atom (.raw (String.ofList text))

/-- The value of a text that is one constant. -/
def readConstant? (text : List Char) : Option Value :=
  match readString? text with
  | some string => some (.str (String.ofList string))
  | none =>
    if text = "None".toList then some .none
    else if text = "True".toList then some (.bool true)
    else if text = "False".toList then some (.bool false)
    else readNumber? text

/-- The shape of a text without blanks at its ends. -/
def trimmedShape (text : List Char) : Shape :=
  if text.isEmpty then .atom (.raw "")
  else match readConstant? text with
    | some value => .atom value
    | none => (bracketShape? text).getD (namedShape text)

/-- The shape of any text. -/
def shape (text : List Char) : Shape := trimmedShape (trim text)

private theorem cutNamed?_length {arg value : List Char} {key : String}
    (cut : cutNamed? arg = some (key, value)) : value.length < arg.length := by
  unfold cutNamed? at cut
  split at cut
  · simp at cut
  · next left right found =>
    split at cut
    · simp at cut
    · simp only [Option.some.injEq, Prod.mk.injEq] at cut
      rw [cutTopLevel?_append found, ← cut.2]
      simp only [List.length_append, List.length_cons]
      omega

private theorem callShape_parts {callee : String} {inside part : List Char}
    (member : part ∈ (callShape callee inside).parts) : part.length ≤ inside.length := by
  simp only [callShape, Shape.parts, List.mem_append, List.mem_filter, List.mem_map,
    List.mem_filterMap] at member
  rcases member with ⟨⟨piece, -⟩, -⟩ | ⟨⟨key, value⟩, ⟨arg, ⟨piece, -⟩, cut⟩, rfl⟩
  · exact splitTopLevel_length_le piece
  · have shorter := cutNamed?_length cut
    have bounded := splitTopLevel_length_le piece
    simp only
    omega

private theorem groupShape_parts {inside part : List Char}
    (member : part ∈ (groupShape inside).parts) : part.length ≤ inside.length := by
  unfold groupShape at member
  split at member
  · simp [Shape.parts] at member
  · simp only at member
    split at member
    · simp only [Shape.parts, List.mem_singleton] at member
      exact Nat.le_of_eq (congrArg List.length member)
    · exact splitTopLevel_length_le member

private theorem mem_of_mapM {α β : Type} {f : α → Option β} {xs : List α} {ys : List β}
    (mapped : xs.mapM f = some ys) {y : β} (member : y ∈ ys) : ∃ x ∈ xs, f x = some y := by
  induction xs generalizing ys with
  | nil => simp_all
  | cons x rest ih =>
    simp only [List.mapM_cons, Option.bind_eq_bind, Option.pure_def] at mapped
    obtain ⟨z, head, zs, tail, same⟩ : ∃ z, f x = some z ∧ ∃ zs, rest.mapM f = some zs ∧
        z :: zs = ys := by
      cases first : f x <;> cases others : rest.mapM f <;> simp_all
    subst same
    rcases List.mem_cons.mp member with rfl | member
    · exact ⟨x, by simp, head⟩
    · obtain ⟨w, inside, image⟩ := ih tail member
      exact ⟨w, by simp [inside], image⟩

private theorem dictShape?_parts {inside part : List Char} {found : Shape}
    (read : dictShape? inside = some found) (member : part ∈ found.parts) :
    part.length ≤ inside.length := by
  simp only [dictShape?, Option.map_eq_some_iff] at read
  obtain ⟨entries, mapped, rfl⟩ := read
  simp only [Shape.parts, List.mem_flatMap] at member
  obtain ⟨⟨key, value⟩, entry, side⟩ := member
  obtain ⟨piece, pieceIn, cut⟩ := mem_of_mapM mapped entry
  have size := congrArg List.length (cutTopLevel?_append cut)
  have bounded := splitTopLevel_length_le pieceIn
  simp only [List.length_append, List.length_cons] at size
  simp only [List.mem_cons, List.not_mem_nil, or_false] at side
  rcases side with rfl | rfl <;> omega

private theorem bracketShape?_parts {text part : List Char} {found : Shape}
    (read : bracketShape? text = some found) (member : part ∈ found.parts) :
    part.length < text.length := by
  unfold bracketShape? at read
  split at read
  · next inside _ closed =>
    have shorter := enclosed?_length closed
    simp only [Option.some.injEq] at read
    subst read
    exact Nat.lt_of_le_of_lt (splitTopLevel_length_le member) shorter
  · next inside _ closed =>
    have shorter := enclosed?_length closed
    simp only [Option.some.injEq] at read
    subst read
    exact Nat.lt_of_le_of_lt (groupShape_parts member) shorter
  · next inside _ closed =>
    have shorter := enclosed?_length closed
    simp only [Option.some.injEq] at read
    subst read
    cases dict : dictShape? inside with
    | none => simp [dict, Shape.parts] at member
    | some found =>
      simp only [dict, Option.getD_some] at member
      exact Nat.lt_of_le_of_lt (dictShape?_parts dict member) shorter
  · simp at read

private theorem namedShape_parts {text part : List Char}
    (member : part ∈ (namedShape text).parts) : part.length < text.length := by
  unfold namedShape at member
  split at member
  · simp [Shape.parts] at member
  · split at member
    · next callee inside cut =>
      unfold cutCall? at cut
      simp only at cut
      split at cut
      · simp only [Option.map_eq_some_iff, Prod.mk.injEq] at cut
        obtain ⟨body, closed, -, rfl⟩ := cut
        have shorter := enclosed?_length closed
        have bounded := callShape_parts member
        simp only [List.length_drop] at shorter
        omega
      · simp at cut
    · simp [Shape.parts] at member

/-- The parts of a shape are strictly shorter than its text. -/
theorem shape_parts_length {text part : List Char} (member : part ∈ (shape text).parts) :
    part.length < text.length := by
  refine Nat.lt_of_lt_of_le ?_ (trim_length_le text)
  unfold shape trimmedShape at member
  split at member
  · simp [Shape.parts] at member
  · split at member
    · simp [Shape.parts] at member
    · cases bracket : bracketShape? (trim text) with
      | none =>
        simp only [bracket, Option.getD_none] at member
        exact namedShape_parts member
      | some found =>
        simp only [bracket, Option.getD_some] at member
        exact bracketShape?_parts bracket member

end ApiScribe.Expr
