import ApiScribe.Expr.Shape

/-! Reading an expression: its outermost shape, then each part of it. Reading
never fails, since a text of no known shape is its own value. -/
namespace ApiScribe.Expr

/-- The value of an expression. Items travel with their membership, which says
that they are shorter than the text. -/
def read (text : List Char) : Value :=
  match _same : shape text with
  | .atom value => value
  | .group inside => read inside
  | .list items => .list (items.attach.map fun item => read item.1)
  | .tuple items => .tuple (items.attach.map fun item => read item.1)
  | .dict entries =>
    .dict (entries.attach.map fun entry => (read entry.1.1, read entry.1.2))
  | .call callee args named =>
    .call callee (args.attach.map fun arg => read arg.1)
      (named.attach.map fun arg => (arg.1.1, read arg.1.2))
termination_by text.length
decreasing_by
  all_goals
    apply shape_parts_length
    rw [_same]
    simp only [Shape.parts, List.mem_singleton, List.mem_append, List.mem_map, List.mem_flatMap]
  · exact item.2
  · exact item.2
  · exact ⟨entry.1, entry.2, by simp⟩
  · exact ⟨entry.1, entry.2, by simp⟩
  · exact .inl arg.2
  · exact .inr ⟨arg.1, arg.2, rfl⟩

/-- The value of a shape once its parts have been read. -/
def Shape.value (readPart : List Char → Value) : Shape → Value
  | .atom value => value
  | .group inside => readPart inside
  | .list items => .list (items.map readPart)
  | .tuple items => .tuple (items.map readPart)
  | .dict entries => .dict (entries.map fun entry => (readPart entry.1, readPart entry.2))
  | .call callee args named =>
    .call callee (args.map readPart) (named.map fun arg => (arg.1, readPart arg.2))

/-- Reading is the shape with each part read. -/
theorem read_eq (text : List Char) : read text = (shape text).value read := by
  rw [read]
  split <;> next same =>
    rw [same]
    simp only [Shape.value, List.map_subtype, List.unattach_attach]

/-- The value of an expression given as a string. -/
def readText (text : String) : Value := read text.toList

end ApiScribe.Expr
