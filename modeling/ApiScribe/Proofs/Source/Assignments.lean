import ApiScribe.Proofs.Expr.RoundTrip
import ApiScribe.Source.Block

/-! Assignments of plain names. A line that assigns to a word is read as that
assignment, lines without indentation make a statement each, and the value of a name
is that of its last assignment. -/
namespace ApiScribe.Source
open Text ApiScribe.Expr

variable {name : String}

/-- Words that begin a statement of another kind when a blank follows. -/
def openers : List String := ["class", "def", "async", "import", "from"]

/-- A name that an assignment can set: a word that begins no statement of another kind. -/
structure Settable (name : String) : Prop where
  dotted : isDottedName name.toList = true
  word : (name.toList.all fun c => isAlphanumeric c || c == '_') = true
  free : name ∉ keywords
  unopened : name ∉ openers

private theorem word_behind (word : (name.toList.all fun c => isAlphanumeric c || c == '_') = true)
    (rest : List Char) :
    (name.toList ++ ' ' :: rest).takeWhile (fun c => isAlphanumeric c || c == '_') =
      name.toList := by
  rw [List.takeWhile_append_of_pos (List.all_eq_true.mp word),
    List.takeWhile_cons_of_neg (by decide), List.append_nil]

/-- An equals sign between blanks behind a word assigns. -/
theorem readAssignment?_plain (settable : Settable name) (number indent : Nat)
    (rest : List Char) :
    readAssignment? ⟨number, indent, name.toList ++ " = ".toList ++ rest⟩ =
      some ⟨name, read rest, String.ofList (trim rest), false, number⟩ := by
  have named := named_of_isDottedName settable.dotted
  have shown : name.toList ++ " = ".toList ++ rest =
      (name.toList ++ [' ']) ++ '=' :: ' ' :: rest := by
    simp
  have marks : Whole ['=', ':'] (name.toList ++ [' ']) := by
    refine (named.whole (by decide)).append ?_ (by simp)
    exact .cons rfl rfl rfl (by decide) (.nil _)
  have cut : cutTopLevel? '=' (name.toList ++ " = ".toList ++ rest) =
      some (name.toList ++ [' '], ' ' :: rest) := by
    rw [shown]
    exact marks.cut (by decide) (by decide) _
  have word : String.ofList ((name.toList ++ " = ".toList ++ rest).takeWhile
      fun c => isAlphanumeric c || c == '_') = name := by
    rw [List.append_assoc]
    exact (congrArg String.ofList (word_behind settable.word ('=' :: ' ' :: rest))).trans
      String.ofList_toList
  have bare : trim (name.toList ++ [' ']) = name.toList := named.tight.trim_behind
  have target : readTarget? (name.toList ++ [' ']) = some name := by
    have unannotated : Whole [':'] name.toList := named.whole (by decide)
    rw [readTarget?]
    simp only [bare, unannotated.uncut List.mem_cons_self]
    rw [if_pos settable.dotted, String.ofList_toList]
  rw [readAssignment?]
  simp only [word, if_neg settable.free, cut]
  rw [if_neg (by simp [isOperator])]
  simp [target, read_blank, trim_blank]

/-- A text that begins with a word and a blank begins with no other word and a blank. -/
theorem unopened_plain (settable : Settable name) (rest : List Char) :
    ∀ opener ∈ openers,
      (opener.toList ++ [' ']).isPrefixOf (name.toList ++ ' ' :: rest) = false := by
  intro opener listed
  rw [Bool.eq_false_iff]
  intro begins
  obtain ⟨more, whole⟩ := List.isPrefixOf_iff_prefix.mp begins
  rw [List.append_assoc, List.singleton_append] at whole
  have words : ∀ opener ∈ openers,
      (opener.toList.all fun c => isAlphanumeric c || c == '_') = true := by
    decide +kernel
  have same : opener.toList = name.toList := by
    rw [← word_behind (words opener listed) more, whole, word_behind settable.word]
  exact settable.unopened (String.toList_inj.mp same ▸ listed)

/-- A statement that the readers of other kinds leave alone is an assignment. -/
theorem kind_assignment {line : Line} {found : Assignment}
    (other : ∀ opener ∈ openers, (opener.toList ++ [' ']).isPrefixOf line.text = false)
    (assigned : readAssignment? line = some found) :
    Statement.kind ⟨[], line, []⟩ = .assignment found := by
  simp only [openers, List.forall_mem_cons] at other
  obtain ⟨unclass, undef, unasync, unimport, unfrom, _⟩ := other
  have noClass : ¬ "class ".toList.isPrefixOf line.text = true := Bool.eq_false_iff.mp unclass
  have noFunction : ¬ ("def ".toList.isPrefixOf line.text ||
      "async ".toList.isPrefixOf line.text) = true :=
    Bool.eq_false_iff.mp (Bool.or_eq_false_iff.mpr ⟨undef, unasync⟩)
  have noImport : ¬ ("import ".toList.isPrefixOf line.text ||
      "from ".toList.isPrefixOf line.text) = true :=
    Bool.eq_false_iff.mp (Bool.or_eq_false_iff.mpr ⟨unimport, unfrom⟩)
  rw [Statement.kind]
  simp only
  rw [if_neg noClass, if_neg noFunction, if_neg noImport, assigned]
  rfl

/-- Lines without indentation are statements of their own, if none of them decorates. -/
theorem statementsAt_flat {lines : List Line} (flat : ∀ line ∈ lines, line.indent = 0)
    (plain : ∀ line ∈ lines, line.isDecorator = false) :
    statementsAt 0 [] lines = lines.map fun line => ⟨[], line, []⟩ := by
  induction lines with
  | nil => rfl
  | cons line rest ih =>
    have alone : rest.takeWhile (fun deeper => decide (0 < deeper.indent)) = [] := by
      cases rest with
      | nil => rfl
      | cons next others => rw [List.takeWhile_cons_of_neg (by simp [flat next])]
    rw [statementsAt, if_neg (by simp [flat line]), if_neg (by simp [plain line]), alone,
      ih (fun later member => flat later (List.mem_cons_of_mem _ member))
        fun later member => plain later (List.mem_cons_of_mem _ member)]
    rfl

private theorem statements_flat {lines : List Line} (flat : ∀ line ∈ lines, line.indent = 0)
    (plain : ∀ line ∈ lines, line.isDecorator = false) :
    statements lines = lines.map fun line => ⟨[], line, []⟩ := by
  cases lines with
  | nil => rfl
  | cons line rest =>
    have least : baseIndent? (line :: rest) = some 0 := by
      rw [baseIndent?, List.min?_eq_some_iff]
      exact ⟨by simp [flat line], fun indent _ => Nat.zero_le indent⟩
    rw [statements, least]
    exact statementsAt_flat flat plain

/-- The assignment that a line makes by itself. -/
def assignment? (line : Line) : Option Assignment :=
  match Statement.kind ⟨[], line, []⟩ with
  | .assignment found => some found
  | _ => none

theorem assignments_flat {lines : List Line} (flat : ∀ line ∈ lines, line.indent = 0)
    (plain : ∀ line ∈ lines, line.isDecorator = false) :
    (Block.ofLines lines).assignments = lines.filterMap assignment? := by
  rw [Block.ofLines, statements_flat flat plain]
  simp only [List.map_map, List.filterMap_map]
  rfl

/-- The value of a name is that of its last assignment. -/
theorem Block.value?_last {block : Block} {found : Assignment} {earlier later : List Assignment}
    (split : block.assignments = earlier ++ found :: later) (plain : found.augmented = false)
    (last : ∀ other ∈ later, other.target ≠ found.target) :
    block.value? found.target = some found.value := by
  have skipped : later.reverse.find?
      (fun other => other.target == found.target && !other.augmented) = none := by
    rw [List.find?_eq_none]
    intro other member
    simp [last other (List.mem_reverse.mp member)]
  have reversed : block.assignments.reverse = later.reverse ++ found :: earlier.reverse := by
    simp [split]
  rw [value?, reversed, List.find?_append, skipped, List.find?_cons_of_pos (by simp [plain])]
  rfl

end ApiScribe.Source
