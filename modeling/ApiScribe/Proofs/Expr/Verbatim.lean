import ApiScribe.Proofs.Expr.RoundTrip
import ApiScribe.Proofs.Text.ShownLines
import ApiScribe.Proofs.Web.Descriptions

/-! What a value says word for word: its strings, and the expressions in it that were not
understood. Everything else in the text of a value is numbers, marks and names, and no name
that is read holds a line feed. So the text of a value breaks the line exactly where the value
says something that does. -/
namespace ApiScribe
open Text

/-- A value says a text word for word, at whatever depth. -/
inductive Value.Says (text : String) : Value → Prop
  | str : Says text (.str text)
  | raw : Says text (.raw text)
  | list {items : List Value} {item : Value} (member : item ∈ items) (part : Says text item) :
    Says text (.list items)
  | tuple {items : List Value} {item : Value} (member : item ∈ items) (part : Says text item) :
    Says text (.tuple items)
  | key {entries : List (Value × Value)} {entry : Value × Value} (member : entry ∈ entries)
    (part : Says text entry.1) : Says text (.dict entries)
  | entry {entries : List (Value × Value)} {entry : Value × Value} (member : entry ∈ entries)
    (part : Says text entry.2) : Says text (.dict entries)
  | arg {callee : String} {args : List Value} {named : List (String × Value)} {arg : Value}
    (member : arg ∈ args) (part : Says text arg) : Says text (.call callee args named)
  | named {callee : String} {args : List Value} {named : List (String × Value)}
    {arg : String × Value} (member : arg ∈ named) (part : Says text arg.2) :
    Says text (.call callee args named)

/-- A value whose names hold no line feed. -/
inductive Value.PlainNames : Value → Prop
  | str (text : String) : PlainNames (.str text)
  | int (number : Int) : PlainNames (.int number)
  | float (number : Double) : PlainNames (.float number)
  | bool (flag : Bool) : PlainNames (.bool flag)
  | none : PlainNames .none
  | raw (text : String) : PlainNames (.raw text)
  | name (unbroken : Unbroken dotted) : PlainNames (.name dotted)
  | list {items : List Value} (each : ∀ item ∈ items, PlainNames item) : PlainNames (.list items)
  | tuple {items : List Value} (each : ∀ item ∈ items, PlainNames item) :
    PlainNames (.tuple items)
  | dict {entries : List (Value × Value)} (keys : ∀ entry ∈ entries, PlainNames entry.1)
    (values : ∀ entry ∈ entries, PlainNames entry.2) : PlainNames (.dict entries)
  | call {args : List Value} {named : List (String × Value)} (unbroken : Unbroken callee)
    (each : ∀ arg ∈ args, PlainNames arg) (keys : ∀ arg ∈ named, Unbroken arg.1)
    (values : ∀ arg ∈ named, PlainNames arg.2) : PlainNames (.call callee args named)

/-! Numbers. -/

/-- An integer is printed as digits and perhaps a sign, never over two lines. -/
theorem unbroken_integer (number : Int) : '\n' ∉ (toString number).toList := by
  intro feed
  rcases mem_integer_chars feed with digit | minus
  · cases digit
  · exact absurd minus (by decide)

private theorem unbroken_toDigits (number : Nat) : '\n' ∉ Nat.toDigits 10 number := by
  intro feed
  cases isDigit_of_mem_toDigits feed

namespace Double

/-- Digits are laid out with marks, zeros and an exponent, none of which breaks the line. -/
private theorem unbroken_layout {digits : List Char} (unbroken : '\n' ∉ digits) (point : Int) :
    '\n' ∉ layout digits point := by
  have front (count : Nat) : '\n' ∉ digits.take count := fun feed =>
    unbroken (List.mem_of_mem_take feed)
  have back (count : Nat) : '\n' ∉ digits.drop count := fun feed =>
    unbroken (List.mem_of_mem_drop feed)
  rw [layout]
  split
  · have exponent := unbroken_integer (point - 1)
    by_cases alone : (digits.drop 1).isEmpty = true
    · simp only [alone, if_true, List.append_nil, List.mem_append, List.mem_cons, not_or]
      exact ⟨front 1, by decide, exponent⟩
    · simp only [if_neg alone, List.mem_append, List.mem_cons, not_or]
      exact ⟨⟨front 1, by decide, back 1⟩, by decide, exponent⟩
  split
  · simp [unbroken, List.mem_replicate]
  split
  · simp [unbroken, List.mem_replicate]
  · simp [front, back]

private theorem unbroken_shortest (significand : Nat) (exponent point : Int) :
    '\n' ∉ (shortest significand exponent point).1 := by
  intro feed
  have inside := (List.dropWhile_suffix _).subset (List.mem_reverse.mp feed)
  exact unbroken_toDigits _ (List.mem_reverse.mp inside)

/-- A double is printed on one line. -/
private theorem unbroken_text (number : Double) : '\n' ∉ number.text := by
  have signed {body : List Char} (unbroken : '\n' ∉ body) :
      '\n' ∉ if number.negative then '-' :: body else body := by
    split
    · exact List.not_mem_cons_of_ne_of_not_mem (by decide) unbroken
    · exact unbroken
  rw [text]
  apply signed
  split
  · decide
  · decide
  · exact unbroken_layout (unbroken_shortest _ _ _) _

end Double

/-! Printing. -/

namespace Value
open ApiScribe.Expr

variable {value : Value} {texts : List (List Char)} {text callee : String}
  {items args : List Value} {entries : List (Value × Value)} {named : List (String × Value)}

/-- Escapes are put before backslashes and quotes, and leave line feeds as they are. -/
private theorem mem_escape_iff (text : List Char) : '\n' ∈ escape text ↔ '\n' ∈ text := by
  induction text with
  | nil => rfl
  | cons c rest ih =>
    have step : escape (c :: rest) =
        (if c = '\\' ∨ c = '\'' then ['\\', c] else [c]) ++ escape rest := rfl
    rw [step, List.mem_append, ih, List.mem_cons]
    split <;> simp

private theorem mem_quoted_iff (text : List Char) : '\n' ∈ quoted text ↔ '\n' ∈ text := by
  simp [quoted, mem_escape_iff]

private theorem mem_enclosed_iff {opening closing : Char} {inside : List Char}
    (opens : '\n' ≠ opening) (closes : '\n' ≠ closing) :
    '\n' ∈ opening :: inside ++ [closing] ↔ '\n' ∈ inside := by
  simp [opens, closes]

private theorem mem_joined_iff : '\n' ∈ joined separator texts ↔ ∃ text ∈ texts, '\n' ∈ text := by
  constructor
  · intro feed
    exact (mem_joined feed).resolve_left (by decide)
  · rintro ⟨text, member, feed⟩
    exact mem_joined_of_mem member feed

/-- What stands between items breaks no line, so some item does if any. -/
private theorem mem_joined_map_iff {shown : α → List Char} {items : List α} :
    '\n' ∈ joined separator (items.map shown) ↔ ∃ item ∈ items, '\n' ∈ shown item := by
  simp only [mem_joined_iff, List.mem_map, exists_exists_and_eq_and]

/-- The comma behind the only item of a tuple breaks no line either. -/
private theorem mem_tupleInside_iff (items : List Value) :
    '\n' ∈ tupleInside items ↔ ∃ item ∈ items, '\n' ∈ item.print := by
  match items with
  | [] => simp [tupleInside, joined]
  | [only] => simp [tupleInside]
  | first :: second :: others =>
    rw [tupleInside, mem_joined_map_iff]
    simp

private theorem mem_entryText_iff (entry : Value × Value) :
    '\n' ∈ entryText entry ↔ '\n' ∈ entry.1.print ∨ '\n' ∈ entry.2.print := by
  simp [entryText]

private theorem mem_argText_iff {arg : String × Value} (key : Unbroken arg.1) :
    '\n' ∈ argText arg ↔ '\n' ∈ arg.2.print := by
  simp only [Unbroken] at key
  simp [argText, key]

/-- A value says something that breaks the line. -/
def Breaks (value : Value) : Prop := ∃ text, value.Says text ∧ '\n' ∈ text.toList

private theorem breaks_str_iff : (Value.str text).Breaks ↔ '\n' ∈ text.toList := by
  constructor
  · rintro ⟨_, ⟨⟩, feed⟩
    exact feed
  · exact fun feed => ⟨text, .str, feed⟩

private theorem breaks_raw_iff : (Value.raw text).Breaks ↔ '\n' ∈ text.toList := by
  constructor
  · rintro ⟨_, ⟨⟩, feed⟩
    exact feed
  · exact fun feed => ⟨text, .raw, feed⟩

private theorem breaks_list_iff : (Value.list items).Breaks ↔ ∃ item ∈ items, item.Breaks := by
  constructor
  · rintro ⟨text, ⟨⟩, feed⟩
    exact ⟨_, ‹_›, text, ‹_›, feed⟩
  · rintro ⟨item, member, text, part, feed⟩
    exact ⟨text, .list member part, feed⟩

private theorem breaks_tuple_iff : (Value.tuple items).Breaks ↔ ∃ item ∈ items, item.Breaks := by
  constructor
  · rintro ⟨text, ⟨⟩, feed⟩
    exact ⟨_, ‹_›, text, ‹_›, feed⟩
  · rintro ⟨item, member, text, part, feed⟩
    exact ⟨text, .tuple member part, feed⟩

/-- A dictionary says what its keys and its values say. -/
private theorem breaks_dict_iff :
    (Value.dict entries).Breaks ↔ ∃ entry ∈ entries, entry.1.Breaks ∨ entry.2.Breaks := by
  constructor
  · rintro ⟨text, ⟨⟩, feed⟩
    · exact ⟨_, ‹_›, .inl ⟨text, ‹_›, feed⟩⟩
    · exact ⟨_, ‹_›, .inr ⟨text, ‹_›, feed⟩⟩
  · rintro ⟨entry, member, ⟨text, part, feed⟩ | ⟨text, part, feed⟩⟩
    · exact ⟨text, .key member part, feed⟩
    · exact ⟨text, .entry member part, feed⟩

/-- A call says what its arguments say, and nothing with its name or its keys. -/
private theorem breaks_call_iff : (Value.call callee args named).Breaks ↔
    (∃ arg ∈ args, arg.Breaks) ∨ ∃ arg ∈ named, arg.2.Breaks := by
  constructor
  · rintro ⟨text, ⟨⟩, feed⟩
    · exact .inl ⟨_, ‹_›, text, ‹_›, feed⟩
    · exact .inr ⟨_, ‹_›, text, ‹_›, feed⟩
  · rintro (⟨arg, member, text, part, feed⟩ | ⟨arg, member, text, part, feed⟩)
    · exact ⟨text, .arg member part, feed⟩
    · exact ⟨text, .named member part, feed⟩

/-- The text of a value breaks the line exactly if the value says something that does. -/
theorem mem_print_iff (plain : value.PlainNames) : '\n' ∈ value.print ↔ value.Breaks := by
  induction plain with
  | str text =>
    rw [breaks_str_iff, print]
    exact mem_quoted_iff text.toList
  | int number =>
    exact iff_of_false (unbroken_integer number) (by rintro ⟨_, ⟨⟩, _⟩)
  | float number =>
    exact iff_of_false number.unbroken_text (by rintro ⟨_, ⟨⟩, _⟩)
  | bool flag =>
    refine iff_of_false ?_ (by rintro ⟨_, ⟨⟩, _⟩)
    cases flag <;> decide
  | none => exact iff_of_false (by decide) (by rintro ⟨_, ⟨⟩, _⟩)
  | raw text => exact breaks_raw_iff.symm
  | name unbroken => exact iff_of_false unbroken (by rintro ⟨_, ⟨⟩, _⟩)
  | list _ each =>
    have parts := exists_congr fun item => and_congr_right (each item)
    rw [breaks_list_iff, ← parts, print, printItems_eq, mem_enclosed_iff (by decide) (by decide),
      mem_joined_map_iff]
  | tuple _ each =>
    have parts := exists_congr fun item => and_congr_right (each item)
    rw [breaks_tuple_iff, ← parts, print_tuple, mem_enclosed_iff (by decide) (by decide),
      mem_tupleInside_iff]
  | dict _ _ keys values =>
    have parts := exists_congr fun entry => and_congr_right fun member =>
      (mem_entryText_iff entry).trans (or_congr (keys entry member) (values entry member))
    rw [breaks_dict_iff, ← parts, print, printEntries_eq, mem_enclosed_iff (by decide) (by decide),
      mem_joined_map_iff]
  | call unbroken _ plainKeys _ each values =>
    have parts := exists_congr fun arg => and_congr_right (each arg)
    have namedParts := exists_congr fun arg => and_congr_right fun member =>
      (mem_argText_iff (plainKeys arg member)).trans (values arg member)
    rw [breaks_call_iff, ← parts, ← namedParts, print_call, List.mem_append,
      or_iff_right unbroken, mem_enclosed_iff (by decide) (by decide), mem_joined_iff]
    simp only [List.mem_append, or_and_right, exists_or, List.mem_map, exists_exists_and_eq_and]

end Value

/-! Reading. -/

namespace Expr
open ApiScribe.Value

/-- The names in a shape hold no line feed. -/
inductive Shape.PlainNames : Shape → Prop
  | atom {value : Value} (plain : value.PlainNames) : PlainNames (.atom value)
  | group (inside : List Char) : PlainNames (.group inside)
  | list (items : List (List Char)) : PlainNames (.list items)
  | tuple (items : List (List Char)) : PlainNames (.tuple items)
  | dict (entries : List (List Char × List Char)) : PlainNames (.dict entries)
  | call {callee : String} {named : List (String × List Char)} (unbroken : Unbroken callee)
    (args : List (List Char)) (keys : ∀ arg ∈ named, Unbroken arg.1) :
    PlainNames (.call callee args named)

variable {text : List Char} {value : Value}

private theorem unbroken_of_isDottedName {name : List Char} (dotted : isDottedName name = true) :
    Unbroken (String.ofList name) := by
  rw [Unbroken, String.toList_ofList]
  exact (named_of_isDottedName dotted).not_mem (by decide)

private theorem IsConstant.plainNames (constant : IsConstant value) : value.PlainNames := by
  cases constant with
  | str text => exact .str text
  | int number => exact .int number
  | float number => exact .float number
  | bool flag => exact .bool flag
  | none => exact .none

/-- A key is an identifier, so no line feed is in it. -/
private theorem unbroken_cutNamed? {arg rest : List Char} {key : String}
    (cut : cutNamed? arg = some (key, rest)) : Unbroken key := by
  rw [cutNamed?] at cut
  split at cut
  · cases cut
  · obtain ⟨valid, same⟩ := Option.ite_none_left_eq_some.mp cut
    cases same
    simp only [Bool.or_eq_true, Bool.not_eq_true', not_or, Bool.not_eq_false, isIdentifier,
      Bool.and_eq_true] at valid
    exact unbroken_of_isDottedName valid.2.1

private theorem plainNames_callShape (unbroken : Unbroken callee) (inside : List Char) :
    (callShape callee inside).PlainNames := by
  refine .call unbroken _ fun arg member => ?_
  obtain ⟨piece, _, cut⟩ := List.mem_filterMap.mp member
  exact unbroken_cutNamed? cut

/-- A shape in brackets has no names of its own. -/
private theorem plainNames_bracketShape? {found : Shape}
    (bracket : bracketShape? text = some found) :
    found.PlainNames := by
  rw [bracketShape?] at bracket
  split at bracket
  · cases bracket
    exact .list _
  · cases bracket
    rw [groupShape]
    split
    · exact .tuple _
    · simp only
      split
      · exact .group _
      · exact .tuple _
  · next inside _ _ =>
    cases bracket
    rw [dictShape?]
    cases (splitTopLevel ',' inside).mapM (cutTopLevel? ':') with
    | none => exact .atom (.raw _)
    | some entries => exact .dict entries
  · cases bracket

private theorem plainNames_namedShape (text : List Char) : (namedShape text).PlainNames := by
  rw [namedShape]
  split
  · next dotted => exact .atom (.name (unbroken_of_isDottedName dotted))
  · split
    · next callee inside cut =>
      obtain ⟨valid, taken⟩ := Option.ite_none_right_eq_some.mp cut
      obtain ⟨_, _, same⟩ := Option.map_eq_some_iff.mp taken
      cases same
      exact plainNames_callShape (unbroken_of_isDottedName valid) _
    · exact .atom (.raw _)

/-- The names in a shape were tested for being names before they were taken. -/
private theorem plainNames_shape (text : List Char) : (shape text).PlainNames := by
  rw [shape, trimmedShape]
  split
  · exact .atom (.raw _)
  split
  · next constant => exact .atom (isConstant_of_readConstant? constant).plainNames
  · cases bracket : bracketShape? (trim text) with
    | some found => exact plainNames_bracketShape? bracket
    | none => exact plainNames_namedShape _

/-- Every value that is read has plain names, as those of its shape are and those of its parts,
which are shorter texts. -/
theorem plainNames_read (text : List Char) : (read text).PlainNames := by
  have plain := plainNames_shape text
  have parts : ∀ part ∈ (shape text).parts, (read part).PlainNames :=
    fun part member => plainNames_read part
  rw [read_eq]
  generalize shape text = found at plain parts ⊢
  cases plain with
  | atom plain => exact plain
  | group inside => exact parts inside List.mem_cons_self
  | list items => exact .list (List.forall_mem_map.mpr parts)
  | tuple items => exact .tuple (List.forall_mem_map.mpr parts)
  | dict entries =>
    refine .dict (List.forall_mem_map.mpr fun entry member => parts _ ?_)
      (List.forall_mem_map.mpr fun entry member => parts _ ?_)
    · exact List.mem_flatMap.mpr ⟨entry, member, List.mem_cons_self⟩
    · exact List.mem_flatMap.mpr ⟨entry, member, by simp⟩
  | call unbroken args keys =>
    refine .call unbroken (List.forall_mem_map.mpr fun arg member => parts _ ?_)
      (List.forall_mem_map.mpr keys) (List.forall_mem_map.mpr fun arg member => parts _ ?_)
    · exact List.mem_append_left _ member
    · exact List.mem_append_right _ (List.mem_map_of_mem member)
termination_by text.length
decreasing_by exact shape_parts_length member

end Expr
end ApiScribe
