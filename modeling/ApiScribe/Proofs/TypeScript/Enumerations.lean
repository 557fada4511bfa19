import ApiScribe.Proofs.Rounding
import ApiScribe.Proofs.TypeScript.Meaning
import ApiScribe.Proofs.TypeScript.Symbols

/-! Enumerations say what the choices of a field are: each choice has its member, whose
literal means the value, and no two members of an enumeration share a name. The literal of
a number is rounded to a double, so that only the integers that are doubles are kept. -/
namespace ApiScribe.TypeScript
open Text

variable {c : Char}

/-- The value of a literal where a program uses it. -/
inductive Constant where
  | str (text : String)
  | double (x : Double)
  deriving DecidableEq

namespace Constant

/-- What a literal is evaluated to. A number is rounded to a double. -/
def ofLiteral : ChoiceValue → Constant
  | .str text => .str text
  | .int number => .double (.ofInteger number)

/-- A constant that means a choice value: the same text, or the double nearest to the number,
which is the number itself wherever a double is and up to `2 ^ 53` in any case. -/
def Means : Constant → ChoiceValue → Prop
  | .str read, .str text => read = text
  | .double x, .int number =>
    x.Nearest number ∧ (Double.Held number → x.value? = some (number : ℚ)) ∧
      (number.natAbs ≤ 2 ^ 53 → x.value? = some (number : ℚ))
  | _, _ => False

/-- The value of a literal is what it should mean. -/
theorem means_ofLiteral (value : ChoiceValue) : (ofLiteral value).Means value := by
  cases value with
  | str text => exact rfl
  | int number =>
    have nearest := Double.ofInteger_nearest number
    exact ⟨nearest, nearest.exact, fun small => nearest.exact (Double.held_of_small small)⟩

end Constant

/-- The constant that a text is the literal of; none for any other text. -/
def readLiteral? (text : String) : Option Constant :=
  match tokens? text.toList with
  | some [.operand (.literal value)] => some (.ofLiteral value)
  | _ => none

/-- Members that say what the choices of a field are, one for one. -/
structure Faithful (choices : List Choice) (members : List Property) : Prop where
  values : List.Forall₂
    (fun choice member =>
      ∃ constant, readLiteral? member.expression = some constant ∧ constant.Means choice.value)
    choices members
  oneLine : ∀ member ∈ members, ∀ c ∈ member.expression.toList, c ∉ lineTerminators
  distinct : (members.map Property.name).Nodup
  symbols : ∀ member ∈ members, Symbol member.name.toList

private theorem readLiteral?_literalText (value : ChoiceValue) :
    readLiteral? (String.ofList (literalText value)) = some (.ofLiteral value) := by
  rw [readLiteral?, String.toList_ofList, (Spells.literal value).tokens?]

/-- A character that a literal may hold stands for itself. -/
theorem escapeChar_plain (plain : c ∉ unwritten) : escapeChar c = [c] := by
  simp only [unwritten, List.mem_cons, List.not_mem_nil, or_false, not_or] at plain
  simp [escapeChar, plain]

/-- Every line end is spelled out. -/
theorem escapeChar_oneLine (c : Char) : ∀ d ∈ escapeChar c, d ∉ lineTerminators := by
  by_cases special : c ∈ unwritten
  · have spelled : (unwritten.flatMap escapeChar).all (· ∉ lineTerminators) = true := by decide
    intro d member
    exact of_decide_eq_true
      (List.all_eq_true.mp spelled d (List.mem_flatMap.mpr ⟨c, special, member⟩))
  · have all : lineTerminators ⊆ unwritten := by decide
    rw [escapeChar_plain special]
    intro d member ends
    exact special (List.mem_singleton.mp member ▸ all ends)

private theorem literalText_oneLine (value : ChoiceValue) :
    ∀ c ∈ literalText value, c ∉ lineTerminators := by
  intro c member ends
  cases value with
  | int number =>
    rcases mem_integer_chars member with digit | rfl
    · have none : lineTerminators.all (!isDigit ·) = true := by decide
      have other := List.all_eq_true.mp none c ends
      simp [digit] at other
    · revert ends
      decide
  | str text =>
    have quote : '\'' ∉ lineTerminators := by decide
    rw [literalText, List.mem_append, List.mem_cons, List.mem_flatMap, List.mem_singleton] at member
    rcases member with (rfl | ⟨d, _, inside⟩) | rfl
    · exact quote ends
    · exact escapeChar_oneLine d c inside ends
    · exact quote ends

/-- Members of choices are faithful to them, and their names are new to those in use. -/
theorem members_faithful (used : List String) (choices : List Choice) :
    Faithful choices (members used choices) ∧
      ∀ member ∈ members used choices, member.name ∉ used := by
  induction choices generalizing used with
  | nil => exact ⟨⟨.nil, by simp [members], .nil, by simp [members]⟩, by simp [members]⟩
  | cons choice rest ih =>
    obtain ⟨number, spelled, free, _⟩ := firstSpelling_freeSpelling used (choiceSymbol choice)
    obtain ⟨below, fresh⟩ := ih (freeSpelling used (choiceSymbol choice) :: used)
    simp only [List.mem_cons, not_or] at fresh
    rw [members]
    refine ⟨⟨?_, ?_, ?_, ?_⟩,
      List.forall_mem_cons.mpr ⟨free, fun member later => (fresh member later).2⟩⟩
    · exact .cons ⟨_, readLiteral?_literalText _, Constant.means_ofLiteral _⟩ below.values
    · refine List.forall_mem_cons.mpr ⟨fun c inside => ?_, below.oneLine⟩
      exact literalText_oneLine choice.value c (by simpa using inside)
    · refine List.nodup_cons.mpr ⟨fun again => ?_, below.distinct⟩
      obtain ⟨member, later, same⟩ := List.mem_map.mp again
      exact (fresh member later).1 same
    · refine List.forall_mem_cons.mpr ⟨?_, below.symbols⟩
      rw [spelled]
      exact symbol_spelling (symbol_choiceSymbol choice) number

/-- The enumerations of a class are those of its fields with choices, in the order of the
fields. Each has a member for every choice, in the order of the choices: its name is an
identifier of capitals, digits and underscores of its own, and its expression is a literal
on one line that means the value of the choice. -/
theorem enumerations_faithful (className : String) (fields : List Field) :
    List.Forall₂
      (fun field declaration =>
        declaration.name =
          className ++ String.ofList (Naming.pascal field.name.toList) ++ "Choices" ∧
          ∃ members, declaration.body = .enumeration members ∧ Faithful field.choices members)
      (fields.filter fun field => !field.choices.isEmpty) (enumerations className fields) := by
  rw [enumerations, List.forall₂_map_right_iff, List.forall₂_same]
  intro field _
  exact ⟨rfl, members [] field.choices, rfl, (members_faithful [] field.choices).1⟩

/-- A field with a choice beyond the integers that are all doubles. -/
def levelField : Field :=
  { name := "level", type := .choice, choices := [⟨.int 9007199254740993, "Highest"⟩] }

/-- A choice that is no double is not kept: its literal means the even number before it. -/
theorem large_choice_not_kept :
    ∃ member x,
      (enumerations "Card" [levelField]).map Declaration.body = [.enumeration [member]] ∧
        readLiteral? member.expression = some (.double x) ∧
        x.value? = some 9007199254740992 ∧ x.value? ≠ some 9007199254740993 := by
  have rounded : Double.ofInteger 9007199254740993 = ⟨false, .finite (2 ^ 52) 1⟩ := by
    decide +kernel
  have value : (Double.ofInteger 9007199254740993).value? = some 9007199254740992 := by
    rw [rounded, Double.value?, Double.place, Magnitude.place]
    norm_num
  refine ⟨_, .ofInteger 9007199254740993, rfl, readLiteral?_literalText _, value, ?_⟩
  rw [value]
  norm_num

/-- Symbols that meet are told apart, also from a symbol that looks like a spelling. -/
example :
    (members [] [⟨.str "in-progress", ""⟩, ⟨.str "in_progress", ""⟩, ⟨.str "in progress 2", ""⟩,
      ⟨.int (-3), ""⟩]).map Property.name =
        ["IN_PROGRESS", "IN_PROGRESS_2", "IN_PROGRESS_2_2", "VALUE_3"] := by
  decide +kernel

end ApiScribe.TypeScript
