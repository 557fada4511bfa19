import ApiScribe.Expr.Reader
import ApiScribe.Proofs.Expr.Constants
import ApiScribe.Proofs.Text.Trimming

/-! Brackets of containers and calls. The reader counts how many brackets are open and does
not look at their kinds, so the text of a container has a counterpart for each bracket, and
it is nested properly only as far as counterparts are of one kind. -/
namespace ApiScribe.Expr
open Text

/-- The brackets of one kind. -/
def Partners (opening closing : Char) : Prop :=
  (opening, closing) ∈ [('(', ')'), ('[', ']'), ('\x7b', '\x7d')]

instance (opening closing : Char) : Decidable (Partners opening closing) :=
  inferInstanceAs (Decidable ((opening, closing) ∈ _))

/-- A row in which the brackets outside of literals nest: each opening one is closed by a
closing one that fits. -/
inductive Nested (fits : Char → Char → Prop) : List Atom → Prop where
  | nil : Nested fits []
  | literal (text : List Char) (rest : Nested fits row) : Nested fits (.literal text :: row)
  | plain (opens : isOpening c = false) (closes : isClosing c = false) (rest : Nested fits row) :
    Nested fits (.plain c :: row)
  | pair (brackets : Brackets opening closing) (fit : fits opening closing)
    (inner : Nested fits inside) (rest : Nested fits row) :
    Nested fits (.plain opening :: (inside ++ .plain closing :: row))

/-- A row in which every bracket has a counterpart, of whatever kind. -/
def Balanced (row : List Atom) : Prop := Nested Brackets row

/-- Two brackets of a row with a balanced stretch between them. -/
def Counterparts (row : List Atom) (opening closing : Char) : Prop :=
  ∃ before inside after, row = before ++ .plain opening :: (inside ++ .plain closing :: after) ∧
    Brackets opening closing ∧ Balanced inside

/-- A list, tuple, dictionary or call. -/
def IsCompound : Value → Prop
  | .list _ | .tuple _ | .dict _ | .call .. => True
  | _ => False

instance : (value : Value) → Decidable (IsCompound value)
  | .list _ | .tuple _ | .dict _ | .call .. => .isTrue trivial
  | .str _ | .int _ | .float _ | .bool _ | .none | .name _ | .raw _ => .isFalse id

/-! Open brackets. -/

/-- A row that closes the brackets that are open before it, innermost first, and its own. -/
inductive Closes (fits : Char → Char → Prop) : List Char → List Atom → Prop where
  | nil : Closes fits [] []
  | literal (text : List Char) (rest : Closes fits opened row) :
    Closes fits opened (.literal text :: row)
  | plain (opens : isOpening c = false) (closes : isClosing c = false)
    (rest : Closes fits opened row) : Closes fits opened (.plain c :: row)
  | opening (opens : isOpening c = true) (rest : Closes fits (c :: opened) row) :
    Closes fits opened (.plain c :: row)
  | closing (brackets : Brackets opening closing) (fit : fits opening closing)
    (rest : Closes fits opened row) : Closes fits (opening :: opened) (.plain closing :: row)

variable {fits : Char → Char → Prop} {row inside rest left right : List Atom}
  {c opening closing : Char} {opened : List Char} {text callee : List Char}

namespace Closes

private theorem of_plain (opens : isOpening c = false) (closes : isClosing c = false)
    (whole : Closes fits opened (.plain c :: row)) : Closes fits opened row := by
  cases whole with
  | plain _ _ rest => exact rest
  | opening opens' _ => simp [opens] at opens'
  | closing brackets _ _ => simp [brackets.closes] at closes

private theorem of_opening (opens : isOpening c = true)
    (whole : Closes fits opened (.plain c :: row)) :
    Closes fits (c :: opened) row := by
  cases whole with
  | plain opens' _ _ => simp [opens] at opens'
  | opening _ rest => exact rest
  | closing brackets _ _ => simp [brackets.closing_opens] at opens

private theorem of_closing (brackets : Brackets opening closing)
    (whole : Closes fits (opening :: opened) (.plain closing :: row)) :
    fits opening closing ∧ Closes fits opened row := by
  cases whole with
  | plain _ closes _ => simp [brackets.closes] at closes
  | opening opens _ => simp [brackets.closing_opens] at opens
  | closing _ fit rest => exact ⟨fit, rest⟩

/-- In the middle of a row some brackets are open, and the rest closes them. -/
theorem behind (whole : Closes fits opened (left ++ right)) :
    ∃ open_, Closes fits open_ right := by
  induction left generalizing opened with
  | nil => exact ⟨opened, whole⟩
  | cons atom left ih =>
    cases whole with
    | literal _ rest => exact ih rest
    | plain _ _ rest => exact ih rest
    | opening _ rest => exact ih rest
    | closing _ _ rest => exact ih rest

/-- A balanced stretch leaves open what was open before it. -/
theorem behind_balanced (balanced : Balanced inside) (whole : Closes fits opened (inside ++ rest)) :
    Closes fits opened rest := by
  induction balanced generalizing opened rest with
  | nil => exact whole
  | literal text _ ih =>
    cases whole with
    | literal _ behind => exact ih behind
  | plain opens closes _ ih => exact ih (whole.of_plain opens closes)
  | pair brackets _ _ _ inner ih =>
    rw [List.cons_append, List.append_assoc, List.cons_append] at whole
    have closed := inner (whole.of_opening brackets.opens)
    exact ih (closed.of_closing brackets).2

end Closes

/-- What is nested closes its own brackets and no others. -/
theorem Nested.closes (nested : Nested fits row) (behind : Closes fits opened rest) :
    Closes fits opened (row ++ rest) := by
  induction nested generalizing opened rest with
  | nil => exact behind
  | literal text _ ih => exact .literal text (ih behind)
  | plain opens closes _ ih => exact .plain opens closes (ih behind)
  | pair brackets fit _ _ inner ih =>
    rw [List.cons_append, List.append_assoc, List.cons_append]
    exact .opening brackets.opens (inner (.closing brackets fit (ih behind)))

/-- A row that closes open brackets is made of nested stretches, each but the last with one
of the closing brackets behind it. -/
def Stretches (fits : Char → Char → Prop) : List Char → List Atom → Prop
  | [], row => Nested fits row
  | opening :: below, row => ∃ inside closing rest, row = inside ++ .plain closing :: rest ∧
      Brackets opening closing ∧ fits opening closing ∧ Nested fits inside ∧
      Stretches fits below rest

/-- What may stand in front of a nested stretch may stand in front of them all. -/
theorem Stretches.prepend (front : List Atom)
    (step : ∀ row, Nested fits row → Nested fits (front ++ row))
    (stretches : Stretches fits opened row) : Stretches fits opened (front ++ row) := by
  cases opened with
  | nil => exact step row stretches
  | cons opening below =>
    obtain ⟨inside, closing, rest, rfl, brackets, fit, nested, behind⟩ := stretches
    exact ⟨front ++ inside, closing, rest, by rw [List.append_assoc], brackets, fit,
      step inside nested, behind⟩

private theorem Closes.stretches (closes : Closes fits opened row) : Stretches fits opened row := by
  induction closes with
  | nil => exact .nil
  | literal text _ ih => exact ih.prepend [.literal text] fun row nested => .literal text nested
  | plain opens closes _ ih =>
    exact ih.prepend [.plain _] fun row nested => .plain opens closes nested
  | opening opens _ ih =>
    obtain ⟨inside, closing, rest, rfl, brackets, fit, nested, behind⟩ := ih
    have paired := behind.prepend (.plain _ :: (inside ++ [.plain closing]))
      fun row further => by simpa using Nested.pair brackets fit nested further
    simpa using paired
  | closing brackets fit rest ih => exact ⟨[], _, _, rfl, brackets, fit, .nil, ih⟩

private theorem nested_iff_closes : Nested fits row ↔ Closes fits [] row :=
  ⟨fun nested => by simpa using nested.closes .nil, fun closes => closes.stretches⟩

private theorem Counterparts.within (front back : List Atom)
    (pair : Counterparts row opening closing) :
    Counterparts (front ++ (row ++ back)) opening closing := by
  obtain ⟨before, inside, after, rfl, between⟩ := pair
  exact ⟨front ++ before, inside, after ++ back, by simp, between⟩

instance : Decidable (Brackets opening closing) :=
  decidable_of_iff (isOpening opening = true ∧ isClosing closing = true)
    ⟨fun both => ⟨both.1, both.2⟩, fun brackets => ⟨brackets.opens, brackets.closes⟩⟩

/-- The open brackets decide step by step whether they are closed. -/
instance decidableCloses [∀ opening closing, Decidable (fits opening closing)] :
    (opened : List Char) → (row : List Atom) → Decidable (Closes fits opened row)
  | [], [] => isTrue .nil
  | _ :: _, [] => isFalse nofun
  | opened, .literal text :: row =>
    have := decidableCloses opened row
    decidable_of_iff (Closes fits opened row)
      ⟨.literal text, fun | .literal _ rest => rest⟩
  | opened, .plain c :: row =>
    if opens : isOpening c = true then
      have := decidableCloses (c :: opened) row
      decidable_of_iff (Closes fits (c :: opened) row) ⟨.opening opens, .of_opening opens⟩
    else if closing : isClosing c = true then
      match opened with
      | [] => isFalse fun
        | .plain _ closes _ => by simp [closing] at closes
        | .opening opens' _ => opens opens'
      | o :: below =>
        have := decidableCloses below row
        if brackets : Brackets o c then
          decidable_of_iff (fits o c ∧ Closes fits below row)
            ⟨fun both => .closing brackets both.1 both.2, Closes.of_closing brackets⟩
        else isFalse fun
          | .plain _ closes _ => by simp [closing] at closes
          | .opening opens' _ => opens opens'
          | .closing brackets' _ _ => brackets brackets'
    else
      have := decidableCloses opened row
      have opens := Bool.eq_false_iff.mpr opens
      have closing := Bool.eq_false_iff.mpr closing
      decidable_of_iff (Closes fits opened row) ⟨.plain opens closing, .of_plain opens closing⟩

instance [∀ opening closing, Decidable (fits opening closing)] (row : List Atom) :
    Decidable (Nested fits row) :=
  decidable_of_iff (Closes fits [] row) nested_iff_closes.symm

/-- A balanced row is nested properly exactly if counterparts are of one kind. -/
theorem nested_partners_iff (balanced : Balanced row) :
    Nested Partners row ↔
      ∀ opening closing, Counterparts row opening closing → Partners opening closing := by
  constructor
  · rintro nested opening closing ⟨before, inside, after, rfl, brackets, inner⟩
    obtain ⟨opened, behind⟩ := (nested_iff_closes.mp nested).behind
    have closed := (behind.of_opening brackets.opens).behind_balanced inner
    exact (closed.of_closing brackets).1
  · intro partners
    induction balanced with
    | nil => exact .nil
    | literal text _ ih =>
      refine .literal text (ih fun opening closing pair => partners opening closing ?_)
      simpa using pair.within [.literal text] []
    | @plain c _ opens closes _ ih =>
      refine .plain opens closes (ih fun opening closing pair => partners opening closing ?_)
      simpa using pair.within [.plain c] []
    | @pair o c inside row brackets _ inner _ ihInner ih =>
      refine .pair brackets (partners o c ⟨[], inside, row, rfl, brackets, inner⟩)
        (ihInner fun opening closing pair => partners opening closing ?_)
        (ih fun opening closing pair => partners opening closing ?_)
      · simpa using pair.within [.plain o] (.plain c :: row)
      · have whole := pair.within (.plain o :: (inside ++ [.plain c])) []
        rwa [List.append_nil, List.cons_append, List.append_assoc] at whole

/-! Texts of containers and calls. -/

/-- The bracket that the reader ends with closes all that are open, whatever their kinds. -/
theorem closes_of_closeFrom? (opens : ∀ c ∈ opened, isOpening c = true)
    (found : closeFrom? opened.length row = some (left, right)) :
    ∃ c, row = left ++ .plain c :: right ∧ Closes Brackets opened (left ++ [.plain c]) := by
  induction row generalizing opened left with
  | nil => cases found
  | cons atom row ih =>
    -- An atom before the end changes what is open and leaves the search to the rest.
    have step {inner : List Char} (opens : ∀ c ∈ inner, isOpening c = true)
        (found : (closeFrom? inner.length row).map (behind [atom]) = some (left, right))
        (closer : ∀ {row}, Closes Brackets inner row → Closes Brackets opened (atom :: row)) :
        ∃ c, atom :: row = left ++ .plain c :: right ∧
          Closes Brackets opened (left ++ [.plain c]) := by
      obtain ⟨⟨front, _⟩, later, same⟩ := Option.map_eq_some_iff.mp found
      cases same
      obtain ⟨c, rfl, closes⟩ := ih opens later
      exact ⟨c, rfl, closer closes⟩
    cases atom with
    | literal text =>
      rw [closeFrom?_literal] at found
      exact step opens found (.literal text)
    | plain d =>
      by_cases opening : isOpening d = true
      · rw [closeFrom?_opening opening] at found
        exact step (List.forall_mem_cons.mpr ⟨opening, opens⟩) found (.opening opening)
      · rw [Bool.not_eq_true] at opening
        by_cases closing : isClosing d = true
        · cases opened with
          | nil =>
            rw [List.length_nil, closeFrom?, if_neg (by simp [opening]), if_pos closing] at found
            cases found
          | cons o below =>
            obtain ⟨here, others⟩ := List.forall_mem_cons.mp opens
            have brackets : Brackets o d := ⟨here, closing⟩
            cases below with
            | nil =>
              rw [List.length_singleton, closeFrom?_last opening closing] at found
              cases found
              exact ⟨d, rfl, .closing brackets brackets .nil⟩
            | cons next below =>
              rw [List.length_cons, List.length_cons, closeFrom?_closing opening closing] at found
              exact step others found (.closing brackets brackets)
        · rw [Bool.not_eq_true] at closing
          rw [closeFrom?_other opening closing] at found
          exact step opens found (.plain opening closing)

/-- What is enclosed by brackets as a whole is balanced. -/
theorem balanced_of_enclosed? (found : enclosed? text = some enclosed) : Balanced (atoms text) := by
  rw [enclosed?] at found
  split at found
  · next left closed =>
    have all : ∀ c ∈ ([] : List Char), isOpening c = true := by simp
    obtain ⟨c, whole, closes⟩ := closes_of_closeFrom? all closed
    rw [whole]
    exact nested_iff_closes.mpr closes
  · cases found

/-- Characters that are neither quotes nor brackets may stand in front of a nested row. -/
theorem Nested.behind_quiet (quiet : ∀ c ∈ callee, isQuote c = false ∧ isOpening c = false ∧
    isClosing c = false) (nested : Nested fits (atoms text)) :
    Nested fits (atoms (callee ++ text)) := by
  induction callee with
  | nil => exact nested
  | cons c others ih =>
    obtain ⟨⟨unquoted, opens, closes⟩, behind⟩ := List.forall_mem_cons.mp quiet
    rw [List.cons_append, atoms_plain unquoted]
    exact .plain opens closes (ih behind)

/-- A blank is no quote and no bracket. -/
theorem quiet_of_isBlank (blank : isBlank c = true) :
    isQuote c = false ∧ isOpening c = false ∧ isClosing c = false := by
  refine ⟨?_, ?_, ?_⟩
  · exact Bool.eq_false_iff.mpr fun quote => by simp [solid_of_isQuote quote] at blank
  · exact Bool.eq_false_iff.mpr fun opens => by simp [solid_of_isOpening opens] at blank
  · exact Bool.eq_false_iff.mpr fun closes => by simp [solid_of_isClosing closes] at blank

/-- A call is balanced, since its callee is a name with blanks around it at most. -/
theorem balanced_of_cutCall? (cut : cutCall? text = some (name, enclosed)) :
    Balanced (atoms text) := by
  rw [cutCall?] at cut
  split at cut
  · next dotted =>
    obtain ⟨_, found, _⟩ := Option.map_eq_some_iff.mp cut
    have whole : text.takeWhile (· ≠ '(') ++ text.drop (text.takeWhile (· ≠ '(')).length = text := by
      rw [← List.prefix_iff_eq_append]
      exact List.takeWhile_prefix _
    rw [← whole]
    refine Nested.behind_quiet (fun c member => ?_) (balanced_of_enclosed? found)
    cases blank : isBlank c with
    | true => exact quiet_of_isBlank blank
    | false =>
      have named := (named_of_isDottedName dotted).chars c (mem_trim blank member)
      have quiet : _ ∧ _ ∧ _ ∧ c ∉ [] := quiet_of_isNameChar named rfl
      exact ⟨quiet.1, quiet.2.1, quiet.2.2.1⟩
  · cases cut

/-- A constant is neither a container nor a call. -/
theorem IsConstant.simple (constant : IsConstant value) : ¬ IsCompound value := by
  cases constant <;> exact id

/-- What is read as a container or a call is balanced. -/
theorem balanced_of_compound (compound : IsCompound (read text)) : Balanced (atoms (trim text)) := by
  rw [read_eq, shape, trimmedShape] at compound
  split at compound
  · exact absurd compound id
  split at compound
  · next constant => exact absurd compound (isConstant_of_readConstant? constant).simple
  cases bracket : bracketShape? (trim text) with
  | some found =>
    rw [bracketShape?] at bracket
    split at bracket
    · next _ found => exact balanced_of_enclosed? found
    · next _ found => exact balanced_of_enclosed? found
    · next _ found => exact balanced_of_enclosed? found
    · cases bracket
  | none =>
    rw [bracket, Option.getD_none, namedShape] at compound
    split at compound
    · exact absurd compound id
    · split at compound
      · next cut => exact balanced_of_cutCall? cut
      · exact absurd compound id

/-- A text that is read as a container or a call has a counterpart for each of its brackets
outside of literals. It is nested properly exactly if counterparts are of one kind: the
reader takes any closing bracket for any opening one. -/
theorem compound_nested_iff (text : List Char) (compound : IsCompound (read text)) :
    Balanced (atoms (trim text)) ∧
      (Nested Partners (atoms (trim text)) ↔ ∀ opening closing,
        Counterparts (atoms (trim text)) opening closing → Partners opening closing) :=
  ⟨balanced_of_compound compound, nested_partners_iff (balanced_of_compound compound)⟩

theorem call_nested :
    IsCompound (read "a(b[1], ')')".toList) ∧ Nested Partners (atoms (trim "a(b[1], ')')".toList)) ∧
      ∀ opening closing, Counterparts (atoms (trim "a(b[1], ')')".toList)) opening closing →
        Partners opening closing := by
  have compound : IsCompound (read "a(b[1], ')')".toList) := by
    rw [read_eq]
    decide +kernel
  have nested : Nested Partners (atoms (trim "a(b[1], ')')".toList)) := by decide +kernel
  exact ⟨compound, nested, (compound_nested_iff _ compound).2.mp nested⟩

/-- A list that a round bracket ends. -/
theorem list_closed_by_round_bracket :
    IsCompound (read "[1)".toList) ∧ ¬ Nested Partners (atoms (trim "[1)".toList)) := by
  constructor
  · rw [read_eq]
    decide +kernel
  · decide +kernel

end ApiScribe.Expr
