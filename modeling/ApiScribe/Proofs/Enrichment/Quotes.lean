import ApiScribe.Proofs.Enrichment.Places
import ApiScribe.Proofs.Text.Trimming

/-! Quotes around answers. The quotes at the two ends of a line are taken off independently of
each other. So a line that does not both begin and end with one is stored as it is exactly if it
does neither: a quote that closes a word in quotes at the end of a sentence is lost. -/
namespace ApiScribe.Enrichment
open Text
open ApiScribe.Expr (Tight)

variable {c : Char} {line text : List Char} {answer : String}

/-- The first line of an answer that shows something, without the blanks at its ends. -/
def firstLine? (answer : String) : Option (List Char) :=
  ((lines answer.toList).find? fun line => !isBlankLine line).map trim

/-- A line whose first character is a quote. -/
def BeginsQuoted (line : List Char) : Prop := ∃ c ∈ line.head?, isWrapper c = true

/-- A line whose last character is a quote. -/
def EndsQuoted (line : List Char) : Prop := ∃ c ∈ line.getLast?, isWrapper c = true

instance (line : List Char) : Decidable (BeginsQuoted line) :=
  decidable_of_iff (line.head?.any isWrapper = true) (Option.any_eq_true ..)

instance (line : List Char) : Decidable (EndsQuoted line) :=
  decidable_of_iff (line.getLast?.any isWrapper = true) (Option.any_eq_true ..)

/-! Answers. -/

private theorem isEmpty_trim (line : List Char) : (trim line).isEmpty = isBlankLine line := by
  rw [Bool.eq_iff_iff, List.isEmpty_iff, isBlankLine, List.all_eq_true]
  constructor
  · intro none
    exact (blank_or_shown line).resolve_right fun shown => trim_ne_nil shown none
  · exact trim_of_blank

private theorem cleanAnswer_eq (answer : String) :
    cleanAnswer answer = String.ofList (trim (unquoted ((firstLine? answer).getD []))) := by
  have same : ((fun line : List Char => !line.isEmpty) ∘ trim) = fun line => !isBlankLine line :=
    funext fun line => congrArg (!·) (isEmpty_trim line)
  rw [cleanAnswer, firstLine?, ← same, ← List.find?_map]

private theorem firstLine?_tight (first : firstLine? answer = some line) : Tight line := by
  obtain ⟨raw, found, rfl⟩ := Option.map_eq_some_iff.mp first
  have shows := List.find?_some found
  rw [← isEmpty_trim, Bool.not_eq_true', List.isEmpty_eq_false_iff] at shows
  exact tight_trim shows

/-! What is taken off. -/

private theorem dropWhile_of_bare (bare : ¬ BeginsQuoted text) :
    text.dropWhile isWrapper = text := by
  cases text with
  | nil => rfl
  | cons c rest => exact List.dropWhile_cons_of_neg fun quote => bare ⟨c, rfl, quote⟩

private theorem dropWhile_shorter (quoted : BeginsQuoted text) :
    (text.dropWhile isWrapper).length < text.length := by
  obtain ⟨c, head, quote⟩ := quoted
  obtain ⟨rest, rfl⟩ := List.head?_eq_some_iff.mp head
  rw [List.dropWhile_cons_of_pos quote, List.length_cons]
  exact Nat.lt_succ_of_le (List.dropWhile_suffix isWrapper).length_le

private theorem beginsQuoted_reverse : BeginsQuoted text.reverse ↔ EndsQuoted text := by
  rw [BeginsQuoted, EndsQuoted, List.head?_reverse]

private theorem unquoted_of_bare (bare : ¬ BeginsQuoted line) (bare' : ¬ EndsQuoted line) :
    unquoted line = line := by
  rw [unquoted, dropWhile_of_bare bare, dropWhile_of_bare (mt beginsQuoted_reverse.mp bare'),
    List.reverse_reverse]

/-- A quote at either end is taken off, whatever the other end is. -/
theorem unquoted_shorter (quoted : BeginsQuoted line ∨ EndsQuoted line) :
    (unquoted line).length < line.length := by
  have shortens (text : List Char) : (text.dropWhile isWrapper).length ≤ text.length :=
    (List.dropWhile_suffix isWrapper).length_le
  rw [unquoted, List.length_reverse]
  by_cases begins : BeginsQuoted line
  · have behind := shortens (line.dropWhile isWrapper).reverse
    rw [List.length_reverse] at behind
    exact Nat.lt_of_le_of_lt behind (dropWhile_shorter begins)
  · have ends := dropWhile_shorter (beginsQuoted_reverse.mpr (quoted.resolve_left begins))
    rw [List.length_reverse] at ends
    rwa [dropWhile_of_bare begins]

/-- Nothing but quotes is taken off. -/
theorem mem_unquoted (plain : isWrapper c = false) (member : c ∈ line) : c ∈ unquoted line :=
  List.mem_reverse.mpr
    (mem_dropWhile plain (List.mem_reverse.mpr (mem_dropWhile plain member)))

/-- Something is left of a line without a quote at one of its ends. -/
theorem trim_unquoted_ne_nil (tight : Tight line)
    (unwrapped : ¬ (BeginsQuoted line ∧ EndsQuoted line)) : trim (unquoted line) ≠ [] := by
  have left {c : Char} (member : c ∈ line) (solid : isBlank c = false)
      (plain : ¬ isWrapper c = true) : trim (unquoted line) ≠ [] :=
    trim_ne_nil ⟨c, mem_unquoted (by simpa using plain) member, solid⟩
  by_cases begins : BeginsQuoted line
  · obtain ⟨c, last, solid⟩ := tight.last
    exact left (List.mem_of_getLast? last) solid fun quote => unwrapped ⟨begins, c, last, quote⟩
  · obtain ⟨c, first, solid⟩ := tight.first
    exact left (List.mem_of_mem_head? first) solid fun quote => begins ⟨c, first, quote⟩

/-- A tight line comes out as it is only if no quote is taken off. -/
theorem trim_unquoted_eq_iff (tight : Tight line) :
    trim (unquoted line) = line ↔ ¬ BeginsQuoted line ∧ ¬ EndsQuoted line := by
  constructor
  · intro same
    rw [← not_or]
    intro quoted
    have shorter := unquoted_shorter quoted
    have bound := trim_length_le (unquoted line)
    rw [same] at bound
    omega
  · rintro ⟨bare, bare'⟩
    rw [unquoted_of_bare bare bare', tight.trim]

private theorem usable?_of_unwrapped (first : firstLine? answer = some line)
    (unwrapped : ¬ (BeginsQuoted line ∧ EndsQuoted line)) :
    usable? (some answer) = some (String.ofList (trim (unquoted line))) := by
  have cleaned : cleanAnswer answer = String.ofList (trim (unquoted line)) := by
    rw [cleanAnswer_eq, first, Option.getD_some]
  have some : String.ofList (trim (unquoted line)) ≠ "" := by
    simpa using trim_unquoted_ne_nil (firstLine?_tight first) unwrapped
  rw [usable?, Option.map_some, cleaned, Option.filter_some, if_pos (by simpa using some)]

/-- The line of an answer that does not both begin and end with a quote is the text that is
stored for it exactly if it neither begins nor ends with one. -/
theorem unwrapped_line_stored_iff {config : Config.Assistant} {client : Client} {asked n : Nat}
    {found : App} {place : TextPlace} {question : String} (elsewhere : config.provider ≠ .local)
    (opened : (openings found)[n]? = some (place, question))
    (answered : client (asked + n) = some answer) (first : firstLine? answer = some line)
    (unwrapped : ¬ (BeginsQuoted line ∧ EndsQuoted line)) :
    (enrich config (some client) asked found).value.text? place = some (String.ofList line) ↔
      ¬ BeginsQuoted line ∧ ¬ EndsQuoted line := by
  have active : active? config (some client) = some client := if_neg elsewhere
  have written := (asks_app client asked found).written n place question opened
  rw [answered, usable?_of_unwrapped first unwrapped, Option.some_or] at written
  rw [enrich, active, written, Option.some.injEq, String.ofList_inj,
    trim_unquoted_eq_iff (firstLine?_tight first)]

private theorem staff_opened :
    (openings staff)[0]? = some (.description 0, endpointPrompt staff.endpoints[0]) := rfl

/-- Quotes inside of a line are no quotes around it. -/
theorem inner_quotes_stored :
    ¬ BeginsQuoted "Lists the 'active' staff.".toList ∧
      ¬ EndsQuoted "Lists the 'active' staff.".toList ∧
      (enrich { provider := .openai } (some fun _ => some "\n Lists the 'active' staff.\n") 0
        staff).value.text? (.description 0) = some "Lists the 'active' staff." := by
  have bare : ¬ BeginsQuoted "Lists the 'active' staff.".toList ∧
      ¬ EndsQuoted "Lists the 'active' staff.".toList := by
    decide
  exact ⟨bare.1, bare.2, (unwrapped_line_stored_iff (by decide) staff_opened rfl (by decide)
    fun both => bare.1 both.1).mpr bare⟩

/-- The quote that closes the last word is taken for one around the line. -/
theorem closing_quote_lost :
    (openings staff)[0]? = some (.description 0, endpointPrompt staff.endpoints[0]) ∧
      firstLine? "Lists staff called 'active'" = some "Lists staff called 'active'".toList ∧
      ¬ (BeginsQuoted "Lists staff called 'active'".toList ∧
        EndsQuoted "Lists staff called 'active'".toList) ∧
      (enrich { provider := .openai } (some fun _ => some "Lists staff called 'active'") 0
        staff).value.text? (.description 0) = some "Lists staff called 'active" ∧
      "Lists staff called 'active" ≠ "Lists staff called 'active'" := by
  decide +kernel

end ApiScribe.Enrichment
