import ApiScribe.Proofs.TypeScript.Symbols
import Mathlib.Data.List.DropRight
import Mathlib.Data.List.TakeWhile

/-! Labels in the names of enumeration members. A member is called after the value of its
choice and the label stands in for a value without letters and digits. The word that
stands for such a value is an ordinary word as well: a value that says just this word is
taken for one that says nothing. -/
namespace ApiScribe.TypeScript
open Naming (constant constantFrom)
open Text (dropTrailing)

variable {c : Char} {text front word back written : List Char} {choice : Choice}
  {before after : List Choice}

/-- A text with a letter or digit. -/
def Usable (text : List Char) : Prop := ∃ c ∈ text, c.isAlphanum = true

/-- A text whose only word is "value", with letters of either size. -/
def SaysValue (text : List Char) : Prop :=
  ∃ front word back, text = front ++ word ++ back ∧ ¬ Usable front ∧ ¬ Usable back ∧
    word.map Char.toUpper = "VALUE".toList

/-! What is written of a text. -/

private theorem unusable_iff : ¬ Usable text ↔ ∀ c ∈ text, c.isAlphanum = false := by
  simp [Usable]

/-- Each letter and digit is written, whatever was written before. -/
theorem toUpper_mem_constantFrom (usable : c.isAlphanum = true) (member : c ∈ text)
    (last : Option Char) : c.toUpper ∈ constantFrom last text := by
  induction text generalizing last with
  | nil => cases member
  | cons d rest ih =>
    rw [constantFrom]
    rcases List.mem_cons.mp member with rfl | later
    · rw [if_pos usable]
      exact List.mem_cons_self
    · split
      · exact List.mem_cons_of_mem _ (ih later _)
      · split
        · exact List.mem_cons_of_mem _ (ih later _)
        · exact ih later _

/-- A text without letters and digits leaves underscores at most. -/
theorem constantFrom_unusable (unusable : ¬ Usable text) (last : Option Char) :
    ∀ c ∈ constantFrom last text, c = '_' := by
  rw [unusable_iff] at unusable
  induction text generalizing last with
  | nil => simp [constantFrom]
  | cons d rest ih =>
    obtain ⟨here, behind⟩ := List.forall_mem_cons.mp unusable
    rw [constantFrom, here, if_neg Bool.false_ne_true]
    split
    · exact List.forall_mem_cons.mpr ⟨rfl, ih behind _⟩
    · exact ih behind _

/-- Nothing is written of what stands before the first word. -/
theorem constantFrom_front (unusable : ¬ Usable front) (rest : List Char) :
    constantFrom none (front ++ rest) = constantFrom none rest := by
  rw [unusable_iff] at unusable
  induction front with
  | nil => rfl
  | cons d others ih =>
    obtain ⟨here, behind⟩ := List.forall_mem_cons.mp unusable
    rw [List.cons_append, constantFrom, here, if_neg Bool.false_ne_true, if_neg (by simp),
      ih behind]

/-- A word is written letter by letter. -/
theorem constantFrom_word (usable : ∀ c ∈ word, c.isAlphanum = true) (last : Option Char)
    (rest : List Char) :
    constantFrom last (word ++ rest) =
      word.map Char.toUpper ++
        constantFrom ((word.map Char.toUpper).getLast?.or last) rest := by
  induction word generalizing last with
  | nil => rfl
  | cons d others ih =>
    obtain ⟨here, behind⟩ := List.forall_mem_cons.mp usable
    rw [List.cons_append, constantFrom, if_pos here, ih behind, List.map_cons, List.getLast?_cons,
      List.cons_append]
    cases (others.map Char.toUpper).getLast? <;> rfl

/-- An underscore parts a word from what follows it. -/
theorem constantFrom_back {last : Char} (ends : ∀ c ∈ back.head?, c.isAlphanum = false)
    (solid : last ≠ '_') : ∀ c ∈ (constantFrom (some last) back).head?, c = '_' := by
  cases back with
  | nil => simp [constantFrom]
  | cons d rest => simp [constantFrom, ends d rfl, solid]

/-- A text without an underscore is what is left of a longer one if only underscores
follow it there. -/
theorem unended_eq_iff (bare : '_' ∉ word) (some : word ≠ []) :
    dropTrailing '_' written = word ↔
      ∃ behind, written = word ++ behind ∧ ∀ c ∈ behind, c = '_' := by
  constructor
  · rintro rfl
    refine ⟨(written.reverse.takeWhile (· == '_')).reverse, ?_, fun c member => ?_⟩
    · rw [dropTrailing, ← List.reverse_append, List.takeWhile_append_dropWhile,
        List.reverse_reverse]
    · simpa using List.mem_takeWhile_imp (List.mem_reverse.mp member)
  · rintro ⟨behind, rfl, all⟩
    obtain ⟨front, last, rfl⟩ := (List.eq_nil_or_concat' word).resolve_left some
    have solid : last ≠ '_' := fun same => bare (by simp [same])
    rw [dropTrailing, List.reverse_append, List.dropWhile_append_of_pos (by simpa using all),
      List.reverse_concat, List.dropWhile_cons_of_neg (by simpa using solid), List.reverse_cons,
      List.reverse_reverse]

/-- Only letters are raised to letters. -/
theorem isAlphanum_of_toUpper (letter : c.toUpper.isAlphanum = true) : c.isAlphanum = true := by
  by_cases lower : c.isLower = true
  · unfold Char.isAlphanum Char.isAlpha
    simp [lower]
  · have kept : c.toUpper = c := by
      unfold Char.isLower at lower
      simp only [Bool.and_eq_true, decide_eq_true_eq] at lower
      exact dif_neg lower
    rwa [kept] at letter

/-- Something is written of a text with a letter or digit, and the word is in front only
where a digit would be. -/
theorem constant_eq_value (usable : Usable text) :
    constant text = "VALUE".toList ↔
      dropTrailing '_' (constantFrom none text) = "VALUE".toList := by
  obtain ⟨c, member, letter⟩ := usable
  have shown : dropTrailing '_' (constantFrom none text) ≠ [] := by
    rw [dropTrailing, ne_eq, List.reverse_eq_nil_iff, List.dropWhile_eq_nil_iff]
    intro all
    have raised := toUpper_mem_constantFrom letter member none
    have score := all _ (List.mem_reverse.mpr raised)
    exact toUpper_ne_underscore letter (by simpa using score)
  rw [Naming.constant]
  generalize dropTrailing '_' (constantFrom none text) = kept at shown
  obtain ⟨first, rest, rfl⟩ := List.exists_cons_of_ne_nil shown
  simp only
  split
  · next digit =>
    constructor
    · intro same
      have length := congrArg List.length same
      simp at length
    · intro same
      have other : first = 'V' := (List.cons.inj same).1
      subst other
      cases digit
  · exact Iff.rfl

/-- The first word of a text with letters or digits. -/
theorem exists_word (usable : Usable text) :
    ∃ front word back, text = front ++ word ++ back ∧ ¬ Usable front ∧ word ≠ [] ∧
      (∀ c ∈ word, c.isAlphanum = true) ∧ ∀ c ∈ back.head?, c.isAlphanum = false := by
  have kept : text.dropWhile (!·.isAlphanum) ≠ [] := by
    obtain ⟨c, member, letter⟩ := usable
    intro none
    have all := List.dropWhile_eq_nil_iff.mp none c member
    simp [letter] at all
  obtain ⟨first, rest, shown⟩ := List.exists_cons_of_ne_nil kept
  have opens : first.isAlphanum = true := by
    have head := List.head?_dropWhile_not (fun c => !c.isAlphanum) text
    simpa [shown] using head
  refine ⟨text.takeWhile (!·.isAlphanum), (first :: rest).takeWhile Char.isAlphanum,
    (first :: rest).dropWhile Char.isAlphanum, ?_, ?_, ?_, ?_, ?_⟩
  · rw [List.append_assoc, List.takeWhile_append_dropWhile, ← shown,
      List.takeWhile_append_dropWhile]
  · rw [unusable_iff]
    intro c member
    simpa using List.mem_takeWhile_imp member
  · rw [List.takeWhile_cons_of_pos opens]
    exact List.cons_ne_nil _ _
  · exact fun c member => List.mem_takeWhile_imp member
  · intro c head
    have stops := List.head?_dropWhile_not Char.isAlphanum (first :: rest)
    rw [Option.mem_def.mp head] at stops
    simpa using stops

/-- Two texts agree up to their first underscores. -/
theorem append_inj_of_bare {word other back behind : List Char} (bare : '_' ∉ word)
    (bare' : '_' ∉ other) (ends : ∀ c ∈ back.head?, c = '_') (ends' : ∀ c ∈ behind.head?, c = '_')
    (same : word ++ back = other ++ behind) : word = other ∧ back = behind := by
  have upTo {word back : List Char} (bare : '_' ∉ word) (ends : ∀ c ∈ back.head?, c = '_') :
      (word ++ back).takeWhile (· ≠ '_') = word := by
    have inside : ∀ c ∈ word, decide (c ≠ '_') = true := fun c member =>
      decide_eq_true fun score => bare (score ▸ member)
    have stops : back.takeWhile (· ≠ '_') = [] := by
      cases back with
      | nil => rfl
      | cons c rest => exact List.takeWhile_cons_of_neg (by simp [ends c rfl])
    rw [List.takeWhile_append_of_pos inside, stops, List.append_nil]
  have word_eq : word = other := by rw [← upTo bare ends, same, upTo bare' ends']
  subst word_eq
  exact ⟨rfl, List.append_cancel_left same⟩

/-- The word for a text without letters and digits is also the symbol of a text that says
just this word. -/
theorem constant_eq_value_iff (usable : Usable text) :
    constant text = "VALUE".toList ↔ SaysValue text := by
  rw [constant_eq_value usable, unended_eq_iff (by decide) (by decide)]
  constructor
  · rintro ⟨behind, whole, scores⟩
    obtain ⟨front, word, back, rfl, frontless, some, letters, ends⟩ := exists_word usable
    have bare : ∀ c ∈ word.map Char.toUpper, c ≠ '_' := by
      intro c member
      obtain ⟨d, inside, rfl⟩ := List.mem_map.mp member
      exact toUpper_ne_underscore (letters d inside)
    obtain ⟨last, final⟩ : ∃ last, (word.map Char.toUpper).getLast? = .some last :=
      ⟨_, List.getLast?_eq_some_getLast (by simpa using some)⟩
    rw [List.append_assoc, constantFrom_front frontless, constantFrom_word letters, final,
      Option.some_or] at whole
    obtain ⟨same, rest⟩ := append_inj_of_bare (fun member => bare _ member rfl) (by decide)
      (constantFrom_back ends (bare last (List.mem_of_getLast? final)))
      (fun c head => scores c (List.mem_of_head? head)) whole
    refine ⟨front, word, back, rfl, frontless, ?_, same⟩
    -- A letter behind the word would have been written behind the underscore.
    rintro ⟨c, member, letter⟩
    have raised := toUpper_mem_constantFrom letter member (.some last)
    exact toUpper_ne_underscore letter (scores _ (rest ▸ raised))
  · rintro ⟨front, word, back, rfl, frontless, backless, same⟩
    have letters : ∀ c ∈ word, c.isAlphanum = true := by
      intro c member
      have raised : c.toUpper ∈ "VALUE".toList := same ▸ List.mem_map_of_mem member
      have all : ∀ c ∈ "VALUE".toList, c.isAlphanum = true := List.all_eq_true.mp (by decide)
      exact isAlphanum_of_toUpper (all _ raised)
    refine ⟨constantFrom (("VALUE".toList).getLast?.or none) back, ?_,
      constantFrom_unusable backless _⟩
    rw [List.append_assoc, constantFrom_front frontless, constantFrom_word letters, same]

/-! Names of members. -/

/-- A value that says more than the word gives its choice the symbol, and one that says
just the word does so for want of a label only. -/
theorem choiceSymbol_eq (choice : Choice) (usable : Usable choice.value.text.toList) :
    (¬ SaysValue choice.value.text.toList →
        choiceSymbol choice = String.ofList (constant choice.value.text.toList)) ∧
      (SaysValue choice.value.text.toList → choice.label ≠ "" →
        choiceSymbol choice = String.ofList (constant choice.label.toList)) := by
  have same := constant_eq_value_iff usable
  constructor
  · intro value
    have other : constant choice.value.text.toList ≠ "VALUE".toList := fun is => value (same.mp is)
    rw [choiceSymbol, decide_eq_false other]
    rfl
  · intro value labelled
    rw [choiceSymbol, decide_eq_true (same.mpr value)]
    simp [labelled]

private theorem members_length (used : List String) (choices : List Choice) :
    (members used choices).length = choices.length := by
  induction choices generalizing used with
  | nil => rfl
  | cons choice rest ih => rw [members, List.length_cons, ih, List.length_cons]

/-- The members of choices are those of the first of them and then those of the others, for
which the names of the first are in use. -/
theorem members_append (used : List String) (before after : List Choice) :
    members used (before ++ after) = members used before ++
      members (((members used before).map Property.name).reverse ++ used) after := by
  induction before generalizing used with
  | nil => rfl
  | cons choice rest ih =>
    rw [List.cons_append, members, members, ih]
    simp

/-- The member of the choice behind `before` has the first spelling of a symbol that no
member before it has. -/
def CalledAfter (symbol : String) (before after : List Choice) (choice : Choice) : Prop :=
  ∃ member, (members [] (before ++ choice :: after))[before.length]? = some member ∧
    FirstSpelling (((members [] (before ++ choice :: after)).take before.length).map Property.name)
      symbol member.name

/-- A member is called after the symbol of its choice. -/
theorem calledAfter_choiceSymbol (before after : List Choice) (choice : Choice) :
    CalledAfter (choiceSymbol choice) before after choice := by
  have length := members_length [] before
  rw [CalledAfter, members_append, List.take_left' length,
    List.getElem?_append_right (Nat.le_of_eq length), length, Nat.sub_self, members]
  refine ⟨_, rfl, (firstSpelling_freeSpelling _ _).congr fun name => ?_⟩
  simp

/-- It is called after one symbol only, unless the symbols begin alike. -/
theorem CalledAfter.begins {symbol other : String} (first : CalledAfter symbol before after choice)
    (second : CalledAfter other before after choice) :
    ∃ name : List Char, symbol.toList <+: name ∧ other.toList <+: name := by
  obtain ⟨member, place, number, spelled, _⟩ := first
  obtain ⟨same, place', number', spelled', _⟩ := second
  rw [place] at place'
  cases place'
  exact ⟨member.name.toList, spelled ▸ spelling_begins symbol number,
    spelled' ▸ spelling_begins other number'⟩

/-- A choice whose value has a letter or digit is called after its value under every label
exactly if the value says more, or something else, than the one word that stands for values
without letters and digits. -/
theorem label_ignored_iff (before after : List Choice) (value : ChoiceValue)
    (usable : Usable value.text.toList) :
    (∀ label,
        CalledAfter (String.ofList (constant value.text.toList)) before after ⟨value, label⟩) ↔
      ¬ SaysValue value.text.toList := by
  constructor
  · intro ignored word
    have labelled : "A" ≠ "" := by decide
    have symbol := (choiceSymbol_eq ⟨value, "A"⟩ usable).2 word labelled
    have letter : constant "A".toList = ['A'] := by decide
    have after_label := calledAfter_choiceSymbol before after ⟨value, "A"⟩
    obtain ⟨name, first, second⟩ := (ignored "A").begins after_label
    rw [(constant_eq_value_iff usable).mpr word, String.toList_ofList] at first
    rw [symbol, letter, String.toList_ofList] at second
    have alike := List.prefix_of_prefix_length_le second first (by decide)
    revert alike
    decide
  · intro word label
    have symbol := (choiceSymbol_eq ⟨value, label⟩ usable).1 word
    rw [← symbol]
    exact calledAfter_choiceSymbol before after ⟨value, label⟩

theorem in_progress_called_after_value :
    Usable "in-progress".toList ∧
      ∀ label, CalledAfter "IN_PROGRESS" [⟨.str "in_progress", "Started"⟩] []
        ⟨.str "in-progress", label⟩ := by
  have usable : Usable "in-progress".toList := ⟨'i', by decide, by decide⟩
  have symbol : constant "in-progress".toList = "IN_PROGRESS".toList := by decide
  refine ⟨usable, fun label => ?_⟩
  have called := (label_ignored_iff [⟨.str "in_progress", "Started"⟩] [] (.str "in-progress")
    usable).mpr (fun word => by
      have same := (constant_eq_value_iff usable).mpr word
      revert same
      decide) label
  rwa [ChoiceValue.text, symbol, String.ofList_toList] at called

/-- Gold with the value "value" is called after its label. -/
theorem value_called_after_label :
    Usable "value".toList ∧ ¬ CalledAfter "VALUE" [] [] ⟨.str "value", "Gold"⟩ := by
  refine ⟨⟨'v', by decide, by decide⟩, fun called => ?_⟩
  have after_label := calledAfter_choiceSymbol [] [] ⟨.str "value", "Gold"⟩
  have symbol : choiceSymbol ⟨.str "value", "Gold"⟩ = "GOLD" := by decide
  obtain ⟨name, first, second⟩ := called.begins after_label
  rw [symbol] at second
  have alike := List.prefix_of_prefix_length_le second first (by decide)
  revert alike
  decide

end ApiScribe.TypeScript
