import ApiScribe.Naming
import ApiScribe.Proofs.Text.Marks
import Mathlib.Data.List.DropRight
import Mathlib.Data.List.TakeWhile

/-! Kebab spelling is canonical. A dash is written only where the last character written is
none, whether a separator asks for it or the beginning of a word, so single dashes stand
between words and nowhere else. All other characters are kept in their small form, and a
name that is spelled so already is not changed. -/
namespace ApiScribe.Naming
open Text

/-- A text in kebab spelling: no capital, no other separator than dashes, and these stand
one by one between other characters. -/
structure KebabSpelled (text : List Char) : Prop where
  small : ∀ c ∈ text, c.isUpper = false
  underscore : '_' ∉ text
  space : ' ' ∉ text
  single : ¬ ['-', '-'] <:+: text
  first : text.head? ≠ some '-'
  last : text.getLast? ≠ some '-'

variable {c : Char} {before written : Option Char} {text rest : List Char}

/-- Characters of which not both are dashes. -/
def NotDashes (left right : Char) : Prop := ¬ (left = '-' ∧ right = '-')

/-- A text may be written behind a dash if it neither begins with one nor holds two in a row. -/
theorem chain_behind_dash : ('-' :: text).IsChain NotDashes ↔
    text.head? ≠ some '-' ∧ ¬ ['-', '-'] <:+: text := by
  rw [List.isChain_cons, not_doubled_iff]
  refine and_congr_left fun _ => ⟨fun apart head => apart '-' head ⟨rfl, rfl⟩, ?_⟩
  exact fun other c head both => other (both.2 ▸ head)

private theorem kebab_eq (name : List Char) :
    kebab name = (kebabFrom none none name).rdropWhile (· == '-') := rfl

/-- Where nothing is written no dash may follow, as where a dash is. -/
theorem kebabFrom_none (before : Option Char) (text : List Char) :
    kebabFrom before none text = kebabFrom before (some '-') text := by
  induction text generalizing before with
  | nil => rfl
  | cons c rest ih =>
    have refused : admitsDash none = false ∧ admitsDash (some '-') = false := ⟨rfl, rfl⟩
    rw [kebabFrom, kebabFrom, refused.1, refused.2, ih]

/-! Characters. -/

private theorem isKebabSeparator_iff : isKebabSeparator c = true ↔ c ∈ ['_', ' ', '-'] := by
  simp [isKebabSeparator, or_assoc]

private theorem separator_not_isAlpha (separates : isKebabSeparator c = true) :
    c.isAlpha = false := by
  rw [isKebabSeparator_iff] at separates
  simp only [List.mem_cons, List.not_mem_nil, or_false] at separates
  rcases separates with rfl | rfl | rfl <;> rfl

private theorem isUpper_toLower (c : Char) : c.toLower.isUpper = false := by
  unfold Char.isUpper Char.toLower
  split <;> grind [UInt32.toNat_add, Char.toNat_val]

private theorem isAlpha_toLower (capital : c.isUpper = true) : c.toLower.isAlpha = true := by
  unfold Char.isAlpha Char.isLower Char.toLower
  unfold Char.isUpper at capital ⊢
  simp only [decide_eq_true_eq, Bool.or_eq_true, Bool.and_eq_true] at capital ⊢
  split
  · right
    simp only [UInt32.le_iff_toNat_le, UInt32.toNat_add, ge_iff_le] at capital ⊢
    grind
  · contradiction

private theorem toLower_of_small (small : c.isUpper = false) : c.toLower = c := by
  unfold Char.isUpper at small
  exact dif_neg (of_decide_eq_false small)

/-- A letter and its small form are no separators, and other characters are their own small
form. -/
theorem isKebabSeparator_toLower (c : Char) : isKebabSeparator c.toLower = isKebabSeparator c := by
  by_cases capital : c.isUpper = true
  · have letter : c.isAlpha = true := by
      unfold Char.isAlpha
      rw [capital, Bool.true_or]
    have small := isAlpha_toLower capital
    have word {d : Char} (letter : d.isAlpha = true) : isKebabSeparator d = false :=
      Bool.eq_false_iff.mpr fun separates => by simp [separator_not_isAlpha separates] at letter
    rw [word letter, word small]
  · rw [toLower_of_small (by simpa using capital)]

private theorem toLower_ne_dash (other : ¬ isKebabSeparator c = true) : c.toLower ≠ '-' := by
  intro dash
  rw [← isKebabSeparator_toLower, dash] at other
  exact other rfl

/-! What is written. -/

/-- What a text says in small letters, without its separators. -/
def letters (text : List Char) : List Char :=
  (text.map Char.toLower).filter (· ∉ ['_', ' ', '-'])

private theorem letters_separator (separates : isKebabSeparator c = true) (rest : List Char) :
    letters (c :: rest) = letters rest := by
  rw [← isKebabSeparator_toLower, isKebabSeparator_iff] at separates
  rw [letters, List.map_cons,
    List.filter_cons_of_neg (by simpa only [decide_eq_true_eq, not_not] using separates), letters]

private theorem letters_other (other : ¬ isKebabSeparator c = true) (rest : List Char) :
    letters (c :: rest) = c.toLower :: letters rest := by
  rw [← isKebabSeparator_toLower, isKebabSeparator_iff] at other
  rw [letters, List.map_cons, List.filter_cons_of_pos (by simpa using other), letters]

/-- Without dashes, what is written is what the text says. -/
theorem letters_kebabFrom (before written : Option Char) (text : List Char) :
    (kebabFrom before written text).filter (· ≠ '-') = letters text := by
  have dashed (text : List Char) : ('-' :: text).filter (· ≠ '-') = text.filter (· ≠ '-') :=
    List.filter_cons_of_neg (by decide)
  fun_induction kebabFrom before written text with
  | case1 => rfl
  | case2 before written c rest separates admits ih =>
    rw [dashed, ih, letters_separator separates]
  | case3 before written c rest separates refused ih => rw [ih, letters_separator separates]
  | case4 before written c rest other tail opens ih =>
    rw [dashed, List.filter_cons_of_pos (by simpa using toLower_ne_dash other), ih,
      letters_other other]
  | case5 before written c rest other tail closed ih =>
    rw [List.filter_cons_of_pos (by simpa using toLower_ne_dash other), ih, letters_other other]

/-- Whatever is written is a dash or a character of what the text says. -/
theorem mem_kebabFrom (member : c ∈ kebabFrom before written text) : c = '-' ∨ c ∈ letters text := by
  refine or_iff_not_imp_left.mpr fun other => ?_
  rw [← letters_kebabFrom before written]
  exact List.mem_filter.mpr ⟨member, by simpa using other⟩

private theorem mem_letters (member : c ∈ letters text) :
    c.isUpper = false ∧ c ∉ ['_', ' ', '-'] := by
  obtain ⟨small, other⟩ := List.mem_filter.mp member
  obtain ⟨d, _, rfl⟩ := List.mem_map.mp small
  exact ⟨isUpper_toLower d, by simpa using other⟩

/-- No dash is written behind another one. -/
theorem chain_kebabFrom (before : Option Char) (last : Char) (text : List Char) :
    (last :: kebabFrom before (some last) text).IsChain NotDashes := by
  induction text generalizing before last with
  | nil => exact List.IsChain.singleton last
  | cons c rest ih =>
    have dash (admits : admitsDash (some last) = true) : NotDashes last '-' := by
      rintro ⟨rfl, _⟩
      cases admits
    rw [kebabFrom]
    split
    · split
      · next admits => exact (ih _ '-').cons_cons (dash admits)
      · exact ih _ last
    · next other =>
      have behind (front : Char) : NotDashes front c.toLower := fun both => toLower_ne_dash other both.2
      have tail := ih (some c) c.toLower
      split
      · next opens =>
        rw [Bool.and_eq_true] at opens
        exact (tail.cons_cons (behind '-')).cons_cons (dash opens.2)
      · exact tail.cons_cons (behind last)

/-- A text in kebab spelling is written as it is. -/
theorem kebabFrom_of_small {last : Char} (small : ∀ c ∈ text, c.isUpper = false)
    (underscore : '_' ∉ text) (space : ' ' ∉ text) (chain : (last :: text).IsChain NotDashes)
    (before : Option Char) : kebabFrom before (some last) text = text := by
  induction text generalizing before last with
  | nil => rfl
  | cons c rest ih =>
    rw [List.isChain_cons_cons] at chain
    have below := ih (fun d member => small d (List.mem_cons_of_mem c member))
      (fun member => underscore (List.mem_cons_of_mem c member))
      (fun member => space (List.mem_cons_of_mem c member)) chain.2
    rw [kebabFrom]
    split
    · next separates =>
      rw [isKebabSeparator_iff] at separates
      simp only [List.mem_cons, List.not_mem_nil, or_false] at separates
      obtain rfl : c = '-' := by
        rcases separates with rfl | rfl | dash
        · exact absurd List.mem_cons_self underscore
        · exact absurd List.mem_cons_self space
        · exact dash
      have admits : admitsDash (some last) = true := by
        simpa [admitsDash] using fun dash => chain.1 ⟨dash, rfl⟩
      rw [if_pos admits, below]
    · have capital : c.isUpper = false := small c List.mem_cons_self
      have kept : c.toLower = c := toLower_of_small capital
      have closed : opensWord before c rest = false := by
        cases before <;> simp [opensWord, capital]
      simp only [closed, kept, below, Bool.false_and, Bool.false_eq_true, if_false]

/-! The spelling. -/

/-- A name is spelled as what is written, up to dashes at its end. -/
theorem exists_dashes (name : List Char) :
    ∃ dashes, kebab name ++ dashes = kebabFrom none none name ∧ ∀ c ∈ dashes, c = '-' :=
  ⟨_, List.rdropWhile_append_rtakeWhile, fun _ member => by
    simpa using List.mem_rtakeWhile_imp member⟩

private theorem letters_kebab (name : List Char) :
    (kebab name).filter (· ≠ '-') = letters name := by
  obtain ⟨dashes, whole, all⟩ := exists_dashes name
  have nothing : dashes.filter (· ≠ '-') = [] :=
    List.filter_eq_nil_iff.mpr fun c member => by simp [all c member]
  rw [← letters_kebabFrom none none name, ← whole, List.filter_append, nothing, List.append_nil]

private theorem kebabSpelled_kebab (name : List Char) : KebabSpelled (kebab name) := by
  obtain ⟨dashes, whole, _⟩ := exists_dashes name
  have char {c : Char} (member : c ∈ kebab name) : c = '-' ∨ c ∈ letters name :=
    mem_kebabFrom (whole ▸ List.mem_append_left dashes member)
  have chain := chain_kebabFrom none '-' name
  rw [← kebabFrom_none, ← whole, ← List.cons_append] at chain
  obtain ⟨first, single⟩ := chain_behind_dash.mp chain.left_of_append
  refine ⟨fun c member => ?_, fun member => ?_, fun member => ?_, single, first, fun ends => ?_⟩
  · rcases char member with rfl | said
    · rfl
    · exact (mem_letters said).1
  · exact absurd ((char member).resolve_left (by decide)) fun said => by simpa using mem_letters said
  · exact absurd ((char member).resolve_left (by decide)) fun said => by simpa using mem_letters said
  · have some : kebab name ≠ [] := by
      intro none
      rw [none] at ends
      cases ends
    refine List.rdropWhile_last_not (· == '-') (kebabFrom none none name) some ?_
    rw [List.getLast?_eq_some_getLast some] at ends
    exact beq_iff_eq.mpr (Option.some.inj ends)

/-- A text is in kebab spelling exactly if spelling it so does not change it. -/
theorem kebab_eq_self_iff (text : List Char) : kebab text = text ↔ KebabSpelled text := by
  refine ⟨fun same => same ▸ kebabSpelled_kebab text, fun spelled => ?_⟩
  have written : kebabFrom none none text = text := by
    rw [kebabFrom_none]
    exact kebabFrom_of_small spelled.small spelled.underscore spelled.space
      (chain_behind_dash.mpr ⟨spelled.first, spelled.single⟩) none
  rw [kebab_eq, written, List.rdropWhile_eq_self_iff]
  intro some dash
  refine spelled.last ?_
  rw [List.getLast?_eq_some_getLast some, eq_of_beq dash]

/-- Kebab spelling is canonical: it has the form of one, keeps what a name says in small
letters and does not change what is spelled so already. -/
theorem kebab_canonical (name : List Char) :
    KebabSpelled (kebab name) ∧
      (kebab name).filter (· ≠ '-') = (name.map Char.toLower).filter (· ∉ ['_', ' ', '-']) ∧
      kebab (kebab name) = kebab name :=
  ⟨kebabSpelled_kebab name, letters_kebab name,
    (kebab_eq_self_iff _).mpr (kebabSpelled_kebab name)⟩

end ApiScribe.Naming
