import ApiScribe.Proofs.Integers
import ApiScribe.TypeScript.Enumeration
import Mathlib.Data.List.Nodup
import Mathlib.Data.List.Perm.Subperm

/-! Symbols of enumeration members. What a member is called is an identifier of
capitals, digits and underscores; a number is put behind it only where names of
earlier members leave no lower one. -/
namespace ApiScribe.TypeScript
open Text

variable {c : Char} {name rest : List Char} {symbol : String} {used : List String}

/-- A character of a symbol. -/
def isSymbolChar (c : Char) : Bool := c.isUpper || c.isDigit || c == '_'

/-- An identifier of capitals, digits and underscores that a capital begins. -/
structure Symbol (name : List Char) : Prop where
  starts : ∃ c rest, name = c :: rest ∧ c.isUpper = true
  chars : ∀ c ∈ name, isSymbolChar c = true

private theorem Symbol.append (symbol : Symbol name) (chars : ∀ c ∈ rest, isSymbolChar c = true) :
    Symbol (name ++ rest) where
  starts := by
    obtain ⟨c, tail, rfl, capital⟩ := symbol.starts
    exact ⟨c, tail ++ rest, rfl, capital⟩
  chars d member := (List.mem_append.mp member).elim (symbol.chars d) (chars d)

/-! The symbol of a text. -/

/-- A letter or digit that is raised is a capital or a digit. -/
theorem toUpper_symbolic (usable : c.isAlphanum = true) :
    c.toUpper.isUpper = true ∨ c.toUpper.isDigit = true := by
  unfold Char.isAlphanum Char.isAlpha Char.isLower at usable
  unfold Char.toUpper
  unfold Char.isUpper Char.isDigit at usable ⊢
  simp only [Bool.or_eq_true, Bool.and_eq_true, decide_eq_true_eq, UInt32.le_iff_toNat_le]
    at usable ⊢
  split <;> grind [UInt32.toNat_add, Char.toNat_val]

theorem toUpper_ne_underscore (usable : c.isAlphanum = true) : c.toUpper ≠ '_' := by
  intro same
  rcases toUpper_symbolic usable with capital | digit
  · rw [same] at capital
    cases capital
  · rw [same] at digit
    cases digit

private theorem constantFrom_chars (written : Option Char) (name : List Char) :
    ∀ c ∈ Naming.constantFrom written name, isSymbolChar c = true := by
  fun_induction Naming.constantFrom written name with
  | case1 => simp
  | case2 written c rest usable ih =>
    refine List.forall_mem_cons.mpr ⟨?_, ih⟩
    rcases toUpper_symbolic usable with capital | digit
    · simp [isSymbolChar, capital]
    · simp [isSymbolChar, digit]
  | case3 written c rest unusable follows ih => exact List.forall_mem_cons.mpr ⟨rfl, ih⟩
  | case4 written c rest unusable follows ih => exact ih

/-- Nothing is written before the first letter or digit. -/
theorem constantFrom_head (name : List Char) :
    ∀ c ∈ (Naming.constantFrom none name).head?, c.isUpper = true ∨ c.isDigit = true := by
  induction name with
  | nil => simp [Naming.constantFrom]
  | cons c rest ih =>
    rw [Naming.constantFrom]
    split
    · next usable =>
      intro d first
      cases first
      exact toUpper_symbolic usable
    · simpa using ih

/-- The symbol of a text is an identifier of capitals, digits and underscores. -/
theorem symbol_constant (name : List Char) : Symbol (Naming.constant name) := by
  have begins := dropTrailing_prefix '_' (Naming.constantFrom none name)
  have chars := constantFrom_chars none name
  have head := constantFrom_head name
  rw [Naming.constant]
  generalize dropTrailing '_' (Naming.constantFrom none name) = kept at begins
  have value : Symbol "VALUE".toList := ⟨⟨'V', _, rfl, rfl⟩, List.all_eq_true.mp (by decide)⟩
  have inside : ∀ c ∈ kept, isSymbolChar c = true := fun c member => chars c (begins.subset member)
  cases kept with
  | nil => exact value
  | cons c rest =>
    obtain ⟨behind, whole⟩ := begins
    have first := head c (by rw [← whole]; rfl)
    simp only
    split
    · -- The underscore of the word in front is a character of a symbol like the others.
      have word : ∀ c ∈ ['_'], isSymbolChar c = true := List.all_eq_true.mp (by decide)
      exact (value.append word).append inside
    · next other => exact ⟨⟨c, rest, rfl, first.resolve_right other⟩, inside⟩

theorem symbol_choiceSymbol (choice : Choice) : Symbol (choiceSymbol choice).toList := by
  rw [choiceSymbol]
  split
  · rw [String.toList_ofList]
    exact symbol_constant _
  · rw [String.toList_ofList]
    exact symbol_constant _

/-! Spellings of a symbol. -/

private theorem spelling_succ (symbol : String) (number : Nat) :
    (spelling symbol (number + 1)).toList =
      symbol.toList ++ '_' :: Nat.toDigits 10 (number + 2) := by
  rw [spelling, String.toList_append, String.toList_append, List.append_assoc]
  congr 1
  simp [Nat.toString_eq_repr, Nat.toList_repr]

theorem spelling_begins (symbol : String) (number : Nat) :
    symbol.toList <+: (spelling symbol number).toList := by
  cases number with
  | zero => exact List.prefix_rfl
  | succ number =>
    rw [spelling_succ]
    exact List.prefix_append _ _

/-- Each number leads to another name. -/
theorem spelling_injective (symbol : String) : Function.Injective (spelling symbol) := by
  intro first second same
  have chars := congrArg String.toList same
  cases first with
  | zero =>
    cases second with
    | zero => rfl
    | succ second => simp [spelling] at chars
  | succ first =>
    cases second with
    | zero => simp [spelling] at chars
    | succ second =>
      rw [spelling_succ, spelling_succ, List.append_cancel_left_eq, List.cons.injEq] at chars
      have read := congrArg Expr.readDigits? chars.2
      rw [readDigits?_toDigits, readDigits?_toDigits, Option.some.injEq] at read
      omega

theorem symbol_spelling (valid : Symbol symbol.toList) (number : Nat) :
    Symbol (spelling symbol number).toList := by
  cases number with
  | zero => exact valid
  | succ number =>
    rw [spelling_succ]
    refine valid.append (List.forall_mem_cons.mpr ⟨rfl, fun c member => ?_⟩)
    have digit := Nat.isDigit_of_mem_toDigits (by decide) (by decide) member
    simp [isSymbolChar, digit]

/-- A name is the first spelling of a symbol that is not in use. -/
def FirstSpelling (used : List String) (symbol name : String) : Prop :=
  ∃ number, name = spelling symbol number ∧ name ∉ used ∧
    ∀ lower < number, spelling symbol lower ∈ used

/-- Only what is in use matters, not in which order. -/
theorem FirstSpelling.congr {name : String} {others : List String}
    (same : ∀ name, name ∈ others ↔ name ∈ used) (first : FirstSpelling used symbol name) :
    FirstSpelling others symbol name := by
  obtain ⟨number, spelled, free, taken⟩ := first
  exact ⟨number, spelled, fun member => free ((same name).mp member),
    fun lower less => (same _).mpr (taken lower less)⟩

/-- As many names as are in use cannot take one spelling more. -/
theorem exists_free (used : List String) (symbol : String) :
    ∃ number ≤ used.length, spelling symbol number ∉ used := by
  by_contra none
  have taken : ∀ number ≤ used.length, spelling symbol number ∈ used := by
    intro number bound
    by_contra free
    exact none ⟨number, bound, free⟩
  have apart : ((List.range (used.length + 1)).map (spelling symbol)).Nodup :=
    List.Nodup.map (spelling_injective symbol) List.nodup_range
  have inside : (List.range (used.length + 1)).map (spelling symbol) ⊆ used := by
    intro name member
    obtain ⟨number, bound, rfl⟩ := List.mem_map.mp member
    exact taken number (Nat.le_of_lt_succ (List.mem_range.mp bound))
  have length := (List.subperm_of_subset apart inside).length_le
  rw [List.length_map, List.length_range] at length
  omega

/-- The search among the spellings finds the first one that is free. -/
theorem firstSpelling_freeSpelling (used : List String) (symbol : String) :
    FirstSpelling used symbol (freeSpelling used symbol) := by
  obtain ⟨number, bound, free⟩ := exists_free used symbol
  rw [freeSpelling, List.find?_map]
  cases found : (List.range (used.length + 1)).find?
      ((fun name => !used.contains name) ∘ spelling symbol) with
  | none =>
    have taken := List.find?_eq_none.mp found number (List.mem_range.mpr (Nat.lt_succ_of_le bound))
    exact absurd (by simpa using taken) free
  | some least =>
    obtain ⟨unused, _, lower⟩ := List.find?_range_eq_some.mp found
    exact ⟨least, rfl, by simpa using unused, fun number less => by simpa using lower number less⟩

end ApiScribe.TypeScript
