import ApiScribe.Expr.Number

/-! Integers in decimal digits, as several writers print them: a minus sign
where one is due and then digits alone, from which the number is read back. -/
namespace ApiScribe
open Text

theorem isDigit_of_mem_toDigits (member : c ∈ Nat.toDigits 10 number) : isDigit c = true := by
  have core := Nat.isDigit_of_mem_toDigits (by decide) (by decide) member
  simpa [Char.isDigit, isDigit, Char.le_def] using core

theorem readDigits?_toDigits (number : Nat) :
    Expr.readDigits? (Nat.toDigits 10 number) = some number := by
  have digits : (Nat.toDigits 10 number).all isDigit = true :=
    List.all_eq_true.mpr fun c member => isDigit_of_mem_toDigits member
  have value : (Nat.toDigits 10 number).foldl
      (fun number c => number * 10 + (c.toNat - '0'.toNat)) 0 = number := by
    have core := Nat.ofDigitChars_ten_toDigits (n := number)
    rw [Nat.ofDigitChars_eq_foldl] at core
    simpa only [Nat.mul_comm] using core
  rw [Expr.readDigits?, digits, value, if_neg (by simp [Nat.toDigits_ne_nil])]

/-- The digits of an integer behind its sign. -/
theorem integer_chars (number : Int) :
    (toString number).toList =
      if number < 0 then '-' :: Nat.toDigits 10 number.natAbs
      else Nat.toDigits 10 number.natAbs := by
  rw [Int.toString_eq_repr, Int.repr_eq_if]
  by_cases negative : number < 0
  · have size : (-number).toNat = number.natAbs := by omega
    rw [if_neg (by omega), if_pos negative, size, String.toList_append, Nat.toList_repr]
    rfl
  · have size : number.toNat = number.natAbs := by omega
    rw [if_pos (by omega), if_neg negative, size, Nat.toList_repr]

/-- What an integer is written with. -/
theorem mem_integer_chars {number : Int} (member : c ∈ (toString number).toList) :
    isDigit c = true ∨ c = '-' := by
  rw [integer_chars] at member
  split at member
  · rcases List.mem_cons.mp member with rfl | member
    · exact .inr rfl
    · exact .inl (isDigit_of_mem_toDigits member)
  · exact .inl (isDigit_of_mem_toDigits member)

theorem integer_chars_ne_nil (number : Int) : (toString number).toList ≠ [] := by
  rw [integer_chars]
  split
  · exact List.cons_ne_nil _ _
  · exact Nat.toDigits_ne_nil

namespace Expr

/-- A number of digits alone carries no sign. -/
theorem cutSign_toDigits (number : Nat) :
    cutSign (Nat.toDigits 10 number) = (false, Nat.toDigits 10 number) := by
  rw [cutSign.eq_def]
  split
  · next rest same =>
    have digit := isDigit_of_mem_toDigits (same ▸ List.mem_cons_self)
    cases digit
  · next rest same =>
    have digit := isDigit_of_mem_toDigits (same ▸ List.mem_cons_self)
    cases digit
  · rfl

/-- An integer of 64 bits is read as it was written. -/
theorem readInt?_toString {number : Int} (least : -Int.pow 2 63 ≤ number)
    (most : number < Int.pow 2 63) : readInt? (toString number).toList = some number := by
  rw [integer_chars]
  by_cases negative : number < 0
  · have value : -(number.natAbs : Int) = number := by omega
    rw [if_pos negative, readInt?]
    simp only [cutSign, readDigits?_toDigits, if_true, value, if_pos (And.intro least most)]
  · have value : (number.natAbs : Int) = number := by omega
    rw [if_neg negative, readInt?]
    simp only [cutSign_toDigits, readDigits?_toDigits, Bool.false_eq_true, if_false, value,
      if_pos (And.intro least most)]

theorem readNumber?_toString {number : Int} (least : -Int.pow 2 63 ≤ number)
    (most : number < Int.pow 2 63) : readNumber? (toString number).toList = some (.int number) := by
  have kept : (toString number).toList.filter (· ≠ '_') = (toString number).toList := by
    refine List.filter_eq_self.mpr fun c member => ?_
    rcases mem_integer_chars member with digit | rfl
    · have other : c ≠ '_' := by
        rintro rfl
        cases digit
      simpa using other
    · rfl
  have read := readInt?_toString least most
  obtain ⟨c, rest, shown⟩ := List.exists_cons_of_ne_nil (integer_chars_ne_nil number)
  have head : (isDigit c || c == '-' || c == '.') = true := by
    have inside : c ∈ (toString number).toList := shown ▸ List.mem_cons_self
    rcases mem_integer_chars inside with digit | rfl
    · rw [digit]
      rfl
    · rfl
  rw [shown] at kept read ⊢
  rw [readNumber?]
  simp only [head, if_true, kept, read]

end Expr
end ApiScribe
