import ApiScribe.Text.Cut
import Mathlib.Data.List.Infix

/-! Texts as bytes of UTF-8. A reader of bytes cuts texts at byte offsets. Such a cut can be
made only if it begins before it ends, stays within the text and tears no character. -/
namespace ApiScribe.Bytewise
open Text

/-- The bytes of a text in UTF-8. -/
def bytes (text : List Char) : List UInt8 := text.flatMap String.utf8EncodeChar

/-- A byte offset of a text at which no character is torn. -/
def Boundary (text : List Char) (offset : Nat) : Prop :=
  ∃ front back, text = front ++ back ∧ byteLength front = offset

/-- The parts of a text before and behind a byte offset, if no character is torn there. -/
def parts? : Nat → List Char → Option (List Char × List Char)
  | 0, text => some ([], text)
  | _ + 1, [] => none
  | offset + 1, c :: rest =>
    if c.utf8Size ≤ offset + 1 then
      (parts? (offset + 1 - c.utf8Size) rest).map fun (front, back) => (c :: front, back)
    else none

/-- A cut that cannot be made. -/
structure Torn where
  text : List Char
  start : Nat
  stop : Nat
  deriving DecidableEq

/-- The part of a text from the byte `start` up to the byte `stop`. -/
def slice (text : List Char) (start stop : Nat) : Except Torn (List Char) :=
  match (parts? stop text).bind fun (front, _) => parts? start front with
  | some (_, piece) => .ok piece
  | none => .error ⟨text, start, stop⟩

variable {a c : Char} {text front piece back rest : List Char} {start stop offset : Nat}
  {byte : UInt8}

/-! Lengths. -/

@[simp] theorem bytes_nil : bytes [] = [] := rfl

@[simp] theorem bytes_cons (c : Char) (rest : List Char) :
    bytes (c :: rest) = String.utf8EncodeChar c ++ bytes rest := rfl

@[simp] theorem bytes_append (front back : List Char) :
    bytes (front ++ back) = bytes front ++ bytes back := List.flatMap_append

@[simp] theorem byteLength_nil : byteLength [] = 0 := rfl

@[simp] theorem byteLength_cons (c : Char) (rest : List Char) :
    byteLength (c :: rest) = c.utf8Size + byteLength rest := by
  have shifted (text : List Char) (count : Nat) :
      text.foldl (fun length c => length + c.utf8Size) count = count + byteLength text := by
    induction text generalizing count with
    | nil => rfl
    | cons c rest ih =>
      rw [byteLength, List.foldl_cons, List.foldl_cons, ih, ih]
      omega
  rw [byteLength, List.foldl_cons, shifted]
  omega

@[simp] theorem byteLength_append (front back : List Char) :
    byteLength (front ++ back) = byteLength front + byteLength back := by
  induction front with
  | nil => simp
  | cons c rest ih =>
    rw [List.cons_append, byteLength_cons, byteLength_cons, ih]
    omega

@[simp] theorem length_bytes (text : List Char) : (bytes text).length = byteLength text := by
  induction text with
  | nil => rfl
  | cons c rest ih =>
    rw [bytes_cons, List.length_append, String.length_utf8EncodeChar, ih, byteLength_cons]

/-- A character takes at least one byte. -/
theorem length_le_byteLength (text : List Char) : text.length ≤ byteLength text := by
  induction text with
  | nil => exact Nat.le_refl 0
  | cons c rest ih =>
    have size := c.utf8Size_pos
    rw [List.length_cons, byteLength_cons]
    omega

/-- Only the empty text takes no bytes. -/
theorem byteLength_eq_zero : byteLength text = 0 ↔ text = [] := by
  constructor
  · intro none
    have short := length_le_byteLength text
    exact List.eq_nil_of_length_eq_zero (by omega)
  · rintro rfl
    rfl

/-! Cuts. -/

/-- What is done behind a cut that is made. -/
@[simp] theorem ok_bind {α β : Type} (value : α) (next : α → Except Torn β) :
    ((.ok value : Except Torn α) >>= next) = next value := rfl

/-- A walk over a list makes all its cuts if each item's cuts can be made. -/
theorem mapM_ok {α β : Type} {read : α → Except Torn β} {value : α → β} {items : List α}
    (all : ∀ item ∈ items, read item = .ok (value item)) :
    items.mapM read = .ok (items.map value) := by
  induction items with
  | nil => rfl
  | cons item rest ih =>
    have others := ih fun later member => all later (List.mem_cons_of_mem item member)
    rw [List.mapM_cons, all item List.mem_cons_self, others]
    rfl

private theorem parts?_append (front back : List Char) :
    parts? (byteLength front) (front ++ back) = some (front, back) := by
  induction front with
  | nil => rw [byteLength_nil, List.nil_append, parts?]
  | cons c rest ih =>
    obtain ⟨size, same⟩ : ∃ size, c.utf8Size + byteLength rest = size + 1 :=
      Nat.exists_eq_add_one.mpr (Nat.add_pos_left c.utf8Size_pos _)
    have fits : c.utf8Size ≤ size + 1 := by omega
    have left : size + 1 - c.utf8Size = byteLength rest := by omega
    rw [byteLength_cons, same, List.cons_append, parts?, if_pos fits, left, ih]
    rfl

private theorem parts?_some (found : parts? offset text = some (front, back)) :
    text = front ++ back ∧ byteLength front = offset := by
  induction text generalizing offset front with
  | nil =>
    cases offset with
    | zero =>
      cases found
      exact ⟨rfl, rfl⟩
    | succ offset => cases found
  | cons c rest ih =>
    cases offset with
    | zero =>
      cases found
      exact ⟨rfl, rfl⟩
    | succ offset =>
      rw [parts?] at found
      split at found
      · next fits =>
        obtain ⟨⟨front', back'⟩, cut, same⟩ := Option.map_eq_some_iff.mp found
        cases same
        obtain ⟨rfl, size⟩ := ih cut
        refine ⟨rfl, ?_⟩
        rw [byteLength_cons]
        omega
      · cases found

/-- A slice is the part of a text between two others. -/
theorem slice_of (front piece back : List Char) (whole : text = front ++ (piece ++ back))
    (first : start = byteLength front) (last : stop = byteLength front + byteLength piece) :
    slice text start stop = .ok piece := by
  have head : parts? stop text = some (front ++ piece, back) := by
    rw [whole, last, ← byteLength_append, ← List.append_assoc]
    exact parts?_append (front ++ piece) back
  have tail : parts? start (front ++ piece) = some (front, piece) := by
    rw [first]
    exact parts?_append front piece
  simp only [slice, head, Option.bind_some, tail]

/-- A text can be cut off behind a front of it. -/
theorem slice_front (front back : List Char) :
    slice (front ++ back) 0 (byteLength front) = .ok front :=
  slice_of [] front back rfl rfl (Nat.zero_add _).symm

/-- What is behind a front of a text can be cut out. -/
theorem slice_back (front back : List Char) :
    slice (front ++ back) (byteLength front) (byteLength (front ++ back)) = .ok back :=
  slice_of front back [] (by simp) rfl (by simp)

private theorem slice_parts (made : slice text start stop = .ok piece) :
    ∃ front back, text = front ++ (piece ++ back) ∧ start = byteLength front ∧
      stop = byteLength front + byteLength piece := by
  rw [slice] at made
  split at made
  · next front found cut =>
    cases made
    obtain ⟨⟨head, back⟩, outer, inner⟩ := Option.bind_eq_some_iff.mp cut
    obtain ⟨rfl, size⟩ := parts?_some outer
    obtain ⟨rfl, first⟩ := parts?_some inner
    exact ⟨front, back, List.append_assoc .., first.symm, by rw [← size, byteLength_append]⟩
  · cases made

/-- A slice that leaves out the first bytes is shorter, so a reader that goes on with it comes to
an end. -/
theorem slice_shorter (made : slice text start stop = .ok piece) (moved : 0 < start) :
    piece.length < text.length := by
  obtain ⟨front, back, rfl, first, -⟩ := slice_parts made
  have some : front ≠ [] := by
    rintro rfl
    rw [byteLength_nil] at first
    omega
  have room := List.length_pos_iff.mpr some
  rw [List.length_append, List.length_append]
  omega

/-- The cuts that can be made are those between boundaries in their order. -/
theorem slice_made_iff : (∃ piece, slice text start stop = .ok piece) ↔
    start ≤ stop ∧ stop ≤ byteLength text ∧ Boundary text start ∧ Boundary text stop := by
  constructor
  · rintro ⟨piece, made⟩
    obtain ⟨front, back, rfl, rfl, rfl⟩ := slice_parts made
    refine ⟨Nat.le_add_right _ _, ?_, ⟨front, piece ++ back, rfl, rfl⟩,
      ⟨front ++ piece, back, (List.append_assoc ..).symm, byteLength_append ..⟩⟩
    rw [byteLength_append, byteLength_append]
    omega
  · rintro ⟨ordered, -, ⟨front, rest, rfl, rfl⟩, ⟨head, back, whole, rfl⟩⟩
    obtain ⟨piece, rfl⟩ : front <+: head := by
      refine (List.prefix_or_prefix_of_prefix (List.prefix_append front rest)
        (whole ▸ List.prefix_append head back)).elim id fun shorter => ?_
      obtain ⟨more, rfl⟩ := shorter
      rw [byteLength_append] at ordered
      have none : more = [] := byteLength_eq_zero.mp (by omega)
      subst none
      rw [List.append_nil]
    exact ⟨piece, slice_of front piece back (by rw [whole, List.append_assoc]) rfl
      (byteLength_append ..)⟩

/-! Bytes of characters. A character of ASCII is one byte, and this byte is part of no other
character. -/

/-- A byte that a character begins with. -/
def Leads (byte : UInt8) : Prop := byte.toNat < 128 ∨ 192 ≤ byte.toNat

instance (byte : UInt8) : Decidable (Leads byte) := inferInstanceAs (Decidable (_ ∨ _))

theorem utf8Size_ascii (ascii : c.toNat < 128) : c.utf8Size = 1 :=
  Char.utf8Size_eq_one_iff.mpr (UInt32.le_iff_toNat_le.mpr (Nat.le_of_lt_succ ascii))

/-- A character of ASCII is a single byte, its own number. -/
theorem encode_ascii (ascii : c.toNat < 128) : String.utf8EncodeChar c = [c.toUInt8] :=
  String.utf8EncodeChar_eq_singleton (utf8Size_ascii ascii)

/-- Offsets in bytes and in characters are the same in a text of ASCII. -/
theorem byteLength_ascii (ascii : ∀ c ∈ text, c.toNat < 128) : byteLength text = text.length := by
  induction text with
  | nil => rfl
  | cons c rest ih =>
    have tail := ih fun d member => ascii d (List.mem_cons_of_mem c member)
    rw [byteLength_cons, utf8Size_ascii (ascii c List.mem_cons_self), tail, List.length_cons,
      Nat.add_comm]

theorem toNat_toUInt8 (ascii : c.toNat < 128) : c.toUInt8.toNat = c.toNat := by
  have small : c.toNat % 256 = c.toNat := Nat.mod_eq_of_lt (by omega)
  exact small

/-- Beyond ASCII a character begins with a byte that leads, and goes on with others. -/
theorem encode_wide (wide : 128 ≤ c.toNat) : ∃ first others,
    String.utf8EncodeChar c = first :: others ∧ 192 ≤ first.toNat ∧
      ∀ byte ∈ others, 128 ≤ byte.toNat ∧ byte.toNat < 192 := by
  have large : ¬ c.val.toNat ≤ 127 := Nat.not_le_of_lt wide
  rw [String.utf8EncodeChar.eq_def]
  simp only [if_neg large]
  split
  · exact ⟨_, _, rfl, by simp; omega, by simp; omega⟩
  · split
    · exact ⟨_, _, rfl, by simp; omega, by simp; omega⟩
    · exact ⟨_, _, rfl, by simp; omega, by simp; omega⟩

/-- The first byte of a character leads, and none of its others does. -/
theorem encode_leads (c : Char) : ∃ first others, String.utf8EncodeChar c = first :: others ∧
    Leads first ∧ ∀ byte ∈ others, ¬ Leads byte := by
  by_cases ascii : c.toNat < 128
  · refine ⟨_, _, encode_ascii ascii, .inl ?_, by simp⟩
    rwa [toNat_toUInt8 ascii]
  · obtain ⟨first, others, encoded, leads, follow⟩ := encode_wide (Nat.le_of_not_lt ascii)
    refine ⟨first, others, encoded, .inr leads, fun byte member leads' => ?_⟩
    have bounds := follow byte member
    rcases leads' with low | high <;> omega

/-- A byte of ASCII stands for its own character only. -/
theorem encode_other (ascii : a.toNat < 128) (other : c ≠ a) :
    ∀ byte ∈ String.utf8EncodeChar c, byte ≠ a.toUInt8 := by
  rintro byte member rfl
  have small := toNat_toUInt8 ascii
  by_cases narrow : c.toNat < 128
  · rw [encode_ascii narrow, List.mem_singleton] at member
    have same := congrArg UInt8.toNat member
    rw [small, toNat_toUInt8 narrow] at same
    exact other (Char.toNat_inj.mp same.symm)
  · obtain ⟨first, others, encoded, leads, follow⟩ := encode_wide (Nat.le_of_not_lt narrow)
    rw [encoded] at member
    rcases List.mem_cons.mp member with rfl | behind
    · omega
    · have bounds := follow _ behind
      omega

private theorem boundary_cons : Boundary (c :: rest) offset ↔
    offset = 0 ∨ c.utf8Size ≤ offset ∧ Boundary rest (offset - c.utf8Size) := by
  constructor
  · rintro ⟨front, back, whole, rfl⟩
    cases front with
    | nil => exact .inl rfl
    | cons d front =>
      obtain ⟨rfl, rfl⟩ := List.cons.inj whole
      rw [byteLength_cons, Nat.add_sub_cancel_left]
      exact .inr ⟨Nat.le_add_right _ _, front, back, rfl, rfl⟩
  · rintro (rfl | ⟨fits, front, back, rfl, size⟩)
    · exact ⟨[], c :: rest, rfl, rfl⟩
    · exact ⟨c :: front, back, rfl, by rw [byteLength_cons]; omega⟩

/-- The boundaries of a text are its end and the bytes that characters begin with. -/
theorem boundary_iff : Boundary text offset ↔
    offset = byteLength text ∨ ∃ byte, (bytes text)[offset]? = some byte ∧ Leads byte := by
  induction text generalizing offset with
  | nil =>
    constructor
    · rintro ⟨front, back, none, rfl⟩
      rw [(List.append_eq_nil_iff.mp none.symm).1]
      exact .inl rfl
    · rintro (rfl | ⟨byte, found, -⟩)
      · exact ⟨[], [], rfl, rfl⟩
      · cases found
  | cons c rest ih =>
    obtain ⟨first, others, encoded, leads, follow⟩ := encode_leads c
    have size : (first :: others).length = c.utf8Size := by
      rw [← encoded, String.length_utf8EncodeChar]
    rw [boundary_cons, bytes_cons, byteLength_cons, encoded]
    by_cases inside : offset < c.utf8Size
    · rw [List.getElem?_append_left (size ▸ inside)]
      cases offset with
      | zero => exact ⟨fun _ => .inr ⟨first, rfl, leads⟩, fun _ => .inl rfl⟩
      | succ before =>
        rw [List.getElem?_cons_succ]
        constructor
        · rintro (none | ⟨fits, -⟩) <;> omega
        · rintro (last | ⟨byte, found, leads'⟩)
          · omega
          · exact absurd leads' (follow byte (List.mem_of_getElem? found))
    · have room := c.utf8Size_pos
      rw [List.getElem?_append_right (by omega), size, ih]
      constructor
      · rintro (none | ⟨-, last | found⟩)
        · omega
        · exact .inl (by omega)
        · exact .inr found
      · rintro (last | found)
        · exact .inr ⟨by omega, .inl (by omega)⟩
        · exact .inr ⟨by omega, .inr found⟩

instance (text : List Char) (offset : Nat) : Decidable (Boundary text offset) :=
  decidable_of_iff
    (offset = byteLength text ∨ (bytes text)[offset]?.any (fun byte => decide (Leads byte)) = true)
    (by simp only [boundary_iff, Option.any_eq_true, decide_eq_true_iff])

end ApiScribe.Bytewise
