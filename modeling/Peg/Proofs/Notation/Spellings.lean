import Mathlib.Data.Nat.Digits.Defs
import Peg.Proofs.Notation.Scanning

/-!
# Spellings of characters

Between delimiters a character may be spelled in several ways. `SpellingOf` lists them, without a
word about how a body is decoded. A row of spellings is decoded to its characters, one for each
spelling, as long as no octal spelling of less than three digits has another octal digit behind it,
and no other such row is written in the same way. Every body that is found between delimiters is
written by a row of spellings, up to its end or to a malformed escape.
-/

namespace Peg.Notation

open Except
open List (Forall₂)

/-! ## Numerals -/

/-- The character is a digit of the given value, in either case. -/
def IsDigitOf (c : CodePoint) (value : Nat) : Prop :=
  ("0123456789abcdef" : Text)[value]? = some c ∨ ("0123456789ABCDEF" : Text)[value]? = some c

/-- The digits are those of the number in the base, the highest one first. -/
def Numeral (base : Nat) (digits : Text) (n : Nat) : Prop :=
  ∃ values, Forall₂ IsDigitOf digits values ∧ (∀ value ∈ values, value < base) ∧
    n = Nat.ofDigits base values.reverse

instance (c : CodePoint) (value : Nat) : Decidable (IsDigitOf c value) :=
  inferInstanceAs (Decidable (_ ∨ _))

theorem ofNat_val (c : CodePoint) : CodePoint.ofNat c.val = c := Fin.ext (Nat.mod_eq_of_lt c.isLt)

/-- The value of a digit tells which one it is, but for its case. -/
theorem digitValue?_eq_some_iff {c : CodePoint} {value : Nat} :
    c.digitValue? = some value ↔ IsDigitOf c value := by
  constructor
  · intro h
    have place : value < 10 ∧ c.val = 48 + value ∨
        (10 ≤ value ∧ value < 16) ∧ (c.val = 87 + value ∨ c.val = 55 + value) := by
      unfold CodePoint.digitValue? at h
      split_ifs at h <;> simp only [Option.some.injEq] at h <;> omega
    have decimal : ∀ v < 10, IsDigitOf (.ofNat (48 + v)) v := by decide
    have letters : ∀ v < 16, 10 ≤ v →
        IsDigitOf (.ofNat (87 + v)) v ∧ IsDigitOf (.ofNat (55 + v)) v := by decide
    rw [← ofNat_val c]
    obtain ⟨small, place⟩ | ⟨⟨large, small⟩, place | place⟩ := place
    · rw [place]
      exact decimal value small
    · rw [place]
      exact (letters value small large).1
    · rw [place]
      exact (letters value small large).2
  · have all : ∀ v < 16, ("0123456789abcdef" : Text)[v]?.bind (·.digitValue?) = some v ∧
        ("0123456789ABCDEF" : Text)[v]?.bind (·.digitValue?) = some v := by decide
    rintro (h | h)
    · have values := (all value (List.getElem?_eq_some_iff.mp h).1).1
      rwa [h] at values
    · have values := (all value (List.getElem?_eq_some_iff.mp h).1).2
      rwa [h] at values

theorem isDigit_iff {base : Nat} {c : CodePoint} :
    c.isDigit base = true ↔ ∃ value < base, IsDigitOf c value := by
  rw [CodePoint.isDigit, Option.any_eq_true]
  constructor
  · rintro ⟨value, same, small⟩
    exact ⟨value, of_decide_eq_true small, digitValue?_eq_some_iff.mp same⟩
  · rintro ⟨value, small, digit⟩
    exact ⟨value, digitValue?_eq_some_iff.mpr digit, decide_eq_true small⟩

theorem foldl_digits (base : Nat) {digits : Text} {values : List Nat}
    (h : Forall₂ IsDigitOf digits values) (start : Nat) :
    digits.foldl (fun n c ↦ n * base + c.digitValue?.getD 0) start =
      start * base ^ digits.length + Nat.ofDigits base values.reverse := by
  induction h generalizing start with
  | nil => simp
  | @cons c value digits values digit alike ih =>
      rw [List.foldl_cons, ih, digitValue?_eq_some_iff.mpr digit, Option.getD_some,
        List.reverse_cons, Nat.ofDigits_append, Nat.ofDigits_singleton, List.length_reverse,
        ← alike.length_eq, List.length_cons]
      ring

namespace Numeral

variable {base n : Nat} {digits : Text}

/-- The digits of a numeral are digits of its base. -/
theorem isDigit (h : Numeral base digits n) : ∀ c ∈ digits, c.isDigit base = true := by
  obtain ⟨values, alike, small, -⟩ := h
  intro c mem
  obtain ⟨value, among, digit⟩ := alike.exists_right mem
  exact isDigit_iff.mpr ⟨value, small value among, digit⟩

theorem toNat_eq (h : Numeral base digits n) : Text.toNat base digits = n := by
  obtain ⟨values, alike, -, rfl⟩ := h
  rw [Text.toNat, foldl_digits base alike, Nat.zero_mul, Nat.zero_add]

theorem lt_pow (h : Numeral base digits n) (two_le : 1 < base) : n < base ^ digits.length := by
  obtain ⟨values, alike, small, rfl⟩ := h
  rw [alike.length_eq, ← List.length_reverse]
  exact Nat.ofDigits_lt_base_pow_length two_le fun value mem ↦
    small value (List.mem_reverse.mp mem)

end Numeral

/-- Digits of a base are a numeral of the number that they stand for. -/
theorem numeral_toNat {base : Nat} {digits : Text} (h : ∀ c ∈ digits, c.isDigit base = true) :
    Numeral base digits (Text.toNat base digits) := by
  obtain ⟨values, alike, small⟩ : ∃ values, Forall₂ IsDigitOf digits values ∧
      ∀ value ∈ values, value < base := by
    induction digits with
    | nil => exact ⟨[], .nil, nofun⟩
    | cons c digits ih =>
        obtain ⟨first, others⟩ := List.forall_mem_cons.mp h
        obtain ⟨value, small, digit⟩ := isDigit_iff.mp first
        obtain ⟨values, alike, all⟩ := ih others
        exact ⟨value :: values, .cons digit alike, List.forall_mem_cons.mpr ⟨small, all⟩⟩
  have numeral : Numeral base digits _ := ⟨values, alike, small, rfl⟩
  rwa [numeral.toNat_eq]

/-! ## Spellings -/

def octalDigits : Text := "01234567"

/-- The letter asks for so many hexadecimal digits behind it. -/
def HexadecimalWidth (kind : CodePoint) (width : Nat) : Prop :=
  kind = 'x' ∧ width = 2 ∨ kind = 'u' ∧ width = 4

/-- The text spells the character between delimiters of which the closing one is given. -/
inductive SpellingOf (closing : CodePoint) : Text → CodePoint → Prop where
  /-- A character spells itself if it neither escapes nor closes. -/
  | itself {c : CodePoint} (ne_backslash : c ≠ '\\') (ne_closing : c ≠ closing) :
      SpellingOf closing [c] c
  /-- The line feed has a name. -/
  | lineFeed : SpellingOf closing ['\\', 'n'] '\n'
  /-- The carriage return has a name. -/
  | carriageReturn : SpellingOf closing ['\\', 'r'] '\r'
  /-- The tab has a name. -/
  | tab : SpellingOf closing ['\\', 't'] '\t'
  /-- An escaped character spells itself if it is no name and begins no number. -/
  | escaped {c : CodePoint} (ne_digit : c ∉ octalDigits) (ne_letter : c ∉ ("nrtxu" : Text)) :
      SpellingOf closing ['\\', c] c
  /-- One to three octal digits spell the character of that number. -/
  | octal {digits : Text} (some : 1 ≤ digits.length) (few : digits.length ≤ 3) {c : CodePoint}
      (number : Numeral 8 digits c.val) : SpellingOf closing ('\\' :: digits) c
  /-- As many hexadecimal digits as the letter before them asks for spell the character of that
  number. -/
  | hexadecimal {kind : CodePoint} {digits : Text} (width : HexadecimalWidth kind digits.length)
      {c : CodePoint} (number : Numeral 16 digits c.val) :
      SpellingOf closing ('\\' :: kind :: digits) c

/-- A character and one of the texts that spell it. -/
structure Spelling (closing : CodePoint) where
  /-- How the character is spelled. -/
  text : Text
  /-- The character. -/
  char : CodePoint
  /-- The text spells the character. -/
  spells : SpellingOf closing text char

/-- What a spelling is decoded to: it is escaped if it begins with a backslash. -/
def Spelling.spelled {closing : CodePoint} (s : Spelling closing) : Spelled :=
  ⟨s.char, s.text.head? = some ('\\' : CodePoint)⟩

/-- An octal digit behind the spelling would be a part of it. -/
def OpenOctal (text : Text) : Prop :=
  ∃ d ∈ octalDigits, ∃ more, text = ('\\' : CodePoint) :: d :: more ∧ more.length < 2

/-- The spelling would not be a longer one with what comes behind it. -/
def Apart (text rest : Text) : Prop := OpenOctal text → ∀ c ∈ rest.head?, c ∉ octalDigits

/-- None of the spellings would be a longer one with the next one behind it. -/
def Separated {closing : CodePoint} (row : List (Spelling closing)) : Prop :=
  row.IsChain fun s s' ↦ Apart s.text s'.text

/-- The text of a row of spellings. -/
def written {closing : CodePoint} (row : List (Spelling closing)) : Text := row.flatMap (·.text)

theorem written_cons {closing : CodePoint} (s : Spelling closing) (row : List (Spelling closing)) :
    written (s :: row) = s.text ++ written row := rfl

/-- The letter has less digits behind it than it asks for. -/
def Malformed (kind : CodePoint) (after : Text) : Prop :=
  ∃ width, HexadecimalWidth kind width ∧
    ∀ digits n, Numeral 16 digits n → digits.length = width → ¬ digits <+: after

/-! ## Escapes -/

/-- The octal digits are the digits of the base eight. -/
theorem mem_octalDigits_iff {c : CodePoint} : c ∈ octalDigits ↔ c.isDigit 8 = true := by
  constructor
  · have all : octalDigits.all (·.isDigit 8) = true := by decide
    exact List.all_eq_true.mp all c
  · intro h
    obtain ⟨value, small, digit⟩ := isDigit_iff.mp h
    have all : ∀ v < 8, ("0123456789abcdef" : Text)[v]? = octalDigits[v]? ∧
        ("0123456789ABCDEF" : Text)[v]? = octalDigits[v]? := by decide
    rcases digit with digit | digit
    · rw [(all value small).1] at digit
      exact List.mem_of_getElem? digit
    · rw [(all value small).2] at digit
      exact List.mem_of_getElem? digit

/-- What is taken of digits is all of them if there is something else behind them or they are
enough. -/
theorem takeWhile_take_append {condition : CodePoint → Bool} {digits rest : Text} {most : Nat}
    (all : ∀ c ∈ digits, condition c = true) (few : digits.length ≤ most)
    (stops : digits.length < most → ∀ c ∈ rest.head?, condition c = false) :
    ((digits ++ rest).take most).takeWhile condition = digits := by
  rw [List.take_append, List.take_of_length_le few, List.takeWhile_append_of_pos all]
  obtain short | enough := Nat.lt_or_ge digits.length most
  · cases rest with
    | nil => rw [List.take_nil, List.takeWhile_nil, List.append_nil]
    | cons c rest =>
        obtain ⟨left, same⟩ := Nat.exists_eq_succ_of_ne_zero (Nat.sub_ne_zero_of_lt short)
        rw [same, List.take_succ_cons, List.takeWhile_cons_of_neg, List.append_nil]
        rw [stops short c rfl]
        exact Bool.false_ne_true
  · rw [Nat.sub_eq_zero_of_le enough, List.take_zero, List.takeWhile_nil, List.append_nil]

theorem escape_octal {d c : CodePoint} {more rest : Text} (few : more.length ≤ 2)
    (number : Numeral 8 (d :: more) c.val)
    (apart : more.length < 2 → ∀ c ∈ rest.head?, c ∉ octalDigits) :
    escape d (more ++ rest) = .ok (c, more.length) := by
  obtain ⟨first, others⟩ := List.forall_mem_cons.mp number.isDigit
  have taken := takeWhile_take_append others few fun short e mem ↦
    Bool.eq_false_iff.mpr (mem_octalDigits_iff.not.mp (apart short e mem))
  rw [escape, if_pos first]
  dsimp only
  rw [taken, number.toNat_eq, ofNat_val]

theorem escape_hexadecimal {kind c : CodePoint} {digits : Text}
    (width : HexadecimalWidth kind digits.length) (number : Numeral 16 digits c.val) (rest : Text) :
    escape kind (digits ++ rest) = .ok (c, digits.length) := by
  have taken : ((digits ++ rest).take digits.length).takeWhile (·.isDigit 16) = digits :=
    takeWhile_take_append number.isDigit (Nat.le_refl _) fun short ↦ absurd short (Nat.lt_irrefl _)
  have read : hexadecimalEscape kind digits.length (digits ++ rest) = .ok (c, digits.length) := by
    rw [hexadecimalEscape, taken, if_pos rfl, number.toNat_eq, ofNat_val]
  rcases width with ⟨rfl, width⟩ | ⟨rfl, width⟩
  · rw [width] at read ⊢
    exact read
  · rw [width] at read ⊢
    exact read

theorem Malformed.escape_eq {kind : CodePoint} {after : Text} (h : Malformed kind after) :
    escape kind after = .error (.invalidEscape kind) := by
  obtain ⟨width, letter, short⟩ := h
  have read : hexadecimalEscape kind width after = .error (.invalidEscape kind) := by
    refine if_neg fun enough ↦ ?_
    have digits := numeral_toNat (List.all_eq_true.mp
      (List.all_takeWhile (l := after.take width) (p := (·.isDigit 16))))
    exact short _ _ digits enough
      ((List.takeWhile_prefix _).trans (List.take_prefix width after))
  rcases letter with ⟨rfl, rfl⟩ | ⟨rfl, rfl⟩
  · exact read
  · exact read

theorem escape_self {c : CodePoint} (ne_digit : c ∉ octalDigits)
    (ne_letter : c ∉ ("nrtxu" : Text)) (rest : Text) : escape c rest = .ok (c, 0) := by
  have digit : ¬ c.isDigit 8 = true := mem_octalDigits_iff.not.mp ne_digit
  simp only [Text.ofString, String.reduceToList, List.map_cons, List.map_nil, List.mem_cons,
    List.not_mem_nil, or_false, not_or] at ne_letter
  obtain ⟨n, r, t, x, u⟩ := ne_letter
  rw [escape, if_neg digit, if_neg x, if_neg u, namedEscape, if_neg n, if_neg r, if_neg t]

/-- A spelling is its character, or a backslash and an escape of that character. -/
theorem SpellingOf.itself_or_escape {closing c : CodePoint} {text : Text}
    (h : SpellingOf closing text c) :
    (text = [c] ∧ c ≠ '\\') ∨ ∃ d more, text = ('\\' : CodePoint) :: d :: more ∧
      ∀ rest, Apart text rest → escape d (more ++ rest) = .ok (c, more.length) := by
  cases h with
  | itself ne_backslash => exact .inl ⟨rfl, ne_backslash⟩
  | lineFeed => exact .inr ⟨'n', [], rfl, fun _ _ ↦ rfl⟩
  | carriageReturn => exact .inr ⟨'r', [], rfl, fun _ _ ↦ rfl⟩
  | tab => exact .inr ⟨'t', [], rfl, fun _ _ ↦ rfl⟩
  | escaped ne_digit ne_letter =>
      exact .inr ⟨c, [], rfl, fun rest _ ↦ escape_self ne_digit ne_letter rest⟩
  | @octal digits some few _ number =>
      cases digits with
      | nil => cases some
      | cons d more =>
          refine .inr ⟨d, more, rfl, fun rest apart ↦ ?_⟩
          refine escape_octal (Nat.le_of_succ_le_succ few) number fun short ↦ apart ?_
          exact ⟨d, mem_octalDigits_iff.mpr (number.isDigit d List.mem_cons_self), more, rfl, short⟩
  | hexadecimal width number =>
      exact .inr ⟨_, _, rfl, fun rest _ ↦ escape_hexadecimal width number rest⟩

namespace Spelling

variable {closing : CodePoint}

/-- A spelling is some text. -/
theorem exists_cons (s : Spelling closing) : ∃ c more, s.text = c :: more := by
  obtain ⟨text, -⟩ | ⟨d, more, text, -⟩ := s.spells.itself_or_escape
  · exact ⟨_, _, text⟩
  · exact ⟨_, _, text⟩

/-- A spelling is decoded to its character. -/
theorem spelledChars_append (s : Spelling closing) {rest : Text} (apart : Apart s.text rest)
    (offset : Nat) : spelledChars offset (s.text ++ rest) =
      return s.spelled :: (← spelledChars (offset + s.text.length) rest) := by
  obtain ⟨text, ne_backslash⟩ | ⟨d, more, text, escapes⟩ := s.spells.itself_or_escape
  · have plain : s.spelled = ⟨s.char, false⟩ := by
      rw [spelled, text]
      simpa using ne_backslash
    rw [plain, text]
    exact spelledChars_cons_of_ne ne_backslash offset rest
  · have escaped : s.spelled = ⟨s.char, true⟩ := by
      rw [spelled, text]
      simp
    have behind : offset + s.text.length = offset + 2 + more.length := by
      rw [text, List.length_cons, List.length_cons]
      omega
    rw [escaped, behind, text, List.cons_append, List.cons_append, spelledChars_escape,
      escapes rest apart, spelledChars, ← spelledFrom_append]

/-- No text begins with two spellings. -/
theorem text_append_inj {s s' : Spelling closing} {rest rest' : Text} (apart : Apart s.text rest)
    (apart' : Apart s'.text rest') (same : s.text ++ rest = s'.text ++ rest') :
    s = s' ∧ rest = rest' := by
  have texts : s.char = s'.char ∧ s.text = s'.text := by
    obtain ⟨text, ne⟩ | ⟨d, more, text, escapes⟩ := s.spells.itself_or_escape <;>
      obtain ⟨text', ne'⟩ | ⟨d', more', text', escapes'⟩ := s'.spells.itself_or_escape <;>
      rw [text, text'] at same
    · obtain ⟨char, -⟩ := List.cons.inj same
      exact ⟨char, by rw [text, text', char]⟩
    · exact absurd (List.cons.inj same).1 ne
    · exact absurd (List.cons.inj same).1.symm ne'
    · obtain ⟨-, behind⟩ := List.cons.inj same
      obtain ⟨rfl, left⟩ : d = d' ∧ more ++ rest = more' ++ rest' := List.cons.inj behind
      -- what is behind the backslash decides how long the escape is
      have decoded := escapes rest apart
      rw [left, escapes' rest' apart'] at decoded
      obtain ⟨char, length⟩ := Prod.mk.inj (Except.ok.inj decoded)
      exact ⟨char.symm, by rw [text, text', (List.append_inj left length.symm).1]⟩
  obtain ⟨char, text⟩ := texts
  rw [text] at same
  refine ⟨?_, List.append_cancel_left same⟩
  cases s
  cases s'
  cases char
  cases text
  rfl

end Spelling

/-! ## Rows of spellings -/

theorem Apart.of_not_mem {text rest : Text} (free : ∀ c ∈ rest.head?, c ∉ octalDigits) :
    Apart text rest := fun _ ↦ free

namespace Separated

variable {closing : CodePoint} {s : Spelling closing} {row row' : List (Spelling closing)}
  {rest : Text}

/-- The other spellings of a row are separated, too. -/
theorem tail (h : Separated (s :: row)) : Separated row := List.IsChain.of_cons h

/-- The first spelling of a row is apart from the others and what is behind them. -/
theorem apart (h : Separated (s :: row)) (free : ∀ c ∈ rest.head?, c ∉ octalDigits) :
    Apart s.text (written row ++ rest) := by
  cases row with
  | nil => exact .of_not_mem free
  | cons s' row =>
      obtain ⟨c, more, text⟩ := s'.exists_cons
      have next := (List.isChain_cons_cons.mp h).1
      rw [Apart, text] at next
      rw [Apart, written_cons, text]
      exact next

/-- A row is decoded to its characters before whatever does not begin with an octal digit. -/
theorem spelledChars_append (h : Separated row) (free : ∀ c ∈ rest.head?, c ∉ octalDigits)
    (offset : Nat) : spelledChars offset (written row ++ rest) =
      (spelledChars (offset + (written row).length) rest).map
        (row.map Spelling.spelled ++ ·) := by
  induction row generalizing offset with
  | nil =>
      show spelledChars offset rest = (spelledChars offset rest).map fun chars ↦ chars
      cases spelledChars offset rest <;> rfl
  | cons s row ih =>
      rw [written_cons, List.append_assoc, s.spelledChars_append (h.apart free), ih h.tail,
        List.length_append, Nat.add_assoc]
      cases spelledChars (offset + (s.text.length + (written row).length)) rest <;> rfl

/-- A row is decoded to its characters. -/
theorem spelledChars_eq (h : Separated row) (offset : Nat) :
    spelledChars offset (written row) = .ok (row.map Spelling.spelled) := by
  have free : ∀ c ∈ ([] : Text).head?, c ∉ octalDigits := nofun
  have whole := h.spelledChars_append free offset
  rw [List.append_nil, spelledChars_nil] at whole
  rw [whole, Except.map, List.append_nil]

/-- No two rows are written in the same way. -/
theorem written_inj (h : Separated row) (h' : Separated row') (same : written row = written row') :
    row = row' := by
  induction row generalizing row' with
  | nil =>
      cases row' with
      | nil => rfl
      | cons s' row' =>
          obtain ⟨c, more, text⟩ := s'.exists_cons
          rw [written_cons, text] at same
          cases same
  | cons s row ih =>
      cases row' with
      | nil =>
          obtain ⟨c, more, text⟩ := s.exists_cons
          rw [written_cons, text] at same
          cases same
      | cons s' row' =>
          have free : ∀ c ∈ ([] : Text).head?, c ∉ octalDigits := nofun
          have apart := h.apart free
          have apart' := h'.apart free
          rw [List.append_nil] at apart apart'
          obtain ⟨rfl, others⟩ := Spelling.text_append_inj apart apart' same
          rw [ih h.tail h'.tail others]

end Separated

/-! ## Guarded texts -/

theorem exists_numeral {base : Nat} {digits : Text} (h : ∀ c ∈ digits, c.isDigit base = true)
    (two_le : 1 < base) (few : base ^ digits.length ≤ 0x110000) :
    ∃ c : CodePoint, Numeral base digits c.val := by
  have number := numeral_toNat h
  exact ⟨⟨_, Nat.lt_of_lt_of_le (number.lt_pow two_le) few⟩, number⟩

/-- A text begins with at most so many characters of a kind, and stops with them unless it has
more. -/
theorem exists_run (condition : CodePoint → Bool) (most : Nat) (text : Text) :
    ∃ run rest, text = run ++ rest ∧ (∀ c ∈ run, condition c = true) ∧ run.length ≤ most ∧
      (run.length < most → ∀ c ∈ rest.head?, condition c = false) := by
  induction most generalizing text with
  | zero => exact ⟨[], text, rfl, nofun, Nat.le_refl 0, nofun⟩
  | succ most ih =>
      cases text with
      | nil => exact ⟨[], [], rfl, nofun, Nat.zero_le _, nofun⟩
      | cons c text =>
          by_cases first : condition c = true
          · obtain ⟨run, rest, rfl, all, few, stops⟩ := ih text
            refine ⟨c :: run, rest, rfl, List.forall_mem_cons.mpr ⟨first, all⟩,
              Nat.succ_le_succ few, fun short ↦ stops (Nat.lt_of_succ_lt_succ short)⟩
          · refine ⟨[], c :: text, rfl, nofun, Nat.zero_le _, ?_⟩
            rintro - _ ⟨⟩
            exact Bool.eq_false_iff.mpr first

/-- What is behind characters that do not escape is guarded if all of it is. -/
theorem Guarded.of_append {closing : CodePoint} {text rest : Text} (plain : ∀ c ∈ text, c ≠ '\\')
    (h : Guarded closing (text ++ rest)) : Guarded closing rest := by
  induction text with
  | nil => exact h
  | cons c text ih =>
      obtain ⟨first, others⟩ := List.forall_mem_cons.mp plain
      rw [List.cons_append] at h
      generalize whole : c :: (text ++ rest) = source at h
      cases h with
      | nil => cases whole
      | plain _ _ guarded =>
          obtain ⟨-, rfl⟩ := List.cons.inj whole
          exact ih others guarded
      | escaped => exact absurd (List.cons.inj whole).1 first

theorem ne_backslash_of_isDigit {base : Nat} {c : CodePoint} (h : c.isDigit base = true) :
    c ≠ '\\' := by
  rintro rfl
  obtain ⟨value, -, digit⟩ := isDigit_iff.mp h
  cases (digitValue?_eq_some_iff.mpr digit : none = some value)

/-- The text begins with a spelling, and what is behind that is guarded. -/
def BeginsSpelled (closing : CodePoint) (text : Text) : Prop :=
  ∃ (s : Spelling closing) (rest : Text), text = s.text ++ rest ∧ Apart s.text rest ∧
    Guarded closing rest

theorem beginsSpelled_octal {closing d : CodePoint} {after : Text} (octal : d ∈ octalDigits)
    (guarded : Guarded closing after) :
    BeginsSpelled closing (('\\' : CodePoint) :: d :: after) := by
  obtain ⟨more, rest, rfl, all, few, stops⟩ := exists_run (·.isDigit 8) 2 after
  have digits : ∀ c ∈ d :: more, c.isDigit 8 = true :=
    List.forall_mem_cons.mpr ⟨mem_octalDigits_iff.mp octal, all⟩
  have small : 8 ^ (d :: more).length ≤ 0x110000 :=
    Nat.le_trans (Nat.pow_le_pow_right (by decide) (Nat.succ_le_succ few)) (by decide)
  obtain ⟨c, number⟩ := exists_numeral digits (by decide) small
  have some : 1 ≤ (d :: more).length := Nat.succ_le_succ (Nat.zero_le _)
  refine ⟨⟨_, c, .octal some (Nat.succ_le_succ few) number⟩, rest, rfl, ?_,
    guarded.of_append fun c mem ↦ ne_backslash_of_isDigit (all c mem)⟩
  rintro ⟨_, -, _, ⟨⟩, short⟩ c mem octal
  exact Bool.false_ne_true ((stops short c mem).symm.trans (mem_octalDigits_iff.mp octal))

/-- A letter that asks for hexadecimal digits begins a spelling, or is malformed. -/
theorem beginsSpelled_hexadecimal {closing kind : CodePoint} {width : Nat} {after : Text}
    (letter : HexadecimalWidth kind width) (guarded : Guarded closing after) :
    BeginsSpelled closing (('\\' : CodePoint) :: kind :: after) ∨ Malformed kind after := by
  refine or_iff_not_imp_right.mpr fun formed ↦ ?_
  rw [Malformed] at formed
  push Not at formed
  obtain ⟨digits, n, number, length, rest, rfl⟩ := formed width letter
  have small : 16 ^ digits.length ≤ 0x110000 := by
    rcases letter with ⟨-, rfl⟩ | ⟨-, rfl⟩ <;> rw [length] <;> decide
  obtain ⟨c, number⟩ := exists_numeral number.isDigit (by decide) small
  refine ⟨⟨_, c, .hexadecimal (length ▸ letter) number⟩, rest, rfl, ?_,
    guarded.of_append fun c mem ↦ ne_backslash_of_isDigit (number.isDigit c mem)⟩
  rintro ⟨_, octal, _, ⟨⟩, -⟩
  rcases letter with ⟨rfl, -⟩ | ⟨rfl, -⟩ <;> exact absurd octal (by decide)

/-- A guarded text begins with a spelling or with a malformed escape. -/
theorem Guarded.beginsSpelled {closing c : CodePoint} {text : Text}
    (h : Guarded closing (c :: text)) :
    BeginsSpelled closing (c :: text) ∨
      ∃ kind after, c :: text = ('\\' : CodePoint) :: kind :: after ∧ Malformed kind after := by
  cases h with
  | plain ne_closing ne_backslash guarded =>
      refine .inl ⟨⟨_, c, .itself ne_backslash ne_closing⟩, text, rfl, ?_, guarded⟩
      rintro ⟨_, -, _, ⟨⟩, -⟩
  | @escaped d after guarded =>
      by_cases octal : d ∈ octalDigits
      · exact .inl (beginsSpelled_octal octal guarded)
      · have apart : Apart ['\\', d] after := by
          rintro ⟨_, digit, _, ⟨⟩, -⟩
          exact absurd digit octal
        by_cases letter : d ∈ ("nrtxu" : Text)
        · simp only [Text.ofString, String.reduceToList, List.map_cons, List.map_nil, List.mem_cons,
            List.not_mem_nil, or_false] at letter
          rcases letter with rfl | rfl | rfl | rfl | rfl
          · exact .inl ⟨⟨_, _, .lineFeed⟩, after, rfl, apart, guarded⟩
          · exact .inl ⟨⟨_, _, .carriageReturn⟩, after, rfl, apart, guarded⟩
          · exact .inl ⟨⟨_, _, .tab⟩, after, rfl, apart, guarded⟩
          · exact (beginsSpelled_hexadecimal (.inl ⟨rfl, rfl⟩) guarded).imp_right
              fun malformed ↦ ⟨_, after, rfl, malformed⟩
          · exact (beginsSpelled_hexadecimal (.inr ⟨rfl, rfl⟩) guarded).imp_right
              fun malformed ↦ ⟨_, after, rfl, malformed⟩
        · exact .inl ⟨⟨_, d, .escaped octal letter⟩, after, rfl, apart, guarded⟩

/-- A spelling that is apart from what is behind it is separated from the next one there. -/
theorem Separated.cons {closing : CodePoint} {s : Spelling closing} {row : List (Spelling closing)}
    {rest : Text} (apart : Apart s.text (written row ++ rest)) (h : Separated row) :
    Separated (s :: row) := by
  cases row with
  | nil => exact .singleton s
  | cons s' row =>
      refine .cons_cons ?_ h
      obtain ⟨c, more, text⟩ := s'.exists_cons
      rw [Apart, written_cons, text] at apart
      rw [Apart, text]
      exact apart

/-- A guarded text is written by a row of spellings, up to its end or to a malformed escape. -/
theorem Guarded.exists_row {closing : CodePoint} {text : Text} (h : Guarded closing text) :
    ∃ (row : List (Spelling closing)) (left : Text), Separated row ∧ text = written row ++ left ∧
      (left = [] ∨
        ∃ kind after, left = ('\\' : CodePoint) :: kind :: after ∧ Malformed kind after) := by
  induction n : text.length using Nat.strongRecOn generalizing text with
  | ind n ih =>
      subst n
      cases text with
      | nil => exact ⟨[], [], .nil, rfl, .inl rfl⟩
      | cons c text =>
          obtain ⟨s, rest, whole, apart, guarded⟩ | malformed := h.beginsSpelled
          · have shorter : rest.length < (c :: text).length := by
              obtain ⟨d, more, begins⟩ := s.exists_cons
              rw [whole, begins, List.length_append, List.length_cons]
              omega
            obtain ⟨row, left, separated, rfl, stops⟩ := ih _ shorter guarded rfl
            refine ⟨s :: row, left, separated.cons apart, ?_, stops⟩
            rw [whole, written_cons, List.append_assoc]
          · exact ⟨[], c :: text, .nil, rfl, .inr malformed⟩

/-! ## Tokens -/

/-- The tokens that have a body, with the characters that open and close them. -/
inductive Quoting : TokenKind → CodePoint → CodePoint → Prop where
  /-- A text between two quotes of one kind. -/
  | literal {quote : CodePoint} (isQuote : quote = '\'' ∨ quote = '"') :
      Quoting .literal quote quote
  /-- A class between brackets. -/
  | charClass : Quoting .charClass '[' ']'

namespace Quoting

variable {kind : TokenKind} {opening closing : CodePoint}

theorem isDigit_closing (h : Quoting kind opening closing) : closing.isDigit 16 = false := by
  cases h with
  | literal quote => rcases quote with rfl | rfl <;> decide
  | charClass => decide

/-- A guarded text between its delimiters is a lexeme. -/
theorem isLexeme (h : Quoting kind opening closing) {body : Text} (guarded : Guarded closing body) :
    IsLexeme (some kind) (opening :: (body ++ [closing])) := by
  cases h with
  | literal quote => exact .literal quote guarded
  | charClass => exact .charClass guarded

theorem tokenize_eq (h : Quoting kind opening closing) {body : Text}
    (guarded : Guarded closing body) :
    tokenize (opening :: (body ++ [closing])) =
      .ok [⟨kind, opening :: (body ++ [closing]), 0⟩, ⟨.ending, [], body.length + 2⟩] := by
  have ends : EndsBefore (some kind) (opening :: (body ++ [closing])) [] :=
    ⟨fun _ ↦ nofun, fun _ ↦ nofun, fun _ ↦ nofun⟩
  have whole := ((h.isLexeme guarded).cutInto 0 ends).tokensFrom_eq
  have length : 0 + (opening :: (body ++ [closing])).length = body.length + 2 := by
    rw [List.length_cons, List.length_append, List.length_singleton, Nat.zero_add]
  rw [length] at whole
  exact whole

end Quoting

/-- A literal or a class is a guarded text between its delimiters. -/
theorem IsLexeme.exists_guarded {kind : TokenKind} {text : Text} (h : IsLexeme (some kind) text)
    (quoted : kind = .literal ∨ kind = .charClass) :
    ∃ opening closing body, Quoting kind opening closing ∧ Guarded closing body ∧
      text = opening :: (body ++ [closing]) := by
  cases h with
  | literal quote guarded => exact ⟨_, _, _, .literal quote, guarded, rfl⟩
  | charClass guarded => exact ⟨_, _, _, .charClass, guarded, rfl⟩
  | arrow => simp at quoted
  | identifier => simp at quoted
  | operator => simp at quoted

theorem Guarded.of_plain {closing : CodePoint} {text rest : Text}
    (plain : ∀ c ∈ text, c ≠ closing ∧ c ≠ '\\') (h : Guarded closing rest) :
    Guarded closing (text ++ rest) := by
  induction text with
  | nil => exact h
  | cons c text ih =>
      obtain ⟨⟨ne_closing, ne_backslash⟩, others⟩ := List.forall_mem_cons.mp plain
      exact .plain ne_closing ne_backslash (ih others)

/-- A spelling is guarded before what is guarded. -/
theorem SpellingOf.guarded {closing c : CodePoint} {text rest : Text}
    (h : SpellingOf closing text c) (digit : closing.isDigit 16 = false)
    (guarded : Guarded closing rest) : Guarded closing (text ++ rest) := by
  have plain : ∀ {d}, d.isDigit 16 = true → d ≠ closing ∧ d ≠ '\\' := by
    refine fun {d} isDigit ↦ ⟨?_, ne_backslash_of_isDigit isDigit⟩
    rintro rfl
    exact Bool.false_ne_true (digit.symm.trans isDigit)
  cases h with
  | itself ne_backslash ne_closing => exact .plain ne_closing ne_backslash guarded
  | lineFeed | carriageReturn | tab | escaped => exact .escaped _ guarded
  | @octal digits some few _ number =>
      cases digits with
      | nil => cases some
      | cons d more =>
          refine .escaped d (guarded.of_plain fun e mem ↦ plain ?_)
          obtain ⟨value, small, isDigit⟩ :=
            isDigit_iff.mp (number.isDigit e (List.mem_cons_of_mem d mem))
          exact isDigit_iff.mpr ⟨value, Nat.lt_trans small (by decide), isDigit⟩
  | hexadecimal width number =>
      exact .escaped _ (guarded.of_plain fun e mem ↦ plain (number.isDigit e mem))

/-- A row of spellings is guarded. -/
theorem guarded_written {closing : CodePoint} (digit : closing.isDigit 16 = false)
    (row : List (Spelling closing)) : Guarded closing (written row) := by
  induction row with
  | nil => exact .nil
  | cons s row ih => exact s.spells.guarded digit ih

/-- Every text is spelled in some row. -/
theorem Quoting.exists_row {kind : TokenKind} {opening closing : CodePoint}
    (h : Quoting kind opening closing) (text : Text) :
    ∃ row : List (Spelling closing), Separated row ∧ row.map Spelling.char = text := by
  have special : ∀ c : CodePoint, c = '\\' ∨ c = closing →
      c ∉ octalDigits ∧ c ∉ ("nrtxu" : Text) := by
    rintro c (rfl | rfl)
    · decide
    · cases h with
      | literal quote => rcases quote with rfl | rfl <;> decide
      | charClass => decide
  have each : ∀ c, ∃ s : Spelling closing, s.char = c ∧ ¬ OpenOctal s.text := by
    intro c
    by_cases plain : c = '\\' ∨ c = closing
    · obtain ⟨ne_digit, ne_letter⟩ := special c plain
      refine ⟨⟨_, c, .escaped ne_digit ne_letter⟩, rfl, ?_⟩
      rintro ⟨_, digit, _, ⟨⟩, -⟩
      exact ne_digit digit
    · obtain ⟨ne_backslash, ne_closing⟩ := not_or.mp plain
      refine ⟨⟨_, c, .itself ne_backslash ne_closing⟩, rfl, ?_⟩
      rintro ⟨_, -, _, ⟨⟩, -⟩
  induction text with
  | nil => exact ⟨[], .nil, rfl⟩
  | cons c text ih =>
      obtain ⟨row, separated, rfl⟩ := ih
      obtain ⟨s, rfl, closed⟩ := each c
      have apart : Apart s.text (written row ++ []) := fun isOpen ↦ absurd isOpen closed
      exact ⟨s :: row, separated.cons apart, rfl⟩

/-! ## Malformed escapes -/

theorem Separated.spelledIn_malformed {closing kind : CodePoint} {row : List (Spelling closing)}
    {after : Text} (h : Separated row) (malformed : Malformed kind after) (offset : Nat) :
    spelledIn (written row ++ ('\\' : CodePoint) :: kind :: after) offset =
      .error (.flawed ⟨offset + (written row).length, .invalidEscape kind⟩) := by
  have free : ∀ c ∈ (('\\' : CodePoint) :: kind :: after).head?, c ∉ octalDigits := by
    rintro _ ⟨⟩
    decide
  rw [spelledIn, h.spelledChars_append free, spelledChars_escape, malformed.escape_eq]
  rfl

/-- A token with a malformed escape is not read: the flaw is at the backslash. -/
theorem Separated.primary_malformed {closing kind : CodePoint} {row : List (Spelling closing)}
    {after : Text} (h : Separated row) (malformed : Malformed kind after) {t : Token}
    (quoted : t.kind = .literal ∨ t.kind = .charClass)
    (body : t.body = written row ++ ('\\' : CodePoint) :: kind :: after) (frames : Nat)
    (rest : List Token) :
    primary (frames + 1) (t :: rest) =
      .error (.flawed ⟨t.offset + 1 + (written row).length, .invalidEscape kind⟩) := by
  rcases quoted with literal | charClass
  · rw [primary, literal]
    dsimp only
    rw [literalRule, body, h.spelledIn_malformed malformed]
    rfl
  · rw [primary, charClass]
    dsimp only
    rw [charClassRule]
    split
    next caret =>
      -- what is left out is the first spelling of the row
      cases row with
      | nil =>
          rw [body] at caret
          cases caret
      | cons s row =>
          have alone : s.text = (['^'] : Text) := by
            rw [body] at caret
            obtain ⟨text, -⟩ | ⟨d, more, text, -⟩ := s.spells.itself_or_escape
            · rw [written_cons, text] at caret
              rw [text, Option.some.inj caret]
            · rw [written_cons, text] at caret
              cases caret
          have drop : t.body.drop 1 = written row ++ ('\\' : CodePoint) :: kind :: after := by
            rw [body, written_cons, alone]
            rfl
          have behind : t.offset + 1 + (written (s :: row)).length =
              t.offset + 2 + (written row).length := by
            rw [written_cons, alone, List.length_append, List.length_singleton]
            omega
          rw [drop, h.tail.spelledIn_malformed malformed, behind]
          rfl
    next =>
      rw [body, h.spelledIn_malformed malformed]
      rfl

/-! ## Bodies -/

theorem Separated.literalRule_eq {quote : CodePoint} {row : List (Spelling quote)}
    (h : Separated row) (offset : Nat) :
    literalRule ⟨.literal, quote :: (written row ++ [quote]), offset⟩ =
      .ok (.literal (row.map Spelling.char)) := by
  rw [literalRule, Token.body_eq, spelledIn, h.spelledChars_eq]
  show Except.ok (Rule.literal ((row.map Spelling.spelled).map (·.char))) = _
  rw [List.map_map]
  rfl

/-- A guarded text is written by exactly one row of spellings, or by none because of a malformed
escape that stands behind such a row. -/
theorem Guarded.existsUnique_row {closing : CodePoint} {text : Text} (h : Guarded closing text) :
    (∃! row : List (Spelling closing), Separated row ∧ written row = text) ∨
    ∃ (row : List (Spelling closing)) (kind : CodePoint) (after : Text),
      Separated row ∧ Malformed kind after ∧
      text = written row ++ ('\\' : CodePoint) :: kind :: after ∧
      ∀ row' : List (Spelling closing), Separated row' → written row' ≠ text := by
  obtain ⟨row, left, separated, rfl, rfl | ⟨kind, after, rfl, malformed⟩⟩ := h.exists_row
  · rw [List.append_nil]
    exact .inl ⟨row, ⟨separated, rfl⟩,
      fun row' other ↦ other.1.written_inj separated other.2⟩
  · refine .inr ⟨row, kind, after, separated, malformed, rfl, fun row' other same ↦ ?_⟩
    have flawed := separated.spelledIn_malformed malformed 0
    rw [← same, spelledIn, other.spelledChars_eq] at flawed
    cases flawed

/-- A row of spellings is decoded to its characters, one for each of them, and escaped if they begin
with a backslash; so every text is the value of a literal. The body of a token is written by exactly
one such row, or there is a malformed escape behind one, which is reported at its backslash. -/
theorem spellings_exact :
    (∀ (closing : CodePoint) (row : List (Spelling closing)) (offset : Nat), Separated row →
      spelledChars offset (written row) = .ok (row.map Spelling.spelled)) ∧
    (∀ quote : CodePoint, quote = '\'' ∨ quote = '"' →
      (∀ row : List (Spelling quote), Separated row →
        ∃ t : Token, tokenize (quote :: (written row ++ [quote])) =
            .ok [t, ⟨.ending, [], (written row).length + 2⟩] ∧
          t.kind = .literal ∧ literalRule t = .ok (.literal (row.map Spelling.char))) ∧
      ∀ text, ∃ row : List (Spelling quote), Separated row ∧ row.map Spelling.char = text) ∧
    ∀ src tokens, tokenize src = .ok tokens →
      ∀ t ∈ tokens, t.kind = .literal ∨ t.kind = .charClass →
        ∃ opening closing, Quoting t.kind opening closing ∧
          t.text = opening :: (t.body ++ [closing]) ∧
          ((∃! row : List (Spelling closing), Separated row ∧ written row = t.body) ∨
            ∃ (row : List (Spelling closing)) (kind : CodePoint) (after : Text) (e : Error),
              (Separated row ∧ Malformed kind after ∧
                t.body = written row ++ ('\\' : CodePoint) :: kind :: after ∧
                ∀ row' : List (Spelling closing), Separated row' → written row' ≠ t.body) ∧
              e = ⟨t.offset + 1 + (written row).length, .invalidEscape kind⟩ ∧
              e.message = ("PEG parse error at " : Text) ++ Text.ofNat e.offset ++ ": " ++
                (("invalid \\" : Text) ++ [kind] ++ " escape") ∧
              ∀ frames rest, primary (frames + 1) (t :: rest) = .error (.flawed e)) := by
  refine ⟨fun closing row offset separated ↦ separated.spelledChars_eq offset,
    fun quote isQuote ↦ ⟨fun row separated ↦ ?_, (Quoting.literal isQuote).exists_row⟩, ?_⟩
  · have quoting := Quoting.literal isQuote
    have guarded := guarded_written quoting.isDigit_closing row
    exact ⟨_, quoting.tokenize_eq guarded, rfl, separated.literalRule_eq 0⟩
  · intro src tokens tokenized t mem quoted
    obtain ⟨row, scans, rfl⟩ := exists_scans_of_tokensFrom tokenized
    have token : t ∈ row := by
      refine (List.mem_append.mp mem).resolve_right fun last ↦ ?_
      rw [List.mem_singleton.mp last] at quoted
      simp at quoted
    obtain ⟨before, behind, -, -, shape, -⟩ := scans.exists_place t token
    obtain ⟨opening, closing, body, quoting, guarded, text⟩ := shape.exists_guarded quoted
    have same : t.body = body := by
      rw [Token.body, text, List.drop_one, List.tail_cons, List.dropLast_concat]
    rw [← same] at guarded text
    refine ⟨opening, closing, quoting, text, guarded.existsUnique_row.imp_right ?_⟩
    rintro ⟨row', kind, after, separated, malformed, whole, none⟩
    exact ⟨row', kind, after, _, ⟨separated, malformed, whole, none⟩, rfl, rfl,
      separated.primary_malformed malformed quoted whole⟩

/-- Two escaped surrogates stay two characters, and a digit that is not octal ends an octal number;
a malformed escape in a class is reported at its backslash. -/
theorem spellings_exact_surrogates :
    (∃ row : List (Spelling '\''), Separated row ∧ written row = "\\ud83d\\uDE00\\778" ∧
      row.map Spelling.spelled = [⟨55357, true⟩, ⟨56832, true⟩, ⟨63, true⟩, ⟨'8', false⟩]) ∧
    ∃ row : List (Spelling ']'), Separated row ∧ written row = "^b" ∧ Malformed 'x' "4" ∧
      ∀ frames, primary (frames + 1) [⟨.charClass, "[^b\\x4]", 0⟩] =
        .error (.flawed ⟨3, .invalidEscape 'x'⟩) := by
  obtain ⟨decoded, -, spelledAt⟩ := spellings_exact
  constructor
  · have tokenized : tokenize "'\\ud83d\\uDE00\\778'" =
        .ok [⟨.literal, "'\\ud83d\\uDE00\\778'", 0⟩, ⟨.ending, [], 18⟩] := by decide +kernel
    have chars : spelledChars 0 "\\ud83d\\uDE00\\778" =
        .ok [⟨55357, true⟩, ⟨56832, true⟩, ⟨63, true⟩, ⟨'8', false⟩] := by decide +kernel
    have reads : (primary 1 [⟨.literal, "'\\ud83d\\uDE00\\778'", 0⟩]).isOk = true := by
      decide +kernel
    obtain ⟨opening, closing, quoting, text, unique | malformed⟩ :=
      spelledAt _ _ tokenized _ List.mem_cons_self (.inl rfl)
    · obtain rfl : closing = '\'' := by
        cases quoting
        exact (Option.some.inj (congrArg List.head? text)).symm
      obtain ⟨row, ⟨separated, whole⟩, -⟩ := unique
      have same : written row = "\\ud83d\\uDE00\\778" := whole.trans (by decide +kernel)
      have spelled := decoded _ row 0 separated
      rw [same, chars] at spelled
      exact ⟨row, separated, same, (Except.ok.inj spelled).symm⟩
    · obtain ⟨_, _, _, _, -, -, -, fails⟩ := malformed
      rw [fails] at reads
      cases reads
  · have tokenized : tokenize "[^b\\x4]" =
        .ok [⟨.charClass, "[^b\\x4]", 0⟩, ⟨.ending, [], 7⟩] := by decide +kernel
    have flawed : (primary 1 [⟨.charClass, "[^b\\x4]", 0⟩]).map (fun _ ↦ ()) =
        .error (.flawed ⟨3, .invalidEscape 'x'⟩) := by decide +kernel
    have chars : spelledChars 0 "^b\\x4" = .error ⟨2, .invalidEscape 'x'⟩ := by decide +kernel
    have body : (⟨.charClass, "[^b\\x4]", 0⟩ : Token).body = "^b\\x4" := by decide +kernel
    obtain ⟨opening, closing, quoting, -, unique | malformed⟩ :=
      spelledAt _ _ tokenized _ List.mem_cons_self (.inr rfl)
    · obtain ⟨row, ⟨separated, whole⟩, -⟩ := unique
      have spelled := decoded _ row 0 separated
      rw [whole, body, chars] at spelled
      cases spelled
    · cases quoting
      obtain ⟨row, kind, after, _, ⟨separated, malformed, whole, -⟩, rfl, -, fails⟩ := malformed
      rw [fails] at flawed
      obtain ⟨place, rfl⟩ : 0 + 1 + (written row).length = 3 ∧ kind = 'x' := by
        simpa [Except.map] using flawed
      have length : (written row).length = 2 := by omega
      have cut : ("^b" : Text) ++ ("\\x4" : Text) =
          written row ++ ('\\' : CodePoint) :: 'x' :: after := body.symm.trans whole
      obtain ⟨before, left⟩ := List.append_inj cut length.symm
      obtain rfl : ("4" : Text) = after := congrArg (List.drop 2) left
      rw [length] at fails
      exact ⟨row, separated, before.symm, malformed, fun frames ↦ fails frames []⟩

end Peg.Notation
