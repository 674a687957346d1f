import Mathlib.Algebra.Group.Nat.Defs
import Peg.Proofs.Result
import Peg.Source.Utf8

/-!
# Decoding undoes encoding

Each character that is no surrogate is encoded by one to four bytes. Decoding accepts the bytes that
encode a text and no others, and gives back this text: it neither takes a longer form of a character
for a shorter one, nor a surrogate or a number that is too large for a character.

The bytes behind the first one hold six bits of the number each. A character of which some bytes
are read is compared with the numbers that it can still become: those that begin with the bits read
so far and have the next six bits in the range that is left for them.
-/

namespace Peg

/-! ## Encoding -/

/-- The bytes that encode a character; a surrogate has none. -/
def CodePoint.utf8? (c : CodePoint) : Option (List UInt8) :=
  if c.isSurrogate then none else some (String.utf8EncodeChar c.toChar)

namespace Source

/-- The bytes that encode a text; a text with a surrogate has none. -/
def encode : Text → Option (List UInt8)
  | [] => some []
  | c :: t => return (← c.utf8?) ++ (← encode t)

/-- The bytes behind the first one of a character, for the last bits of its number. -/
def trail : Nat → Nat → List UInt8
  | 0, _ => []
  | count + 1, n => .ofNat (n / 0x40 ^ count % 0x40 + 0x80) :: trail count n

theorem length_trail (count n : Nat) : (trail count n).length = count := by
  induction count with
  | zero => rfl
  | succ count ih => rw [trail, List.length_cons, ih]

variable {c : CodePoint} {n : Nat}

theorem isSurrogate_eq_false_iff : c.isSurrogate = false ↔ c.val < 0xD800 ∨ 0xDFFF < c.val := by
  rw [CodePoint.isSurrogate, Bool.and_eq_false_iff, decide_eq_false_iff_not,
    decide_eq_false_iff_not, Nat.not_le, Nat.not_le]

theorem isSurrogate_ofChar (c : Char) : (CodePoint.ofChar c).isSurrogate = false :=
  isSurrogate_eq_false_iff.mpr (c.valid.imp_right And.left)

theorem toNat_toChar (scalar : c.isSurrogate = false) : c.toChar.val.toNat = c.val := by
  have valid : c.val.isValidChar :=
    (isSurrogate_eq_false_iff.mp scalar).imp_right fun above ↦ ⟨above, c.isLt⟩
  rw [CodePoint.toChar, if_neg (by simp [scalar]), Char.ofNat, dif_pos valid]
  rfl

theorem utf8?_of_scalar (scalar : c.isSurrogate = false) :
    c.utf8? = some (String.utf8EncodeChar c.toChar) := by
  rw [CodePoint.utf8?, if_neg (by simp [scalar])]

theorem utf8?_one (below : c.val < 0x80) : c.utf8? = some [.ofNat c.val] := by
  have scalar : c.isSurrogate = false := isSurrogate_eq_false_iff.mpr (by omega)
  rw [utf8?_of_scalar scalar, String.utf8EncodeChar, toNat_toChar scalar,
    if_pos (by omega)]

theorem utf8?_two (above : 0x80 ≤ c.val) (below : c.val < 0x800) :
    c.utf8? = some (.ofNat (c.val / 0x40 + 0xC0) :: trail 1 c.val) := by
  have scalar : c.isSurrogate = false := isSurrogate_eq_false_iff.mpr (by omega)
  rw [utf8?_of_scalar scalar, String.utf8EncodeChar, toNat_toChar scalar,
    if_neg (by omega), if_pos (by omega), Nat.mod_eq_of_lt (by omega)]
  simp [trail]

theorem utf8?_three (scalar : c.isSurrogate = false) (above : 0x800 ≤ c.val)
    (below : c.val < 0x10000) :
    c.utf8? = some (.ofNat (c.val / 0x1000 + 0xE0) :: trail 2 c.val) := by
  rw [utf8?_of_scalar scalar, String.utf8EncodeChar, toNat_toChar scalar,
    if_neg (by omega), if_neg (by omega), if_pos (by omega), Nat.mod_eq_of_lt (by omega)]
  simp [trail]

theorem utf8?_four (above : 0x10000 ≤ c.val) :
    c.utf8? = some (.ofNat (c.val / 0x40000 + 0xF0) :: trail 3 c.val) := by
  have scalar : c.isSurrogate = false := isSurrogate_eq_false_iff.mpr (by omega)
  have limit := c.isLt
  rw [utf8?_of_scalar scalar, String.utf8EncodeChar, toNat_toChar scalar,
    if_neg (by omega), if_neg (by omega), if_neg (by omega), Nat.mod_eq_of_lt (by omega)]
  simp [trail]

/-! ## What a lead byte leaves open -/

/-- The number goes on from the bits that were read, with bits for the next byte that can come. -/
structure Partial.Awaits (p : Partial) (n : Nat) : Prop where
  /-- It begins with the bits read so far. -/
  bits : n / 0x40 ^ (p.more + 1) = p.bits
  /-- The next byte is not too low. -/
  low : p.low ≤ n / 0x40 ^ p.more % 0x40 + 0x80
  /-- The next byte is not too high. -/
  high : n / 0x40 ^ p.more % 0x40 + 0x80 ≤ p.high

variable {b : UInt8} {bytes : List UInt8} {start offset : Nat} {p : Partial} {t : Text}

/-- A lead byte of several bytes says how many of them follow, and leaves a range to the first of
them that excludes longer forms than necessary, surrogates, and numbers that are too large. -/
theorem leadByte_eq_inr_iff : leadByte b start = some (.inr p) ↔
    (0xC2 ≤ b.toNat ∧ b.toNat < 0xE0 ∧ p = ⟨b, start, b.toNat - 0xC0, 0, 0x80, 0xBF⟩) ∨
    (0xE0 ≤ b.toNat ∧ b.toNat < 0xF0 ∧ p = ⟨b, start, b.toNat - 0xE0, 1,
      if b.toNat = 0xE0 then 0xA0 else 0x80, if b.toNat = 0xED then 0x9F else 0xBF⟩) ∨
    (0xF0 ≤ b.toNat ∧ b.toNat < 0xF5 ∧ p = ⟨b, start, b.toNat - 0xF0, 2,
      if b.toNat = 0xF0 then 0x90 else 0x80, if b.toNat = 0xF4 then 0x8F else 0xBF⟩) := by
  rw [leadByte]
  grind

theorem leadByte_eq_inl_iff :
    leadByte b start = some (.inl c) ↔ b.toNat < 0x80 ∧ c.val = b.toNat := by
  rw [leadByte]
  have value : b.toNat < 0x80 → (CodePoint.ofNat b.toNat).val = b.toNat := fun _ ↦
    CodePoint.val_ofNat (by omega)
  grind

theorem utf8?_of_leadByte_inl (lead : leadByte b start = some (.inl c)) : c.utf8? = some [b] := by
  obtain ⟨small, value⟩ := leadByte_eq_inl_iff.mp lead
  rw [utf8?_one (value ▸ small), value, UInt8.ofNat_toNat]

theorem ofNat_eq_of_toNat (h : b.toNat = n) : UInt8.ofNat n = b := by
  rw [← h, UInt8.ofNat_toNat]

theorem trailing_of_leadByte (lead : leadByte b start = some (.inr p)) :
    0x80 ≤ p.low ∧ p.high ≤ 0xBF := by
  obtain ⟨-, -, rfl⟩ | ⟨-, -, rfl⟩ | ⟨-, -, rfl⟩ := leadByte_eq_inr_iff.mp lead <;>
    exact ⟨by grind, by grind⟩

/-- A lead byte and the bytes of a number that goes on from it encode a character. -/
theorem utf8?_of_leadByte (lead : leadByte b start = some (.inr p)) (awaits : p.Awaits n) :
    n < 0x110000 ∧
      ∀ c : CodePoint, c.val = n → c.utf8? = some (b :: trail (p.more + 1) n) := by
  obtain ⟨above, below, rfl⟩ | ⟨above, below, rfl⟩ | ⟨above, below, rfl⟩ :=
    leadByte_eq_inr_iff.mp lead
  · have bits : n / 0x40 = b.toNat - 0xC0 := awaits.bits
    refine ⟨by omega, ?_⟩
    rintro c rfl
    have byte : UInt8.ofNat (c.val / 0x40 + 0xC0) = b := ofNat_eq_of_toNat (by omega)
    rw [utf8?_two (by omega) (by omega), byte]
  · have bits : n / 0x1000 = b.toNat - 0xE0 := awaits.bits
    have low : (if b.toNat = 0xE0 then 0xA0 else 0x80) ≤ n / 0x40 % 0x40 + 0x80 := awaits.low
    have high : n / 0x40 % 0x40 + 0x80 ≤ if b.toNat = 0xED then 0x9F else 0xBF := awaits.high
    refine ⟨by omega, ?_⟩
    rintro c rfl
    have byte : UInt8.ofNat (c.val / 0x1000 + 0xE0) = b := ofNat_eq_of_toNat (by omega)
    have scalar : c.isSurrogate = false := isSurrogate_eq_false_iff.mpr (by grind)
    rw [utf8?_three scalar (by grind) (by omega), byte]
  · have bits : n / 0x40000 = b.toNat - 0xF0 := awaits.bits
    have low : (if b.toNat = 0xF0 then 0x90 else 0x80) ≤ n / 0x1000 % 0x40 + 0x80 := awaits.low
    have high : n / 0x1000 % 0x40 + 0x80 ≤ if b.toNat = 0xF4 then 0x8F else 0xBF := awaits.high
    refine ⟨by grind, ?_⟩
    rintro c rfl
    have byte : UInt8.ofNat (c.val / 0x40000 + 0xF0) = b := ofNat_eq_of_toNat (by omega)
    rw [utf8?_four (by grind), byte]

/-- The bytes of a character are a lead byte that is a character of its own, or one that the number
of the character goes on from and the bytes that follow. -/
theorem exists_leadByte (encoded : c.utf8? = some bytes) (start : Nat) :
    ∃ b, (bytes = [b] ∧ leadByte b start = some (.inl c)) ∨
      ∃ p, bytes = b :: trail (p.more + 1) c.val ∧ leadByte b start = some (.inr p) ∧
        p.Awaits c.val := by
  have scalar : c.isSurrogate = false := by
    by_contra surrogate
    rw [CodePoint.utf8?, if_pos (by simpa using surrogate)] at encoded
    cases encoded
  have apart := isSurrogate_eq_false_iff.mp scalar
  have limit := c.isLt
  have known : ∀ n < 0x100, (UInt8.ofNat n).toNat = n := fun n below ↦
    UInt8.toNat_ofNat_of_lt' below
  obtain one | two | three | four : c.val < 0x80 ∨ (0x80 ≤ c.val ∧ c.val < 0x800) ∨
      (0x800 ≤ c.val ∧ c.val < 0x10000) ∨ 0x10000 ≤ c.val := by omega
  · refine ⟨.ofNat c.val, .inl ⟨?_, leadByte_eq_inl_iff.mpr ?_⟩⟩
    · exact Option.some.inj (encoded.symm.trans (utf8?_one one))
    · rw [known c.val (by omega)]
      exact ⟨one, rfl⟩
  · have byte := known (c.val / 0x40 + 0xC0) (by omega)
    refine ⟨.ofNat (c.val / 0x40 + 0xC0), .inr ⟨_, ?_,
      leadByte_eq_inr_iff.mpr (.inl ⟨by omega, by omega, rfl⟩), ?_⟩⟩
    · exact Option.some.inj (encoded.symm.trans (utf8?_two two.1 two.2))
    · rw [byte]
      exact ⟨by grind, by grind, by grind⟩
  · have byte := known (c.val / 0x1000 + 0xE0) (by omega)
    refine ⟨.ofNat (c.val / 0x1000 + 0xE0), .inr ⟨_, ?_,
      leadByte_eq_inr_iff.mpr (.inr (.inl ⟨by omega, by omega, rfl⟩)), ?_⟩⟩
    · exact Option.some.inj (encoded.symm.trans (utf8?_three scalar three.1 three.2))
    · rw [byte]
      exact ⟨by grind, by grind, by grind⟩
  · have byte := known (c.val / 0x40000 + 0xF0) (by omega)
    refine ⟨.ofNat (c.val / 0x40000 + 0xF0), .inr ⟨_, ?_,
      leadByte_eq_inr_iff.mpr (.inr (.inr ⟨by omega, by omega, rfl⟩)), ?_⟩⟩
    · exact Option.some.inj (encoded.symm.trans (utf8?_four four))
    · rw [byte]
      exact ⟨by grind, by grind, by grind⟩

/-! ## Decoding -/

theorem toNat_trailing (q : Nat) : (UInt8.ofNat (q % 0x40 + 0x80)).toNat = q % 0x40 + 0x80 :=
  UInt8.toNat_ofNat_of_lt' (show _ < 0x100 by omega)

/-- The next byte of a number that goes on from a beginning can come. -/
theorem Partial.Awaits.within (awaits : p.Awaits n)
    (next : b = UInt8.ofNat (n / 0x40 ^ p.more % 0x40 + 0x80)) :
    p.low ≤ b.toNat ∧ b.toNat ≤ p.high := by
  rw [next, toNat_trailing]
  exact ⟨awaits.low, awaits.high⟩

theorem awaits_trailing_iff {lead : UInt8} {bits more : Nat} :
    Partial.Awaits ⟨lead, start, bits, more, 0x80, 0xBF⟩ n ↔ n / 0x40 ^ (more + 1) = bits := by
  have bound := Nat.mod_lt (n / 0x40 ^ more) (show 0 < 0x40 by decide)
  exact ⟨fun awaits ↦ awaits.bits, fun bits ↦ ⟨bits, Nat.le_add_left _ _, Nat.le_of_lt_succ
    (Nat.add_lt_add_right bound 0x80)⟩⟩

/-- The numbers that begin with the bits read so far and those of a byte that can come next are
those that go on from the beginning with this byte. -/
theorem awaits_and_next_iff (within : p.low ≤ b.toNat ∧ b.toNat ≤ p.high)
    (trailing : 0x80 ≤ p.low ∧ p.high ≤ 0xBF) :
    (p.Awaits n ∧ b = UInt8.ofNat (n / 0x40 ^ p.more % 0x40 + 0x80)) ↔
      n / 0x40 ^ p.more = p.bits * 0x40 + (b.toNat - 0x80) := by
  have front : n / 0x40 ^ (p.more + 1) = n / 0x40 ^ p.more / 0x40 := by
    rw [Nat.div_div_eq_div_mul, ← Nat.pow_succ]
  constructor
  · rintro ⟨awaits, next⟩
    have bits := awaits.bits
    rw [← UInt8.toNat_inj, toNat_trailing] at next
    omega
  · intro bits
    have first : n / 0x40 ^ (p.more + 1) = p.bits := by omega
    have next : b = UInt8.ofNat (n / 0x40 ^ p.more % 0x40 + 0x80) := by
      rw [← UInt8.toNat_inj, toNat_trailing]
      omega
    rw [next, toNat_trailing] at within
    exact ⟨⟨first, within.1, within.2⟩, next⟩

theorem exists_within_of_decodeFrom (read : decodeFrom offset (some p) bytes = .ok t) :
    ∃ b rest, bytes = b :: rest ∧ p.low ≤ b.toNat ∧ b.toNat ≤ p.high := by
  cases bytes with
  | nil => cases read
  | cons b rest =>
      refine ⟨b, rest, rfl, ?_⟩
      by_contra outside
      rw [decodeFrom, if_neg outside] at read
      cases read

section Step

variable {lead : UInt8} {bits more low high : Nat} {rest : List UInt8}
  (within : low ≤ b.toNat ∧ b.toNat ≤ high)

include within

theorem decodeFrom_last :
    decodeFrom offset (some ⟨lead, start, bits, 0, low, high⟩) (b :: rest) =
      decodeFrom (offset + 1) none rest >>= fun t ↦
        .ok (CodePoint.ofNat (bits * 0x40 + (b.toNat - 0x80)) :: t) :=
  if_pos within

theorem decodeFrom_next :
    decodeFrom offset (some ⟨lead, start, bits, more + 1, low, high⟩) (b :: rest) =
      decodeFrom (offset + 1)
        (some ⟨lead, start, bits * 0x40 + (b.toNat - 0x80), more, 0x80, 0xBF⟩) rest :=
  if_pos within

end Step

/-- Behind a beginning of a character stand the bytes that one number goes on with, and then the
bytes of the remaining text. -/
theorem decodeFrom_some_eq_ok_iff (trailing : 0x80 ≤ p.low ∧ p.high ≤ 0xBF) :
    decodeFrom offset (some p) bytes = .ok t ↔ ∃ n rest t', p.Awaits n ∧
      bytes = trail (p.more + 1) n ++ rest ∧ t = CodePoint.ofNat n :: t' ∧
      decodeFrom (offset + (p.more + 1)) none rest = .ok t' := by
  obtain ⟨lead, start, bits, more, low, high⟩ := p
  induction more generalizing offset bytes bits low high with
  | zero =>
      constructor
      · intro read
        obtain ⟨b, rest, rfl, within⟩ := exists_within_of_decodeFrom read
        obtain ⟨t', remaining, same⟩ :=
          Except.bind_eq_ok_iff.mp ((decodeFrom_last within).symm.trans read)
        cases same
        obtain ⟨awaits, next⟩ := (awaits_and_next_iff within trailing).mpr (Nat.div_one _)
        exact ⟨_, rest, t', awaits, congrArg (· :: rest) next, rfl, remaining⟩
      · rintro ⟨n, rest, t', awaits, rfl, rfl, remaining⟩
        have whole := (awaits_and_next_iff (awaits.within rfl) trailing).mp ⟨awaits, rfl⟩
        refine (decodeFrom_last (awaits.within rfl)).trans ?_
        exact Except.bind_eq_ok_iff.mpr
          ⟨t', remaining, by rw [← whole, Nat.pow_zero, Nat.div_one]⟩
  | succ more ih =>
      have trailing' : 0x80 ≤ 0x80 ∧ 0xBF ≤ 0xBF := ⟨Nat.le_refl _, Nat.le_refl _⟩
      constructor
      · intro read
        obtain ⟨b, rest, rfl, within⟩ := exists_within_of_decodeFrom read
        rw [decodeFrom_next within, ih _ _ _ trailing'] at read
        obtain ⟨n, rest, t', awaits, rfl, rfl, remaining⟩ := read
        obtain ⟨awaits, next⟩ :=
          (awaits_and_next_iff within trailing).mpr (awaits_trailing_iff.mp awaits)
        refine ⟨n, rest, t', awaits, congrArg (· :: (trail (more + 1) n ++ rest)) next, rfl, ?_⟩
        rwa [Nat.add_assoc, Nat.add_comm 1] at remaining
      · rintro ⟨n, rest, t', awaits, rfl, rfl, remaining⟩
        have whole := (awaits_and_next_iff (awaits.within rfl) trailing).mp ⟨awaits, rfl⟩
        refine (decodeFrom_next (awaits.within rfl)).trans ((ih _ _ _ trailing').mpr ?_)
        refine ⟨n, rest, t', awaits_trailing_iff.mpr whole, rfl, rfl, ?_⟩
        rwa [Nat.add_assoc, Nat.add_comm 1]

/-- At the beginning of what is decoded stand the bytes of a character, and then those of the
remaining text. -/
theorem exists_utf8?_of_decodeFrom (read : decodeFrom offset none (b :: bytes) = .ok t) :
    ∃ c first rest t', c.utf8? = some first ∧ b :: bytes = first ++ rest ∧ t = c :: t' ∧
      decodeFrom (offset + first.length) none rest = .ok t' := by
  rw [decodeFrom] at read
  rcases lead : leadByte b offset with _ | c | p
  · rw [lead] at read
    cases read
  · rw [lead] at read
    obtain ⟨t', remaining, same⟩ := Except.bind_eq_ok_iff.mp read
    cases same
    exact ⟨c, [b], bytes, t', utf8?_of_leadByte_inl lead, rfl, rfl, remaining⟩
  · rw [lead] at read
    obtain ⟨n, rest, t', awaits, rfl, rfl, remaining⟩ :=
      (decodeFrom_some_eq_ok_iff (trailing_of_leadByte lead)).mp read
    obtain ⟨limit, encoded⟩ := utf8?_of_leadByte lead awaits
    refine ⟨_, _, rest, t', encoded _ (CodePoint.val_ofNat limit), rfl, rfl, ?_⟩
    rwa [List.length_cons, length_trail, Nat.add_comm (p.more + 1), ← Nat.add_assoc]

/-- The bytes of a character are decoded to it. -/
theorem decodeFrom_append {first : List UInt8} (encoded : c.utf8? = some first)
    (remaining : decodeFrom (offset + first.length) none bytes = .ok t) :
    decodeFrom offset none (first ++ bytes) = .ok (c :: t) := by
  obtain ⟨b, ⟨rfl, lead⟩ | ⟨p, rfl, lead, awaits⟩⟩ := exists_leadByte encoded offset
  · rw [List.singleton_append, decodeFrom, lead]
    exact Except.bind_eq_ok_iff.mpr ⟨t, remaining, rfl⟩
  · rw [List.cons_append, decodeFrom, lead]
    refine (decodeFrom_some_eq_ok_iff (trailing_of_leadByte lead)).mpr
      ⟨c.val, bytes, t, awaits, rfl, ?_, ?_⟩
    · rw [Fin.ext (CodePoint.val_ofNat c.isLt)]
    · rwa [List.length_cons, length_trail, Nat.add_comm (p.more + 1), ← Nat.add_assoc]
        at remaining

theorem encode_cons_eq_some_iff : encode (c :: t) = some bytes ↔
    ∃ first rest, c.utf8? = some first ∧ bytes = first ++ rest ∧ encode t = some rest := by
  rw [encode]
  cases c.utf8? <;> cases encode t <;> simp [eq_comm]

/-- From every offset on the bytes that encode a text are decoded to it, and no others. -/
theorem decodeFrom_none_eq_ok_iff :
    decodeFrom offset none bytes = .ok t ↔ encode t = some bytes := by
  induction t generalizing offset bytes with
  | nil =>
      cases bytes with
      | nil => exact iff_of_true rfl rfl
      | cons b rest =>
          refine iff_of_false (fun read ↦ ?_) nofun
          obtain ⟨_, _, _, _, _, _, same, _⟩ := exists_utf8?_of_decodeFrom read
          cases same
  | cons c t ih =>
      rw [encode_cons_eq_some_iff]
      constructor
      · intro read
        cases bytes with
        | nil => cases read
        | cons b bytes =>
            obtain ⟨d, first, rest, t', encoded, split, same, remaining⟩ :=
              exists_utf8?_of_decodeFrom read
            cases same
            exact ⟨first, rest, encoded, split, ih.mp remaining⟩
      · rintro ⟨first, rest, encoded, rfl, others⟩
        exact decodeFrom_append encoded (ih.mpr others)

theorem decode_eq_ok_iff : decode bytes = .ok t ↔ encode t = some bytes :=
  decodeFrom_none_eq_ok_iff

/-- The texts that can be encoded are those without surrogates. -/
theorem exists_encode_iff : (∃ bytes, encode t = some bytes) ↔ ∀ c ∈ t, c.isSurrogate = false := by
  induction t with
  | nil => simp [encode]
  | cons c t ih =>
      have first : (∃ bytes, c.utf8? = some bytes) ↔ c.isSurrogate = false := by
        simp [CodePoint.utf8?]
      rw [List.forall_mem_cons, ← first, ← ih]
      simp only [encode_cons_eq_some_iff]
      grind

end Source

end Peg
