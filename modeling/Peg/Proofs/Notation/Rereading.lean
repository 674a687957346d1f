import Peg.Proofs.Grammar.Building
import Peg.Proofs.Grammar.Frames
import Peg.Proofs.Notation.RoundTrip

/-!
# What is read can be printed

Every table that is read from a source and makes a grammar can be expressed in the notation again.
So reading and printing undo each other in both directions.
-/

namespace Peg

open Except

/-! ## Linking and printing -/

namespace Rule

variable {slotOf : Text → Option Nat}

/-- Linking does not look at the slots that are there. -/
theorem link_unlinked (r : Rule) : r.unlinked.link slotOf = r.link slotOf := by
  have all : ∀ rs : List Rule, (∀ r ∈ rs, r.unlinked.link slotOf = r.link slotOf) →
      linkAll slotOf (unlinkedAll rs) = linkAll slotOf rs := by
    intro rs same
    induction rs with
    | nil => rfl
    | cons r rs ih =>
        rw [unlinkedAll, linkAll_cons, linkAll_cons, same r List.mem_cons_self,
          ih fun r' mem ↦ same r' (List.mem_cons_of_mem r mem)]
  induction r using Rule.induction with
  | literal | charRange | anyChar | reference | bound => rfl
  | repeated inner quantifier ih => rw [unlinked, link_repeated, link_repeated, ih]
  | followedBy inner ih => rw [unlinked, link_followedBy, link_followedBy, ih]
  | notFollowedBy inner ih => rw [unlinked, link_notFollowedBy, link_notFollowedBy, ih]
  | sequence items ih => rw [unlinked, link_sequence, link_sequence, all items ih]
  | choice alternatives ih => rw [unlinked, link_choice, link_choice, all alternatives ih]

/-- Rules that can be printed can be linked. -/
theorem Printable.linkable {names : List Text} {r : Rule} (h : r.Printable names) :
    r.Linkable names.idxOf? := by
  induction h with
  | literal | charRange | anyChar => simp
  | repeated _ _ ih => exact (linkable_repeated _ _).mpr ih
  | followedBy _ ih => exact (linkable_followedBy _).mpr ih
  | notFollowedBy _ ih => exact (linkable_notFollowedBy _).mpr ih
  | outsideNothing => simp
  | sequence _ _ ih => exact (linkable_sequence _).mpr ih
  | choice _ _ ih => exact (linkable_choice _).mpr ih
  | reference mem slot => exact (linkable_reference _ _).mpr (List.isSome_idxOf?.mpr mem)

end Rule

namespace Notation

/-! ## What is read -/

/-- The rule can be printed, and none of its references has a slot. -/
def Written (names : List Text) (r : Rule) : Prop := r.Printable names ∧ r.unlinked = r

theorem unlinkedAll_of_written {names : List Text} {rs : List Rule}
    (h : ∀ r ∈ rs, Written names r) : Rule.unlinkedAll rs = rs := by
  rw [Rule.unlinkedAll_eq_map, List.map_congr_left fun r mem ↦ (h r mem).2]
  exact List.map_id' rs

section Combined

variable {combine : List Rule → Rule} {names : List Text} {slotOf : Text → Option Nat}
  {rs : List Rule}

/-- The combination of written rules is written if it is where there is more than one of them. -/
theorem written_combined (whole : rs.length ≠ 1 → Written names (combine rs))
    (h : ∀ r ∈ rs, Written names r) : Written names (combined combine rs) := by
  by_cases several : rs.length = 1
  · obtain ⟨r, rfl⟩ := List.length_eq_one_iff.mp several
    exact h r List.mem_cons_self
  · rw [combined_of_length_ne_one _ several]
    exact whole several

theorem written_sequence (h : ∀ r ∈ rs, Written names r) :
    Written names (combined .sequence rs) :=
  written_combined (fun several ↦ ⟨.sequence (fun r mem ↦ (h r mem).1) several, by
    rw [Rule.unlinked, unlinkedAll_of_written h]⟩) h

theorem written_choice (h : ∀ r ∈ rs, Written names r) : Written names (combined .choice rs) :=
  written_combined (fun several ↦ ⟨.choice (fun r mem ↦ (h r mem).1) several, by
    rw [Rule.unlinked, unlinkedAll_of_written h]⟩) h

/-- What is combined can be linked if the combination can, and with it all of its parts. -/
theorem linkable_of_combined (parts : (combine rs).Linkable slotOf → ∀ r ∈ rs, r.Linkable slotOf)
    (h : (combined combine rs).Linkable slotOf) : ∀ r ∈ rs, r.Linkable slotOf := by
  by_cases several : rs.length = 1
  · obtain ⟨r, rfl⟩ := List.length_eq_one_iff.mp several
    rintro r' (_ | ⟨_, ⟨⟩⟩)
    exact h
  · rw [combined_of_length_ne_one _ several] at h
    exact parts h

end Combined

/-- The ranges of a class are never empty. -/
theorem low_le_high_of_mem_rangesOf {members : List Spelled} {r : CharRange}
    (h : r ∈ rangesOf members) : r.low ≤ r.high := by
  have single : ∀ c : CodePoint, (CharRange.single c).low ≤ (CharRange.single c).high :=
    fun c ↦ Nat.le_refl c.val
  fun_induction rangesOf members with
  | case1 => cases h
  | case2 c =>
      rw [List.mem_singleton.mp h]
      exact single c.char
  | case3 c d =>
      rcases List.mem_cons.mp h with rfl | mem
      · exact single c.char
      · rw [List.mem_singleton.mp mem]
        exact single d.char
  | case4 c d rest ih =>
      rcases List.mem_cons.mp h with rfl | mem
      · exact CharRange.low_le_high_between c.char d.char
      · exact ih mem
  | case5 c dash d rest _ ih =>
      rcases List.mem_cons.mp h with rfl | mem
      · exact single c.char
      · exact ih mem

theorem written_literalRule {names : List Text} {t : Token} {r : Rule}
    (h : literalRule t = .ok r) : Written names r := by
  obtain ⟨chars, -, same⟩ := bind_eq_ok_iff.mp h
  cases same
  exact ⟨.literal _, rfl⟩

theorem written_charClassRule {names : List Text} {t : Token} {r : Rule}
    (h : charClassRule t = .ok r) : Written names r := by
  rw [charClassRule] at h
  split at h
  next =>
    obtain ⟨members, -, same⟩ := bind_eq_ok_iff.mp h
    cases same
    refine ⟨?_, rfl⟩
    rw [complementRule]
    by_cases none : rangesOf members = []
    · rw [none]
      exact .outsideNothing
    · refine .sequence ?_ (by simp)
      rintro r (_ | ⟨_, _ | ⟨_, ⟨⟩⟩⟩)
      · exact .notFollowedBy (.charRange none fun _ mem ↦ low_le_high_of_mem_rangesOf mem)
      · exact .anyChar
  next =>
    obtain ⟨members, -, same⟩ := bind_eq_ok_iff.mp h
    cases same
    rw [classRule]
    split
    next => exact ⟨.choice (List.forall_mem_nil _) (by simp), rfl⟩
    next some => exact ⟨.charRange some fun _ mem ↦ low_le_high_of_mem_rangesOf mem, rfl⟩

theorem ofSymbol_ne_unknown (operator : OperatorOf "?*+") (symbol : Text) :
    Quantifier.ofSymbol operator.val.text ≠ .unknown symbol := by
  obtain ⟨-, c, mem, text⟩ := Token.isOneOf_iff.mp operator.property
  simp only [Text.ofString, String.reduceToList, List.map_cons, List.map_nil, List.mem_cons,
    List.not_mem_nil, or_false] at mem
  rw [text]
  rcases mem with rfl | rfl | rfl <;> simp [Quantifier.ofSymbol, Text.ofString]

mutual

/-- The image of an expression is written if it can be linked. -/
theorem ExpressionTree.written : ∀ (e : ExpressionTree) {names : List Text} {rs : List Rule},
    e.alternatives = .ok rs → (∀ r ∈ rs, r.Linkable names.idxOf?) → ∀ r ∈ rs, Written names r
  | .last s, names, rs, images, linkable => by
      obtain ⟨items, images', same⟩ := bind_eq_ok_iff.mp images
      cases same
      rintro r (_ | ⟨_, ⟨⟩⟩)
      have first := linkable _ List.mem_cons_self
      have parts := linkable_of_combined (Rule.linkable_sequence _).mp first
      exact written_sequence (s.written images' parts)
  | .more s slash e, names, rs, images, linkable => by
      obtain ⟨items, images', tail⟩ := bind_eq_ok_iff.mp images
      obtain ⟨others, images'', same⟩ := bind_eq_ok_iff.mp tail
      cases same
      rintro r (_ | ⟨_, mem⟩)
      · have first := linkable _ List.mem_cons_self
        have parts := linkable_of_combined (Rule.linkable_sequence _).mp first
        exact written_sequence (s.written images' parts)
      · exact e.written images'' (fun r mem ↦ linkable r (List.mem_cons_of_mem _ mem)) r mem

/-- The images of the items of a sequence are written if they can be linked. -/
theorem SequenceTree.written : ∀ (s : SequenceTree) {names : List Text} {rs : List Rule},
    s.items = .ok rs → (∀ r ∈ rs, r.Linkable names.idxOf?) → ∀ r ∈ rs, Written names r
  | .empty, names, rs, images, linkable => by
      cases images
      exact nofun
  | .more i s, names, rs, images, linkable => by
      obtain ⟨first, image, tail⟩ := bind_eq_ok_iff.mp images
      obtain ⟨others, images', same⟩ := bind_eq_ok_iff.mp tail
      cases same
      rintro r (_ | ⟨_, mem⟩)
      · exact i.written image (linkable _ List.mem_cons_self)
      · exact s.written images' (fun r mem ↦ linkable r (List.mem_cons_of_mem _ mem)) r mem

/-- The image of an item is written if it can be linked. -/
theorem ItemTree.written : ∀ (i : ItemTree) {names : List Text} {r : Rule},
    i.rule = .ok r → r.Linkable names.idxOf? → Written names r
  | .plain s, names, r, image, linkable => s.written image linkable
  | .lookahead operator s, names, r, image, linkable => by
      obtain ⟨inner, image', same⟩ := bind_eq_ok_iff.mp image
      replace same := Except.ok.inj same
      split at same
      · subst same
        obtain ⟨printable, bare⟩ := s.written image' ((Rule.linkable_followedBy _).mp linkable)
        exact ⟨.followedBy printable, by rw [Rule.unlinked, bare]⟩
      · subst same
        obtain ⟨printable, bare⟩ := s.written image' ((Rule.linkable_notFollowedBy _).mp linkable)
        exact ⟨.notFollowedBy printable, by rw [Rule.unlinked, bare]⟩

/-- The image of a suffixed primary is written if it can be linked. -/
theorem SuffixedTree.written : ∀ (s : SuffixedTree) {names : List Text} {r : Rule},
    s.rule = .ok r → r.Linkable names.idxOf? → Written names r
  | .plain p, names, r, image, linkable => p.written image linkable
  | .repeated p operator, names, r, image, linkable => by
      obtain ⟨inner, image', same⟩ := bind_eq_ok_iff.mp image
      cases same
      obtain ⟨printable, bare⟩ := p.written image' ((Rule.linkable_repeated _ _).mp linkable)
      exact ⟨.repeated printable (ofSymbol_ne_unknown operator), by rw [Rule.unlinked, bare]⟩

/-- The image of a primary is written if it can be linked. -/
theorem PrimaryTree.written : ∀ (p : PrimaryTree) {names : List Text} {r : Rule},
    p.rule = .ok r → r.Linkable names.idxOf? → Written names r
  | .reference name, names, r, image, linkable => by
      cases image
      have mem : name.val.text ∈ names := by simpa using linkable
      exact ⟨.reference mem none, rfl⟩
  | .literal t, names, r, image, linkable => written_literalRule image
  | .charClass t, names, r, image, linkable => written_charClassRule image
  | .anyChar dot, names, r, image, linkable => by
      cases image
      exact ⟨.anyChar, rfl⟩
  | .group opening e closing, names, r, image, linkable => by
      obtain ⟨rs, images, same⟩ := bind_eq_ok_iff.mp image
      cases same
      have parts := linkable_of_combined (Rule.linkable_choice _).mp linkable
      exact written_choice (e.written images parts)

end

/-! ## Names that are read -/

/-- The text of a lexeme that is an identifier may stand in the notation. -/
theorem Lexeme.isIdentifier {c : CodePoint} {rest : Text} {l : Lexeme}
    (h : Lexeme.first c rest = .ok l) (kind : l.kind = some .identifier) :
    l.text.IsIdentifier := by
  unfold Lexeme.first Lexeme.blockComment Lexeme.delimited at h
  repeat' split at h
  all_goals
    cases h
    try cases kind
  next start => exact ⟨start, List.all_eq_true.mp List.all_takeWhile⟩

theorem isIdentifier_of_mem_tokenize {src : Text} {tokens : List Token}
    (h : tokenize src = .ok tokens) :
    ∀ t ∈ tokens, t.kind = .identifier → t.text.IsIdentifier := by
  refine tokensFrom_induction
    (motive := fun tokens ↦ ∀ t ∈ tokens, t.kind = .identifier → t.text.IsIdentifier) ?_ ?_ h
  · rintro offset t (_ | ⟨_, ⟨⟩⟩) kind
    cases kind
  · rintro c rest l kind offset tokens first same others t (_ | ⟨_, mem⟩) identifier
    · exact Lexeme.isIdentifier first (same.trans (congrArg some identifier))
    · exact others t mem identifier

/-! ## Tables that are read -/

theorem written_of_rules {names : List Text} {rules : List RuleTree} {table : List (Text × Rule)}
    (images : rules.mapM RuleTree.entry = .ok table)
    (linkable : ∀ entry ∈ table, entry.2.Linkable names.idxOf?) :
    ∀ entry ∈ table, Written names entry.2 := by
  intro entry mem
  obtain ⟨r, -, image⟩ := (mapM_eq_ok_iff.mp images).exists_left mem
  obtain ⟨body, image', rfl⟩ := r.exists_body image
  obtain ⟨rs, alternatives, same⟩ := bind_eq_ok_iff.mp image'
  cases same
  have parts := linkable_of_combined (Rule.linkable_choice _).mp (linkable _ mem)
  exact written_choice (r.body.written alternatives parts)

/-- A table that is read from a source can be printed if its references can be linked, and none of
them has a slot. -/
theorem printable_of_rulesOf {frames : Nat} {src : Text} {table : List (Text × Rule)}
    (h : Source.rulesOf frames src = .ok table)
    (linkable : ∀ entry ∈ table, entry.2.Linkable (table.map Prod.fst).idxOf?) :
    Printable table ∧ unlinked table = table := by
  obtain ⟨tokens, tokenized, read⟩ := bind_eq_ok_iff.mp h
  replace tokenized : tokenize src = .ok tokens := mapError_eq_ok_iff.mp tokenized
  obtain ⟨g, derives, different, images⟩ :=
    exists_derivation_of_readRules (terminated_of_tokenize tokenized) read
  have heads := (RuleTree.names_eq images).symm
  have bodies := written_of_rules images linkable
  refine ⟨⟨?_, ?_, ?_, fun entry mem ↦ (bodies entry mem).1⟩, ?_⟩
  · rintro rfl
    exact g.rules_ne_nil (List.map_eq_nil_iff.mp heads.symm)
  · intro entry mem
    have name : entry.1 ∈ g.rules.map (·.name.val.text) := by
      rw [← heads]
      exact List.mem_map_of_mem mem
    obtain ⟨rule, mem', same⟩ := List.mem_map.mp name
    rw [← same]
    obtain ⟨ending, rfl⟩ := derives
    refine isIdentifier_of_mem_tokenize tokenized _ (List.mem_append_left _ ?_) rule.name.property
    exact List.mem_flatMap.mpr ⟨rule, mem', List.mem_cons_self⟩
  · rw [heads]
    exact different
  · have bare : ∀ entry ∈ table, (entry.1, entry.2.unlinked) = entry := by
      intro entry mem
      rw [(bodies entry mem).2]
    exact (List.map_congr_left bare).trans (List.map_id' table)

end Notation

/-! ## Grammars of tables -/

namespace Grammar

variable {table : List (Text × Rule)}

theorem build_unlinked (id : Nat) (table : List (Text × Rule)) (start : Value) :
    build id (tableOf (Notation.unlinked table)) start = build id (tableOf table) start := by
  simp only [build, tableOf, Notation.unlinked, List.mapM_map, List.isEmpty_map,
    Function.comp_def, Operand.toRule_rule, ok_bind, Rule.link_unlinked]

/-- The references in a table that has a grammar can be linked. -/
theorem linkable_of_build {id : Nat} {start : Value} {g : Grammar}
    (h : build id (tableOf table) start = .ok g) :
    ∀ entry ∈ table, entry.2.Linkable (table.map Prod.fst).idxOf? := by
  obtain ⟨-, -, named, -, linked⟩ := build_eq_ok_iff.mp h
  rw [names_of_tableOf named]
  intro entry mem
  have mem' : (Value.text entry.1, Operand.rule entry.2) ∈ tableOf table :=
    List.mem_map.mpr ⟨entry, mem, rfl⟩
  obtain ⟨r, -, r', same, link⟩ := linked.exists_right mem'
  cases same
  exact ⟨r, link⟩

/-- A table that can be printed has a grammar. -/
theorem exists_build_of_printable (h : Notation.Printable table) (id : Nat) :
    ∃ g, build id (tableOf table) .null = .ok g := by
  have linked : ∃ rules, (tableOf table).mapM (fun entry ↦ do
      (← entry.2.toRule).link (table.map Prod.fst).idxOf?) = .ok rules := by
    apply exists_mapM
    intro entry mem
    obtain ⟨⟨name, r⟩, mem', rfl⟩ := List.mem_map.mp mem
    exact (h.rules _ mem').linkable
  obtain ⟨rules, linked⟩ := linked
  refine ⟨⟨id, table.map Prod.fst, rules, (table.map Prod.fst).headD []⟩, ?_⟩
  refine build_eq_ok_iff.mpr ⟨?_, rfl, ?_, rfl, ?_⟩
  · exact fun none ↦ h.ne_nil (List.map_eq_nil_iff.mp none)
  · rw [tableOf, List.forall₂_map_left_iff, List.forall₂_map_right_iff, List.forall₂_same]
    intro entry mem
    refine ruleName_eq_ok_iff.mpr ⟨rfl, fun none ↦ ?_⟩
    have identifier := h.identifiers entry mem
    rw [none] at identifier
    exact identifier
  · simpa only [mapM_eq_ok_iff, bind_eq_ok_iff] using linked

end Grammar

/-! ## Printing and reading -/

/-- Printing a table that can be printed and reading it again gives the table and its grammar; and
every table that is read and has a grammar can be printed, and is read again from what is printed.
-/
theorem Grammar.ofSource_print :
    (∀ {table : List (Text × Rule)}, Notation.Printable table →
      (∃ limit, ∀ frames, limit ≤ frames →
        Source.rulesOf frames (Notation.print table) = .ok (Notation.unlinked table) ∧
        ∀ id start, ofSource frames id (Notation.print table) start =
          (build id (tableOf table) start).mapError .undefined) ∧
      ∀ id, ∃ g, build id (tableOf table) .null = .ok g) ∧
    ∀ {frames id : Nat} {src : Text} {start : Value} {g : Grammar},
      ofSource frames id src start = .ok g →
        ∃ table, Source.rulesOf frames src = .ok table ∧ Notation.Printable table ∧
          ∃ limit, ∀ frames', limit ≤ frames' →
            Source.rulesOf frames' (Notation.print table) = .ok table ∧
            ofSource frames' id (Notation.print table) start = .ok g := by
  have reread : ∀ {table : List (Text × Rule)}, Notation.Printable table →
      ∃ limit, ∀ frames, limit ≤ frames →
        Source.rulesOf frames (Notation.print table) = .ok (Notation.unlinked table) ∧
        ∀ id start, ofSource frames id (Notation.print table) start =
          (build id (tableOf table) start).mapError .undefined := by
    intro table printable
    obtain ⟨limit, reads⟩ := Notation.rulesOf_print printable
    refine ⟨max limit (Rule.greatestLinkDepth ((Notation.unlinked table).map Prod.snd)),
      fun frames enough ↦ ?_⟩
    obtain ⟨toRead, toLink⟩ := Nat.max_le.mp enough
    refine ⟨reads frames toRead, fun id start ↦ ?_⟩
    rw [ofSource_eq_of_le (reads frames toRead) toLink, build_unlinked]
  constructor
  · intro table printable
    exact ⟨reread printable, exists_build_of_printable printable⟩
  · intro frames id src start g h
    obtain ⟨table, rules, built⟩ := exists_build_of_ofSource h
    obtain ⟨printable, bare⟩ := Notation.printable_of_rulesOf rules (linkable_of_build built)
    obtain ⟨limit, reads⟩ := reread printable
    refine ⟨table, rules, printable, limit, fun frames' enough ↦ ?_⟩
    obtain ⟨read, whole⟩ := reads frames' enough
    rw [bare] at read
    exact ⟨read, by rw [whole, built]; rfl⟩

/-- A quote, a backslash and a recursion are printed and read back, and so is a class that excludes
nothing. -/
theorem Grammar.ofSource_print_special :
    (∃ limit, ∀ frames, limit ≤ frames →
      Source.rulesOf frames
          (Notation.print [("a", .choice [.literal "'\\", .reference "a" none])]) =
        .ok [("a", .choice [.literal "'\\", .reference "a" none])]) ∧
    ∃ table, Source.rulesOf 10 "a<-[^]a?" = .ok table ∧ Notation.Printable table := by
  constructor
  · have printable : Notation.Printable [("a", .choice [.literal "'\\", .reference "a" none])] := by
      refine ⟨nofun, ?_, List.nodup_cons.mpr ⟨nofun, List.nodup_nil⟩, ?_⟩
      · rintro entry (_ | ⟨_, ⟨⟩⟩)
        exact ⟨by decide, nofun⟩
      · rintro entry (_ | ⟨_, ⟨⟩⟩)
        refine .choice ?_ nofun
        rintro r (_ | ⟨_, _ | ⟨_, ⟨⟩⟩⟩)
        · exact .literal _
        · exact .reference List.mem_cons_self none
    obtain ⟨⟨limit, reads⟩, -⟩ := ofSource_print.1 printable
    exact ⟨limit, fun frames enough ↦ (reads frames enough).1⟩
  · have succeeds : (ofSource 10 0 "a<-[^]a?" .null).isOk = true := by decide +kernel
    obtain ⟨g, read⟩ := exists_eq_ok succeeds
    obtain ⟨table, rules, printable, -⟩ := ofSource_print.2 read
    exact ⟨table, rules, printable⟩

end Peg
