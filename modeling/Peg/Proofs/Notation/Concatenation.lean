import Peg.Proofs.Grammar.Frames
import Peg.Proofs.Notation.Scanning

/-!
# Sources one behind the other

Two sources with a line feed between them are read as the rules of the one and then those of the
other. The line feed ends whatever the first source may leave open, a name or a comment in its last
line, and the head of the second source's first rule ends the last expression of the first source as
the ending did before.

If the two share a name, the first rule of the second source whose name is taken is a flaw, at the
place of that name. Heads of rules are recognized in a row of tokens by the arrow behind a name.
-/

namespace Peg

open Except
open List (Forall₂)

namespace Notation

/-! ## Tokens further on -/

/-- The token as it is found if the source begins further on. -/
def Token.shift (distance : Nat) (t : Token) : Token := { t with offset := distance + t.offset }

@[simp] theorem Token.kind_shift (distance : Nat) (t : Token) :
    (t.shift distance).kind = t.kind := rfl

theorem moved_shift (distance : Nat) (tokens : List Token) :
    Forall₂ Token.Moved tokens (tokens.map (Token.shift distance)) := by
  induction tokens with
  | nil => exact .nil
  | cons t tokens ih => exact .cons (.intro ..) ih

/-- A source that begins further on is cut into the same tokens further on. -/
theorem tokensFrom_shift (distance : Nat) {skip offset : Nat} {src : Text} {tokens : List Token}
    (h : tokensFrom skip offset src = .ok tokens) :
    tokensFrom skip (distance + offset) src = .ok (tokens.map (Token.shift distance)) := by
  induction src generalizing skip offset tokens with
  | nil =>
      rw [tokensFrom_nil] at h
      cases h
      rfl
  | cons c rest ih =>
      cases skip with
      | succ skip =>
          rw [tokensFrom] at h ⊢
          exact ih h
      | zero =>
          rw [tokensFrom] at h ⊢
          cases first : Lexeme.first c rest with
          | error flaw =>
              rw [first] at h
              cases h
          | ok l =>
              rw [first] at h
              obtain ⟨others, tail, whole⟩ := bind_eq_ok_iff.mp h
              have tail' := ih tail
              rw [← Nat.add_assoc] at tail'
              dsimp only
              rw [tail', ok_bind]
              cases kind : l.kind with
              | none =>
                  rw [kind] at whole
                  cases whole
                  rfl
              | some kind' =>
                  rw [kind] at whole
                  cases whole
                  rfl

/-- The tokens of two sources with a line feed between them are those of the first one without the
ending, and those of the second one further on. -/
theorem exists_row_of_tokenize {s₁ : Text} {tokens₁ : List Token}
    (h : tokenize s₁ = .ok tokens₁) :
    ∃ row, tokens₁ = row ++ [⟨.ending, [], s₁.length⟩] ∧
      ∀ {s₂ tokens₂}, tokenize s₂ = .ok tokens₂ →
        tokenize (s₁ ++ "\n" ++ s₂) = .ok (row ++ tokens₂.map (Token.shift (s₁.length + 1))) := by
  obtain ⟨row, scans, rfl⟩ := exists_scans_of_tokensFrom h
  refine ⟨row, by rw [Nat.zero_add], fun {s₂ tokens₂} h₂ ↦ ?_⟩
  obtain ⟨text, whole, cut⟩ := scans.exists_cutInto
  rw [List.append_nil] at whole
  subst whole
  have lineFeed : BeginsLike [] (("\n" : Text) ++ s₂) := by
    rintro _ ⟨⟩
    exact .inr rfl
  have both := (cut _ lineFeed).append (cutInto_lineFeed (0 + s₁.length) s₂)
  have second : tokensFrom 0 (s₁.length + 1) s₂ =
      .ok (tokens₂.map (Token.shift (s₁.length + 1))) := tokensFrom_shift (s₁.length + 1) h₂
  rw [CutInto, Nat.zero_add, List.append_nil, List.length_append] at both
  exact both.trans (congrArg (Except.map (row ++ ·)) second)

/-! ## Heads of rules -/

/-- The names before an arrow, which are the heads of rules. -/
def ruleHeads : List Token → List Token
  | [] => []
  | t :: rest =>
      if t.kind = .identifier ∧ rest.head?.any (·.kind = .arrow) then t :: ruleHeads rest
      else ruleHeads rest

theorem ruleHeads_shift (distance : Nat) (tokens : List Token) :
    ruleHeads (tokens.map (Token.shift distance)) =
      (ruleHeads tokens).map (Token.shift distance) := by
  induction tokens with
  | nil => rfl
  | cons t rest ih =>
      have next : (rest.map (Token.shift distance)).head?.any (·.kind = .arrow) =
          rest.head?.any (·.kind = .arrow) := by
        cases rest <;> rfl
      rw [List.map_cons, ruleHeads, ruleHeads, next, ih, Token.kind_shift]
      split
      · rfl
      · rfl

theorem ruleHeads_append {row rest : List Token} (others : ∀ t ∈ row, t.kind ≠ .arrow)
    (next : ∀ t ∈ rest.head?, t.kind ≠ .arrow) : ruleHeads (row ++ rest) = ruleHeads rest := by
  induction row with
  | nil => rfl
  | cons t row ih =>
      obtain ⟨-, others⟩ := List.forall_mem_cons.mp others
      rw [List.cons_append, ruleHeads, if_neg, ih others]
      rintro ⟨-, arrow⟩
      obtain ⟨t', first, kind⟩ := (Option.any_eq_true _ _).mp arrow
      rw [decide_eq_true_eq] at kind
      cases row with
      | nil => exact next t' first kind
      | cons _ row =>
          cases first
          exact others t' List.mem_cons_self kind

mutual

theorem ExpressionTree.ne_arrow : ∀ (e : ExpressionTree), ∀ t ∈ e.tokens, t.kind ≠ .arrow
  | .last s => s.ne_arrow
  | .more s slash e => by
      rw [ExpressionTree.tokens, List.forall_mem_append, List.forall_mem_cons]
      exact ⟨s.ne_arrow, slash.kind_ne nofun, e.ne_arrow⟩

theorem SequenceTree.ne_arrow : ∀ (s : SequenceTree), ∀ t ∈ s.tokens, t.kind ≠ .arrow
  | .empty => nofun
  | .more i s => List.forall_mem_append.mpr ⟨i.ne_arrow, s.ne_arrow⟩

theorem ItemTree.ne_arrow : ∀ (i : ItemTree), ∀ t ∈ i.tokens, t.kind ≠ .arrow
  | .plain s => s.ne_arrow
  | .lookahead operator s => List.forall_mem_cons.mpr ⟨operator.kind_ne nofun, s.ne_arrow⟩

theorem SuffixedTree.ne_arrow : ∀ (s : SuffixedTree), ∀ t ∈ s.tokens, t.kind ≠ .arrow
  | .plain p => p.ne_arrow
  | .repeated p operator =>
      List.forall_mem_append.mpr
        ⟨p.ne_arrow, List.forall_mem_singleton.mpr (operator.kind_ne nofun)⟩

theorem PrimaryTree.ne_arrow : ∀ (p : PrimaryTree), ∀ t ∈ p.tokens, t.kind ≠ .arrow
  | .reference name => List.forall_mem_singleton.mpr (name.kind_ne nofun)
  | .literal t => List.forall_mem_singleton.mpr (t.kind_ne nofun)
  | .charClass t => List.forall_mem_singleton.mpr (t.kind_ne nofun)
  | .anyChar dot => List.forall_mem_singleton.mpr (dot.kind_ne nofun)
  | .group opening e closing => by
      rw [PrimaryTree.tokens, List.forall_mem_cons, List.forall_mem_append,
        List.forall_mem_singleton]
      exact ⟨opening.kind_ne nofun, e.ne_arrow, closing.kind_ne nofun⟩

end

/-- The heads of derived rules are their names, whatever comes behind them, unless that is an arrow.
-/
theorem ruleHeads_rules_append (rules : List RuleTree) {rest : List Token}
    (last : ∀ t ∈ rest.head?, t.kind ≠ .arrow) :
    ruleHeads (rules.flatMap RuleTree.tokens ++ rest) =
      rules.map (·.name.val) ++ ruleHeads rest := by
  induction rules with
  | nil => rfl
  | cons r rules ih =>
      have next : ∀ t ∈ (rules.flatMap RuleTree.tokens ++ rest).head?, t.kind ≠ .arrow := by
        cases rules with
        | nil => exact last
        | cons r' rules =>
            rintro _ ⟨⟩
            exact r'.name.kind_ne nofun
      rw [List.flatMap_cons, List.append_assoc, RuleTree.tokens, List.cons_append,
        List.cons_append, ruleHeads, if_pos ⟨r.name.property, by simp [r.arrow.property]⟩,
        ruleHeads, if_neg, ruleHeads_append r.body.ne_arrow next, ih, List.map_cons,
        List.cons_append]
      exact fun head ↦ r.arrow.kind_ne (by simp) head.1

theorem ruleHeads_rules (rules : List RuleTree) (ending : TokenOf .ending) :
    ruleHeads (rules.flatMap RuleTree.tokens ++ [ending.val]) = rules.map (·.name.val) := by
  have none : ruleHeads [ending.val] = [] := if_neg fun head ↦ ending.kind_ne (by simp) head.1
  rw [ruleHeads_rules_append, none, List.append_nil]
  rintro _ ⟨⟩
  exact ending.kind_ne nofun

/-! ## A name that is taken -/

/-- The result is the given flaw unless the frames do not suffice. -/
def FailsAs {α : Type} (result : Except ReadError α) (e : Error) : Prop :=
  result = .error (.flawed e) ∨ result = .error .outOfFrames

namespace FailsAs

variable {α β : Type} {e : Error}

/-- A flaw in the first of two steps is one in both. -/
theorem bind {x : Except ReadError α} (h : FailsAs x e) (f : α → Except ReadError β) :
    FailsAs (x >>= f) e := by
  rcases h with rfl | rfl
  · exact .inl rfl
  · exact .inr rfl

theorem of_readsAs {x : Except ReadError α} {f : α → Except ReadError β} {a : α}
    (first : ReadsAs x a) (second : FailsAs (f a) e) : FailsAs (x >>= f) e := by
  rcases first with rfl | rfl
  · exact second
  · exact .inr rfl

end FailsAs

/-- The rule has the name of one of the earlier ones, which are new, or a name that has been seen
before them. -/
structure Taken (seen : List Text) (earlier : List RuleTree) (r : RuleTree) : Prop where
  /-- The earlier rules are new. -/
  new : New seen earlier
  /-- The name is taken. -/
  mem : r.name.val.text ∈ earlier.map (·.name.val.text) ++ seen

/-- The name of the first rule is seen before the others. -/
theorem taken_cons_iff {seen : List Text} {r r' : RuleTree} {earlier : List RuleTree} :
    Taken seen (r :: earlier) r' ↔
      r.name.val.text ∉ seen ∧ Taken (r.name.val.text :: seen) earlier r' := by
  have same : r'.name.val.text ∈ (r :: earlier).map (·.name.val.text) ++ seen ↔
      r'.name.val.text ∈ earlier.map (·.name.val.text) ++ r.name.val.text :: seen := by
    simp only [List.map_cons, List.cons_append, List.mem_cons, List.mem_append]
    exact or_left_comm
  constructor
  · rintro ⟨new, mem⟩
    obtain ⟨unseen, others⟩ := new_cons_iff.mp new
    exact ⟨unseen, others, same.mp mem⟩
  · rintro ⟨unseen, others, mem⟩
    exact ⟨new_cons_iff.mpr ⟨unseen, others⟩, same.mpr mem⟩

theorem RuleTree.exists_image {before after : List RuleTree} {r : RuleTree}
    {entries : List (Text × Rule)}
    (images : (before ++ r :: after).mapM RuleTree.entry = .ok entries) :
    ∃ body, r.body.rule = .ok body := by
  obtain ⟨entry, -, image⟩ := (mapM_eq_ok_iff.mp images).exists_right
    (List.mem_append_right before List.mem_cons_self)
  obtain ⟨body, image', -⟩ := r.exists_body image
  exact ⟨body, image'⟩

/-- The first of several rules whose name is taken is a flaw at its name, found behind its body. -/
theorem failsAs_rulesWith (ending : TokenOf .ending) (frames : Nat) {r : RuleTree}
    {after : List RuleTree} :
    ∀ {before : List RuleTree} {entries : List (Text × Rule)},
      (before ++ r :: after).mapM RuleTree.entry = .ok entries →
      ∀ {seen : List Text}, Taken seen before r → ∀ {count : Nat}, before.length < count →
          FailsAs (rulesWith (expression frames) count seen
              ((before ++ r :: after).flatMap RuleTree.tokens ++ [ending.val]))
            ⟨r.name.val.offset, .duplicateRule r.name.val.text⟩
  | [], entries, images, seen, taken, count + 1, enough => by
      obtain ⟨body, image⟩ := RuleTree.exists_image images
      have goesOn : ¬ r.name.val.kind = .ending := r.name.kind_ne (by simp)
      rw [List.nil_append, List.flatMap_cons, List.append_assoc]
      show FailsAs (rulesWith _ _ _ (r.name.val :: _)) _
      rw [rulesWith, if_neg goesOn]
      refine FailsAs.bind ?_ _
      refine .of_readsAs (.inl (expect_token r.name _ _)) ?_
      refine .of_readsAs (.inl (expect_token r.arrow _ _)) ?_
      refine .of_readsAs (r.body.readsAs image (expressionComplete_rules after ending []) frames) ?_
      dsimp only
      rw [if_pos (show r.name.val.text ∈ seen from taken.mem)]
      exact .inl rfl
  | r' :: before, entries, images, seen, taken, count + 1, enough => by
      rw [List.cons_append, List.mapM_cons] at images
      obtain ⟨entry, image, tail⟩ := bind_eq_ok_iff.mp images
      obtain ⟨entries', images', -⟩ := bind_eq_ok_iff.mp tail
      obtain ⟨unseen, others⟩ := taken_cons_iff.mp taken
      obtain ⟨body, -, rfl⟩ := r'.exists_body image
      have goesOn : ¬ r'.name.val.kind = .ending := r'.name.kind_ne (by simp)
      rw [List.cons_append, List.flatMap_cons, List.append_assoc]
      show FailsAs (rulesWith _ _ _ (r'.name.val :: _)) _
      rw [rulesWith, if_neg goesOn]
      have complete := expressionComplete_rules (before ++ r :: after) ending []
      refine .of_readsAs (r'.readsAs image complete unseen frames) ?_
      exact FailsAs.bind (failsAs_rulesWith ending frames images' others
        (Nat.lt_of_succ_lt_succ enough)) _

/-- A derivation in which a name is taken is not read: the first rule whose name is taken is a flaw
at its name. -/
theorem failsAs_readRules (ending : TokenOf .ending) (frames : Nat) {before after : List RuleTree}
    {r : RuleTree} {entries : List (Text × Rule)}
    (images : (before ++ r :: after).mapM RuleTree.entry = .ok entries)
    (taken : Taken [] before r) :
    FailsAs (readRules frames ((before ++ r :: after).flatMap RuleTree.tokens ++ [ending.val]))
      ⟨r.name.val.offset, .duplicateRule r.name.val.text⟩ := by
  refine FailsAs.bind (FailsAs.bind (failsAs_rulesWith ending frames images taken ?_) _) _
  have := RuleTree.length_le_length_tokens (before ++ r :: after)
  rw [List.length_append] at this
  rw [List.length_append, List.length_singleton]
  omega

/-! ## Joined sources -/

/-- The rules are some that a table is the image of, all of different names. -/
structure Tabulated (rules : List RuleTree) (table : List (Text × Rule)) : Prop where
  /-- There is a rule. -/
  ne_nil : rules ≠ []
  /-- The table is the image. -/
  images : rules.mapM RuleTree.entry = .ok table
  /-- No name is taken twice. -/
  nodup : (rules.map (·.name.val.text)).Nodup

theorem Tabulated.nodup_append {rules₁ rules₂ : List RuleTree} {table₁ table₂ : List (Text × Rule)}
    (h₁ : Tabulated rules₁ table₁) (h₂ : Tabulated rules₂ table₂)
    (disjoint : ∀ name ∈ table₁.map Prod.fst, name ∉ table₂.map Prod.fst) :
    ((rules₁ ++ rules₂).map (·.name.val.text)).Nodup := by
  rw [List.map_append, List.nodup_append]
  refine ⟨h₁.nodup, h₂.nodup, ?_⟩
  rintro name mem _ mem' rfl
  rw [RuleTree.names_eq h₁.images] at mem
  rw [RuleTree.names_eq h₂.images] at mem'
  exact disjoint name mem mem'

theorem Tabulated.images_append {rules₁ rules₂ : List RuleTree} {table₁ table₂ : List (Text × Rule)}
    (h₁ : Tabulated rules₁ table₁) (h₂ : Tabulated rules₂ table₂) :
    (rules₁ ++ rules₂).mapM RuleTree.entry = .ok (table₁ ++ table₂) := by
  rw [List.mapM_append, h₁.images, h₂.images]
  rfl

theorem Tabulated.readsAs_append {rules₁ rules₂ : List RuleTree}
    {table₁ table₂ : List (Text × Rule)} (h₁ : Tabulated rules₁ table₁)
    (h₂ : Tabulated rules₂ table₂)
    (disjoint : ∀ name ∈ table₁.map Prod.fst, name ∉ table₂.map Prod.fst)
    (ending : TokenOf .ending) (frames : Nat) :
    ReadsAs (readRules frames ((rules₁ ++ rules₂).flatMap RuleTree.tokens ++ [ending.val]))
      (table₁ ++ table₂) := by
  have rules_ne_nil : rules₁ ++ rules₂ ≠ [] := fun nil ↦ h₁.ne_nil (List.append_eq_nil_iff.mp nil).1
  have derives : GrammarTree.Derives ⟨rules₁ ++ rules₂, rules_ne_nil⟩
      ((rules₁ ++ rules₂).flatMap RuleTree.tokens ++ [ending.val]) := ⟨ending, rfl⟩
  exact derives.readRules_eq (h₁.nodup_append h₂ disjoint) (h₁.images_append h₂) frames

/-- If two rows of rules share a name, the first one in the second row whose name is taken is a
flaw. -/
theorem Tabulated.failsAs_append {rules₁ rules₂ : List RuleTree} {r : RuleTree}
    {table₁ table₂ : List (Text × Rule)} (h₁ : Tabulated rules₁ table₁)
    (h₂ : Tabulated rules₂ table₂)
    (first : rules₂.find? ((table₁.map Prod.fst).contains ·.name.val.text) = some r)
    (ending : TokenOf .ending) (frames : Nat) :
    FailsAs (readRules frames ((rules₁ ++ rules₂).flatMap RuleTree.tokens ++ [ending.val]))
      ⟨r.name.val.offset, .duplicateRule r.name.val.text⟩ := by
  obtain ⟨taken, before, after, rfl, new⟩ := List.find?_eq_some_iff_append.mp first
  have images := h₁.images_append h₂
  rw [← List.append_assoc] at images ⊢
  have different := h₂.nodup
  rw [List.map_append] at different
  refine failsAs_readRules ending frames images ⟨.of_nodup ?_, ?_⟩
  · rw [List.map_append, List.nodup_append]
    refine ⟨h₁.nodup, (List.nodup_append.mp different).1, ?_⟩
    rintro name mem _ mem' rfl
    obtain ⟨r', among, rfl⟩ := List.mem_map.mp mem'
    rw [RuleTree.names_eq h₁.images] at mem
    have old := new r' among
    rw [List.contains_iff_mem.mpr mem] at old
    cases old
  · rw [List.append_nil, List.map_append, RuleTree.names_eq h₁.images]
    exact List.mem_append_left _ (List.contains_iff_mem.mp taken)

theorem exists_rules_of_readRules {frames : Nat} {tokens : List Token}
    {table : List (Text × Rule)} (terminated : Terminated tokens)
    (read : readRules frames tokens = .ok table) :
    ∃ (rules : List RuleTree) (ending : TokenOf .ending),
      tokens = rules.flatMap RuleTree.tokens ++ [ending.val] ∧ Tabulated rules table := by
  obtain ⟨g, ⟨ending, rfl⟩, nodup, images⟩ := exists_derivation_of_readRules terminated read
  exact ⟨g.rules, ending, rfl, g.rules_ne_nil, images, nodup⟩

/-- Terminated tokens are terminated further on. -/
theorem Terminated.shift (distance : Nat) {tokens : List Token} (h : Terminated tokens) :
    Terminated (tokens.map (Token.shift distance)) := by
  induction h with
  | ending kind => exact .ending kind
  | @cons t other _ _ ih => exact Terminated.cons (t := t.shift distance) other ih

/-- Two sources that are read are derived one behind the other, each with its own table. The names
of the second one are its heads of rules further on. -/
theorem exists_rules_of_rulesOf {s₁ s₂ : Text} {frames₁ frames₂ : Nat}
    {table₁ table₂ : List (Text × Rule)} (read₁ : Source.rulesOf frames₁ s₁ = .ok table₁)
    (read₂ : Source.rulesOf frames₂ s₂ = .ok table₂) :
    ∃ (rules₁ rules₂ : List RuleTree) (ending : TokenOf .ending) (tokens₂ : List Token),
      tokenize (s₁ ++ "\n" ++ s₂) =
        .ok ((rules₁ ++ rules₂).flatMap RuleTree.tokens ++ [ending.val]) ∧
      tokenize s₂ = .ok tokens₂ ∧
      rules₂.map (·.name.val) = (ruleHeads tokens₂).map (Token.shift (s₁.length + 1)) ∧
      Tabulated rules₁ table₁ ∧ Tabulated rules₂ table₂ := by
  obtain ⟨tokens₁, tokenized₁, read₁⟩ := bind_eq_ok_iff.mp read₁
  obtain ⟨tokens₂, tokenized₂, read₂⟩ := bind_eq_ok_iff.mp read₂
  replace tokenized₁ := mapError_eq_ok_iff.mp tokenized₁
  replace tokenized₂ := mapError_eq_ok_iff.mp tokenized₂
  -- the second source is read further on as it is read alone
  have shifted : readRules frames₂ (tokens₂.map (Token.shift (s₁.length + 1))) = .ok table₂ := by
    have alike := readRules_of_moved frames₂ (moved_shift (s₁.length + 1) tokens₂)
    rw [read₂] at alike
    generalize readRules frames₂ (tokens₂.map (Token.shift (s₁.length + 1))) = result at alike
    cases alike with
    | ok same => rw [same]
  obtain ⟨rules₁, ending₁, whole₁, tabulated₁⟩ :=
    exists_rules_of_readRules (terminated_of_tokenize tokenized₁) read₁
  obtain ⟨rules₂, ending₂, whole₂, tabulated₂⟩ :=
    exists_rules_of_readRules ((terminated_of_tokenize tokenized₂).shift _) shifted
  obtain ⟨row, same, behind⟩ := exists_row_of_tokenize tokenized₁
  obtain rfl : row = rules₁.flatMap RuleTree.tokens :=
    (List.append_inj' (same.symm.trans whole₁) rfl).1
  refine ⟨rules₁, rules₂, ending₂, tokens₂, ?_, tokenized₂, ?_, tabulated₁, tabulated₂⟩
  · rw [behind tokenized₂, whole₂, List.flatMap_append, List.append_assoc]
  · rw [← ruleHeads_shift, whole₂, ruleHeads_rules]

end Notation

open Notation

/-- With enough frames a source has the flaw that its tokens have. -/
theorem Source.rulesOf_of_failsAs {src : Text} {tokens : List Token} {frames : Nat} {e : Error}
    (tokenized : tokenize src = .ok tokens) (enough : 5 * nesting 0 tokens + 5 ≤ frames)
    (fails : FailsAs (readRules frames tokens) e) : rulesOf frames src = .error (.flawed e) := by
  have settled := settles_readRules (terminated_of_tokenize tokenized) enough
  rw [rulesOf, tokenized]
  exact fails.resolve_right settled.ne_outOfFrames

/-- Two sources that are read are read one behind the other, with a line feed between them, as the
rules of the first one and those of the second one, if they share no name. If they do, the first
rule of the second source whose name is taken is a flaw at the place of that name. -/
theorem Source.rulesOf_append {s₁ s₂ : Text} {frames₁ frames₂ : Nat}
    {table₁ table₂ : List (Text × Rule)} (read₁ : rulesOf frames₁ s₁ = .ok table₁)
    (read₂ : rulesOf frames₂ s₂ = .ok table₂) :
    ∃ tokens₂, tokenize s₂ = .ok tokens₂ ∧
      (ruleHeads tokens₂).map (·.text) = table₂.map Prod.fst ∧
      ∃ limit, ∀ frames, limit ≤ frames →
        ((∀ name ∈ table₁.map Prod.fst, name ∉ table₂.map Prod.fst) →
          rulesOf frames (s₁ ++ "\n" ++ s₂) = .ok (table₁ ++ table₂) ∧
          ∀ id start, Grammar.ofSource frames id (s₁ ++ "\n" ++ s₂) start =
            (Grammar.build id (Grammar.tableOf (table₁ ++ table₂)) start).mapError .undefined) ∧
        ((∃ name ∈ table₁.map Prod.fst, name ∈ table₂.map Prod.fst) →
          ∃ head e, (ruleHeads tokens₂).find? ((table₁.map Prod.fst).contains ·.text) = some head ∧
            e = ⟨s₁.length + 1 + head.offset, .duplicateRule head.text⟩ ∧
            e.message = ("PEG parse error at " : Text) ++ Text.ofNat e.offset ++ ": " ++
              (("duplicate rule '" : Text) ++ head.text ++ "'") ∧
            rulesOf frames (s₁ ++ "\n" ++ s₂) = .error (.flawed e) ∧
            ∀ id start, Grammar.ofSource frames id (s₁ ++ "\n" ++ s₂) start =
              .error (.unreadable (.flawed e))) := by
  obtain ⟨rules₁, rules₂, ending, tokens₂, tokenized, tokenized₂, heads, tabulated₁, tabulated₂⟩ :=
    exists_rules_of_rulesOf read₁ read₂
  have names : (ruleHeads tokens₂).map (·.text) = table₂.map Prod.fst := by
    have same := congrArg (List.map Token.text) heads
    rw [List.map_map, List.map_map] at same
    exact same.symm.trans (RuleTree.names_eq tabulated₂.images)
  refine ⟨tokens₂, tokenized₂, names,
    max (5 * nesting 0 ((rules₁ ++ rules₂).flatMap RuleTree.tokens ++ [ending.val]) + 5)
      (Rule.greatestLinkDepth ((table₁ ++ table₂).map Prod.snd)), fun frames limit ↦ ?_⟩
  obtain ⟨enough, toLink⟩ := Nat.max_le.mp limit
  refine ⟨fun disjoint ↦ ?_, ?_⟩
  · have read := rulesOf_of_readsAs tokenized enough
      (tabulated₁.readsAs_append tabulated₂ disjoint ending frames)
    refine ⟨read, fun id start ↦ ?_⟩
    exact Grammar.ofSource_eq_of_le read toLink
  · rintro ⟨name, taken, mem⟩
    rw [← names] at mem
    obtain ⟨t, among, rfl⟩ := List.mem_map.mp mem
    obtain ⟨head, found⟩ : ∃ head,
        (ruleHeads tokens₂).find? ((table₁.map Prod.fst).contains ·.text) = some head :=
      Option.isSome_iff_exists.mp
        (List.find?_isSome.mpr ⟨t, among, List.contains_iff_mem.mpr taken⟩)
    -- the rule at that head is the first one whose name is taken, too
    have same := congrArg (List.find? ((table₁.map Prod.fst).contains ·.text)) heads
    rw [List.find?_map, List.find?_map] at same
    obtain ⟨r, first, atHead⟩ := Option.map_eq_some_iff.mp
      (same.trans (congrArg (Option.map (Token.shift (s₁.length + 1))) found))
    have fails := tabulated₁.failsAs_append tabulated₂ first ending frames
    rw [atHead] at fails
    have read := rulesOf_of_failsAs tokenized enough fails
    refine ⟨head, _, found, rfl, rfl, read, fun id start ↦ ?_⟩
    rw [Grammar.ofSource, read]
    rfl

/-- A source whose rules can be named is read. -/
theorem Source.exists_table {frames : Nat} {src : Text} {names : List Text}
    (h : (rulesOf frames src).toOption.map (·.map Prod.fst) = some names) :
    ∃ table, rulesOf frames src = .ok table ∧ table.map Prod.fst = names := by
  cases read : rulesOf frames src with
  | error e =>
      rw [read] at h
      cases h
  | ok table =>
      rw [read] at h
      exact ⟨table, rfl, Option.some.inj h⟩

/-- The line feed ends the comment of a source, and the head of the source behind it ends the last
expression; a name of the second rule behind it is found taken. -/
theorem Source.rulesOf_append_comment :
    ∃ table₁ table₂ table₃,
      rulesOf 9 "a<-b #x" = .ok table₁ ∧ rulesOf 9 "b<-'c'" = .ok table₂ ∧
      rulesOf 9 "c<-.\na<-b" = .ok table₃ ∧
      (∃ limit, ∀ frames, limit ≤ frames →
        rulesOf frames ("a<-b #x" ++ "\n" ++ "b<-'c'") = .ok (table₁ ++ table₂)) ∧
      ∃ limit, ∀ frames, limit ≤ frames →
        rulesOf frames ("a<-b #x" ++ "\n" ++ "c<-.\na<-b") =
          .error (.flawed ⟨13, .duplicateRule "a"⟩) := by
  have named₁ : (rulesOf 9 "a<-b #x").toOption.map (·.map Prod.fst) = some [("a" : Text)] := by
    decide +kernel
  have named₂ : (rulesOf 9 "b<-'c'").toOption.map (·.map Prod.fst) = some [("b" : Text)] := by
    decide +kernel
  have named₃ : (rulesOf 9 "c<-.\na<-b").toOption.map (·.map Prod.fst) =
      some [("c" : Text), ("a" : Text)] := by
    decide +kernel
  obtain ⟨table₁, read₁, names₁⟩ := exists_table named₁
  obtain ⟨table₂, read₂, names₂⟩ := exists_table named₂
  obtain ⟨table₃, read₃, names₃⟩ := exists_table named₃
  refine ⟨table₁, table₂, table₃, read₁, read₂, read₃, ?_, ?_⟩
  · obtain ⟨_, -, -, limit, enough⟩ := rulesOf_append read₁ read₂
    refine ⟨limit, fun frames le ↦ ((enough frames le).1 ?_).1⟩
    rw [names₁, names₂]
    decide
  · obtain ⟨tokens, tokenized, -, limit, enough⟩ := rulesOf_append read₁ read₃
    refine ⟨limit, fun frames le ↦ ?_⟩
    have shared : ∃ name ∈ table₁.map Prod.fst, name ∈ table₃.map Prod.fst := by
      rw [names₁, names₃]
      decide
    have first : (tokenize "c<-.\na<-b").toOption.bind
        (fun tokens ↦ (ruleHeads tokens).find? ([("a" : Text)].contains ·.text)) =
          some ⟨.identifier, "a", 5⟩ := by decide +kernel
    obtain ⟨head, _, found, rfl, -, read, -⟩ := (enough frames le).2 shared
    rw [names₁] at found
    rw [tokenized] at first
    cases found.symm.trans first
    exact read

end Peg
