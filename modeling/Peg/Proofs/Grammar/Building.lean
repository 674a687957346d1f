import Mathlib.Data.List.Nodup
import Peg.Proofs.Grammar.Linking
import Peg.Source.Basic

/-!
# Building grammars

What it takes for a grammar to be built, and what it is made of: the names of the table in order,
the start rule, and the rules of the table, linked to the slots of these names.
-/

namespace Peg

open Except

/-! ## Tables -/

namespace Table

/-- The text that a rule is called by, if it is called by one. -/
def text? (entry : Value × Operand) : Option Text :=
  match entry.1 with
  | .text name => some name
  | _ => none

/-- The texts among the names of a table. -/
def texts (table : Table) : List Text := table.filterMap text?

@[simp] theorem texts_cons_text (name : Text) (o : Operand) (table : Table) :
    texts ((.text name, o) :: table) = name :: table.texts := rfl

/-- A rule whose name is no text is not called by one. -/
theorem text?_eq_none {v : Value} (notText : ∀ name, v ≠ .text name) (o : Operand) :
    text? (v, o) = none := by
  unfold text?
  split
  next n found => exact (notText n found).elim
  next => rfl

theorem texts_cons_of_text?_eq_none {entry : Value × Operand} (h : text? entry = none)
    (table : Table) : texts (entry :: table) = table.texts := by
  rw [texts, List.filterMap_cons, h]
  rfl

/-- Setting a rule adds its name behind the others unless it is there already. -/
theorem texts_set (name : Text) (o : Operand) (table : Table) :
    name ∈ table.texts ∧ (table.set name o).texts = table.texts ∨
      name ∉ table.texts ∧ (table.set name o).texts = table.texts ++ [name] := by
  fun_induction set name o table with
  | case1 => exact .inr ⟨List.not_mem_nil, rfl⟩
  | case2 => exact .inl ⟨List.mem_cons_self, rfl⟩
  | case3 n old rest other ih =>
      rw [texts_cons_text, texts_cons_text]
      rcases ih with ⟨mem, same⟩ | ⟨absent, more⟩
      · exact .inl ⟨List.mem_cons_of_mem n mem, by rw [same]⟩
      · refine .inr ⟨?_, by rw [more, List.cons_append]⟩
        intro mem
        rcases List.mem_cons.mp mem with rfl | mem
        · exact other rfl
        · exact absent mem
  | case4 entry rest notText ih =>
      obtain ⟨v, o'⟩ := entry
      have none : text? (v, o') = none :=
        text?_eq_none (fun n found ↦ notText n o' (by rw [found])) o'
      rw [texts_cons_of_text?_eq_none none, texts_cons_of_text?_eq_none none]
      exact ih

theorem mem_set {name : Text} {o : Operand} {table : Table} {entry : Value × Operand}
    (h : entry ∈ table.set name o) : entry ∈ table ∨ entry.2 = o := by
  fun_induction set name o table with
  | case1 =>
      rw [List.mem_singleton.mp h]
      exact .inr rfl
  | case2 old rest =>
      rcases List.mem_cons.mp h with rfl | mem
      · exact .inr rfl
      · exact .inl (List.mem_cons_of_mem _ mem)
  | case3 n old rest _ ih =>
      rcases List.mem_cons.mp h with rfl | mem
      · exact .inl List.mem_cons_self
      · exact (ih mem).imp_left (List.mem_cons_of_mem _)
  | case4 entry' rest _ ih =>
      rcases List.mem_cons.mp h with rfl | mem
      · exact .inl List.mem_cons_self
      · exact (ih mem).imp_left (List.mem_cons_of_mem _)

/-- A table with one more rule has it set, if it is called by a text, and else at the end. -/
theorem insert_eq_ok {table table' : Table} {entry : Value × Operand}
    (h : table.insert entry = .ok table') :
    (∃ name, table' = table.set name entry.2) ∨ text? entry = none ∧ table' = table ++ [entry] := by
  unfold insert at h
  split at h
  next name o =>
    cases h
    exact .inl ⟨name, rfl⟩
  next name o notText =>
    split at h
    next => cases h
    next =>
      cases h
      exact .inr ⟨text?_eq_none notText o, rfl⟩

/-- No two rules of a table are called by the same text. -/
theorem nodup_texts {entries : List (Value × Operand)} {table : Table}
    (h : ofList entries = .ok table) : table.texts.Nodup := by
  refine foldlM_induction (motive := fun table ↦ table.texts.Nodup) ?_ h List.nodup_nil
  intro table entry _ table' nodup inserted
  rcases insert_eq_ok inserted with ⟨name, rfl⟩ | ⟨notText, rfl⟩
  · rcases texts_set name entry.2 table with ⟨-, same⟩ | ⟨absent, more⟩
    · rw [same]
      exact nodup
    · rw [more, ← List.concat_eq_append, List.nodup_concat]
      exact ⟨absent, nodup⟩
  · rw [texts, List.filterMap_append, ← texts, ← texts, texts_cons_of_text?_eq_none notText]
    exact (List.append_nil table.texts).symm ▸ nodup

/-- The rules of a table are rules that were given. -/
theorem exists_mem_of_mem {entries : List (Value × Operand)} {table : Table}
    (h : ofList entries = .ok table) : ∀ entry ∈ table, ∃ given ∈ entries, given.2 = entry.2 := by
  refine foldlM_induction
    (motive := fun table ↦ ∀ entry ∈ table, ∃ given ∈ entries, given.2 = entry.2) ?_ h nofun
  intro table given mem_given table' ih inserted entry mem
  rcases insert_eq_ok inserted with ⟨name, rfl⟩ | ⟨-, rfl⟩
  · rcases mem_set mem with mem | same
    · exact ih entry mem
    · exact ⟨given, mem_given, same.symm⟩
  · rcases List.mem_append.mp mem with mem | mem
    · exact ih entry mem
    · rw [List.mem_singleton.mp mem]
      exact ⟨given, mem_given, rfl⟩

end Table

namespace Grammar

/-- Rules that are there already are called by texts. -/
theorem texts_tableOf (table : List (Text × Rule)) :
    (tableOf table).texts = table.map Prod.fst := by
  induction table with
  | nil => rfl
  | cons entry table ih => exact congrArg (entry.1 :: ·) ih

/-! ## Grammars -/

/-- A grammar is built if and only if there is an entry, all names are names, the start rule is one
of them, and all rules are rules that can be linked. -/
theorem build_eq_ok_iff {id : Nat} {table : Table} {start : Value} {g : Grammar} :
    build id table start = .ok g ↔ table ≠ [] ∧ g.id = id ∧
      List.Forall₂ (fun entry name ↦ ruleName entry.1 = .ok name) table g.names ∧
      startName g.names start = .ok g.start ∧
      List.Forall₂ (fun entry r ↦ ∃ r', entry.2.toRule = .ok r' ∧ r'.link g.names.idxOf? = .ok r)
        table g.rules := by
  simp only [← bind_eq_ok_iff, ← mapM_eq_ok_iff]
  constructor
  · intro built
    cases table with
    | nil => cases built
    | cons entry table =>
        obtain ⟨names, named, built⟩ := bind_eq_ok_iff.mp built
        obtain ⟨start', started, built⟩ := bind_eq_ok_iff.mp built
        obtain ⟨rules, linked, built⟩ := bind_eq_ok_iff.mp built
        cases built
        exact ⟨nofun, rfl, named, started, linked⟩
  · rintro ⟨table_ne_nil, rfl, named, started, linked⟩
    cases table with
    | nil => exact (table_ne_nil rfl).elim
    | cons entry table =>
        refine bind_eq_ok_iff.mpr ⟨_, named, ?_⟩
        refine bind_eq_ok_iff.mpr ⟨_, started, ?_⟩
        exact bind_eq_ok_iff.mpr ⟨_, linked, rfl⟩

/-- A rule is called by a text that is not empty. -/
theorem ruleName_eq_ok_iff {v : Value} {name : Text} :
    ruleName v = .ok name ↔ v = .text name ∧ name ≠ [] := by
  constructor
  · intro h
    unfold ruleName at h
    split at h
    · cases h
      exact ⟨rfl, nofun⟩
    · cases h
  · rintro ⟨rfl, name_ne_nil⟩
    cases name with
    | nil => exact (name_ne_nil rfl).elim
    | cons c rest => rfl

/-- The names of a grammar are the texts that the rules of its table are called by. -/
theorem texts_eq_names {table : Table} {names : List Text}
    (h : List.Forall₂ (fun entry name ↦ ruleName entry.1 = .ok name) table names) :
    table.texts = names := by
  induction h with
  | nil => rfl
  | cons first _ ih =>
      rw [Table.texts, List.filterMap_cons, Table.text?, (ruleName_eq_ok_iff.mp first).1]
      exact congrArg _ ih

/-- The rules of a table that are there already are called by its names. -/
theorem names_of_tableOf {table : List (Text × Rule)} {names : List Text}
    (h : List.Forall₂ (fun entry name ↦ ruleName entry.1 = .ok name) (tableOf table) names) :
    table.map Prod.fst = names := by
  rw [← texts_eq_names h]
  exact (texts_tableOf table).symm

/-- The start rule is the first one or one that is defined. -/
theorem mem_of_startName {names : List Text} {start : Value} {name : Text} (ne_nil : names ≠ [])
    (h : startName names start = .ok name) : name ∈ names := by
  unfold startName at h
  split at h
  next =>
    cases h
    rw [List.headD_eq_head?_getD, List.head?_eq_some_head ne_nil]
    exact List.head_mem ne_nil
  next =>
    split at h
    next defined =>
      cases h
      exact List.contains_iff_mem.mp defined
    next => cases h
  next =>
    split at h
    next => cases h
    next => cases h

/-- A grammar that is built has rules, and starts with one of them. -/
theorem start_mem_of_build {id : Nat} {table : Table} {start : Value} {g : Grammar}
    (built : build id table start = .ok g) : g.names ≠ [] ∧ g.start ∈ g.names := by
  obtain ⟨table_ne_nil, -, named, started, -⟩ := build_eq_ok_iff.mp built
  have names_ne_nil : g.names ≠ [] := by
    intro none
    rw [none, List.forall₂_nil_right_iff] at named
    exact table_ne_nil named
  exact ⟨names_ne_nil, mem_of_startName names_ne_nil started⟩

/-- The start rule cannot be looked up only if what is given for it is no key. -/
theorem unkeyable_of_startName {names : List Text} {start : Value} {typeName : Text}
    (h : startName names start = .error (.unkeyable typeName)) :
    start.unkeyable? = some typeName := by
  unfold startName at h
  split at h
  next => cases h
  next =>
    split at h
    next => cases h
    next => cases h
  next =>
    split at h
    next reason =>
      cases h
      exact reason
    next => cases h

/-- A grammar of rules that are there already cannot be built for want of a key only if what is
given for the start rule is none. -/
theorem unkeyable_of_build {id : Nat} {rules : List (Text × Rule)} {start : Value}
    {typeName : Text} (h : build id (tableOf rules) start = .error (.unkeyable typeName)) :
    start.unkeyable? = some typeName := by
  cases rules with
  | nil => cases h
  | cons entry rules =>
      rcases bind_eq_error_iff.mp h with names | ⟨names, -, h⟩
      · obtain ⟨entry', -, fails⟩ := exists_error_of_mapM names
        unfold ruleName at fails
        split at fails
        next => cases fails
        next => cases fails
      · rcases bind_eq_error_iff.mp h with started | ⟨start', -, h⟩
        · exact unkeyable_of_startName started
        · rcases bind_eq_error_iff.mp h with linked | ⟨_, -, impossible⟩
          · obtain ⟨entry', mem, fails⟩ := exists_error_of_mapM linked
            obtain ⟨⟨name, r⟩, -, rfl⟩ := List.mem_map.mp mem
            rcases bind_eq_error_iff.mp fails with noRule | ⟨r', -, fails⟩
            · cases noRule
            · obtain ⟨name, impossible⟩ := Rule.undefinedReference_of_link fails
              cases impossible
          · cases impossible

end Grammar

end Peg
