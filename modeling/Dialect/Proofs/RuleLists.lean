import Mathlib.Data.List.Nodup
import Mathlib.Data.List.Perm.Basic
import Dialect.Proofs.Acceptance
import Dialect.Proofs.Characters
import Dialect.Proofs.Steps

/-!
# Which rules form a table

Rules are read one after the other, and a rule is refused for what it says itself or because its
keyword has come before. Parents are looked up when all rules have been read. What counts as a pattern
is left open here: `read?` is any way to read one. The step lemma says when one rule is refused and for
which fault (`Table.readRule_eq_error_iff`); the run lemmas say the same of all rules behind some that
have been read. Main statement: rules form a table exactly if they are well formed, and otherwise the
first fault is reported (`Table.ofRules_accepts_exactly`).
-/

namespace Dialect

/-! ## Keywords -/

namespace Text

/-- A character that a keyword can start with. -/
def StartsKeyword (c : Char) : Prop := ('A' ≤ c ∧ c ≤ 'Z') ∨ ('a' ≤ c ∧ c ≤ 'z') ∨ c = '_'

/-- A character that a keyword can go on with. -/
def ContinuesKeyword (c : Char) : Prop := StartsKeyword c ∨ ('0' ≤ c ∧ c ≤ '9')

/-- A text of the form `[A-Za-z_][A-Za-z0-9_]*`. -/
def IsKeyword (word : Text) : Prop :=
  ∃ first rest, word = first :: rest ∧ StartsKeyword first ∧ ∀ c ∈ rest, ContinuesKeyword c

theorem startsKeyword_iff (c : Char) : StartsKeyword c ↔ (c.isAlpha || c == '_') = true := by
  rw [Bool.or_eq_true, beq_iff_eq, isAlpha_iff_toNat, or_assoc]
  exact Iff.rfl

theorem continuesKeyword_iff (c : Char) : ContinuesKeyword c ↔ isWordChar c = true := by
  have digits : ('0' ≤ c ∧ c ≤ '9') ↔ c.isDigit = true := (isDigit_iff_toNat c).symm
  rw [ContinuesKeyword, startsKeyword_iff, digits, isWordChar, Char.isAlphanum]
  simp only [Bool.or_eq_true]
  exact or_right_comm

theorem isKeyword_iff (word : Text) : word.IsKeyword ↔ word.isIdentifier = true := by
  cases word with
  | nil => simp [IsKeyword, isIdentifier]
  | cons first rest =>
      simp only [IsKeyword, List.cons.injEq, continuesKeyword_iff, startsKeyword_iff, isIdentifier,
        Bool.and_eq_true, List.all_eq_true]
      constructor
      · rintro ⟨_, _, ⟨rfl, rfl⟩, starts, continues⟩
        exact ⟨starts, continues⟩
      · rintro ⟨starts, continues⟩
        exact ⟨first, rest, ⟨rfl, rfl⟩, starts, continues⟩

end Text

namespace Rule

/-! ## Well-formed rules -/

section Rules

variable (read? : Text → Option Pattern)

/-- The row that a rule stands for, with its pattern read. -/
def row (rule : Rule) : Row where
  keyword := rule.keyword
  equivalent := rule.equivalent
  role := rule.role
  context := rule.pattern.bind read?

/-- What a rule has to say for itself: a keyword, and a pattern that can be read unless the keyword has
nothing to do with blocks and comes without one. -/
structure Complete (rule : Rule) : Prop where
  isKeyword : rule.keyword.IsKeyword
  hasPattern : rule.role ≠ .plain → rule.pattern ≠ none
  readable : ∀ text ∈ rule.pattern, read? text ≠ none

/-- Each rule is complete, and no keyword comes twice. -/
structure Readable (rules : List Rule) : Prop where
  complete : ∀ rule ∈ rules, rule.Complete read?
  distinct : (rules.map keyword).Nodup

/-- A block with this label is opened by the keyword of one of the rules. -/
def Opened (rules : List Rule) (label : Text) : Prop :=
  ∃ rule ∈ rules, rule.keyword = label ∧ rule.role = .opener

/-- A rule that depends on a block depends on one that is opened by one of the rules. -/
def Sheltered (rules : List Rule) (rule : Rule) : Prop :=
  ∀ parent, rule.role = .dependent parent → Opened rules parent

/-- The rules can be read, and every block that a keyword depends on is opened by one of them. -/
structure FormTable (rules : List Rule) : Prop extends Readable read? rules where
  sheltered : ∀ rule ∈ rules, Sheltered rules rule

/-! ## Faults -/

/-- The fault of a rule behind others. What is checked first comes first. -/
inductive HasFault (before : List Rule) (rule : Rule) : Table.Fault → Prop
  | invalidKeyword : ¬rule.keyword.IsKeyword → HasFault before rule (.invalidKeyword rule.keyword)
  | duplicate {other : Rule} : rule.keyword.IsKeyword → other ∈ before →
      other.keyword = rule.keyword → HasFault before rule (.duplicate rule.keyword)
  | missingPattern : rule.keyword.IsKeyword → (∀ other ∈ before, other.keyword ≠ rule.keyword) →
      rule.role ≠ .plain → rule.pattern = none → HasFault before rule (.missingPattern rule.keyword)
  | badPattern {text : Text} : rule.keyword.IsKeyword →
      (∀ other ∈ before, other.keyword ≠ rule.keyword) → rule.pattern = some text →
      read? text = none → HasFault before rule (.badPattern rule.keyword)

/-- The fault that is reported: that of the first rule with a fault of its own or, if there is none,
that of the first rule that depends on a block which no rule opens. -/
inductive FirstFault (rules : List Rule) : Table.Fault → Prop
  | ofRule {before after : List Rule} {rule : Rule} {fault : Table.Fault} :
      rules = before ++ rule :: after → Readable read? before → rule.HasFault read? before fault →
      FirstFault rules fault
  | unknownParent {before after : List Rule} {rule : Rule} {parent : Text} :
      Readable read? rules → rules = before ++ rule :: after → (∀ other ∈ before, Sheltered rules other) →
      rule.role = .dependent parent → ¬Opened rules parent →
      FirstFault rules (.unknownParent rule.keyword parent)

end Rules

variable {read? : Text → Option Pattern}

/-- Behind rules that can be read, a rule can be read as well exactly if it has no fault. -/
theorem readable_concat_iff {before : List Rule} (readable : Readable read? before) (rule : Rule) :
    Readable read? (before ++ [rule]) ↔ ∀ fault, ¬rule.HasFault read? before fault := by
  constructor
  · rintro ⟨complete, distinct⟩ fault faulty
    have completeRule := complete rule (by simp)
    rw [List.map_append, List.nodup_append] at distinct
    cases faulty with
    | invalidKeyword notKeyword => exact notKeyword completeRule.isKeyword
    | duplicate _ member same =>
        exact distinct.2.2 _ (List.mem_map_of_mem member) _ List.mem_cons_self same
    | missingPattern _ _ notPlain missing => exact completeRule.hasPattern notPlain missing
    | badPattern _ _ given bad => exact completeRule.readable _ given bad
  · intro faultless
    have isKeyword : rule.keyword.IsKeyword :=
      Classical.byContradiction fun notKeyword => faultless _ (.invalidKeyword notKeyword)
    have fresh : ∀ other ∈ before, other.keyword ≠ rule.keyword :=
      fun other member same => faultless _ (.duplicate isKeyword member same)
    have complete : rule.Complete read? :=
      ⟨isKeyword, fun notPlain missing => faultless _ (.missingPattern isKeyword fresh notPlain missing),
        fun text given bad => faultless _ (.badPattern isKeyword fresh given bad)⟩
    refine ⟨?_, ?_⟩
    · intro other member
      rcases List.mem_append.mp member with inBefore | last
      · exact readable.complete other inBefore
      · exact List.mem_singleton.mp last ▸ complete
    · rw [List.map_append, List.nodup_append]
      refine ⟨readable.distinct, List.nodup_singleton _, ?_⟩
      rintro _ inBefore _ last rfl
      obtain ⟨other, member, same⟩ := List.mem_map.mp inBefore
      exact fresh other member (same.trans (List.mem_singleton.mp last))

theorem Readable.of_append {rules others : List Rule} (readable : Readable read? (rules ++ others)) :
    Readable read? rules where
  complete := fun rule member => readable.complete rule (List.mem_append_left others member)
  distinct := by
    have distinct := readable.distinct
    rw [List.map_append] at distinct
    exact distinct.of_append_left

theorem formTable_of_perm {rules others : List Rule} (reordered : others.Perm rules)
    (formTable : FormTable read? rules) : FormTable read? others where
  complete := fun rule member => formTable.complete rule (reordered.subset member)
  distinct := (reordered.map keyword).nodup_iff.mpr formTable.distinct
  sheltered := by
    intro rule member parent dependent
    obtain ⟨opener, isRule, opens⟩ := formTable.sheltered rule (reordered.subset member) parent dependent
    exact ⟨opener, reordered.symm.subset isRule, opens⟩

end Rule

namespace Table

open Rule

variable {read? : Text → Option Pattern}

/-! ## Reading one rule -/

theorem readContext_eq_error_iff {rule : Rule} {fault : Fault} :
    readContext read? rule = .error fault ↔
      (rule.role ≠ .plain ∧ rule.pattern = none ∧ fault = .missingPattern rule.keyword) ∨
        ∃ text, rule.pattern = some text ∧ read? text = none ∧
          fault = .badPattern rule.keyword := by
  rw [readContext]
  split
  next plain missing => simp [plain, missing]
  next missing notPlain =>
    have dependsOnBlocks : rule.role ≠ .plain := notPlain
    simp [missing, dependsOnBlocks, eq_comm (b := fault)]
  next text given =>
    cases read : read? text with
    | none => simp [given, read, eq_comm]
    | some context => simp [given, read]

theorem readContext_eq_ok {rule : Rule} {context : Option Pattern}
    (read : readContext read? rule = .ok context) : context = rule.pattern.bind read? := by
  rw [readContext] at read
  split at read
  next missing =>
    rw [missing]
    exact (Except.ok.inj read).symm
  next => simp at read
  next text given =>
    split at read
    next => simp at read
    next pattern isPattern =>
      rw [given, Option.bind_some, isPattern]
      exact (Except.ok.inj read).symm

theorem mem_reverse_keywords_iff {before : List Rule} {word : Text} :
    word ∈ (before.map Rule.keyword).reverse ↔ ∃ other ∈ before, other.keyword = word := by
  rw [List.mem_reverse, List.mem_map]

theorem hasFault_of_readRule {before : List Rule} {rule : Rule} {fault : Fault}
    (refused : readRule read? (before.map Rule.keyword).reverse rule = .error fault) :
    rule.HasFault read? before fault := by
  rw [readRule] at refused
  split at refused
  next notIdentifier =>
    obtain rfl := Except.error.inj refused
    exact .invalidKeyword (by simp [Text.isKeyword_iff, notIdentifier])
  next identifier =>
    have isKeyword : rule.keyword.IsKeyword := (Text.isKeyword_iff _).mpr (by simpa using identifier)
    split at refused
    next known =>
      obtain rfl := Except.error.inj refused
      obtain ⟨other, member, same⟩ := mem_reverse_keywords_iff.mp known
      exact .duplicate isKeyword member same
    next unknown =>
      have fresh : ∀ other ∈ before, other.keyword ≠ rule.keyword :=
        fun other member same => unknown (mem_reverse_keywords_iff.mpr ⟨other, member, same⟩)
      split at refused
      next contextFault contextRefused =>
        obtain rfl := Except.error.inj refused
        rcases readContext_eq_error_iff.mp contextRefused with ⟨notPlain, missing, rfl⟩ |
          ⟨text, given, bad, rfl⟩
        · exact .missingPattern isKeyword fresh notPlain missing
        · exact .badPattern isKeyword fresh given bad
      next => simp at refused

theorem readRule_of_hasFault {before : List Rule} {rule : Rule} {fault : Fault}
    (faulty : rule.HasFault read? before fault) :
    readRule read? (before.map Rule.keyword).reverse rule = .error fault := by
  have unknown (fresh : ∀ other ∈ before, other.keyword ≠ rule.keyword) :
      rule.keyword ∉ (before.map Rule.keyword).reverse := by
    intro known
    obtain ⟨other, member, same⟩ := mem_reverse_keywords_iff.mp known
    exact fresh other member same
  cases faulty with
  | invalidKeyword notKeyword => rw [readRule, if_pos (by simpa [Text.isKeyword_iff] using notKeyword)]
  | duplicate isKeyword member same =>
      rw [readRule, if_neg (by simp [(Text.isKeyword_iff _).mp isKeyword]),
        if_pos (mem_reverse_keywords_iff.mpr ⟨_, member, same⟩)]
  | missingPattern isKeyword fresh notPlain missing =>
      rw [readRule, if_neg (by simp [(Text.isKeyword_iff _).mp isKeyword]), if_neg (unknown fresh),
        readContext_eq_error_iff.mpr (Or.inl ⟨notPlain, missing, rfl⟩)]
  | badPattern isKeyword fresh given bad =>
      rw [readRule, if_neg (by simp [(Text.isKeyword_iff _).mp isKeyword]), if_neg (unknown fresh),
        readContext_eq_error_iff.mpr (Or.inr ⟨_, given, bad, rfl⟩)]

/-- The step lemma: a rule is refused for the fault that it has. -/
theorem readRule_eq_error_iff {before : List Rule} {rule : Rule} {fault : Fault} :
    readRule read? (before.map Rule.keyword).reverse rule = .error fault ↔ rule.HasFault read? before fault :=
  ⟨hasFault_of_readRule, readRule_of_hasFault⟩

theorem not_hasFault_of_readRule {before : List Rule} {rule : Rule} {row : Row}
    (read : readRule read? (before.map Rule.keyword).reverse rule = .ok row) (fault : Fault) :
    ¬rule.HasFault read? before fault := by
  rw [← readRule_eq_error_iff, read]
  simp

theorem eq_row_of_readRule {earlier : List Text} {rule : Rule} {row : Row}
    (read : readRule read? earlier rule = .ok row) : row = rule.row read? := by
  have reads := (reads_of_readRule read).1
  obtain ⟨_, _, _, _⟩ := row
  obtain ⟨keyword, equivalent, role, context⟩ := reads
  simp only at keyword equivalent role context
  rw [keyword, equivalent, role, readContext_eq_ok context, Rule.row]

/-! ## Reading rules one after the other -/

theorem readRules_cons_eq_error_iff {earlier : List Text} {rule : Rule} {rules : List Rule}
    {fault : Fault} :
    readRules read? earlier (rule :: rules) = .error fault ↔
      readRule read? earlier rule = .error fault ∨
        ∃ row, readRule read? earlier rule = .ok row ∧
          readRules read? (rule.keyword :: earlier) rules = .error fault := by
  rw [readRules]
  cases readRule read? earlier rule with
  | error other => simp
  | ok row => cases readRules read? (rule.keyword :: earlier) rules <;> simp

/-- The run lemma for rules that are read, behind others that have been read. -/
theorem readable_of_readRules {before rules : List Rule} {rows : List Row} (readable : Readable read? before)
    (read : readRules read? (before.map Rule.keyword).reverse rules = .ok rows) :
    Readable read? (before ++ rules) ∧ rows = rules.map (Rule.row read?) := by
  induction rules generalizing before rows with
  | nil => exact ⟨by simpa using readable, (Except.ok.inj read).symm⟩
  | cons rule rules inductionHypothesis =>
      obtain ⟨row, others, rowRead, othersRead, rfl⟩ := readRules_cons_eq_ok read
      have readableRule : Readable read? (before ++ [rule]) :=
        (readable_concat_iff readable rule).mpr (not_hasFault_of_readRule rowRead)
      have behind : ((before ++ [rule]).map Rule.keyword).reverse =
          rule.keyword :: (before.map Rule.keyword).reverse := by simp
      rw [← behind] at othersRead
      obtain ⟨all, rfl⟩ := inductionHypothesis readableRule othersRead
      exact ⟨by simpa using all, by rw [eq_row_of_readRule rowRead, List.map_cons]⟩

/-- The run lemma for rules that are refused: the first rule with a fault decides. -/
theorem readRules_eq_error_iff {before rules : List Rule} (readable : Readable read? before)
    {fault : Fault} :
    readRules read? (before.map Rule.keyword).reverse rules = .error fault ↔
      ∃ middle rule after, rules = middle ++ rule :: after ∧ Readable read? (before ++ middle) ∧
        rule.HasFault read? (before ++ middle) fault := by
  induction rules generalizing before with
  | nil => simp [readRules]
  | cons rule rules inductionHypothesis =>
      have behind : ((before ++ [rule]).map Rule.keyword).reverse =
          rule.keyword :: (before.map Rule.keyword).reverse := by simp
      -- The keywords of the rules that have been read are handed on last one first.
      rw [readRules_cons_eq_error_iff, readRule_eq_error_iff, ← behind]
      constructor
      · rintro (faulty | ⟨row, read, later⟩)
        · exact ⟨[], rule, rules, rfl, by simpa using readable, by simpa using faulty⟩
        · have readableRule := (readable_concat_iff readable rule).mpr (not_hasFault_of_readRule read)
          obtain ⟨middle, faultyRule, after, rfl, readableMiddle, faulty⟩ :=
            (inductionHypothesis readableRule).mp later
          exact ⟨rule :: middle, faultyRule, after, rfl, by simpa using readableMiddle,
            by simpa using faulty⟩
      · rintro ⟨middle, faultyRule, after, split, readableMiddle, faulty⟩
        cases middle with
        | nil =>
            obtain ⟨rfl, rfl⟩ := List.cons.inj split
            rw [List.append_nil] at faulty
            exact Or.inl faulty
        | cons first middle =>
            obtain ⟨rfl, rfl⟩ := List.cons.inj split
            rw [List.append_cons] at readableMiddle faulty
            have readableRule : Readable read? (before ++ [rule]) := readableMiddle.of_append
            cases read : readRule read? (before.map Rule.keyword).reverse rule with
            | error other =>
                exact absurd (readRule_eq_error_iff.mp read)
                  ((readable_concat_iff readable rule).mp readableRule other)
            | ok row =>
                exact Or.inr ⟨row, rfl, (inductionHypothesis readableRule).mpr
                  ⟨middle, faultyRule, after, rfl, readableMiddle, faulty⟩⟩

theorem readable_nil : Readable read? [] := ⟨by simp, List.nodup_nil⟩

theorem readRules_of_readable {rules : List Rule} (readable : Readable read? rules) :
    readRules read? [] rules = .ok (rules.map (Rule.row read?)) := by
  cases read : readRules read? [] rules with
  | error fault =>
      obtain ⟨before, rule, after, rfl, readableBefore, faulty⟩ :=
        (readRules_eq_error_iff readable_nil).mp read
      rw [List.append_cons] at readable
      exact absurd faulty ((readable_concat_iff readableBefore rule).mp readable.of_append fault)
  | ok rows => rw [(readable_of_readRules readable_nil read).2]

/-! ## Looking up keywords and parents -/

/-- The fault of a row that depends on a block which no row opens. -/
def orphanFault? (table : Table) (row : Row) : Option Fault :=
  match row.role with
  | .dependent parent =>
      if table.opens parent then none else some (.unknownParent row.keyword parent)
  | _ => none

theorem orphan?_eq_findSome? (table : Table) :
    table.orphan? = table.rows.findSome? table.orphanFault? := rfl

/-- The row of a keyword is the only one with that keyword. -/
theorem row?_eq_some_iff {table : Table} (distinct : table.keywords.Nodup) {word : Text} {row : Row} :
    table.row? word = some row ↔ row ∈ table.rows ∧ row.keyword = word := by
  have sound {found : Row} (isFound : table.row? word = some found) :
      found ∈ table.rows ∧ found.keyword = word := by
    rw [row?] at isFound
    exact ⟨List.mem_of_find?_eq_some isFound, by simpa using List.find?_some isFound⟩
  refine ⟨sound, ?_⟩
  rintro ⟨member, isWord⟩
  cases found : table.row? word with
  | none =>
      rw [row?, List.find?_eq_none] at found
      exact absurd isWord (by simpa using found row member)
  | some other =>
      have sameKeyword : other.keyword = row.keyword := (sound found).2.trans isWord.symm
      rw [List.inj_on_of_nodup_map distinct (sound found).1 member sameKeyword]

theorem isSome_row?_iff {table : Table} (distinct : table.keywords.Nodup) (word : Text) :
    (table.row? word).isSome = true ↔ ∃! row, row ∈ table.rows ∧ row.keyword = word := by
  simp only [Option.isSome_iff_exists, ← row?_eq_some_iff distinct]
  constructor
  · rintro ⟨row, found⟩
    exact ⟨row, found, fun other otherFound => Option.some.inj (otherFound.symm.trans found)⟩
  · rintro ⟨row, found, _⟩
    exact ⟨row, found⟩

section Rows

variable {rules : List Rule} (distinct : (rules.map Rule.keyword).Nodup)

include distinct

theorem nodup_keywords_map_row : (keywords { rows := rules.map (Rule.row read?) }).Nodup := by
  rw [keywords, List.map_map]
  exact distinct

theorem opens_map_row_iff {label : Text} :
    opens { rows := rules.map (Rule.row read?) } label = true ↔ Opened rules label := by
  simp only [opens, Option.any_eq_true, row?_eq_some_iff (nodup_keywords_map_row distinct),
    List.mem_map, beq_iff_eq]
  constructor
  · rintro ⟨_, ⟨⟨rule, member, rfl⟩, isLabel⟩, isOpener⟩
    exact ⟨rule, member, isLabel, isOpener⟩
  · rintro ⟨rule, member, isLabel, isOpener⟩
    exact ⟨rule.row read?, ⟨⟨rule, member, rfl⟩, isLabel⟩, isOpener⟩

theorem orphanFault?_row_eq_none_iff (rule : Rule) :
    orphanFault? { rows := rules.map (Rule.row read?) } (rule.row read?) = none ↔ Sheltered rules rule := by
  have sameRole : (rule.row read?).role = rule.role := rfl
  rw [orphanFault?, sameRole, Sheltered]
  cases rule.role with
  | plain => simp
  | opener => simp
  | dependent parent => simp [opens_map_row_iff distinct]

theorem orphanFault?_row_eq_some_iff (rule : Rule) {fault : Fault} :
    orphanFault? { rows := rules.map (Rule.row read?) } (rule.row read?) = some fault ↔
      ∃ parent, rule.role = .dependent parent ∧ ¬Opened rules parent ∧
        fault = .unknownParent rule.keyword parent := by
  have sameRole : (rule.row read?).role = rule.role := rfl
  have sameKeyword : (rule.row read?).keyword = rule.keyword := rfl
  rw [orphanFault?, sameRole, sameKeyword]
  cases rule.role with
  | plain => simp
  | opener => simp
  | dependent parent => simp [opens_map_row_iff distinct, eq_comm (b := fault)]

theorem orphan?_map_row_eq_none_iff :
    orphan? { rows := rules.map (Rule.row read?) } = none ↔ ∀ rule ∈ rules, Sheltered rules rule := by
  rw [orphan?_eq_findSome?, List.findSome?_map, List.findSome?_eq_none_iff]
  simp only [Function.comp_apply, orphanFault?_row_eq_none_iff distinct]

theorem orphan?_map_row_eq_some_iff {fault : Fault} :
    orphan? { rows := rules.map (Rule.row read?) } = some fault ↔
      ∃ before rule after parent, rules = before ++ rule :: after ∧
        (∀ other ∈ before, Sheltered rules other) ∧ rule.role = .dependent parent ∧
        ¬Opened rules parent ∧ fault = .unknownParent rule.keyword parent := by
  rw [orphan?_eq_findSome?, List.findSome?_map, List.findSome?_eq_some_iff]
  simp only [Function.comp_apply, orphanFault?_row_eq_none_iff distinct,
    orphanFault?_row_eq_some_iff distinct]
  constructor
  · rintro ⟨before, rule, after, split, ⟨parent, dependent, orphaned, isFault⟩, sheltered⟩
    exact ⟨before, rule, after, parent, split, sheltered, dependent, orphaned, isFault⟩
  · rintro ⟨before, rule, after, parent, split, sheltered, dependent, orphaned, isFault⟩
    exact ⟨before, rule, after, split, ⟨parent, dependent, orphaned, isFault⟩, sheltered⟩

end Rows

/-! ## Building a table -/

theorem ofRules_of_readRules_error {rules : List Rule} {fault : Fault}
    (refused : readRules read? [] rules = .error fault) : ofRules read? rules = .error fault := by
  rw [ofRules, refused]

theorem ofRules_of_orphan?_some {rules : List Rule} (readable : Readable read? rules) {fault : Fault}
    (orphan : orphan? { rows := rules.map (Rule.row read?) } = some fault) :
    ofRules read? rules = .error fault := by
  rw [ofRules, readRules_of_readable readable]
  simp only [orphan]

theorem ofRules_of_orphan?_none {rules : List Rule} (readable : Readable read? rules)
    (noOrphan : orphan? { rows := rules.map (Rule.row read?) } = none) :
    ofRules read? rules = .ok { rows := rules.map (Rule.row read?) } := by
  rw [ofRules, readRules_of_readable readable]
  simp only [noOrphan]

theorem ofRules_of_formTable {rules : List Rule} (formTable : FormTable read? rules) :
    ofRules read? rules = .ok { rows := rules.map (Rule.row read?) } :=
  ofRules_of_orphan?_none formTable.toReadable
    ((orphan?_map_row_eq_none_iff formTable.distinct).mpr formTable.sheltered)

theorem ofRules_of_firstFault {rules : List Rule} {fault : Fault} (first : FirstFault read? rules fault) :
    ofRules read? rules = .error fault := by
  cases first with
  | ofRule split readable faulty =>
      exact ofRules_of_readRules_error
        ((readRules_eq_error_iff readable_nil).mpr ⟨_, _, _, split, readable, faulty⟩)
  | unknownParent readable split sheltered dependent orphaned =>
      exact ofRules_of_orphan?_some readable ((orphan?_map_row_eq_some_iff readable.distinct).mpr
        ⟨_, _, _, _, split, sheltered, dependent, orphaned, rfl⟩)

/-- Rules that do not form a table have a first fault. -/
theorem formTable_or_firstFault (rules : List Rule) :
    FormTable read? rules ∨ ∃ fault, FirstFault read? rules fault := by
  cases read : readRules read? [] rules with
  | error fault =>
      obtain ⟨before, rule, after, split, readable, faulty⟩ :=
        (readRules_eq_error_iff readable_nil).mp read
      exact Or.inr ⟨fault, .ofRule split readable faulty⟩
  | ok rows =>
      have readable : Readable read? rules := (readable_of_readRules readable_nil read).1
      cases orphan : orphan? { rows := rules.map (Rule.row read?) } with
      | none =>
          exact Or.inl { readable with
            sheltered := (orphan?_map_row_eq_none_iff readable.distinct).mp orphan }
      | some fault =>
          obtain ⟨before, rule, after, parent, split, sheltered, dependent, orphaned, rfl⟩ :=
            (orphan?_map_row_eq_some_iff readable.distinct).mp orphan
          exact Or.inr ⟨_, .unknownParent readable split sheltered dependent orphaned⟩

theorem ofRules_eq_ok_iff {rules : List Rule} {table : Table} :
    ofRules read? rules = .ok table ↔
      FormTable read? rules ∧ table = { rows := rules.map (Rule.row read?) } := by
  constructor
  · intro accepted
    rcases formTable_or_firstFault rules with formTable | ⟨fault, first⟩
    · rw [ofRules_of_formTable formTable] at accepted
      exact ⟨formTable, (Except.ok.inj accepted).symm⟩
    · rw [ofRules_of_firstFault first] at accepted
      exact absurd accepted (by simp)
  · rintro ⟨formTable, rfl⟩
    exact ofRules_of_formTable formTable

theorem ofRules_eq_error_iff {rules : List Rule} {fault : Fault} :
    ofRules read? rules = .error fault ↔ FirstFault read? rules fault := by
  refine ⟨fun refused => ?_, ofRules_of_firstFault⟩
  rcases formTable_or_firstFault rules with formTable | ⟨other, first⟩
  · rw [ofRules_of_formTable formTable] at refused
    exact absurd refused (by simp)
  · rw [ofRules_of_firstFault first] at refused
    exact Except.error.inj refused ▸ first

/-- Whatever counts as a pattern, rules form a table exactly if they are well formed, in whatever order.
Otherwise the first fault is reported. The rows of the table are those of the rules in their order, and
looking up a word finds the one row that has it for its keyword. -/
theorem ofRules_accepts_exactly (read? : Text → Option Pattern) (rules : List Rule) :
    ((∃ table, ofRules read? rules = .ok table) ↔ FormTable read? rules) ∧
      (∀ others : List Rule, others.Perm rules →
        ((∃ table, ofRules read? others = .ok table) ↔ ∃ table, ofRules read? rules = .ok table)) ∧
      (∀ fault, ofRules read? rules = .error fault ↔ FirstFault read? rules fault) ∧
      ∀ table, ofRules read? rules = .ok table →
        table.rows = rules.map (Rule.row read?) ∧
          ∀ word, (∀ row, table.row? word = some row ↔ row ∈ table.rows ∧ row.keyword = word) ∧
            ((table.row? word).isSome = true ↔ ∃! row, row ∈ table.rows ∧ row.keyword = word) := by
  have accepted (rules : List Rule) : (∃ table, ofRules read? rules = .ok table) ↔ FormTable read? rules := by
    simp only [ofRules_eq_ok_iff, exists_and_left, exists_eq, and_true]
  refine ⟨accepted rules, ?_, fun fault => ofRules_eq_error_iff, ?_⟩
  · intro others reordered
    rw [accepted, accepted]
    exact ⟨formTable_of_perm reordered.symm, formTable_of_perm reordered⟩
  · intro table isTable
    have distinct := (wellFormed_of_ofRules isTable).distinct
    obtain ⟨_, rfl⟩ := ofRules_eq_ok_iff.mp isTable
    exact ⟨rfl, fun word => ⟨fun row => row?_eq_some_iff distinct, isSome_row?_iff distinct word⟩⟩

/-- A keyword can come before the one it depends on, and a rule that repeats a keyword is reported
before an earlier one whose parent is unknown. -/
theorem ofRules_accepts_exactly_around_parent :
    [Rule.opener "when" "if" "^when", .dependent "meh" "else" "when" "^meh"].Perm
        [.dependent "meh" "else" "when" "^meh", .opener "when" "if" "^when"] ∧
      FormTable Pattern.read? [.dependent "meh" "else" "when" "^meh", .opener "when" "if" "^when"] ∧
      FormTable Pattern.read? [.opener "when" "if" "^when", .dependent "meh" "else" "when" "^meh"] ∧
      FirstFault Pattern.read?
        [.dependent "meh" "else" "when" "^meh", .plain "fun" "f", .opener "fun" "g" "("]
        (.duplicate "fun".toList) := by
  have reordered : [Rule.opener "when" "if" "^when", .dependent "meh" "else" "when" "^meh"].Perm
      [.dependent "meh" "else" "when" "^meh", .opener "when" "if" "^when"] := .swap _ _ _
  obtain ⟨table, found⟩ : ∃ table, (ofRules Pattern.read? [.dependent "meh" "else" "when" "^meh",
      .opener "when" "if" "^when"]).toOption = some table :=
    Option.isSome_iff_exists.mp (by decide +kernel)
  have accepted := eq_ok_of_toOption found
  obtain ⟨formTable, sameForOthers, _, _⟩ :=
    ofRules_accepts_exactly Pattern.read? [.dependent "meh" "else" "when" "^meh", .opener "when" "if" "^when"]
  refine ⟨reordered, formTable.mp ⟨table, accepted⟩, ?_, ?_⟩
  · exact (ofRules_accepts_exactly Pattern.read? _).1.mp ((sameForOthers _ reordered).mpr ⟨table, accepted⟩)
  · exact ((ofRules_accepts_exactly Pattern.read? _).2.2.1 _).mp (eq_error_of_match (by decide +kernel))

end Table

end Dialect
