import Dialect.Table.Builtin

/-!
# Accepted tables

What is known of a table that has been built from rules: each row comes from a rule, each keyword is
an identifier, and no two keywords are the same.
-/

namespace Dialect

/-- A row says what a rule says, with the pattern of the rule read. -/
structure Row.Reads (read? : Text → Option Pattern) (row : Row) (rule : Rule) : Prop where
  keyword : row.keyword = rule.keyword
  equivalent : row.equivalent = rule.equivalent
  role : row.role = rule.role
  context : Table.readContext read? rule = .ok row.context

namespace Table

structure WellFormed (table : Table) : Prop where
  identifiers : ∀ word ∈ table.keywords, word.isIdentifier = true
  distinct : table.keywords.Nodup

variable {read? : Text → Option Pattern}

theorem reads_of_readRule {earlier : List Text} {rule : Rule} {row : Row}
    (read : readRule read? earlier rule = .ok row) :
    row.Reads read? rule ∧ rule.keyword.isIdentifier = true ∧ rule.keyword ∉ earlier := by
  rw [readRule] at read
  split at read
  next => simp at read
  next identifier =>
    split at read
    next => simp at read
    next fresh =>
      split at read
      next => simp at read
      next context contextRead =>
        obtain rfl := Except.ok.inj read
        exact ⟨⟨rfl, rfl, rfl, contextRead⟩, by simpa using identifier, fresh⟩

theorem readRules_cons_eq_ok {earlier : List Text} {rule : Rule} {rules : List Rule}
    {rows : List Row} (read : readRules read? earlier (rule :: rules) = .ok rows) :
    ∃ row others, readRule read? earlier rule = .ok row ∧
      readRules read? (rule.keyword :: earlier) rules = .ok others ∧ rows = row :: others := by
  rw [readRules] at read
  split at read
  next => simp at read
  next row rowRead =>
    split at read
    next => simp at read
    next others othersRead => exact ⟨row, others, rowRead, othersRead, (Except.ok.inj read).symm⟩

theorem exists_rule_of_readRules {earlier : List Text} {rules : List Rule} {rows : List Row}
    (read : readRules read? earlier rules = .ok rows) :
    ∀ row ∈ rows, ∃ rule ∈ rules, row.Reads read? rule := by
  induction rules generalizing earlier rows with
  | nil =>
      obtain rfl := Except.ok.inj read
      simp
  | cons rule others inductionHypothesis =>
      obtain ⟨first, more, firstRead, moreRead, rfl⟩ := readRules_cons_eq_ok read
      intro row member
      rcases List.mem_cons.mp member with equality | inMore
      · rw [equality]
        exact ⟨rule, List.mem_cons_self, (reads_of_readRule firstRead).1⟩
      · obtain ⟨source, inOthers, reads⟩ := inductionHypothesis moreRead row inMore
        exact ⟨source, List.mem_cons_of_mem rule inOthers, reads⟩

theorem keywords_of_readRules {earlier : List Text} {rules : List Rule} {rows : List Row}
    (read : readRules read? earlier rules = .ok rows) :
    (∀ row ∈ rows, row.keyword.isIdentifier = true ∧ row.keyword ∉ earlier) ∧
      (rows.map Row.keyword).Nodup := by
  induction rules generalizing earlier rows with
  | nil =>
      obtain rfl := Except.ok.inj read
      simp
  | cons rule others inductionHypothesis =>
      obtain ⟨first, more, firstRead, moreRead, rfl⟩ := readRules_cons_eq_ok read
      obtain ⟨reads, identifier, fresh⟩ := reads_of_readRule firstRead
      obtain ⟨moreIdentifiers, moreDistinct⟩ := inductionHypothesis moreRead
      constructor
      · intro row member
        rcases List.mem_cons.mp member with equality | inMore
        · rw [equality, reads.keyword]
          exact ⟨identifier, fresh⟩
        · have facts := moreIdentifiers row inMore
          exact ⟨facts.1, fun inEarlier => facts.2 (List.mem_cons_of_mem _ inEarlier)⟩
      · rw [List.map_cons, List.nodup_cons]
        refine ⟨?_, moreDistinct⟩
        intro repeated
        obtain ⟨row, inMore, equality⟩ := List.mem_map.mp repeated
        apply (moreIdentifiers row inMore).2
        rw [equality, reads.keyword]
        exact List.mem_cons_self

theorem readRules_of_ofRules {rules : List Rule} {table : Table}
    (accepted : ofRules read? rules = .ok table) : readRules read? [] rules = .ok table.rows := by
  rw [ofRules] at accepted
  split at accepted
  next => simp at accepted
  next rows read =>
    simp only at accepted
    split at accepted
    next => simp at accepted
    next =>
      obtain rfl := Except.ok.inj accepted
      exact read

theorem wellFormed_of_ofRules {rules : List Rule} {table : Table}
    (accepted : ofRules read? rules = .ok table) : table.WellFormed := by
  obtain ⟨identifiers, distinct⟩ := keywords_of_readRules (readRules_of_ofRules accepted)
  refine ⟨?_, distinct⟩
  intro word member
  obtain ⟨row, inRows, rfl⟩ := List.mem_map.mp member
  exact (identifiers row inRows).1

theorem wellFormed_builtin : builtin.WellFormed := wellFormed_of_ofRules ofRules_builtinRules

theorem exists_rule_of_mem_builtin {row : Row} (member : row ∈ builtin.rows) :
    ∃ rule ∈ builtinRules, row.Reads Pattern.read? rule :=
  exists_rule_of_readRules (readRules_of_ofRules ofRules_builtinRules) row member

end Table

end Dialect
