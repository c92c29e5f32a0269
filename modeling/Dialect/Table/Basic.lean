import Dialect.Pattern.Matching

/-!
# Keyword tables

A table says, for each keyword of the dialect, which text takes its place, what it does to blocks and
in which context a line is about it. Tables are built from rules, which hold the context patterns as
written. `Table.ofRules` is given what reads a pattern, and reports the first fault in the rules.
-/

namespace Dialect

/-- What a keyword does to blocks. -/
inductive Role where
  /-- Has nothing to do with blocks. -/
  | plain
  /-- Opens a block that is labelled with the keyword. -/
  | opener
  /-- Is allowed only while a block with this label is the innermost one. -/
  | dependent (parent : Text)
  deriving DecidableEq, Repr

namespace Role

def parent? : Role → Option Text
  | .dependent parent => some parent
  | _ => none

end Role

/-- A row of a table as written: the context is the text of a pattern. -/
structure Rule where
  keyword : Text
  equivalent : Text
  role : Role
  pattern : Option Text
  deriving DecidableEq, Repr

structure Row where
  keyword : Text
  equivalent : Text
  role : Role
  context : Option Pattern
  deriving DecidableEq, Repr

namespace Row

/-- Whether the context of a keyword occurs in code. A keyword without a context has none. -/
def fits (row : Row) (code : Text) : Bool :=
  row.context.any fun context => context.occursIn code

end Row

/-- A keyword table. The order of its rows is the order in which contexts are tried. -/
structure Table where
  rows : List Row
  deriving DecidableEq, Repr

namespace Table

def keywords (table : Table) : List Text := table.rows.map Row.keyword

def row? (table : Table) (word : Text) : Option Row :=
  table.rows.find? fun row => row.keyword == word

def opens (table : Table) (label : Text) : Bool :=
  (table.row? label).any fun row => row.role == .opener

inductive Fault where
  | invalidKeyword (keyword : Text)
  | duplicate (keyword : Text)
  | missingPattern (keyword : Text)
  | badPattern (keyword : Text)
  | unknownParent (keyword parent : Text)
  deriving DecidableEq, Repr

namespace Fault

def message : Fault → Text
  | .invalidKeyword keyword =>
      "keyword \"".toList ++ keyword ++ "\" is not a valid identifier".toList
  | .duplicate keyword =>
      "keyword \"".toList ++ keyword ++ "\" is defined more than once".toList
  | .missingPattern keyword =>
      "keyword \"".toList ++ keyword ++ "\" requires a context pattern".toList
  | .badPattern keyword =>
      "invalid pattern for keyword \"".toList ++ keyword ++ "\"".toList
  | .unknownParent keyword parent =>
      "keyword \"".toList ++ keyword ++ "\" depends on \"".toList ++ parent ++
        "\", which is not a block opener in this table".toList

end Fault

/-- The first row that depends on a keyword that opens no blocks. -/
def orphan? (table : Table) : Option Fault :=
  table.rows.findSome? fun row =>
    match row.role with
    | .dependent parent =>
        if table.opens parent then none else some (.unknownParent row.keyword parent)
    | _ => none

section Reading

variable (read? : Text → Option Pattern)

/-- Reads the context of a rule. Only a plain keyword may do without one. -/
def readContext (rule : Rule) : Except Fault (Option Pattern) :=
  match rule.role, rule.pattern with
  | .plain, none => .ok none
  | _, none => .error (.missingPattern rule.keyword)
  | _, some text =>
      match read? text with
      | none => .error (.badPattern rule.keyword)
      | some context => .ok (some context)

/-- Reads one rule, given the keywords of the rules before it. -/
def readRule (earlier : List Text) (rule : Rule) : Except Fault Row :=
  if rule.keyword.isIdentifier = false then .error (.invalidKeyword rule.keyword)
  else if rule.keyword ∈ earlier then .error (.duplicate rule.keyword)
  else
    match readContext read? rule with
    | .error fault => .error fault
    | .ok context =>
        .ok { keyword := rule.keyword, equivalent := rule.equivalent, role := rule.role, context }

/-- Reads rules in order, given the keywords of the rules before them. -/
def readRules (earlier : List Text) : List Rule → Except Fault (List Row)
  | [] => .ok []
  | rule :: rules =>
      match readRule read? earlier rule with
      | .error fault => .error fault
      | .ok row =>
          match readRules (rule.keyword :: earlier) rules with
          | .error fault => .error fault
          | .ok rows => .ok (row :: rows)

/-- Builds a table. Rules are read one by one, and parents are looked up when all rows are known. What
counts as a pattern is for `read?` to say. -/
def ofRules (rules : List Rule) : Except Fault Table :=
  match readRules read? [] rules with
  | .error fault => .error fault
  | .ok rows =>
      let table : Table := { rows }
      match table.orphan? with
      | some fault => .error fault
      | none => .ok table

end Reading

end Table

end Dialect
