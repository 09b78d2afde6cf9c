import PredicateSql.Text.Case
import PredicateSql.Text.Hex
import PredicateSql.Text.Quoted
import PredicateSql.Value

/-!
# Dialects of SQL

* `Dialect`: the databases that statements are written for.
* `Dialect.literal`: how a value is written. Lists and records have no literal form
  (`hasLiteral`), and cannot be (`Dialect.literal?`).
* `Dialect.ending`: how the number of rows is limited, and how a statement ends.
-/

namespace PredicateSql.Sql

/-- A database that statements are written for. -/
inductive Dialect where
  | postgres
  | sqlite
  deriving Repr, DecidableEq, Inhabited

/-- A value can be written as a literal. -/
def hasLiteral : Value → Bool
  | .list _ | .record .. => false
  | _ => true

namespace Dialect

/-- The name of a dialect. -/
def name : Dialect → String
  | .postgres => "postgres"
  | .sqlite => "sqlite"

/-- The dialect of a name, in any case of the letters `A` to `Z`. -/
def ofName? (name : String) : Option Dialect :=
  match Text.toLowerAscii name with
  | "postgres" | "postgresql" | "pg" => some .postgres
  | "sqlite" | "sqlite3" => some .sqlite
  | _ => none

/-- What is said of a name that is no dialect. -/
def unknownMessage (name : String) : String :=
  "unknown dialect '" ++ Text.toLowerAscii name ++ "'"

/-! ### Literals -/

/-- A value as a literal, nothing for the values that have none. Strings, dates and blobs stand
between single quotes. Booleans are numbers in one dialect, and dates are texts there. Only texts
have the quotes in them doubled. -/
def literal (dialect : Dialect) : Value → String
  | .null => "NULL"
  | .bool b =>
    match dialect with
    | .postgres => if b then "TRUE" else "FALSE"
    | .sqlite => if b then "1" else "0"
  | .int i => toString i.toInt
  | .float x => Binary64.render x
  | .string s => Text.quoted '\'' s
  | .date d =>
    match dialect with
    | .postgres => "DATE '" ++ d.render ++ "'"
    | .sqlite => Text.quoted '\'' d.render
  | .dateTime t =>
    match dialect with
    | .postgres => "TIMESTAMP '" ++ t.render ++ "'"
    | .sqlite => Text.quoted '\'' t.render
  | .bytes b =>
    match dialect with
    | .postgres => "'\\x" ++ Text.hexOfBytes 'a' b ++ "'::bytea"
    | .sqlite => "X'" ++ Text.hexOfBytes 'A' b ++ "'"
  | .list _ | .record .. => ""

/-- A value as a literal, if it has one. -/
def literal? (dialect : Dialect) (v : Value) : Option String :=
  if hasLiteral v then some (dialect.literal v) else none

/-! ### Endings -/

/-- A clause with a number, where there is one. -/
def numbered (clause : String) : Option Nat → String
  | none => ""
  | some n => " " ++ clause ++ " " ++ toString n

/-- The limit, the offset and the terminator of a statement. Where an offset needs a limit before
it, a negative number stands for none. -/
def ending (dialect : Dialect) (limit offset : Option Nat) (terminate : Bool) : String :=
  let limited :=
    match dialect, limit, offset with
    | .sqlite, none, some _ => " LIMIT -1"
    | _, _, _ => numbered "LIMIT" limit
  limited ++ numbered "OFFSET" offset ++ (if terminate then ";" else "")

end Dialect

end PredicateSql.Sql
