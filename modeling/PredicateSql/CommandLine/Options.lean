import PredicateSql.Query.Request
import PredicateSql.Sql.Dialect

/-!
# Options of the command line

* `Options`: what a command line asks for.
* `Options.parse`: the options among the arguments, which are read from the left. The first one
  that is wrong, or that asks for help or the version, stops the reading.
* `helpText`, `versionText`: what is shown instead of a run.
-/

namespace PredicateSql.CommandLine

/-- Why a command line is no run. -/
inductive Stop where
  | help
  | version
  | usage
  deriving Repr, DecidableEq, Inhabited

/-- What a command line asks for. -/
structure Options where
  /-- The file that holds the catalog. -/
  catalog : String
  /-- The model that all lambdas are over. -/
  model : String
  /-- The file that holds the configuration. -/
  config : Option String := none
  /-- The dialect, instead of the one that is configured. -/
  dialect : Option Sql.Dialect := none
  select : SelectKind := .many
  /-- The keys of the order. -/
  orderBy : List String := []
  /-- The columns to project, all of them if none are named. -/
  columns : List String := []
  skip : Option Nat := none
  take : Option Nat := none
  /-- The properties whose values are wanted instead of statements. -/
  extract : List String := []
  deriving Repr, DecidableEq, Inhabited

/-! ### Flags -/

/-- An option that takes a value. -/
inductive Flag where
  | catalog
  | model
  | config
  | dialect
  | select
  | orderBy
  | columns
  | skip
  | take
  | extract
  deriving Repr, DecidableEq, Inhabited

namespace Flag

/-- The name of a flag, without the hyphens before it. -/
def name : Flag → String
  | .catalog => "catalog"
  | .model => "model"
  | .config => "config"
  | .dialect => "dialect"
  | .select => "select"
  | .orderBy => "order-by"
  | .columns => "columns"
  | .skip => "skip"
  | .take => "take"
  | .extract => "extract"

/-- All flags. -/
def all : List Flag :=
  [.catalog, .model, .config, .dialect, .select, .orderBy, .columns, .skip, .take, .extract]

/-- The flag of a name, which must be spelled in full. -/
def ofName? (name : String) : Option Flag :=
  all.find? (·.name == name)

/-- The flag may be given several times. -/
def isRepeatable : Flag → Bool
  | .orderBy | .columns | .extract => true
  | _ => false

end Flag

/-! ### Values -/

/-- A number of rows, which fits into sixty-four bits and may have a plus sign. -/
def rowCount? (text : String) : Option Nat :=
  let digits :=
    match text.toList with
    | '+' :: digits => digits
    | digits => digits
  if digits.isEmpty || !digits.all Char.isDigit then none
  else
    let n := digits.foldl (fun n c => 10 * n + (c.toNat - '0'.toNat)) 0
    if n < 18446744073709551616 then some n else none

/-- The parts of a value between commas. -/
def splitCommas (text : String) : List String :=
  go [] text.toList
where
  go (part : List Char) : List Char → List String
    | [] => [.ofList part.reverse]
    | c :: rest => if c = ',' then .ofList part.reverse :: go [] rest else go (c :: part) rest

/-- The options with the value of one more flag. -/
def Options.set? (o : Options) (value : String) : Flag → Option Options
  | .catalog => if value = "" then none else some { o with catalog := value }
  | .model => some { o with model := value }
  | .config => if value = "" then none else some { o with config := some value }
  | .dialect => (Sql.Dialect.ofName? value).map fun d => { o with dialect := some d }
  | .select => (SelectKind.ofName? value).map fun s => { o with select := s }
  | .orderBy => some { o with orderBy := o.orderBy ++ [value] }
  | .columns => some { o with columns := o.columns ++ splitCommas value }
  | .skip => (rowCount? value).map fun n => { o with skip := some n }
  | .take => (rowCount? value).map fun n => { o with take := some n }
  | .extract => some { o with extract := o.extract ++ splitCommas value }

/-! ### Arguments -/

/-- An argument, by its form. -/
inductive Argument where
  | help
  | version
  /-- A flag, and the value that stands after an equals sign in the same argument. -/
  | option (flag : Flag) (value : Option String)
  /-- The mark after which no argument is a flag. -/
  | separator
  | other
  deriving Repr, DecidableEq

/-- The argument of a text that starts with two hyphens, without them. -/
def Argument.ofLong (text : List Char) : Argument :=
  let name := String.ofList (text.takeWhile (· != '='))
  let value := text.dropWhile (· != '=')
  if text.isEmpty then .separator
  else if value.isEmpty ∧ name = "help" then .help
  else if value.isEmpty ∧ name = "version" then .version
  else
    match Flag.ofName? name with
    | none => .other
    | some flag =>
      match value with
      | [] => .option flag none
      | _ :: value => .option flag (some (.ofList value))

/-- The form of an argument. -/
def Argument.of (arg : String) : Argument :=
  match arg.toList with
  | '-' :: '-' :: text => .ofLong text
  | '-' :: 'h' :: _ => .help
  | '-' :: 'V' :: _ => .version
  | _ => .other

/-- A text can be the value of the flag before it: it does not start with a hyphen, or is one. -/
def isValue (arg : String) : Bool :=
  arg == "-" || !"-".toList.isPrefixOf arg.toList

/-- The options after a flag with its value. -/
def accept (o : Options) (seen : List Flag) (flag : Flag) (value : String) :
    Except Stop Options :=
  if seen.contains flag && !flag.isRepeatable then throw .usage
  else
    match o.set? value flag with
    | some o => return o
    | none => throw .usage

/-- The options among some arguments, after those that were seen. -/
def readArgs (o : Options) (seen : List Flag) : List String → Except Stop (Options × List Flag)
  | [] => return (o, seen)
  | arg :: rest =>
    match Argument.of arg with
    | .help => throw .help
    | .version => throw .version
    | .separator => if rest.isEmpty then return (o, seen) else throw .usage
    | .other => throw .usage
    | .option flag (some value) => do readArgs (← accept o seen flag value) (flag :: seen) rest
    | .option flag none =>
      match rest with
      | [] => throw .usage
      | value :: rest => do
        if !isValue value then throw .usage
        readArgs (← accept o seen flag value) (flag :: seen) rest

/-- The options among the arguments of a command line. -/
def Options.parse (args : List String) : Except Stop Options := do
  let (o, seen) ← readArgs { catalog := "", model := "" } [] args
  if seen.contains .catalog && seen.contains .model then return o else throw .usage

/-! ### Texts -/

/-- What is shown when the version is asked for. -/
def versionText : String := "lambda-sql 0.1.0\n"

/-- What is shown when help is asked for. -/
def helpText : String :=
  String.join <| [
    "Compile C#-style lambda filters into SQL, one per line of stdin",
    "",
    "Usage: lambda_sql [OPTIONS] --catalog <CATALOG> --model <MODEL>",
    "",
    "Options:",
    "      --catalog <CATALOG>    JSON model catalog",
    "      --model <MODEL>        The model every lambda is bound to",
    "      --config <CONFIG>      JSON converter config; flags below override it",
    "      --dialect <DIALECT>    ",
    "      --select <SELECT>      many, first, single, count or any [default: many]",
    "      --order-by <ORDER_BY>  An ordering key lambda, optionally followed by \" desc\". " ++
      "Repeatable",
    "      --columns <COLUMNS>    Only project these properties",
    "      --skip <SKIP>          ",
    "      --take <TAKE>          ",
    "      --extract <EXTRACT>    Print the values each named property is compared against " ++
      "instead of SQL",
    "  -h, --help                 Print help",
    "  -V, --version              Print version"].map (· ++ "\n")

end PredicateSql.CommandLine
