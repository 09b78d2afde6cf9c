import PredicateSql.Catalog.Document
import PredicateSql.CommandLine.Options
import PredicateSql.Config
import PredicateSql.Json.Writer
import PredicateSql.Lambda.Parser
import PredicateSql.Query.Extraction

/-!
# Runs of the command line

A run reads lambdas, one on each line, and answers every one of them on a line of its own.

* `Session`: a catalog, a configuration and what is asked about every lambda.
* `Session.answer`: the answer to one lambda, or why there is none.
* `Session.run`: the answers to all lines.
* `run`: a whole run, with the files that its arguments name.
-/

namespace PredicateSql.CommandLine

/-- Why a lambda has no answer. -/
inductive LineError where
  | parse (error : ParseError)
  | query (error : QueryError)
  deriving Repr, Inhabited

/-- The wording of an error, followed by that of the error that it was caused by. -/
def LineError.message : LineError → String
  | .parse (.lexical error) => (ParseError.lexical error).message ++ ": " ++ error.message
  | .parse error => error.message
  | .query error => error.message

/-- What is asked about every lambda. -/
structure Session where
  compiler : Compiler
  /-- The request, but for its filter. -/
  request : Request
  /-- The properties whose values are wanted, statements if there are none. -/
  extract : List String
  deriving Inhabited

namespace Session

/-- The key of an order, which descends if its text ends so. -/
def orderKey? (catalog : Catalog) (model text : String) : Option OrderKey :=
  let (lambda, descending) :=
    match Text.stripEnd? " desc".toList text.toList with
    | some lambda => (String.ofList lambda, true)
    | none => (text, false)
  match parseLambda catalog model lambda with
  | .ok key => some { key, descending }
  | .error _ => none

/-- The request that the options make, but for its filter. -/
def request? (catalog : Catalog) (o : Options) : Option Request := do
  let order ← o.orderBy.mapM (orderKey? catalog o.model)
  return {
    model := o.model
    select := o.select
    order
    skip := o.skip
    take := o.take
    graph := if o.columns.isEmpty then none else some (.ofColumns o.columns) }

/-- The session that the options ask for, if the files are there and hold what they should. -/
def ofOptions? (readFile : String → Option String) (clock : Clock) (o : Options) :
    Option Session := do
  let catalog ← Catalog.read? (← readFile o.catalog)
  let config ←
    match o.config with
    | none => some ({} : Config)
    | some file => (readFile file).bind Config.read?
  let config := { config with dialect := o.dialect.getD config.dialect }
  let request ← request? catalog o
  return {
    compiler := config.compiler { catalog, evaluator := { clock } }
    request
    extract := o.extract }

/-- The values for some properties, as an object with the texts of the values. The properties stand
in the order in which they were asked for, though a reader may rely on no order of theirs. -/
def renderValues (found : List (String × List Value)) : String :=
  (Json.ofMembers (found.map fun (name, values) =>
    (name, .array (values.map fun v => .text v.render)))).render

/-- The answer to one lambda. -/
def answer (s : Session) (text : String) : Except LineError String := do
  let context := s.compiler.context
  let filter ← (parseLambda context.catalog s.request.model text).mapError .parse
  if s.extract.isEmpty then
    (s.compiler.compile { s.request with filter := some filter }).mapError .query
  else
    let found ← (context.extract filter s.request.model s.extract).mapError .query
    return renderValues found

/-- Whether a lambda has an answer, and the line that is written about it. -/
def answerLine (s : Session) (text : String) : Bool × String :=
  match s.answer text with
  | .ok line => (true, line)
  | .error e => (false, "error: " ++ e.message)

/-- The lambdas on the lines of a text: the lines that are not blank, without blanks around them. -/
def lambdas (input : String) : List String :=
  ((lines [] input.toList).map Text.trim).filter (!·.isEmpty) |>.map String.ofList
where
  lines (line : List Char) : List Char → List (List Char)
    | [] => [line.reverse]
    | c :: rest => if c = '\n' then line.reverse :: lines [] rest else lines (c :: line) rest

/-- Whether all lambdas of a text have answers, and the lines that are written about them. -/
def run (s : Session) (input : String) : Bool × List String :=
  let answers := (lambdas input).map s.answerLine
  (answers.all (·.1), answers.map (·.2))

end Session

/-- The end of a run: its exit code, and what it wrote. -/
structure Outcome where
  exitCode : Nat
  output : String
  deriving Repr, DecidableEq, Inhabited

/-- A run. It fails with code 2 if its arguments are wrong, and with code 1 if anything else is. A
lambda without an answer does not keep the others from theirs. -/
def run (readFile : String → Option String) (clock : Clock) (args : List String)
    (input : String) : Outcome :=
  match Options.parse args with
  | .error .help => ⟨0, helpText⟩
  | .error .version => ⟨0, versionText⟩
  | .error .usage => ⟨2, ""⟩
  | .ok options =>
    match Session.ofOptions? readFile clock options with
    | none => ⟨1, ""⟩
    | some session =>
      let (succeeded, lines) := session.run input
      ⟨if succeeded then 0 else 1, String.join (lines.map (· ++ "\n"))⟩

end PredicateSql.CommandLine
