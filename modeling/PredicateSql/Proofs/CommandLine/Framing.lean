import PredicateSql.CommandLine.Run
import PredicateSql.Proofs.Lambda.Errors
import PredicateSql.Proofs.Query.Messages
import PredicateSql.Proofs.Query.Rendering
import PredicateSql.Proofs.Sql.Texts

/-!
# One line for every lambda

A run writes the answers to its lambdas one after the other, in their order, and no answer depends
on another lambda. Whether one can tell the answers apart again is a question of line breaks: they
are escaped in objects of values, but neither in statements nor in messages.

* `Session.lambdas_append`, `Session.lambdas_line`: the lambdas of a text, line by line.
* `Session.texts`: the texts that the answer to a lambda takes over without escapes.
  `Session.hasBreak_answerLine`: the answer has a line break in it if and only if one of them has.
* `run_output`: what a run writes.
* `run_answers`: the lines of its output are the answers, in their order, if and only if none of
  these texts has a line break in it; otherwise there are more lines than lambdas.
  `run_answers_fails`: a string with a line break takes two lines, and so does a message about one.
-/

namespace PredicateSql

open Text (HasBreak HaveBreak)

/-! ### Objects of values -/

namespace Json

/-- The characters of a string are escaped, and line breaks with them. -/
theorem break_notMem_escaped (c : Char) : '\n' ∉ escaped c := by
  have hdigit : ∀ n < 16, '\n' ≠ Text.hexDigit 'a' n := Text.hexDigit_ne_break (.inl rfl)
  unfold escaped
  split_ifs with hquote hbackslash hbackspace hfeed hbreak hreturn htab hcontrol
  iterate 7 decide
  · have hlt : c.toNat < 32 := hcontrol
    have hhigh := hdigit (c.toNat / 16) (by omega)
    have hlow := hdigit (c.toNat % 16) (by omega)
    simp [hhigh, hlow]
  · simpa using Ne.symm hbreak

theorem not_hasBreak_renderText (text : String) : ¬ HasBreak (renderText text) := by
  simp [HasBreak, renderText, break_notMem_escaped]

theorem not_haveBreak_renderItems (texts : List String) :
    ¬ HaveBreak (renderItems (texts.map .text)) := by
  induction texts with
  | nil => exact Text.haveBreak_nil
  | cons text texts ih =>
    rw [List.map_cons, renderItems, Text.haveBreak_cons]
    exact not_or_intro (not_hasBreak_renderText text) ih

theorem not_hasBreak_renderArray (texts : List String) :
    ¬ HasBreak (render (.array (texts.map .text))) := by
  have hbrackets : ¬ HasBreak "[" ∧ ¬ HasBreak "]" := by decide
  have hitems : ¬ HasBreak (",".intercalate (renderItems (texts.map .text))) := by
    rw [Text.hasBreak_intercalate (by decide)]
    exact not_haveBreak_renderItems texts
  rw [render]
  simp [hbrackets, hitems]

/-- An object of arrays of texts is written in one line, whatever its keys and texts are. -/
theorem not_hasBreak_renderArrays (members : List (String × List String)) :
    ¬ HasBreak (render (ofMembers (members.map fun (key, texts) =>
      (key, .array (texts.map .text))))) := by
  have hbraces : ¬ HasBreak "\x7b" ∧ ¬ HasBreak "\x7d" ∧ ¬ HasBreak ":" := by decide
  have heach : ¬ HaveBreak (renderMembers (members.map fun (key, texts) =>
      (some key, .array (texts.map .text)))) := by
    induction members with
    | nil => exact Text.haveBreak_nil
    | cons member members ih =>
      rw [List.map_cons, renderMembers, Text.haveBreak_cons]
      refine not_or_intro ?_ ih
      simp [hbraces, not_hasBreak_renderText, not_hasBreak_renderArray]
  have hcomma : ¬ HasBreak "," := by decide
  have hmembers := (Text.hasBreak_intercalate hcomma).not.2 heach
  rw [ofMembers, render, List.map_map]
  simp only [Text.hasBreak_append, hbraces, false_or, or_false]
  exact hmembers

end Json

namespace CommandLine

variable {s : Session} {a b text : String}

namespace Session

theorem not_hasBreak_renderValues (found : List (String × List Value)) :
    ¬ HasBreak (renderValues found) := by
  have h := Json.not_hasBreak_renderArrays (found.map (Prod.map id (List.map Value.render)))
  simpa [renderValues, Function.comp_def] using h

/-! ### Lambdas -/

theorem lines_append (before after line : List Char) :
    lambdas.lines line (before ++ '\n' :: after) =
      lambdas.lines line before ++ lambdas.lines [] after := by
  induction before generalizing line with
  | nil => rfl
  | cons c before ih =>
    rw [List.cons_append, lambdas.lines, lambdas.lines]
    split
    · rw [ih, List.cons_append]
    · rw [ih]

theorem lines_eq_singleton {text : List Char} (h : '\n' ∉ text) (line : List Char) :
    lambdas.lines line text = [line.reverse ++ text] := by
  induction text generalizing line with
  | nil => rw [lambdas.lines, List.append_nil]
  | cons c text ih =>
    have hc : c ≠ '\n' := fun heq => h (heq ▸ List.mem_cons_self)
    have htext : '\n' ∉ text := fun hmem => h (List.mem_cons_of_mem c hmem)
    rw [lambdas.lines, if_neg hc, ih htext, List.reverse_cons, List.append_assoc]
    rfl

/-- The lambdas of a text are those before a line break and those after it. -/
theorem lambdas_append (before after : String) :
    lambdas (before ++ "\n" ++ after) = lambdas before ++ lambdas after := by
  have htext : (before ++ "\n" ++ after).toList = before.toList ++ '\n' :: after.toList := by
    simp [String.toList_append]
  rw [lambdas, htext, lines_append, List.map_append, List.filter_append, List.map_append]
  rfl

/-- A line is a lambda without the blanks around it, if it is not blank. -/
theorem lambdas_line {line : String} (h : ¬ HasBreak line) :
    lambdas line =
      if (Text.trim line.toList).isEmpty then [] else [.ofList (Text.trim line.toList)] := by
  rw [lambdas, lines_eq_singleton h, List.reverse_nil, List.nil_append, List.map_singleton,
    List.filter_singleton]
  cases (Text.trim line.toList).isEmpty <;> rfl

/-! ### Answers -/

/-- The texts that the answer to a lambda takes over without escapes: those of the statement, or of
the error for a lambda that is read but has no statement or no values. -/
def texts (s : Session) (text : String) : List String :=
  match parseLambda s.compiler.context.catalog s.request.model text with
  | .error _ => []
  | .ok filter =>
    if s.extract.isEmpty then
      match s.compiler.build { s.request with filter := some filter } with
      | .ok q => q.texts
      | .error e => e.texts
    else
      match s.compiler.context.extract filter s.request.model s.extract with
      | .ok _ => []
      | .error e => e.texts

end Session

theorem not_hasBreak_parseMessage {e : ParseError} (h : ¬ HaveBreak e.texts) :
    ¬ HasBreak (LineError.parse e).message := by
  have hcolon : ¬ HasBreak ": " := by decide
  have hmessage : ¬ HasBreak e.message := (e.hasBreak_message).not.2 h
  cases e with
  | lexical error =>
    show ¬ HasBreak ((ParseError.lexical error).message ++ ": " ++ error.message)
    simp [hmessage, hcolon, error.not_hasBreak_message]
  | _ => exact hmessage

namespace Session

theorem answerLine_of_ok {line : String} (h : s.answer text = .ok line) :
    (s.answerLine text).2 = line := by
  rw [answerLine, h]

theorem answerLine_of_error {e : LineError} (h : s.answer text = .error e) :
    (s.answerLine text).2 = "error: " ++ e.message := by
  rw [answerLine, h]

theorem hasBreak_error (e : LineError) :
    HasBreak ("error: " ++ e.message) ↔ HasBreak e.message := by
  have hword : ¬ HasBreak "error: " := by decide
  simp [hword]

/-- The answer to a lambda breaks its line where a text in it does. Nothing that a parse error names
has a line break in it, and in objects of values line breaks are escaped. -/
theorem hasBreak_answerLine (s : Session) (text : String) :
    HasBreak (s.answerLine text).2 ↔ HaveBreak (s.texts text) := by
  unfold texts
  cases hparse : parseLambda s.compiler.context.catalog s.request.model text with
  | error e =>
    have hanswer : s.answer text = .error (.parse e) := by
      rw [answer, hparse]
      rfl
    rw [answerLine_of_error hanswer, hasBreak_error]
    exact iff_of_false (not_hasBreak_parseMessage (not_haveBreak_of_parseLambda hparse))
      Text.haveBreak_nil
  | ok filter =>
    dsimp only
    split
    · next hextract =>
      have hanswer : s.answer text =
          (s.compiler.compile { s.request with filter := some filter }).mapError .query := by
        rw [answer, hparse]
        exact if_pos hextract
      rw [Compiler.compile_eq_map] at hanswer
      cases hbuild : s.compiler.build { s.request with filter := some filter } with
      | error e =>
        rw [hbuild] at hanswer
        rw [answerLine_of_error hanswer, hasBreak_error]
        exact e.hasBreak_message
      | ok q =>
        rw [hbuild] at hanswer
        rw [answerLine_of_ok hanswer]
        exact s.compiler.printer.hasBreak_query q
    · next hextract =>
      have hanswer : s.answer text =
          ((s.compiler.context.extract filter s.request.model s.extract).mapError .query).map
            renderValues := by
        rw [answer, hparse]
        exact if_neg hextract
      cases hfound : s.compiler.context.extract filter s.request.model s.extract with
      | error e =>
        rw [hfound] at hanswer
        rw [answerLine_of_error hanswer, hasBreak_error]
        exact e.hasBreak_message
      | ok found =>
        rw [hfound] at hanswer
        rw [answerLine_of_ok hanswer]
        exact iff_of_false (not_hasBreak_renderValues found) Text.haveBreak_nil

end Session

/-! ### Runs -/

section

variable {readFile : String → Option String} {clock : Clock} {args : List String} {o : Options}

/-- A run writes the answers to its lambdas, each with a line break after it. -/
theorem run_output (hargs : Options.parse args = .ok o)
    (hsession : Session.ofOptions? readFile clock o = some s) (input : String) :
    (run readFile clock args input).output =
      String.join ((Session.lambdas input).map fun text => (s.answerLine text).2 ++ "\n") := by
  rw [run, hargs]
  simp only [hsession, Session.run, List.map_map]
  rfl

/-- The answers to the lambdas of an input. -/
theorem toList_run_output (hargs : Options.parse args = .ok o)
    (hsession : Session.ofOptions? readFile clock o = some s) (input : String) :
    (run readFile clock args input).output.toList =
      ((Session.lambdas input).map fun text => (s.answerLine text).2.toList).flatMap
        Text.ended := by
  rw [run_output hargs hsession, String.toList_join, List.flatMap_map, List.flatMap_map]
  simp only [String.toList_append]
  rfl

/-- A run that starts writes one answer for each lambda, in the order of the lambdas, and each
depends on its own lambda only: the output for an input is made of those for its lines, where a
blank line adds nothing, and any other line its own answer and a line break, whether it fails or
not. A reader of lines gets these answers back if and only if no text that an answer takes over
without escapes has a line break in it; otherwise there are more lines than lambdas. An object of
values is written in one of its orders (`Session.renderValues`); whether a line breaks does not depend
on which. -/
theorem run_answers (hargs : Options.parse args = .ok o)
    (hsession : Session.ofOptions? readFile clock o = some s) :
    (∀ before after, (run readFile clock args (before ++ "\n" ++ after)).output =
      (run readFile clock args before).output ++ (run readFile clock args after).output) ∧
    (∀ line, ¬ HasBreak line → (run readFile clock args line).output =
      if (Text.trim line.toList).isEmpty then ""
      else (s.answerLine (.ofList (Text.trim line.toList))).2 ++ "\n") ∧
    ∀ input,
      (Text.linesOf (run readFile clock args input).output.toList =
          (Session.lambdas input).map (fun text => (s.answerLine text).2.toList) ↔
        ∀ text ∈ Session.lambdas input, ¬ HaveBreak (s.texts text)) ∧
      ∀ text ∈ Session.lambdas input, HaveBreak (s.texts text) → (Session.lambdas input).length <
        (Text.linesOf (run readFile clock args input).output.toList).length := by
  have hmore : ∀ input, ∀ text ∈ Session.lambdas input, HaveBreak (s.texts text) →
      (Session.lambdas input).length <
        (Text.linesOf (run readFile clock args input).output.toList).length := by
    intro input text htext hbreak
    have hanswer : '\n' ∈ (s.answerLine text).2.toList := (s.hasBreak_answerLine text).2 hbreak
    have hlines := Text.length_lt_linesOf
      (List.mem_map_of_mem (f := fun text => (s.answerLine text).2.toList) htext) hanswer
    rwa [List.length_map, ← toList_run_output hargs hsession] at hlines
  refine ⟨fun before after => ?_, fun line hline => ?_, fun input => ⟨⟨?_, ?_⟩, hmore input⟩⟩
  · simp only [run_output hargs hsession, Session.lambdas_append, List.map_append,
      String.join_append]
  · rw [run_output hargs hsession, Session.lambdas_line hline]
    split
    · rfl
    · simp
  · intro hlines text htext hbreak
    have hlength := hmore input text htext hbreak
    rw [hlines, List.length_map] at hlength
    exact Nat.lt_irrefl _ hlength
  · intro hnone
    rw [toList_run_output hargs hsession, Text.linesOf_ended]
    intro answer hanswer
    obtain ⟨text, htext, rfl⟩ := List.mem_map.1 hanswer
    exact (s.hasBreak_answerLine text).not.2 (hnone text htext)

end

/-! ### A run over people -/

/-- A catalog in which people have names. -/
def namesCatalog : Catalog :=
  ⟨[{ name := "Person", properties := [{ name := "Name", type := .string }] }],
    List.pairwise_singleton _ _⟩

/-- The document that holds this catalog. -/
def namesDocument : String :=
  "\x7b\"models\":[\x7b\"name\":\"Person\",\"properties\":[" ++
    "\x7b\"name\":\"Name\",\"type\":\"string\"\x7d]\x7d]\x7d"

/-- The arguments that ask how many people there are. -/
def countArgs : List String :=
  ["--catalog", "people.json", "--model", "Person", "--select", "count"]

/-- What these arguments ask for. -/
def countOptions : Options :=
  { catalog := "people.json", model := "Person", select := .count }

/-- The session over the people. -/
def countSession : Session where
  compiler := ({} : Config).compiler { catalog := namesCatalog, evaluator := default }
  request := { model := "Person", select := .count }
  extract := []

theorem ofOptions?_count :
    Session.ofOptions? (fun _ => some namesDocument) default countOptions = some countSession := by
  have hread : Catalog.read? namesDocument = some namesCatalog := by decide +kernel
  simp only [Session.ofOptions?, Option.bind_eq_bind, Option.bind_some, hread]
  rfl

/-- A blank line has no answer. The lambda that fails and the one after it have an answer each. -/
theorem run_answers_failure :
    Options.parse countArgs = .ok countOptions ∧
    Session.ofOptions? (fun _ => some namesDocument) default countOptions = some countSession ∧
    Text.linesOf (run (fun _ => some namesDocument) default countArgs
        "p => p.Age == 1\n \n  p => p.Name == \"a\"\n").output.toList =
      ["error: model Person has no property Age".toList,
        "SELECT COUNT(*) FROM \"Person\" AS t0 WHERE t0.\"Name\" = 'a';".toList] := by
  have hargs : Options.parse countArgs = .ok countOptions := rfl
  have hlambdas : Session.lambdas "p => p.Age == 1\n \n  p => p.Name == \"a\"\n" =
      ["p => p.Age == 1", "p => p.Name == \"a\""] := rfl
  have hfirst : countSession.answerLine "p => p.Age == 1" =
      (false, "error: model Person has no property Age") := rfl
  have hsecond : countSession.answerLine "p => p.Name == \"a\"" =
      (true, "SELECT COUNT(*) FROM \"Person\" AS t0 WHERE t0.\"Name\" = 'a';") := rfl
  obtain ⟨-, -, hlines⟩ := run_answers hargs ofOptions?_count
  refine ⟨hargs, ofOptions?_count, ((hlines _).1.2 ?_).trans ?_⟩
  · simp only [hlambdas, List.forall_mem_cons, ← Session.hasBreak_answerLine, hfirst, hsecond]
    exact ⟨by decide, by decide, List.forall_mem_nil _⟩
  · simp only [hlambdas, List.map_cons, List.map_nil, hfirst, hsecond]

/-- A comparison with a string that has a line break in it, and one that fails over such a
string. -/
def brokenInput : String :=
  "p => p.Name == \"a\\nb\"\np => -\"c\\nd\" == 1"

/-- The line break in a string and the one in a message make four lines of two answers. -/
theorem run_answers_fails :
    Options.parse countArgs = .ok countOptions ∧
    Session.ofOptions? (fun _ => some namesDocument) default countOptions = some countSession ∧
    Session.lambdas brokenInput = ["p => p.Name == \"a\\nb\"", "p => -\"c\\nd\" == 1"] ∧
    Text.linesOf (run (fun _ => some namesDocument) default countArgs brokenInput).output.toList =
      ["SELECT COUNT(*) FROM \"Person\" AS t0 WHERE t0.\"Name\" = 'a".toList, "b';".toList,
        "error: could not evaluate constant expression: invalid operand \"c".toList,
        "d\" for Negate".toList] := by
  have hargs : Options.parse countArgs = .ok countOptions := rfl
  have hlambdas : Session.lambdas brokenInput =
      ["p => p.Name == \"a\\nb\"", "p => -\"c\\nd\" == 1"] := rfl
  have hfirst : countSession.answerLine "p => p.Name == \"a\\nb\"" =
      (true, "SELECT COUNT(*) FROM \"Person\" AS t0 WHERE t0.\"Name\" = 'a\nb';") := rfl
  have hsecond : countSession.answerLine "p => -\"c\\nd\" == 1" = (false,
      "error: could not evaluate constant expression: invalid operand \"c\nd\" for Negate") := rfl
  refine ⟨hargs, ofOptions?_count, hlambdas, ?_⟩
  rw [toList_run_output hargs ofOptions?_count]
  simp only [hlambdas, List.map_cons, List.map_nil, hfirst, hsecond]
  decide +kernel

end CommandLine

end PredicateSql
