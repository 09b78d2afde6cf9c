import PredicateSql.Proofs.Query.Places
import PredicateSql.Proofs.Query.Predicate
import PredicateSql.Proofs.Text.Matching

/-!
# Searches for a text as patterns

A search for a text that is known becomes a pattern before the query runs. The pattern means what
the method of strings does.

* `Anchor.method`: the method that looks for a text in some place. `callString_method`: its answer.
* `Database.ReadsPatterns`: a database that reads escaped patterns by their slots.
* `Context.term_search`: what a search for a known text becomes.
* `Context.like_spec`: the pattern is complete, and matches the strings that the method answers
  with `true` for.
-/

namespace PredicateSql

open Sql (Term)

/-! ### Methods -/

/-- The method of strings that looks for a text in some place. -/
def Text.Anchor.method : Text.Anchor → KnownMethod
  | .anywhere => .contains
  | .start => .startsWith
  | .ending => .endsWith

theorem Method.anchor?_of_known? {method : Method} {anchor : Text.Anchor}
    (h : method.known? = some anchor.method) : method.anchor? = some anchor := by
  rw [anchor?, h]
  cases anchor <;> rfl

theorem callString_method (anchor : Text.Anchor) (subject text : String) :
    callString subject anchor.method [.string text] =
      .ok (.bool (anchor.finds text.toList subject.toList)) := by
  cases anchor <;> rfl

/-! ### Databases -/

namespace Sql.Database

/-- The database reads a backslash in an escaped pattern as an escape, and wildcards for what they
stand for. Letters match in their own case only. -/
def ReadsPatterns (db : Database) : Prop :=
  ∀ pattern text : String, db.like true (.string pattern) (.string text) =
    .ofBool (Text.likes pattern.toList text.toList)

/-- A database that reads patterns. -/
def matching : Database :=
  { (default : Database) with
    like
      | true, .string pattern, .string text => .ofBool (Text.likes pattern.toList text.toList)
      | _, _, _ => .unknown }

theorem readsPatterns_matching : matching.ReadsPatterns :=
  fun _ _ => rfl

end Sql.Database

/-! ### Searches -/

namespace Context

variable {c : Context} {s : Scope} {method : Method} {anchor : Text.Anchor} {target pattern : Expr}
  {text : String}

/-- A search for a known text in something that depends on the row is a match with the pattern for
this text. -/
theorem term_search (hs : s.pending = []) (hstring : method.declaringType = .string)
    (hmethod : method.known? = some anchor.method) (htarget : target.isClosed = .ok false)
    (hpattern : pattern.isClosed = .ok true)
    (htext : c.evaluator.evaluate pattern = .ok (.string text)) :
    c.term s (.call target method [pattern]) = do
      let item ← c.term s.isolated.neutral target
      return .like item (.text (.ofList (anchor.pattern text.toList))) s.negated true := by
  have hopen : (Expr.call target method [pattern]).isClosed = .ok false := by
    rw [Expr.isClosed, htarget]
    rfl
  have hsequence : ¬ (method.known? = some .contains ∧ method.declaringType.isSequence = true) := by
    rw [hstring]
    exact fun h => nomatch h.2
  rw [term, withMembers_nil hs, closedOr_of_open hopen, callWithArg, if_neg hsequence, hstring,
    Method.anchor?_of_known? hmethod]
  show c.like s method anchor pattern _ _ = _
  rw [like, hpattern, ClosedEvaluator.evaluate_standard, htext]
  rfl

/-- Methods that look for a text in some place become patterns if the text is known. The pattern
does not end within an escape, and a string matches it exactly if the method answers `true` for the
string; so the condition holds on the rows where it should. -/
theorem like_spec (hs : s.pending = []) (hstring : method.declaringType = .string)
    (hmethod : method.known? = some anchor.method) (htarget : target.isClosed = .ok false)
    (hpattern : pattern.isClosed = .ok true)
    (htext : c.evaluator.evaluate pattern = .ok (.string text)) :
    let p : String := .ofList (anchor.pattern text.toList)
    (c.term s (.call target method [pattern]) = do
      let item ← c.term s.isolated.neutral target
      return .like item (.text p) s.negated true) ∧
    ¬ Text.EndsInEscape p.toList ∧
    ∀ subject : String, ∃ b,
      callString subject anchor.method [.string text] = .ok (.bool b) ∧
      (Text.likes p.toList subject.toList = true ↔ b = true) ∧
      ∀ (db : Sql.Database) (row : Sql.Row) (item : Term), db.ReadsPatterns →
        item.eval db row = .string subject →
          (Term.like item (.text p) s.negated true).truth db row =
            (Truth.ofBool b).negateIf s.negated := by
  intro p
  have hp : p.toList = anchor.pattern text.toList := String.toList_ofList
  refine ⟨term_search hs hstring hmethod htarget hpattern htext, ?_, fun subject => ?_⟩
  · rw [hp]
    exact Text.not_endsInEscape_pattern anchor text.toList
  · have hlikes : Text.likes p.toList subject.toList =
        anchor.finds text.toList subject.toList := by
      rw [hp, Text.likes_pattern]
    refine ⟨_, callString_method anchor subject text, by rw [hlikes], ?_⟩
    intro db row item hdb hitem
    have hlike : db.like true (.string p) (.string subject) =
        .ofBool (anchor.finds text.toList subject.toList) := by
      rw [hdb, hlikes]
    rw [Term.truth, Term.eval, hitem, Truth.ofValue_toValue]
    show (db.like true (.string p) (.string subject)).negateIf s.negated = _
    rw [hlike]

/-- Names with a text in which all three characters with a meaning in patterns stand. -/
theorem like_spec_name :
    let name : Expr := .memberOf (.param "p" "Person") "Name"
    let search : Expr := .call name ⟨.string, "EndsWith"⟩ [.ofValue (.string "_5%\\")]
    let column : Term := .column "t0" "Name"
    let pattern : Term := .text "%\\_5\\%\\\\"
    (Compiler.named.build
        { model := "Person", filter := some (.lambdaOver "p" "Person" search) }).map
          Sql.Query.filter = .ok (some (.like column pattern false true)) ∧
      ∀ (row : Sql.Row) (subject : String), row "t0" "Name" = .string subject → ∃ b,
        callString subject .endsWith [.string "_5%\\"] = .ok (.bool b) ∧
          (Term.like column pattern false true).truth .matching row = .ofBool b := by
  intro name search column pattern
  obtain ⟨-, -, hsubject⟩ := @like_spec Compiler.named.context (Scope.over ⟨"p", "Person"⟩)
    ⟨.string, "EndsWith"⟩ .ending name (.ofValue (.string "_5%\\")) "_5%\\" rfl rfl rfl rfl rfl rfl
  refine ⟨rfl, fun row subject hrow => ?_⟩
  obtain ⟨b, hb, -, htruth⟩ := hsubject subject
  exact ⟨b, hb, htruth .matching row column Sql.Database.readsPatterns_matching hrow⟩

end Context

end PredicateSql
