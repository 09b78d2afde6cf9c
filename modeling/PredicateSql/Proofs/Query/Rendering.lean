import PredicateSql.Proofs.Query.Composition
import PredicateSql.Proofs.Sql.Printable

/-!
# What is built has a text

* `Value.HasText`: the values that stand in a statement as they are. Lists, records and floats that
  are no numbers do not. `literalOf` makes literals of these values and of no others.
* `Compiler.hasText_of_build`: every literal of a query that is built is of such a value.
* `Compiler.compile_eq_map`: so every query that is built is printed, and the errors of compiling
  are those of building.
-/

namespace PredicateSql

open Sql (Term)

/-! ### Values -/

/-- The values that can stand in a statement. -/
structure Value.HasText (v : Value) : Prop where
  not_list : ∀ items, v ≠ .list items
  not_record : ∀ type fields, v ≠ .record type fields
  finite : ∀ x, v = .float x → Binary64.isFinite x = true

theorem Value.HasText.hasLiteral {v : Value} (h : v.HasText) : Sql.hasLiteral v = true := by
  cases v with
  | list items => exact absurd rfl (h.not_list items)
  | record type fields => exact absurd rfl (h.not_record type fields)
  | _ => rfl

/-- Literals are made of such values, and of no others. -/
theorem literalOf_eq_ok_iff {v : Value} {a : Term} :
    literalOf v = .ok a ↔ v.HasText ∧ a = .literal v := by
  constructor
  · intro h
    have ha := literalOf_eq_ok h
    refine ⟨⟨?_, ?_, ?_⟩, ha⟩
    · rintro items rfl
      cases h
    · rintro type fields rfl
      cases h
    · rintro x rfl
      by_contra hx
      simp [literalOf, hx, throw, throwThe, MonadExceptOf.throw] at h
  · rintro ⟨htext, rfl⟩
    cases v with
    | list items => exact absurd rfl (htext.not_list items)
    | record type fields => exact absurd rfl (htext.not_record type fields)
    | float x => simp [literalOf, htext.finite x rfl, pure, Except.pure]
    | _ => rfl

/-! ### Statements -/

namespace Compiler

variable {c : Compiler} {r : Request} {q : Sql.Query}

/-- Every literal of a query is of a value that can stand in a statement. -/
theorem hasText_of_build {v : Value} (h : c.build r = .ok q) (hv : q.HasPart (.literal v)) :
    v.HasText := by
  obtain ⟨b, hb, hliteral⟩ := composes_of_hasPart h hv
  -- A literal has no parentheses to lose.
  obtain rfl : b = .literal v := by
    rcases hliteral with rfl | hliteral
    · rfl
    · cases b with
      | binary => cases hliteral
      | _ => exact hliteral.symm
  cases hb with
  | literal hvalue => exact (literalOf_eq_ok_iff.1 hvalue).1

theorem isPrintable_of_build (h : c.build r = .ok q) : q.IsPrintable :=
  fun _ hv => (hasText_of_build h hv).hasLiteral

/-- The text of a request is that of its query, and there is none only where there is no query. -/
theorem compile_eq_map (c : Compiler) (r : Request) :
    c.compile r = (c.build r).map c.printer.query := by
  unfold compile
  cases h : c.build r with
  | error e => rfl
  | ok q =>
    have htext : c.printer.printQuery? q = some (c.printer.query q) :=
      Sql.Printer.printQuery?_of_isPrintable (isPrintable_of_build h)
    simp [htext, Except.map, pure, Except.pure, bind, Except.bind]

/-- A statement is the text of a query. -/
theorem compile_eq_ok {text : String} (h : c.compile r = .ok text) :
    ∃ q, c.build r = .ok q ∧ text = c.printer.query q := by
  rw [compile_eq_map] at h
  cases hbuild : c.build r with
  | error e =>
    rw [hbuild] at h
    cases h
  | ok q =>
    rw [hbuild] at h
    exact ⟨q, rfl, (Except.ok.inj h).symm⟩

/-- What is built is printed: no value without a text is in the query. -/
theorem compile_of_build (h : c.build r = .ok q) :
    c.compile r = .ok (c.printer.query q) ∧ ∀ v, q.HasPart (.literal v) → v.HasText := by
  refine ⟨?_, fun v hv => hasText_of_build h hv⟩
  rw [compile_eq_map, h]
  rfl

/-- The number of people whose age is in a list with `null` in it. -/
def listedRequest : Request where
  model := "Person"
  select := .count
  filter := some (.lambda [⟨"p", "Person"⟩]
    (.containsIn (.ofValue (.list [.int 20, .null])) (.memberOf (.param "p" "Person") "Age")))

/-- The list is taken apart, so that only its elements are literals. -/
theorem compile_of_build_list :
    ∃ q, sample.build listedRequest = .ok q ∧ q.HasPart (.literal (.int 20)) ∧
      sample.compile listedRequest = .ok (sample.printer.query q) ∧
      ∀ v, q.HasPart (.literal v) → v.HasText := by
  obtain ⟨q, hq, hfilter⟩ : ∃ q, sample.build listedRequest = .ok q ∧
      q.filter = some (.binary (.inList (.column "t0" "Age") [.literal (.int 20)] false) .or
        (.isNull (.column "t0" "Age") .equalsNull) false) := ⟨_, rfl, rfl⟩
  have hpart : q.HasPart (.literal (.int 20)) := by
    refine ⟨_, List.mem_append_left _ (Option.mem_toList.2 hfilter), ?_⟩
    exact .operand List.mem_cons_self (.operand (List.mem_cons_of_mem _ List.mem_cons_self) .self)
  exact ⟨q, hq, hpart, compile_of_build hq⟩

end Compiler

end PredicateSql
