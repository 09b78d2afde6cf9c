import Mathlib.Data.List.Basic
import PredicateSql.Query.Extraction

/-!
# Findings of several properties

All properties that are asked for share one table, into which a search writes as it comes to a
finding.

* `Findings.extend`: more values for every property, after those that it has. A finding is written
  for each property by itself (`Findings.write_eq`).
* `Search.IsBlind`: a search never looks at the table. Over every table for a model it fails with
  the same error, or it succeeds with the same answer and adds the same values for each name. One
  lemma for each way to put searches together; `Context.search_isBlind` is the induction on the
  expression.
* `Context.extract_names`: so the values for one name are those of a request for it alone.
-/

namespace PredicateSql

/-! ### Findings -/

/-- What a finding adds to the values of a property of a model. -/
def Finding.valuesFor (f : Finding) (model name : String) : List Value :=
  if f.model = model ∧ name = f.property then f.values else []

namespace Findings

variable {found : Findings} {more more' : String → List Value}

/-- More values for every property, after those that it has. -/
def extend (found : Findings) (more : String → List Value) : Findings :=
  { found with values := found.values.map fun (name, values) => (name, values ++ more name) }

/-- The same properties, each with more values after those that it had. -/
def IsPrefix (found found' : Findings) : Prop :=
  ∃ more, found' = found.extend more

@[simp] theorem extend_nil (found : Findings) : (found.extend fun _ => []) = found := by
  simp [extend]

theorem extend_extend (found : Findings) (more more' : String → List Value) :
    (found.extend more).extend more' = found.extend fun name => more name ++ more' name := by
  simp [extend]

theorem extend_ofNames (model : String) (names : List String) :
    ((ofNames model names).extend more).values =
      names.eraseDups.map fun name => (name, more name) := by
  simp [extend, ofNames]

theorem lookup_extend (name : String) : (found.extend more).values.lookup name =
    (found.values.lookup name).map (· ++ more name) := by
  unfold extend
  induction found.values with
  | nil => rfl
  | cons entry rest ih =>
    rw [List.map_cons, List.lookup_cons, List.lookup_cons, ih]
    by_cases hname : name = entry.1
    · simp [hname]
    · simp [beq_false_of_ne hname]

/-- A finding is written for each property by itself. -/
theorem write_eq (found : Findings) (f : Finding) :
    found.write f = found.extend (f.valuesFor found.model) := by
  unfold write
  split
  · next hmodel =>
    refine congrArg (Findings.mk found.model) (List.map_congr_left fun (name, values) _ => ?_)
    by_cases hname : name = f.property
    · simp [Finding.valuesFor, hmodel, hname]
    · simp [Finding.valuesFor, hname]
  · next hmodel => simp [Finding.valuesFor, hmodel, extend]

theorem IsPrefix.refl (found : Findings) : found.IsPrefix found :=
  ⟨_, (extend_nil found).symm⟩

theorem IsPrefix.trans {a b d : Findings} : a.IsPrefix b → b.IsPrefix d → a.IsPrefix d := by
  rintro ⟨more, rfl⟩ ⟨more', rfl⟩
  exact ⟨_, extend_extend a more more'⟩

theorem isPrefix_write (found : Findings) (f : Finding) : found.IsPrefix (found.write f) :=
  ⟨_, write_eq found f⟩

end Findings

/-! ### Blind searches -/

namespace Search

variable {α β : Type}

/-- Over all findings for a model, the search fails with the same error, or it gives the same answer
and adds the same values. -/
def IsBlind (w : Search α) : Prop :=
  ∀ model, (∃ err, ∀ found : Findings, found.model = model → w.run found = .error err) ∨
    ∃ a more, ∀ found : Findings, found.model = model → w.run found = .ok (a, found.extend more)

namespace IsBlind

theorem lift (x : Except QueryError α) : IsBlind (liftM x : Search α) := by
  intro model
  cases x with
  | error err => exact .inl ⟨err, fun _ _ => rfl⟩
  | ok a =>
    refine .inr ⟨a, fun _ => [], fun found _ => ?_⟩
    rw [Findings.extend_nil]
    rfl

theorem pure (a : α) : IsBlind (Pure.pure a : Search α) :=
  lift (.ok a)

theorem throw (err : QueryError) : IsBlind (MonadExcept.throw err : Search α) :=
  lift (.error err)

/-- The second search finds what the first one leaves, and adds its own values to those. -/
theorem bind {w : Search α} {f : α → Search β} (hw : IsBlind w) (hf : ∀ a, IsBlind (f a)) :
    IsBlind (w >>= f) := by
  intro model
  obtain ⟨err, hw⟩ | ⟨a, more, hw⟩ := hw model
  · refine .inl ⟨err, fun found hmodel => ?_⟩
    rw [StateT.run_bind, hw found hmodel]
    rfl
  have hrun : ∀ found : Findings, found.model = model →
      (w >>= f).run found = (f a).run (found.extend more) := by
    intro found hmodel
    rw [StateT.run_bind, hw found hmodel]
    rfl
  obtain ⟨err, hf⟩ | ⟨b, more', hf⟩ := hf a model
  · exact .inl ⟨err, fun found hmodel => (hrun found hmodel).trans (hf _ hmodel)⟩
  · refine .inr ⟨b, fun name => more name ++ more' name, fun found hmodel => ?_⟩
    rw [← Findings.extend_extend]
    exact (hrun found hmodel).trans (hf _ hmodel)

theorem ite {p : Prop} [Decidable p] {w v : Search α} (hw : IsBlind w) (hv : IsBlind v) :
    IsBlind (if p then w else v) := by
  split
  · exact hw
  · exact hv

/-- A comparison adds its values by its model and property alone. -/
theorem contribute (a b : Option Operand) : IsBlind (contribute a b) := by
  intro model
  cases hf : Finding.of? a b with
  | none =>
    refine .inr ⟨(), fun _ => [], fun found _ => ?_⟩
    rw [Findings.extend_nil, PredicateSql.contribute, hf]
    rfl
  | some f =>
    refine .inr ⟨(), f.valuesFor model, fun found hmodel => ?_⟩
    rw [← hmodel, ← Findings.write_eq, PredicateSql.contribute, hf]
    rfl

/-- A blind search only adds values. -/
theorem isPrefix {w : Search α} (hw : IsBlind w) {found found' : Findings} {a : α}
    (h : w.run found = .ok (a, found')) : found.IsPrefix found' := by
  obtain ⟨err, hw⟩ | ⟨a', more, hw⟩ := hw found.model
  · cases (hw found rfl).symm.trans h
  · obtain ⟨-, rfl⟩ := Prod.mk.inj (Except.ok.inj ((hw found rfl).symm.trans h))
    exact ⟨more, rfl⟩

end IsBlind

end Search

open Search (IsBlind)

namespace Context

variable {V : Type} [ClosedEvaluator V] {c : Context V} {s : Scope} {e : Expr}

theorem searchNode_isBlind {walk : Search Unit} (h : IsBlind walk) :
    IsBlind (c.searchNode s e walk) := by
  unfold searchNode
  exact (IsBlind.lift _).bind fun _ => .ite (.lift _) (h.bind fun _ => .pure _)

theorem searchContains_isBlind {negated : Bool} {w v : Search (Option Operand)} (hw : IsBlind w)
    (hv : IsBlind v) : IsBlind (searchContains negated w v) := by
  unfold searchContains
  exact hw.bind fun _ => hv.bind fun _ => .ite (.contribute _ _) (.pure _)

/-- The search of an expression is blind. -/
theorem search_isBlind : ∀ (e : Expr) (s : Scope), IsBlind (c.search s e)
  | .constant .., _ | .staticMember .., _ | .param .., _ => .lift _
  | .member owner _ name, s => search_isBlind owner (s.withMember name)
  | .lambda _ body, _ => (IsBlind.lift _).bind fun s' => search_isBlind body s'
  | .unary op operand, s => by
    cases op with
    | convert => exact search_isBlind operand s
    | not | negate => exact searchNode_isBlind ((search_isBlind operand _).bind fun _ => .pure _)
  | .binary op left right, s => by
    have hleft := fun s' => search_isBlind left s'
    have hright := fun s' => search_isBlind right s'
    cases op with
    | index => exact searchNode_isBlind (.throw _)
    | equal =>
      exact searchNode_isBlind
        ((hleft _).bind fun _ => (hright _).bind fun _ => .contribute _ _)
    | _ => exact searchNode_isBlind ((hleft _).bind fun _ => (hright _).bind fun _ => .pure _)
  | .staticCall _ [collection, item], s =>
    searchNode_isBlind (.ite (searchContains_isBlind (search_isBlind collection _)
      (search_isBlind item _)) (.throw _))
  | .call target _ [item], s =>
    searchNode_isBlind (.ite (searchContains_isBlind (search_isBlind target _)
      (search_isBlind item _)) (.ite (.pure _) (.throw _)))
  | .call _ _ [], _ | .call _ _ (_ :: _ :: _), _ => searchNode_isBlind (.ite (.pure _) (.throw _))
  | .staticCall _ [], _ | .staticCall _ [_], _ | .staticCall _ (_ :: _ :: _ :: _), _
  | .new .., _ | .array .., _ => searchNode_isBlind (.throw _)
  | .conditional test ifTrue ifFalse, s =>
    searchNode_isBlind ((search_isBlind test _).bind fun _ => (search_isBlind ifTrue _).bind
      fun _ => (search_isBlind ifFalse _).bind fun _ => .pure _)

/-- Nothing that was found before is lost. -/
theorem search_isPrefix {found found' : Findings} {operand : Option Operand}
    (h : (c.search s e).run found = .ok (operand, found')) : found.IsPrefix found' :=
  (search_isBlind e s).isPrefix h

/-! ### Extraction -/

variable {filter : Expr} {model : String} {names : List String}

/-- An extraction fails for all names with the same error, or it succeeds for all of them with what
is found for each. -/
theorem extract_cases (c : Context V) (filter : Expr) (model : String) :
    (∃ err, ∀ names, c.extract filter model names = .error err) ∨
      ∃ more : String → List Value, ∀ names, c.extract filter model names =
        .ok (names.eraseDups.map fun name => (name, more name)) := by
  unfold extract
  cases c.model model with
  | error err => exact .inl ⟨err, fun _ => rfl⟩
  | ok root =>
    obtain ⟨err, hsearch⟩ | ⟨operand, more, hsearch⟩ :=
      search_isBlind (c := c) filter {} model
    · refine .inl ⟨err, fun names => ?_⟩
      show ((c.search {} filter).run (.ofNames model names)).bind _ = _
      rw [hsearch _ rfl]
      rfl
    · refine .inr ⟨more, fun names => ?_⟩
      show ((c.search {} filter).run (.ofNames model names)).bind _ = _
      rw [hsearch _ rfl, ← Findings.extend_ofNames]
      rfl

theorem nodup_eraseDups (names : List String) : names.eraseDups.Nodup := by
  induction hlength : names.length using Nat.strongRecOn generalizing names with
  | ind n ih =>
    cases names with
    | nil => exact List.nodup_nil
    | cons name rest =>
      subst hlength
      rw [List.eraseDups_cons]
      refine List.nodup_cons.2 ⟨fun hmem => ?_, ih _ ?_ _ rfl⟩
      · rw [List.mem_eraseDups, List.mem_filter] at hmem
        simp at hmem
      · exact Nat.lt_succ_of_le (List.length_filter_le _ _)

/-- Whether the extraction succeeds, and how it fails, does not depend on the names, by whatever
evaluator. If it succeeds, it has values for exactly these names, and those for each are what a
request for it alone gives. -/
theorem extract_names (c : Context V) (filter : Expr) (model : String) (names : List String) :
    (∀ other err, c.extract filter model names = .error err ↔
      c.extract filter model other = .error err) ∧
    ∀ found, c.extract filter model names = .ok found →
      (found.map Prod.fst).Nodup ∧ (∀ name, name ∈ found.map Prod.fst ↔ name ∈ names) ∧
      ∀ name ∈ names, ∃ values, found.lookup name = some values ∧
        c.extract filter model [name] = .ok [(name, values)] := by
  obtain ⟨err, herr⟩ | ⟨more, hmore⟩ := extract_cases c filter model
  · refine ⟨fun other err => by rw [herr, herr], fun found h => ?_⟩
    rw [herr] at h
    cases h
  · refine ⟨fun other err => by rw [hmore, hmore]; exact ⟨nofun, nofun⟩, fun extracted h => ?_⟩
    obtain rfl := Except.ok.inj ((hmore names).symm.trans h)
    have hkeys : (names.eraseDups.map fun name => (name, more name)).map Prod.fst =
        names.eraseDups := by
      rw [List.map_map]
      exact List.map_id _
    refine ⟨?_, fun name => ?_, fun name hname => ?_⟩
    · rw [hkeys]
      exact nodup_eraseDups names
    · rw [hkeys, List.mem_eraseDups]
    · exact ⟨_, List.lookup_graph _ (List.mem_eraseDups.2 hname), hmore [name]⟩

end Context

end PredicateSql
