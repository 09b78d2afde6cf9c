import PredicateSql.Proofs.Query.Chains
import PredicateSql.Proofs.Query.Places

/-!
# The member `Value` in chains of members

In the middle or at the end of a chain of members of a parameter, `Value` changes nothing in the
query, apart from what is told of declared types.

* `Expr.AddsValue`: a chain of members, and the chain with `Value` added to it.
* `Context.replaces_of_addsValue`: the two become the same term.
* `Frame.Redeclares`: frames that differ in what a member, a method or elements are declared on.
  `Context.replaces_redeclared`: of these types, only those of methods matter.
* `Context.InsertsUnseen`: trees with and without `Value` that every query is built of alike.
-/

namespace PredicateSql

open Sql (Term)

/-! ### Chains -/

/-- The second chain of members of a parameter is the first one with `Value` added to it after at
least one member. Members and casts may follow in both, with any declaring types. -/
inductive Expr.AddsValue : Expr → Expr → Prop
  | value {e : Expr} {first : String} {rest : List String} {type : String}
    (h : e.members? [] = some (first :: rest)) : AddsValue e (.member e type "Value")
  | member {e e' : Expr} {type type' name : String} (h : AddsValue e e') :
    AddsValue (.member e type name) (.member e' type' name)
  | convert {e e' : Expr} (h : AddsValue e e') :
    AddsValue (.unary .convert e) (.unary .convert e')

namespace Expr.AddsValue

variable {e e' : Expr}

theorem members? (h : AddsValue e e') (after : List String) :
    ∃ members members', e.members? after = some members ∧ e'.members? after = some members' := by
  induction h generalizing after with
  | @value e first rest type h =>
    have h' : ∀ more, e.members? more = some (first :: rest ++ more) := by
      intro more
      have happend := e.members?_append [] more
      rwa [h, List.nil_append] at happend
    exact ⟨_, _, h' after, h' ("Value" :: after)⟩
  | member h ih => exact ih (_ :: after)
  | convert h ih => exact ih after

end Expr.AddsValue

/-- The member `Value` of a term is the term. -/
theorem scalarMembers_insert_value (before after : List String) {a : Term} {type : ValueType} :
    scalarMembers a type (before ++ "Value" :: after) = scalarMembers a type (before ++ after) := by
  induction before generalizing a type with
  | nil =>
    have hlength : ¬ ("Value" = "Length" ∧ type = .string) := fun h => absurd h.1 (by decide)
    rw [List.nil_append, scalarMembers, if_neg hlength, if_pos rfl, List.nil_append]
  | cons member rest ih =>
    rw [List.cons_append, List.cons_append, scalarMembers, scalarMembers, ih, ih, ih]

theorem Evaluator.evaluate_of_members? {v : Evaluator} {e : Expr} {after members : List String}
    (h : e.members? after = some members) :
    v.evaluate e = .error (.notEvaluatable "Parameter") := by
  fun_induction Expr.members? after e with
  | case1 after owner type name ih =>
    rw [evaluate, ih h]
    rfl
  | case2 after operand ih =>
    rw [evaluate, ih h]
    rfl
  | case3 => rfl
  | case4 => cases h

namespace Context

variable {c : Context} {s : Scope} {e e' : Expr} {binders : List (String × String)} {asked : Asked}

theorem column_insert_value {node : Nat} {p : Property} (before after : List String) :
    column node p (before ++ "Value" :: after) = column node p (before ++ after) := by
  unfold column
  simp only [scalarMembers_insert_value]

theorem follow_insert_value (before after : List String) (node : Nat) (p : Property) :
    c.follow node p (before ++ "Value" :: after) = c.follow node p (before ++ after) := by
  induction before generalizing node p with
  | nil =>
    rw [List.nil_append, List.nil_append, follow]
    cases href : p.reference with
    | some reference => exact (if_neg (by decide)).trans (if_pos rfl)
    | none =>
      have hcolumn : column node p ("Value" :: after) = column node p after :=
        column_insert_value [] after
      rw [hcolumn]
      cases after with
      | nil => rfl
      | cons => rw [follow, href]
  | cons member rest ih =>
    have hcolumn : column node p (member :: (rest ++ "Value" :: after)) =
        column node p (member :: (rest ++ after)) :=
      column_insert_value (member :: rest) after
    rw [List.cons_append, List.cons_append, follow, follow, hcolumn]
    simp only [ih]

theorem resolve_insert_value {name declared first : String} (rest after : List String) :
    c.resolve { s with pending := first :: rest ++ "Value" :: after } name declared =
      c.resolve { s with pending := first :: rest ++ after } name declared := by
  unfold resolve
  simp only [List.cons_append, follow_insert_value]
  rfl

/-- A chain of members becomes the same term with and without `Value`. -/
theorem term_of_addsValue (h : e.AddsValue e') : c.term s e' = c.term s e := by
  induction h generalizing s with
  | @value e first rest type h =>
    obtain ⟨name, declared, hterm⟩ := resolves_of_members? c h
    calc c.term (s.withMember "Value") e
      _ = c.resolve { s with pending := first :: rest ++ "Value" :: s.pending } name declared :=
        hterm s ("Value" :: s.pending)
      _ = c.resolve { s with pending := first :: rest ++ s.pending } name declared :=
        resolve_insert_value rest s.pending
      _ = c.term s e := (hterm s s.pending).symm
  | member h ih => exact ih
  | convert h ih => exact ih

/-- Nothing but the declared type of a chain changes with `Value`. -/
theorem replaces_of_addsValue (h : e.AddsValue e')
    (htype : asked.type.Alike c (c.staticType? { binders } e) (c.staticType? { binders } e')) :
    c.Replaces binders asked e e' := by
  obtain ⟨members, members', he, he'⟩ := h.members? []
  refine ⟨?_, ?_, ?_, fun s hs => ?_, fun _ => ?_, fun _ s _ _ => (term_of_addsValue h).symm⟩
  · rw [Expr.isClosed_of_members? he, Expr.isClosed_of_members? he']
  · rw [Evaluator.evaluate_of_members? he, Evaluator.evaluate_of_members? he']
  · rw [Expr.handlesNegation_of_members? he, Expr.handlesNegation_of_members? he']
  · rwa [staticType?_of_binders hs, staticType?_of_binders hs]
  · rw [isProvablyNull_of_members? he, isProvablyNull_of_members? he']

end Context

/-! ### Declaring types -/

namespace Frame

/-- The frames differ at most in what their member, their method or their elements are declared
on. -/
inductive Redeclares : Frame → Frame → Prop
  | refl (frame : Frame) : Redeclares frame frame
  | owner (type type' name : String) : Redeclares (.ownerOf type name) (.ownerOf type' name)
  | target (type type' : DeclaringType) (name : String) (args : List Expr) :
    Redeclares (.targetOf ⟨type, name⟩ args) (.targetOf ⟨type', name⟩ args)
  | item (type type' : ValueType) (before after : List Expr) :
    Redeclares (.itemOf type before after) (.itemOf type' before after)

/-- The method that is called on the subtree that was cut out. -/
def method? : Frame → Option Method
  | .targetOf method _ => some method
  | _ => none

end Frame

namespace Place

/-- The places differ at most in what members, methods and elements around them are declared on. -/
def Redeclares (place place' : Place) : Prop :=
  List.Forall₂ Frame.Redeclares place place'

/-- The methods that are called on what stands in a place, and on what is made of it. -/
def methods (place : Place) : List Method :=
  place.filterMap Frame.method?

end Place

namespace Context

variable {c : Context} {binders : List (String × String)} {asked : Asked} {e : Expr}

/-- Of all declaring types, only those of methods matter. -/
theorem replaces_redeclared {place place' : Place} (h : place.Redeclares place')
    (hmethods : place'.methods = place.methods) :
    c.Replaces binders asked (place.fill e) (place'.fill e) := by
  induction h generalizing binders asked with
  | nil => exact .refl
  | @cons frame frame' rest rest' hframe _ ih =>
    cases hframe with
    | refl =>
      refine .frame (ih ?_)
      cases frame with
      | targetOf => exact (List.cons.inj hmethods).2
      | _ => exact hmethods
    | owner type type' name => exact .member (ih hmethods)
    | target type type' name args =>
      have hmethods : (⟨type', name⟩ : Method) :: Place.methods rest' =
          ⟨type, name⟩ :: Place.methods rest := hmethods
      obtain ⟨hmethod, hrest⟩ := List.cons.inj hmethods
      rw [hmethod]
      exact .call (ih hrest) (Replaces.arguments_refl args)
    | item type type' before after =>
      exact .array (Replaces.arguments_append before after (ih hmethods))

/-- The second tree is the first one with `Value` added to a chain of members, and no query tells the
two apart: the methods around the chain keep what they are declared on, and the declared type of the
chain does not matter. -/
inductive InsertsUnseen (c : Context) : Expr → Expr → Prop
  | mk {place place' : Place} {e e' : Expr} (chain : e.AddsValue e')
    (redeclares : place.Redeclares place') (methods : place'.methods = place.methods)
    (type : (place.asks c e [] { walked := true }).type.Alike c
      (c.staticType? { binders := place.binders [] } e)
      (c.staticType? { binders := place.binders [] } e')) :
    InsertsUnseen c (place.fill e) (place'.fill e')

theorem InsertsUnseen.replaces {e' : Expr} (h : c.InsertsUnseen e e') :
    c.Replaces [] { walked := true } e e' := by
  cases h with
  | mk chain redeclares methods type =>
    exact (replaces_fill (replaces_of_addsValue chain type)).trans
      (replaces_redeclared redeclares methods)

end Context

end PredicateSql
