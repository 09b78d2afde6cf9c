import PredicateSql.Proofs.Lambda.Gap
import PredicateSql.Proofs.Query.Unwrapping

/-!
# Trees that differ by one member

What becomes of the trees of two texts that differ by the member `Value` after a chain of members of
a parameter: one chain within the tree is another one, and what is declared on a type that is not
known any more is declared on `object`.

* `Expr.Inserts`: a tree, and the tree with `Value` added to one of its chains.
* `Expr.Fit`, `Expr.FitAll`: trees that are parsed from one place of the two texts to another. They
  are the same unless the member lies between the places.
-/

namespace PredicateSql

/-! ### Declared types -/

/-- The declared type of a node depends on a subtree by its declared type only. -/
theorem Frame.sourceType_fill {catalog : Catalog} {e e' : Expr} (frame : Frame)
    (h : e.sourceType catalog = e'.sourceType catalog) :
    (frame.fill e).sourceType catalog = (frame.fill e').sourceType catalog := by
  cases frame with
  | leftOf op right => simp only [fill, Expr.sourceType, h]
  | rightOf op left => simp only [fill, Expr.sourceType, h]
  | operandOf op => cases op <;> simp only [fill, Expr.sourceType, h]
  | ownerOf type name => simp only [fill, Expr.sourceType, h]
  | targetOf method args => simp only [fill, Expr.sourceType, h]
  | ifTrueOf test ifFalse => simp only [fill, Expr.sourceType, h]
  | _ => rfl

theorem Place.sourceType_fill {catalog : Catalog} {e e' : Expr} (place : Place)
    (h : e.sourceType catalog = e'.sourceType catalog) :
    (place.fill e).sourceType catalog = (place.fill e').sourceType catalog := by
  induction place with
  | nil => exact h
  | cons frame rest ih => exact frame.sourceType_fill ih

namespace Expr

/-! ### Insertions -/

/-- The second tree is the first one with `Value` added to a chain of members. Around the chain they
differ at most in declaring types, and not even in these if the chain has one type with and without
`Value`. -/
inductive Inserts (catalog : Catalog) : Expr → Expr → Prop
  | mk {place place' : Place} {e e' : Expr} (chain : e.AddsValue e')
    (redeclares : place.Redeclares place')
    (types : e.sourceType catalog = e'.sourceType catalog → place' = place) :
    Inserts catalog (place.fill e) (place'.fill e')

variable {catalog : Catalog} {e e' f f' : Expr}

theorem AddsValue.inserts (h : e.AddsValue e') : Inserts catalog e e' :=
  @Inserts.mk catalog [] [] e e' h .nil fun _ => rfl

/-- A node around a subtree with an insertion. -/
theorem Inserts.frame {frame frame' : Frame} (h : Inserts catalog e e')
    (hframe : frame.Redeclares frame')
    (hsame : e.sourceType catalog = e'.sourceType catalog → frame' = frame) :
    Inserts catalog (frame.fill e) (frame'.fill e') := by
  cases h with
  | @mk place place' x y chain redeclares types =>
    refine @Inserts.mk catalog (frame :: place) (frame' :: place') x y chain (.cons hframe redeclares)
      fun htypes => ?_
    obtain rfl := types htypes
    rw [hsame (place'.sourceType_fill htypes)]

theorem Inserts.frame_self (h : Inserts catalog e e') (frame : Frame) :
    Inserts catalog (frame.fill e) (frame.fill e') :=
  h.frame (.refl frame) fun _ => rfl

/-- The name that a member or a method of an expression is declared on. -/
def declaringName (catalog : Catalog) (e : Expr) : String :=
  (e.sourceType catalog).declaringName

/-- A member of a chain is a member of the chain with `Value`, too. -/
theorem Inserts.member (h : Inserts catalog e e') (name : String) :
    Inserts catalog (.member e (e.declaringName catalog) name)
      (.member e' (e'.declaringName catalog) name) := by
  cases h with
  | @mk place place' x y chain redeclares types =>
    cases redeclares with
    | nil => exact (chain.member).inserts
    | cons hframe hrest =>
      refine (Inserts.mk chain (.cons hframe hrest) types).frame (.owner _ _ name) fun htypes => ?_
      rw [declaringName, declaringName, htypes]

theorem Inserts.convert (h : Inserts catalog e e') :
    Inserts catalog (.unary .convert e) (.unary .convert e') := by
  cases h with
  | @mk place place' x y chain redeclares types =>
    cases redeclares with
    | nil => exact chain.convert.inserts
    | cons hframe hrest =>
      exact (Inserts.mk chain (.cons hframe hrest) types).frame_self (.operandOf .convert)

/-! ### Trees between two places -/

/-- The trees that are parsed from one place to another. If the gap lies between the places, one has
the insertion; else they are the same. -/
inductive Fit (catalog : Catalog) : Bool → Bool → Expr → Expr → Prop
  | same (passed : Bool) (e : Expr) : Fit catalog passed passed e e
  | inserted {e e' : Expr} (h : Inserts catalog e e') : Fit catalog false true e e'

/-- The lists of trees that are parsed from one place to another. -/
inductive FitAll (catalog : Catalog) : Bool → Bool → List Expr → List Expr → Prop
  | same (passed : Bool) (es : List Expr) : FitAll catalog passed passed es es
  | inserted {e e' : Expr} (before after : List Expr) (h : Inserts catalog e e') :
    FitAll catalog false true (before ++ e :: after) (before ++ e' :: after)

variable {p q r : Bool} {es es' : List Expr}

theorem FitAll.cons (h : Fit catalog p q e e') (hs : FitAll catalog q r es es') :
    FitAll catalog p r (e :: es) (e' :: es') := by
  cases h with
  | same =>
    cases hs with
    | same => exact .same _ _
    | inserted before after h => exact .inserted (e :: before) after h
  | inserted h =>
    cases hs with
    | same => exact .inserted [] es h

namespace Fit

theorem unary (op : UnaryOp) (h : Fit catalog p q e e') :
    Fit catalog p q (.unary op e) (.unary op e') := by
  cases h with
  | same => exact .same _ _
  | inserted h =>
    cases op with
    | convert => exact .inserted h.convert
    | _ => exact .inserted (h.frame_self (.operandOf _))

theorem binary (op : BinaryOp) (h : Fit catalog p q e e') (h' : Fit catalog q r f f') :
    Fit catalog p r (.binary op e f) (.binary op e' f') := by
  cases h with
  | same =>
    cases h' with
    | same => exact .same _ _
    | inserted h => exact .inserted (h.frame_self (.rightOf op e))
  | inserted h =>
    cases h' with
    | same => exact .inserted (h.frame_self (.leftOf op f))

theorem conditional {k : Bool} {g g' : Expr} (h : Fit catalog p q e e') (h' : Fit catalog q r f f')
    (h'' : Fit catalog r k g g') : Fit catalog p k (.conditional e f g) (.conditional e' f' g') := by
  cases h with
  | inserted h =>
    cases h' with
    | same =>
      cases h'' with
      | same => exact .inserted (h.frame_self (.testOf f g))
  | same =>
    cases h' with
    | inserted h =>
      cases h'' with
      | same => exact .inserted (h.frame_self (.ifTrueOf e g))
    | same =>
      cases h'' with
      | same => exact .same _ _
      | inserted h => exact .inserted (h.frame_self (.ifFalseOf e f))

theorem member (h : Fit catalog p q e e') (name : String) :
    Fit catalog p q (.member e (e.declaringName catalog) name)
      (.member e' (e'.declaringName catalog) name) := by
  cases h with
  | same => exact .same _ _
  | inserted h => exact .inserted (h.member name)

theorem call (name : String) (h : Fit catalog p q e e') (hs : FitAll catalog q r es es') :
    Fit catalog p r (.call e ⟨.ofName (e.declaringName catalog), name⟩ es)
      (.call e' ⟨.ofName (e'.declaringName catalog), name⟩ es') := by
  cases h with
  | same =>
    cases hs with
    | same => exact .same _ _
    | inserted before after h => exact .inserted (h.frame_self (.argOf e _ before after))
  | inserted h =>
    cases hs with
    | same =>
      refine .inserted (h.frame (.target _ _ name es) fun htypes => ?_)
      rw [declaringName, declaringName, htypes]

theorem staticCall (method : Method) (hs : FitAll catalog p q es es') :
    Fit catalog p q (.staticCall method es) (.staticCall method es') := by
  cases hs with
  | same => exact .same _ _
  | inserted before after h => exact .inserted (h.frame_self (.staticArgOf method before after))

theorem new (type : String) (hs : FitAll catalog p q es es') :
    Fit catalog p q (.new type es) (.new type es') := by
  cases hs with
  | same => exact .same _ _
  | inserted before after h => exact .inserted (h.frame_self (.newArgOf type before after))

theorem array (type : ValueType) (hs : FitAll catalog p q es es') :
    Fit catalog p q (.array type es) (.array type es') := by
  cases hs with
  | same => exact .same _ _
  | inserted before after h => exact .inserted (h.frame_self (.itemOf type before after))

/-- An array whose items tell its type. -/
theorem array_elementType {g : Grammar} (hs : FitAll g.catalog p q es es') :
    Fit g.catalog p q (.array (g.elementType es) es) (.array (g.elementType es') es') := by
  cases hs with
  | same => exact .same _ _
  | @inserted e e' before after h =>
    refine .inserted (h.frame (.item _ _ before after) fun htypes => ?_)
    have hmap : (before ++ e :: after).map (·.sourceType g.catalog) =
        (before ++ e' :: after).map (·.sourceType g.catalog) := by
      rw [List.map_append, List.map_append, List.map_cons, List.map_cons, htypes]
    rw [Grammar.elementType, Grammar.elementType, hmap]

end Fit

end Expr

end PredicateSql
