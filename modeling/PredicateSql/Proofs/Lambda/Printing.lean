import PredicateSql.Expr.Printer
import PredicateSql.Proofs.Lambda.Pieces

/-!
# Tokens of printed trees

* `Expr.ReadsBack`: every part of a tree is printed as the parser reads it.
* `Expr.IsPrinted`: the text of a tree has the tokens that the tree is spelled with.
* `Expr.isLexedAs_separated`, `Expr.isLexedAs_enclosed`: lists of printed trees.
* `Expr.isPrinted_binary` and so on: each kind of node. `Expr.isPrinted`: every tree that reads back
  is printed.
-/

namespace PredicateSql

open Text.Utf8 (encode encode_append)
open Grammar (Names NamesNew Spells IsSeparated IsEnclosed)

/-! ### Lists -/

namespace Expr

variable {params : List Param} {e : Expr}

/-- The text of a tree has the tokens that the parser reads. It does not start with an equals
sign, so that it may follow `!`. -/
structure IsPrinted (params : List Param) (e : Expr) : Prop where
  leads : Leads isEqualsByte e.render
  lexes : IsLexedAs Ends e.render (Spells params · e)

/-- The tokens of several trees. -/
def SpellsAll (params : List Param) (es : List Expr)
    (Between : List (List Token) → List Token → Prop) (ts : List Token) : Prop :=
  ∃ parts : List (List Token × Expr), parts.map (·.2) = es ∧
    (∀ part ∈ parts, Spells params part.1 part.2) ∧ Between (parts.map (·.1)) ts

/-- A mark after a printed tree. -/
theorem ends_cons {b : UInt8} (hword : isWordByte b = false) (hpoint : ascii b ≠ '.')
    (v : List UInt8) : Ends (b :: v) := by
  refine ⟨fun d hd => ?_, fun d hd h => ?_⟩
  · obtain rfl := Option.some.inj hd
    exact hword
  · obtain rfl := Option.some.inj hd
    exact absurd h hpoint

theorem isLexedAs_separated {es : List Expr} (hne : es ≠ []) (h : ∀ e ∈ es, e.IsPrinted params) :
    IsLexedAs Ends (", ".intercalate (renderEach es)) (SpellsAll params es IsSeparated) := by
  induction es with
  | nil => exact absurd rfl hne
  | cons e es ih =>
    obtain ⟨he, hes⟩ := List.forall_mem_cons.1 h
    rcases es with _ | ⟨e', es⟩
    · rw [renderEach, renderEach, String.intercalate_singleton]
      refine he.lexes.imp (fun _ => id) fun us hus => ⟨[(us, e)], rfl, ?_, .single⟩
      exact List.forall_mem_singleton.2 hus
    have hcomma : IsLexedAs (fun _ => True) ("," ++ " ") (IsMark .comma) :=
      (isLexedAs_mark rfl (by decide) fun _ => rfl).blank_right fun _ => trivial
    have hfirst : IsLexedAs (fun _ => True) (e.render ++ ", ") fun ts => ∃ us comma,
        ts = us ++ [comma] ∧ Spells params us e ∧ comma.kind = .comma := by
      refine he.lexes.append hcomma (fun v _ => ends_cons (b := 44) rfl (by decide) _) ?_
      rintro us vs hus ⟨comma, rfl, hcomma⟩
      exact ⟨us, comma, rfl, hus, hcomma⟩
    rw [renderEach, renderEach, String.intercalate_cons_cons, ← renderEach]
    refine hfirst.append (ih nofun hes) (fun _ _ => trivial) ?_
    rintro us vs ⟨us, comma, rfl, hus, hcomma⟩ ⟨parts, hparts, hspells, hbetween⟩
    refine ⟨(us, e) :: parts, by rw [List.map_cons, hparts], ?_, ?_⟩
    · exact List.forall_mem_cons.2 ⟨hus, hspells⟩
    · rw [List.append_assoc, List.singleton_append]
      exact .cons hcomma hbetween

/-- Trees between an opening and a closing mark. -/
theorem isLexedAs_enclosed {es : List Expr} (h : ∀ e ∈ es, e.IsPrinted params)
    {o c : String} {opening closing : TokenKind} (ho : IsLexedAs (fun _ => True) o (IsMark opening))
    (hc : IsLexedAs (fun _ => True) c (IsMark closing)) (hends : ∀ v, Ends (encode c ++ v)) :
    IsLexedAs (fun _ => True) (o ++ ", ".intercalate (renderEach es) ++ c)
      (SpellsAll params es (IsEnclosed opening closing)) := by
  by_cases hne : es = []
  · subst hne
    have hnil : o ++ ", ".intercalate (renderEach []) ++ c = o ++ c := by
      rw [renderEach, String.intercalate_nil, String.append_empty]
    rw [hnil]
    refine ho.append hc (fun _ _ => trivial) ?_
    rintro us vs ⟨t, rfl, ht⟩ ⟨u, rfl, hu⟩
    exact ⟨[], rfl, nofun, .nil ht hu⟩
  · have hopened : IsLexedAs Ends (o ++ ", ".intercalate (renderEach es)) fun ts => ∃ t us,
        ts = t :: us ∧ t.kind = opening ∧ SpellsAll params es IsSeparated us := by
      refine ho.append (isLexedAs_separated hne h) (fun _ _ => trivial) ?_
      rintro us vs ⟨t, rfl, ht⟩ hvs
      exact ⟨t, vs, rfl, ht, hvs⟩
    refine hopened.append hc (fun v _ => hends v) ?_
    rintro us vs ⟨t, us, rfl, ht, parts, hparts, hspells, hbetween⟩ ⟨u, rfl, hu⟩
    exact ⟨parts, hparts, hspells, .items ht hu hbetween⟩

/-- The arguments of a call. -/
theorem isLexedAs_args {es : List Expr} (h : ∀ e ∈ es, e.IsPrinted params) :
    IsLexedAs (fun _ => True) ("(" ++ ", ".intercalate (renderEach es) ++ ")")
      (SpellsAll params es (IsEnclosed .parenLeft .parenRight)) :=
  isLexedAs_enclosed h (isLexedAs_mark rfl (by decide) fun _ => rfl)
    (isLexedAs_mark rfl (by decide) fun _ => rfl) fun v => ends_cons (b := 41) rfl (by decide) v

theorem leads_args {p : UInt8 → Bool} (hp : p 40 = false) (es : List Expr) :
    Leads p ("(" ++ ", ".intercalate (renderEach es) ++ ")") :=
  (Leads.append ⟨_, _, rfl, hp⟩ _).append _

theorem head?_args (es : List Expr) (v : List UInt8) :
    (encode ("(" ++ ", ".intercalate (renderEach es) ++ ")") ++ v).head? = some 40 := by
  rw [encode_append, encode_append]
  rfl

/-! ### Operators -/

/-- A token between blanks. -/
theorem isLexedAs_spaced {text : String} {d : UInt8} {rest : List UInt8} {kind : TokenKind}
    (htext : encode text = d :: rest) (hd : isSpaceByte d = false)
    (hscan : ∀ v, scan d (rest ++ 32 :: v) = .token kind rest.length) :
    IsLexedAs (fun _ => True) (" " ++ text ++ " ") (IsMark kind) := by
  have hmark : IsLexedAs (fun v => ∃ w, v = 32 :: w) text (IsMark kind) := by
    refine isLexedAs_token htext hd ?_ fun _ => ⟨_, rfl, rfl⟩
    rintro v ⟨w, rfl⟩
    exact hscan w
  exact hmark.blank_left.blank_right fun v => ⟨v, rfl⟩

theorem isLexedAs_operator {op : BinaryOp} (hop : op ≠ .index) :
    IsLexedAs (fun _ => True) (" " ++ op.symbol ++ " ")
      fun ts => ∃ t, ts = [t] ∧ binaryOp? t.kind = some op := by
  have hsymbol : ∃ kind, binaryOp? kind = some op ∧
      IsLexedAs (fun _ => True) (" " ++ op.symbol ++ " ") (IsMark kind) := by
    cases op with
    | index => exact absurd rfl hop
    | _ => exact ⟨_, rfl, isLexedAs_spaced rfl (by decide) fun _ => rfl⟩
  obtain ⟨kind, hkind, hlexed⟩ := hsymbol
  refine hlexed.imp (fun _ => id) ?_
  rintro us ⟨t, rfl, rfl⟩
  exact ⟨t, rfl, hkind⟩

/-! ### Trees -/

/-- The node is printed as the parser reads it: nothing that is read before an owner stands before
it, no static call is printed with a parameter in the place of its type, and no constant needs
escapes or an exponent. -/
def NodeReadsBack (params : List Param) : Expr → Prop
  | .member owner _ _ | .binary .index owner _ | .call owner _ _ => owner.isSigned = false
  | .staticCall method _ => params.find? (·.name == method.declaringType.render) = none
  | .constant _ value => value.ReadsBack
  | _ => True

/-- Every part of the tree is printed as the parser reads it. -/
def ReadsBack (params : List Param) (e : Expr) : Prop :=
  ∀ part : Expr, part.IsPartOf e → part.NodeReadsBack params

theorem readsBack_iff : e.ReadsBack params ↔
    e.NodeReadsBack params ∧ ∀ operand ∈ e.operands, operand.ReadsBack params := by
  constructor
  · exact fun h => ⟨h e .self, fun operand hoperand part hpart => h part (.operand hoperand hpart)⟩
  · rintro ⟨hnode, hoperands⟩ part hpart
    obtain rfl | ⟨operand, hoperand, hpart⟩ := isPartOf_iff.1 hpart
    · exact hnode
    · exact hoperands operand hoperand part hpart

/-- A name before a member of it. -/
theorem isLexedAs_static {type name : String} (htype : IsName type) (hname : IsName name) :
    IsLexedAs (Avoids isWordByte) (type ++ ("." ++ name)) fun ts => ∃ t dot u, ts = [t, dot, u] ∧
      Names t type ∧ dot.kind = .dot ∧ Names u name := by
  refine (isLexedAs_name htype).append (isLexedAs_suffix hname)
    (fun v _ => (ends_suffix hname v).word) ?_
  rintro us vs ⟨t, rfl, ht⟩ ⟨dot, u, rfl, hdot, hu⟩
  exact ⟨t, dot, u, rfl, ht, hdot, hu⟩

theorem IsPrinted.staticMember {type name : String} (htype : IsStaticName params type)
    (hname : IsName name) : (staticMember type name).IsPrinted params := by
  constructor
  · rw [render]
    exact ((htype.isName.leads fun _ => isEqualsByte_of_isWordStart).append _).append _
  · rw [render, String.append_assoc]
    refine (isLexedAs_static htype.isName hname).imp (fun _ hv => hv.word) ?_
    rintro us ⟨t, dot, u, rfl, ht, hdot, hu⟩
    exact .staticMember ht hdot hu htype.isTypeName htype.find?_eq

/-- The name that a declaring type is printed under stands for it. -/
theorem render_ofName {params : List Param} {type : String} (h : IsStaticName params type) :
    IsName (DeclaringType.ofName type).render ∧
      Grammar.isTypeName (DeclaringType.ofName type).render = true ∧
      DeclaringType.ofName (DeclaringType.ofName type).render = DeclaringType.ofName type := by
  cases heq : DeclaringType.ofName type with
  | other name =>
    obtain rfl : name = type := by
      unfold DeclaringType.ofName at heq
      split at heq <;> cases heq
      rfl
    exact ⟨h.isName, h.isTypeName, heq⟩
  | _ => exact ⟨⟨_, _, rfl, by decide⟩, rfl, rfl⟩

theorem isPrinted_staticCall {method : Method} {args : List Expr}
    (hnode : (staticCall method args).NodeIsNamed params)
    (hback : (staticCall method args).NodeReadsBack params)
    (hargs : ∀ arg ∈ args, arg.IsPrinted params) : (staticCall method args).IsPrinted params := by
  obtain ⟨declaringType, name⟩ := method
  obtain ⟨⟨type, htype, rfl⟩, hname⟩ := hnode
  obtain ⟨hprinted, hisType, hrender⟩ := render_ofName htype
  have hrendered : (staticCall ⟨.ofName type, name⟩ args).render =
      (DeclaringType.ofName type).render ++ ("." ++ name) ++
        ("(" ++ ", ".intercalate (renderEach args) ++ ")") := by
    simp only [render, Method.render, String.append_assoc]
  refine ⟨?_, ?_⟩ <;> rw [hrendered]
  · exact ((hprinted.leads fun _ => isEqualsByte_of_isWordStart).append _).append _
  · refine ((isLexedAs_static hprinted hname).append (isLexedAs_args hargs)
      (fun v _ => (leads_args rfl args).avoids v) ?_).imp (fun _ _ => trivial) fun _ => id
    rintro us vs ⟨t, dot, u, rfl, ht, hdot, hu⟩ ⟨parts, rfl, hspells, hbetween⟩
    exact .staticCall ht hdot hu hisType hback hrender hspells hbetween

theorem isPrinted_new {type : String} {args : List Expr} (htype : IsNewName type)
    (hargs : ∀ arg ∈ args, arg.IsPrinted params) : (new type args).IsPrinted params := by
  have hrendered : (new type args).render =
      "new" ++ " " ++ type ++ ("(" ++ ", ".intercalate (renderEach args) ++ ")") := by
    simp only [render, String.append_assoc]
    rfl
  have hkeyword : IsLexedAs (fun _ => True) ("new" ++ " ") (IsMark .new) := by
    refine (isLexedAs_keyword rfl (by decide) (List.all_eq_true.1 rfl) rfl).append isLexedAs_blank
      (fun v _ => Leads.avoids ⟨_, _, rfl, rfl⟩ v) ?_
    rintro us vs ⟨t, rfl, ht⟩ rfl
    exact ⟨t, rfl, ht⟩
  have htyped : IsLexedAs (fun v => v.head? = some 40) ("new" ++ " " ++ type)
      fun ts => ∃ t us, ts = t :: us ∧ t.kind = .new ∧ NamesNew us type := by
    refine hkeyword.append (isLexedAs_newName htype) (fun _ _ => trivial) ?_
    rintro us vs ⟨t, rfl, ht⟩ hvs
    exact ⟨t, vs, rfl, ht, hvs⟩
  refine ⟨?_, ?_⟩ <;> rw [hrendered]
  · exact ((Leads.append ⟨_, _, rfl, rfl⟩ _).append _).append _
  · refine (htyped.append (isLexedAs_args hargs) (fun v _ => head?_args args v) ?_).imp
      (fun _ _ => trivial) fun _ => id
    rintro us vs ⟨t, us, rfl, ht, hus⟩ ⟨parts, rfl, hspells, hbetween⟩
    exact .new ht hus hspells hbetween

theorem isPrinted_array {type : ValueType} {items : List Expr}
    (hitems : ∀ item ∈ items, item.IsPrinted params) : (array type items).IsPrinted params := by
  have hrendered : (array type items).render = "new" ++ ("[]" ++ " ") ++
      (("\x7b" ++ " ") ++ ", ".intercalate (renderEach items) ++ (" " ++ "\x7d")) := by
    simp only [render, String.append_assoc]
    rfl
  have hopening : IsLexedAs (fun _ => True) ("\x7b" ++ " ") (IsMark .braceLeft) :=
    (isLexedAs_mark rfl (by decide) fun _ => rfl).blank_right fun _ => trivial
  have hclosing : IsLexedAs (fun _ => True) (" " ++ "\x7d") (IsMark .braceRight) :=
    (isLexedAs_mark rfl (by decide) fun _ => rfl).blank_left
  have htyped : IsLexedAs (fun _ => True) ("new" ++ ("[]" ++ " ")) fun ts =>
      ∃ t opening closing : Token, ts = [t, opening, closing] ∧ t.kind = .new ∧
        opening.kind = .bracketLeft ∧ closing.kind = .bracketRight := by
    refine (isLexedAs_keyword rfl (by decide) (List.all_eq_true.1 rfl) rfl).append
      (isLexedAs_brackets.blank_right fun _ => trivial)
      (fun v _ => Leads.avoids ⟨_, _, rfl, rfl⟩ v) ?_
    rintro us vs ⟨t, rfl, ht⟩ ⟨opening, closing, rfl, hopening, hclosing⟩
    exact ⟨t, opening, closing, rfl, ht, hopening, hclosing⟩
  refine ⟨?_, ?_⟩ <;> rw [hrendered]
  · exact (Leads.append ⟨_, _, rfl, rfl⟩ _).append _
  · refine (htyped.append (isLexedAs_enclosed hitems hopening hclosing
      fun v => ends_cons (b := 32) rfl (by decide) _) (fun _ _ => trivial) ?_).imp
      (fun _ _ => trivial) fun _ => id
    rintro us vs ⟨t, opening, closing, rfl, ht, hopening, hclosing⟩ ⟨parts, rfl, hspells, hbetween⟩
    exact .array ht hopening hclosing hspells hbetween

theorem isPrinted_unary {op : UnaryOp} {operand : Expr} (h : operand.IsPrinted params) :
    (unary op operand).IsPrinted params := by
  cases op with
  | convert => exact ⟨by rw [render]; exact h.leads, by
      rw [render]; exact h.lexes.imp (fun _ => id) fun _ => .convert⟩
  | not =>
    refine ⟨?_, ?_⟩ <;> rw [render]
    · exact Leads.append ⟨_, _, rfl, rfl⟩ _
    · refine (isLexedAs_shorter rfl (by decide) fun _ => rfl).append h.lexes
        (fun v _ => h.leads.avoids v) ?_
      rintro us vs ⟨t, rfl, ht⟩ hvs
      exact .not ht hvs
  | negate =>
    refine ⟨?_, ?_⟩ <;> rw [render]
    · exact Leads.append ⟨_, _, rfl, rfl⟩ _
    · refine (isLexedAs_mark rfl (by decide) fun _ => rfl).append h.lexes (fun _ _ => trivial) ?_
      rintro us vs ⟨t, rfl, ht⟩ hvs
      exact .negate ht hvs

/-- An operand after an opening parenthesis. -/
theorem isLexedAs_opened (h : e.IsPrinted params) : IsLexedAs Ends ("(" ++ e.render)
    fun ts => ∃ opening us, ts = opening :: us ∧ opening.kind = .parenLeft ∧
      Spells params us e := by
  refine (isLexedAs_mark rfl (by decide) fun _ => rfl).append h.lexes (fun _ _ => trivial) ?_
  rintro us vs ⟨opening, rfl, hopening⟩ hvs
  exact ⟨opening, vs, rfl, hopening, hvs⟩

/-- An operand before a closing mark. -/
theorem isLexedAs_closed (h : e.IsPrinted params) {text : String} {d : UInt8} {kind : TokenKind}
    (htext : encode text = [d]) (hd : isSpaceByte d = false) (hword : isWordByte d = false)
    (hpoint : ascii d ≠ '.') (hscan : ∀ v, scan d v = .token kind 0) :
    IsLexedAs (fun _ => True) (e.render ++ text) fun ts => ∃ us closing, ts = us ++ [closing] ∧
      Spells params us e ∧ closing.kind = kind := by
  refine h.lexes.append (isLexedAs_mark htext hd hscan) (fun v _ => ?_) ?_
  · rw [htext]
    exact ends_cons hword hpoint v
  · rintro us vs hus ⟨closing, rfl, hclosing⟩
    exact ⟨us, closing, rfl, hus, hclosing⟩

theorem isPrinted_binary {op : BinaryOp} {left right : Expr} (hop : op ≠ .index)
    (hleft : left.IsPrinted params) (hright : right.IsPrinted params) :
    (binary op left right).IsPrinted params := by
  have hrendered : (binary op left right).render =
      "(" ++ left.render ++ (" " ++ op.symbol ++ " ") ++ (right.render ++ ")") := by
    cases op with
    | index => exact absurd rfl hop
    | _ => simp only [render, String.append_assoc]
  have hopened : IsLexedAs (fun _ => True) ("(" ++ left.render ++ (" " ++ op.symbol ++ " "))
      fun ts => ∃ opening us t, ts = opening :: (us ++ [t]) ∧ opening.kind = .parenLeft ∧
        Spells params us left ∧ binaryOp? t.kind = some op := by
    refine (isLexedAs_opened hleft).append (isLexedAs_operator hop)
      (fun v _ => ends_cons (b := 32) rfl (by decide) _) ?_
    rintro us vs ⟨opening, us, rfl, hopening, hus⟩ ⟨t, rfl, ht⟩
    exact ⟨opening, us, t, rfl, hopening, hus, ht⟩
  refine ⟨?_, ?_⟩ <;> rw [hrendered]
  · exact ((Leads.append ⟨_, _, rfl, rfl⟩ _).append _).append _
  · refine (hopened.append (isLexedAs_closed hright rfl (by decide) (by decide) (by decide)
      fun _ => rfl) (fun _ _ => trivial) ?_).imp (fun _ _ => trivial) fun _ => id
    rintro us vs ⟨opening, us, t, rfl, hopening, hus, ht⟩ ⟨vs, closing, rfl, hvs, hclosing⟩
    have hspells := Spells.binary hopening hus ht hvs hclosing
    simpa using hspells

theorem isPrinted_index {left right : Expr} (howner : left.isSigned = false)
    (hleft : left.IsPrinted params) (hright : right.IsPrinted params) :
    (binary .index left right).IsPrinted params := by
  have hrendered : (binary .index left right).render =
      left.render ++ "[" ++ (right.render ++ "]") := by
    simp only [render, String.append_assoc]
  refine ⟨?_, ?_⟩ <;> rw [hrendered]
  · exact (hleft.leads.append _).append _
  · refine ((isLexedAs_closed hleft rfl (by decide) (by decide) (by decide) fun _ => rfl).append
      (isLexedAs_closed hright rfl (by decide) (by decide) (by decide) fun _ => rfl)
      (fun _ _ => trivial) ?_).imp (fun _ _ => trivial) fun _ => id
    rintro us vs ⟨us, opening, rfl, hus, hopening⟩ ⟨vs, closing, rfl, hvs, hclosing⟩
    rw [List.append_assoc]
    exact .index hus howner hopening hvs hclosing

theorem isPrinted_conditional {test ifTrue ifFalse : Expr} (htest : test.IsPrinted params)
    (hifTrue : ifTrue.IsPrinted params) (hifFalse : ifFalse.IsPrinted params) :
    (conditional test ifTrue ifFalse).IsPrinted params := by
  have hrendered : (conditional test ifTrue ifFalse).render = "(" ++ test.render ++
      (" " ++ "?" ++ " ") ++ (ifTrue.render ++ (" " ++ ":" ++ " ")) ++ (ifFalse.render ++ ")") := by
    simp only [render, String.append_assoc]
    rfl
  have hmiddle : IsLexedAs (fun _ => True) (ifTrue.render ++ (" " ++ ":" ++ " ")) fun ts =>
      ∃ us colon, ts = us ++ [colon] ∧ Spells params us ifTrue ∧ colon.kind = .colon := by
    refine hifTrue.lexes.append (isLexedAs_spaced rfl (by decide) fun _ => rfl)
      (fun v _ => ends_cons (b := 32) rfl (by decide) _) ?_
    rintro us vs hus ⟨colon, rfl, hcolon⟩
    exact ⟨us, colon, rfl, hus, hcolon⟩
  have hopened : IsLexedAs (fun _ => True) ("(" ++ test.render ++ (" " ++ "?" ++ " ")) fun ts =>
      ∃ opening us question, ts = opening :: (us ++ [question]) ∧ opening.kind = .parenLeft ∧
        Spells params us test ∧ question.kind = .question := by
    refine (isLexedAs_opened htest).append (isLexedAs_spaced rfl (by decide) fun _ => rfl)
      (fun v _ => ends_cons (b := 32) rfl (by decide) _) ?_
    rintro us vs ⟨opening, us, rfl, hopening, hus⟩ ⟨question, rfl, hquestion⟩
    exact ⟨opening, us, question, rfl, hopening, hus, hquestion⟩
  have hbranch : IsLexedAs (fun _ => True) ("(" ++ test.render ++ (" " ++ "?" ++ " ") ++
      (ifTrue.render ++ (" " ++ ":" ++ " "))) fun ts => ∃ opening us question vs colon,
        ts = opening :: (us ++ question :: (vs ++ [colon])) ∧ opening.kind = .parenLeft ∧
        Spells params us test ∧ question.kind = .question ∧ Spells params vs ifTrue ∧
        colon.kind = .colon := by
    refine hopened.append hmiddle (fun _ _ => trivial) ?_
    rintro us vs ⟨opening, us, question, rfl, hopening, hus, hquestion⟩
      ⟨vs, colon, rfl, hvs, hcolon⟩
    exact ⟨opening, us, question, vs, colon, by simp, hopening, hus, hquestion, hvs, hcolon⟩
  refine ⟨?_, ?_⟩ <;> rw [hrendered]
  · exact (((Leads.append ⟨_, _, rfl, rfl⟩ _).append _).append _).append _
  · refine (hbranch.append (isLexedAs_closed hifFalse rfl (by decide) (by decide) (by decide)
      fun _ => rfl) (fun _ _ => trivial) ?_).imp (fun _ _ => trivial) fun _ => id
    rintro us vs ⟨opening, us, question, vs, colon, rfl, hopening, hus, hquestion, hvs, hcolon⟩
      ⟨ws, closing, rfl, hws, hclosing⟩
    have hspells := Spells.conditional hopening hus hquestion hvs hcolon hws hclosing
    simpa using hspells

theorem isPrinted_member {owner : Expr} {type name : String} (howner : owner.isSigned = false)
    (hname : IsName name) (h : owner.IsPrinted params) :
    (member owner type name).IsPrinted params := by
  have hrendered : (member owner type name).render = owner.render ++ ("." ++ name) := by
    rw [render, String.append_assoc]
  refine ⟨?_, ?_⟩ <;> rw [hrendered]
  · exact h.leads.append _
  · refine (h.lexes.append (isLexedAs_suffix hname) (fun v _ => ends_suffix hname v) ?_).imp
      (fun _ hv => hv.word) fun _ => id
    rintro us vs hus ⟨dot, u, rfl, hdot, hu⟩
    exact .member hus howner hdot hu

theorem isPrinted_call {target : Expr} {method : Method} {args : List Expr}
    (htarget : target.isSigned = false) (hname : IsName method.name)
    (h : target.IsPrinted params) (hargs : ∀ arg ∈ args, arg.IsPrinted params) :
    (call target method args).IsPrinted params := by
  have hrendered : (call target method args).render = target.render ++ ("." ++ method.name) ++
      ("(" ++ ", ".intercalate (renderEach args) ++ ")") := by
    simp only [render, String.append_assoc]
  have hsuffixed : IsLexedAs (Avoids isWordByte) (target.render ++ ("." ++ method.name)) fun ts =>
      ∃ us dot u, ts = us ++ [dot, u] ∧ Spells params us target ∧ dot.kind = .dot ∧
        Names u method.name := by
    refine h.lexes.append (isLexedAs_suffix hname) (fun v _ => ends_suffix hname v) ?_
    rintro us vs hus ⟨dot, u, rfl, hdot, hu⟩
    exact ⟨us, dot, u, rfl, hus, hdot, hu⟩
  refine ⟨?_, ?_⟩ <;> rw [hrendered]
  · exact (h.leads.append _).append _
  · refine (hsuffixed.append (isLexedAs_args hargs) (fun v _ => (leads_args rfl args).avoids v)
      ?_).imp (fun _ _ => trivial) fun _ => id
    rintro us vs ⟨us, dot, u, rfl, hus, hdot, hu⟩ ⟨parts, rfl, hspells, hbetween⟩
    rw [List.append_assoc]
    exact .call hus htarget hdot hu hspells hbetween

/-- The text of a tree that reads back has the tokens that the tree is read from. -/
theorem isPrinted {e : Expr} (hnamed : e.IsNamed params) (h : e.ReadsBack params) :
    e.IsPrinted params := by
  induction e using induction_operands with
  | _ e ih =>
    obtain ⟨hback, hreads⟩ := readsBack_iff.1 h
    have hnode := hnamed e .self
    have hoperands : ∀ operand ∈ e.operands, operand.IsPrinted params := fun operand hoperand =>
      ih operand hoperand (fun part hpart => hnamed part (.operand hoperand hpart))
        (hreads operand hoperand)
    cases e with
    | constant type value =>
      obtain ⟨hleads, hlexes⟩ := isLexedAs_value hnode hback
      refine ⟨hleads, hlexes.imp (fun _ => id) ?_⟩
      rintro us ⟨t, rfl, ht⟩
      exact .constant ht
    | param name model =>
      obtain ⟨hname, hfind⟩ := hnode
      refine ⟨hname.leads fun b => isEqualsByte_of_isWordStart, ?_⟩
      refine (isLexedAs_name hname).imp (fun _ hv => hv.word) ?_
      rintro us ⟨t, rfl, ht⟩
      exact .param ht hfind
    | staticMember type name => exact .staticMember hnode.1 hnode.2
    | staticCall method args => exact isPrinted_staticCall hnode hback hoperands
    | new type args => exact isPrinted_new hnode hoperands
    | array type items => exact isPrinted_array hoperands
    | unary op operand => exact isPrinted_unary (hoperands operand List.mem_cons_self)
    | binary op left right =>
      have hleft := hoperands left List.mem_cons_self
      have hright := hoperands right (List.mem_cons_of_mem _ List.mem_cons_self)
      by_cases hop : op = .index
      · subst hop
        exact isPrinted_index hback hleft hright
      · exact isPrinted_binary hop hleft hright
    | conditional test ifTrue ifFalse =>
      simp only [operands, List.forall_mem_cons] at hoperands
      exact isPrinted_conditional hoperands.1 hoperands.2.1 hoperands.2.2.1
    | member owner type name =>
      exact isPrinted_member hback hnode (hoperands owner List.mem_cons_self)
    | call target method args =>
      obtain ⟨htarget, hargs⟩ := List.forall_mem_cons.1 hoperands
      exact isPrinted_call hback hnode htarget hargs
    | lambda params body => exact hnode.elim

end Expr

end PredicateSql
