import PredicateSql.Proofs.Expr.Skeleton
import PredicateSql.Proofs.Lambda.Gap

/-!
# The tokens of printed trees

* `Grammar.IsLiteral`, `Grammar.IsEnclosed`, `Grammar.NamesNew`: the tokens of literals, of items
  between brackets, and of types after `new`.
* `Grammar.Spells`: the tokens that a printed tree is made of, if it can be read back: no operator
  stands before the owner of a suffix, and no type is named like a parameter.
* `Grammar.Spells.exists_head`, `Grammar.Spells.run_cast`: how such tokens begin.
-/

namespace PredicateSql

namespace Grammar

variable {g : Grammar} {e : Expr} {ts us s : List Token} {t : Token}

/-! ### The tokens of a printed tree -/

/-- The token of a literal. -/
inductive IsLiteral (t : Token) : Value → Prop
  | null (hkind : t.kind = .null) : IsLiteral t .null
  | true (hkind : t.kind = .true) : IsLiteral t (.bool true)
  | false (hkind : t.kind = .false) : IsLiteral t (.bool false)
  | string {text : List Char} (hkind : t.kind = .string)
    (hread : unescape? t.text.toList = some text) : IsLiteral t (.string (.ofList text))
  | number {type : ValueType} {value : Value} (hkind : t.kind = .number)
    (hread : number? t.text.toList = some (.constant type value)) : IsLiteral t value

/-- The token of a name. -/
structure Names (t : Token) (name : String) : Prop where
  kind : t.kind = .identifier
  text : t.text = name

/-- The tokens of items, with commas between them. -/
inductive IsSeparated : List (List Token) → List Token → Prop
  | single {ts : List Token} : IsSeparated [ts] ts
  | cons {ts us : List Token} {parts : List (List Token)} {comma : Token}
    (hcomma : comma.kind = .comma) (h : IsSeparated parts us) :
    IsSeparated (ts :: parts) (ts ++ comma :: us)

/-- The tokens of the first item come first. -/
theorem IsSeparated.exists_append {parts : List (List Token)} (h : IsSeparated parts us) :
    ∃ first rest more, parts = first :: rest ∧ us = first ++ more := by
  cases h with
  | single => exact ⟨us, [], [], rfl, (List.append_nil us).symm⟩
  | cons => exact ⟨_, _, _, rfl, rfl⟩

/-- The tokens of items between two others. -/
inductive IsEnclosed (opening closing : TokenKind) : List (List Token) → List Token → Prop
  | nil {o c : Token} (ho : o.kind = opening) (hc : c.kind = closing) :
    IsEnclosed opening closing [] [o, c]
  | items {o c : Token} {parts : List (List Token)} {us : List Token} (ho : o.kind = opening)
    (hc : c.kind = closing) (h : IsSeparated parts us) :
    IsEnclosed opening closing parts (o :: (us ++ [c]))

theorem IsEnclosed.exists_head {opening closing : TokenKind} {parts : List (List Token)}
    (h : IsEnclosed opening closing parts us) : ∃ o rest, us = o :: rest ∧ o.kind = opening := by
  cases h with
  | nil ho | items ho => exact ⟨_, _, rfl, ho⟩

/-- The tokens of a type name after `new`. -/
inductive NamesNew : List Token → String → Prop
  | word {t : Token} {name : String} (h : Names t name) : NamesNew [t] name
  | generic {t u less greater : Token} {name arg : String} (h : Names t name)
    (hless : less.kind = .less) (harg : Names u arg) (hgreater : greater.kind = .greater) :
    NamesNew [t, less, u, greater] (name ++ "<" ++ arg ++ ">")
  | array {t opening closing : Token} {name : String} (h : Names t name)
    (hopening : opening.kind = .bracketLeft) (hclosing : closing.kind = .bracketRight) :
    NamesNew [t, opening, closing] (name ++ "[]")

/-- The tokens that a printed tree is made of, if it can be read back. Suffixes are attached to an
operand before the operators that stand before it, and names are looked up among the parameters
before they are taken for types. -/
inductive Spells (params : List Param) : List Token → Expr → Prop
  | constant {t : Token} {type : ValueType} {value : Value} (h : IsLiteral t value) :
    Spells params [t] (.constant type value)
  | param {t : Token} {name model : String} (h : Names t name)
    (hfind : params.find? (·.name == name) = some ⟨name, model⟩) :
    Spells params [t] (.param name model)
  | staticMember {t dot u : Token} {type name : String} (h : Names t type)
    (hdot : dot.kind = .dot) (hname : Names u name) (htype : isTypeName type = true)
    (hfind : params.find? (·.name == type) = none) :
    Spells params [t, dot, u] (.staticMember type name)
  | staticCall {t dot u : Token} {type : DeclaringType} {name : String}
    {parts : List (List Token × Expr)} {us : List Token} (h : Names t type.render)
    (hdot : dot.kind = .dot) (hname : Names u name) (htype : isTypeName type.render = true)
    (hfind : params.find? (·.name == type.render) = none)
    (hrender : DeclaringType.ofName type.render = type)
    (hparts : ∀ part ∈ parts, Spells params part.1 part.2)
    (hus : IsEnclosed .parenLeft .parenRight (parts.map (·.1)) us) :
    Spells params (t :: dot :: u :: us) (.staticCall ⟨type, name⟩ (parts.map (·.2)))
  | new {t : Token} {type : String} {ts us : List Token} {parts : List (List Token × Expr)}
    (hkind : t.kind = .new) (htype : NamesNew ts type)
    (hparts : ∀ part ∈ parts, Spells params part.1 part.2)
    (hus : IsEnclosed .parenLeft .parenRight (parts.map (·.1)) us) :
    Spells params (t :: (ts ++ us)) (.new type (parts.map (·.2)))
  | array {t opening closing : Token} {elementType : ValueType} {us : List Token}
    {parts : List (List Token × Expr)} (hkind : t.kind = .new)
    (hopening : opening.kind = .bracketLeft) (hclosing : closing.kind = .bracketRight)
    (hparts : ∀ part ∈ parts, Spells params part.1 part.2)
    (hus : IsEnclosed .braceLeft .braceRight (parts.map (·.1)) us) :
    Spells params (t :: opening :: closing :: us) (.array elementType (parts.map (·.2)))
  | convert {ts : List Token} {e : Expr} (h : Spells params ts e) :
    Spells params ts (.unary .convert e)
  | not {t : Token} {ts : List Token} {e : Expr} (hkind : t.kind = .bang) (h : Spells params ts e) :
    Spells params (t :: ts) (.unary .not e)
  | negate {t : Token} {ts : List Token} {e : Expr} (hkind : t.kind = .minus)
    (h : Spells params ts e) : Spells params (t :: ts) (.unary .negate e)
  | binary {opening t closing : Token} {op : BinaryOp} {ts us : List Token} {left right : Expr}
    (hopening : opening.kind = .parenLeft) (hleft : Spells params ts left)
    (hop : binaryOp? t.kind = some op) (hright : Spells params us right)
    (hclosing : closing.kind = .parenRight) :
    Spells params (opening :: (ts ++ t :: (us ++ [closing]))) (.binary op left right)
  | conditional {opening question colon closing : Token} {ts us vs : List Token}
    {test ifTrue ifFalse : Expr} (hopening : opening.kind = .parenLeft)
    (htest : Spells params ts test) (hquestion : question.kind = .question)
    (hifTrue : Spells params us ifTrue) (hcolon : colon.kind = .colon)
    (hifFalse : Spells params vs ifFalse) (hclosing : closing.kind = .parenRight) :
    Spells params (opening :: (ts ++ question :: (us ++ colon :: (vs ++ [closing]))))
      (.conditional test ifTrue ifFalse)
  | member {dot u : Token} {ts : List Token} {owner : Expr} {type name : String}
    (h : Spells params ts owner) (howner : owner.isSigned = false) (hdot : dot.kind = .dot)
    (hname : Names u name) : Spells params (ts ++ [dot, u]) (.member owner type name)
  | index {opening closing : Token} {ts us : List Token} {owner index : Expr}
    (h : Spells params ts owner) (howner : owner.isSigned = false)
    (hopening : opening.kind = .bracketLeft) (hindex : Spells params us index)
    (hclosing : closing.kind = .bracketRight) :
    Spells params (ts ++ opening :: (us ++ [closing])) (.binary .index owner index)
  | call {dot u : Token} {ts us : List Token} {target : Expr} {method : Method}
    {parts : List (List Token × Expr)} (h : Spells params ts target)
    (htarget : target.isSigned = false) (hdot : dot.kind = .dot) (hname : Names u method.name)
    (hparts : ∀ part ∈ parts, Spells params part.1 part.2)
    (hus : IsEnclosed .parenLeft .parenRight (parts.map (·.1)) us) :
    Spells params (ts ++ dot :: u :: us) (.call target method (parts.map (·.2)))

/-- A printed tree starts with a token that closes nothing. -/
theorem Spells.exists_head {params : List Param} (h : Spells params ts e) :
    ∃ t rest, ts = t :: rest ∧ t.kind ≠ .parenRight ∧ t.kind ≠ .braceRight := by
  have hkind : ∀ {t : Token} {kind : TokenKind} {rest : List Token}, t.kind = kind →
      kind ≠ .parenRight → kind ≠ .braceRight →
      ∃ u more, t :: rest = u :: more ∧ u.kind ≠ .parenRight ∧ u.kind ≠ .braceRight := by
    rintro t kind rest rfl hparen hbrace
    exact ⟨t, rest, rfl, hparen, hbrace⟩
  induction h with
  | constant h => cases h <;> exact hkind ‹_› (by decide) (by decide)
  | param h | staticMember h | staticCall h => exact hkind h.kind (by decide) (by decide)
  | new h | array h | not h | negate h | binary h | conditional h =>
    exact hkind h (by decide) (by decide)
  | convert _ ih => exact ih
  | member _ _ _ _ ih | index _ _ _ _ _ ih | call _ _ _ _ _ _ ih =>
    obtain ⟨t, rest, rfl, hparen, hbrace⟩ := ih
    exact ⟨t, _, rfl, hparen, hbrace⟩

/-- What follows an operand within parentheses: no closing one, not even behind a question mark. -/
def Opens (s : List Token) : Prop :=
  ∃ t rest, s = t :: rest ∧ t.kind ≠ .parenRight ∧
    (t.kind = .question → ∃ u more, rest = u :: more ∧ u.kind ≠ .parenRight)

/-- Only an identifier begins a cast. -/
theorem run_cast_other (ht : t.kind ≠ .identifier) : g.cast.run (t :: s) = .ok (false, t :: s) := by
  have hget : (get : Parser (List Token)).run (t :: s) = .ok (t :: s, t :: s) := rfl
  rw [cast, Parser.run_bind_of_eq hget, Parser.run_bind_of_eq run_next?_cons]
  dsimp only
  rw [if_neg fun h => ht h.1]
  rfl

theorem run_cast_identifier (hs : Opens s) : g.cast.run (t :: s) = .ok (false, t :: s) := by
  obtain ⟨u, rest, rfl, hu, hquestion⟩ := hs
  have hget : (get : Parser (List Token)).run (t :: u :: rest) =
      .ok (t :: u :: rest, t :: u :: rest) := rfl
  rw [cast, Parser.run_bind_of_eq hget, Parser.run_bind_of_eq run_next?_cons]
  dsimp only
  split
  · by_cases hkind : u.kind = .question
    · obtain ⟨v, more, rfl, hv⟩ := hquestion hkind
      rw [Parser.run_bind_of_eq (run_consume_of_eq hkind),
        Parser.run_bind_of_eq (run_consume_of_ne hv)]
      rfl
    · rw [Parser.run_bind_of_eq (run_consume_of_ne hkind),
        Parser.run_bind_of_eq (run_consume_of_ne hu)]
      rfl
  · rfl

theorem opens_of_kind {kind : TokenKind} (ht : t.kind = kind) (hparen : kind ≠ .parenRight)
    (hquestion : kind ≠ .question) : Opens (t :: s) :=
  ⟨t, s, rfl, ht ▸ hparen, fun h => absurd (ht.symm.trans h) hquestion⟩

/-- No cast is read where a printed tree starts that goes on within parentheses. -/
theorem Spells.run_cast {params : List Param} (h : Spells params ts e) (hs : Opens s) :
    g.cast.run (ts ++ s) = .ok (false, ts ++ s) := by
  induction h generalizing s with
  | constant h => cases h <;> exact run_cast_other (by simp [*])
  | new h | array h | not h | negate h | binary h | conditional h =>
    exact run_cast_other (by simp [h])
  | param => exact run_cast_identifier hs
  | staticMember _ hdot | staticCall _ hdot =>
    exact run_cast_identifier (opens_of_kind hdot (by decide) (by decide))
  | convert _ ih => exact ih hs
  | member _ _ hsuffix _ ih | index _ _ hsuffix _ _ ih | call _ _ hsuffix _ _ _ ih =>
    rw [List.append_assoc]
    exact ih (opens_of_kind hsuffix (by decide) (by decide))

end Grammar

end PredicateSql
