import PredicateSql.Proofs.Expr.Parts
import PredicateSql.Proofs.Lambda.Literals

/-!
# The names in parsed lambdas

What the nodes of a parsed lambda hold can be written in a text: the names are words, parameters are
found in scope, and no whole number is negative.

* `IsName`: a word that is no keyword. `Cursor.Lexes.isName`: the identifiers of a text are such
  words.
* `Expr.IsNamed`: every part of a tree holds names like these. `Expr.isNamed_iff`: so do the
  expressions that the tree is made of.
* `Parser.Keeps`: what a computation returns has a property, if the tokens have theirs.
* `Grammar.operand_names`, `Grammar.suffix_names` and so on: what each function of the grammar
  returns is named, if the expressions nested in it are. `isNamed_of_parseLambda`: so is the body of
  a lambda.
-/

namespace PredicateSql

open Text.Utf8 (encode decode encode_ofList decode_encode)

/-! ### Words -/

/-- A word that is no keyword: an identifier that ends where the text does. -/
def IsName (name : String) : Prop :=
  ∃ b rest, encode name = b :: rest ∧ scan b rest = .token .identifier rest.length

/-- Letters, digits and underscores are ASCII characters. -/
theorem toNat_lt_of_isWordByte {b : UInt8} (h : isWordByte b = true) : b.toNat < 128 := by
  rw [← toNat_ascii]
  generalize ascii b = c, hc : ascii b = c at *
  rw [isWordByte, isWordStart, isDigitByte, hc] at h
  unfold Char.isAlpha Char.isUpper Char.isLower Char.isDigit at h
  simp only [Bool.or_eq_true, Bool.and_eq_true, decide_eq_true_eq, beq_iff_eq, ge_iff_le,
    UInt32.le_iff_toNat_le] at h
  change (((65 ≤ c.toNat ∧ c.toNat ≤ 90) ∨ (97 ≤ c.toNat ∧ c.toNat ≤ 122)) ∨ c = '_') ∨
    (48 ≤ c.toNat ∧ c.toNat ≤ 57) at h
  obtain (((⟨-, h⟩ | ⟨-, h⟩) | rfl) | ⟨-, h⟩) := h
  · omega
  · omega
  · decide
  · omega

/-- ASCII bytes are a text. -/
theorem encode_decode {bytes : List UInt8} (h : ∀ b ∈ bytes, b.toNat < 128) :
    encode (decode bytes) = bytes := by
  have htext : encode (.ofList (bytes.map ascii)) = bytes := by
    rw [encode_ofList]
    induction bytes with
    | nil => rfl
    | cons b bytes ih =>
      have hb : b.toNat < 128 := h b List.mem_cons_self
      obtain ⟨d, hd, hascii⟩ := utf8EncodeChar_ascii (c := ascii b) (by rw [toNat_ascii]; exact hb)
      obtain rfl : d = b := UInt8.toNat_inj.1 (by rw [← toNat_ascii, hascii, toNat_ascii])
      rw [List.map_cons, List.flatMap_cons, hd, ih fun d hd => h d (List.mem_cons_of_mem _ hd)]
      rfl
  rw [← htext, decode_encode]

/-- An identifier of a text is a word. -/
theorem isName_of_scan {b : UInt8} {rest : List UInt8} {n place : Nat}
    (h : scan b rest = .token .identifier n) :
    IsName (Token.text ⟨.identifier, place, b :: rest.take n⟩) := by
  have hword := h.symm.trans (scan_eq_word h rest)
  obtain ⟨hkind, rfl⟩ := Scan.token.inj hword
  have htake : rest.take (rest.takeWhile isWordByte).length = rest.takeWhile isWordByte :=
    (List.prefix_iff_eq_take.1 (List.takeWhile_prefix isWordByte)).symm
  have hbytes : ∀ d ∈ b :: rest.takeWhile isWordByte, d.toNat < 128 := by
    intro d hd
    refine toNat_lt_of_isWordByte ?_
    rcases List.mem_cons.1 hd with rfl | hd
    · rw [isWordByte, isWordStart_of_scan h, Bool.true_or]
    · exact List.mem_takeWhile_imp hd
  have htext : Token.text ⟨.identifier, place, b :: rest.takeWhile isWordByte⟩ =
      decode (b :: rest.takeWhile isWordByte) := by
    simp [Token.text, Token.contents, Token.opening, Token.closing]
  have hself : (rest.takeWhile isWordByte).takeWhile isWordByte = rest.takeWhile isWordByte :=
    List.takeWhile_takeWhile isWordByte isWordByte rest ▸ by simp
  refine ⟨b, rest.takeWhile isWordByte, ?_, ?_⟩
  · rw [htake, htext, encode_decode hbytes]
  · rw [scan_eq_word h, hself, ← hkind]

/-- An identifier names something. -/
def Token.HasName (t : Token) : Prop :=
  t.kind = .identifier → IsName t.text

theorem Cursor.Lexes.hasName {c : Cursor} {ts : List Token} {failure : Option LexicalError}
    (h : c.Lexes ts failure) : ∀ t ∈ ts, t.HasName := by
  induction h with
  | done | unexpected | unterminated => nofun
  | token hrest hscan h ih =>
    refine List.forall_mem_cons.2 ⟨?_, ih⟩
    rintro rfl
    exact isName_of_scan hscan

/-! ### Trees -/

/-- A type name after `new`. -/
inductive IsNewName : String → Prop
  | word {name : String} (h : IsName name) : IsNewName name
  | generic {name arg : String} (h : IsName name) (harg : IsName arg) :
    IsNewName (name ++ "<" ++ arg ++ ">")
  | array {name : String} (h : IsName name) : IsNewName (name ++ "[]")

/-- A type that members are taken of, and that no parameter has the name of. -/
structure IsStaticName (params : List Param) (name : String) : Prop where
  isName : IsName name
  isTypeName : Grammar.isTypeName name = true
  find?_eq : params.find? (·.name == name) = none

/-- A value that literals stand for, but for the texts of strings and floats. -/
def Value.IsSource : Value → Prop
  | .null | .bool _ | .float _ | .string _ => True
  | .int i => 0 ≤ i.toInt
  | _ => False

namespace Expr

/-- What a node holds can be written in a text with these parameters in scope. -/
def NodeIsNamed (params : List Param) : Expr → Prop
  | .member _ _ name => IsName name
  | .staticMember type name => IsStaticName params type ∧ IsName name
  | .constant _ value => value.IsSource
  | .param name model => IsName name ∧ params.find? (·.name == name) = some ⟨name, model⟩
  | .call _ method _ => IsName method.name
  | .staticCall method _ =>
    (∃ type, IsStaticName params type ∧ method.declaringType = .ofName type) ∧ IsName method.name
  | .new type _ => IsNewName type
  | .lambda .. => False
  | _ => True

/-- What any part of the tree holds can be written in a text. -/
def IsNamed (params : List Param) (e : Expr) : Prop :=
  ∀ part : Expr, part.IsPartOf e → part.NodeIsNamed params

variable {params : List Param} {e : Expr}

theorem isNamed_iff : e.IsNamed params ↔
    e.NodeIsNamed params ∧ ∀ operand ∈ e.operands, operand.IsNamed params := by
  constructor
  · exact fun h => ⟨h e .self, fun operand hoperand part hpart => h part (.operand hoperand hpart)⟩
  · rintro ⟨hnode, hoperands⟩ part hpart
    rcases isPartOf_iff.1 hpart with rfl | ⟨operand, hoperand, hpart⟩
    · exact hnode
    · exact hoperands operand hoperand part hpart

end Expr

/-! ### Computations on tokens -/

namespace Parser

variable {α β : Type} {I : Token → Prop} {P : α → Prop} {Q : β → Prop}

/-- From tokens with a property, the computation returns something that satisfies `P`, and leaves
tokens with that property. -/
def Keeps (I : Token → Prop) (P : α → Prop) (m : Parser α) : Prop :=
  ∀ s a t, (∀ x ∈ s, I x) → m.run s = .ok (a, t) → P a ∧ ∀ x ∈ t, I x

namespace Keeps

theorem pure {a : α} (h : P a) : Keeps I P (Pure.pure a) := by
  intro s a' t hs ha
  obtain ⟨rfl, rfl⟩ := Prod.mk.inj (Except.ok.inj ha)
  exact ⟨h, hs⟩

theorem throw {e : ParseError} : Keeps I P (MonadExcept.throw e) :=
  nofun

theorem bind {m : Parser α} {f : α → Parser β} (hm : Keeps I P m)
    (hf : ∀ a, P a → Keeps I Q (f a)) : Keeps I Q (m >>= f) := by
  intro s b u hs hb
  obtain ⟨a, t, ha, hb⟩ := run_bind_eq_ok.1 hb
  obtain ⟨hP, ht⟩ := hm s a t hs ha
  exact hf a hP t b u ht hb

theorem ite {c : Prop} [Decidable c] {m n : Parser α} (hm : c → Keeps I P m)
    (hn : ¬ c → Keeps I P n) : Keeps I P (if c then m else n) := by
  split
  · exact hm ‹_›
  · exact hn ‹_›

/-- A computation that fails where a condition holds. -/
theorem guard {c : Prop} [Decidable c] {e : ParseError} {f : α → Parser β} {m : Parser β}
    (hm : ¬ c → Keeps I Q m) :
    Keeps I Q (if c then (MonadExcept.throw e : Parser α) >>= f else m) :=
  ite (fun _ => nofun) hm

theorem get : Keeps I (fun s => ∀ x ∈ s, I x) MonadState.get := by
  intro s a t hs ha
  obtain ⟨rfl, rfl⟩ := Prod.mk.inj (Except.ok.inj ha)
  exact ⟨hs, hs⟩

theorem set {s : List Token} (h : ∀ x ∈ s, I x) : Keeps I (fun _ => True) (MonadStateOf.set s) := by
  intro u a t hu ha
  obtain ⟨-, rfl⟩ := Prod.mk.inj (Except.ok.inj ha)
  exact ⟨trivial, h⟩

end Keeps

end Parser

namespace Grammar

open PredicateSql.Parser (Keeps)
open PredicateSql.Expr (isNamed_iff)

variable {g : Grammar} {I : Token → Prop} {sub : Nat → Parser Expr} {kind : TokenKind}
  {what : String}

/-! ### Single tokens -/

theorem next?_keeps : g.next?.Keeps I fun o => ∀ t ∈ o, I t := by
  intro s o t hs ho
  cases s with
  | nil =>
    rw [next?] at ho
    cases hfailure : g.failure with
    | none =>
      rw [hfailure] at ho
      obtain ⟨rfl, rfl⟩ := Prod.mk.inj (Except.ok.inj ho)
      exact ⟨fun _ h => (by cases h), hs⟩
    | some error =>
      rw [hfailure] at ho
      cases ho
  | cons x s =>
    obtain ⟨rfl, rfl⟩ := Prod.mk.inj (Except.ok.inj ho)
    obtain ⟨hx, hs⟩ := List.forall_mem_cons.1 hs
    exact ⟨fun _ h => Option.some.inj h ▸ hx, hs⟩

theorem peek?_keeps : g.peek?.Keeps I fun o => ∀ t ∈ o, I t := by
  intro s o t hs ho
  cases s with
  | nil =>
    rw [peek?] at ho
    cases hfailure : g.failure with
    | none =>
      rw [hfailure] at ho
      obtain ⟨rfl, rfl⟩ := Prod.mk.inj (Except.ok.inj ho)
      exact ⟨fun _ h => (by cases h), hs⟩
    | some error =>
      rw [hfailure] at ho
      cases ho
  | cons x s =>
    obtain ⟨rfl, rfl⟩ := Prod.mk.inj (Except.ok.inj ho)
    exact ⟨fun _ h => Option.some.inj h ▸ (List.forall_mem_cons.1 hs).1, hs⟩

theorem next_keeps : g.next.Keeps I I := by
  refine Keeps.bind next?_keeps fun o ho => ?_
  cases o with
  | none => exact Keeps.throw
  | some t => exact Keeps.pure (ho t rfl)

theorem expect_keeps : (g.expect kind what).Keeps I fun t => I t ∧ t.kind = kind :=
  Keeps.bind next_keeps fun _ ht =>
    Keeps.ite (fun hkind => Keeps.pure ⟨ht, hkind⟩) fun _ => Keeps.throw

theorem consume_keeps : (g.consume kind).Keeps I fun _ => True := by
  refine Keeps.bind peek?_keeps fun o _ => ?_
  cases o with
  | none => exact Keeps.pure trivial
  | some t =>
    refine Keeps.ite (fun _ => ?_) fun _ => Keeps.pure trivial
    refine Keeps.bind (P := fun _ => True) (fun s a u hs ha => ?_) fun _ _ => Keeps.pure trivial
    obtain ⟨-, rfl⟩ := Prod.mk.inj (Except.ok.inj ha)
    exact ⟨trivial, fun x hx => hs x (List.mem_of_mem_tail hx)⟩

theorem comesNext_keeps : (g.comesNext kind).Keeps I fun _ => True := by
  refine Keeps.bind peek?_keeps fun o _ => ?_
  cases o <;> exact Keeps.pure trivial

/-! ### Lists and casts -/

/-- What holds of all nested expressions holds of all items. -/
theorem items_keep {P : Expr → Prop} (hsub : ∀ power, (sub power).Keeps I P) (count : Nat) :
    (g.items sub kind count).Keeps I fun items => ∀ e ∈ items, P e := by
  induction count with
  | zero => exact Keeps.throw
  | succ count ih =>
    refine (hsub 0).bind fun e he => Keeps.bind consume_keeps fun closed _ => ?_
    refine Keeps.ite (fun _ => Keeps.pure (List.forall_mem_singleton.2 he)) fun _ => ?_
    refine Keeps.bind next_keeps fun t _ => Keeps.guard fun _ => ih.bind fun rest hrest => ?_
    exact Keeps.pure (List.forall_mem_cons.2 ⟨he, hrest⟩)

theorem list_keeps {P : Expr → Prop} (hsub : ∀ power, (sub power).Keeps I P)
    {opening closing : TokenKind} :
    (g.list sub opening closing).Keeps I fun items => ∀ e ∈ items, P e := by
  refine Keeps.bind next_keeps fun start _ => Keeps.guard fun _ => ?_
  refine Keeps.bind consume_keeps fun closed _ => ?_
  exact Keeps.ite (fun _ => Keeps.pure nofun) fun _ => Keeps.bind Keeps.get fun rest _ =>
    items_keep hsub _

theorem cast_keeps : g.cast.Keeps I fun _ => True := by
  refine Keeps.bind Keeps.get fun before hbefore => Keeps.bind next?_keeps fun o _ => ?_
  have hback : Keeps I (fun _ => True) (do set before; return false) :=
    (Keeps.set hbefore).bind fun _ _ => Keeps.pure trivial
  cases o with
  | none => exact Keeps.pure trivial
  | some name =>
    refine Keeps.ite (fun _ => Keeps.bind consume_keeps fun _ _ => ?_) fun _ => hback
    refine Keeps.bind consume_keeps fun closed _ => ?_
    exact Keeps.ite (fun _ => Keeps.pure trivial) fun _ => hback

/-! ### Operands -/

/-- Nested expressions are named, if the identifiers are words. -/
def NestedNamed (g : Grammar) (sub : Nat → Parser Expr) : Prop :=
  ∀ power, (sub power).Keeps Token.HasName (Expr.IsNamed g.params)

theorem isNamed_ofValue {v : Value} (h : v.IsSource) : (Expr.ofValue v).IsNamed g.params :=
  isNamed_iff.2 ⟨h, nofun⟩

/-- A number is a float, or a whole number that is not negative. -/
theorem isSource_of_number? {text : List Char} {e : Expr} (h : number? text = some e) :
    ∃ type value, e = .constant type value ∧ value.IsSource := by
  unfold number? at h
  extract_lets digits suffix type n at h
  split at h
  · exact ⟨_, _, (Option.some.inj h).symm, trivial⟩
  · split at h
    · split at h
      · next hlt =>
        refine ⟨_, _, (Option.some.inj h).symm, ?_⟩
        show 0 ≤ (Int64.ofNat n).toInt
        rw [Int64.toInt_ofNat_of_lt hlt]
        exact Int.natCast_nonneg n
      · cases h
    · cases h

theorem number_names (t : Token) : (number t).Keeps I (Expr.IsNamed g.params) := by
  unfold number
  split
  · next e he =>
    obtain ⟨type, value, rfl, hvalue⟩ := isSource_of_number? he
    exact Keeps.pure (isNamed_iff.2 ⟨hvalue, nofun⟩)
  · exact Keeps.throw

theorem string_names (t : Token) : (string t).Keeps I (Expr.IsNamed g.params) := by
  unfold string
  split
  · exact Keeps.pure (isNamed_ofValue trivial)
  · exact Keeps.throw

theorem typeName_names {name : Token} (hname : IsName name.text) :
    (g.typeName name).Keeps Token.HasName IsNewName := by
  refine Keeps.bind consume_keeps fun _ _ => Keeps.ite (fun _ => ?_) fun _ => ?_
  · refine Keeps.bind expect_keeps fun arg harg => Keeps.bind expect_keeps fun _ _ => Keeps.pure ?_
    exact .generic hname (harg.1 harg.2)
  · refine Keeps.bind consume_keeps fun _ _ => ?_
    refine Keeps.ite (fun _ => ?_) fun _ => Keeps.pure (.word hname)
    exact Keeps.bind expect_keeps fun _ _ => Keeps.pure (.array hname)

theorem new_names (hsub : NestedNamed g sub) :
    (g.new sub).Keeps Token.HasName (Expr.IsNamed g.params) := by
  refine Keeps.bind consume_keeps fun _ _ => Keeps.ite (fun _ => ?_) fun _ => ?_
  · refine Keeps.bind expect_keeps fun _ _ => ?_
    refine (list_keeps hsub).bind fun items hitems => Keeps.pure ?_
    exact isNamed_iff.2 ⟨trivial, hitems⟩
  · refine Keeps.bind expect_keeps fun name hname => ?_
    refine (typeName_names (hname.1 hname.2)).bind fun type htype => ?_
    refine Keeps.bind comesNext_keeps fun _ _ => Keeps.ite (fun _ => ?_) fun _ => ?_
    · exact (list_keeps hsub).bind fun args hargs => Keeps.pure (isNamed_iff.2 ⟨htype, hargs⟩)
    · refine Keeps.bind comesNext_keeps fun _ _ => Keeps.ite (fun _ => ?_) fun _ => Keeps.throw
      split
      · refine (list_keeps hsub).bind fun items hitems => Keeps.pure ?_
        exact isNamed_iff.2 ⟨trivial, hitems⟩
      · exact Keeps.throw

/-- A name is a parameter in scope, or a member of a type. -/
theorem identifier_names (hsub : NestedNamed g sub) {t : Token} (ht : IsName t.text) :
    (g.identifier sub t).Keeps Token.HasName (Expr.IsNamed g.params) := by
  unfold identifier
  extract_lets name
  split
  · next p hp =>
    have hname : p.name = name := by simpa using List.find?_some hp
    refine Keeps.pure (isNamed_iff.2 ⟨⟨hname ▸ ht, ?_⟩, nofun⟩)
    rw [hname]
    exact hp.trans (by rw [← hname])
  · next hfind =>
    refine Keeps.guard fun htype => Keeps.bind consume_keeps fun _ _ => Keeps.guard fun _ => ?_
    have hstatic : IsStaticName g.params name := ⟨ht, by simpa using htype, hfind⟩
    refine Keeps.bind expect_keeps fun member hmember => Keeps.bind comesNext_keeps fun _ _ => ?_
    have hmember : IsName member.text := hmember.1 hmember.2
    refine Keeps.ite (fun _ => ?_) fun _ => Keeps.pure (isNamed_iff.2 ⟨⟨hstatic, hmember⟩, nofun⟩)
    refine (list_keeps hsub).bind fun args hargs => Keeps.pure ?_
    exact isNamed_iff.2 ⟨⟨⟨name, hstatic, rfl⟩, hmember⟩, hargs⟩

theorem operand_names (hsub : NestedNamed g sub) :
    (g.operand sub).Keeps Token.HasName (Expr.IsNamed g.params) := by
  have hunary : ∀ op, Keeps Token.HasName (Expr.IsNamed g.params)
      (do return .unary op (← sub prefixPower)) := by
    refine fun op => (hsub prefixPower).bind fun e he => Keeps.pure ?_
    exact isNamed_iff.2 ⟨trivial, List.forall_mem_singleton.2 he⟩
  unfold operand
  refine Keeps.bind next_keeps fun t ht => ?_
  split
  · refine Keeps.bind cast_keeps fun isCast _ => Keeps.ite (fun _ => hunary .convert) fun _ => ?_
    exact (hsub 0).bind fun inner hinner => Keeps.bind expect_keeps fun _ _ => Keeps.pure hinner
  · exact hunary .not
  · exact hunary .negate
  · exact number_names t
  · exact string_names t
  · exact string_names t
  · exact Keeps.pure (isNamed_ofValue trivial)
  · exact Keeps.pure (isNamed_ofValue trivial)
  · exact Keeps.pure (isNamed_ofValue trivial)
  · exact Keeps.pure (isNamed_iff.2 ⟨trivial, nofun⟩)
  · exact new_names hsub
  · next hkind => exact identifier_names hsub (ht hkind)
  · exact Keeps.throw

/-! ### Operators -/

theorem suffix_names (hsub : NestedNamed g sub) {owner : Expr} (howner : owner.IsNamed g.params) :
    (g.suffix sub owner).Keeps Token.HasName (Expr.IsNamed g.params) := by
  refine Keeps.bind next_keeps fun t _ => Keeps.ite (fun _ => ?_) fun _ => ?_
  · refine (hsub 0).bind fun index hindex => Keeps.bind expect_keeps fun _ _ => Keeps.pure ?_
    exact isNamed_iff.2 ⟨trivial, by simp [Expr.operands, howner, hindex]⟩
  · refine Keeps.bind expect_keeps fun member hmember => Keeps.bind comesNext_keeps fun _ _ => ?_
    have hmember : IsName member.text := hmember.1 hmember.2
    refine Keeps.ite (fun _ => ?_) fun _ => Keeps.pure ?_
    · refine (list_keeps hsub).bind fun args hargs => Keeps.pure ?_
      exact isNamed_iff.2 ⟨hmember, List.forall_mem_cons.2 ⟨howner, hargs⟩⟩
    · exact isNamed_iff.2 ⟨hmember, List.forall_mem_singleton.2 howner⟩

theorem between_names (hsub : NestedNamed g sub) {t : Token} {right levels : Nat} {left : Expr}
    (hleft : left.IsNamed g.params) :
    (g.between sub t right left levels).Keeps Token.HasName
      fun result => result.1.IsNamed g.params := by
  refine Keeps.ite (fun _ => ?_) fun _ => (hsub right).bind fun operand hoperand => ?_
  · refine (hsub 0).bind fun ifTrue hTrue => Keeps.bind expect_keeps fun _ _ => ?_
    refine (hsub right).bind fun ifFalse hFalse => Keeps.pure ?_
    exact isNamed_iff.2 ⟨trivial, by simp [Expr.operands, hleft, hTrue, hFalse]⟩
  · split
    · exact Keeps.pure (isNamed_iff.2 ⟨trivial, by simp [Expr.operands, hleft, hoperand]⟩)
    · exact Keeps.throw

theorem checkLevels_keeps {levels : Nat} : (checkLevels levels).Keeps I fun _ => True :=
  Keeps.ite (fun _ => Keeps.pure trivial) fun _ => Keeps.throw

/-- One turn of the loop puts an operator or a suffix around a named tree. -/
theorem operators_names (hsub : NestedNamed g sub) {power : Nat} (count : Nat) {left : Expr}
    {levels : Nat} (hleft : left.IsNamed g.params) :
    (g.operators sub power count left levels).Keeps Token.HasName (Expr.IsNamed g.params) := by
  induction count generalizing left levels with
  | zero => exact Keeps.pure hleft
  | succ count ih =>
    unfold operators
    refine Keeps.bind peek?_keeps fun next _ => ?_
    split
    · split
      · refine Keeps.ite (fun _ => Keeps.pure hleft) fun _ => ?_
        refine (suffix_names hsub hleft).bind fun tree htree => ?_
        exact Keeps.bind checkLevels_keeps fun _ _ => ih htree
      · refine Keeps.ite (fun _ => Keeps.pure hleft) fun _ => Keeps.bind next_keeps fun _ _ => ?_
        refine (between_names hsub hleft).bind fun result hresult => ?_
        exact Keeps.bind checkLevels_keeps fun _ _ => ih hresult
      · exact Keeps.pure hleft
    · exact Keeps.pure hleft

/-- Every expression is named. -/
theorem expression_names (depth : Nat) : NestedNamed g (g.expression depth) := by
  induction depth with
  | zero => exact fun _ => Keeps.throw
  | succ depth ih =>
    intro power
    refine (operand_names ih).bind fun left hleft => Keeps.bind checkLevels_keeps fun _ _ => ?_
    exact Keeps.bind Keeps.get fun rest _ => operators_names ih _ hleft

/-! ### Lambdas -/

/-- There are parameters, and their names are words. -/
theorem names_names (count : Nat) :
    (g.names count).Keeps Token.HasName fun names => names ≠ [] ∧ ∀ name ∈ names, IsName name := by
  induction count with
  | zero => exact Keeps.throw
  | succ count ih =>
    refine Keeps.bind expect_keeps fun name hname => Keeps.bind consume_keeps fun _ _ => ?_
    have hname : IsName name.text := hname.1 hname.2
    refine Keeps.ite (fun _ => ?_) fun _ => ?_
    · refine ih.bind fun rest hrest => Keeps.pure ⟨List.cons_ne_nil _ _, ?_⟩
      exact List.forall_mem_cons.2 ⟨hname, hrest.2⟩
    · refine Keeps.bind expect_keeps fun _ _ => Keeps.pure ⟨List.cons_ne_nil _ _, ?_⟩
      exact List.forall_mem_singleton.2 hname

theorem paramNames_names :
    g.paramNames.Keeps Token.HasName fun names => names ≠ [] ∧ ∀ name ∈ names, IsName name := by
  refine Keeps.bind next?_keeps fun o ho => ?_
  cases o with
  | none => exact Keeps.throw
  | some t =>
    refine Keeps.ite (fun hkind => ?_) fun _ => ?_
    · refine Keeps.pure ⟨List.cons_ne_nil _ _, ?_⟩
      exact List.forall_mem_singleton.2 (ho t rfl hkind)
    · refine Keeps.ite (fun _ => ?_) fun _ => Keeps.throw
      exact Keeps.bind Keeps.get fun rest _ => names_names _

end Grammar

/-- A lambda that is parsed from a text binds its parameters to the model, and names everything in a
way that it can be written. -/
theorem isNamed_of_parseLambda {catalog : Catalog} {model text : String} {tree : Expr}
    (h : parseLambda catalog model text = .ok tree) :
    ∃ params body, tree = .lambda params body ∧ params ≠ [] ∧
      (∀ p ∈ params, IsName p.name ∧ p.model = model) ∧ body.IsNamed params := by
  obtain ⟨t, ht⟩ := Parser.run'_eq_ok.1 h
  have hlexes := Cursor.lexes_iff.2 (rfl : tokenize (encode text) = _)
  obtain ⟨names, u, hnames, ht⟩ := Parser.run_bind_eq_ok.1 ht
  obtain ⟨hnames, hu⟩ := Grammar.paramNames_names _ _ _ hlexes.hasName hnames
  obtain ⟨arrow, v, harrow, ht⟩ := Parser.run_bind_eq_ok.1 ht
  obtain ⟨-, hv⟩ := Grammar.expect_keeps _ _ _ hu harrow
  obtain ⟨body, w, hbody, ht⟩ := Parser.run_bind_eq_ok.1 ht
  obtain ⟨hbody, -⟩ := Grammar.expression_names _ _ _ _ _ hv hbody
  obtain ⟨next, x, -, ht⟩ := Parser.run_bind_eq_ok.1 ht
  cases next with
  | some => cases ht
  | none =>
    obtain ⟨rfl, -⟩ := Prod.mk.inj (Except.ok.inj ht)
    refine ⟨_, body, rfl, List.map_eq_nil_iff.not.2 hnames.1, fun p hp => ?_, hbody⟩
    obtain ⟨name, hname, rfl⟩ := List.mem_map.1 hp
    exact ⟨hnames.2 name hname, rfl⟩

end PredicateSql
