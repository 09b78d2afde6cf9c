import PredicateSql.Proofs.Lambda.Names
import PredicateSql.Proofs.Lambda.Pieces
import PredicateSql.Proofs.Text.Lines

/-!
# The messages of parse errors

A text that is no lambda is answered in one line, whatever stands in it. The only texts that a
parse error takes over are words and numbers, and these have no line break in them.

* `ParseError.texts`, `ParseError.hasBreak_message`: the texts that an error names, and line breaks
  in its message.
* `Token.IsUnbroken`: a word or a number has no line break in it. `Cursor.Lexes.isUnbroken`: so it
  is for all tokens of a text.
* `Parser.Halts`: how a computation on tokens ends, whether it returns something or fails.
* `Grammar.operand_halts`, `Grammar.suffix_halts` and so on: each function of the grammar fails
  without line breaks, if the expressions nested in it do.
* `not_haveBreak_of_parseLambda`: so does the parser.
-/

namespace PredicateSql

open Text (HasBreak HaveBreak)
open Text.Utf8 (encode decode decodeFrom)

/-! ### Messages -/

/-- The texts that a parse error names. -/
def ParseError.texts : ParseError → List String
  | .expected what _ => [what]
  | .unknownIdentifier name => [name]
  | .invalidNumber text => [text]
  | _ => []

theorem TokenKind.not_hasBreak_name (kind : TokenKind) : ¬ HasBreak kind.name := by
  cases kind <;> decide

theorem LexicalError.not_hasBreak_message (e : LexicalError) : ¬ HasBreak e.message := by
  have hwords : ¬ HasBreak "unterminated literal starting at " ∧
      ¬ HasBreak "unexpected character at " := by
    decide
  unfold message
  cases e <;> simp [hwords]

/-- A message breaks a line where one of its texts does. -/
theorem ParseError.hasBreak_message (e : ParseError) : HasBreak e.message ↔ HaveBreak e.texts := by
  have hwords : ¬ HasBreak "empty input" ∧ ¬ HasBreak "lexical error: " ∧ ¬ HasBreak "expected " ∧
      ¬ HasBreak " at " ∧ ¬ HasBreak "unexpected token " ∧
      ¬ HasBreak "unexpected end of input" ∧ ¬ HasBreak "unknown identifier '" ∧
      ¬ HasBreak "'" ∧ ¬ HasBreak "invalid number literal '" ∧
      ¬ HasBreak "invalid escape sequence at " ∧ ¬ HasBreak "expression nests deeper than " ∧
      ¬ HasBreak " levels" := by
    decide
  unfold message
  cases e with
  | lexical error => simp [texts, hwords, error.not_hasBreak_message]
  | unexpectedToken kind => simp [texts, hwords, kind.not_hasBreak_name]
  | _ => simp [texts, hwords]

theorem ParseError.not_haveBreak_expected {what : String} (h : ¬ HasBreak what) (place : Nat) :
    ¬ HaveBreak (ParseError.expected what place).texts := by
  simpa [texts] using h

/-! ### Words and numbers -/

/-- A byte of words and numbers. -/
def isPlainByte (b : UInt8) : Bool :=
  isWordByte b || ascii b == '.'

theorem toNat_lt_of_isPlainByte {b : UInt8} (h : isPlainByte b = true) : b.toNat < 128 := by
  rcases Bool.or_eq_true_iff.1 h with hword | hpoint
  · exact toNat_lt_of_isWordByte hword
  · rw [← toNat_ascii, beq_iff_eq.1 hpoint]
    decide

theorem ascii_ne_break {b : UInt8} (h : isPlainByte b = true) : ascii b ≠ '\n' := by
  intro hbreak
  rw [isPlainByte, isWordByte, isWordStart, isDigitByte, hbreak] at h
  exact absurd h (by decide)

/-- ASCII bytes stand for one character each. -/
theorem decode_ascii {bytes : List UInt8} (h : ∀ b ∈ bytes, b.toNat < 128) :
    (decode bytes).toList = bytes.map ascii := by
  rw [decode, String.toList_ofList]
  induction bytes with
  | nil => rfl
  | cons b bytes ih =>
    obtain ⟨hb, hbytes⟩ := List.forall_mem_cons.1 h
    have hstart := Text.Utf8.start_one b.toNat hb
    rw [UInt8.ofNat_toNat] at hstart
    rw [decodeFrom, Text.Utf8.step, hstart, List.map_cons, ← ih hbytes]
    rfl

theorem not_hasBreak_decode {bytes : List UInt8} (h : ∀ b ∈ bytes, isPlainByte b = true) :
    ¬ HasBreak (decode bytes) := by
  rw [HasBreak, decode_ascii fun b hb => toNat_lt_of_isPlainByte (h b hb), List.mem_map]
  rintro ⟨b, hb, hbreak⟩
  exact ascii_ne_break (h b hb) hbreak

theorem of_mem_take_takeWhile {p : UInt8 → Bool} {rest : List UInt8} {d : UInt8}
    (h : d ∈ rest.take (rest.takeWhile p).length) : p d = true := by
  rw [← List.prefix_iff_eq_take.1 (List.takeWhile_prefix p)] at h
  exact List.mem_takeWhile_imp h

theorem isPlainByte_of_isDigitByte {b : UInt8} (h : isDigitByte b = true) :
    isPlainByte b = true := by
  rw [isPlainByte, isWordByte, h, Bool.or_true, Bool.true_or]

/-- A point belongs to a number, and so do the digits after it. -/
theorem isPlainByte_of_mem_fraction {rest : List UInt8} :
    ∀ d ∈ rest.take (fractionLength rest), isPlainByte d = true := by
  intro d hd
  rcases rest with _ | ⟨point, more⟩
  · cases hd
  by_cases hpoint : ascii point = '.'
  · rw [fractionLength_point hpoint] at hd
    split at hd
    · cases hd
    · rw [Nat.add_comm, List.take_succ_cons] at hd
      rcases List.mem_cons.1 hd with rfl | hd
      · rw [isPlainByte, hpoint, beq_self_eq_true, Bool.or_true]
      · exact isPlainByte_of_isDigitByte (of_mem_take_takeWhile hd)
  · rw [fractionLength_other hpoint] at hd
    cases hd

/-- A number goes on with digits, a fraction and letters. -/
theorem isPlainByte_of_mem_number {rest : List UInt8} :
    ∀ d ∈ rest.take (numberLength rest), isPlainByte d = true := by
  intro d hd
  rw [numberLength_eq, afterDigitsLength, List.take_add, List.take_add] at hd
  rcases List.mem_append.1 hd with hdigit | hd
  · exact isPlainByte_of_isDigitByte (of_mem_take_takeWhile hdigit)
  rcases List.mem_append.1 hd with hfraction | hsuffix
  · exact isPlainByte_of_mem_fraction d hfraction
  · rw [isPlainByte, isWordByte_of_isSuffixByte (of_mem_take_takeWhile hsuffix), Bool.true_or]

/-- Only a digit starts a number. -/
theorem eq_numberLength_of_scan {b : UInt8} {rest : List UInt8} {n : Nat}
    (h : scan b rest = .token .number n) : isDigitByte b = true ∧ n = numberLength rest := by
  unfold scan at h
  split at h
  case h_25 =>
    split_ifs at h with hword hdigit
    · obtain ⟨hkind, -⟩ := Scan.token.inj h
      unfold wordKind at hkind
      split at hkind <;> cases hkind
    · exact ⟨hdigit, (Scan.token.inj h).2.symm⟩
  case h_22 => cases hlength : escapedLength '"' rest <;> rw [hlength] at h <;> cases h
  case h_23 => cases hlength : escapedLength '\'' rest <;> rw [hlength] at h <;> cases h
  case h_24 =>
    rcases rest with _ | ⟨d, rest⟩
    · cases h
    · dsimp only at h
      split_ifs at h
      cases hlength : verbatimLength '"' rest <;> rw [hlength] at h <;> cases h
  all_goals first
    | cases h
    | split_ifs at h <;> cases h

/-- A word or a number has no line break in it. -/
def Token.IsUnbroken (t : Token) : Prop :=
  t.kind = .identifier ∨ t.kind = .number → ¬ HasBreak t.text

theorem Token.isUnbroken_of_scan {b : UInt8} {rest : List UInt8} {kind : TokenKind} {n : Nat}
    (h : scan b rest = .token kind n) (place : Nat) :
    Token.IsUnbroken ⟨kind, place, b :: rest.take n⟩ := by
  have hself : ∀ kind, (kind = .identifier ∨ kind = .number) →
      Token.text ⟨kind, place, b :: rest.take n⟩ = decode (b :: rest.take n) := by
    rintro _ (rfl | rfl) <;> exact congrArg decode List.take_length
  intro hkind
  rw [hself kind hkind]
  refine not_hasBreak_decode (List.forall_mem_cons.2 ?_)
  rcases hkind with hkind | hkind
  · obtain rfl : kind = .identifier := hkind
    have hword := isWordStart_of_scan h
    obtain ⟨-, rfl⟩ := Scan.token.inj (h.symm.trans (scan_eq_word h rest))
    refine ⟨by rw [isPlainByte, isWordByte, hword]; rfl, fun d hd => ?_⟩
    rw [isPlainByte, of_mem_take_takeWhile hd, Bool.true_or]
  · obtain rfl : kind = .number := hkind
    obtain ⟨hdigit, rfl⟩ := eq_numberLength_of_scan h
    exact ⟨isPlainByte_of_isDigitByte hdigit, isPlainByte_of_mem_number⟩

theorem Cursor.Lexes.isUnbroken {c : Cursor} {ts : List Token} {failure : Option LexicalError}
    (h : c.Lexes ts failure) : ∀ t ∈ ts, t.IsUnbroken := by
  induction h with
  | done | unexpected | unterminated => exact List.forall_mem_nil _
  | token hrest hscan h ih => exact List.forall_mem_cons.2 ⟨Token.isUnbroken_of_scan hscan _, ih⟩

/-! ### Computations on tokens -/

namespace Parser

variable {α β : Type} {P : α → Prop} {Q : β → Prop}

/-- From unbroken tokens, the computation returns something that satisfies `P` and leaves unbroken
tokens, or it fails with an error that names no text with a line break in it. -/
def Halts (P : α → Prop) (m : Parser α) : Prop :=
  ∀ s, (∀ x ∈ s, x.IsUnbroken) →
    match m.run s with
    | .ok (a, t) => P a ∧ ∀ x ∈ t, x.IsUnbroken
    | .error e => ¬ HaveBreak e.texts

namespace Halts

theorem pure {a : α} (h : P a) : Halts P (Pure.pure a) :=
  fun _ hs => ⟨h, hs⟩

theorem throw {e : ParseError} (h : ¬ HaveBreak e.texts) : Halts P (MonadExcept.throw e) :=
  fun _ _ => h

theorem bind {m : Parser α} {f : α → Parser β} (hm : Halts P m) (hf : ∀ a, P a → Halts Q (f a)) :
    Halts Q (m >>= f) := by
  intro s hs
  have hfirst := hm s hs
  rw [StateT.run_bind]
  cases hrun : m.run s with
  | error e =>
    rw [hrun] at hfirst
    exact hfirst
  | ok result =>
    rw [hrun] at hfirst
    exact hf _ hfirst.1 _ hfirst.2

/-- What the first computation returns does not matter. -/
theorem after {m : Parser α} {f : α → Parser β} (hm : Halts P m) (hf : ∀ a, Halts Q (f a)) :
    Halts Q (m >>= f) :=
  hm.bind fun a _ => hf a

theorem ite {c : Prop} [Decidable c] {m n : Parser α} (hm : c → Halts P m)
    (hn : ¬ c → Halts P n) : Halts P (if c then m else n) := by
  split
  · exact hm ‹_›
  · exact hn ‹_›

/-- A computation that fails where a condition holds. -/
theorem guard {c : Prop} [Decidable c] {e : ParseError} {f : α → Parser β} {m : Parser β}
    (he : c → ¬ HaveBreak e.texts) (hm : ¬ c → Halts Q m) :
    Halts Q (if c then (MonadExcept.throw e : Parser α) >>= f else m) :=
  ite (fun h _ _ => he h) hm

theorem get : Halts (fun s => ∀ x ∈ s, x.IsUnbroken) MonadState.get :=
  fun _ hs => ⟨hs, hs⟩

theorem set {s : List Token} (h : ∀ x ∈ s, x.IsUnbroken) :
    Halts (fun _ => True) (MonadStateOf.set s) :=
  fun _ _ => ⟨trivial, h⟩

end Halts

end Parser

namespace Grammar

open PredicateSql.Parser (Halts)

variable {g : Grammar} {sub : Nat → Parser Expr} {kind : TokenKind} {what : String}

/-! ### Single tokens -/

theorem next?_halts : g.next?.Halts fun o => ∀ t ∈ o, t.IsUnbroken := by
  intro s hs
  cases s with
  | nil =>
    rw [next?]
    cases hfailure : g.failure with
    | none => exact ⟨fun _ h => (by cases h), hs⟩
    | some error => exact Text.haveBreak_nil
  | cons x s =>
    obtain ⟨hx, hs⟩ := List.forall_mem_cons.1 hs
    exact ⟨fun _ h => Option.some.inj h ▸ hx, hs⟩

theorem peek?_halts : g.peek?.Halts fun _ => True := by
  intro s hs
  cases s with
  | nil =>
    rw [peek?]
    cases hfailure : g.failure with
    | none => exact ⟨trivial, hs⟩
    | some error => exact Text.haveBreak_nil
  | cons x s => exact ⟨trivial, hs⟩

theorem next_halts : g.next.Halts Token.IsUnbroken := by
  refine Halts.bind next?_halts fun o ho => ?_
  cases o with
  | none => exact Halts.throw Text.haveBreak_nil
  | some t => exact Halts.pure (ho t rfl)

theorem expect_halts (hwhat : ¬ HasBreak what) :
    (g.expect kind what).Halts fun t => t.IsUnbroken ∧ t.kind = kind := by
  refine Halts.bind next_halts fun t ht => ?_
  refine Halts.ite (fun hkind => Halts.pure ⟨ht, hkind⟩) fun _ => ?_
  exact Halts.throw (ParseError.not_haveBreak_expected hwhat _)

theorem consume_halts : (g.consume kind).Halts fun _ => True := by
  refine Halts.bind peek?_halts fun o _ => ?_
  cases o with
  | none => exact Halts.pure trivial
  | some t =>
    refine Halts.ite (fun _ => ?_) fun _ => Halts.pure trivial
    refine Halts.bind (P := fun _ => True) (fun s hs => ?_) fun _ _ => Halts.pure trivial
    exact ⟨trivial, fun x hx => hs x (List.mem_of_mem_tail hx)⟩

theorem comesNext_halts : (g.comesNext kind).Halts fun _ => True := by
  refine Halts.bind peek?_halts fun o _ => ?_
  cases o <;> exact Halts.pure trivial

/-! ### Lists and casts -/

/-- Nested expressions fail without line breaks. -/
def NestedHalts (sub : Nat → Parser Expr) : Prop :=
  ∀ power, (sub power).Halts fun _ => True

theorem items_halts (hsub : NestedHalts sub) (count : Nat) :
    (g.items sub kind count).Halts fun _ => True := by
  induction count with
  | zero => exact Halts.throw Text.haveBreak_nil
  | succ count ih =>
    refine (hsub 0).after fun e => Halts.after consume_halts fun closed => ?_
    refine Halts.ite (fun _ => Halts.pure trivial) fun _ => Halts.after next_halts fun t => ?_
    exact Halts.guard (fun _ => Text.haveBreak_nil) fun _ => ih.after fun _ => Halts.pure trivial

theorem list_halts (hsub : NestedHalts sub) {opening closing : TokenKind} :
    (g.list sub opening closing).Halts fun _ => True := by
  refine Halts.after next_halts fun start => Halts.guard (fun _ => Text.haveBreak_nil) fun _ => ?_
  refine Halts.after consume_halts fun closed => Halts.ite (fun _ => Halts.pure trivial) fun _ => ?_
  exact Halts.after Halts.get fun _ => items_halts hsub _

theorem cast_halts : g.cast.Halts fun _ => True := by
  refine Halts.bind Halts.get fun before hbefore => Halts.after next?_halts fun o => ?_
  have hback : Halts (fun _ : Bool => True) (do set before; return false) :=
    (Halts.set hbefore).after fun _ => Halts.pure trivial
  cases o with
  | none => exact Halts.pure trivial
  | some name =>
    refine Halts.ite (fun _ => Halts.after consume_halts fun _ => ?_) fun _ => hback
    refine Halts.after consume_halts fun closed => ?_
    exact Halts.ite (fun _ => Halts.pure trivial) fun _ => hback

/-! ### Operands -/

/-- A number that cannot be read is named in the error. -/
theorem number_halts {t : Token} (ht : ¬ HasBreak t.text) : (number t).Halts fun _ => True := by
  unfold number
  split
  · exact Halts.pure trivial
  · exact Halts.throw (by simpa [ParseError.texts] using ht)

theorem string_halts (t : Token) : (string t).Halts fun _ => True := by
  unfold string
  split
  · exact Halts.pure trivial
  · exact Halts.throw Text.haveBreak_nil

theorem typeName_halts (name : Token) : (g.typeName name).Halts fun _ => True := by
  refine Halts.after consume_halts fun _ => Halts.ite (fun _ => ?_) fun _ => ?_
  · refine Halts.after (expect_halts (by decide)) fun arg => ?_
    exact Halts.after (expect_halts (by decide)) fun _ => Halts.pure trivial
  · refine Halts.after consume_halts fun _ => Halts.ite (fun _ => ?_) fun _ => Halts.pure trivial
    exact Halts.after (expect_halts (by decide)) fun _ => Halts.pure trivial

theorem new_halts (hsub : NestedHalts sub) : (g.new sub).Halts fun _ => True := by
  have hlist : ∀ {opening closing : TokenKind} (f : List Expr → Expr),
      Halts (fun _ : Expr => True) (do return f (← g.list sub opening closing)) :=
    fun f => (list_halts hsub).after fun _ => Halts.pure trivial
  have hexpected := @ParseError.not_haveBreak_expected
  refine Halts.after consume_halts fun _ => Halts.ite (fun _ => ?_) fun _ => ?_
  · exact Halts.after (expect_halts (by decide)) fun _ => hlist _
  · refine Halts.after (expect_halts (by decide)) fun name => ?_
    refine Halts.after (typeName_halts name) fun type => Halts.after comesNext_halts fun _ => ?_
    refine Halts.ite (fun _ => hlist _) fun _ => Halts.after comesNext_halts fun _ => ?_
    refine Halts.ite (fun _ => ?_) fun _ => Halts.throw (hexpected (by decide) _)
    split
    · exact hlist _
    · exact Halts.throw (hexpected (by decide) _)

/-- A name that is not known is named in the error. -/
theorem identifier_halts (hsub : NestedHalts sub) {t : Token} (ht : ¬ HasBreak t.text) :
    (g.identifier sub t).Halts fun _ => True := by
  have hunknown : ¬ HaveBreak (ParseError.unknownIdentifier t.text).texts := by
    simpa [ParseError.texts] using ht
  unfold identifier
  extract_lets name
  split
  · exact Halts.pure trivial
  · refine Halts.guard (fun _ => hunknown) fun _ => Halts.after consume_halts fun _ => ?_
    refine Halts.guard (fun _ => hunknown) fun _ => Halts.after (expect_halts (by decide)) ?_
    refine fun member => Halts.after comesNext_halts fun _ => ?_
    refine Halts.ite (fun _ => ?_) fun _ => Halts.pure trivial
    exact (list_halts hsub).after fun _ => Halts.pure trivial

theorem operand_halts (hsub : NestedHalts sub) : (g.operand sub).Halts fun _ => True := by
  have hunary : ∀ op, Halts (fun _ : Expr => True) (do return .unary op (← sub prefixPower)) :=
    fun op => (hsub prefixPower).after fun _ => Halts.pure trivial
  unfold operand
  refine Halts.bind next_halts fun t ht => ?_
  split
  · refine Halts.after cast_halts fun isCast => Halts.ite (fun _ => hunary .convert) fun _ => ?_
    exact (hsub 0).after fun _ => Halts.after (expect_halts (by decide)) fun _ => Halts.pure trivial
  · exact hunary .not
  · exact hunary .negate
  · next hkind => exact number_halts (ht (.inr hkind))
  · exact string_halts t
  · exact string_halts t
  · exact Halts.pure trivial
  · exact Halts.pure trivial
  · exact Halts.pure trivial
  · exact Halts.pure trivial
  · exact new_halts hsub
  · next hkind => exact identifier_halts hsub (ht (.inl hkind))
  · exact Halts.throw Text.haveBreak_nil

/-! ### Operators -/

theorem suffix_halts (hsub : NestedHalts sub) (owner : Expr) :
    (g.suffix sub owner).Halts fun _ => True := by
  refine Halts.after next_halts fun t => Halts.ite (fun _ => ?_) fun _ => ?_
  · exact (hsub 0).after fun _ => Halts.after (expect_halts (by decide)) fun _ => Halts.pure trivial
  · refine Halts.after (expect_halts (by decide)) fun member => ?_
    refine Halts.after comesNext_halts fun _ => Halts.ite (fun _ => ?_) fun _ => Halts.pure trivial
    exact (list_halts hsub).after fun _ => Halts.pure trivial

theorem between_halts (hsub : NestedHalts sub) (t : Token) (right : Nat) (left : Expr)
    (levels : Nat) : (g.between sub t right left levels).Halts fun _ => True := by
  refine Halts.ite (fun _ => ?_) fun _ => (hsub right).after fun operand => ?_
  · refine (hsub 0).after fun ifTrue => Halts.after (expect_halts (by decide)) fun _ => ?_
    exact (hsub right).after fun _ => Halts.pure trivial
  · split
    · exact Halts.pure trivial
    · exact Halts.throw Text.haveBreak_nil

theorem checkLevels_halts (levels : Nat) : (checkLevels levels).Halts fun _ => True :=
  Halts.ite (fun _ => Halts.pure trivial) fun _ => Halts.throw Text.haveBreak_nil

theorem operators_halts (hsub : NestedHalts sub) (power count : Nat) (left : Expr) (levels : Nat) :
    (g.operators sub power count left levels).Halts fun _ => True := by
  induction count generalizing left levels with
  | zero => exact Halts.pure trivial
  | succ count ih =>
    unfold operators
    refine Halts.after peek?_halts fun next => ?_
    split
    · split
      · refine Halts.ite (fun _ => Halts.pure trivial) fun _ => ?_
        refine (suffix_halts hsub left).after fun tree => ?_
        exact (checkLevels_halts _).after fun _ => ih _ _
      · refine Halts.ite (fun _ => Halts.pure trivial) fun _ => Halts.after next_halts fun _ => ?_
        refine (between_halts hsub _ _ _ _).after fun result => ?_
        exact (checkLevels_halts _).after fun _ => ih _ _
      · exact Halts.pure trivial
    · exact Halts.pure trivial

/-- Every expression fails without line breaks, if it fails. -/
theorem expression_halts (depth : Nat) : NestedHalts (g.expression depth) := by
  induction depth with
  | zero => exact fun _ => Halts.throw Text.haveBreak_nil
  | succ depth ih =>
    intro power
    refine (operand_halts ih).after fun left => (checkLevels_halts _).after fun _ => ?_
    exact Halts.after Halts.get fun _ => operators_halts ih _ _ _ _

/-! ### Lambdas -/

theorem names_halts (count : Nat) : (g.names count).Halts fun _ => True := by
  induction count with
  | zero => exact Halts.throw Text.haveBreak_nil
  | succ count ih =>
    refine Halts.after (expect_halts (by decide)) fun name => Halts.after consume_halts fun _ => ?_
    refine Halts.ite (fun _ => ih.after fun _ => Halts.pure trivial) fun _ => ?_
    exact Halts.after (expect_halts (by decide)) fun _ => Halts.pure trivial

theorem paramNames_halts : g.paramNames.Halts fun _ => True := by
  refine Halts.after next?_halts fun o => ?_
  cases o with
  | none => exact Halts.throw Text.haveBreak_nil
  | some t =>
    refine Halts.ite (fun _ => Halts.pure trivial) fun _ => Halts.ite (fun _ => ?_) fun _ => ?_
    · exact Halts.after Halts.get fun _ => names_halts _
    · exact Halts.throw Text.haveBreak_nil

theorem lambda_halts (model : String) : (g.lambda model).Halts fun _ => True := by
  refine Halts.after paramNames_halts fun names => ?_
  refine Halts.after (expect_halts (by decide)) fun _ => ?_
  refine (expression_halts maxDepth 0).after fun body => Halts.after next?_halts fun o => ?_
  cases o with
  | none => exact Halts.pure trivial
  | some t => exact Halts.throw Text.haveBreak_nil

end Grammar

/-- No text makes the parser fail with a line break in its message. -/
theorem not_haveBreak_of_parseLambda {catalog : Catalog} {model text : String} {e : ParseError}
    (h : parseLambda catalog model text = .error e) : ¬ HaveBreak e.texts := by
  obtain ⟨tokens, failure, htokens⟩ : ∃ tokens failure,
      tokenize (encode text) = (tokens, failure) := ⟨_, _, rfl⟩
  let g : Grammar := { catalog, failure }
  have hlexes := Cursor.lexes_iff.2 htokens
  have hhalts := g.lambda_halts model tokens hlexes.isUnbroken
  have hrun : (g.lambda model).run' tokens = .error e := by
    rw [← h, parseLambda, htokens]
  rw [StateT.run'_eq] at hrun
  cases hresult : (g.lambda model).run tokens with
  | ok result =>
    rw [hresult] at hrun
    cases hrun
  | error e' =>
    rw [hresult] at hrun hhalts
    obtain rfl : e' = e := Except.error.inj hrun
    exact hhalts

end PredicateSql
