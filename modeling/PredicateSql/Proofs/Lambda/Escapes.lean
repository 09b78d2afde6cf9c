import Mathlib.Data.List.Forall2
import PredicateSql.Proofs.Lambda.Literals

/-!
# The escapes of literals

Which literals are read, and as what text.

* `Denotes`: a literal is made of plain characters, of letters after a backslash, and of the numbers
  of characters after `\u`. What counts as a number is left open.
* `IsFourDigits`: four hexadecimal digits. `IsLoose`: digits after a plus sign, or fewer than four
  of them at the end of the literal.
* `unescape?_eq_some_iff`: both are read as numbers.
* `HasLooseNumber`: a literal that goes wrong at a loose number. `denotes_isFourDigits_iff`: of the
  literals that are read, it is the others that are made of the escapes of the language.
* `Grammar.string_spec`: so a literal without loose numbers is read exactly if the language has it.
-/

namespace PredicateSql

open Text (hexDigit hexNumber? hexValue?)

/-! ### Numbers -/

/-- The digit of a number below sixteen, in either case. -/
def IsHexDigit (n : Nat) (c : Char) : Prop :=
  n < 16 ∧ (c = hexDigit 'a' n ∨ c = hexDigit 'A' n)

/-- The digits of a number. -/
def IsNumeral (digits : List Char) (n : Nat) : Prop :=
  ∃ ns, List.Forall₂ IsHexDigit ns digits ∧ n = ns.foldl (fun n d => 16 * n + d) 0

/-- Exactly four digits, of the number of a character. -/
def IsFourDigits (group : List Char) (c : Char) : Prop :=
  group.length = 4 ∧ IsNumeral group c.toNat

/-- Fewer than four digits, perhaps after a plus sign, of the number of a character. -/
def IsLoose (group : List Char) (c : Char) : Prop :=
  ∃ sign digits, group = sign ++ digits ∧ (sign = [] ∨ sign = ['+']) ∧ digits ≠ [] ∧
    digits.length < 4 ∧ IsNumeral digits c.toNat

/-- What is read as the number of a character. -/
def IsNumber (group : List Char) (c : Char) : Prop :=
  IsFourDigits group c ∨ IsLoose group c

variable {group digits raw before rest text : List Char} {c : Char} {n : Nat}

theorem hexValue?_eq_some_iff : hexValue? c = some n ↔ IsHexDigit n c := by
  constructor
  · intro h
    have hchar : ∀ m, m = c.toNat → Char.ofNat m = c := by
      rintro m rfl
      exact Char.ofNat_toNat c
    have h0 : '0'.toNat = 48 := rfl
    have ha : 'a'.toNat = 97 := rfl
    have hA : 'A'.toNat = 65 := rfl
    simp only [hexValue?, Char.le_def, UInt32.le_iff_toNat_le, Char.toNat_val] at h
    have h9 : '9'.toNat = 57 := rfl
    have hf : 'f'.toNat = 102 := rfl
    have hF : 'F'.toNat = 70 := rfl
    split_ifs at h with hdigit hlower hupper
    all_goals obtain rfl := Option.some.inj h
    · refine ⟨by omega, .inl ?_⟩
      rw [hexDigit, if_pos (by omega), hchar _ (by omega)]
    · refine ⟨by omega, .inl ?_⟩
      rw [hexDigit, if_neg (by omega), hchar _ (by omega)]
    · refine ⟨by omega, .inr ?_⟩
      rw [hexDigit, if_neg (by omega), hchar _ (by omega)]
  · rintro ⟨hn, rfl | rfl⟩
    · exact Text.hexValue?_hexDigit (.inl rfl) n hn
    · exact Text.hexValue?_hexDigit (.inr rfl) n hn

theorem isHexDigit_ne_plus (h : IsHexDigit n c) : c ≠ '+' := by
  rintro rfl
  have hvalue := hexValue?_eq_some_iff.2 h
  have hplus : hexValue? '+' = none := by decide
  rw [hplus] at hvalue
  cases hvalue

/-- The digits are read from the left. -/
theorem hexNumber?_eq_some_iff : hexNumber? digits = some n ↔ IsNumeral digits n := by
  suffices h : ∀ m, digits.foldlM (fun n c => (hexValue? c).map (16 * n + ·)) m = some n ↔
      ∃ ns, List.Forall₂ IsHexDigit ns digits ∧ n = ns.foldl (fun n d => 16 * n + d) m from h 0
  induction digits with
  | nil =>
    intro m
    simp [eq_comm]
  | cons c digits ih =>
    intro m
    rw [List.foldlM_cons, Option.bind_eq_bind, Option.bind_eq_some_iff]
    simp only [Option.map_eq_some_iff, hexValue?_eq_some_iff, ih]
    constructor
    · rintro ⟨_, ⟨d, hd, rfl⟩, ns, hns, rfl⟩
      exact ⟨d :: ns, .cons hd hns, rfl⟩
    · rintro ⟨_, hall, rfl⟩
      cases hall with
      | @cons d _ ns _ hd hns => exact ⟨_, ⟨d, hd, rfl⟩, ns, hns, rfl⟩

theorem isNumeral_plus : ¬ IsNumeral ('+' :: digits) n := by
  rintro ⟨_, hall, -⟩
  cases hall with
  | cons hplus _ => exact isHexDigit_ne_plus hplus rfl

/-- The number of a character tells the character. -/
theorem ofNatAux_eq_some_iff :
    (if h : n.isValidChar then some (Char.ofNatAux n h) else none) = some c ↔ n = c.toNat := by
  constructor
  · intro h
    by_cases hvalid : n.isValidChar
    · rw [dif_pos hvalid] at h
      obtain rfl := Option.some.inj h
      rfl
    · rw [dif_neg hvalid] at h
      cases h
  · rintro rfl
    have hvalid : c.toNat.isValidChar := c.valid
    rw [dif_pos hvalid]
    rfl

/-- A plus sign, if there is one, comes before the digits. -/
theorem unicodeChar?_eq_some_iff_sign : unicodeChar? group = some c ↔ ∃ sign digits,
    group = sign ++ digits ∧ (sign = [] ∨ sign = ['+']) ∧ digits ≠ [] ∧
      IsNumeral digits c.toNat := by
  have hdigits : ∀ digits : List Char,
      (if digits.isEmpty then none else (hexNumber? digits).bind fun n =>
        if h : n.isValidChar then some (Char.ofNatAux n h) else none) = some c ↔
      digits ≠ [] ∧ IsNumeral digits c.toNat := by
    intro digits
    cases digits with
    | nil => exact ⟨nofun, fun h => absurd rfl h.1⟩
    | cons d digits =>
      rw [List.isEmpty_cons, if_neg Bool.false_ne_true, Option.bind_eq_some_iff]
      constructor
      · rintro ⟨n, hn, hc⟩
        obtain rfl := ofNatAux_eq_some_iff.1 hc
        exact ⟨List.cons_ne_nil _ _, hexNumber?_eq_some_iff.1 hn⟩
      · exact fun h => ⟨_, hexNumber?_eq_some_iff.2 h.2, ofNatAux_eq_some_iff.2 rfl⟩
  refine (hdigits _).trans ?_
  split
  · next rest =>
    constructor
    · exact fun h => ⟨['+'], rest, rfl, .inr rfl, h⟩
    · rintro ⟨sign, digits, hgroup, rfl | rfl, hne, hnumeral⟩
      · obtain rfl : '+' :: rest = digits := hgroup
        exact absurd hnumeral isNumeral_plus
      · obtain rfl := (List.cons.inj hgroup).2
        exact ⟨hne, hnumeral⟩
  · next hplus =>
    constructor
    · exact fun h => ⟨[], group, rfl, .inl rfl, h⟩
    · rintro ⟨sign, digits, rfl, rfl | rfl, hne, hnumeral⟩
      · exact ⟨hne, hnumeral⟩
      · exact absurd rfl (hplus digits)

/-- Of four characters or fewer, what is a number is four digits, or a loose number. -/
theorem unicodeChar?_eq_some_iff (hgroup : group.length ≤ 4) :
    unicodeChar? group = some c ↔ IsNumber group c := by
  rw [unicodeChar?_eq_some_iff_sign]
  constructor
  · rintro ⟨sign, digits, rfl, hsign, hne, hnumeral⟩
    by_cases hlength : digits.length < 4
    · exact .inr ⟨sign, digits, rfl, hsign, hne, hlength, hnumeral⟩
    · rw [List.length_append] at hgroup
      obtain rfl := List.length_eq_zero_iff.1 (show sign.length = 0 by omega)
      exact .inl ⟨by rw [List.nil_append]; omega, hnumeral⟩
  · rintro (⟨hlength, hnumeral⟩ | ⟨sign, digits, rfl, hsign, hne, -, hnumeral⟩)
    · refine ⟨[], group, rfl, .inl rfl, ?_, hnumeral⟩
      rintro rfl
      cases hlength
    · exact ⟨sign, digits, rfl, hsign, hne, hnumeral⟩

/-- No loose number is four digits. -/
theorem IsLoose.not_isFourDigits {d : Char} (h : IsLoose group c) : ¬ IsFourDigits group d := by
  rintro ⟨hlength, hnumeral⟩
  obtain ⟨sign, digits, rfl, rfl | rfl, -, hlt, -⟩ := h
  · rw [List.nil_append] at hlength
    omega
  · exact isNumeral_plus hnumeral

/-! ### Literals -/

/-- The letters that may stand after a backslash, and the characters that they stand for. -/
def escapeLetters : List (Char × Char) :=
  [('n', '\n'), ('t', '\t'), ('r', '\r'), ('0', '\x00'), ('\\', '\\'), ('"', '"'), ('\'', '\'')]

/-- The text that a literal stands for. The number after `\u` is made of the next four characters,
or of fewer at the end of the literal. -/
inductive Denotes (Number : List Char → Char → Prop) : List Char → List Char → Prop
  | nil : Denotes Number [] []
  | plain {c : Char} {raw text : List Char} (hc : c ≠ '\\') (h : Denotes Number raw text) :
    Denotes Number (c :: raw) (c :: text)
  | letter {letter c : Char} {raw text : List Char} (hletter : (letter, c) ∈ escapeLetters)
    (h : Denotes Number raw text) : Denotes Number ('\\' :: letter :: raw) (c :: text)
  | number {c : Char} {raw text : List Char} (hnumber : Number (raw.take 4) c)
    (h : Denotes Number (raw.drop 4) text) : Denotes Number ('\\' :: 'u' :: raw) (c :: text)

/-- A loose number stands after `\u`, and only escapes of the language come before it. -/
def HasLooseNumber (raw : List Char) : Prop :=
  ∃ before read rest c, raw = before ++ '\\' :: 'u' :: rest ∧ Denotes IsFourDigits before read ∧
    IsLoose (rest.take 4) c

section Denotes

variable {Number : List Char → Char → Prop} {letter : Char}

theorem denotes_nil_iff : Denotes Number [] text ↔ text = [] := by
  constructor
  · rintro ⟨⟩
    rfl
  · rintro rfl
    exact .nil

theorem denotes_cons_iff (hc : c ≠ '\\') :
    Denotes Number (c :: raw) text ↔ ∃ more, text = c :: more ∧ Denotes Number raw more := by
  constructor
  · intro h
    cases h with
    | plain _ h => exact ⟨_, rfl, h⟩
    | letter | number => exact absurd rfl hc
  · rintro ⟨more, rfl, h⟩
    exact .plain hc h

theorem denotes_letter_iff (hletter : letter ≠ 'u') :
    Denotes Number ('\\' :: letter :: raw) text ↔
      ∃ c more, (letter, c) ∈ escapeLetters ∧ text = c :: more ∧ Denotes Number raw more := by
  constructor
  · intro h
    cases h with
    | plain hc => exact absurd rfl hc
    | letter hmem h => exact ⟨_, _, hmem, rfl, h⟩
    | number => exact absurd rfl hletter
  · rintro ⟨c, more, hmem, rfl, h⟩
    exact .letter hmem h

theorem denotes_number_iff : Denotes Number ('\\' :: 'u' :: raw) text ↔
    ∃ c more, Number (raw.take 4) c ∧ text = c :: more ∧ Denotes Number (raw.drop 4) more := by
  constructor
  · intro h
    cases h with
    | plain hc => exact absurd rfl hc
    | letter hmem => simp [escapeLetters] at hmem
    | number hnumber h => exact ⟨_, _, hnumber, rfl, h⟩
  · rintro ⟨c, more, hnumber, rfl, h⟩
    exact .number hnumber h

theorem not_denotes_backslash : ¬ Denotes Number ['\\'] text := by
  intro h
  cases h with
  | plain hc => exact hc rfl

end Denotes

theorem escapeChar?_eq_some_iff {letter : Char} :
    escapeChar? letter = some c ↔ (letter, c) ∈ escapeLetters := by
  constructor
  · intro h
    unfold escapeChar? at h
    split at h
    all_goals first
      | obtain rfl := Option.some.inj h
        decide
      | cases h
  · intro h
    simp only [escapeLetters, List.mem_cons, Prod.mk.injEq, List.not_mem_nil, or_false] at h
    rcases h with ⟨rfl, rfl⟩ | ⟨rfl, rfl⟩ | ⟨rfl, rfl⟩ | ⟨rfl, rfl⟩ | ⟨rfl, rfl⟩ | ⟨rfl, rfl⟩ |
      ⟨rfl, rfl⟩ <;> rfl

theorem bind_map_cons_eq_some_iff {o : Option Char} {more : Option (List Char)} :
    (o.bind fun e => more.map (e :: ·)) = some text ↔
      ∃ c rest, o = some c ∧ text = c :: rest ∧ more = some rest := by
  simp only [Option.bind_eq_some_iff, Option.map_eq_some_iff]
  constructor
  · rintro ⟨c, hc, rest, hrest, rfl⟩
    exact ⟨c, rest, hc, rfl, hrest⟩
  · rintro ⟨c, rest, hc, rfl, hrest⟩
    exact ⟨c, hc, rest, hrest, rfl⟩

/-- Which literals are read, and as what text. -/
theorem unescape?_eq_some_iff : unescape? raw = some text ↔ Denotes IsNumber raw text := by
  fun_induction unescape? raw generalizing text with
  | case1 => rw [denotes_nil_iff, Option.some.injEq, eq_comm]
  | case2 a b c d rest ih =>
    have hgroup : [a, b, c, d].length ≤ 4 := Nat.le_refl 4
    rw [bind_map_cons_eq_some_iff, denotes_number_iff]
    simp only [unicodeChar?_eq_some_iff hgroup, ih]
    rfl
  | case3 rest hrest =>
    have hlength : rest.length < 4 := by
      by_contra hle
      match rest, hle with
      | a :: b :: c :: d :: rest, _ => exact hrest a b c d rest rfl
      | [], h | [_], h | [_, _], h | [_, _, _], h => exact h (by simp)
    rw [denotes_number_iff, List.take_of_length_le (by omega), List.drop_of_length_le (by omega)]
    simp only [Option.map_eq_some_iff, unicodeChar?_eq_some_iff (Nat.le_of_lt hlength),
      denotes_nil_iff]
    constructor
    · rintro ⟨c, hc, rfl⟩
      exact ⟨c, [], hc, rfl, rfl⟩
    · rintro ⟨c, _, hc, rfl, rfl⟩
      exact ⟨c, hc, rfl⟩
  | case4 letter rest h1 h2 ih =>
    have hletter : letter ≠ 'u' := by
      rintro rfl
      exact h2 rfl
    rw [bind_map_cons_eq_some_iff, denotes_letter_iff hletter]
    simp only [escapeChar?_eq_some_iff, ih]
  | case5 => exact ⟨nofun, fun h => absurd h not_denotes_backslash⟩
  | case6 c rest _ _ hescape hend ih =>
    have hc : c ≠ '\\' := by
      rintro rfl
      cases rest with
      | nil => exact hend rfl rfl
      | cons letter rest => exact hescape letter rest rfl rfl
    simp only [denotes_cons_iff hc, Option.map_eq_some_iff, ih]
    constructor
    · rintro ⟨more, hmore, rfl⟩
      exact ⟨more, rfl, hmore⟩
    · rintro ⟨more, rfl, hmore⟩
      exact ⟨more, hmore, rfl⟩

/-- The escapes of the language are read as what they stand for. -/
theorem Denotes.mono {Number Number' : List Char → Char → Prop} (h : Denotes Number raw text)
    (hnumber : ∀ group c, Number group c → Number' group c) : Denotes Number' raw text := by
  induction h with
  | nil => exact .nil
  | plain hc _ ih => exact .plain hc ih
  | letter hletter _ ih => exact .letter hletter ih
  | number hgroup _ ih => exact .number (hnumber _ _ hgroup) ih

/-- Four digits are left as they are by what follows them. -/
theorem IsFourDigits.le_length (h : IsFourDigits (group.take 4) c) : 4 ≤ group.length := by
  have hlength := h.1
  rw [List.length_take] at hlength
  omega

theorem Denotes.append {read : List Char} (hbefore : Denotes IsFourDigits before read)
    (h : Denotes IsFourDigits raw text) : Denotes IsFourDigits (before ++ raw) (read ++ text) := by
  induction hbefore with
  | nil => exact h
  | plain hc _ ih => exact .plain hc ih
  | letter hletter _ ih => exact .letter hletter ih
  | number hgroup _ ih =>
    have hlength := hgroup.le_length
    rw [← List.drop_append_of_le_length hlength] at ih
    rw [← List.take_append_of_le_length hlength] at hgroup
    exact .number hgroup ih

/-- What follows a piece that is made of the escapes of the language is read on its own. -/
theorem Denotes.of_append {read : List Char} (hbefore : Denotes IsFourDigits before read)
    (h : Denotes IsFourDigits (before ++ raw) text) : ∃ more, Denotes IsFourDigits raw more := by
  induction hbefore generalizing text with
  | nil => exact ⟨text, h⟩
  | plain hc _ ih =>
    obtain ⟨_, -, h⟩ := (denotes_cons_iff hc).1 h
    exact ih h
  | letter hletter _ ih =>
    have hu : ∀ {letter c}, (letter, c) ∈ escapeLetters → letter ≠ 'u' := by
      rintro _ c hmem rfl
      simp [escapeLetters] at hmem
    obtain ⟨_, _, -, -, h⟩ := (denotes_letter_iff (hu hletter)).1 h
    exact ih h
  | number hgroup _ ih =>
    rw [List.cons_append, List.cons_append] at h
    obtain ⟨_, _, -, -, h⟩ := denotes_number_iff.1 h
    rw [List.drop_append_of_le_length hgroup.le_length] at h
    exact ih h

theorem HasLooseNumber.append {read : List Char} (hbefore : Denotes IsFourDigits before read)
    (h : HasLooseNumber raw) : HasLooseNumber (before ++ raw) := by
  obtain ⟨more, text, rest, c, rfl, hmore, hloose⟩ := h
  exact ⟨before ++ more, _, rest, c, (List.append_assoc _ _ _).symm, hbefore.append hmore, hloose⟩

/-- Where there is a loose number, the literal is not made of the escapes of the language. -/
theorem HasLooseNumber.not_denotes (h : HasLooseNumber raw) : ¬ Denotes IsFourDigits raw text := by
  obtain ⟨before, read, rest, c, rfl, hbefore, hloose⟩ := h
  intro h
  obtain ⟨_, hmore⟩ := hbefore.of_append h
  obtain ⟨_, _, hgroup, -, -⟩ := denotes_number_iff.1 hmore
  exact hloose.not_isFourDigits hgroup

/-- A literal that is read is made of the escapes of the language, or has a loose number. -/
theorem Denotes.isFourDigits_or (h : Denotes IsNumber raw text) :
    Denotes IsFourDigits raw text ∨ HasLooseNumber raw := by
  induction h with
  | nil => exact .inl .nil
  | plain hc _ ih => exact ih.imp (.plain hc) (.append (.plain hc .nil))
  | letter hletter _ ih => exact ih.imp (.letter hletter) (.append (.letter hletter .nil))
  | @number c raw _ hgroup _ ih =>
    obtain hgroup | hloose := hgroup
    · have hbefore : Denotes IsFourDigits ('\\' :: 'u' :: raw.take 4) [c] := by
        refine .number ?_ ?_
        · rwa [List.take_take, Nat.min_self]
        · rw [List.drop_take_self]
          exact .nil
      refine ih.imp (.number hgroup) fun h => ?_
      have happend := h.append hbefore
      rwa [List.cons_append, List.cons_append, List.take_append_drop] at happend
    · exact .inr ⟨[], [], raw, c, rfl, .nil, hloose⟩

theorem denotes_isFourDigits_iff :
    Denotes IsFourDigits raw text ↔ Denotes IsNumber raw text ∧ ¬ HasLooseNumber raw := by
  constructor
  · exact fun h => ⟨h.mono fun _ _ => .inl, fun hloose => hloose.not_denotes h⟩
  · exact fun ⟨h, hloose⟩ => h.isFourDigits_or.resolve_right hloose

/-! ### Literals as constants -/

namespace Grammar

/-- A literal is the constant of the text that it is read as. -/
theorem run_string_eq_ok_iff {t : Token} {rest : List Token} {text : String} :
    (string t).run rest = .ok (.ofValue (.string text), rest) ↔
      unescape? t.text.toList = some text.toList := by
  unfold string
  cases unescape? t.text.toList with
  | none => exact ⟨nofun, nofun⟩
  | some read =>
    constructor
    · intro h
      have htext : String.ofList read = text :=
        Value.string.inj (Expr.constant.inj (Prod.mk.inj (Except.ok.inj h)).1).2
      rw [← htext, String.toList_ofList]
    · intro h
      rw [Option.some.inj h]
      dsimp only
      rw [String.ofList_toList]
      rfl

/-- A literal without loose numbers is read exactly if it is made of the escapes of the language, as
the text that they stand for. One with a loose number is none of the language's, and is read all the
same if the rest of it can be. What is not read fails at the place of the literal. -/
theorem string_spec (t : Token) (rest : List Token) :
    (¬ HasLooseNumber t.text.toList → ∀ text,
      (string t).run rest = .ok (.ofValue (.string text), rest) ↔
        Denotes IsFourDigits t.text.toList text.toList) ∧
    (HasLooseNumber t.text.toList → ∀ text, ¬ Denotes IsFourDigits t.text.toList text.toList ∧
      ((string t).run rest = .ok (.ofValue (.string text), rest) ↔
        Denotes IsNumber t.text.toList text.toList)) ∧
    ((∀ text, (string t).run rest ≠ .ok (.ofValue (.string text), rest)) →
      (string t).run rest = .error (.invalidEscape t.start)) := by
  have hread : ∀ text, (string t).run rest = .ok (.ofValue (.string text), rest) ↔
      Denotes IsNumber t.text.toList text.toList := fun text => by
    rw [run_string_eq_ok_iff, unescape?_eq_some_iff]
  refine ⟨fun hloose text => ?_, fun hloose text => ⟨hloose.not_denotes, hread text⟩,
    fun hfail => ?_⟩
  · rw [hread, denotes_isFourDigits_iff]
    exact ⟨fun h => ⟨h, hloose⟩, And.left⟩
  · have hnone : unescape? t.text.toList = none := by
      refine Option.eq_none_iff_forall_ne_some.2 fun read hread => hfail (.ofList read) ?_
      rw [run_string_eq_ok_iff, String.toList_ofList, hread]
    unfold string
    rw [hnone]
    rfl

/-- A plus sign and three digits are read as the number of a character, and so are two digits at the
end of a literal. -/
theorem string_fails :
    parseLambda default "Person" "p => \"\\u+041\"" =
        .ok (.lambda [⟨"p", "Person"⟩] (.ofValue (.string "A"))) ∧
      parseLambda default "Person" "p => \"\\u41\"" =
        .ok (.lambda [⟨"p", "Person"⟩] (.ofValue (.string "A"))) ∧
      ∀ text, ¬ Denotes IsFourDigits "\\u+041".toList text ∧
        ¬ Denotes IsFourDigits "\\u41".toList text := by
  have hA : IsNumeral ['4', '1'] 'A'.toNat := hexNumber?_eq_some_iff.1 rfl
  have hA' : IsNumeral ['0', '4', '1'] 'A'.toNat := hexNumber?_eq_some_iff.1 rfl
  refine ⟨rfl, rfl, fun text => ⟨HasLooseNumber.not_denotes ?_, HasLooseNumber.not_denotes ?_⟩⟩
  · exact ⟨[], [], _, 'A', rfl, .nil, ['+'], _, rfl, .inr rfl, List.cons_ne_nil _ _,
      Nat.lt_succ_self 3, hA'⟩
  · exact ⟨[], [], _, 'A', rfl, .nil, [], _, rfl, .inl rfl, List.cons_ne_nil _ _, by decide, hA⟩

end Grammar

end PredicateSql
