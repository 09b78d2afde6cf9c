import PredicateSql.Proofs.Binary64.Positional
import PredicateSql.Proofs.Lambda.Names
import PredicateSql.Proofs.Lambda.Spelling

/-!
# Tokens of pieces of text

* `IsLexedAs`: which tokens a piece of text has, whatever follows it. `IsLexedAs.append`: two pieces
  after one another.
* `isLexedAs_mark`, `isLexedAs_name`, `isLexedAs_number`, `isLexedAs_string`: single tokens.
* `Value.ReadsBack`: the literal that a value is printed as stands for the value.
  `isLexedAs_value`: its token.
* `isLexedAs_suffix`, `isLexedAs_newName`: members, and types after `new`.
-/

namespace PredicateSql

open Text.Utf8 (encode decode encode_append encode_ofList decode_encode)
open Grammar (Names NamesNew IsLiteral)
open Binary64 (IsDecimal isDigits_nat)

/-! ### What follows a piece of text -/

/-- The bytes do not start with one of a class. -/
def Avoids (p : UInt8 → Bool) (v : List UInt8) : Prop :=
  ∀ b ∈ v.head?, p b = false

theorem takeWhile_append_avoids {p : UInt8 → Bool} {us v : List UInt8}
    (hus : ∀ b ∈ us, p b = true) (hv : Avoids p v) : (us ++ v).takeWhile p = us := by
  have hstop : v.takeWhile p = [] := by
    cases v with
    | nil => rfl
    | cons b v => simp [hv b rfl]
  rw [List.takeWhile_append_of_pos hus, hstop, List.append_nil]

/-- No word and no number goes on with the bytes. -/
structure Ends (v : List UInt8) : Prop where
  word : Avoids isWordByte v
  point : ∀ b ∈ v.head?, ascii b = '.' → Avoids isDigitByte v.tail

/-- An equals sign, which some operators end with. -/
def isEqualsByte (b : UInt8) : Bool :=
  ascii b == '='

/-- The text is not empty, and does not start with a byte of a class. -/
def Leads (p : UInt8 → Bool) (text : String) : Prop :=
  ∃ b rest, encode text = b :: rest ∧ p b = false

theorem Leads.avoids {p : UInt8 → Bool} {text : String} (h : Leads p text) (v : List UInt8) :
    Avoids p (encode text ++ v) := by
  obtain ⟨b, rest, hb, hp⟩ := h
  rw [hb]
  rintro d hd
  obtain rfl := Option.some.inj hd
  exact hp

theorem Leads.append {p : UInt8 → Bool} {a : String} (h : Leads p a) (b : String) :
    Leads p (a ++ b) := by
  obtain ⟨d, rest, hd, hp⟩ := h
  exact ⟨d, rest ++ encode b, by rw [encode_append, hd, List.cons_append], hp⟩

/-! ### Pieces of text -/

/-- Before bytes that satisfy `F`, the text has tokens that satisfy `P`, and what follows it has its
own ones. -/
def IsLexedAs (F : List UInt8 → Prop) (text : String) (P : List Token → Prop) : Prop :=
  ∀ (place : Nat) (v : List UInt8), F v → ∃ us place', P us ∧
    ∀ vs, Cursor.Lexes ⟨place', v⟩ vs none → Cursor.Lexes ⟨place, encode text ++ v⟩ (us ++ vs) none

section Pieces

variable {F G : List UInt8 → Prop} {P Q R : List Token → Prop} {a b text : String}

theorem IsLexedAs.imp (h : IsLexedAs F text P) (hF : ∀ v, G v → F v) (hP : ∀ us, P us → R us) :
    IsLexedAs G text R := by
  intro place v hv
  obtain ⟨us, place', hus, hlexes⟩ := h place v (hF v hv)
  exact ⟨us, place', hP us hus, hlexes⟩

theorem IsLexedAs.append (ha : IsLexedAs F a P) (hb : IsLexedAs G b Q)
    (hnext : ∀ v, G v → F (encode b ++ v)) (hR : ∀ us vs, P us → Q vs → R (us ++ vs)) :
    IsLexedAs G (a ++ b) R := by
  intro place v hv
  obtain ⟨us, place', hus, hfirst⟩ := ha place (encode b ++ v) (hnext v hv)
  obtain ⟨vs, place'', hvs, hsecond⟩ := hb place' v hv
  refine ⟨us ++ vs, place'', hR us vs hus hvs, fun ws hws => ?_⟩
  rw [encode_append, List.append_assoc, List.append_assoc]
  exact hfirst _ (hsecond ws hws)

/-- One token, which ends where the text does. -/
theorem isLexedAs_token {d : UInt8} {rest : List UInt8} {kind : TokenKind}
    (htext : encode text = d :: rest) (hd : isSpaceByte d = false)
    (hscan : ∀ v, F v → scan d (rest ++ v) = .token kind rest.length)
    (hP : ∀ place, P [⟨kind, place, encode text⟩]) : IsLexedAs F text P := by
  intro place v hv
  refine ⟨_, place + (rest.length + 1), hP place, fun vs hvs => ?_⟩
  have hskip : (⟨place, encode text ++ v⟩ : Cursor).skipBlanks = ⟨place, d :: (rest ++ v)⟩ := by
    simp [Cursor.skipBlanks, Cursor.advance, htext, hd]
  have hadvance : (⟨place, encode text ++ v⟩ : Cursor).skipBlanks.advance (rest.length + 1) =
      ⟨place + (rest.length + 1), v⟩ := by
    rw [hskip, Cursor.advance, List.drop_succ_cons, List.drop_left]
  have htoken := Cursor.Lexes.token (by rw [hskip]) (hscan v hv) (hadvance ▸ hvs)
  rw [hskip, List.take_left, ← htext] at htoken
  exact htoken

/-- A blank between tokens. -/
theorem isLexedAs_blank : IsLexedAs (fun _ => True) " " (· = []) := by
  refine fun place v _ => ⟨[], place + 1, rfl, fun vs hvs => hvs.of_skipBlanks ?_⟩
  exact Cursor.skipBlanks_append_of_nil (c := ⟨place, encode " "⟩) rfl v

theorem IsLexedAs.blank_left (h : IsLexedAs F text P) : IsLexedAs F (" " ++ text) P := by
  refine isLexedAs_blank.append h (fun _ _ => trivial) ?_
  rintro us vs rfl hvs
  exact hvs

theorem IsLexedAs.blank_right (h : IsLexedAs F text P) (hF : ∀ v, F (32 :: v)) :
    IsLexedAs (fun _ => True) (text ++ " ") P := by
  refine h.append isLexedAs_blank (fun v _ => hF v) ?_
  rintro us vs hus rfl
  rwa [List.append_nil]

/-- One token of a kind. -/
def IsMark (kind : TokenKind) (ts : List Token) : Prop :=
  ∃ t : Token, ts = [t] ∧ t.kind = kind

/-- A token that takes one byte, whatever follows it. -/
theorem isLexedAs_mark {d : UInt8} {kind : TokenKind} (htext : encode text = [d])
    (hd : isSpaceByte d = false) (hscan : ∀ v, scan d v = .token kind 0) :
    IsLexedAs (fun _ => True) text (IsMark kind) :=
  isLexedAs_token htext hd (fun v _ => hscan v) fun _ => ⟨_, rfl, rfl⟩

/-! ### Words -/

theorem isSpaceByte_of_isWordByte {d : UInt8} (hd : isWordByte d = true) :
    isSpaceByte d = false := by
  by_contra hspace
  have hspace : isSpaceByte d = true := by simpa using hspace
  simp only [isSpaceByte, List.contains_cons, List.contains_nil, Bool.or_eq_true, beq_iff_eq,
    Bool.or_false] at hspace
  simp only [isWordByte, isWordStart, isDigitByte] at hd
  rcases hspace with h | h | h | h | h <;> rw [h] at hd <;> exact absurd hd (by decide)

/-- A word before something that does not go on with it. -/
theorem isLexedAs_word {d : UInt8} {rest : List UInt8} (htext : encode text = d :: rest)
    (hd : isWordStart d = true) (hrest : ∀ b ∈ rest, isWordByte b = true)
    (hP : ∀ place, P [⟨wordKind (encode text), place, encode text⟩]) :
    IsLexedAs (Avoids isWordByte) text P := by
  have hspace : isSpaceByte d = false :=
    isSpaceByte_of_isWordByte (by rw [isWordByte, hd, Bool.true_or])
  refine isLexedAs_token htext hspace (fun v hv => ?_) hP
  rw [scan_of_isWordStart hd, takeWhile_append_avoids hrest hv, ← htext]

theorem isLexedAs_keyword {d : UInt8} {rest : List UInt8} {kind : TokenKind}
    (htext : encode text = d :: rest) (hd : isWordStart d = true)
    (hrest : ∀ b ∈ rest, isWordByte b = true) (hkind : wordKind (encode text) = kind) :
    IsLexedAs (Avoids isWordByte) text (IsMark kind) :=
  isLexedAs_word htext hd hrest fun _ => ⟨_, rfl, hkind⟩

theorem IsName.leads {name : String} (h : IsName name) {p : UInt8 → Bool}
    (hp : ∀ b, isWordStart b = true → p b = false) : Leads p name := by
  obtain ⟨b, rest, hb, hscan⟩ := h
  exact ⟨b, rest, hb, hp b (isWordStart_of_scan hscan)⟩

/-- A name before something that does not go on with it. -/
theorem isLexedAs_name {name : String} (h : IsName name) :
    IsLexedAs (Avoids isWordByte) name fun ts => ∃ t, ts = [t] ∧ Names t name := by
  obtain ⟨b, rest, hb, hscan⟩ := h
  obtain ⟨hkind, hlength⟩ := Scan.token.inj (hscan.symm.trans (scan_eq_word hscan rest))
  have hrest : rest.takeWhile isWordByte = rest :=
    (List.takeWhile_prefix isWordByte).eq_of_length hlength.symm
  rw [hrest, ← hb] at hkind
  have hall := List.takeWhile_eq_self_iff.1 hrest
  refine isLexedAs_word hb (isWordStart_of_scan hscan) hall fun place => ⟨_, rfl, ⟨hkind.symm, ?_⟩⟩
  rw [← hkind]
  simp [Token.text, Token.contents, Token.opening, Token.closing, decode_encode]

/-! ### Numbers -/

theorem isAlpha_of_isDigit {c : Char} (h : c.isDigit = true) : c.isAlpha = false := by
  rw [Bool.eq_false_iff]
  intro halpha
  unfold Char.isAlpha Char.isUpper Char.isLower at halpha
  simp only [Char.isDigit, Bool.or_eq_true, Bool.and_eq_true, decide_eq_true_eq, ge_iff_le,
    UInt32.le_iff_toNat_le] at h halpha
  obtain ⟨hupper, -⟩ | ⟨hlower, -⟩ := halpha
  · exact absurd (hupper.trans h.2) (by decide)
  · exact absurd (hlower.trans h.2) (by decide)

theorem toNat_lt_of_isDigit {c : Char} (h : c.isDigit = true) : c.toNat < 128 := by
  simp only [Char.isDigit, Bool.and_eq_true, decide_eq_true_eq, UInt32.le_iff_toNat_le] at h
  have hle : c.toNat ≤ 57 := h.2
  omega

/-- ASCII characters take a byte each. -/
theorem exists_encode_ascii {cs : List Char} (h : ∀ c ∈ cs, c.toNat < 128) :
    ∃ bytes, encode (.ofList cs) = bytes ∧ bytes.map ascii = cs := by
  refine ⟨_, rfl, ?_⟩
  rw [encode_ofList]
  induction cs with
  | nil => rfl
  | cons c cs ih =>
    obtain ⟨b, hb, hascii⟩ := utf8EncodeChar_ascii (h c List.mem_cons_self)
    rw [List.flatMap_cons, hb, List.map_append, ih fun d hd => h d (List.mem_cons_of_mem c hd),
      List.map_singleton, hascii]
    rfl

theorem scan_of_isDigitByte {d : UInt8} (hd : isDigitByte d = true) (rest : List UInt8) :
    scan d rest = .token .number (numberLength rest) := by
  unfold scan
  split
  case h_25 =>
    rw [if_neg, if_pos hd]
    intro hword
    rw [isDigitByte] at hd
    rw [isWordStart, isAlpha_of_isDigit hd, Bool.false_or, beq_iff_eq] at hword
    rw [hword] at hd
    exact absurd hd (by decide)
  all_goals
    next heq =>
      rw [isDigitByte, heq] at hd
      exact absurd hd (by decide)

theorem isWordByte_of_isSuffixByte {b : UInt8} (h : isSuffixByte b = true) :
    isWordByte b = true := by
  by_cases hupper : (ascii b).isUpper = true
  · have halpha : (ascii b).isAlpha = true := by
      unfold Char.isAlpha
      rw [hupper, Bool.true_or]
    rw [isWordByte, isWordStart, halpha]
    rfl
  · have hlower : (ascii b).toLower = ascii b := by
      unfold Char.isUpper at hupper
      rw [decide_eq_true_eq] at hupper
      unfold Char.toLower
      rw [dif_neg hupper]
    simp only [isSuffixByte, hlower, List.contains_iff_mem, List.mem_cons, List.not_mem_nil,
      or_false] at h
    have halpha : (ascii b).isAlpha = true := by
      rcases h with h | h | h | h | h <;> rw [h] <;> rfl
    rw [isWordByte, isWordStart, halpha, Bool.true_or, Bool.true_or]

theorem Ends.avoids_digit {v : List UInt8} (h : Ends v) : Avoids isDigitByte v := by
  intro b hb
  have hword := h.word b hb
  rw [isWordByte, Bool.or_eq_false_iff] at hword
  exact hword.2

theorem Ends.takeWhile_suffix {v : List UInt8} (h : Ends v) : v.takeWhile isSuffixByte = [] := by
  refine @takeWhile_append_avoids _ [] v nofun fun b hb => ?_
  by_contra hsuffix
  have hword := isWordByte_of_isSuffixByte (by simpa using hsuffix)
  rw [h.word b hb] at hword
  cases hword

/-- A number stops before something that no number goes on with. -/
theorem afterDigitsLength_of_ends {v : List UInt8} (h : Ends v) : afterDigitsLength v = 0 := by
  have hfraction : fractionLength v = 0 := by
    rcases v with _ | ⟨b, v⟩
    · rfl
    by_cases hb : ascii b = '.'
    · rw [fractionLength_point hb, if_pos]
      exact @takeWhile_append_avoids _ [] v nofun (h.point b rfl hb)
    · exact fractionLength_other hb
  rw [afterDigitsLength, hfraction, List.drop_zero, h.takeWhile_suffix]
  rfl

theorem numberLength_whole {rest v : List UInt8} (hrest : ∀ b ∈ rest, isDigitByte b = true)
    (hv : Ends v) : numberLength (rest ++ v) = rest.length := by
  rw [numberLength_eq, takeWhile_append_avoids hrest hv.avoids_digit, List.drop_left,
    afterDigitsLength_of_ends hv, Nat.add_zero]

theorem numberLength_point {whole fraction v : List UInt8} {p : UInt8}
    (hwhole : ∀ b ∈ whole, isDigitByte b = true) (hp : ascii p = '.')
    (hfraction : ∀ b ∈ fraction, isDigitByte b = true) (hne : fraction ≠ []) (hv : Ends v) :
    numberLength (whole ++ p :: (fraction ++ v)) = (whole ++ p :: fraction).length := by
  have hpoint : Avoids isDigitByte (p :: (fraction ++ v)) := by
    rintro b hb
    obtain rfl := Option.some.inj hb
    rw [isDigitByte, hp]
    decide
  have hlength : fractionLength (p :: (fraction ++ v)) = 1 + fraction.length := by
    rw [fractionLength_point hp, takeWhile_append_avoids hfraction hv.avoids_digit, if_neg hne]
  have hafter : afterDigitsLength (p :: (fraction ++ v)) = 1 + fraction.length := by
    have hdrop : (p :: (fraction ++ v)).drop (1 + fraction.length) = v := by
      rw [Nat.add_comm, List.drop_succ_cons, List.drop_left]
    rw [afterDigitsLength, hlength, hdrop, hv.takeWhile_suffix]
    rfl
  rw [numberLength_eq, takeWhile_append_avoids hwhole hpoint, List.drop_left, hafter,
    List.length_append, List.length_cons]
  omega

theorem toNat_lt_of_isDecimal {cs : List Char} (h : IsDecimal cs) :
    ∀ c ∈ cs, c.toNat < 128 := by
  cases h with
  | whole _ hdigits => exact fun c hc => toNat_lt_of_isDigit (hdigits c hc)
  | point _ hdigits _ hfraction =>
    intro c hc
    rcases List.mem_append.1 hc with hc | hc
    · exact toNat_lt_of_isDigit (hdigits c hc)
    rcases List.mem_cons.1 hc with rfl | hc
    · decide
    · exact toNat_lt_of_isDigit (hfraction c hc)

/-- The bytes of digits. -/
theorem isDigitByte_of_map {bytes : List UInt8} {cs : List Char} (hbytes : bytes.map ascii = cs)
    (h : ∀ c ∈ cs, c.isDigit = true) : ∀ b ∈ bytes, isDigitByte b = true :=
  fun _ hb => h _ (hbytes ▸ List.mem_map_of_mem hb)

/-- A number is one token, before something that does not go on with it. -/
theorem exists_scan_of_isDecimal {bytes : List UInt8} (h : IsDecimal (bytes.map ascii)) :
    ∃ d rest, bytes = d :: rest ∧ isDigitByte d = true ∧
      ∀ v, Ends v → numberLength (rest ++ v) = rest.length := by
  generalize hcs : bytes.map ascii = cs at h
  cases h with
  | whole hne hdigits =>
    have hall := isDigitByte_of_map hcs hdigits
    rcases bytes with _ | ⟨d, rest⟩
    · exact absurd hcs.symm hne
    obtain ⟨hd, hrest⟩ := List.forall_mem_cons.1 hall
    exact ⟨d, rest, rfl, hd, fun v hv => numberLength_whole hrest hv⟩
  | point hne hdigits hne' hfraction =>
    obtain ⟨us, more, rfl, hus, hmore⟩ := List.map_eq_append_iff.1 hcs
    obtain ⟨p, vs, rfl, hp, hvs⟩ := List.map_eq_cons_iff.1 hmore
    have hwhole := isDigitByte_of_map hus hdigits
    rcases us with _ | ⟨d, rest⟩
    · exact absurd hus.symm hne
    obtain ⟨hd, hrest⟩ := List.forall_mem_cons.1 hwhole
    have hvs' : vs ≠ [] := by
      rintro rfl
      exact hne' hvs.symm
    refine ⟨d, rest ++ p :: vs, rfl, hd, fun v hv => ?_⟩
    rw [List.append_assoc, List.cons_append]
    exact numberLength_point hrest hp (isDigitByte_of_map hvs hfraction) hvs' hv

/-- A number before something that does not go on with it. -/
theorem isLexedAs_number {cs : List Char} (h : IsDecimal cs) :
    IsLexedAs Ends (.ofList cs)
      fun ts => ∃ t, ts = [t] ∧ t.kind = .number ∧ t.text.toList = cs := by
  obtain ⟨bytes, hbytes, hmap⟩ := exists_encode_ascii (toNat_lt_of_isDecimal h)
  obtain ⟨d, rest, rfl, hd, hlength⟩ := exists_scan_of_isDecimal (hmap ▸ h)
  have hspace : isSpaceByte d = false :=
    isSpaceByte_of_isWordByte (by rw [isWordByte, hd, Bool.or_true])
  refine isLexedAs_token hbytes hspace (fun v hv => ?_) fun place => ⟨_, rfl, rfl, ?_⟩
  · rw [scan_of_isDigitByte hd, hlength v hv]
  · simp [Token.text, Token.contents, Token.opening, Token.closing, decode_encode]

/-! ### Strings -/

/-- The text stands between quotes as it is. -/
def IsPlain (text : String) : Prop :=
  ∀ c ∈ text.toList, c ≠ '"' ∧ c ≠ '\\'

theorem unescape?_of_isPlain {cs : List Char} (h : ∀ c ∈ cs, c ≠ '"' ∧ c ≠ '\\') :
    unescape? cs = some cs := by
  induction cs with
  | nil => rfl
  | cons c cs ih =>
    rw [unescape?_cons (h c List.mem_cons_self).2, ih fun d hd => h d (List.mem_cons_of_mem c hd)]
    rfl

/-- A literal without escapes. -/
theorem isLexedAs_string (h : IsPlain text) : IsLexedAs (fun _ => True) ("\"" ++ text ++ "\"")
    fun ts => ∃ t, ts = [t] ∧ t.kind = .string ∧ t.text = text := by
  have hbytes : ∀ d ∈ encode text, ascii d ≠ '\\' ∧ ascii d ≠ '"' := by
    intro d hd
    rw [← String.ofList_toList (s := text), encode_ofList] at hd
    obtain ⟨c, hc, hd⟩ := List.mem_flatMap.1 hd
    obtain ⟨hquote, hbackslash⟩ := h c hc
    exact ⟨fun heq => hbackslash (eq_of_mem_utf8EncodeChar hd (by decide) heq),
      fun heq => hquote (eq_of_mem_utf8EncodeChar hd (by decide) heq)⟩
  have hencode : encode ("\"" ++ text ++ "\"") = 34 :: (encode text ++ [34]) := by
    rw [encode_append, encode_append]
    rfl
  have hclosed : ∀ v, escapedLength '"' (encode text ++ [34] ++ v) =
      some (encode text ++ [34]).length := by
    intro v
    have hquote : escapedLength '"' ([34] ++ v) = some 1 := by
      rw [List.singleton_append, escapedLength.eq_def]
      rfl
    rw [List.append_assoc, escapedLength_plain hbytes, hquote, List.length_append, Option.map_some,
      Nat.add_comm, List.length_singleton]
  refine isLexedAs_token hencode (by decide) (fun v _ => ?_) fun place => ⟨_, rfl, rfl, ?_⟩
  · show Scan.literal .string (escapedLength '"' (encode text ++ [34] ++ v)) = _
    rw [hclosed]
    rfl
  · simp [Token.text, Token.contents, Token.opening, Token.closing, hencode, decode_encode]

/-! ### Constants -/

theorem takeWhile_not_isAlpha {cs : List Char} (h : IsDecimal cs) :
    cs.takeWhile (fun c => !c.isAlpha) = cs := by
  rw [List.takeWhile_eq_self_iff]
  intro c hc
  rw [Bool.not_eq_true']
  cases h with
  | whole _ hdigits => exact isAlpha_of_isDigit (hdigits c hc)
  | point _ hdigits _ hfraction =>
    rcases List.mem_append.1 hc with hc | hc
    · exact isAlpha_of_isDigit (hdigits c hc)
    rcases List.mem_cons.1 hc with rfl | hc
    · rfl
    · exact isAlpha_of_isDigit (hfraction c hc)

/-- Without a point, a number is a whole one. -/
theorem number?_nat {n : Nat} (h : n < 9223372036854775808) :
    number? (toString n).toList = some (.ofValue (.int (.ofNat n))) := by
  have hdigits := isDigits_nat n
  have htake := takeWhile_not_isAlpha (.whole hdigits.ne hdigits.isDigit)
  have hpoint : (toString n).toList.contains '.' = false := by
    rw [Bool.eq_false_iff]
    intro hmem
    exact absurd (hdigits.isDigit _ (List.contains_iff_mem.1 hmem)) (by decide)
  unfold number?
  simp only [htake, hpoint, hdigits.value, List.drop_length, List.map_nil, if_pos h]
  rfl

/-- With a point, a number is a float. -/
theorem number?_point {cs : List Char} (h : IsDecimal cs) (hpoint : '.' ∈ cs) :
    number? cs = some (.constant .float (.float (floatOfDigits cs))) := by
  have hcontains : cs.contains '.' = true := List.contains_iff_mem.2 hpoint
  unfold number?
  simp only [takeWhile_not_isAlpha h, hcontains, List.drop_length, List.map_nil, Bool.true_or,
    if_true]
  rfl

/-- The literal that a value is printed as stands for the value: strings are printed without
escapes, and in a literal no exponent follows the digits. -/
def Value.ReadsBack : Value → Prop
  | .string s => IsPlain s
  | .float x => ∀ c ∈ (Binary64.render x).toList, c.isDigit = true ∨ c = '.'
  | _ => True

theorem leads_of_isDecimal {cs : List Char} (h : IsDecimal cs) {p : UInt8 → Bool}
    (hp : ∀ b, isDigitByte b = true → p b = false) : Leads p (.ofList cs) := by
  obtain ⟨bytes, hbytes, hmap⟩ := exists_encode_ascii (toNat_lt_of_isDecimal h)
  obtain ⟨d, rest, rfl, hd, -⟩ := exists_scan_of_isDecimal (hmap ▸ h)
  exact ⟨d, rest, hbytes, hp d hd⟩

theorem isEqualsByte_of_isWordByte {b : UInt8} (h : isWordByte b = true) :
    isEqualsByte b = false := by
  rw [isEqualsByte, beq_eq_false_iff_ne]
  intro heq
  rw [isWordByte, isWordStart, isDigitByte, heq] at h
  exact absurd h (by decide)

theorem isEqualsByte_of_isWordStart {b : UInt8} (h : isWordStart b = true) :
    isEqualsByte b = false :=
  isEqualsByte_of_isWordByte (by rw [isWordByte, h, Bool.true_or])

theorem isEqualsByte_of_isDigitByte {b : UInt8} (h : isDigitByte b = true) :
    isEqualsByte b = false :=
  isEqualsByte_of_isWordByte (by rw [isWordByte, h, Bool.or_true])

/-- The text of an integer that is not negative. -/
theorem toString_toInt {i : Int64} (h : 0 ≤ i.toInt) :
    ∃ n : Nat, n < 9223372036854775808 ∧ i = .ofNat n ∧ toString i.toInt = toString n := by
  obtain ⟨n, hn⟩ := Int.eq_ofNat_of_zero_le h
  have hlt := i.toInt_lt
  refine ⟨n, by omega, ?_, by rw [hn]; rfl⟩
  rw [← Int64.ofInt_toInt i, hn]
  rfl

/-- A constant is printed as one literal. -/
theorem isLexedAs_value {v : Value} (hv : v.IsSource) (h : v.ReadsBack) :
    Leads isEqualsByte v.render ∧
      IsLexedAs Ends v.render fun ts => ∃ t, ts = [t] ∧ IsLiteral t v := by
  have hkeyword : ∀ {text : String} {d : UInt8} {rest : List UInt8} {kind : TokenKind},
      encode text = d :: rest → isWordStart d = true → (∀ b ∈ rest, isWordByte b = true) →
      wordKind (encode text) = kind → (∀ t : Token, t.kind = kind → IsLiteral t v) →
      Leads isEqualsByte text ∧ IsLexedAs Ends text fun ts => ∃ t, ts = [t] ∧ IsLiteral t v := by
    intro text d rest kind htext hd hrest hkind hliteral
    refine ⟨⟨d, rest, htext, isEqualsByte_of_isWordStart hd⟩, ?_⟩
    refine (isLexedAs_keyword htext hd hrest hkind).imp (fun _ hv => hv.word) ?_
    rintro us ⟨t, rfl, ht⟩
    exact ⟨t, rfl, hliteral t ht⟩
  have hnumber : ∀ {cs : List Char} {type : ValueType}, IsDecimal cs →
      number? cs = some (.constant type v) →
      Leads isEqualsByte (.ofList cs) ∧
        IsLexedAs Ends (.ofList cs) fun ts => ∃ t, ts = [t] ∧ IsLiteral t v := by
    intro cs type hcs hread
    refine ⟨leads_of_isDecimal hcs fun b => isEqualsByte_of_isDigitByte, ?_⟩
    refine (isLexedAs_number hcs).imp (fun _ => id) ?_
    rintro us ⟨t, rfl, hkind, htext⟩
    exact ⟨t, rfl, .number hkind (htext ▸ hread)⟩
  cases v with
  | null => exact hkeyword rfl (by decide) (List.all_eq_true.1 rfl) rfl fun _ => .null
  | bool b =>
    cases b with
    | true => exact hkeyword rfl (by decide) (List.all_eq_true.1 rfl) rfl fun _ => .true
    | false => exact hkeyword rfl (by decide) (List.all_eq_true.1 rfl) rfl fun _ => .false
  | int i =>
    obtain ⟨n, hlt, rfl, htext⟩ := toString_toInt hv
    rw [Value.render, htext, ← String.ofList_toList (s := toString n)]
    exact hnumber (.whole (isDigits_nat n).ne (isDigits_nat n).isDigit) (number?_nat hlt)
  | float x =>
    obtain ⟨hdecimal, hpoint, hread⟩ := Binary64.floatOfDigits_render h
    have hvalue := number?_point hdecimal hpoint
    rw [hread] at hvalue
    rw [Value.render, ← String.ofList_toList (s := Binary64.render x)]
    exact hnumber hdecimal hvalue
  | string text =>
    refine ⟨⟨34, _, by rw [Value.render, encode_append, encode_append]; rfl, by decide⟩, ?_⟩
    refine (isLexedAs_string h).imp (fun _ _ => trivial) ?_
    rintro us ⟨t, rfl, hkind, rfl⟩
    refine ⟨t, rfl, ?_⟩
    rw [← String.ofList_toList (s := t.text)]
    exact .string hkind (unescape?_of_isPlain h)
  | date | dateTime | bytes | list | record => exact hv.elim

/-! ### Names -/

/-- A name after a point. -/
theorem isLexedAs_suffix {name : String} (h : IsName name) :
    IsLexedAs (Avoids isWordByte) ("." ++ name)
      fun ts => ∃ dot u, ts = [dot, u] ∧ dot.kind = .dot ∧ Names u name := by
  refine (isLexedAs_mark rfl (by decide) fun _ => rfl).append (isLexedAs_name h)
    (fun _ _ => trivial) ?_
  rintro us vs ⟨dot, rfl, hdot⟩ ⟨u, rfl, hu⟩
  exact ⟨dot, u, rfl, hdot, hu⟩

/-- No number goes on with a name. -/
theorem ends_suffix {name : String} (h : IsName name) (v : List UInt8) :
    Ends (encode ("." ++ name) ++ v) := by
  have hdigit : ∀ b, isWordStart b = true → isDigitByte b = false := by
    intro b hb
    rw [Bool.eq_false_iff]
    intro hd
    rw [isDigitByte] at hd
    rw [isWordStart, isAlpha_of_isDigit hd, Bool.false_or, beq_iff_eq] at hb
    rw [hb] at hd
    exact absurd hd (by decide)
  have hencode : encode ("." ++ name) ++ v = 46 :: (encode name ++ v) := by
    rw [encode_append]
    rfl
  rw [hencode]
  refine ⟨?_, fun b hb _ => (h.leads hdigit).avoids v⟩
  rintro b hb
  obtain rfl := Option.some.inj hb
  rfl

/-- A token that another one starts with, which ends in an equals sign. -/
theorem isLexedAs_shorter {d : UInt8} {kind longer : TokenKind} (htext : encode text = [d])
    (hd : isSpaceByte d = false) (hscan : ∀ v, scan d v =
      if goesOnWith '=' v then .token longer 1 else .token kind 0) :
    IsLexedAs (Avoids isEqualsByte) text (IsMark kind) := by
  refine isLexedAs_token htext hd (fun v hv => ?_) fun _ => ⟨_, rfl, rfl⟩
  have hgoes : ¬ goesOnWith '=' v = true := by
    rcases v with _ | ⟨b, v⟩
    · nofun
    · exact Bool.eq_false_iff.1 (hv b rfl)
  rw [List.nil_append, hscan, if_neg hgoes]
  rfl

/-- Brackets with nothing between them. -/
theorem isLexedAs_brackets : IsLexedAs (fun _ => True) "[]" fun ts => ∃ opening closing : Token,
    ts = [opening, closing] ∧ opening.kind = .bracketLeft ∧ closing.kind = .bracketRight := by
  refine IsLexedAs.append (a := "[") (b := "]") (isLexedAs_mark rfl (by decide) fun _ => rfl)
    (isLexedAs_mark rfl (by decide) fun _ => rfl) (fun _ _ => trivial) ?_
  rintro us vs ⟨opening, rfl, hopening⟩ ⟨closing, rfl, hclosing⟩
  exact ⟨opening, closing, rfl, hopening, hclosing⟩

/-- A type name before arguments. -/
theorem isLexedAs_newName {type : String} (h : IsNewName type) :
    IsLexedAs (fun v => v.head? = some 40) type fun ts => NamesNew ts type := by
  have havoids : ∀ {p : UInt8 → Bool}, p 40 = false → ∀ v : List UInt8, v.head? = some 40 →
      Avoids p v := by
    intro p hp v hv b hb
    obtain rfl := Option.some.inj (hv.symm.trans hb)
    exact hp
  cases h with
  | word h =>
    refine (isLexedAs_name h).imp (havoids rfl) ?_
    rintro us ⟨t, rfl, ht⟩
    exact .word ht
  | @generic name arg h harg =>
    have hless : IsLexedAs (Avoids isEqualsByte) "<" (IsMark .less) :=
      isLexedAs_shorter rfl (by decide) fun _ => rfl
    have hgreater : IsLexedAs (Avoids isEqualsByte) ">" (IsMark .greater) :=
      isLexedAs_shorter rfl (by decide) fun _ => rfl
    have hopened : IsLexedAs (Avoids isEqualsByte) (name ++ "<")
        fun ts => ∃ t less, ts = [t, less] ∧ Names t name ∧ less.kind = .less := by
      refine (isLexedAs_name h).append hless (fun v _ => Leads.avoids ⟨_, _, rfl, rfl⟩ v) ?_
      rintro us vs ⟨t, rfl, ht⟩ ⟨less, rfl, hless⟩
      exact ⟨t, less, rfl, ht, hless⟩
    have hargument : IsLexedAs (Avoids isWordByte) (name ++ "<" ++ arg)
        fun ts => ∃ t less u, ts = [t, less, u] ∧ Names t name ∧ less.kind = .less ∧
          Names u arg := by
      refine hopened.append (isLexedAs_name harg)
        (fun v _ => (harg.leads fun b => isEqualsByte_of_isWordStart).avoids v) ?_
      rintro us vs ⟨t, less, rfl, ht, hless⟩ ⟨u, rfl, hu⟩
      exact ⟨t, less, u, rfl, ht, hless, hu⟩
    refine (hargument.append hgreater (fun v _ => Leads.avoids ⟨_, _, rfl, rfl⟩ v) ?_).imp
      (havoids rfl) fun _ => id
    rintro us vs ⟨t, less, u, rfl, ht, hless, hu⟩ ⟨greater, rfl, hgreater⟩
    exact .generic ht hless hu hgreater
  | @array name h =>
    refine (isLexedAs_name h).append (isLexedAs_brackets.imp (fun _ _ => trivial) fun _ => id)
      (fun v _ => Leads.avoids ⟨_, _, rfl, rfl⟩ v) ?_
    rintro us vs ⟨t, rfl, ht⟩ ⟨opening, closing, rfl, hopening, hclosing⟩
    exact .array ht hopening hclosing

end Pieces

end PredicateSql
