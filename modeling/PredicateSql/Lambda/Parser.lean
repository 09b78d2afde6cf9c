import PredicateSql.Lambda.Lexer
import PredicateSql.Lambda.Literal
import PredicateSql.Lambda.Typing

/-!
# From tokens to expressions

The text `p => p.Age > 30 && !p.Name.StartsWith("A")` is a lambda over a model.

* `ParseError`: why a text is no lambda.
* `Parser`: a computation that takes tokens off the front of a list.
* `Grammar.expression`: an expression whose operators bind at least as tightly as a given power.
  Powers stand for precedence: a higher one binds more tightly. Every nested expression takes one
  level of a depth, so the depth bounds the recursion.
* `parseLambda`: the tree of a lambda. Members and methods are declared on the types that the
  catalog gives to what they are taken of.
-/

namespace PredicateSql

/-- The greatest number of levels in a tree. -/
def maxDepth : Nat := 200

/-- Why a text is no lambda. -/
inductive ParseError where
  | noExpression
  | lexical (error : LexicalError)
  | expected (what : String) (place : Nat)
  | unexpectedToken (kind : TokenKind) (place : Nat)
  | unexpectedEnd
  | unknownIdentifier (name : String)
  | invalidNumber (text : String)
  | invalidEscape (place : Nat)
  | tooDeep
  deriving Repr, DecidableEq, Inhabited

/-- The wording of a parse error. -/
def ParseError.message : ParseError → String
  | .noExpression => "empty input"
  | .lexical error => "lexical error: " ++ error.message
  | .expected what place => "expected " ++ what ++ " at " ++ toString place
  | .unexpectedToken kind place => "unexpected token " ++ kind.name ++ " at " ++ toString place
  | .unexpectedEnd => "unexpected end of input"
  | .unknownIdentifier name => "unknown identifier '" ++ name ++ "'"
  | .invalidNumber text => "invalid number literal '" ++ text ++ "'"
  | .invalidEscape place => "invalid escape sequence at " ++ toString place
  | .tooDeep => "expression nests deeper than " ++ toString maxDepth ++ " levels"

/-- The error about a token that cannot stand where it does. -/
def ParseError.ofToken (t : Token) : ParseError :=
  .unexpectedToken t.kind t.start

/-- A computation that takes tokens off the front of a list. -/
abbrev Parser (α : Type) := StateT (List Token) (Except ParseError) α

/-- What a lambda is parsed with. -/
structure Grammar where
  catalog : Catalog
  /-- The parameters in scope. -/
  params : List Param := []
  /-- What follows the last token where that is no token. -/
  failure : Option LexicalError := none
  deriving Inhabited

/-- The text of a token. -/
def Token.text (t : Token) : String :=
  Text.Utf8.decode t.contents

/-! ### Powers -/

/-- The power of casts, `!` and unary `-`. They bind more tightly than any operator between two
operands, and less tightly than members and calls. -/
def prefixPower : Nat := 70

/-- The power of what follows its operand. -/
def postfixPower? : TokenKind → Option Nat
  | .dot | .bracketLeft => some 80
  | _ => none

/-- The powers of an operator to its left and to its right. Equal operators group to the left if
the right one is higher, and to the right if it is lower. -/
def infixPowers? : TokenKind → Option (Nat × Nat)
  | .asterisk | .slash | .percent => some (60, 61)
  | .plus | .minus => some (50, 51)
  | .less | .lessOrEqual | .greater | .greaterOrEqual => some (40, 41)
  | .equals | .notEquals => some (30, 31)
  | .and => some (20, 21)
  | .or => some (10, 11)
  | .question => some (5, 4)
  | _ => none

/-- The operator that a token stands for between two operands. -/
def binaryOp? : TokenKind → Option BinaryOp
  | .plus => some .add
  | .minus => some .subtract
  | .asterisk => some .multiply
  | .slash => some .divide
  | .percent => some .modulo
  | .equals => some .equal
  | .notEquals => some .notEqual
  | .less => some .less
  | .lessOrEqual => some .lessOrEqual
  | .greater => some .greater
  | .greaterOrEqual => some .greaterOrEqual
  | .and => some .and
  | .or => some .or
  | _ => none

namespace Grammar

/-! ### Single tokens -/

/-- The next token, if there is one. -/
def next? (g : Grammar) : Parser (Option Token) := do
  match ← get, g.failure with
  | t :: rest, _ =>
    set rest
    return some t
  | [], some error => throw (.lexical error)
  | [], none => return none

/-- The next token. -/
def next (g : Grammar) : Parser Token := do
  match ← g.next? with
  | some t => return t
  | none => throw .unexpectedEnd

/-- The next token, if there is one, which stays. -/
def peek? (g : Grammar) : Parser (Option Token) := do
  match ← get, g.failure with
  | t :: _, _ => return some t
  | [], some error => throw (.lexical error)
  | [], none => return none

/-- Whether the next token is of a kind. If it is, it is taken. -/
def consume (g : Grammar) (kind : TokenKind) : Parser Bool := do
  match ← g.peek? with
  | some t =>
    if t.kind = kind then
      modify List.tail
      return true
    else return false
  | none => return false

/-- The next token, which must be of a kind. -/
def expect (g : Grammar) (kind : TokenKind) (what : String) : Parser Token := do
  let t ← g.next
  if t.kind = kind then return t else throw (.expected what t.start)

/-- Whether the next token is of a kind. -/
def comesNext (g : Grammar) (kind : TokenKind) : Parser Bool := do
  match ← g.peek? with
  | some t => return t.kind == kind
  | none => return false

/-! ### Lists and casts -/

/-- The items up to a closing token, separated by commas. Each of them takes at least one token. -/
def items (g : Grammar) (sub : Nat → Parser Expr) (close : TokenKind) :
    Nat → Parser (List Expr)
  | 0 => throw .unexpectedEnd
  | count + 1 => do
    let item ← sub 0
    if ← g.consume close then return [item]
    let t ← g.next
    if t.kind ≠ .comma then throw (.ofToken t)
    return item :: (← g.items sub close count)

/-- Items between two tokens, of which there may be none. -/
def list (g : Grammar) (sub : Nat → Parser Expr) (opening close : TokenKind) :
    Parser (List Expr) := do
  let start ← g.next
  if start.kind ≠ opening then throw (.ofToken start)
  if ← g.consume close then return []
  g.items sub close ((← get).length + 1)

/-- Whether a cast follows an opening parenthesis: a scalar type name, perhaps a question mark, and
a closing parenthesis. If it does, it is taken. -/
def cast (g : Grammar) : Parser Bool := do
  let before ← get
  match ← g.next? with
  | none => return false
  | some name =>
    if name.kind = .identifier ∧ isScalarName name.text then
      let _ ← g.consume .question
      if ← g.consume .parenRight then return true
    set before
    return false

/-! ### Operands -/

/-- The constant of a number. -/
def number (t : Token) : Parser Expr :=
  match number? t.text.toList with
  | some e => return e
  | none => throw (.invalidNumber t.text)

/-- The constant of a literal with escapes. -/
def string (t : Token) : Parser Expr :=
  match unescape? t.text.toList with
  | some text => return .ofValue (.string (.ofList text))
  | none => throw (.invalidEscape t.start)

/-- The type of the first item whose type is known. -/
def elementType (g : Grammar) (items : List Expr) : ValueType :=
  ((items.map (·.sourceType g.catalog)).find? (· != .unknown)).getD .unknown

/-- The type name after `new`, with its argument or its brackets. -/
def typeName (g : Grammar) (name : Token) : Parser String := do
  if ← g.consume .less then
    let arg ← g.expect .identifier "a type argument"
    let _ ← g.expect .greater "'>'"
    return name.text ++ "<" ++ arg.text ++ ">"
  else if ← g.consume .bracketLeft then
    let _ ← g.expect .bracketRight "']'"
    return name.text ++ "[]"
  else return name.text

/-- What follows `new`: `[] { … }`, `T[] { … }`, `List<T> { … }` or `T(…)`. -/
def new (g : Grammar) (sub : Nat → Parser Expr) : Parser Expr := do
  if ← g.consume .bracketLeft then
    let _ ← g.expect .bracketRight "']'"
    let items ← g.list sub .braceLeft .braceRight
    return .array (g.elementType items) items
  let name ← g.expect .identifier "a type name"
  let type ← g.typeName name
  if ← g.comesNext .parenLeft then return .new type (← g.list sub .parenLeft .parenRight)
  else if ← g.comesNext .braceLeft then
    match ValueType.ofName type with
    | .list elementType => return .array elementType (← g.list sub .braceLeft .braceRight)
    | _ => throw (.expected "a collection type" name.start)
  else throw (.expected "'(' or '\x7b'" name.start)

/-- Type names start with a capital letter, apart from the keywords. -/
def isTypeName (name : String) : Bool :=
  (match name.toList with
    | c :: _ => c.isUpper
    | [] => false) || isScalarName name

/-- A parameter, or a static member or call of a type. -/
def identifier (g : Grammar) (sub : Nat → Parser Expr) (t : Token) : Parser Expr := do
  let name := t.text
  match g.params.find? (·.name == name) with
  | some p => return .param p.name p.model
  | none =>
    if !isTypeName name then throw (.unknownIdentifier name)
    if !(← g.consume .dot) then throw (.unknownIdentifier name)
    let member ← g.expect .identifier "a member name"
    if ← g.comesNext .parenLeft then
      let args ← g.list sub .parenLeft .parenRight
      return .staticCall ⟨.ofName name, member.text⟩ args
    else return .staticMember name member.text

/-- An operand, without what follows it. -/
def operand (g : Grammar) (sub : Nat → Parser Expr) : Parser Expr := do
  let t ← g.next
  match t.kind with
  | .parenLeft =>
    if ← g.cast then return .unary .convert (← sub prefixPower)
    let inner ← sub 0
    let _ ← g.expect .parenRight "')'"
    return inner
  | .bang => return .unary .not (← sub prefixPower)
  | .minus => return .unary .negate (← sub prefixPower)
  | .number => number t
  | .string | .char => string t
  | .verbatimString => return .ofValue (.string (.ofList (unescapeVerbatim t.text.toList)))
  | .true => return .ofValue (.bool true)
  | .false => return .ofValue (.bool false)
  | .null => return .constant .unknown .null
  | .new => g.new sub
  | .identifier => g.identifier sub t
  | _ => throw (.ofToken t)

/-! ### Operators -/

/-- A member, a call or an index of an operand. -/
def suffix (g : Grammar) (sub : Nat → Parser Expr) (owner : Expr) : Parser Expr := do
  let t ← g.next
  if t.kind = .bracketLeft then
    let index ← sub 0
    let _ ← g.expect .bracketRight "']'"
    return .binary .index owner index
  let member ← g.expect .identifier "a member name"
  let declaring := (owner.sourceType g.catalog).declaringName
  if ← g.comesNext .parenLeft then
    let args ← g.list sub .parenLeft .parenRight
    return .call owner ⟨.ofName declaring, member.text⟩ args
  else return .member owner declaring member.text

/-- The height of what a suffix adds beside its owner: an index or arguments. -/
def suffixHeight : Expr → Nat
  | .binary _ _ index => index.height
  | .call _ _ args => Expr.heightOfAll args
  | _ => 0

/-- A tree of so many levels, which must not be too high. -/
def checkLevels (levels : Nat) : Parser Unit :=
  if levels ≤ maxDepth then return () else throw .tooDeep

/-- The operator `t` between two operands, the second of which is still to come, and the height of
the result. The first operand has so many levels. -/
def between (g : Grammar) (sub : Nat → Parser Expr) (t : Token) (right : Nat) (left : Expr)
    (levels : Nat) : Parser (Expr × Nat) := do
  if t.kind = .question then
    let ifTrue ← sub 0
    let _ ← g.expect .colon "':'"
    let ifFalse ← sub right
    return (.conditional left ifTrue ifFalse, max levels (max ifTrue.height ifFalse.height) + 1)
  let operand ← sub right
  match binaryOp? t.kind with
  | some op => return (.binary op left operand, max levels operand.height + 1)
  | none => throw (.ofToken t)

/-- Everything that follows an operand and binds at least as tightly as a power. Each operator
takes at least one token, so a count of the tokens bounds the number of turns. The height of the
tree so far, `levels`, is kept along the way. -/
def operators (g : Grammar) (sub : Nat → Parser Expr) (power : Nat) :
    Nat → Expr → Nat → Parser Expr
  | 0, left, _ => return left
  | count + 1, left, levels => do
    let some t ← g.peek? | return left
    match postfixPower? t.kind, infixPowers? t.kind with
    | some p, _ =>
      if p < power then return left
      let tree ← g.suffix sub left
      let levels := max levels (suffixHeight tree) + 1
      checkLevels levels
      g.operators sub power count tree levels
    | none, some (p, right) =>
      if p < power then return left
      let _ ← g.next
      let (tree, levels) ← g.between sub t right left levels
      checkLevels levels
      g.operators sub power count tree levels
    | none, none => return left

/-- An expression whose operators bind at least as tightly as a power, of no more nested
expressions than `depth`. -/
def expression (g : Grammar) : (depth : Nat) → (power : Nat) → Parser Expr
  | 0, _ => throw .tooDeep
  | depth + 1, power => do
    let left ← g.operand (g.expression depth)
    checkLevels left.height
    g.operators (g.expression depth) power ((← get).length + 1) left left.height

/-! ### Lambdas -/

/-- The names up to a closing parenthesis, separated by commas. -/
def names (g : Grammar) : Nat → Parser (List String)
  | 0 => throw .unexpectedEnd
  | count + 1 => do
    let name ← g.expect .identifier "a parameter name"
    if ← g.consume .comma then return name.text :: (← g.names count)
    let _ ← g.expect .parenRight "')'"
    return [name.text]

/-- The parameters of a lambda: one name, or names between parentheses. -/
def paramNames (g : Grammar) : Parser (List String) := do
  match ← g.next? with
  | none => throw .noExpression
  | some t =>
    if t.kind = .identifier then return [t.text]
    else if t.kind = .parenLeft then g.names ((← get).length + 1)
    else throw (.ofToken t)

/-- A lambda over a model, which takes all tokens. -/
def lambda (g : Grammar) (model : String) : Parser Expr := do
  let names ← g.paramNames
  let _ ← g.expect .arrow "'=>'"
  let params := names.map fun name => ⟨name, model⟩
  let g := { g with params }
  let body ← g.expression maxDepth 0
  match ← g.next? with
  | some t => throw (.ofToken t)
  | none => return .lambda params body

end Grammar

/-- The tree of a lambda over a model. -/
def parseLambda (catalog : Catalog) (model text : String) : Except ParseError Expr :=
  let (tokens, failure) := tokenize (Text.Utf8.encode text)
  (({ catalog, failure : Grammar }).lambda model).run' tokens

end PredicateSql
