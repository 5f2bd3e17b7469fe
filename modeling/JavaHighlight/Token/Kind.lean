/-!
# Kinds of tokens

What a token is to a highlighter. Kinds are numbered in groups, and the order of kinds is the
order of their numbers.
-/

namespace JavaHighlight

/-- The kind of a token. -/
inductive TokenKind where
  | whitespace
  | commentLine
  | commentBlock
  | commentJavadoc
  /-- A comment that holds a native method body. -/
  | nativeBlock
  | keyword
  /-- Control flow: `if`, `for`, `switch`, `try`, `throw` and the like. -/
  | keywordControl
  | keywordReturn
  | keywordNew
  /-- The words `this` and `super`. -/
  | keywordThis
  /-- A word that is a keyword only in a module declaration. -/
  | moduleKeyword
  | identifier
  /-- The name that a `class`, `interface`, `enum` or `record` header introduces. -/
  | className
  /-- A name with an opening parenthesis behind it. -/
  | functionName
  | enumConstant
  /-- The `@` of an annotation, and each part of its name. -/
  | annotationPart
  | integerLiteral
  | floatLiteral
  | charLiteral
  | stringLiteral
  | textBlock
  | booleanLiteral
  | nullLiteral
  | leftParen
  | rightParen
  | leftBrace
  | rightBrace
  | leftBracket
  | rightBracket
  | semicolon
  | comma
  | dot
  | ellipsis
  | question
  | colon
  | arrow
  | colonColon
  | operator
  | genericOpen
  | genericClose
  | unterminatedLiteral
  | unknown
  deriving DecidableEq, Repr

namespace TokenKind

/-- All kinds in order. -/
def all : List TokenKind := [
  .whitespace, .commentLine, .commentBlock, .commentJavadoc, .nativeBlock, .keyword,
  .keywordControl, .keywordReturn, .keywordNew, .keywordThis, .moduleKeyword, .identifier,
  .className, .functionName, .enumConstant, .annotationPart, .integerLiteral, .floatLiteral,
  .charLiteral, .stringLiteral, .textBlock, .booleanLiteral, .nullLiteral, .leftParen,
  .rightParen, .leftBrace, .rightBrace, .leftBracket, .rightBracket, .semicolon, .comma, .dot,
  .ellipsis, .question, .colon, .arrow, .colonColon, .operator, .genericOpen, .genericClose,
  .unterminatedLiteral, .unknown]

def code : TokenKind → Nat
  | .whitespace => 0
  | .commentLine => 1
  | .commentBlock => 2
  | .commentJavadoc => 3
  | .nativeBlock => 4
  | .keyword => 16
  | .keywordControl => 17
  | .keywordReturn => 18
  | .keywordNew => 19
  | .keywordThis => 20
  | .moduleKeyword => 21
  | .identifier => 32
  | .className => 33
  | .functionName => 34
  | .enumConstant => 35
  | .annotationPart => 36
  | .integerLiteral => 48
  | .floatLiteral => 49
  | .charLiteral => 50
  | .stringLiteral => 51
  | .textBlock => 52
  | .booleanLiteral => 53
  | .nullLiteral => 54
  | .leftParen => 64
  | .rightParen => 65
  | .leftBrace => 66
  | .rightBrace => 67
  | .leftBracket => 68
  | .rightBracket => 69
  | .semicolon => 70
  | .comma => 71
  | .dot => 72
  | .ellipsis => 73
  | .question => 74
  | .colon => 75
  | .arrow => 76
  | .colonColon => 77
  | .operator => 96
  | .genericOpen => 97
  | .genericClose => 98
  | .unterminatedLiteral => 240
  | .unknown => 241

def name : TokenKind → String
  | .whitespace => "Whitespace"
  | .commentLine => "CommentLine"
  | .commentBlock => "CommentBlock"
  | .commentJavadoc => "CommentJavadoc"
  | .nativeBlock => "NativeBlock"
  | .keyword => "Keyword"
  | .keywordControl => "KeywordControl"
  | .keywordReturn => "KeywordReturn"
  | .keywordNew => "KeywordNew"
  | .keywordThis => "KeywordThis"
  | .moduleKeyword => "ModuleKeyword"
  | .identifier => "Identifier"
  | .className => "ClassName"
  | .functionName => "FunctionName"
  | .enumConstant => "EnumConstant"
  | .annotationPart => "Annotation"
  | .integerLiteral => "IntegerLiteral"
  | .floatLiteral => "FloatLiteral"
  | .charLiteral => "CharLiteral"
  | .stringLiteral => "StringLiteral"
  | .textBlock => "TextBlock"
  | .booleanLiteral => "BooleanLiteral"
  | .nullLiteral => "NullLiteral"
  | .leftParen => "LParen"
  | .rightParen => "RParen"
  | .leftBrace => "LBrace"
  | .rightBrace => "RBrace"
  | .leftBracket => "LBracket"
  | .rightBracket => "RBracket"
  | .semicolon => "Semicolon"
  | .comma => "Comma"
  | .dot => "Dot"
  | .ellipsis => "Ellipsis"
  | .question => "Question"
  | .colon => "Colon"
  | .arrow => "Arrow"
  | .colonColon => "ColonColon"
  | .operator => "Operator"
  | .genericOpen => "GenericOpen"
  | .genericClose => "GenericClose"
  | .unterminatedLiteral => "UnterminatedLiteral"
  | .unknown => "Unknown"

/-- Blanks and comments. -/
def isTrivia (kind : TokenKind) : Bool :=
  kind.code < 16

def isComment : TokenKind → Bool
  | .commentLine | .commentBlock | .commentJavadoc | .nativeBlock => true
  | _ => false

def isKeyword (kind : TokenKind) : Bool :=
  16 ≤ kind.code && kind.code < 32

def isLiteral (kind : TokenKind) : Bool :=
  48 ≤ kind.code && kind.code < 64

def isError (kind : TokenKind) : Bool :=
  240 ≤ kind.code

/-- Whether `a` comes before `b` in the order of kinds. -/
def before (a b : TokenKind) : Bool :=
  a.code < b.code

theorem mem_all (kind : TokenKind) : kind ∈ all := by
  cases kind <;> decide

theorem code_inj {a b : TokenKind} (h : a.code = b.code) : a = b := by
  have key : ∀ a ∈ all, ∀ b ∈ all, a.code = b.code → a = b := by decide
  exact key a (mem_all a) b (mem_all b) h

theorem pairwise_all : all.Pairwise (fun a b => a.before b = true) := by
  decide

end TokenKind

end JavaHighlight
