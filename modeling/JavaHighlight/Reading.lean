import JavaHighlight.Context.Basic
import JavaHighlight.Lookahead

/-!
# Readings

The reading of a lexeme says what it means in its context: one piece with its kind or, for a
run of angle brackets that closes several lists of type arguments, one piece for each bracket.
A reading depends on the lexeme, the context and the significant lexemes ahead.
-/

namespace JavaHighlight

/-- Whether a text is read as a whole, or as one line of a longer text. What a line leaves open
may be closed on a later one. -/
inductive Mode where
  | whole | line
  deriving DecidableEq, Repr

/-- A part of a lexeme with its kind. -/
structure Piece where
  kind : TokenKind
  text : List Char
  /-- The number of bytes of the piece. -/
  length : Nat
  flags : Flags
  /-- The piece is a parenthesis that starts the parameters of a lambda. -/
  opensLambda : Bool
  deriving DecidableEq, Repr

/-- What a lexeme means in its context. -/
structure Reading where
  pieces : List Piece
  problem : Option Problem
  deriving DecidableEq, Repr

namespace Piece

def ofLexeme (l : Lexeme) (kind : TokenKind) : Piece :=
  ⟨kind, l.text, l.length, .none, false⟩

/-- One angle bracket that closes type arguments. -/
def closingAngle (split : Bool) : Piece :=
  ⟨.genericClose, ['>'], 1, { Flags.none with split }, false⟩

/-- Closing angle brackets that close nothing. -/
def angleOperator (count : Nat) : Piece :=
  ⟨.operator, List.replicate count '>', count, .none, false⟩

end Piece

namespace Reading

/-- A lexeme that means one thing. -/
def plain (l : Lexeme) (kind : TokenKind) : Reading :=
  ⟨[.ofLexeme l kind], none⟩

/-- A lexeme that means one thing and has something wrong with it. -/
def faulty (l : Lexeme) (kind : TokenKind) (problem : Problem) : Reading :=
  ⟨[{ Piece.ofLexeme l kind with flags := { Flags.none with error := true } }], some problem⟩

/-- A word that is a keyword only in its place. -/
def contextual (l : Lexeme) (kind : TokenKind) : Reading :=
  ⟨[{ Piece.ofLexeme l kind with flags := { Flags.none with contextual := true } }], none⟩

/-! ## Words -/

/-- Whether a record can be declared directly inside a region. -/
def mayDeclareRecord : Option Region → Bool
  | none => true
  | some region => region.isBody && region ≠ .moduleBody

/-- The kind of a word that is a keyword because of where it stands. -/
def restrictedKind? (ctx : Context) (word : String) (ahead : List Lexeme) : Option TokenKind :=
  if ctx.top = some .moduleBody then
    if word ∈ Keyword.moduleDirectives then some .moduleKeyword else none
  else if word = "record" then
    if mayDeclareRecord ctx.top && Lookahead.recordHeader ahead then some .keyword else none
  else if ctx.top = none then
    if word = "module" && Lookahead.moduleHeader ahead then some .moduleKeyword
    else if word = "open" && Lookahead.openModuleHeader ahead then some .moduleKeyword
    else none
  else none

/-- The kind of a word that is no keyword. -/
def nameKind (ctx : Context) (ahead : List Lexeme) : TokenKind :=
  if ctx.inConstants then .enumConstant
  else if Lookahead.opensCall ahead then .functionName
  else .identifier

/-- The reading of a word. Names of annotations come before keywords, keywords before names of
types, and those before words that are keywords in some places only. -/
def ofWord (ctx : Context) (l : Lexeme) (ahead : List Lexeme) : Reading :=
  if ctx.awaitsAnnotationName then plain l .annotationPart
  else match Keyword.kind? l.word with
    | some kind => plain l kind
    | none =>
      if ctx.typeNameAwaited then plain l .className
      else match restrictedKind? ctx l.word ahead with
        | some kind => contextual l kind
        | none => plain l (nameKind ctx ahead)

/-! ## Symbols -/

/-- The kind of a symbol that means the same everywhere. -/
def symbolKind : Symbol → TokenKind
  | .leftParen => .leftParen
  | .rightParen => .rightParen
  | .leftBrace => .leftBrace
  | .rightBrace => .rightBrace
  | .leftBracket => .leftBracket
  | .rightBracket => .rightBracket
  | .semicolon => .semicolon
  | .comma => .comma
  | .dot => .dot
  | .ellipsis => .ellipsis
  | .question => .question
  | .colon => .colon
  | .arrow => .arrow
  | .colonColon => .colonColon
  | _ => .operator

/-- The reading of an `@`: it declares an annotation type in front of `interface` and starts an
annotation in front of any other word. -/
def ofAtSign (l : Lexeme) (ahead : List Lexeme) : Reading :=
  match Lookahead.annotationWord? ahead with
  | some word => plain l (if word = "interface" then .keyword else .annotationPart)
  | none => faulty l .unknown (.unknownCharacter '@')

/-- Whether type arguments may stand behind the last token: behind the name of a type or a
member, behind a point or a modifier, and where a member may start. -/
def mayOpenTypeArgs (ctx : Context) : Bool :=
  ctx.lastWasModifier ||
    match ctx.last with
    | none => true
    | some kind => kind ∈ [TokenKind.identifier, .className, .dot, .leftBrace, .rightBrace,
      .semicolon]

def ofLess (ctx : Context) (l : Lexeme) (ahead : List Lexeme) : Reading :=
  if ctx.top = some .typeArgs then plain l .genericOpen
  else if mayOpenTypeArgs ctx then
    match Lookahead.angle ahead with
    | .opensTypeArgs => plain l .genericOpen
    | .comparison => plain l .operator
    | .undecided => faulty l .operator .unresolvedAngle
  else plain l .operator

/-- The reading of a run of `>`. As many of them as can close type arguments are pieces of their
own, and what is left over is one operator. -/
def ofClosingAngles (ctx : Context) (l : Lexeme) : Reading :=
  let run := l.shape.closingAngles
  let closing := min run ctx.openAngles
  if closing = 0 then plain l .operator
  else
    let closers := List.replicate closing (Piece.closingAngle (1 < run))
    let others := if closing < run then [Piece.angleOperator (run - closing)] else []
    ⟨closers ++ others, none⟩

/-- Whether a parenthesis may start the parameters of a lambda behind the last token. Calls,
annotations and words of control flow have parentheses of their own. -/
def mayOpenLambda (ctx : Context) : Bool :=
  match ctx.last with
  | none => true
  | some kind => kind ∉ [TokenKind.functionName, .identifier, .className, .enumConstant,
      .annotationPart, .keywordControl, .keywordThis]

def ofLeftParen (ctx : Context) (l : Lexeme) (ahead : List Lexeme) : Reading :=
  let opensLambda := mayOpenLambda ctx && Lookahead.lambdaParams ahead
  ⟨[{ Piece.ofLexeme l .leftParen with opensLambda }], none⟩

def ofSymbol (ctx : Context) (l : Lexeme) (ahead : List Lexeme) (s : Symbol) : Reading :=
  match s with
  | .atSign => ofAtSign l ahead
  | .less => ofLess ctx l ahead
  | .greater | .shiftRight | .unsignedShiftRight => ofClosingAngles ctx l
  | .leftParen => ofLeftParen ctx l ahead
  | s => plain l (symbolKind s)

/-! ## Other lexemes -/

/-- The kind of a comment that lacks its end, by how it starts. -/
def openCommentKind (l : Lexeme) : TokenKind :=
  if l.shape = .unterminatedNativeBlock then .nativeBlock
  else if "/**".toList.isPrefixOf l.text then .commentJavadoc
  else .commentBlock

/-- The reading of a lexeme that lacks its end but may have it on a later line. -/
def ofOpen (mode : Mode) (l : Lexeme) (kind faultyKind : TokenKind) (problem : Problem) :
    Reading :=
  match mode with
  | .line => plain l kind
  | .whole => faulty l faultyKind problem

/-- The reading of a lexeme in its context. -/
def ofLexeme (mode : Mode) (ctx : Context) (l : Lexeme) (ahead : List Lexeme) : Reading :=
  match l.shape with
  | .word => ofWord ctx l ahead
  | .symbol s => ofSymbol ctx l ahead s
  | .integer _ => plain l .integerLiteral
  | .float => plain l .floatLiteral
  | .character => plain l .charLiteral
  | .string => plain l .stringLiteral
  | .textBlock => plain l .textBlock
  | .blank => plain l .whitespace
  | .lineComment => plain l .commentLine
  | .blockComment => plain l .commentBlock
  | .javadocComment => plain l .commentJavadoc
  | .nativeBlock => plain l .nativeBlock
  | .unterminatedString => faulty l .unterminatedLiteral (.unterminatedLiteral .string)
  | .unterminatedCharacter => faulty l .unterminatedLiteral (.unterminatedLiteral .character)
  | .unterminatedTextBlock =>
    ofOpen mode l .textBlock .unterminatedLiteral (.unterminatedLiteral .textBlock)
  | .unterminatedBlockComment | .unterminatedNativeBlock =>
    ofOpen mode l (openCommentKind l) (openCommentKind l) .unterminatedComment
  | .unknown | .stray => faulty l .unknown (.unknownCharacter (l.text.headD '\x00'))
  | .endOfInput => ⟨[], none⟩

end Reading

end JavaHighlight
