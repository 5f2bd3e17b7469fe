import JavaHighlight.Context.Region
import JavaHighlight.Diagnostic
import JavaHighlight.Keyword

/-!
# The context of a token

What has to be remembered of the tokens so far to tell what the next one means: the regions
that are open, and a few expectations about what comes next. `Context.observe` takes in one
token. Each part of the context has a rule of its own, and trivia changes nothing.
-/

namespace JavaHighlight

/-- How far the name of an annotation has been read. -/
inductive AnnotationName where
  | absent
  /-- A part of the name comes next. -/
  | awaited
  /-- A part of the name was read; a parenthesis behind it opens arguments. -/
  | given
  deriving DecidableEq, Repr

/-- The context in which a token stands. -/
structure Context where
  /-- The open regions, the innermost first. -/
  regions : List Region
  /-- The largest number of regions that were open at once. -/
  deepest : Nat
  /-- The body that a declaration header is waiting for, with the depth of the header. -/
  header : Option (Region × Nat)
  /-- The next word names a type. -/
  typeNameAwaited : Bool
  annotationName : AnnotationName
  /-- An enum constant was listed; braces behind it are its body. -/
  constantReady : Bool
  /-- The depths of the `new` expressions whose arguments are not closed, the last one first. -/
  newDepths : List Nat
  /-- The arguments of a `new` expression were closed just now; braces here are a class body. -/
  anonymousBodyReady : Bool
  /-- The kind of the last token that is not trivia. -/
  last : Option TokenKind
  /-- That token was a modifier. -/
  lastWasModifier : Bool
  deriving DecidableEq, Repr

namespace Context

/-- The context at the start of a source. -/
def initial : Context where
  regions := []
  deepest := 0
  header := none
  typeNameAwaited := false
  annotationName := .absent
  constantReady := false
  newDepths := []
  anonymousBodyReady := false
  last := none
  lastWasModifier := false

def depth (ctx : Context) : Nat :=
  ctx.regions.length

def top (ctx : Context) : Option Region :=
  ctx.regions.head?

/-- Whether the next word is part of the name of an annotation. -/
def awaitsAnnotationName (ctx : Context) : Bool :=
  ctx.annotationName = .awaited

/-- Whether enum constants are being listed directly inside the innermost region. -/
def inConstants (ctx : Context) : Bool :=
  ctx.top = some (.enumBody true)

/-- The number of type argument lists that are open inside of all else: how many closing
angle brackets in a row can close type arguments. -/
def openAngles (ctx : Context) : Nat :=
  (ctx.regions.takeWhile (· = .typeArgs)).length

/-! ## Regions -/

/-- The body that a header of the present depth is waiting for. -/
def headerBody? (ctx : Context) : Option Region :=
  match ctx.header with
  | some (body, depth) => if depth = ctx.depth then some body else none
  | none => none

/-- The region that an opening brace opens when no header is waiting for it. -/
def bodyWithoutHeader (ctx : Context) : Region :=
  if ctx.inConstants && ctx.constantReady then .enumConstantBody
  else if ctx.anonymousBodyReady then .classBody
  else .block

/-- The region that an opening brace opens. -/
def braceRegion (ctx : Context) : Region :=
  ctx.headerBody?.getD ctx.bodyWithoutHeader

/-- The region that an opening parenthesis opens. -/
def parenRegion (ctx : Context) (opensLambda : Bool) : Region :=
  if ctx.annotationName = .given then .annotationArgs
  else if opensLambda then .lambdaParams
  else .parens

/-- A semicolon ends the list of constants of the innermost enum body. -/
def endConstants : List Region → List Region
  | .enumBody _ :: regions => .enumBody false :: regions
  | regions => regions

/-- The open regions behind a token. A closing brace or parenthesis closes whatever is
innermost, an angle bracket only type arguments. -/
def regionsAfter (ctx : Context) (kind : TokenKind) (opensLambda : Bool) : List Region :=
  match kind with
  | .leftBrace => ctx.braceRegion :: ctx.regions
  | .leftParen => ctx.parenRegion opensLambda :: ctx.regions
  | .genericOpen => .typeArgs :: ctx.regions
  | .rightBrace | .rightParen => ctx.regions.tail
  | .genericClose => if ctx.top = some .typeArgs then ctx.regions.tail else ctx.regions
  | .semicolon => endConstants ctx.regions
  | _ => ctx.regions

/-- The bracket that a token closes with, if it is a closing brace or parenthesis. -/
def closes? : TokenKind → Option Bracket
  | .rightBrace => some .brace
  | .rightParen => some .paren
  | _ => none

/-- How a token fails to close what is innermost. -/
def issue? (ctx : Context) (kind : TokenKind) : Option BracketIssue :=
  match closes? kind with
  | none => none
  | some bracket =>
    match ctx.top with
    | none => some (.unexpectedCloser bracket.closer)
    | some region =>
      if region.bracket = bracket then none
      else some (.mismatched region.closer bracket.closer)

/-- What is left open at the end of the source. -/
def unclosed? (ctx : Context) : Option BracketIssue :=
  ctx.top.map fun region => .unclosed ctx.depth region.closer

/-! ## Headers of declarations -/

/-- The body that a declaration keyword announces. -/
def declaredBody? (word : String) : Option Region :=
  if word = "class" ∨ word = "record" then some .classBody
  else if word = "interface" then some .interfaceBody
  else if word = "enum" then some (.enumBody true)
  else none

/-- The body that a token announces, if it is the keyword of a type declaration. The word
behind a point, as in `Foo.class`, declares nothing. -/
def declares? (ctx : Context) (kind : TokenKind) (text : String) : Option Region :=
  if kind = .keyword ∧ ctx.last ≠ some .dot then declaredBody? text else none

/-- The header once its body or the end of its declaration has been reached. -/
def headerReached (ctx : Context) : Option (Region × Nat) :=
  ctx.header.filter fun header => header.2 ≠ ctx.depth

/-- The header that waits for its body behind a token. -/
def headerAfter (ctx : Context) (kind : TokenKind) (text : String) : Option (Region × Nat) :=
  match ctx.declares? kind text with
  | some body => some (body, ctx.depth)
  | none =>
    match kind with
    | .moduleKeyword => if text = "module" then some (.moduleBody, ctx.depth) else ctx.header
    | .leftBrace | .semicolon => ctx.headerReached
    | _ => ctx.header

/-! ## Expectations -/

/-- How far the name of an annotation has been read behind a token. -/
def annotationAfter (ctx : Context) (kind : TokenKind) (text : String) : AnnotationName :=
  match kind with
  | .annotationPart => if text = "@" then .awaited else .given
  | .dot => if ctx.annotationName = .given then .awaited else .absent
  | _ => .absent

/-- Whether an enum constant is ready for its body behind a token. Only tokens directly in a list
of constants count, so of what stands in the arguments of the constant only the constants of
another enum matter. -/
def constantReadyAfter (ctx : Context) (kind : TokenKind) : Bool :=
  if ctx.inConstants then
    match kind with
    | .enumConstant => true
    | .leftParen => ctx.constantReady
    | _ => false
  else ctx.constantReady

/-- The `new` expressions that are still open once the innermost region is closed. -/
def newDepthsOutside (ctx : Context) : List Nat :=
  ctx.newDepths.filter (· ≤ ctx.depth - 1)

/-- Whether a token closes the arguments of a `new` expression. -/
def closesNew (ctx : Context) (kind : TokenKind) : Bool :=
  kind = .rightParen && ctx.newDepthsOutside.head? = some (ctx.depth - 1)

/-- The open `new` expressions behind a token. -/
def newDepthsAfter (ctx : Context) (kind : TokenKind) : List Nat :=
  match kind with
  | .keywordNew => ctx.depth :: ctx.newDepths
  | .leftBrace | .semicolon => ctx.newDepths.filter (· < ctx.depth)
  | .rightBrace => ctx.newDepthsOutside
  | .rightParen => if ctx.closesNew kind then ctx.newDepthsOutside.tail else ctx.newDepthsOutside
  | _ => ctx.newDepths

/-! ## Taking in a token -/

/-- The context behind a token. Whether an opening parenthesis starts the parameters of a
lambda has to be told; it does not matter for other tokens. -/
def observe (ctx : Context) (kind : TokenKind) (text : String) (opensLambda : Bool) : Context :=
  if kind.isTrivia then ctx
  else
    let regions := ctx.regionsAfter kind opensLambda
    { regions
      deepest := max ctx.deepest regions.length
      header := ctx.headerAfter kind text
      typeNameAwaited := (ctx.declares? kind text).isSome
      annotationName := ctx.annotationAfter kind text
      constantReady := ctx.constantReadyAfter kind
      newDepths := ctx.newDepthsAfter kind
      anonymousBodyReady := ctx.closesNew kind
      last := some kind
      lastWasModifier := kind = .keyword && text ∈ Keyword.modifiers }

@[simp] theorem observe_of_isTrivia {kind : TokenKind} (h : kind.isTrivia = true) (ctx : Context)
    (text : String) (opensLambda : Bool) : ctx.observe kind text opensLambda = ctx := by
  simp [observe, h]

end Context

end JavaHighlight
