import JavaHighlight.Keyword
import JavaHighlight.Lexeme.Basic

/-!
# Looking ahead

Some lexemes can only be told apart by what follows them. Every question here is put to the
list of significant lexemes behind the one in question, so trivia never matters. The questions
about brackets read at most `budget` lexemes.
-/

namespace JavaHighlight

namespace Lexeme

def isSymbol (l : Lexeme) (s : Symbol) : Bool :=
  l.shape = .symbol s

/-- Whether a lexeme is a word that can be a name. -/
def isName (l : Lexeme) : Bool :=
  l.shape = .word && !Keyword.isReserved l.word

end Lexeme

namespace Lookahead

/-- The number of lexemes that a question about brackets may read. -/
def budget : Nat := 512

/-! ## Type arguments -/

/-- What a `<` is found to be. -/
inductive Verdict where
  /-- A matching bracket closes what reads like type arguments. -/
  | opensTypeArgs
  /-- Something that cannot stand in type arguments comes first. -/
  | comparison
  /-- The lexemes end, or too many would have to be read. -/
  | undecided
  deriving DecidableEq, Repr

/-- The symbols other than angle brackets that may stand in type arguments. -/
def typeArgSymbols : List Symbol := [
  .comma, .dot, .question, .ampersand, .leftBracket, .rightBracket, .atSign]

/-- Whether a lexeme other than an angle bracket may stand in type arguments. -/
def mayStandInTypeArgs (l : Lexeme) : Bool :=
  match l.shape with
  | .word => !Keyword.isReserved l.word || Keyword.isTypeArgumentWord l.word
  | .symbol s => s ∈ typeArgSymbols
  | _ => false

/-- Read up to `fuel` lexemes with `depth` angle brackets open. A run of closing brackets that
is longer than what is open rules type arguments out. -/
def resolveAngle : (fuel depth : Nat) → List Lexeme → Verdict
  | 0, _, _ => .undecided
  | _ + 1, _, [] => .undecided
  | fuel + 1, depth, l :: ls =>
    let closing := l.shape.closingAngles
    if l.isSymbol .less then resolveAngle fuel (depth + 1) ls
    else if closing = 0 then
      if mayStandInTypeArgs l then resolveAngle fuel depth ls else .comparison
    else if closing < depth then resolveAngle fuel (depth - closing) ls
    else if closing = depth then .opensTypeArgs
    else .comparison

/-- Decide about a `<` from the significant lexemes behind it. -/
def angle (ahead : List Lexeme) : Verdict :=
  resolveAngle budget 1 ahead

/-! ## Lambda parameters -/

/-- The symbols that cannot stand in the parameters of a lambda. -/
def lambdaStops : List Symbol := [.semicolon, .leftBrace, .rightBrace]

def stopsLambda (l : Lexeme) : Bool :=
  lambdaStops.any l.isSymbol

/-- Read up to `fuel` lexemes with `depth` parentheses open, up to an arrow behind the one
that closes them all. -/
def closesBeforeArrow : (fuel depth : Nat) → List Lexeme → Bool
  | 0, _, _ => false
  | _ + 1, _, [] => false
  | fuel + 1, depth, l :: ls =>
    if l.isSymbol .leftParen then closesBeforeArrow fuel (depth + 1) ls
    else if l.isSymbol .rightParen then
      if depth ≤ 1 then ls.head?.any (·.isSymbol .arrow)
      else closesBeforeArrow fuel (depth - 1) ls
    else if stopsLambda l then false
    else closesBeforeArrow fuel depth ls

/-- Whether a `(` starts the parameters of a lambda, from the significant lexemes behind it. -/
def lambdaParams (ahead : List Lexeme) : Bool :=
  closesBeforeArrow budget 1 ahead

/-! ## Words -/

/-- Whether a parenthesis opens right behind a word. -/
def opensCall (ahead : List Lexeme) : Bool :=
  ahead.head?.any (·.isSymbol .leftParen)

/-- The word right behind an `@`. -/
def annotationWord? (ahead : List Lexeme) : Option String :=
  (ahead.head?.filter fun l => l.shape = .word).map Lexeme.word

/-- Whether names joined by points follow, and then an opening brace. -/
def moduleHeader : List Lexeme → Bool
  | name :: next :: ls =>
    name.isName && (next.isSymbol .leftBrace || next.isSymbol .dot && moduleHeader ls)
  | _ => false

/-- Whether the word `module` and the header of a module follow. -/
def openModuleHeader : List Lexeme → Bool
  | l :: ls => l.shape = .word && l.word = "module" && moduleHeader ls
  | [] => false

/-- Whether a name follows, and then the components or the type parameters of a record. -/
def recordHeader : List Lexeme → Bool
  | name :: next :: _ => name.isName && (next.isSymbol .leftParen || next.isSymbol .less)
  | _ => false

end Lookahead

end JavaHighlight
