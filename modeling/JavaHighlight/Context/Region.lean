/-!
# Regions

The regions of a source that a bracket opens and another bracket closes.
-/

namespace JavaHighlight

/-- The three pairs of brackets. -/
inductive Bracket where
  | brace | paren | angle
  deriving DecidableEq, Repr

def Bracket.closer : Bracket → Char
  | .brace => '\x7d'
  | .paren => ')'
  | .angle => '>'

/-- What a pair of brackets encloses. -/
inductive Region where
  | classBody
  /-- The body of an enum; its constants are listed up to the first semicolon. -/
  | enumBody (inConstants : Bool)
  /-- The class body of an enum constant. -/
  | enumConstantBody
  | interfaceBody
  | moduleBody
  | annotationArgs
  | typeArgs
  | lambdaParams
  /-- Any other braces: method bodies, initializers, array literals. -/
  | block
  /-- Any other parentheses. -/
  | parens
  deriving DecidableEq, Repr

namespace Region

/-- The brackets around a region. -/
def bracket : Region → Bracket
  | .annotationArgs | .lambdaParams | .parens => .paren
  | .typeArgs => .angle
  | _ => .brace

/-- Whether braces enclose the region. -/
def isBody (region : Region) : Bool :=
  region.bracket = .brace

def isParen (region : Region) : Bool :=
  region.bracket = .paren

def closer (region : Region) : Char :=
  region.bracket.closer

/-- All regions; an enum body counts twice. -/
def all : List Region := [
  .classBody, .enumBody true, .enumBody false, .enumConstantBody, .interfaceBody, .moduleBody,
  .annotationArgs, .typeArgs, .lambdaParams, .block, .parens]

theorem mem_all (region : Region) : region ∈ all := by
  cases region with
  | enumBody inConstants => cases inConstants <;> decide
  | _ => decide

end Region

end JavaHighlight
