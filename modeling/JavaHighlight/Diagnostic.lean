import JavaHighlight.Text.Quoted
import JavaHighlight.Token.Basic

/-!
# Diagnostics

Reading a source never fails. What is wrong with it is recorded beside the tokens: a problem
and the span it concerns.
-/

namespace JavaHighlight

/-- How a closing bracket, or the end of the source, does not fit what is open. -/
inductive BracketIssue where
  /-- A closing bracket came with nothing open. -/
  | unexpectedCloser (found : Char)
  /-- A closing bracket came while a region of another kind was innermost. -/
  | mismatched (expected found : Char)
  /-- The source ended with regions still open. -/
  | unclosed (count : Nat) (innermost : Char)
  deriving DecidableEq, Repr

def BracketIssue.message : BracketIssue → String
  | .unexpectedCloser found => "unexpected `" ++ String.singleton found ++ "` with nothing open"
  | .mismatched expected found =>
    "expected `" ++ String.singleton expected ++ "`, found `" ++ String.singleton found ++ "`"
  | .unclosed count innermost =>
    toString count ++ " unclosed region(s) at end of input, innermost needs `" ++
      String.singleton innermost ++ "`"

/-- The literals that can lack their end. -/
inductive LiteralForm where
  | string | character | textBlock
  deriving DecidableEq, Repr

def LiteralForm.name : LiteralForm → String
  | .string => "string literal"
  | .character => "character literal"
  | .textBlock => "text block"

/-- What is wrong with a piece of the source. -/
inductive Problem where
  | unterminatedLiteral (form : LiteralForm)
  | unterminatedComment
  | unbalanced (issue : BracketIssue)
  /-- It cannot be told whether a `<` opens type arguments. -/
  | unresolvedAngle
  | unknownCharacter (c : Char)
  deriving DecidableEq, Repr

def Problem.message : Problem → String
  | .unterminatedLiteral form => "unterminated " ++ form.name
  | .unterminatedComment => "unterminated comment"
  | .unbalanced issue => "unbalanced braces: " ++ issue.message
  | .unresolvedAngle =>
    "cannot tell whether `<` opens type arguments; treated as an operator"
  | .unknownCharacter c => "unexpected character " ++ String.ofList (Text.quotedSingle c)

/-- A problem and the span it concerns. -/
structure Diagnostic where
  span : Span
  problem : Problem
  deriving DecidableEq, Repr

namespace Diagnostic

def offset (d : Diagnostic) : Nat :=
  d.span.start

def message (d : Diagnostic) : String :=
  d.problem.message

end Diagnostic

end JavaHighlight
