/-!
# Operators and delimiters

The lexemes with a fixed spelling, and their numbers of closing angle brackets.
-/

namespace JavaHighlight

/-- An operator or a delimiter. -/
inductive Symbol where
  | plus | minus | star | slash | percent | caret | ampersand | pipe | tilde | bang | equal
  | less | greater | question | colon | plusPlus | minusMinus | ampersandAmpersand | pipePipe
  | equalEqual | bangEqual | lessEqual | greaterEqual | shiftLeft | shiftRight
  | unsignedShiftRight | plusEqual | minusEqual | starEqual | slashEqual | percentEqual
  | caretEqual | ampersandEqual | pipeEqual | shiftLeftEqual | shiftRightEqual
  | unsignedShiftRightEqual | arrow | colonColon
  | leftParen | rightParen | leftBracket | rightBracket | leftBrace | rightBrace | semicolon
  | comma | dot | ellipsis | atSign
  deriving DecidableEq, Repr

namespace Symbol

/-- The operators, in the order of their numbers. -/
def operators : List Symbol := [
  .plus, .minus, .star, .slash, .percent, .caret, .ampersand, .pipe, .tilde, .bang, .equal,
  .less, .greater, .question, .colon, .plusPlus, .minusMinus, .ampersandAmpersand, .pipePipe,
  .equalEqual, .bangEqual, .lessEqual, .greaterEqual, .shiftLeft, .shiftRight,
  .unsignedShiftRight, .plusEqual, .minusEqual, .starEqual, .slashEqual, .percentEqual,
  .caretEqual, .ampersandEqual, .pipeEqual, .shiftLeftEqual, .shiftRightEqual,
  .unsignedShiftRightEqual, .arrow, .colonColon]

/-- The delimiters, in the order of their numbers. -/
def delimiters : List Symbol := [
  .leftParen, .rightParen, .leftBracket, .rightBracket, .leftBrace, .rightBrace, .semicolon,
  .comma, .dot, .ellipsis, .atSign]

def all : List Symbol := operators ++ delimiters

theorem mem_all (s : Symbol) : s ∈ all := by
  cases s <;> decide

def spelling : Symbol → String
  | .plus => "+"
  | .minus => "-"
  | .star => "*"
  | .slash => "/"
  | .percent => "%"
  | .caret => "^"
  | .ampersand => "&"
  | .pipe => "|"
  | .tilde => "~"
  | .bang => "!"
  | .equal => "="
  | .less => "<"
  | .greater => ">"
  | .question => "?"
  | .colon => ":"
  | .plusPlus => "++"
  | .minusMinus => "--"
  | .ampersandAmpersand => "&&"
  | .pipePipe => "||"
  | .equalEqual => "=="
  | .bangEqual => "!="
  | .lessEqual => "<="
  | .greaterEqual => ">="
  | .shiftLeft => "<<"
  | .shiftRight => ">>"
  | .unsignedShiftRight => ">>>"
  | .plusEqual => "+="
  | .minusEqual => "-="
  | .starEqual => "*="
  | .slashEqual => "/="
  | .percentEqual => "%="
  | .caretEqual => "^="
  | .ampersandEqual => "&="
  | .pipeEqual => "|="
  | .shiftLeftEqual => "<<="
  | .shiftRightEqual => ">>="
  | .unsignedShiftRightEqual => ">>>="
  | .arrow => "->"
  | .colonColon => "::"
  | .leftParen => "("
  | .rightParen => ")"
  | .leftBracket => "["
  | .rightBracket => "]"
  | .leftBrace => "\x7b"
  | .rightBrace => "\x7d"
  | .semicolon => ";"
  | .comma => ","
  | .dot => "."
  | .ellipsis => "..."
  | .atSign => "@"

/-- The number of closing angle brackets in a run of nothing else, and zero otherwise. A run
that ends in an equals sign closes nothing. -/
def closingAngles : Symbol → Nat
  | .greater => 1
  | .shiftRight => 2
  | .unsignedShiftRight => 3
  | _ => 0

/-- Whether a text starts with the spelling of a symbol. -/
def startsText (cs : List Char) (s : Symbol) : Bool :=
  s.spelling.toList.isPrefixOf cs

end Symbol

end JavaHighlight
