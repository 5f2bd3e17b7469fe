import JavaHighlight.Token.Kind

/-!
# Words with a meaning

Reserved words are keywords wherever they stand. Other words have a meaning in some places
only; they are listed here, and where they have it is decided by the classification.
-/

namespace JavaHighlight.Keyword

def controlWords : List String := [
  "do", "if", "for", "try", "case", "else", "break", "catch", "throw", "while", "assert",
  "switch", "default", "finally", "continue"]

/-- The reserved words without a kind of their own. -/
def plainWords : List String := [
  "_", "int", "byte", "char", "enum", "goto", "long", "void", "class", "const", "final", "float",
  "short", "double", "import", "native", "public", "static", "throws", "boolean", "extends",
  "package", "private", "abstract", "strictfp", "volatile", "interface", "protected",
  "transient", "implements", "instanceof", "synchronized"]

/-- The kind of a reserved word; none for any other word. -/
def kind? (word : String) : Option TokenKind :=
  if word ∈ plainWords then some .keyword
  else if word ∈ controlWords then some .keywordControl
  else if word = "return" then some .keywordReturn
  else if word = "new" then some .keywordNew
  else if word = "this" ∨ word = "super" then some .keywordThis
  else if word = "true" ∨ word = "false" then some .booleanLiteral
  else if word = "null" then some .nullLiteral
  else none

def isReserved (word : String) : Bool :=
  (kind? word).isSome

def moduleDirectives : List String := [
  "requires", "exports", "opens", "uses", "provides", "transitive", "to", "with"]

def primitiveTypes : List String := [
  "boolean", "byte", "char", "short", "int", "long", "float", "double"]

/-- The modifiers that may stand in front of the type parameters of a method. -/
def modifiers : List String := [
  "public", "protected", "private", "static", "final", "abstract", "synchronized", "native",
  "strictfp", "default"]

/-- The reserved words that may stand among type arguments. -/
def isTypeArgumentWord (word : String) : Bool :=
  word = "extends" || word = "super" || word ∈ primitiveTypes

/-- Reserved words do not depend on which list is searched first. -/
theorem disjoint_controlWords_plainWords : ∀ w ∈ controlWords, w ∉ plainWords := by
  decide

end JavaHighlight.Keyword
