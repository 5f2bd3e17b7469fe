import JavaHighlight.Report

/-!
# The command line

What the program answers to its arguments, given what its files hold. All files are read before
anything is reported, so a failure leaves the output empty. Diagnostics are reported beside the
output and are no failure.
-/

namespace JavaHighlight

/-- Why a file cannot be read. -/
inductive ReadFailure where
  | notFound
  | notUtf8
  | other (reason : String)
  deriving DecidableEq, Repr

def ReadFailure.message : ReadFailure → String
  | .notFound => "No such file or directory (os error 2)"
  | .notUtf8 => "stream did not contain valid UTF-8"
  | .other reason => reason

/-- The text of a file that holds the given bytes. -/
def decodeFile (bytes : ByteArray) : Except ReadFailure String :=
  match String.fromUTF8? bytes with
  | some text => .ok text
  | none => .error .notUtf8

namespace CommandLine

/-- Why the program gives up. -/
inductive Failure where
  | unknownFlag (flag : String)
  | noInput
  | unreadable (path : String) (reason : ReadFailure)
  deriving DecidableEq, Repr

def Failure.message : Failure → String
  | .unknownFlag flag => "unknown flag '" ++ flag ++ "'"
  | .noInput => "no input files"
  | .unreadable path reason => "cannot read '" ++ path ++ "': " ++ reason.message

/-- What the arguments ask for. -/
structure Options where
  /-- Count the tokens of each kind instead of listing them. -/
  summary : Bool
  /-- Read each file line by line. -/
  byLine : Bool
  paths : List String
  deriving DecidableEq, Repr

def summaryFlags : List String := ["--summary", "-s"]

def lineFlags : List String := ["--lines", "-l"]

def isFlag (arg : String) : Bool :=
  arg.toList.head? = some '-'

/-- Whether an argument is a flag that means nothing. -/
def isUnknownFlag (arg : String) : Bool :=
  isFlag arg && arg ∉ summaryFlags ++ lineFlags

/-- Read the arguments. Flags may stand anywhere and may be repeated. -/
def parse (args : List String) : Except Failure Options :=
  match args.find? isUnknownFlag with
  | some flag => .error (.unknownFlag flag)
  | none =>
    let paths := args.filter (!isFlag ·)
    if paths = [] then .error .noInput
    else .ok { summary := args.any (· ∈ summaryFlags), byLine := args.any (· ∈ lineFlags), paths }

def usage : String :=
  "Usage: javatok [--summary] [--lines] <file.java>...\n" ++
  "\n" ++
  "Options:\n" ++
  "  -s, --summary   Count tokens per kind instead of listing them\n" ++
  "  -l, --lines     Tokenize line by line, carrying state between lines\n"

/-- What the program leaves behind. -/
structure Outcome where
  exitCode : Nat
  output : String
  errors : String
  deriving DecidableEq, Repr

/-- The outcome of a failure, with more to be said about it. -/
def fail (failure : Failure) (more : String) : Outcome :=
  ⟨1, "", "error: " ++ failure.message ++ "\n" ++ more⟩

/-- The texts at the given paths, or the first failure to read one. -/
def readAll (files : String → Except ReadFailure String) :
    List String → Except Failure (List (String × String))
  | [] => .ok []
  | path :: paths =>
    match files path with
    | .error reason => .error (.unreadable path reason)
    | .ok text => (readAll files paths).map ((path, text) :: ·)

/-- Tokenize a text in the way that was asked for. -/
def tokenizeWith (options : Options) (text : String) : Output :=
  if options.byLine then tokenizeByLine text else tokenize text

/-- The heading of a file. A single file has none. -/
def heading (options : Options) (path : String) : String :=
  if 1 < options.paths.length then "== " ++ path ++ " ==\n" else ""

def listing (options : Options) (path text : String) (output : Output) : String :=
  heading options path ++
    if options.summary then Report.summary output else Report.tokens text output

/-- Answer to the arguments, given what the files hold. -/
def run (files : String → Except ReadFailure String) (args : List String) : Outcome :=
  match parse args with
  | .error failure => fail failure usage
  | .ok options =>
    match readAll files options.paths with
    | .error failure => fail failure ""
    | .ok texts =>
      let results := texts.map fun (path, text) => (path, text, tokenizeWith options text)
      { exitCode := 0
        output := String.join (results.map fun (path, text, output) =>
          listing options path text output)
        errors := String.join (results.map fun (path, text, output) =>
          Report.diagnostics path text output) }

end CommandLine

end JavaHighlight
