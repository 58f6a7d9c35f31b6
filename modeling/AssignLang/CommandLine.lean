/-
# The command line

One file is read, its end trimmed of white space, and run in a scope that binds
nothing. The options print what the stages give on the way: the tokens, the
program, the variables. A diagnostic goes to the error output with the path,
the position and the text it points at, and what was printed before it stays.

Key definitions: `Options`, `Options.ofArgs?`, `Outcome`, `Diagnostic.report`,
`Options.run`.
-/
import AssignLang.Compile
import AssignLang.Program.Text
import AssignLang.Text.WhiteSpace

namespace AssignLang

/-- What the command line asks for. -/
structure Options where
  /-- Print the tokens. -/
  tokens : Bool
  /-- Print the program. -/
  ast : Bool
  /-- Print the variables at the end. -/
  verbose : Bool
  /-- The file to run. -/
  path : String
  deriving DecidableEq, Repr

namespace Options

/-- The file that is run when none is named. -/
def defaultPath : String := "main.begin"

/-- The options read so far, and whether a path was among them. -/
structure Draft where
  options : Options
  hasPath : Bool

/-- The path, of which there is at most one. -/
def Draft.withPath? (p : Draft) (path : String) : Option Draft :=
  if p.hasPath then none else some ⟨{ p.options with path := path }, true⟩

/-- An option, which may be given once. -/
def Draft.withOption? (p : Draft) (name : String) : Option Draft :=
  if name = "--tokens" ∧ ¬ p.options.tokens then
    some { p with options := { p.options with tokens := true } }
  else if name = "--ast" ∧ ¬ p.options.ast then
    some { p with options := { p.options with ast := true } }
  else if (name = "-v" ∨ name = "--verbose") ∧ ¬ p.options.verbose then
    some { p with options := { p.options with verbose := true } }
  else none

/-- Reads the arguments after those already read. After `--` an argument is a
path whatever it looks like. -/
def readArgs : Draft → List String → Option Draft
  | p, [] => some p
  | p, "--" :: paths => paths.foldlM Draft.withPath? p
  | p, arg :: args =>
    if arg.startsWith "-" ∧ arg ≠ "-" then (p.withOption? arg).bind fun q => readArgs q args
    else (p.withPath? arg).bind fun q => readArgs q args

/-- The options that arguments ask for, if they ask for something that is
there. -/
def ofArgs? (args : List String) : Option Options :=
  (readArgs ⟨⟨false, false, false, defaultPath⟩, false⟩ args).map Draft.options

end Options

/-- What a run leaves: its exit code and what it printed. -/
structure Outcome where
  code : Nat
  stdout : String
  stderr : String
  deriving DecidableEq, Repr

/-- A line of output. -/
def outputLine (text : String) : String := text ++ "\n"

/-- The line of a token in a token listing. -/
def Token.listing (t : Token) : String :=
  outputLine (toString t.span.first ++ ".." ++ toString t.span.stop ++ " " ++ t.kind.name ++ " " ++
    t.display)

/-- The line of a variable. -/
def Binding.listing (b : Binding) : String := outputLine ("    " ++ b.1 ++ " = " ++ b.2.text)

/-- The line about a diagnostic in the file at `path` with text `source`. -/
def Diagnostic.report (d : Diagnostic) (path source : String) : String :=
  let place := if d.span.isEmpty then "EOF"
    else "'" ++ Text.escape (d.span.cut source.toList) ++ "'"
  outputLine ("[" ++ path ++ ":" ++ toString d.position.line ++ ":" ++ toString d.position.column ++
    "] Error at " ++ place ++ ": " ++ d.message)

namespace Options

/-- What a listing prints if it is asked for. -/
def listing (asked : Bool) (text : String) : String := if asked then text else ""

/-- What is printed about a source text, and the diagnostic if there is one. -/
def execute (o : Options) (source : String) : String × Option Diagnostic :=
  match tokenize source with
  | .error d => ("", some d)
  | .ok ts =>
    let tokens := listing o.tokens (String.join (ts.map Token.listing))
    match parse ts with
    | .error d => (tokens, some d)
    | .ok p =>
      let program := listing o.ast (outputLine p.text)
      match p.run .empty with
      | (.error d, _) => (tokens ++ program, some d)
      | (.ok v, s) =>
        let bindings := listing o.verbose (String.join (s.bindings.map Binding.listing))
        (tokens ++ program ++ outputLine v.text ++ bindings, none)

/-- Runs the text of a file. -/
def runText (o : Options) (contents : String) : Outcome :=
  let source := Text.trimEnd contents
  match o.execute source with
  | (stdout, none) => ⟨0, stdout, ""⟩
  | (stdout, some d) => ⟨1, stdout, d.report o.path source⟩

/-- Runs a file, of which the bytes are given if it can be read. A file that is
not there or not in UTF-8 fails without a word. -/
def run (o : Options) (file : Option ByteArray) : Outcome :=
  match file.bind String.fromUTF8? with
  | some contents => o.runText contents
  | none => ⟨1, "", ""⟩

end Options

end AssignLang
