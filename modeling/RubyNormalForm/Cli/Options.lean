import RubyNormalForm.Literal.Integer

/-!
# Command-line options

The arguments of the command, read from left to right. An option may be given once, its value
follows it or an equals sign, and exactly one path is wanted. After `--` every argument is a
path.
-/

namespace RubyNormalForm.Cli

/-- How trees are printed. -/
inductive Format where
  | sexp
  | json
deriving DecidableEq

/-- What a run is asked to do. -/
structure Options where
  /-- A raw tree, or a directory that is searched for raw trees. -/
  path : String
  /-- The name that trees take for their source file, if not their own path. -/
  filename : Option String := none
  /-- The number of the first source line. -/
  line : Nat := 1
  extraCompatible : Bool := false
  /-- The path of a configuration. -/
  config : Option String := none
  format : Format := .sexp
  /-- Whether lines are printed. -/
  lines : Bool := false
deriving DecidableEq

/-- What the arguments ask for. -/
inductive Request where
  | run (options : Options)
  | version
deriving DecidableEq

/-- The options found so far. -/
structure Draft where
  path : Option String := none
  filename : Option String := none
  line : Option Nat := none
  extraCompatible : Bool := false
  config : Option String := none
  format : Option Format := none
  lines : Bool := false

namespace Draft

/-- The options once all arguments are read. -/
def finish (d : Draft) : Option Request :=
  d.path.map fun path =>
    .run { path, filename := d.filename, line := d.line.getD 1
           extraCompatible := d.extraCompatible, config := d.config
           format := d.format.getD .sexp, lines := d.lines }

/-- Takes a path. -/
def addPath (d : Draft) (path : String) : Option Draft :=
  if d.path.isSome || path.isEmpty then none else some { d with path := some path }

/-- Takes several paths. -/
def addPaths (d : Draft) : List String → Option Draft
  | [] => some d
  | path :: rest => (d.addPath path).bind (·.addPaths rest)

/-- Takes an option without a value. -/
def addFlag (d : Draft) (name : String) : Option Draft :=
  if name == "extra-compatible" && !d.extraCompatible then
    some { d with extraCompatible := true }
  else if name == "lines" && !d.lines then some { d with lines := true }
  else none

end Draft

/-- A line number: decimal digits, possibly after a plus sign, of at most 64 bits. -/
def lineNumber? (text : String) : Option Nat :=
  let digits := match text.toList with
    | '+' :: rest => rest
    | rest => rest
  (Literal.natural? 10 digits).filter (· < 0x10000000000000000)

/-- The format with the given name. -/
def format? (text : String) : Option Format :=
  if text == "sexp" then some .sexp else if text == "json" then some .json else none

/-- The options that have a value. -/
def takesValue (name : String) : Bool :=
  ["filename", "line", "config", "format"].contains name

/-- Takes an option with its value. -/
def Draft.addOption (d : Draft) (name value : String) : Option Draft :=
  if name == "filename" && d.filename.isNone then some { d with filename := some value }
  else if name == "line" && d.line.isNone then
    (lineNumber? value).map fun n => { d with line := some n }
  else if name == "config" && d.config.isNone && !value.isEmpty then
    some { d with config := some value }
  else if name == "format" && d.format.isNone then
    (format? value).map fun f => { d with format := some f }
  else none

/-- An argument that is no option: it does not begin with a hyphen, or is only a hyphen. -/
def isValue (arg : String) : Bool :=
  arg.toList.head? != some '-' || arg == "-"

/-- The name of an option and the value after its equals sign, if it has one. -/
def splitOption (text : List Char) : String × Option String :=
  let name := String.ofList (text.takeWhile (· != '='))
  match text.dropWhile (· != '=') with
  | _ :: value => (name, some (String.ofList value))
  | [] => (name, none)

/-- What an option by itself does: it names a version, a value that has to follow, or a
setting. -/
inductive Effect where
  | version
  | wantsValue (name : String)
  | settled (d : Draft)

/-- Takes an option whose name begins after two hyphens. -/
def Draft.long (d : Draft) (text : List Char) : Option Effect :=
  match splitOption text with
  | (name, some value) => (d.addOption name value).map .settled
  | (name, none) =>
    if name == "version" then some .version
    else if takesValue name then some (.wantsValue name)
    else (d.addFlag name).map .settled

/-- Reads the arguments after the options found so far; `none` if they make no sense. -/
def request? (d : Draft) : List String → Option Request
  | [] => d.finish
  | arg :: rest =>
    if isValue arg then (d.addPath arg).bind (request? · rest)
    else
      match arg.toList with
      | ['-', '-'] => (d.addPaths rest).bind Draft.finish
      | '-' :: '-' :: name =>
        match d.long name with
        | none => none
        | some .version => some .version
        | some (.settled d) => request? d rest
        | some (.wantsValue name) =>
          match rest with
          | value :: rest =>
            if isValue value then (d.addOption name value).bind (request? · rest) else none
          | [] => none
      | '-' :: 'V' :: _ => some .version
      | _ => none

/-- What a list of arguments asks for; `none` if it makes no sense. -/
def Request.ofArgs? (args : List String) : Option Request :=
  request? {} args

end RubyNormalForm.Cli
