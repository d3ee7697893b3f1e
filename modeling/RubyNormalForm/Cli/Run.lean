import RubyNormalForm.Cli.Entry
import RubyNormalForm.Cli.Options
import RubyNormalForm.Normalize
import RubyNormalForm.Raw.Reader
import RubyNormalForm.Tree.Json
import RubyNormalForm.Tree.Printer

/-!
# The command

A run reads its configuration, finds the raw trees at its path, and prints the normal form of
each. It stops at the first failure; what was printed before stays. The files it reads are a
parameter, so a run is a function of them and of its arguments.
-/

namespace RubyNormalForm.Cli

/-- Why a run failed. -/
inductive Failure where
  | unreadable (path : String)
  | configuration (path : String)
  | tree (error : Error)

/-- The word that names a failure. -/
def Failure.code : Failure → String
  | .unreadable _ => "io"
  | .configuration _ => "config"
  | .tree (.source _ _ _) => "syntax"
  | .tree (.unsupported _ _) => "unsupported"
  | .tree (.nesting _) => "invariant"

/-- What is said about a failure. -/
def Failure.message : Failure → String
  | .unreadable path => "cannot read " ++ path
  | .configuration path => "invalid configuration in " ++ path
  | .tree error => error.message

/-- How a run ended. -/
inductive Ending where
  | done
  | failed (failure : Failure)
  /-- The arguments made no sense. -/
  | usage

/-- What a run printed, and how it ended. -/
structure Outcome where
  stdout : String := ""
  ending : Ending := .done

/-- The exit status of a run. -/
def Outcome.status (o : Outcome) : Nat :=
  match o.ending with
  | .done => 0
  | .failed _ => 1
  | .usage => 2

/-- The word that names the failure of a run. -/
def Outcome.code? (o : Outcome) : Option String :=
  match o.ending with
  | .failed failure => some failure.code
  | _ => none

/-- The files that a run can see, by their paths. -/
abbrev Files := String → Option Entry

/-- The name and the version of the command. -/
def versionText : String := "ruby-canon 0.1.0\n"

/-- The text of a file. -/
def readText (path : String) (entry : Option Entry) : Except Failure String :=
  match entry.bind Entry.text? with
  | some text => .ok text
  | none => .error (.unreadable path)

/-- The configuration of a run. The option on the command line takes precedence. -/
def loadConfig (files : Files) (o : Options) : Except Failure Config := do
  let config ← match o.config with
    | none => pure {}
    | some path =>
      match Config.ofJson? (← readText path (files path)) with
      | some config => pure config
      | none => throw (.configuration path)
  return if o.extraCompatible then { config with extraCompatible := true } else config

/-- The text of a normal form. -/
def render (format : Format) (lines : Bool) (form : Option Form) : String :=
  match format, form with
  | .json, none => JsonValue.null.pretty
  | .json, some f => f.toJson.pretty
  | .sexp, none => "nil"
  | .sexp, some f => if lines then f.textWithLines else f.text

/-- The text of the normal form of a raw tree. Its encoding is declared like that of a source
file. -/
def normalizeText (config : Config) (o : Options) (path text : String) : Result String := do
  let r ← Raw.read text path
  let filename := o.filename.getD path
  let encoding ← MagicComment.encoding text filename
  let form ← normalize config { filename, firstLine := o.line, encoding } r
  return render o.format o.lines form

/-- What is printed for one file. -/
def normalizeFile (config : Config) (o : Options) (path : String) (entry : Option Entry) :
    Except Failure String := do
  let text ← readText path entry
  (normalizeText config o path text).mapError .tree

/-- The files that a run takes: the path itself, or the raw trees below it. A directory that
cannot be listed is reported by the path that the search began with. -/
def inputs (path : String) : Option Entry → Except Failure (List (String × Option Entry))
  | none => .ok [(path, none)]
  | some entry =>
    if entry.isListed then .ok ((entry.dumpsBelow path).map fun (path, entry) => (path, some entry))
    else .error (.unreadable path)

/-- The line that names a file before its tree. -/
def heading (path : String) : String :=
  "== " ++ path ++ "\n"

/-- Prints the trees of files in order, up to the first failure. -/
def printAll (config : Config) (o : Options) (many : Bool) :
    List (String × Option Entry) → Outcome
  | [] => {}
  | (path, entry) :: rest =>
    match normalizeFile config o path entry with
    | .error failure => { ending := .failed failure }
    | .ok text =>
      let others := printAll config o many rest
      { others with
        stdout := (if many then heading path else "") ++ text ++ "\n" ++ others.stdout }

/-- A run with the given options. All files are found before the first is read. -/
def execute (files : Files) (o : Options) : Outcome :=
  match loadConfig files o with
  | .error failure => { ending := .failed failure }
  | .ok config =>
    match inputs o.path (files o.path) with
    | .error failure => { ending := .failed failure }
    | .ok found => printAll config o ((files o.path).any Entry.isDir) found

/-- A run with the given arguments. -/
def run (files : Files) (args : List String) : Outcome :=
  match Request.ofArgs? args with
  | none => { ending := .usage }
  | some .version => { stdout := versionText }
  | some (.run o) => execute files o

end RubyNormalForm.Cli
