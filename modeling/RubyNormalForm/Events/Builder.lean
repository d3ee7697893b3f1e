import RubyNormalForm.Events.Comments
import RubyNormalForm.Source

/-!
# Building raw trees from events

A grammar reports every token and every reduction, and gets back the value that stands for
it. Most reductions become a node of their name. Those that build lists item by item are
flattened into plain lists, definitions are wrapped in their comments, and every text inside
a literal is marked with the token that opened the literal.
-/

namespace RubyNormalForm

namespace Event

/-- The reductions by which a grammar reports an error. -/
def isError (event : String) : Bool :=
  ["parse_error", "class_name_error", "alias_error", "assign_error", "param_error"].contains event

/-- The list that a reduction begins: its tag, if it begins one. -/
def newListTag? (event : String) : Option String :=
  if ["stmts_new", "args_new", "mlhs_new", "mrhs_new", "xstring_new", "regexp_new"].contains event
  then some Raw.listTag
  else if event == "qwords_new" then some "qwords"
  else if event == "words_new" then some "words"
  else if event == "qsymbols_new" then some "qsymbols"
  else if event == "symbols_new" then some "symbols"
  else if event == "word_new" then some "word"
  else if event == "string_content" then some "string_content"
  else none

/-- The reductions that add an item to a list. -/
def isAdd (event : String) : Bool :=
  ["stmts_add", "args_add", "mlhs_add", "mrhs_add", "xstring_add", "regexp_add", "qwords_add",
   "words_add", "qsymbols_add", "symbols_add", "word_add", "string_add"].contains event

/-- The reductions that add a splat to a list. -/
def isAddStar (event : String) : Bool :=
  ["args_add_star", "mlhs_add_star", "mrhs_add_star"].contains event

/-- The argument at an index; one that is not there is `nil`. -/
def argument (args : List Raw) (i : Nat) : Raw :=
  args.getD i .nil

/-- The argument at an index, which must be a list. -/
def listArgument (event : String) (args : List Raw) (i : Nat) : Result Raw.Node :=
  match argument args i with
  | .node tag children => .ok ⟨tag, children⟩
  | other => .error (.malformed event (.expected .list other))

/-- The first argument, a list, with more items at its end. -/
def extended (event : String) (args : List Raw) (items : List Raw) : Result Raw := do
  let list ← listArgument event args 0
  return .node list.tag (list.children ++ items)

/-- A value as the items it adds to a list: an absent one adds none. -/
def present (r : Raw) : List Raw :=
  if r.isAbsent then [] else [r]

/-- The value of `mlhs_paren`: a nested list of targets, or the target itself. -/
def parenthesizedTargets (r : Raw) : Raw :=
  match r with
  | .node tag children => if tag == Raw.listTag then .node "mlhs" children else r
  | other => other

/-- The entries of a hash. -/
def hashEntries (r : Raw) : List Raw :=
  match r with
  | .node tag children => if tag == Raw.listTag then children else [r]
  | other => present other

/-- The value of a reduction, its comments apart. -/
def value (event : String) (args : List Raw) : Result Raw :=
  match newListTag? event with
  | some tag => .ok (.node tag [])
  | none =>
    if isAdd event then extended event args [argument args 1]
    else if isAddStar event then extended event args [.node "star" [argument args 1]]
    else if event == "args_add_block" then
      extended event args ((present (argument args 1)).map fun r => .node "block_pass" [r])
    else if event == "mlhs_add_post" then do
      let list ← listArgument event args 0
      let post ← listArgument event args 1
      return .node list.tag (list.children ++ post.children)
    else if event == "mrhs_new_from_args" then extended event args (present (argument args 1))
    else if event == "assoclist_from_args" then extended event args []
    else if event == "mlhs_paren" then .ok (parenthesizedTargets (argument args 0))
    else if event == "hash" || event == "bare_assoc_hash" then
      .ok (.node event (hashEntries (argument args 0)))
    else if event == "heredoc_dedent" then .ok (argument args 0)
    else .ok (.node event args)

end Event

/-- The tokens that open a literal. -/
def opensLiteral (kind text : String) : Bool :=
  ["tstring_beg", "heredoc_beg", "regexp_beg", "backtick", "qwords_beg", "words_beg",
   "qsymbols_beg", "symbols_beg"].contains kind || (kind == "symbeg" && text != ":")

/-- The tokens that close a literal. -/
def closesLiteral (kind : String) : Bool :=
  ["tstring_end", "heredoc_end", "regexp_end", "label_end"].contains kind

/-- The tokens that are comments. -/
def isComment (kind : String) : Bool :=
  ["comment", "embdoc_beg", "embdoc", "embdoc_end"].contains kind

/-- Takes note of a token that concerns comments. -/
def CommentState.scan (s : CommentState) (kind text : String) : CommentState :=
  if isComment kind then s.addComment text
  else if kind == "kw" then s.keyword text
  else if kind == "symbeg" then { s with inSymbol := true }
  else if kind == "embexpr_beg" then { s with inSymbol := false }
  else s

/-- What is known while a raw tree is built. -/
structure Builder where
  filename : String
  lineOffset : Nat
  comments : CommentState := {}
  /-- The tokens that opened the literals around this point, from the inside out. -/
  openers : List String := []
  /-- The line of the last token. -/
  lastLine : Option Nat := none

namespace Builder

/-- The state before the first event of a source file. -/
def ofSource (source : Source) : Builder where
  filename := source.filename
  lineOffset := source.lineOffset

/-- The literals that are open after a token. -/
def openersAfter (openers : List String) (kind text : String) : List String :=
  if opensLiteral kind text then text :: openers
  else if closesLiteral kind then openers.drop 1
  else openers

/-- The mark on a text inside a literal. -/
def openerMark (openers : List String) (kind : String) : List Raw :=
  if kind == "tstring_content" then (openers.head?.map Raw.str).toList else []

/-- Takes a token. -/
def scan (b : Builder) (kind text : String) (line column : Nat) : Builder × Raw :=
  let openers := openersAfter b.openers kind text
  ({ b with
      comments := b.comments.scan kind text
      openers := openers
      lastLine := some line },
    .node ("@" ++ kind) ([.str text, .pos line column] ++ openerMark openers kind))

/-- The error that a grammar reports. -/
def reported (b : Builder) (args : List Raw) : Error :=
  let message := match args.head? with
    | some (.str text) => text
    | some other => other.text
    | none => "syntax error"
  .source (.reported message) b.filename (b.lastLine.map (· + b.lineOffset))

/-- Takes a reduction. What it changes in the state stays changed if it fails. -/
def reduce (b : Builder) (event : String) (args : List Raw) : Builder × Result Raw :=
  if Event.isError event then (b, .error (b.reported args))
  else
    match Event.value event args with
    | .error e => (b, .error e)
    | .ok r =>
      let comments := b.comments.leave event
      match DefinitionKind.ofEvent? event with
      | none => ({ b with comments }, .ok r)
      | some kind =>
        let (comments, text) := comments.close kind
        ({ b with comments }, text.map fun text => .node "comment" [.str text, r])

/-- Ends the stream of events. -/
def finish (b : Builder) : Result Unit :=
  b.comments.finish

end Builder

end RubyNormalForm
