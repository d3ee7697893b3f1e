import RubyNormalForm.Error

/-!
# Comments before definitions

While a grammar reports its tokens and reductions, comments are collected until the keyword
of a definition takes them. The keyword opens a frame that holds the comments, and the
reduction that completes the definition closes it. Keywords that are only names (in symbols,
after `def`, after `alias` and `undef`) open nothing; three flags keep track of these places.
-/

namespace RubyNormalForm

namespace DefinitionKind

/-- The kind of definition that a keyword opens. -/
def ofKeyword? (word : String) : Option DefinitionKind :=
  if word == "class" then some .classDef
  else if word == "module" then some .moduleDef
  else if word == "def" then some .methodDef
  else none

/-- The kind of definition that a reduction completes. -/
def ofEvent? (event : String) : Option DefinitionKind :=
  if event == "class" || event == "sclass" then some .classDef
  else if event == "module" then some .moduleDef
  else if event == "def" || event == "defs" then some .methodDef
  else none

end DefinitionKind

/-- An open definition and the comments before it. -/
structure Frame where
  kind : DefinitionKind
  text : String
deriving DecidableEq

/-- The comments that are waiting, the open definitions from the inside out, and the flags. -/
structure CommentState where
  pending : String := ""
  frames : List Frame := []
  /-- Inside a symbol. -/
  inSymbol : Bool := false
  /-- Between `def` and its parameters. -/
  inDefHeader : Bool := false
  /-- After `alias` or `undef`. -/
  inAlias : Bool := false
deriving DecidableEq

namespace CommentState

/-- The number of open definitions. -/
def depth (s : CommentState) : Nat :=
  s.frames.length

/-- Adds the text of a comment. -/
def addComment (s : CommentState) (text : String) : CommentState :=
  { s with pending := s.pending ++ text }

/-- Opens a definition, which takes the waiting comments. -/
def openFrame (s : CommentState) (kind : DefinitionKind) : CommentState :=
  { s with
    pending := ""
    frames := ⟨kind, s.pending⟩ :: s.frames
    inDefHeader := s.inDefHeader || kind == .methodDef }

/-- Takes note of a keyword. -/
def keyword (s : CommentState) (word : String) : CommentState :=
  if (word == "alias" || word == "undef") && !s.inSymbol && !s.inDefHeader then
    { s with inAlias := true }
  else
    match DefinitionKind.ofKeyword? word with
    | none => s
    | some kind => if s.inSymbol || s.inDefHeader || s.inAlias then s else s.openFrame kind

/-- Closes the innermost definition, which must be of the given kind, and hands out its
comments. The frame is gone even if it is of another kind. -/
def close (s : CommentState) (kind : DefinitionKind) : CommentState × Result String :=
  match s.frames with
  | [] => (s, .error (.nesting (.nothingOpen kind)))
  | frame :: rest =>
    let s := { s with frames := rest }
    if frame.kind = kind then (s, .ok frame.text)
    else (s, .error (.nesting (.otherOpen kind frame.kind)))

/-- Takes note of a reduction that ends a place where keywords are names. -/
def leave (s : CommentState) (event : String) : CommentState :=
  if event == "params" then { s with inDefHeader := false }
  else if event == "symbol" || event == "dyna_symbol" then { s with inSymbol := false }
  else if event == "alias" || event == "var_alias" || event == "undef" then
    { s with inAlias := false }
  else s

/-- Checks that no definition is left open. -/
def finish (s : CommentState) : Result Unit :=
  match s.frames with
  | [] => .ok ()
  | frame :: _ => .error (.nesting (.leftOpen s.depth frame.kind))

end CommentState

end RubyNormalForm
