import RubyNormalForm.Literal.Quoting
import RubyNormalForm.Rules.Scalar

/-!
# Strings, symbols, commands and regular expressions

All these literals are sequences of fragments: text, with the token that opened it, and
interpolated code. Text is read as its opener says, adjacent texts are merged, and an
interpolated literal becomes part of the text around it. What is left decides the form: text
alone is a plain literal, and text with code a head string followed by the pieces.
-/

namespace RubyNormalForm.Rules

/-- A piece of a literal: text, or a node between texts. -/
inductive Piece where
  | text (s : ByteString)
  | form (f : Form)

/-- A fragment of a literal before its text is read. -/
inductive Fragment where
  | text (source : String) (opener : Option String)
  | piece (p : Piece)

/-- An interpolated node. -/
def interpolation (f : Form) : Form :=
  (Form.of "evstr" [f.toItem]).withLine f.line

/-- A string as a node. -/
def plainString (s : ByteString) : Form :=
  .of "str" [.str s]

/-- The text of a string node. -/
def stringPieces (items : List Item) : List Piece :=
  match items.head? with
  | some (.str s) => [.text s]
  | _ => []

/-- The piece that an item of an interpolated string stands for. -/
def piecesOfItem : Item → List Piece
  | .str s => [.text s]
  | .node tag items line comments =>
    if tag == "str" then stringPieces items else [.form ⟨tag, items, line, comments⟩]
  | _ => []

/-- The pieces of a node inside a literal: those of a string, or an interpolation. -/
def piecesOf (f : Form) : List Piece :=
  if f.is "str" then stringPieces f.items
  else if f.is "dstr" then f.items.flatMap piecesOfItem
  else [.form (interpolation f)]

/-- A string child as an opener. -/
def openerOf : Raw → Option String
  | .str opener => some opener
  | _ => none

/-- The fragments that a node inside a literal contributes. -/
def fragmentsOf (inner : Normalizer) (ctx : Context) (n : Raw.Node) : Result (List Fragment) := do
  if n.is "@tstring_content" then
    return [.text (← n.stringAt 0) (openerOf (n.slot 2))]
  else if n.is "string_embexpr" then
    match ← body inner ctx (n.slot 0) with
    | none => return [.piece (.form ((Form.of "evstr" []).withLine (ctx.lineOf n)))]
    | some f => return (piecesOf f).map .piece
  else if n.is "string_dvar" then
    let f ← inner ctx (← n.nodeAt 0)
    return [.piece (.form (interpolation f))]
  else
    let f ← inner ctx n
    return (piecesOf f).map .piece

/-- The fragments of a literal in source order. -/
def fragments (inner : Normalizer) (ctx : Context) : List Raw → Result (List Fragment)
  | [] => .ok []
  | child :: rest =>
    match child with
    | .node tag children => do
      let first ← fragmentsOf inner ctx ⟨tag, children⟩
      let others ← fragments inner ctx rest
      return first ++ others
    | other =>
      if other.isAbsent then fragments inner ctx rest
      else .error (.malformed "string_content" (.misplaced .stringPart other))

namespace Fragment

/-- The text of a fragment; `none` for code. -/
def source? : Fragment → Option String
  | .text source _ => some source
  | .piece _ => none

/-- The opener of a fragment of text. -/
def opener? : Fragment → Option String
  | .text _ opener => opener
  | .piece _ => none

/-- Whether a fragment belongs to a squiggly heredoc. -/
def isSquiggly (fragment : Fragment) : Bool :=
  fragment.opener?.any Heredoc.isSquiggly

/-- A fragment with another text, read as it is quoted. A quoting that is forced takes the
place of the fragment's own. -/
def decode (cs : Charset) (forced : Option Quoting) : Fragment → Option String → Piece
  | .text source opener, replaced =>
    .text ((forced.getD (.ofOpener opener)).decode cs (replaced.getD source))
  | .piece p, _ => p

end Fragment

/-- The pieces of a literal. The body of a squiggly heredoc is dedented as a whole before
its text is read. -/
def decode (cs : Charset) (forced : Option Quoting) (fragments : List Fragment) : List Piece :=
  let texts := fragments.map Fragment.source?
  let texts := if fragments.any Fragment.isSquiggly then Heredoc.dedent texts else texts
  List.zipWith (Fragment.decode cs forced) fragments texts

/-- A merged text as a node; nothing if it is empty. -/
def mergedText (s : ByteString) : List Form :=
  if s.isEmpty then [] else [plainString s]

/-- The nodes after the first interpolation, with adjacent texts merged. -/
def gather (encoding : Encoding) : (pending : ByteString) → List Piece → List Form
  | pending, [] => mergedText pending
  | pending, .text s :: rest => gather encoding (pending.append s) rest
  | pending, .form f :: rest => mergedText pending ++ f :: gather encoding (.empty encoding) rest

/-- The text before the first interpolation, and the nodes from there on if there is one. -/
def assemble (encoding : Encoding) : (head : ByteString) → List Piece →
    ByteString × Option (List Form)
  | head, [] => (head, none)
  | head, .text s :: rest => assemble encoding (head.append s) rest
  | head, .form f :: rest => (head, some (f :: gather encoding (.empty encoding) rest))

/-- The form of a literal, given its plain form and the tag of its interpolated form. -/
def literalForm (encoding : Encoding) (plain : ByteString → Form) (tag : String)
    (pieces : List Piece) : Form :=
  match assemble encoding (.empty encoding) pieces with
  | (head, none) => plain head
  | (head, some forms) => (Form.of tag [.str head]).pushAll forms

/-- A string. -/
def stringForm (encoding : Encoding) (pieces : List Piece) : Form :=
  literalForm encoding plainString "dstr" pieces

/-- A symbol. -/
def symbolForm (encoding : Encoding) (pieces : List Piece) : Form :=
  literalForm encoding (fun s => literal (.sym s.toText)) "dsym" pieces

/-- A command. -/
def commandForm (encoding : Encoding) (pieces : List Piece) : Form :=
  literalForm encoding (fun s => .of "xstr" [.str s]) "dxstr" pieces

/-- A regular expression with its options. -/
def regexpForm (encoding : Encoding) (flags : Regexp.Flags) (pieces : List Piece) : Form :=
  match assemble encoding (.empty encoding) pieces with
  | (head, none) => literal (.regexp ⟨head.toText, flags.options⟩)
  | (head, some forms) =>
    let form := (Form.of (if flags.once then "dregx_once" else "dregx") [.str head]).pushAll forms
    if flags.options = 0 then form else form.push (.int flags.options)

/-- The parts of the body of a literal. -/
def contentParts (child : Raw) : Result (List Raw) :=
  match child with
  | .node tag children =>
    if tag == "string_content" || tag == Raw.listTag then .ok children else .ok [child]
  | other =>
    if other.isAbsent then .ok []
    else .error (.malformed "string_literal" (.misplaced .stringBody other))

/-- The pieces of parts whose texts are read as their openers say. -/
def pieces (inner : Normalizer) (ctx : Context) (parts : List Raw) : Result (List Piece) :=
  (fragments inner ctx parts).map (decode ctx.charset none)

/-- A literal whose body is the first child, given how its pieces are put together. -/
def quotedRule (form : Encoding → List Piece → Form) : Rule := fun inner ctx n => do
  let parts ← contentParts (n.slot 0)
  return form ctx.encoding (← pieces inner ctx parts)

/-- The body of a string reached by itself. -/
def contentRule : Rule := fun inner ctx n => do
  return stringForm ctx.encoding (← pieces inner ctx n.children)

/-- A text token reached by itself. -/
def textTokenRule : Rule := fun inner ctx n => do
  return stringForm ctx.encoding (← pieces inner ctx [n.toRaw])

/-- Two adjacent strings. -/
def concatenationRule : Rule := fun inner ctx n => do
  let left ← inner ctx (← n.nodeAt 0)
  let right ← inner ctx (← n.nodeAt 1)
  return (stringForm ctx.encoding (piecesOf left ++ piecesOf right)).withLine left.line

/-- The name of a symbol literal, which may be wrapped once more. -/
def symbolName (child : Raw) : Result String :=
  match child with
  | .node tag children =>
    if tag == "symbol" then name ((Raw.Node.mk tag children).slot 0) else name child
  | other => name other

/-- A symbol literal such as `:a`. -/
def symbolRule : Rule := fun _ _ n => do
  return literal (.sym (← symbolName (n.slot 0)))

/-- The options of a regular expression, by its closing token. -/
def regexpFlags (child : Raw) : Regexp.Flags :=
  match child with
  | .node tag children => .ofClosing (((Raw.Node.mk tag children).tokenText?).getD "/")
  | _ => {}

/-- A regular expression. Its texts are all read with the first opener among them. -/
def regexpRule : Rule := fun inner ctx n => do
  let parts ← contentParts (n.slot 0)
  let found ← fragments inner ctx parts
  let opening := ((found.findSome? Fragment.opener?).map Literal.delimiter).getD '/'
  return regexpForm ctx.encoding (regexpFlags (n.slot 1))
    (decode ctx.charset (some (.regexp opening)) found)

/-- The parts of an element of a word list. -/
def wordParts (child : Raw) : List Raw :=
  match child with
  | .node tag children => if tag == "word" then children else [child]
  | other => [other]

/-- The elements of a word list, given how their pieces are put together. -/
def wordForms (form : Encoding → List Piece → Form) (inner : Normalizer) (ctx : Context) :
    List Raw → Result (List Form)
  | [] => .ok []
  | child :: rest => do
    let found ← pieces inner ctx (wordParts child)
    let forms ← wordForms form inner ctx rest
    return form ctx.encoding found :: forms

/-- A list of words or of symbols. -/
def wordsRule (form : Encoding → List Piece → Form) : Rule := fun inner ctx n =>
  (wordForms form inner ctx n.children).map array

end RubyNormalForm.Rules
