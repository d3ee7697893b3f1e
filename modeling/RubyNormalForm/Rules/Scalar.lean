import RubyNormalForm.Literal.Number
import RubyNormalForm.Rules.Parameter

/-!
# Numbers, variables and constants
-/

namespace RubyNormalForm.Rules

/-- A literal with the given value. -/
def literal (item : Item) : Form :=
  .of "lit" [item]

/-- A number, given how its text is read. -/
def numberRule (kind : NumberKind) (read : String → Option Item) : Rule := fun _ _ n => do
  let t ← token n
  match read t.text with
  | some item => return literal item
  | none => throw (.malformed n.tag (.invalidNumber kind t.text))

/-- Integers. -/
def integerRule : Rule :=
  numberRule .integer fun text => (Literal.integer? text).map Item.ofInteger

/-- Floats. -/
def floatRule : Rule :=
  numberRule .float fun text => (Literal.float? text).map Item.float

/-- Rationals. -/
def rationalRule : Rule :=
  numberRule .rational fun text => (Literal.rational? text.toList).map Item.rational

/-- Imaginary numbers. -/
def imaginaryRule : Rule :=
  numberRule .imaginary fun text => (Literal.imaginary? text.toList).map Item.imaginary

/-- A text without a question mark at its front. -/
def withoutQuestionMark (text : String) : String :=
  match text.toList with
  | '?' :: rest => String.ofList rest
  | _ => text

/-- A character literal such as `?a`. -/
def characterRule : Rule := fun _ ctx n => do
  let t ← token n
  return .of "str" [.str (ctx.charset.doubleQuoted (withoutQuestionMark t.text))]

/-- A label such as `a:`. -/
def labelRule : Rule := fun _ _ n => do
  let t ← token n
  return literal (.sym (withoutColons t.text))

/-- A reference to the last match, by number or by name. -/
def backReference (text : String) : Result Form :=
  match text.toList with
  | '$' :: rest =>
    match (Literal.decimal? rest).filter Number.fits64 with
    | some n => .ok (.of "nth_ref" [.int n])
    | none => .ok (.of "back_ref" [.sym (String.ofList rest)])
  | _ => .error (.malformed "@backref" (.invalidBackReference text))

/-- A keyword that stands for a value. -/
def keyword (ctx : Context) (line : Nat) (word : String) : Result Form :=
  if word == "nil" || word == "true" || word == "false" || word == "self" then .ok (.of word [])
  else if word == "__FILE__" then .ok (.of "str" [.str (ctx.charset.verbatim ctx.filename)])
  else if word == "__LINE__" then .ok (literal (.int line))
  else if word == "__ENCODING__" then
    .ok (.of "colon2" [(Form.of "const" [.sym "Encoding"]).toItem, .sym ctx.encoding.constantName])
  else .error (.malformed "var_ref" (.unknownKeyword word))

/-- The read of a token. -/
def readToken (ctx : Context) (t : Token) : Result Form := do
  let line := ctx.line t.line
  let form ←
    if t.kind == "ident" then pure (.of "lvar" [.sym t.text])
    else if t.kind == "ivar" || t.kind == "gvar" || t.kind == "cvar" || t.kind == "const" then
      pure (.of t.kind [.sym t.text])
    else if t.kind == "backref" then backReference t.text
    else if t.kind == "kw" then keyword ctx line t.text
    else throw (.malformed "var_ref" (.unexpectedToken t.kind))
  return form.withLine (some line)

/-- A token that is read. -/
def tokenRule : Rule := fun _ ctx n => do
  readToken ctx (← token n)

/-- A variable, a constant or a keyword. -/
def referenceRule : Rule := fun _ ctx n => do
  readToken ctx (← token (← n.nodeAt 0))

end RubyNormalForm.Rules
