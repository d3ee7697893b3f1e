import RubyNormalForm.Config
import RubyNormalForm.Rules.Assignment
import RubyNormalForm.Rules.Call
import RubyNormalForm.Rules.Collection
import RubyNormalForm.Rules.Definition
import RubyNormalForm.Rules.Operator
import RubyNormalForm.Rules.Text
import RubyNormalForm.Source

/-!
# Normalisation

The table of rules, and the normaliser that applies them. A node is given to the rule of its
tag; what the rule returns takes the line on which the node begins, unless the rule has
chosen one. A rule may ask for the normal forms of smaller nodes only, so normalisation ends.
-/

namespace RubyNormalForm

open Rules

/-- The rules, by the tags of the nodes they are for. -/
def rules : List (String × Rule) :=
  [("assign", assignRule),
   ("opassign", operatorAssignRule),
   ("massign", multipleAssignRule),
   (Raw.listTag, sequenceRule),
   ("stmts", sequenceRule),
   ("void_stmt", constant "nil"),
   ("paren", parenthesesRule),
   ("method_add_block", blockCallRule),
   ("lambda", lambdaRule),
   ("BEGIN", hookRule "preexe"),
   ("END", hookRule "postexe"),
   ("if", conditional true false),
   ("unless", conditional true true),
   ("elsif", conditional false false),
   ("if_mod", modifier false),
   ("unless_mod", modifier true),
   ("ifop", ternary),
   ("case", caseRule),
   ("begin", bodyRule),
   ("bodystmt", sequenceRule),
   ("rescue_mod", fallbackRule),
   ("@int", integerRule),
   ("@float", floatRule),
   ("@rational", rationalRule),
   ("@imaginary", imaginaryRule),
   ("@CHAR", characterRule),
   ("@label", labelRule),
   ("@backref", tokenRule),
   ("@const", tokenRule),
   ("@ivar", tokenRule),
   ("@gvar", tokenRule),
   ("@cvar", tokenRule),
   ("@tstring_content", textTokenRule),
   ("var_ref", referenceRule),
   ("const_ref", referenceRule),
   ("const_path_ref", constantPath false),
   ("top_const_ref", constantPath true),
   ("string_literal", quotedRule stringForm),
   ("string_content", contentRule),
   ("string_concat", concatenationRule),
   ("xstring_literal", quotedRule commandForm),
   ("dyna_symbol", quotedRule symbolForm),
   ("symbol_literal", symbolRule),
   ("symbol", symbolRule),
   ("regexp_literal", regexpRule),
   ("words", wordsRule stringForm),
   ("qwords", wordsRule stringForm),
   ("symbols", wordsRule symbolForm),
   ("qsymbols", wordsRule symbolForm),
   ("array", arrayRule),
   ("hash", hashRule),
   ("bare_assoc_hash", hashRule),
   ("dot2", rangeRule false),
   ("dot3", rangeRule true),
   ("while", loop false),
   ("until", loop true),
   ("while_mod", postfixLoop false),
   ("until_mod", postfixLoop true),
   ("for", forLoop),
   ("call", callRule),
   ("fcall", bareCallRule),
   ("vcall", bareCallRule),
   ("command", commandRule),
   ("command_call", commandCallRule),
   ("method_add_arg", argumentsRule),
   ("aref", elementRule),
   ("super", superRule),
   ("zsuper", constant "zsuper"),
   ("yield", yieldRule),
   ("yield0", constant "yield"),
   ("return", jump "return"),
   ("return0", constant "return"),
   ("break", jump "break"),
   ("next", jump "next"),
   ("redo", constant "redo"),
   ("retry", constant "retry"),
   ("star", marked "splat"),
   ("block_pass", marked "block_pass"),
   ("assoc_splat", marked "kwsplat"),
   ("args_forward", constant "forward_args"),
   ("def", methodRule),
   ("defs", singletonMethodRule),
   ("class", classRule),
   ("module", moduleRule),
   ("sclass", singletonClassRule),
   ("comment", commentRule),
   ("params", parametersRule),
   ("alias", aliasRule),
   ("var_alias", variableAliasRule),
   ("undef", undefRule),
   ("binary", binaryRule),
   ("unary", unaryRule),
   ("defined", definedRule)]

/-- The rule for nodes with the given tag. -/
def rule? (tag : String) : Option Rule :=
  rules.lookup tag

/-- The tags that have a rule, in order. -/
def ruleTags : List String :=
  (rules.map Prod.fst).mergeSort (fun s t => decide (s ≤ t))

/-- The result of a rule with its line settled. -/
def settle (ctx : Context) (n : Raw.Node) (f : Form) : Form :=
  let f := f.withLine (ctx.lineOf n)
  if f.line.isNone then f.raiseLines else f

/-- The normal form of a node, given those of smaller nodes. -/
def normalizeStep (inner : Normalizer) : Normalizer := fun ctx n =>
  match rule? n.tag with
  | none => .error (.unsupported n.tag none)
  | some rule => (rule inner ctx n).map (settle ctx n)

/-- The normal form of a node in any surroundings. -/
def normalForm : Raw.Node → Context → Result Form :=
  Raw.Node.bySize (fun m _ => .error (.unsupported m.tag none))
    (fun inner n ctx => normalizeStep (fun ctx m => inner m ctx) ctx n)

/-- The normal form of a node. -/
def normalizeNode : Normalizer := fun ctx n =>
  normalForm n ctx

/-- A node is given to the rule of its tag, with the normaliser itself for smaller nodes. -/
theorem normalizeNode_eq (ctx : Context) (n : Raw.Node) :
    normalizeNode ctx n =
      normalizeStep (fun ctx m =>
        if m.size < n.size then normalizeNode ctx m
        else .error (.unsupported m.tag none)) ctx n := by
  unfold normalizeNode normalForm
  rw [Raw.Node.bySize_eq]
  congr 1
  funext ctx m
  by_cases h : m.size < n.size <;> simp only [h, if_true, if_false]

/-- The surroundings of the nodes at the top of a source file. -/
def Context.ofSource (source : Source) (config : Config) : Context where
  filename := source.filename
  lineOffset := source.lineOffset
  charset := ⟨source.encoding, config.extraCompatible⟩

/-- The normal form of a whole program: nothing, its only statement, or all its statements
in a block. Every node of it has a line if any node has. -/
def normalizeProgram (ctx : Context) (n : Raw.Node) : Result (Option Form) := do
  if n.is "program" then
    let form ← body normalizeNode ctx (n.slot 0)
    return form.map Form.settleLines
  else return some (← normalizeNode ctx n)

/-- The normal form of a raw tree. -/
def normalize (config : Config) (source : Source) (r : Raw) : Result (Option Form) :=
  match r with
  | .node tag children => normalizeProgram (.ofSource source config) ⟨tag, children⟩
  | other =>
    if other.isAbsent then .ok none else .error (.malformed "program" (.expected .node other))

end RubyNormalForm
