import RubyNormalForm.Proofs.Raw.Site
import RubyNormalForm.Proofs.Tree.Everywhere
import RubyNormalForm.Proofs.Tree.Schema

/-!
# Properties of the nodes that rules compose

A rule makes new nodes around the normal forms it is given, and now and then it makes one of
them over. A law says of a property that it survives all this: new nodes that conform to the
schema have it, and the few ways of making a node over keep it. What holds of the nodes that a
rule is given then holds of every node in its result.

Two kinds of nodes are not new to the law. An assignment to a class variable comes from the
token that is assigned to, at its site; a definition comes from the node that defines it, with
the comment of its site.
-/

namespace RubyNormalForm

/-- The surroundings in the given scope. -/
def Context.within (ctx : Context) (inMethodBody : Bool) : Context :=
  { ctx with inMethodBody }

/-- The node with a comment, which stands in for its own. -/
def Form.commented (f : Form) (comment : Option String) : Form :=
  { f with comments := comment.or f.comments }

@[simp] theorem Form.commented_none (f : Form) : f.commented none = f := rfl

/-- The tags of raw nodes that define something. -/
def Raw.definitionTags : List String :=
  ["def", "defs", "class", "module", "sclass"]

/-- The tags of definitions. -/
def definitionTags : List String :=
  ["defn", "defs", "class", "module", "sclass"]

/-- The tag of an assignment to a class variable in the given scope. -/
def classVariableTag (inMethodBody : Bool) : String :=
  if inMethodBody then "cvasgn" else "cvdecl"

/-- The tags of nodes that come from a site in the raw tree. -/
def placedTags : List String :=
  "cvasgn" :: "cvdecl" :: definitionTags

/-- The schema says nothing of the tag, and its nodes come from no site. -/
def IsFree (tag : String) : Prop :=
  tag ∉ schemaTags ∧ tag ∉ placedTags
deriving Decidable

open Raw

/-- A property that new nodes have and that the rules keep, where `known` tells which nodes
stand at which sites. -/
structure Law (known : Site → Node → Prop) (ctx : Context) (P : Form → Prop) : Prop where
  closed : Closed known
  lineFree : LineFree P
  /-- New nodes have the property. -/
  fresh {f : Form} : f.comments = none → f.tag ∉ placedTags → f.Conforms → P f
  /-- A node that is made over keeps it. -/
  rebuilt {f g : Form} : P f → f.tag ∉ placedTags → g.tag = f.tag →
    g.items.length = f.items.length → g.comments = f.comments ∨ g.comments = none →
    (f.Conforms → g.Conforms) → P g
  /-- A class variable that is assigned to has it. -/
  assigned {b : Bool} {n : Node} {t : Rules.Token} : known (.target b) n →
    Rules.token n = .ok t → t.kind = "cvar" → ∀ values : List Item,
    P ⟨classVariableTag b, .sym t.text :: values, some (ctx.line t.line), none⟩
  /-- A definition has it when it has got its comment. -/
  defined {p : Site} {n : Node} {f : Form} : known p n → p.role = .expression →
    n.tag ∈ Raw.definitionTags → normalizeNode (ctx.within p.inMethodBody) n = .ok f →
    f.tag ∈ definitionTags → f.comments = some "" → f.Conforms → P (f.commented p.comment)
  /-- A comment is nothing to any other expression. -/
  commented {p : Site} {n : Node} : known p n → p.role = .expression → n.tag ≠ "comment" →
    n.tag ∉ Raw.definitionTags →
    known (.expression p.inMethodBody) n ∧ ∀ {f : Form}, P f → P (f.commented p.comment)
  /-- Whatever takes arguments in parentheses keeps it. -/
  extended {b : Bool} {n m : Node} {f : Form} : known (.expression b) n →
    n.tag = "method_add_arg" → n.nodeAt 0 = .ok m → normalizeNode (ctx.within b) m = .ok f →
    P f → ∀ args, P (f.pushAll args)

namespace Law

variable {known : Site → Node → Prop} {ctx : Context} {P : Form → Prop} (law : Law known ctx P)
include law

theorem all_fresh {f : Form} (noComments : f.comments = none) (unplaced : f.tag ∉ placedTags)
    (conforms : f.Conforms) (inside : ∀ x ∈ f.items, x.All P) : f.All P :=
  Form.all_iff.2 ⟨law.fresh noComments unplaced conforms, inside⟩

/-- A new node with a free tag has the property everywhere if its items have. -/
theorem all_of {tag : String} (free : IsFree tag) {items : List Item} :
    (Form.of tag items).All P ↔ ∀ x ∈ items, x.All P :=
  ⟨Form.All.items, law.all_fresh (f := Form.of tag items) rfl free.2 (.free free.1)⟩

theorem all_bare {tag : String} (free : IsFree tag) : (Form.of tag []).All P :=
  (law.all_of free).2 (by simp)

theorem all_group {tag : String} (free : IsFree tag) {forms : List Form} :
    (Form.group tag forms).All P ↔ ∀ f ∈ forms, f.All P := by
  show (Form.of tag (forms.map Form.toItem)).All P ↔ _
  rw [law.all_of free, Form.all_map_toItem]

theorem all_array {forms : List Form} : (Rules.array forms).All P ↔ ∀ f ∈ forms, f.All P :=
  law.all_group (by decide)

theorem withLine {f : Form} (h : f.All P) (line : Option Nat) : (f.withLine line).All P :=
  h.withLine law.lineFree line

theorem all_push? {tag : String} (free : IsFree tag) {items : List Item} {o : Option Form} :
    ((Form.of tag items).push? o).All P ↔ (∀ x ∈ items, x.All P) ∧ ∀ f ∈ o, f.All P := by
  cases o with
  | none => simp [Form.push?, law.all_of free]
  | some f =>
    show (Form.of tag (items ++ [f.toItem])).All P ↔ _
    simp [law.all_of free, or_imp, forall_and]

theorem all_pushAll {tag : String} (free : IsFree tag) {items : List Item} {forms : List Form} :
    ((Form.of tag items).pushAll forms).All P ↔
      (∀ x ∈ items, x.All P) ∧ ∀ f ∈ forms, f.All P := by
  show (Form.of tag (items ++ forms.map Form.toItem)).All P ↔ _
  simp [law.all_of free, or_imp, forall_and]

theorem all_call {tag : String} (isCall : tag = "call" ∨ tag = "safe_call")
    {receiver : Option Form} (isReceiver : ∀ f ∈ receiver, f.All P) (name : String)
    {args : List Form} (areArgs : ∀ f ∈ args, f.All P) :
    (Form.of tag (Form.itemOf receiver :: .sym name :: args.map Form.toItem)).All P := by
  have unplaced : tag ∉ placedTags := by
    obtain rfl | rfl := isCall <;> decide
  refine law.all_fresh rfl unplaced (Form.conforms_call isCall receiver name args) ?_
  simpa [Form.of] using ⟨isReceiver, areArgs⟩

end Law

namespace Rules

variable {known : Site → Node → Prop} {ctx : Context} {P : Form → Prop}

/-- The normaliser gives the expressions of a scope normal forms in which the property holds
everywhere. -/
def Upholds (known : Site → Node → Prop) (ctx : Context) (P : Form → Prop) (inner : Normalizer)
    (b : Bool) : Prop :=
  ∀ n, known (.expression b) n → Ensures (inner (ctx.within b) n) (Form.All P)

/-- The rule does so for nodes with expressions below them, if the normaliser of the smaller
nodes does. -/
def Composes (known : Site → Node → Prop) (ctx : Context) (P : Form → Prop) (rule : Rule) : Prop :=
  ∀ inner b, Upholds known ctx P inner b → ∀ n, Opens known b n →
    Ensures (rule inner (ctx.within b) n) (Form.All P)

/-! ### Values and arguments -/

namespace Upholds

variable {inner : Normalizer} {b : Bool} (each : Upholds known ctx P inner b)
include each

theorem nodeAt {n : Node} {i : Nat} (reads : Reads known b (n.slot i)) :
    Ensures (n.nodeAt i) (fun m => Ensures (inner (ctx.within b) m) (Form.All P)) :=
  ensures_nodeAt fun m found => each m (reads m found)

theorem value? {child : Raw} (reads : Reads known b child) :
    Ensures (value? inner (ctx.within b) child) (fun o => ∀ f ∈ o, f.All P) := by
  rw [Rules.value?.eq_def]
  split
  · simpa using each _ (reads_node.1 reads)
  · split <;> simp

theorem values {children : List Raw} (reads : ∀ c ∈ children, Reads known b c) :
    Ensures (values inner (ctx.within b) children) (fun forms => ∀ f ∈ forms, f.All P) := by
  induction children with
  | nil => simp [Rules.values]
  | cons child rest ih =>
    rw [List.forall_mem_cons] at reads
    simp only [Rules.values, ensures_bind, ensures_pure]
    refine (each.value? reads.1).mono fun form first => ?_
    refine (ih reads.2).mono fun forms others => ?_
    simpa [or_imp, forall_and] using ⟨first, others⟩

theorem arguments (closed : Closed known) {child : Raw} (reads : Reads known b child) :
    Ensures (arguments inner (ctx.within b) child) (fun forms => ∀ f ∈ forms, f.All P) := by
  have inside := closed.insideParens reads
  rw [Rules.arguments, entries.eq_def]
  split
  · rename_i tag children eq
    rw [eq] at inside
    split
    · rename_i isList
      have isList := eq_of_beq isList
      exact each.values (closed.opens_node inside (by rw [isList]; decide)).children
    · simpa using each _ (reads_node.1 inside)
  · split <;> simp

end Upholds

section Simple

variable (law : Law known ctx P)
include law

theorem constant_composes {tag : String} (free : IsFree tag) :
    Composes known ctx P (constant tag) := by
  intro inner b each n opens
  exact (ensures_ok _).2 (law.all_bare free)

theorem marked_composes {tag : String} (free : IsFree tag) :
    Composes known ctx P (marked tag) := by
  intro inner b each n opens
  simp only [marked, ensures_bind, ensures_pure, law.all_push? free]
  exact (each.value? (opens 0)).mono fun value inside => ⟨by simp, inside⟩

theorem all_jumpValue {forms : List Form} (inside : ∀ f ∈ forms, f.All P) :
    ∀ f ∈ jumpValue forms, f.All P := by
  match forms with
  | [] => simp [jumpValue]
  | [arg] =>
    have inside := inside arg (by simp)
    simp only [jumpValue, Option.mem_def, Option.some.injEq, forall_eq']
    split
    · simpa (disch := decide) [law.all_of] using inside
    · exact inside
  | first :: second :: rest =>
    simpa (disch := decide) [jumpValue, law.all_group] using inside

theorem jump_composes {tag : String} (free : IsFree tag) : Composes known ctx P (jump tag) := by
  intro inner b each n opens
  simp only [jump, ensures_bind, ensures_pure, law.all_push? free]
  refine (each.arguments law.closed (opens 0)).mono fun args inside => ⟨by simp, ?_⟩
  exact all_jumpValue law inside

end Simple

end Rules

end RubyNormalForm
