import Mathlib.Data.List.Forall2
import RubyNormalForm.Proofs.Raw.Hereditary

/-!
# Two ways of writing that nothing is there

In a raw tree `nil` and `false` both stand for nothing at all. A tree is uniform if it writes
`nil` throughout; two trees have the same uniform tree just if they differ in the choice
between the two. What the rules see of a tree without normalising it (its tags, tokens and
positions, the chains of its clauses, what stands inside its parentheses) is the same for the
uniform tree, with the parts made uniform as well.
-/

namespace RubyNormalForm

namespace Raw

mutual

/-- The tree with every absent value written as `nil`. -/
def uniform : Raw → Raw
  | .node tag children => .node tag (uniformAll children)
  | .bool false => .nil
  | other => other

/-- Makes each tree of a sequence uniform. -/
def uniformAll : List Raw → List Raw
  | [] => []
  | child :: rest => uniform child :: uniformAll rest

end

/-- The second tree is the first with some absent values written in the other way. -/
inductive Interchanged : Raw → Raw → Prop
  | absent {r r' : Raw} (first : r.isAbsent = true) (second : r'.isAbsent = true) :
      Interchanged r r'
  | node {tag : String} {children children' : List Raw}
      (inside : List.Forall₂ Interchanged children children') :
      Interchanged (.node tag children) (.node tag children')
  | same (r : Raw) : Interchanged r r

theorem uniformAll_eq_map (children : List Raw) : uniformAll children = children.map uniform := by
  induction children with
  | nil => rfl
  | cons child rest ih => rw [uniformAll, ih, List.map_cons]

theorem uniform_of_isAbsent {r : Raw} (absent : r.isAbsent = true) : r.uniform = .nil := by
  cases r with
  | nil => rfl
  | bool b =>
    cases b with
    | false => rfl
    | true => cases absent
  | _ => cases absent

mutual

theorem Interchanged.uniform_eq (r : Raw) {r' : Raw} (h : Interchanged r r') :
    r.uniform = r'.uniform := by
  cases h with
  | absent first second => rw [uniform_of_isAbsent first, uniform_of_isAbsent second]
  | node inside =>
    rename_i tag children children'
    rw [uniform, uniform, Interchanged.uniformAll_eq children inside]
  | same => rfl

theorem Interchanged.uniformAll_eq (children : List Raw) {children' : List Raw}
    (h : List.Forall₂ Interchanged children children') :
    uniformAll children = uniformAll children' := by
  cases h with
  | nil => rfl
  | cons first others =>
    rename_i child child' rest rest'
    rw [uniformAll, uniformAll, Interchanged.uniform_eq child first,
      Interchanged.uniformAll_eq rest others]

end

@[simp]
theorem isAbsent_uniform (r : Raw) : r.uniform.isAbsent = r.isAbsent := by
  cases r with
  | bool b => cases b <;> rfl
  | _ => rfl

mutual

@[simp]
theorem size_uniform (r : Raw) : r.uniform.size = r.size := by
  cases r with
  | node tag children => simp only [uniform, size, sizeAll_uniformAll children]
  | bool b => cases b <;> rfl
  | _ => rfl

theorem sizeAll_uniformAll (children : List Raw) :
    sizeAll (uniformAll children) = sizeAll children := by
  cases children with
  | nil => rfl
  | cons child rest =>
    simp only [uniformAll, sizeAll, size_uniform child, sizeAll_uniformAll rest]

end

mutual

theorem firstPosition_uniform (r : Raw) : r.uniform.firstPosition = r.firstPosition := by
  cases r with
  | node tag children => simp only [uniform, firstPosition, firstPositionIn_uniformAll children]
  | bool b => cases b <;> rfl
  | _ => rfl

theorem firstPositionIn_uniformAll (children : List Raw) :
    firstPositionIn (uniformAll children) = firstPositionIn children := by
  cases children with
  | nil => rfl
  | cons child rest =>
    simp only [uniformAll, firstPositionIn, firstPosition_uniform child,
      firstPositionIn_uniformAll rest]

end

/-! ### Nodes -/

namespace Node

/-- The node with every absent value in it written as `nil`. -/
def uniform (n : Node) : Node :=
  ⟨n.tag, uniformAll n.children⟩

@[simp] theorem uniform_mk (tag : String) (children : List Raw) :
    uniform ⟨tag, children⟩ = ⟨tag, uniformAll children⟩ := rfl

@[simp] theorem uniform_tag (n : Node) : n.uniform.tag = n.tag := rfl

@[simp] theorem uniform_children (n : Node) : n.uniform.children = uniformAll n.children := rfl

@[simp] theorem is_uniform (n : Node) (tag : String) : n.uniform.is tag = n.is tag := rfl

@[simp] theorem isList_uniform (n : Node) : n.uniform.isList = n.isList := rfl

@[simp] theorem isToken_uniform (n : Node) : n.uniform.isToken = n.isToken := rfl

@[simp] theorem isStatements_uniform (n : Node) : n.uniform.isStatements = n.isStatements := rfl

@[simp] theorem isRange_uniform (n : Node) : n.uniform.isRange = n.isRange := rfl

@[simp] theorem toRaw_uniform (n : Node) : n.uniform.toRaw = n.toRaw.uniform := rfl

@[simp] theorem size_uniform (n : Node) : n.uniform.size = n.size := by
  simp only [size, uniform_children, sizeAll_uniformAll]

@[simp] theorem firstLine_uniform (n : Node) : n.uniform.firstLine = n.firstLine := by
  simp only [firstLine, firstPosition, uniform_children, firstPositionIn_uniformAll]

@[simp]
theorem slot_uniform (n : Node) (i : Nat) : n.uniform.slot i = (n.slot i).uniform := by
  simp only [slot, uniform_children, uniformAll_eq_map, List.getD_eq_getElem?_getD,
    List.getElem?_map]
  cases n.children[i]? <;> rfl

end Node

@[simp]
theorem node?_uniform (r : Raw) : r.uniform.node? = r.node?.map Node.uniform := by
  cases r with
  | bool b => cases b <;> rfl
  | _ => rfl

namespace Node

@[simp]
theorem tokenText?_uniform (n : Node) : n.uniform.tokenText? = n.tokenText? := by
  simp only [tokenText?, isToken_uniform, slot_uniform]
  generalize n.slot 0 = child
  cases n.isToken with
  | false => rfl
  | true =>
    cases child with
    | bool b => cases b <;> rfl
    | _ => rfl

@[simp]
theorem child?_uniform (n : Node) (i : Nat) : n.uniform.child? i = (n.child? i).map uniform := by
  simp only [child?, slot_uniform, node?_uniform]

theorem all_isAbsent_uniform (children : List Raw) :
    (children.map Raw.uniform).all isAbsent = children.all isAbsent := by
  simp only [List.all_map, Function.comp_def, isAbsent_uniform]

theorem filterMap_node?_uniform (children : List Raw) :
    (uniformAll children).filterMap node? = (children.filterMap node?).map uniform := by
  rw [uniformAll_eq_map, List.filterMap_map, List.map_filterMap]
  exact congrArg (children.filterMap ·) (funext node?_uniform)

@[simp]
theorem statements_uniform (n : Node) : n.uniform.statements = n.statements.map uniform := by
  simp only [statements, isStatements_uniform, uniform_children, filterMap_node?_uniform]
  split
  · rw [List.filter_map]
    rfl
  · rfl

@[simp]
theorem wrappedBody?_uniform (n : Node) :
    n.uniform.wrappedBody? = n.wrappedBody?.map uniform := by
  simp only [wrappedBody?, is_uniform, child?_uniform]
  split
  · rfl
  · split
    · cases n.child? 0 with
      | none => rfl
      | some body =>
        simp only [Option.map_some, is_uniform, uniform_children, uniformAll_eq_map,
          ← List.map_drop, all_isAbsent_uniform, child?_uniform]
        split <;> rfl
    · rfl

@[simp]
theorem wrapped?_uniform (n : Node) : n.uniform.wrapped? = n.wrapped?.map uniform := by
  simp only [wrapped?, wrappedBody?_uniform, Option.map_map, Function.comp_def, statements_uniform]
  cases n.wrappedBody? with
  | none => rfl
  | some body =>
    simp only [Option.map_some]
    obtain _ | ⟨single, _ | ⟨_, _⟩⟩ := body.statements
    · rfl
    · rfl
    · rfl

theorem unwrap?_eq (n : Node) : n.unwrap? = n.wrapped?.map fun m => m.unwrap?.getD m := by
  rw [unwrap?.eq_def]
  split
  · rename_i none
    rw [none, Option.map_none]
  · rename_i m some
    rw [some, Option.map_some]

@[simp]
theorem unwrap?_uniform (n : Node) : n.uniform.unwrap? = n.unwrap?.map uniform := by
  fun_induction unwrap? n with
  | case1 n none =>
    rw [unwrap?_eq, wrapped?_uniform, none]
    rfl
  | case2 n m inside ih =>
    rw [unwrap?_eq, wrapped?_uniform, inside]
    simp only [Option.map_some, ih]
    cases m.unwrap? <;> rfl

end Node

end Raw

/-! ### What rules read before they normalise -/

namespace Rules

open Raw

@[simp]
theorem isSafeNavigation_uniform (r : Raw) : isSafeNavigation r.uniform = isSafeNavigation r := by
  cases r with
  | node tag children =>
    exact congrArg (· == some "&.") (Node.tokenText?_uniform ⟨tag, children⟩)
  | bool b => cases b <;> rfl
  | _ => rfl

@[simp]
theorem insideParens_uniform (r : Raw) : insideParens r.uniform = (insideParens r).uniform := by
  fun_induction insideParens r with
  | case1 tag children isParen ih =>
    rw [uniform, insideParens, if_pos isParen, ← Node.uniform_mk, Node.slot_uniform, ih]
  | case2 tag children notParen => rw [uniform, insideParens, if_neg notParen]
  | case3 other notNode =>
    cases other with
    | node tag children => exact absurd rfl (notNode tag children)
    | bool b => cases b <;> simp only [uniform, insideParens]
    | _ => simp only [uniform, insideParens]

@[simp]
theorem insideParentheses_uniform (r : Raw) :
    insideParentheses r.uniform = (insideParentheses r).uniform := by
  fun_induction insideParentheses r with
  | case1 tag children isParen ih =>
    rw [uniform, insideParentheses, if_pos isParen, ← Node.uniform_mk, Node.slot_uniform, ih]
  | case2 tag children notParen => rw [uniform, insideParentheses, if_neg notParen]
  | case3 other notNode =>
    cases other with
    | node tag children => exact absurd rfl (notNode tag children)
    | bool b => cases b <;> simp only [uniform, insideParentheses]
    | _ => simp only [uniform, insideParentheses]

@[simp]
theorem insideElse_uniform (r : Raw) : insideElse r.uniform = (insideElse r).uniform := by
  cases r with
  | node tag children =>
    simp only [uniform, insideElse, ← Node.uniform_mk, Node.slot_uniform]
    split <;> rfl
  | bool b => cases b <;> rfl
  | _ => rfl

@[simp]
theorem yieldArguments_uniform (r : Raw) :
    yieldArguments r.uniform = (yieldArguments r).uniform := by
  cases r with
  | node tag children =>
    simp only [uniform, yieldArguments, ← Node.uniform_mk, Node.slot_uniform]
    split <;> rfl
  | bool b => cases b <;> rfl
  | _ => rfl

@[simp]
theorem insideEnsure_uniform (n : Node) : insideEnsure n.uniform = (insideEnsure n).uniform := by
  simp only [insideEnsure, Node.is_uniform, Node.slot_uniform, Node.toRaw_uniform]
  split <;> rfl

@[simp]
theorem conditionNode_uniform (n : Node) : conditionNode n.uniform = (conditionNode n).uniform := by
  simp only [conditionNode, Node.unwrap?_uniform]
  cases n.unwrap? with
  | none => rfl
  | some m => exact (apply_ite Node.uniform (m.isRange = true) m n).symm

theorem rescueChain_eq (n : Node) :
    rescueChain n = n :: ((n.slot 3).node?.map rescueChain).getD [] := by
  rw [rescueChain.eq_def]
  split
  · rename_i next found
    rw [found, Option.map_some, Option.getD_some]
  · rename_i none
    rw [none, Option.map_none, Option.getD_none]

@[simp]
theorem rescueChain_uniform (n : Node) :
    rescueChain n.uniform = (rescueChain n).map Node.uniform := by
  fun_induction rescueChain n with
  | case1 n ih =>
    rw [rescueChain_eq, Node.slot_uniform, node?_uniform]
    cases found : (n.slot 3).node? with
    | none => rfl
    | some next => simp [ih next found]

@[simp]
theorem whenChain_uniform (n : Node) :
    whenChain n.uniform =
      ((whenChain n).1.map Node.uniform, (whenChain n).2.map Node.uniform) := by
  fun_induction whenChain n with
  | case1 n isWhen next found clauses last rest ih =>
    rw [rest] at ih
    rw [whenChain.eq_def, Node.is_uniform, if_pos isWhen]
    split
    · rename_i next' found'
      rw [Node.slot_uniform, node?_uniform, found] at found'
      cases found'
      rw [ih]
      rfl
    · rename_i none
      rw [Node.slot_uniform, node?_uniform, found] at none
      cases none
  | case2 n isWhen none =>
    rw [whenChain.eq_def, Node.is_uniform, if_pos isWhen]
    split
    · rename_i next found
      rw [Node.slot_uniform, node?_uniform, none] at found
      cases found
    · rfl
  | case3 n notWhen =>
    rw [whenChain.eq_def, Node.is_uniform, if_neg notWhen]
    rfl

@[simp]
theorem isTrailingComma_uniform (r : Raw) : isTrailingComma r.uniform = isTrailingComma r := by
  cases r with
  | bool b => cases b <;> rfl
  | _ => rfl

@[simp]
theorem openerOf_uniform (r : Raw) : openerOf r.uniform = openerOf r := by
  cases r with
  | bool b => cases b <;> rfl
  | _ => rfl

@[simp]
theorem regexpFlags_uniform (r : Raw) : regexpFlags r.uniform = regexpFlags r := by
  cases r with
  | node tag children =>
    exact congrArg (Regexp.Flags.ofClosing <| Option.getD · "/")
      (Node.tokenText?_uniform ⟨tag, children⟩)
  | bool b => cases b <;> rfl
  | _ => rfl

@[simp]
theorem wordParts_uniform (r : Raw) : wordParts r.uniform = (wordParts r).map Raw.uniform := by
  cases r with
  | node tag children =>
    simp only [uniform, wordParts, uniformAll_eq_map]
    split
    · rfl
    · rw [List.map_singleton, uniform, uniformAll_eq_map]
  | bool b => cases b <;> rfl
  | _ => rfl

end Rules

@[simp]
theorem Context.lineOf_uniform (ctx : Context) (n : Raw.Node) :
    ctx.lineOf n.uniform = ctx.lineOf n := by
  simp only [Context.lineOf, Raw.Node.firstLine_uniform]

end RubyNormalForm
