import RubyNormalForm.Proofs.Rules.Locality

/-!
# What holds of all parts of a raw tree

A hereditary property passes from a node to its children. The rules reach the parts of a
node in many ways: by index, along chains of clauses, through parentheses. None of them
leaves the tree, so each part that a rule looks at has every hereditary property of the node.

The lines that occur in a tree and the keywords that occur in it give such properties.
-/

namespace RubyNormalForm

namespace Raw

/-! ### Nodes and lines of a tree -/

mutual

/-- The nodes of a tree, outer nodes first. -/
def nodes : Raw → List Node
  | .node tag children => ⟨tag, children⟩ :: nodesIn children
  | _ => []

/-- The nodes of a sequence of trees. -/
def nodesIn : List Raw → List Node
  | [] => []
  | child :: rest => nodes child ++ nodesIn rest

end

mutual

/-- The lines of the positions in a tree, read from left to right. -/
def lines : Raw → List Nat
  | .node _ children => linesIn children
  | .pos line _ => [line]
  | _ => []

/-- The lines of the positions in a sequence of trees. -/
def linesIn : List Raw → List Nat
  | [] => []
  | child :: rest => lines child ++ linesIn rest

end

theorem nodesIn_eq_flatMap (children : List Raw) : nodesIn children = children.flatMap nodes := by
  induction children with
  | nil => rfl
  | cons child rest ih => rw [nodesIn, ih, List.flatMap_cons]

theorem linesIn_eq_flatMap (children : List Raw) : linesIn children = children.flatMap lines := by
  induction children with
  | nil => rfl
  | cons child rest ih => rw [linesIn, ih, List.flatMap_cons]

mutual

theorem firstPosition_map_fst (r : Raw) : r.firstPosition.map Prod.fst = r.lines.head? := by
  cases r with
  | node tag children =>
    simp only [firstPosition, lines]
    exact firstPositionIn_map_fst children
  | _ => rfl

theorem firstPositionIn_map_fst (children : List Raw) :
    (firstPositionIn children).map Prod.fst = (linesIn children).head? := by
  cases children with
  | nil => rfl
  | cons child rest =>
    have first := firstPosition_map_fst child
    have others := firstPositionIn_map_fst rest
    rw [firstPositionIn, linesIn, List.head?_append, ← first, ← others]
    cases child.firstPosition <;> rfl

end

/-- A node begins on the first of the lines in it. -/
theorem Node.firstLine_eq_head? (n : Node) : n.firstLine = n.toRaw.lines.head? := by
  simp only [Node.firstLine, Node.firstPosition, Node.toRaw, lines]
  exact firstPositionIn_map_fst n.children

/-- Whether a node is the token of a keyword. -/
def Node.isKeyword (n : Node) (word : String) : Bool :=
  n.is "@kw" && n.tokenText? == some word

/-- Whether a keyword occurs in a tree. -/
def mentions (r : Raw) (word : String) : Bool :=
  r.nodes.any (·.isKeyword word)

/-! ### Hereditary properties -/

/-- A property that passes from a node to its children, and that nothing at all has: a child
that is not there reads as `nil`. -/
structure Hereditary (p : Raw → Prop) : Prop where
  absent : p .nil
  child : ∀ {tag children}, p (.node tag children) → ∀ c ∈ children, p c

theorem hereditary_not_mentions (word : String) :
    Hereditary fun r => r.mentions word = false := by
  constructor
  · rfl
  · intro tag children none c member
    simp only [mentions, nodes, nodesIn_eq_flatMap, List.any_cons, List.any_flatMap,
      Bool.or_eq_false_iff, List.any_eq_false] at none ⊢
    simpa using none.2 c member

theorem hereditary_lines_subset (found : List Nat) :
    Hereditary fun r => r.lines ⊆ found := by
  constructor
  · exact List.nil_subset found
  · intro tag children inside c member line occurs
    refine inside ?_
    rw [lines, linesIn_eq_flatMap]
    exact List.mem_flatMap.2 ⟨c, member, occurs⟩

theorem node?_eq_some {r : Raw} {n : Node} (found : r.node? = some n) : r = n.toRaw := by
  cases r <;> simp only [Raw.node?, Option.some.injEq, reduceCtorEq] at found
  subst found
  rfl

theorem hereditary_true : Hereditary fun _ => True :=
  ⟨trivial, fun _ _ _ => trivial⟩

namespace Hereditary

mutual

theorem firstPosition {p : Raw → Prop} (h : Hereditary p) {r : Raw} {line column : Nat} (hr : p r)
    (found : r.firstPosition = some (line, column)) : p (.pos line column) := by
  cases r with
  | node tag children => exact h.firstPositionIn (h.child hr) found
  | pos l c =>
    cases found
    exact hr
  | _ => cases found

theorem firstPositionIn {p : Raw → Prop} (h : Hereditary p) {children : List Raw}
    {line column : Nat} (each : ∀ c ∈ children, p c)
    (found : Raw.firstPositionIn children = some (line, column)) : p (.pos line column) := by
  cases children with
  | nil => cases found
  | cons child rest =>
    rw [Raw.firstPositionIn] at found
    cases first : child.firstPosition with
    | some position =>
      rw [first] at found
      cases found
      exact h.firstPosition (each child (by simp)) first
    | none =>
      rw [first] at found
      exact h.firstPositionIn (fun c member => each c (by simp [member])) found

end

variable {p : Raw → Prop} (h : Hereditary p) {n m : Node}
include h

/-! ### Children and what wraps them -/

theorem slot (hn : p n.toRaw) (i : Nat) : p (n.slot i) := by
  rw [Node.slot]
  rw [List.getD_eq_getElem?_getD]
  cases found : n.children[i]? with
  | none => exact h.absent
  | some c => exact h.child hn c (List.mem_of_getElem? found)

theorem child? {i : Nat} (hn : p n.toRaw) (found : n.child? i = some m) : p m.toRaw :=
  node?_eq_some found ▸ h.slot hn i

theorem nodeAt {i : Nat} (hn : p n.toRaw) (found : n.nodeAt i = .ok m) : p m.toRaw := by
  have slot := h.slot hn i
  rw [Node.nodeAt] at found
  split at found
  · rename_i tag children eq
    cases found
    rw [eq] at slot
    exact slot
  · cases found

theorem nodeAt? {i : Nat} (hn : p n.toRaw) (found : n.nodeAt? i = .ok (some m)) : p m.toRaw := by
  have slot := h.slot hn i
  rw [Node.nodeAt?] at found
  split at found
  · rename_i tag children eq
    cases found
    rw [eq] at slot
    exact slot
  · split at found <;> cases found

omit h in
theorem presentNodes {children : List Raw} {nodes : List Node} (each : ∀ c ∈ children, p c)
    (found : n.presentNodes children = .ok nodes) : ∀ m ∈ nodes, p m.toRaw := by
  induction children generalizing nodes with
  | nil =>
    cases found
    intro m member
    cases member
  | cons child rest ih =>
    have rests : ∀ c ∈ rest, p c := fun c member => each c (by simp [member])
    simp only [Node.presentNodes] at found
    split at found
    · exact ih rests found
    · cases child with
      | node tag children =>
        cases others : n.presentNodes rest with
        | error e =>
          rw [others] at found
          cases found
        | ok more =>
          rw [others] at found
          cases found
          intro m member
          obtain rfl | member := List.mem_cons.1 member
          · exact each (.node tag children) (by simp)
          · exact ih rests others m member
      | _ => cases found

theorem nodesFrom {i : Nat} {nodes : List Node} (hn : p n.toRaw)
    (found : n.nodesFrom i = .ok nodes) : ∀ m ∈ nodes, p m.toRaw :=
  presentNodes (fun c member => h.child hn c (List.mem_of_mem_drop member)) found

theorem listNodes {r : Raw} {nodes : List Node} (hr : p r) (found : Rules.listNodes r = .ok nodes) :
    ∀ m ∈ nodes, p m.toRaw := by
  cases r with
  | node tag children =>
    simp only [Rules.listNodes] at found
    split at found
    · exact h.nodesFrom (n := ⟨tag, children⟩) hr found
    · cases found
  | _ =>
    simp only [Rules.listNodes] at found
    split at found <;> cases found
    simp

theorem insideParens {r : Raw} (hr : p r) : p (Rules.insideParens r) := by
  fun_induction Rules.insideParens r with
  | case1 tag children isParen ih => exact ih (h.slot (n := ⟨tag, children⟩) hr 0)
  | case2 tag children notParen => exact hr
  | case3 other notNode => exact hr

theorem insideParentheses {r : Raw} (hr : p r) : p (Rules.insideParentheses r) := by
  fun_induction Rules.insideParentheses r with
  | case1 tag children isParen ih => exact ih (h.slot (n := ⟨tag, children⟩) hr 0)
  | case2 tag children notParen => exact hr
  | case3 other notNode => exact hr

theorem insideElse {r : Raw} (hr : p r) : p (Rules.insideElse r) := by
  rw [Rules.insideElse.eq_def]
  split
  · split
    · exact h.slot (n := ⟨_, _⟩) hr 0
    · exact hr
  · exact hr

theorem insideEnsure (hn : p n.toRaw) : p (Rules.insideEnsure n) := by
  rw [Rules.insideEnsure]
  split
  · exact h.slot hn 0
  · exact hn

theorem yieldArguments {r : Raw} (hr : p r) : p (Rules.yieldArguments r) := by
  rw [Rules.yieldArguments.eq_def]
  split
  · split
    · exact h.slot (n := ⟨_, _⟩) hr 0
    · exact hr
  · exact hr

theorem contentParts {r : Raw} {parts : List Raw} (hr : p r)
    (found : Rules.contentParts r = .ok parts) : ∀ part ∈ parts, p part := by
  rw [Rules.contentParts.eq_def] at found
  split at found
  · split at found
    · cases found
      exact h.child hr
    · cases found
      intro part member
      obtain rfl := List.mem_singleton.1 member
      exact hr
  · split at found
    · cases found
      intro part member
      cases member
    · cases found

theorem wordParts {r : Raw} (hr : p r) : ∀ part ∈ Rules.wordParts r, p part := by
  rw [Rules.wordParts.eq_def]
  split
  · split
    · exact h.child hr
    · simpa using hr
  · simpa using hr

/-! ### Chains of clauses -/

theorem rescueChain (hn : p n.toRaw) (member : m ∈ Rules.rescueChain n) : p m.toRaw := by
  fun_induction Rules.rescueChain n with
  | case1 n ih =>
    obtain rfl | member := List.mem_cons.1 member
    · exact hn
    · split at member
      · rename_i next found
        exact ih next found (node?_eq_some found ▸ h.slot hn 3) member
      · cases member

theorem whenChain (hn : p n.toRaw) :
    (∀ m ∈ (Rules.whenChain n).1, p m.toRaw) ∧ ∀ m ∈ (Rules.whenChain n).2, p m.toRaw := by
  fun_induction Rules.whenChain n with
  | case1 n isWhen next found clauses last rest ih =>
    obtain ⟨each, final⟩ := ih (node?_eq_some found ▸ h.slot hn 2)
    rw [rest] at each final
    refine ⟨?_, final⟩
    intro m member
    obtain rfl | member := List.mem_cons.1 member
    · exact hn
    · exact each m member
  | case2 n isWhen none => simpa using hn
  | case3 n notWhen => simpa using hn

/-! ### What a condition is read from -/

theorem statements (hn : p n.toRaw) (member : m ∈ n.statements) : p m.toRaw := by
  rw [Node.statements] at member
  split at member
  · obtain ⟨c, isChild, found⟩ := List.mem_filterMap.1 (List.mem_filter.1 member).1
    exact node?_eq_some found ▸ h.child hn c isChild
  · obtain rfl := List.mem_singleton.1 member
    exact hn

theorem wrappedBody? (hn : p n.toRaw) (found : n.wrappedBody? = some m) : p m.toRaw := by
  rw [Node.wrappedBody?] at found
  split at found
  · exact h.child? hn found
  · split at found
    · split at found
      · rename_i inside isBody
        split at found
        · exact h.child? (h.child? hn isBody) found
        · cases found
      · cases found
    · cases found

theorem wrapped? (hn : p n.toRaw) (found : n.wrapped? = some m) : p m.toRaw := by
  rw [Node.wrapped?] at found
  split at found
  · rename_i single isBody
    obtain ⟨body, inside, only⟩ := Option.map_eq_some_iff.1 isBody
    cases found
    exact h.statements (h.wrappedBody? hn inside) (by simp [only])
  · cases found

theorem unwrap? (hn : p n.toRaw) (found : n.unwrap? = some m) : p m.toRaw := by
  fun_induction Node.unwrap? n generalizing m with
  | case1 n none => cases found
  | case2 n next isWrapped ih =>
    have inside := h.wrapped? hn isWrapped
    obtain rfl := Option.some.inj found
    cases further : next.unwrap? with
    | none => exact inside
    | some last => exact ih inside further

theorem conditionNode (hn : p n.toRaw) : p (Rules.conditionNode n).toRaw := by
  rw [Rules.conditionNode]
  split
  · rename_i inside found
    split
    · exact h.unwrap? hn found
    · exact hn
  · exact hn

end Hereditary

end Raw

end RubyNormalForm
