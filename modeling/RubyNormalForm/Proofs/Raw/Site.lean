import RubyNormalForm.Proofs.Raw.Hereditary
import RubyNormalForm.Proofs.Rules.Outcome

/-!
# Sites in a raw tree

A node is read for what its site makes of it. Most nodes are expressions and are read by their
tags. The left side of an assignment is a target; the rescue clause of a body, the block of a
call and the pairs in a parameter list are opened for their children, whatever their tags are.

The site of a node also tells its scope and its comment. The scope is that of a method inside
the body of a method, and only there: the body of a class or a module ends it, and nothing else
about a definition (parameters, receiver, superclass) belongs to its body. The comment is the
text of the outermost of the comment nodes directly around the node.
-/

namespace RubyNormalForm.Raw

/-- What a node is read as. -/
inductive Role where
  /-- By its tag. -/
  | expression
  /-- As the left side of an assignment. -/
  | target
  /-- As a rescue clause. -/
  | rescue
  /-- For its children, whatever its tag. -/
  | part
  /-- As a list of nodes that are read for their children. -/
  | parts
deriving DecidableEq

/-- What the child at an index is read as. -/
def Role.below (role : Role) (tag : String) (i : Nat) : Role :=
  match role with
  | .expression =>
    match tag, i with
    | "assign", 0 => .target
    | "opassign", 0 => .target
    | "massign", 0 => .target
    | "for", 0 => .target
    | "bodystmt", 1 => .rescue
    | "method_add_block", 1 => .part
    | "params", 1 => .parts
    | "params", 4 => .parts
    | _, _ => .expression
  | .target =>
    match tag, i with
    | "var_field", 0 => .target
    | "star", 0 => .target
    | "rest_param", 0 => .target
    | "mlhs", _ => .target
    | "-", _ => .target
    | _, _ => .expression
  | .rescue =>
    match i with
    | 1 => .target
    | 3 => .rescue
    | _ => .expression
  | .part => .expression
  | .parts => .part

/-- Whether the child at an index is the body of a method (`true`), the body of a class or a
module (`false`), or neither. -/
def bodyScope? (tag : String) (i : Nat) : Option Bool :=
  match tag, i with
  | "def", 2 => some true
  | "defs", 4 => some true
  | "class", 2 => some false
  | "module", 1 => some false
  | "sclass", 1 => some false
  | _, _ => none

/-- The site of a node. -/
structure Site where
  /-- Whether the innermost body of a definition around the node is that of a method. -/
  inMethodBody : Bool := false
  role : Role := .expression
  /-- The text of the outermost comment node directly around the node. -/
  comment : Option String := none

/-- The site of an expression that has no comment. -/
def Site.expression (inMethodBody : Bool) : Site :=
  { inMethodBody }

/-- The site of a target. -/
def Site.target (inMethodBody : Bool) : Site :=
  { inMethodBody, role := .target }

/-- The site of a rescue clause. -/
def Site.rescue (inMethodBody : Bool) : Site :=
  { inMethodBody, role := .rescue }

/-- The site of the child at an index. -/
def Site.below (p : Site) (n : Node) (i : Nat) : Site where
  inMethodBody :=
    if p.role = .expression then (bodyScope? n.tag i).getD p.inMethodBody else p.inMethodBody
  role := p.role.below n.tag i
  comment :=
    if p.role = .expression ∧ n.tag = "comment" ∧ i = 1 then p.comment.or (n.stringAt 0).toOption
    else none

mutual

/-- The nodes of a tree with their sites, given the site of the root. -/
def sites (p : Site) : Raw → List (Site × Node)
  | .node tag children => (p, ⟨tag, children⟩) :: sitesIn p ⟨tag, children⟩ 0 children
  | _ => []

/-- The nodes below a node in its children from an index on, with their sites. -/
def sitesIn (p : Site) (n : Node) (i : Nat) : List Raw → List (Site × Node)
  | [] => []
  | child :: rest => sites (p.below n i) child ++ sitesIn p n (i + 1) rest

end

/-! ### Sites below a site -/

/-- Whoever knows a node in its site knows the children at theirs. -/
def Closed (known : Site → Node → Prop) : Prop :=
  ∀ ⦃p n⦄, known p n → ∀ ⦃i m⦄, (n.slot i).node? = some m → known (p.below n i) m

theorem mem_sitesIn {p : Site} {n : Node} {children : List Raw} {i j : Nat} {child : Raw}
    (found : children[j]? = some child) {x : Site × Node}
    (inside : x ∈ sites (p.below n (i + j)) child) : x ∈ sitesIn p n i children := by
  induction children generalizing i j with
  | nil => cases found
  | cons first rest ih =>
    rw [sitesIn, List.mem_append]
    cases j with
    | zero =>
      cases found
      exact .inl inside
    | succ j =>
      refine .inr (ih found ?_)
      rwa [Nat.add_right_comm, Nat.add_assoc]

mutual

theorem below_mem_sites {p q : Site} {n m : Node} {i : Nat} (r : Raw)
    (known : (q, n) ∈ r.sites p) (found : (n.slot i).node? = some m) :
    (q.below n i, m) ∈ r.sites p := by
  cases r with
  | node tag children =>
    rw [sites] at known ⊢
    obtain same | inside := List.mem_cons.1 known
    · cases same
      refine List.mem_cons_of_mem _ ?_
      have child := node?_eq_some found
      rw [Node.slot, List.getD_eq_getElem?_getD] at child
      cases at? : children[i]? with
      | none =>
        rw [at?] at child
        cases child
      | some c =>
        rw [at?] at child
        refine mem_sitesIn at? ?_
        rw [Nat.zero_add]
        rw [show c = m.toRaw from child, Node.toRaw, sites]
        exact List.mem_cons_self
    · exact List.mem_cons_of_mem _ (below_mem_sitesIn children inside found)
  | _ => cases known

theorem below_mem_sitesIn {p q : Site} {n m outer : Node} {i j : Nat} (children : List Raw)
    (known : (q, n) ∈ sitesIn p outer j children) (found : (n.slot i).node? = some m) :
    (q.below n i, m) ∈ sitesIn p outer j children := by
  cases children with
  | nil => cases known
  | cons child rest =>
    rw [sitesIn, List.mem_append] at known ⊢
    obtain here | there := known
    · exact .inl (below_mem_sites child here found)
    · exact .inr (below_mem_sitesIn rest there found)

end

/-- The sites of a tree are closed. -/
theorem closed_sites (p : Site) (r : Raw) : Closed fun q n => (q, n) ∈ r.sites p :=
  fun _ _ known _ _ found => below_mem_sites r known found

mutual

/-- A node that has a site in a tree occurs in it. -/
theorem mem_nodes_of_mem_sites {p q : Site} {n : Node} (r : Raw) (known : (q, n) ∈ r.sites p) :
    n ∈ r.nodes := by
  cases r with
  | node tag children =>
    obtain same | inside := List.mem_cons.1 known
    · cases same
      exact List.mem_cons_self
    · exact List.mem_cons_of_mem _ (mem_nodesIn_of_mem_sitesIn children inside)
  | _ => cases known

theorem mem_nodesIn_of_mem_sitesIn {p q : Site} {n outer : Node} {i : Nat} (children : List Raw)
    (known : (q, n) ∈ sitesIn p outer i children) : n ∈ nodesIn children := by
  cases children with
  | nil => cases known
  | cons child rest =>
    rw [sitesIn, List.mem_append] at known
    rw [nodesIn, List.mem_append]
    obtain here | there := known
    · exact .inl (mem_nodes_of_mem_sites child here)
    · exact .inr (mem_nodesIn_of_mem_sitesIn rest there)

end

/-! ### Expressions below expressions -/

/-- The tags of expressions that have children other than expressions in the same scope. -/
def shiftingTags : List String :=
  ["comment", "def", "defs", "class", "module", "sclass", "assign", "opassign", "massign", "for",
    "bodystmt", "method_add_block", "params"]

section Reading

variable (known : Site → Node → Prop) (b : Bool)

/-- A node there is an expression in the given scope. -/
def Reads (r : Raw) : Prop :=
  ∀ n, r.node? = some n → known (.expression b) n

/-- The children of the node are expressions in the given scope. -/
def Opens (n : Node) : Prop :=
  ∀ i, Reads known b (n.slot i)

end Reading

variable {known : Site → Node → Prop} {b : Bool} {n m : Node} {r : Raw}

theorem reads_node {tag : String} {children : List Raw} :
    Reads known b (.node tag children) ↔ known (.expression b) ⟨tag, children⟩ := by
  constructor
  · intro h
    exact h _ rfl
  · rintro h m ⟨⟩
    exact h

theorem reads_toRaw : Reads known b n.toRaw ↔ known (.expression b) n :=
  reads_node

theorem ensures_nodeAt {post : Node → Prop} {i : Nat}
    (h : ∀ m, (n.slot i).node? = some m → post m) : Ensures (n.nodeAt i) post := by
  rw [Node.nodeAt]
  split
  · rename_i tag children eq
    rw [ensures_ok]
    exact h _ (by rw [eq]; rfl)
  · exact ensures_error _

theorem ensures_nodeAt? {post : Node → Prop} {i : Nat}
    (h : ∀ m, (n.slot i).node? = some m → post m) :
    Ensures (n.nodeAt? i) (fun o => ∀ m ∈ o, post m) := by
  rw [Node.nodeAt?]
  split
  · rename_i tag children eq
    rw [ensures_ok]
    rintro m ⟨⟩
    exact h _ (by rw [eq]; rfl)
  · split <;> simp

theorem Node.nodeAt_of_child? {i : Nat} (isChild : n.child? i = some m) : n.nodeAt i = .ok m := by
  rw [Node.nodeAt, show n.slot i = m.toRaw from node?_eq_some isChild]
  rfl

theorem Node.nodeAt?_of_child? {i : Nat} (isChild : n.child? i = some m) :
    n.nodeAt? i = .ok (some m) := by
  rw [Node.nodeAt?, show n.slot i = m.toRaw from node?_eq_some isChild]
  rfl

/-- A child at an index is the child in some slot. -/
theorem Node.exists_slot_of_mem {c : Raw} (member : c ∈ n.children) : ∃ i, n.slot i = c := by
  obtain ⟨i, inRange, rfl⟩ := List.mem_iff_getElem.1 member
  exact ⟨i, by simp [Node.slot, inRange]⟩

theorem Opens.children (opens : Opens known b n) : ∀ c ∈ n.children, Reads known b c := by
  intro c member
  obtain ⟨i, rfl⟩ := Node.exists_slot_of_mem member
  exact opens i

theorem ensures_presentNodes {post : Node → Prop} {children : List Raw}
    (h : ∀ c ∈ children, ∀ m, c.node? = some m → post m) :
    Ensures (n.presentNodes children) (fun nodes => ∀ m ∈ nodes, post m) := by
  intro nodes found
  have each := Hereditary.presentNodes (p := fun r => ∀ m, r.node? = some m → post m) h found
  intro m member
  exact each m member m rfl

theorem ensures_listNodes {post : Node → Prop}
    (h : ∀ children, r = .node listTag children → ∀ c ∈ children, ∀ m, c.node? = some m → post m) :
    Ensures (Rules.listNodes r) (fun nodes => ∀ m ∈ nodes, post m) := by
  cases r with
  | node tag children =>
    rw [Rules.listNodes]
    split
    · rename_i isList
      have isList : tag = listTag := by simpa using isList
      subst isList
      exact ensures_presentNodes (h children rfl)
    · exact ensures_error _
  | _ =>
    simp only [Rules.listNodes]
    split <;> simp

/-- An expression with an ordinary tag has expressions below it. -/
theorem Site.below_of_not_mem {p : Site} (isExpression : p.role = .expression)
    (ordinary : n.tag ∉ shiftingTags) (i : Nat) : p.below n i = .expression p.inMethodBody := by
  have other : ∀ tag ∈ shiftingTags, n.tag ≠ tag := by
    rintro tag member rfl
    exact ordinary member
  simp only [shiftingTags, List.forall_mem_cons, List.not_mem_nil, false_implies, implies_true,
    and_true] at other
  simp only [Site.below, Site.expression, isExpression, if_true, Role.below, bodyScope?, other,
    false_and, and_false, if_false]
  congr 1
  · split <;> simp_all
  · split <;> simp_all

namespace Closed

variable (closed : Closed known)
include closed

theorem opens {p : Site} (isExpression : p.role = .expression) (h : known p n)
    (ordinary : n.tag ∉ shiftingTags) : Opens known p.inMethodBody n := by
  intro i m found
  rw [← Site.below_of_not_mem isExpression ordinary i]
  exact closed h found

theorem opens_node {tag : String} {children : List Raw} (h : Reads known b (.node tag children))
    (ordinary : tag ∉ shiftingTags) : Opens known b ⟨tag, children⟩ :=
  closed.opens rfl (reads_node.1 h) ordinary

theorem insideParens (h : Reads known b r) : Reads known b (Rules.insideParens r) := by
  fun_induction Rules.insideParens r with
  | case1 tag children isParen ih =>
    have isParen : tag = "arg_paren" := by simpa using isParen
    exact ih (closed.opens_node h (by rw [isParen]; decide) 0)
  | case2 tag children notParen => exact h
  | case3 other notNode => exact h

theorem insideParentheses (h : Reads known b r) : Reads known b (Rules.insideParentheses r) := by
  fun_induction Rules.insideParentheses r with
  | case1 tag children isParen ih =>
    have isParen : tag = "paren" := by simpa using isParen
    exact ih (closed.opens_node h (by rw [isParen]; decide) 0)
  | case2 tag children notParen => exact h
  | case3 other notNode => exact h

theorem insideElse (h : Reads known b r) : Reads known b (Rules.insideElse r) := by
  rw [Rules.insideElse.eq_def]
  split
  · split
    · rename_i isElse
      have isElse := eq_of_beq isElse
      exact closed.opens_node h (by rw [isElse]; decide) 0
    · exact h
  · exact h

theorem insideEnsure (h : known (.expression b) n) : Reads known b (Rules.insideEnsure n) := by
  rw [Rules.insideEnsure]
  split
  · rename_i isEnsure
    have isEnsure : n.tag = "ensure" := eq_of_beq isEnsure
    exact closed.opens rfl h (by rw [isEnsure]; decide) 0
  · exact reads_toRaw.2 h

theorem yieldArguments (h : Reads known b r) : Reads known b (Rules.yieldArguments r) := by
  rw [Rules.yieldArguments.eq_def]
  split
  · split
    · rename_i isParen
      have isParen := eq_of_beq isParen
      exact closed.opens_node h (by rw [isParen]; decide) 0
    · exact h
  · exact h

theorem contentParts (h : Reads known b r) :
    Ensures (Rules.contentParts r) (fun parts => ∀ part ∈ parts, Reads known b part) := by
  rw [Rules.contentParts.eq_def]
  split
  · split
    · rename_i isContent
      rw [ensures_ok]
      refine (closed.opens_node h ?_).children
      simp only [Bool.or_eq_true, beq_iff_eq] at isContent
      obtain isContent | isContent := isContent <;> rw [isContent] <;> decide
    · simpa using h
  · split <;> simp

theorem wordParts (h : Reads known b r) : ∀ part ∈ Rules.wordParts r, Reads known b part := by
  rw [Rules.wordParts.eq_def]
  split
  · split
    · rename_i isWord
      have isWord := eq_of_beq isWord
      exact (closed.opens_node h (by rw [isWord]; decide)).children
    · simpa using h
  · simpa using h

theorem whenChain (h : known (.expression b) n) :
    (∀ m ∈ (Rules.whenChain n).1, Opens known b m) ∧
      ∀ m ∈ (Rules.whenChain n).2, known (.expression b) m := by
  have opens {n : Node} (h : known (.expression b) n) (isWhen : n.is "when" = true) :
      Opens known b n := by
    have isWhen : n.tag = "when" := eq_of_beq isWhen
    exact closed.opens rfl h (by rw [isWhen]; decide)
  fun_induction Rules.whenChain n with
  | case1 n isWhen next found clauses last rest ih =>
    obtain ⟨each, final⟩ := ih (opens h isWhen 2 next found)
    rw [rest] at each final
    refine ⟨?_, final⟩
    intro m member
    obtain rfl | member := List.mem_cons.1 member
    · exact opens h isWhen
    · exact each m member
  | case2 n isWhen none => simpa using opens h isWhen
  | case3 n notWhen => simpa using h

/-- The statements of an expression are expressions. -/
theorem statements (h : known (.expression b) n) (member : m ∈ n.statements) :
    known (.expression b) m := by
  rw [Node.statements] at member
  split at member
  · rename_i isList
    obtain ⟨c, isChild, found⟩ := List.mem_filterMap.1 (List.mem_filter.1 member).1
    refine (closed.opens rfl h ?_).children c isChild m found
    simp only [Node.isStatements, Node.isList, Node.is, Bool.or_eq_true, beq_iff_eq] at isList
    obtain isList | isList := isList <;> rw [isList] <;> decide
  · obtain rfl := List.mem_singleton.1 member
    exact h

theorem wrappedBody? (h : known (.expression b) n) (found : n.wrappedBody? = some m) :
    known (.expression b) m := by
  rw [Node.wrappedBody?] at found
  split at found
  · rename_i isParen
    have isParen : n.tag = "paren" := eq_of_beq isParen
    exact closed.opens rfl h (by rw [isParen]; decide) 0 m found
  · split at found
    · rename_i isBegin
      have isBegin : n.tag = "begin" := eq_of_beq isBegin
      split at found
      · rename_i body isBody
        have inside := closed.opens rfl h (by rw [isBegin]; decide) 0 body isBody
        split at found
        · rename_i unguarded
          simp only [Node.is, Bool.and_eq_true, beq_iff_eq] at unguarded
          have below := closed inside found
          simpa [Site.below, Site.expression, Role.below, bodyScope?, unguarded.1] using below
        · cases found
      · cases found
    · cases found

theorem wrapped? (h : known (.expression b) n) (found : n.wrapped? = some m) :
    known (.expression b) m := by
  rw [Node.wrapped?] at found
  split at found
  · rename_i single isBody
    obtain ⟨body, inside, only⟩ := Option.map_eq_some_iff.1 isBody
    cases found
    exact closed.statements (closed.wrappedBody? h inside) (by simp [only])
  · cases found

theorem unwrap? (h : known (.expression b) n) (found : n.unwrap? = some m) :
    known (.expression b) m := by
  fun_induction Node.unwrap? n generalizing m with
  | case1 n none => cases found
  | case2 n next isWrapped ih =>
    have inside := closed.wrapped? h isWrapped
    obtain rfl := Option.some.inj found
    cases further : next.unwrap? with
    | none => exact inside
    | some last => exact ih inside further

theorem conditionNode (h : known (.expression b) n) :
    known (.expression b) (Rules.conditionNode n) := by
  rw [Rules.conditionNode]
  split
  · rename_i inside found
    split
    · exact closed.unwrap? h found
    · exact h
  · exact h

end Closed

end RubyNormalForm.Raw
