import RubyNormalForm.Proofs.Program.Enclosure
import RubyNormalForm.Proofs.Rules.Composition.Program

/-!
# Assignments to class variables

An assignment to a class variable is a declaration unless the innermost body of a definition
around it is that of a method. The normaliser keeps track of this by a flag that each body of a
definition sets for itself; nothing that stands before, after or inside an assignment changes it.

The scope of a site says the same of a raw tree alone. A node that has the tag of a definition
but is not read as an expression, such as a block or a rescue clause, defines nothing and leaves
the scope as it is.
-/

namespace RubyNormalForm

open Raw Rules

/-- The tags of assignments to class variables. -/
def classVariableTags : List String :=
  ["cvasgn", "cvdecl"]

/-! ### Where the assignments of a program come from -/

/-- The node stands at a site in the tree with the given scope and role. -/
def Stands (r : Raw) (p : Site) (n : Node) : Prop :=
  ∃ comment, ({ p with comment }, n) ∈ r.sites {}

theorem closed_stands (r : Raw) : Closed (Stands r) := by
  rintro p n ⟨comment, known⟩ i m found
  exact ⟨_, closed_sites {} r known found⟩

/-- An assignment to a class variable comes from a token that is assigned to in the tree, and is
the one for the scope of the token. -/
def Form.Scoped (r : Raw) (ctx : Context) (g : Form) : Prop :=
  g.tag ∈ classVariableTags → ∃ b n t, Stands r (.target b) n ∧ token n = .ok t ∧
    t.kind = "cvar" ∧ g.Assigns (ctx.within b) t

theorem mem_placedTags {tag : String} (isAssignment : tag ∈ classVariableTags) :
    tag ∈ placedTags := by
  simp only [classVariableTags, List.mem_cons, List.not_mem_nil, or_false] at isAssignment
  obtain rfl | rfl := isAssignment <;> decide

theorem law_scoped (r : Raw) (ctx : Context) : Law (Stands r) ctx (Form.Scoped r ctx) where
  closed := closed_stands r
  lineFree := by
    intro f g filled h isAssignment
    rw [filled.tag] at isAssignment
    obtain ⟨b, n, t, stands, isToken, isVariable, assigns⟩ := h isAssignment
    exact ⟨b, n, t, stands, isToken, isVariable, lineFree_assigns _ t filled assigns⟩
  fresh := by
    intro f _ unplaced _ isAssignment
    exact absurd (mem_placedTags isAssignment) unplaced
  rebuilt := by
    intro f g _ unplaced sameTag _ _ _ isAssignment
    rw [sameTag] at isAssignment
    exact absurd (mem_placedTags isAssignment) unplaced
  assigned := by
    intro b n t stands isToken isVariable values _
    exact ⟨b, n, t, stands, isToken, isVariable, rfl, rfl, rfl⟩
  defined := by
    intro p n f _ _ _ _ isDefinition _ _ isAssignment
    have distinct : ∀ tag ∈ definitionTags, tag ∉ classVariableTags := by decide
    exact absurd isAssignment (distinct _ isDefinition)
  commented := by
    rintro ⟨b, role, own⟩ n ⟨comment, known⟩ rfl _ _
    refine ⟨⟨comment, known⟩, fun {f} h isAssignment => ?_⟩
    obtain ⟨b, m, t, stands, isToken, isVariable, assigns⟩ := h isAssignment
    exact ⟨b, m, t, stands, isToken, isVariable, assigns.tag, assigns.name, assigns.line⟩
  extended := by
    intro b n m f _ _ _ _ h args isAssignment
    obtain ⟨b, n, t, stands, isToken, isVariable, assigns⟩ := h isAssignment
    refine ⟨b, n, t, stands, isToken, isVariable, assigns.tag, ?_, assigns.line⟩
    show (f.items ++ _).head? = _
    rw [List.head?_append, assigns.name]
    rfl

/-- An assignment of a number to a class variable. -/
def variableAssignment (name : String) (line : Nat) : Node :=
  ⟨"assign", [.node "var_field" [.node "@cvar" [.str name, .pos line 4]],
    .node "@int" [.str "1", .pos line 10]]⟩

/-- A method that assigns to a class variable. -/
def assigningMethod : Node :=
  ⟨"def", [.node "@ident" [.str "f", .pos 2 6], .nil,
    .node Raw.listTag [(variableAssignment "@@x" 3).toRaw]]⟩

/-- A class that assigns to a class variable after a method that does so. -/
def classWithMethod : Raw :=
  .node "class" [.node "const_ref" [.node "@const" [.str "A", .pos 1 6]], .nil,
    .node Raw.listTag [assigningMethod.toRaw, (variableAssignment "@@y" 5).toRaw]]

end RubyNormalForm
