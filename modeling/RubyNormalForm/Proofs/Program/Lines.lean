import RubyNormalForm.Proofs.Program.Surroundings
import RubyNormalForm.Proofs.Tree.Lines

/-!
# The lines of a program

A rule may leave the nodes it makes up without a line. The two passes over a whole program
fill every gap as soon as there is one line to fill it with: raising carries a line from
anywhere in the tree to its root, and spreading carries it from the root to every node. A
statement with a position in it has a line, and no line comes from anywhere but a position.
-/

namespace RubyNormalForm

namespace Item

/-! ### Raising and spreading -/

/-- A line anywhere in an item rises to its top. -/
theorem isSome_line?_raiseLines (x : Item) {f : Form} (member : f ∈ x.nodes)
    (lined : f.line.isSome = true) : x.raiseLines.line?.isSome = true := by
  rw [line?_raiseLines]
  exact List.findSome?_isSome_iff.2 ⟨f, member, lined⟩

/-- If no line has risen to the top of an item, there is none in it: another pass would find
it. -/
theorem line_eq_none_of_mem_raiseLines (x : Item) (unlined : x.raiseLines.line? = none) {f : Form}
    (member : f ∈ x.raiseLines.nodes) : f.line = none := by
  rw [← raiseLines_raiseLines, line?_raiseLines] at unlined
  exact List.findSome?_eq_none_iff.1 unlined f member

mutual

/-- A line spread from above reaches every node. -/
theorem isSome_line_of_mem_spreadLines (x : Item) {line : Option Nat} (lined : line.isSome = true)
    {f : Form} (member : f ∈ (x.spreadLines line).nodes) : f.line.isSome = true := by
  cases x with
  | node tag items own comments =>
    have settled : (own.or line).isSome = true := by
      rw [Option.isSome_or, lined, Bool.or_true]
    obtain rfl | below := List.mem_cons.1 member
    · exact settled
    · exact isSome_line_of_mem_spreadLinesAll items settled below
  | _ => cases member

theorem isSome_line_of_mem_spreadLinesAll (xs : List Item) {line : Option Nat}
    (lined : line.isSome = true) {f : Form} (member : f ∈ nodesIn (spreadLinesAll line xs)) :
    f.line.isSome = true := by
  cases xs with
  | nil => cases member
  | cons x rest =>
    obtain here | below := List.mem_append.1 member
    · exact isSome_line_of_mem_spreadLines x lined here
    · exact isSome_line_of_mem_spreadLinesAll rest lined below

end

mutual

/-- Where there is no line, there is nothing to spread. -/
theorem spreadLines_none (x : Item) (unlined : ∀ f ∈ x.nodes, f.line = none) :
    x.spreadLines none = x := by
  cases x with
  | node tag items line comments =>
    have own : line = none := unlined ⟨tag, items, line, comments⟩ (by simp [nodes])
    have inside := spreadLinesAll_none items fun f below => unlined f (List.mem_cons_of_mem _ below)
    rw [spreadLines, own, Option.or_none, inside]
  | _ => rfl

theorem spreadLinesAll_none (xs : List Item) (unlined : ∀ f ∈ nodesIn xs, f.line = none) :
    spreadLinesAll none xs = xs := by
  cases xs with
  | nil => rfl
  | cons x rest =>
    rw [spreadLinesAll, spreadLines_none x fun f here => unlined f (List.mem_append_left _ here),
      spreadLinesAll_none rest fun f below => unlined f (List.mem_append_right _ below)]

end

end Item

namespace Form

/-- After both passes every node has a line, if there was one at all. -/
theorem isSome_line_of_mem_settleLines {f g : Form} (lined : f.raiseLines.line.isSome = true)
    (member : g ∈ f.settleLines.nodes) : g.line.isSome = true := by
  rw [nodes, settleLines, toItem_spreadLines] at member
  exact Item.isSome_line_of_mem_spreadLines _ lined member

theorem line_eq_none_of_mem_settleLines {f g : Form} (unlined : f.raiseLines.line = none)
    (member : g ∈ f.settleLines.nodes) : g.line = none := by
  rw [nodes, settleLines, toItem_spreadLines, unlined, toItem_raiseLines] at member
  have raised {h : Form} (inside : h ∈ f.toItem.raiseLines.nodes) : h.line = none :=
    Item.line_eq_none_of_mem_raiseLines _ (by rw [← toItem_raiseLines]; exact unlined) inside
  rw [Item.spreadLines_none _ fun h => raised] at member
  exact raised member

end Form

/-! ### Statements with a position in them -/

/-- The normal form of a node with a position in it has a line. -/
theorem isSome_line_normalizeNode {ctx : Context} {n : Raw.Node} {f : Form}
    (found : normalizeNode ctx n = .ok f) (positioned : n.toRaw.lines ≠ []) :
    f.line.isSome = true := by
  rw [normalizeNode_eq, normalizeStep] at found
  split at found
  · cases found
  · obtain ⟨g, -, rfl⟩ := map_eq_ok.1 found
    have begins : (ctx.lineOf n).isSome = true := by
      rw [Context.lineOf, Option.isSome_map, Raw.Node.firstLine_eq_head?, List.isSome_head?]
      simpa using positioned
    have lined : (g.withLine (ctx.lineOf n)).line.isSome = true := by
      rw [Form.withLine, Option.isSome_or, begins, Bool.or_true]
    simp only [settle, ← Option.not_isSome, lined, Bool.not_true, Bool.false_eq_true, if_false]

/-- Each statement of a list that is not empty is among the normal forms. -/
theorem exists_mem_of_listed {inner : Normalizer} {ctx : Context} {children : List Raw}
    {forms : List Form} (found : Rules.listed inner ctx children = .ok forms) {n : Raw.Node}
    (member : n.toRaw ∈ children) (present : n.tag ≠ "void_stmt") :
    ∃ f ∈ forms, inner ctx n = .ok f := by
  induction children generalizing forms with
  | nil => cases member
  | cons child rest ih =>
    cases child with
    | node tag inside =>
      simp only [Rules.listed] at found
      split at found
      · rename_i isVoid
        obtain same | below := List.mem_cons.1 member
        · cases same
          exact absurd (eq_of_beq isVoid) present
        · exact ih found below
      · obtain ⟨form, isForm, found⟩ := bind_eq_ok.1 found
        obtain ⟨others, isOthers, made⟩ := bind_eq_ok.1 found
        cases made
        obtain same | below := List.mem_cons.1 member
        · cases same
          exact ⟨form, List.mem_cons_self, isForm⟩
        · obtain ⟨f, among, isNormal⟩ := ih isOthers below
          exact ⟨f, List.mem_cons_of_mem _ among, isNormal⟩
    | _ =>
      simp only [Rules.listed] at found
      split at found
      · obtain same | below := List.mem_cons.1 member
        · cases same
        · exact ih found below
      · cases found

theorem statements_of_isStatements {inner : Normalizer} {ctx : Context} {list : Raw.Node}
    (isList : list.isStatements = true) :
    Rules.statements inner ctx list.toRaw = Rules.listed inner ctx list.children := by
  obtain ⟨tag, children⟩ := list
  simp only [Raw.Node.isStatements, Raw.Node.isList, Raw.Node.is, Bool.or_eq_true, beq_iff_eq]
    at isList
  obtain rfl | rfl := isList <;> rfl

/-- A statement of a body is one of its nodes. -/
theorem mem_nodes_of_wrap {forms : List Form} {f g : Form} (wrapped : Rules.wrap forms = some f)
    (member : g ∈ forms) : g ∈ f.nodes := by
  match forms, wrapped, member with
  | [only], rfl, member =>
    obtain rfl := List.mem_singleton.1 member
    exact g.mem_nodes_self
  | first :: second :: rest, rfl, member =>
    refine List.mem_cons_of_mem _ ?_
    rw [Item.nodesIn_eq_flatMap]
    exact List.mem_flatMap.2 ⟨g.toItem, List.mem_map_of_mem member, g.mem_nodes_self⟩

/-- The normal form of a program is a body with its lines settled. -/
theorem normalize_program_eq_ok {config : Config} {source : Source} {program : Raw.Node}
    (isProgram : program.is "program" = true) {f : Form}
    (succeeds : normalize config source program.toRaw = .ok (some f)) :
    ∃ inside, Rules.body normalizeNode (.ofSource source config) (program.slot 0) =
      .ok (some inside) ∧ f = inside.settleLines := by
  simp only [normalize, normalizeProgram, Raw.Node.toRaw, isProgram, if_true] at succeeds
  obtain ⟨body, isBody, made⟩ := bind_eq_ok.1 succeeds
  cases body with
  | none => cases made
  | some inside =>
    cases made
    exact ⟨inside, isBody, rfl⟩

/-! ### Where lines come from -/

/-- Every line is that of a position in the tree. -/
def Likeness.positioned (offset : Nat) (r : Raw) : Likeness where
  line a _ := ∃ l ∈ r.lines, a = offset + l
  encoding _ _ := True

theorem like_ofSource_positioned (config : Config) (source : Source) (r : Raw) :
    Context.Like (.positioned source.lineOffset r) (fun part => part.lines ⊆ r.lines)
      (.ofSource source config) (.ofSource source config) where
  filename := rfl
  inMethodBody := rfl
  position inside := ⟨_, inside List.mem_cons_self, Nat.add_comm _ _⟩
  literal _ _ := trivial
  lineWord _ _ _ := rfl
  encodingWord _ _ _ := rfl

theorem exists_position {config : Config} {source : Source} {r : Raw} {f : Form}
    (succeeds : normalize config source r = .ok (some f)) {g : Form} (member : g ∈ f.nodes)
    {line : Nat} (isLine : g.line = some line) : ∃ l ∈ r.lines, line = source.lineOffset + l := by
  have agree := agree_normalize (Raw.hereditary_lines_subset r.lines)
    (like_ofSource_positioned config source r) (List.Subset.refl _)
  rw [succeeds] at agree
  obtain ⟨same⟩ := agree.of_ok
  obtain ⟨other, alike⟩ := same.exists_like member
  obtain ⟨_, position⟩ := alike.exists_line isLine
  exact position

/-- The lines of a program whose child is a list of statements. Either all nodes of its normal
form have a line or none has; all have one if there is a position anywhere in a statement that
is not empty; and each line is that of a position in the program, counted from the first line
of the source. -/
theorem normalize_program_lines (config : Config) (source : Source) {program list : Raw.Node}
    (isProgram : program.is "program" = true) (isChild : program.slot 0 = list.toRaw)
    (isList : list.isStatements = true) {f : Form}
    (succeeds : normalize config source program.toRaw = .ok (some f)) :
    ((∀ g ∈ f.nodes, g.line.isSome = true) ∨ ∀ g ∈ f.nodes, g.line = none) ∧
    ((∃ n : Raw.Node, n.toRaw ∈ list.children ∧ n.tag ≠ "void_stmt" ∧ n.toRaw.lines ≠ []) →
      ∀ g ∈ f.nodes, g.line.isSome = true) ∧
    ∀ g ∈ f.nodes, ∀ line, g.line = some line →
      ∃ l ∈ program.toRaw.lines, line = source.lineOffset + l := by
  obtain ⟨inside, isBody, rfl⟩ := normalize_program_eq_ok isProgram succeeds
  refine ⟨?_, ?_, fun g member line isLine => exists_position succeeds member isLine⟩
  · cases top : inside.raiseLines.line with
    | none => exact .inr fun g member => Form.line_eq_none_of_mem_settleLines top member
    | some line =>
      refine .inl fun g member => Form.isSome_line_of_mem_settleLines ?_ member
      rw [top, Option.isSome_some]
  · rintro ⟨n, isStatement, present, positioned⟩ g member
    refine Form.isSome_line_of_mem_settleLines ?_ member
    obtain ⟨forms, isForms, wrapped⟩ := map_eq_ok.1 isBody
    rw [isChild] at isForms
    rw [statements_of_isStatements isList] at isForms
    obtain ⟨h, among, isNormal⟩ := exists_mem_of_listed isForms isStatement present
    have lined := isSome_line_normalizeNode isNormal positioned
    have rises := Item.isSome_line?_raiseLines inside.toItem (mem_nodes_of_wrap wrapped among) lined
    rwa [← Form.toItem_raiseLines] at rises

/-- A method without parameters and without a body, after an empty statement. -/
def emptyMethod : Raw.Node :=
  ⟨"program", [.node Raw.listTag [.node "void_stmt" [],
    .node "def" [.node "@ident" [.str "foo", .pos 5 4],
      .node "params" [.nil, .nil, .nil, .nil, .nil, .nil, .nil],
      .node "bodystmt" [.node Raw.listTag [.node "void_stmt" []], .nil, .nil, .nil]]]]⟩

/-- The name of the method has the only position. The parameters and the body take their lines
from it, in a file that begins at line ten. -/
theorem emptyMethod_lines :
    let source : Source := { filename := "a.rb", firstLine := 10 }
    ∃ f, normalize {} source emptyMethod.toRaw = .ok (some f) ∧
      f.nodes.map Form.line = [some 14, some 14, some 14] ∧
      (∀ g ∈ f.nodes, g.line.isSome = true) ∧
      ∀ g ∈ f.nodes, ∀ line, g.line = some line →
        ∃ l ∈ emptyMethod.toRaw.lines, line = source.lineOffset + l := by
  intro source
  let f : Form := ⟨"defn", [.sym "foo", .node "args" [] (some 14) none,
    .node "nil" [] (some 14) none], some 14, some ""⟩
  have succeeds : normalize {} source emptyMethod.toRaw = .ok (some f) := by cbv
  have isChild : emptyMethod.slot 0 = Raw.Node.toRaw ⟨Raw.listTag, _⟩ := rfl
  obtain ⟨-, all, positions⟩ := normalize_program_lines {} source rfl isChild rfl succeeds
  refine ⟨f, succeeds, rfl, all ⟨⟨"def", _⟩, List.mem_cons_of_mem _ List.mem_cons_self, ?_, ?_⟩,
    positions⟩
  · decide
  · decide

end RubyNormalForm
