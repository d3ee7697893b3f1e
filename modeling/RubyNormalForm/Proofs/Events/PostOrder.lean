import RubyNormalForm.Events.Replay
import RubyNormalForm.Proofs.Events.Conservation

/-!
# Replaying a tree rebuilds it

A grammar reports the parts of a construct before the construct itself, so the reports of a
whole tree are its nodes in post-order. This module writes down the steps of that order and
proves that replaying them gives the tree back: the steps of a tree put that tree on top of
whatever values are there, look at none of those, and leave the open definitions alone.

The steps are followed by triples. `Turns b before steps after b'` says that the steps replace
the topmost values `before` by the values `after`; the values below take no part, which is
what lets the triples of the children stand one on top of the other.
-/

namespace RubyNormalForm

/-! ### Reductions that give the node of their name -/

namespace Event

/-- The reductions that give the node of their name: those that report no error, build or
flatten no list and complete no definition. -/
def isOrdinary (event : String) : Bool :=
  !isError event && (newListTag? event).isNone && !inspects event &&
    !(["mlhs_paren", "hash", "bare_assoc_hash", "heredoc_dedent"].contains event) &&
    (DefinitionKind.ofEvent? event).isNone

theorem value_of_isOrdinary {event : String} (ordinary : isOrdinary event = true)
    (args : List Raw) : value event args = .ok (.node event args) := by
  simp only [isOrdinary, inspects, List.contains_cons, List.contains_nil, Bool.or_false,
    Bool.and_eq_true, Bool.not_eq_true', Bool.or_eq_false_iff, Option.isNone_iff_eq_none]
    at ordinary
  obtain ⟨⟨⟨⟨-, noList⟩, ⟨noAdd, noStar⟩, noBlock, noPost, noMrhs, noAssoc⟩,
    noParen, noHash, noBare, noDedent⟩, -⟩ := ordinary
  simp only [value, noList, noAdd, noStar, noBlock, noPost, noMrhs, noAssoc, noParen, noHash,
    noBare, noDedent, Bool.or_self, Bool.false_eq_true, if_false]

end Event

namespace Builder

theorem reduce_of_isOrdinary {event : String} (ordinary : Event.isOrdinary event = true)
    (b : Builder) (args : List Raw) :
    b.reduce event args =
      ({ b with comments := b.comments.leave event }, .ok (.node event args)) := by
  have value := Event.value_of_isOrdinary ordinary args
  simp only [Event.isOrdinary, Bool.and_eq_true, Bool.not_eq_true', Option.isNone_iff_eq_none]
    at ordinary
  simp only [reduce, ordinary.1.1.1.1, ordinary.2, value, Bool.false_eq_true, if_false]

/-- A new list of statements is empty. -/
theorem reduce_stmts_new (b : Builder) :
    b.reduce "stmts_new" [] = (b, .ok (.node Raw.listTag [])) :=
  rfl

/-- A statement is added at the end of its list. -/
theorem reduce_stmts_add (b : Builder) (items : List Raw) (item : Raw) :
    b.reduce "stmts_add" [.node Raw.listTag items, item] =
      (b, .ok (.node Raw.listTag (items ++ [item]))) :=
  rfl

end Builder

/-! ### The steps of a tree -/

/-- A token by itself, as a grammar reports it. -/
structure Leaf where
  kind : String
  text : String
  line : Nat
  column : Nat

namespace Leaf

/-- The token in a raw tree. -/
def toRaw (leaf : Leaf) : Raw :=
  (Raw.Node.token leaf.kind leaf.text leaf.line leaf.column).toRaw

/-- The token that a node is, if it holds a text and its position and nothing else. -/
def ofNode? (tag : String) (children : List Raw) : Option Leaf :=
  match tag.toList, children with
  | '@' :: kind, [.str text, .pos line column] => some ⟨String.ofList kind, text, line, column⟩
  | _, _ => none

/-- Whether reporting the token again gives the token: the texts inside literals are marked
with what opened the literal, and some keywords open a definition. -/
def isPlain (leaf : Leaf) : Bool :=
  leaf.kind != "tstring_content" &&
    !(leaf.kind == "kw" && ["class", "module", "def"].contains leaf.text)

theorem toRaw_of_ofNode? {tag : String} {children : List Raw} {leaf : Leaf}
    (found : ofNode? tag children = some leaf) : leaf.toRaw = .node tag children := by
  unfold ofNode? at found
  split at found
  · rename_i kind text line column isTag
    cases found
    have same : "@" ++ String.ofList kind = tag := by
      apply String.toList_injective
      simp [isTag]
    simp only [toRaw, Raw.Node.token, Raw.Node.toRaw, same]
  · cases found

end Leaf

namespace Raw

mutual

/-- The steps that report a tree from the inside out. A scalar is pushed, a token is scanned
and kept, a list is begun and gets its items one by one, and any other node is a reduction of
its children. -/
def postOrder : Raw → List Step
  | .node tag children =>
    match Leaf.ofNode? tag children with
    | some leaf => [.scan leaf.kind leaf.text leaf.line leaf.column true]
    | none =>
      if tag == listTag then .reduce "stmts_new" 0 :: postOrderItems children
      else postOrderAll children ++ [.reduce tag children.length]
  | r => [.push r]

/-- The steps of several trees, one after the other. -/
def postOrderAll : List Raw → List Step
  | [] => []
  | child :: rest => postOrder child ++ postOrderAll rest

/-- The steps of several trees, each of which is added to a list. -/
def postOrderItems : List Raw → List Step
  | [] => []
  | child :: rest => postOrder child ++ .reduce "stmts_add" 2 :: postOrderItems rest

end

mutual

/-- Whether a tree is what its own reports give: every token in it is plain, and every other
node is a list or has the name of an ordinary reduction. -/
def isRebuildable : Raw → Bool
  | .node tag children =>
    match Leaf.ofNode? tag children with
    | some leaf => leaf.isPlain
    | none => (tag == listTag || Event.isOrdinary tag) && areRebuildable children
  | _ => true

/-- Whether several trees are what their own reports give. -/
def areRebuildable : List Raw → Bool
  | [] => true
  | child :: rest => isRebuildable child && areRebuildable rest

end

end Raw

/-! ### What steps do to the topmost values -/

/-- The replay with more entries before those of its trace. -/
def Replay.after (replay : Replay) (entries : List TraceEntry) : Replay :=
  { replay with trace := entries ++ replay.trace }

/-- Replayed from the builder `b`, the steps succeed and replace the topmost values `before` by
`after`, both given from the bottom up. Whatever lies below and whatever follows, the replay
goes on with the builder `b'`, which has the same definitions open. -/
structure Turns (b : Builder) (before : List Raw) (steps : List Step) (after : List Raw)
    (b' : Builder) : Prop where
  frames : b'.comments.frames = b.comments.frames
  runs : ∃ entries : List TraceEntry, (∀ entry ∈ entries, ∃ r, entry.value = .ok r) ∧
    ∀ stack rest, Replay.run b (before.reverse ++ stack) (steps ++ rest) =
      (Replay.run b' (after.reverse ++ stack) rest).after entries

namespace Turns

variable {b b' b'' : Builder} {before middle after : List Raw} {steps steps' : List Step}

theorem refl (b : Builder) (values : List Raw) : Turns b values [] values b :=
  ⟨rfl, [], by simp, fun _ _ => rfl⟩

theorem trans (first : Turns b before steps middle b') (second : Turns b' middle steps' after b'') :
    Turns b before (steps ++ steps') after b'' := by
  obtain ⟨frames, entries, succeed, runs⟩ := first
  obtain ⟨frames', entries', succeed', runs'⟩ := second
  refine ⟨frames'.trans frames, entries ++ entries', ?_, ?_⟩
  · intro entry member
    obtain member | member := List.mem_append.1 member
    · exact succeed entry member
    · exact succeed' entry member
  · intro stack rest
    rw [List.append_assoc, runs, runs']
    simp only [Replay.after, List.append_assoc]

/-- Values below the topmost ones take no part. -/
theorem above (turns : Turns b before steps after b') (below : List Raw) :
    Turns b (below ++ before) steps (below ++ after) b' := by
  obtain ⟨frames, entries, succeed, runs⟩ := turns
  refine ⟨frames, entries, succeed, ?_⟩
  intro stack rest
  rw [List.reverse_append, List.reverse_append, List.append_assoc, List.append_assoc]
  exact runs (below.reverse ++ stack) rest

theorem push (b : Builder) (r : Raw) : Turns b [] [.push r] [r] b :=
  ⟨rfl, [], by simp, fun _ _ => rfl⟩

/-- A token that opens no definition is pushed. -/
theorem scan {kind text : String} (line column : Nat)
    (opensNone : (b.comments.scan kind text).frames = b.comments.frames) :
    Turns b [] [.scan kind text line column true] [(b.scan kind text line column).2]
      (b.scan kind text line column).1 := by
  refine ⟨opensNone, [⟨.ok _, _⟩], ?_, fun _ _ => rfl⟩
  intro entry member
  obtain rfl := List.mem_singleton.1 member
  exact ⟨_, rfl⟩

/-- A reduction takes as many of the topmost values as it asks for, in the order in which
they were pushed. -/
theorem reduce {event : String} {args : List Raw} {r : Raw}
    (reduces : b.reduce event args = (b', .ok r))
    (frames : b'.comments.frames = b.comments.frames) :
    Turns b args [.reduce event args.length] [r] b' := by
  refine ⟨frames, [⟨.ok r, b'.comments⟩], ?_, ?_⟩
  · intro entry member
    obtain rfl := List.mem_singleton.1 member
    exact ⟨r, rfl⟩
  · intro stack rest
    have enough : ¬ (args.reverse ++ stack).length < args.length := by simp
    have taken : (args.reverse ++ stack).take args.length = args.reverse := by
      rw [List.take_append_of_le_length (by simp), List.take_of_length_le (by simp)]
    have left : (args.reverse ++ stack).drop args.length = stack := by
      rw [List.drop_append_of_le_length (by simp), List.drop_of_length_le (by simp),
        List.nil_append]
    simp only [List.singleton_append, Replay.run, enough, if_false, taken, left,
      List.reverse_reverse, reduces]
    rfl

end Turns

/-! ### The steps of a tree push that tree -/

theorem CommentState.frames_scan_of_isPlain (s : CommentState) {leaf : Leaf}
    (plain : leaf.isPlain = true) : (s.scan leaf.kind leaf.text).frames = s.frames := by
  rw [scan]
  split
  · rfl
  · split
    · rename_i isKeyword
      have opensNone : DefinitionKind.ofKeyword? leaf.text = none := by
        simp only [Leaf.isPlain, isKeyword, Bool.true_and, List.contains_cons, List.contains_nil,
          Bool.or_false, Bool.and_eq_true, Bool.not_eq_true', Bool.or_eq_false_iff] at plain
        simp only [DefinitionKind.ofKeyword?, plain.2, Bool.false_eq_true, if_false]
      rw [keyword]
      split
      · rfl
      · rw [opensNone]
    · split
      · rfl
      · split <;> rfl

/-- A plain token is given back as it is. -/
theorem Builder.scan_of_isPlain (b : Builder) {leaf : Leaf} (plain : leaf.isPlain = true) :
    (b.scan leaf.kind leaf.text leaf.line leaf.column).2 = leaf.toRaw := by
  have unmarked : (leaf.kind == "tstring_content") = false := by
    simp only [Leaf.isPlain, Bool.and_eq_true, bne_iff_ne, ne_eq] at plain
    simpa using plain.1
  simp only [Builder.scan, openerMark, unmarked, Bool.false_eq_true, if_false, List.append_nil]
  rfl

namespace Raw

mutual

/-- By recursion on the tree: the triples of the children stand on top of each other, and the
reduction of the node takes just their values. -/
theorem exists_turns_postOrder (t : Raw) (rebuildable : t.isRebuildable = true) (b : Builder) :
    ∃ b', Turns b [] t.postOrder [t] b' := by
  cases t with
  | node tag children =>
    rw [isRebuildable] at rebuildable
    rw [postOrder]
    split at rebuildable
    · rename_i leaf found
      have token := b.scan_of_isPlain rebuildable
      have scanned := Turns.scan leaf.line leaf.column
        (b.comments.frames_scan_of_isPlain rebuildable)
      rw [token, Leaf.toRaw_of_ofNode? found] at scanned
      exact ⟨_, scanned⟩
    · rename_i found
      simp only [Bool.and_eq_true, Bool.or_eq_true, beq_iff_eq] at rebuildable
      obtain ⟨known, inside⟩ := rebuildable
      by_cases isList : tag = listTag
      · subst isList
        have begun := Turns.reduce b.reduce_stmts_new rfl
        obtain ⟨b', added⟩ := exists_turns_postOrderItems children inside [] b
        exact ⟨b', begun.trans added⟩
      · have ordinary := known.resolve_left isList
        obtain ⟨b', pushed⟩ := exists_turns_postOrderAll children inside b
        have reduced := Turns.reduce (b'.reduce_of_isOrdinary ordinary children)
          (b'.comments.leave_fields tag).1
        simp only [beq_iff_eq, isList, if_false]
        exact ⟨_, pushed.trans reduced⟩
  | _ => exact ⟨b, Turns.push b _⟩

theorem exists_turns_postOrderAll (children : List Raw)
    (rebuildable : areRebuildable children = true) (b : Builder) :
    ∃ b', Turns b [] (postOrderAll children) children b' := by
  cases children with
  | nil => exact ⟨b, Turns.refl b []⟩
  | cons child rest =>
    simp only [areRebuildable, Bool.and_eq_true] at rebuildable
    obtain ⟨b', first⟩ := exists_turns_postOrder child rebuildable.1 b
    obtain ⟨b'', others⟩ := exists_turns_postOrderAll rest rebuildable.2 b'
    exact ⟨b'', first.trans (others.above [child])⟩

/-- The items that a list has already stay in front of those that are added. -/
theorem exists_turns_postOrderItems (children : List Raw)
    (rebuildable : areRebuildable children = true) (items : List Raw) (b : Builder) :
    ∃ b', Turns b [.node listTag items] (postOrderItems children)
      [.node listTag (items ++ children)] b' := by
  cases children with
  | nil =>
    rw [List.append_nil]
    exact ⟨b, Turns.refl b _⟩
  | cons child rest =>
    simp only [areRebuildable, Bool.and_eq_true] at rebuildable
    obtain ⟨b', first⟩ := exists_turns_postOrder child rebuildable.1 b
    have added := Turns.reduce (b'.reduce_stmts_add items child) rfl
    obtain ⟨b'', others⟩ := exists_turns_postOrderItems rest rebuildable.2 (items ++ [child]) b'
    rw [List.append_assoc, List.singleton_append] at others
    exact ⟨b'', (first.above [.node listTag items]).trans (added.trans others)⟩

end

/-- Replaying the steps of a tree rebuilds it. From the beginning of a source file the replay
ends with the tree and with no definition open. In the middle of any other steps, whatever the
builder and the values on the stack are, the steps of the tree all succeed, push that tree and
nothing else, and leave the values below it and the open definitions as they were. -/
theorem replay_postOrder (t : Raw) (rebuildable : t.isRebuildable = true) :
    (∀ source : Source, (Replay.ofSteps source t.postOrder).outcome = .ok (some t) ∧
      (Replay.ofSteps source t.postOrder).builder.finish = .ok ()) ∧
    ∀ b : Builder, ∃ (b' : Builder) (entries : List TraceEntry),
      b'.comments.frames = b.comments.frames ∧
      (∀ entry ∈ entries, ∃ r, entry.value = .ok r) ∧
      ∀ stack rest, Replay.run b stack (t.postOrder ++ rest) =
        (Replay.run b' (t :: stack) rest).after entries := by
  constructor
  · intro source
    obtain ⟨b', frames, entries, -, runs⟩ := exists_turns_postOrder t rebuildable (.ofSource source)
    have whole : Replay.ofSteps source t.postOrder = (Replay.run b' [t] []).after entries := by
      simpa [Replay.ofSteps] using runs [] []
    rw [whole]
    refine ⟨rfl, ?_⟩
    have noFrames : b'.comments.frames = [] := frames
    simp only [Replay.after, Replay.run, Builder.finish, CommentState.finish, noFrames]
  · intro b
    obtain ⟨b', frames, entries, succeed, runs⟩ := exists_turns_postOrder t rebuildable b
    exact ⟨b', entries, frames, succeed, runs⟩

/-- `a = :end`, between an empty statement and an absent one. -/
def assignedSymbol : Raw :=
  .node "program" [.node listTag
    [.node "void_stmt" [],
     .node "assign" [.node "var_field" [.node "@ident" [.str "a", .pos 1 0]],
       .node "symbol_literal" [.node "symbol" [.node "@kw" [.str "end", .pos 1 5]]]],
     .nil]]

theorem replay_assignedSymbol :
    assignedSymbol.isRebuildable = true ∧
      (Replay.ofSteps { filename := "a.rb" } assignedSymbol.postOrder).outcome =
        .ok (some assignedSymbol) := by
  have rebuildable : assignedSymbol.isRebuildable = true := by decide
  exact ⟨rebuildable, ((replay_postOrder assignedSymbol rebuildable).1 _).1⟩

end Raw

end RubyNormalForm
