import RubyNormalForm.Proofs.Events.Conservation

/-!
# Which comments a definition gets

The comments that are waiting go to the next definition, and only the keyword of a definition
takes them away. What a definition gets is therefore the text of every comment token since a
definition was last opened, at any depth. The completion of a definition is no boundary: a
comment inside the body of a method stays behind when the method is complete, and goes to the
definition that follows.

`CommentTrail` splits the reports since the last opening at the last completion. A definition gets
the text of both halves, so it gets only what was written between the definition before it
and itself just when the first half is silent.
-/

namespace RubyNormalForm

/-! ### Definitions and the places where they stand -/

/-- The reports from the keyword of a definition up to a place for a statement in its body. -/
inductive Enters : DefinitionKind → List Report → Prop
  | scope {word : String} {kind : DefinitionKind} {line column : Nat} {inside : List Report}
      (notMethod : kind ≠ .methodDef) (opens : DefinitionKind.ofKeyword? word = some kind)
      (body : Nested .items inside) : Enters kind (.token "kw" word line column :: inside)
  | method {line column : Nat} {header inside : List Report} {params : List Raw}
      (name : Nested .header header) (body : Nested .items inside) :
      Enters .methodDef
        (.token "kw" "def" line column :: (header ++ .reduction "params" params :: inside))

/-- The reports of a whole definition, from its keyword to its completion. -/
inductive IsDefinition : List Report → Prop
  | complete {kind : DefinitionKind} {entering : List Report} {event : String} {args : List Raw}
      (enters : Enters kind entering) (closes : DefinitionKind.ofEvent? event = some kind) :
      IsDefinition (entering ++ [.reduction event args])

/-- What stands in a well-nested stream before a place for a statement: at the top, in the body
of a definition, or in an interpolation in a symbol. -/
inductive Leads : List Report → Prop
  | top {before : List Report} (nested : Nested .items before) : Leads before
  | body {before entering : List Report} {kind : DefinitionKind} (outside : Leads before)
      (enters : Enters kind entering) : Leads (before ++ entering)
  | interpolation {before content inside : List Report} {text text' : String}
      {line column line' column' : Nat} (outside : Leads before)
      (quoted : Nested .quoted content) (code : Nested .items inside) :
      Leads (before ++ .token "symbeg" text line column ::
        (content ++ .token "embexpr_beg" text' line' column' :: inside))

variable {s : CommentState}

/-- The body of a definition is a place for statements, and while it lasts the definition holds
what was waiting when it was opened. -/
theorem Enters.passes {kind : DefinitionKind} {entering : List Report}
    (enters : Enters kind entering) (holds : Region.items.Holds s) :
    ∃ t, Passes s entering t ∧ Region.items.Holds t ∧
      t.frames = ⟨kind, s.pending⟩ :: s.frames := by
  cases enters with
  | scope notMethod opens body => exact body.sound.enterScope notMethod opens _ _ holds
  | method name body => exact name.sound.enterMethod body.sound _ _ _ holds

/-- Every report before a place for a statement succeeds, and no keyword is a name there. -/
theorem Leads.passes {before : List Report} (leads : Leads before)
    (holds : Region.items.Holds s) : ∃ t, Passes s before t ∧ Region.items.Holds t := by
  induction leads with
  | top nested =>
    obtain ⟨t, passes, keeps⟩ := nested.sound s holds
    exact ⟨t, passes, holds.of_keeps keeps⟩
  | body _ enters ih =>
    obtain ⟨t, passes, there⟩ := ih
    obtain ⟨u, entered, begins, -⟩ := enters.passes there
    exact ⟨u, passes.append entered, begins⟩
  | @interpolation before content inside text text' line column line' column' _ quoted code ih =>
    obtain ⟨t, passes, there⟩ := ih
    obtain ⟨u, contents, kept⟩ := quoted.sound { t with inSymbol := true } there.2
    have begins : Region.items.Holds { u with inSymbol := false } :=
      ⟨rfl, kept.inDefHeader.trans there.2.1, kept.inAlias.trans there.2.2⟩
    obtain ⟨v, coded, kept'⟩ := code.sound _ begins
    have started := Passes.token t "symbeg" text line column
    have interpolated := Passes.token u "embexpr_beg" text' line' column'
    exact ⟨v, passes.append (started.append (contents.append (interpolated.append coded))),
      begins.of_keeps kept'⟩

/-! ### What one definition hands out -/

namespace Builder

/-- A definition is wrapped in what was waiting before its keyword. -/
theorem exists_carries {b : Builder} (holds : Region.items.Holds b.comments)
    {reports : List Report} (whole : IsDefinition reports) :
    ∃ r kind, (b.deliverAll reports).2.getLast? = some (.ok r) ∧
      r.Carries ⟨kind, b.comments.pending⟩ := by
  cases whole with
  | @complete kind entering event args enters closes =>
    obtain ⟨t, passes, -, top⟩ := enters.passes holds
    obtain ⟨-, comments⟩ := passes b rfl
    have last := Passes.definition closes args top
    obtain ⟨succeeds, -⟩ := last _ comments
    obtain ⟨r, result⟩ := succeeds ((b.deliverAll entering).1.deliver (.reduction event args)).2
      (by simp [deliverAll])
    refine ⟨r, kind, ?_, ?_⟩
    · simp [deliverAll_append, deliverAll, result]
    · have completes : (Report.reduction event args).completes = true := by
        simp [Report.completes, closes]
      cases moves_deliver result with
      | keeps _ _ plain => simp [completes] at plain
      | opens _ _ _ _ plain => simp [completes] at plain
      | closes frame frames _ _ _ carries =>
        rw [comments, top] at frames
        obtain ⟨rfl, -⟩ := List.cons.inj frames
        exact carries

end Builder

/-! ### The reports since a definition was last opened -/

/-- The text of the comment tokens among reports. -/
def Report.commentsIn (reports : List Report) : String :=
  String.join (reports.map commentText)

/-- The reports since a definition was last opened, at any depth. -/
structure CommentTrail where
  /-- Those up to the last completion of a definition. -/
  left : List Report := []
  /-- Those after it. -/
  now : List Report := []

/-- The text of the comments on a trail. -/
def CommentTrail.text (trail : CommentTrail) : String :=
  Report.commentsIn trail.left ++ Report.commentsIn trail.now

theorem CommentTrail.text_eq_now {trail : CommentTrail} :
    trail.text = Report.commentsIn trail.now ↔ Report.commentsIn trail.left = "" := by
  rw [← String.toList_inj, ← String.toList_inj, text, String.toList_append]
  simp

namespace Builder

/-- The trail after one more report. -/
def trailStep (b : Builder) (trail : CommentTrail) (report : Report) : CommentTrail :=
  if !(b.opens report).isEmpty then {}
  else if report.completes then { left := trail.left ++ trail.now ++ [report] }
  else { trail with now := trail.now ++ [report] }

/-- The trail after further reports. -/
def trail (b : Builder) (before : CommentTrail) : List Report → CommentTrail
  | [] => before
  | report :: rest => (b.deliver report).1.trail (b.trailStep before report) rest

variable {b : Builder} {before : CommentTrail}

/-- One report: what is waiting is the text of the trail. -/
theorem pending_eq_trailStep {report : Report} {r : Raw}
    (succeeds : (b.deliver report).2 = .ok r) (waiting : b.comments.pending = before.text) :
    (b.deliver report).1.comments.pending = (b.trailStep before report).text := by
  cases moves_deliver succeeds with
  | keeps frames pending plain =>
    have none : b.opens report = [] := by simp [opens, CommentState.depth, frames]
    simp [pending, waiting, trailStep, none, plain, CommentTrail.text, Report.commentsIn,
      String.append_assoc]
  | opens kind frames pending silent plain =>
    have one : b.opens report = [⟨kind, b.comments.pending⟩] := by
      simp [opens, CommentState.depth, frames]
    simp [pending, trailStep, one, CommentTrail.text, Report.commentsIn]
  | closes frame frames pending silent complete wrapper =>
    have none : b.opens report = [] := by simp [opens, CommentState.depth, frames]
    simp [pending, waiting, trailStep, none, complete, CommentTrail.text, Report.commentsIn, silent]

/-- A stream of reports: what is waiting is the text of the trail. -/
theorem pending_eq_trail {reports : List Report} (succeeds : b.Succeeds reports)
    (waiting : b.comments.pending = before.text) :
    (b.deliverAll reports).1.comments.pending = (b.trail before reports).text := by
  induction reports generalizing b before with
  | nil => exact waiting
  | cons report rest ih =>
    obtain ⟨⟨r, first⟩, others⟩ := succeeds_cons.1 succeeds
    exact ih others (pending_eq_trailStep first waiting)

/-- A definition gets the comments on the trail before its keyword, and so only those since a
definition was last opened or completed just if there is none on the rest of the trail. -/
theorem definition_carries_trail (source : Source) {reports definition : List Report}
    (leads : Leads reports) (whole : IsDefinition definition) :
    ∃ r, ((ofSource source).deliverAll (reports ++ definition)).2.getLast? = some (.ok r) ∧
      (∃ inside, r = .node "comment" [.str ((ofSource source).trail {} reports).text, inside]) ∧
      ((∃ inside, r = .node "comment"
          [.str (Report.commentsIn ((ofSource source).trail {} reports).now), inside]) ↔
        Report.commentsIn ((ofSource source).trail {} reports).left = "") := by
  have start : Region.items.Holds (ofSource source).comments := ⟨rfl, rfl, rfl⟩
  obtain ⟨t, passes, there⟩ := leads.passes start
  obtain ⟨succeeds, comments⟩ := passes (ofSource source) rfl
  have waiting : ((ofSource source).deliverAll reports).1.comments.pending =
      ((ofSource source).trail {} reports).text := pending_eq_trail succeeds rfl
  rw [← comments] at there
  obtain ⟨r, kind, last, inside, carries⟩ := exists_carries there whole
  simp only [waiting] at carries
  refine ⟨r, ?_, ⟨inside, carries⟩, ?_⟩
  · rw [deliverAll_append, List.getLast?_append, last, Option.some_or]
  · rw [← CommentTrail.text_eq_now, carries]
    constructor
    · rintro ⟨_, same⟩
      exact Raw.str.inj (List.cons.inj (Raw.node.inj same).2).1
    · intro same
      exact ⟨inside, by rw [same]⟩

/-- A method with a comment in its body. -/
def commentedBody : List Report :=
  [.token "kw" "def" 1 0, .token "ident" "a" 1 4, .reduction "params" [],
   .token "comment" "# inner\n" 2 2, .reduction "def" []]

/-- A method with nothing in its body. -/
def emptyBody : List Report :=
  [.token "kw" "def" 4 0, .token "ident" "b" 4 4, .reduction "params" [], .reduction "def" []]

theorem leads_commentedBody : Leads commentedBody :=
  .top (.method (.inl rfl) (.token rfl) (.token rfl))

theorem isDefinition_emptyBody : IsDefinition emptyBody :=
  .complete (.method (.token rfl) (.nil .items)) rfl

/-- The comment in the first method goes to the second one. -/
theorem emptyBody_carries_inner :
    ∃ r, ((ofSource { filename := "a.rb" }).deliverAll (commentedBody ++ emptyBody)).2.getLast? =
        some (.ok r) ∧
      ∃ inside, r = .node "comment" [.str "# inner\n", inside] := by
  obtain ⟨r, last, carries, -⟩ :=
    definition_carries_trail { filename := "a.rb" } leads_commentedBody isDefinition_emptyBody
  exact ⟨r, last, carries⟩

/-- So a definition may get a comment that was written in the one before it. -/
theorem not_carries_now :
    ¬ ∀ (source : Source) (reports definition : List Report), Leads reports →
      IsDefinition definition →
      ∃ r inside, ((ofSource source).deliverAll (reports ++ definition)).2.getLast? =
          some (.ok r) ∧
        r = .node "comment"
          [.str (Report.commentsIn ((ofSource source).trail {} reports).now), inside] := by
  intro claimed
  obtain ⟨r, inside, last, carries⟩ :=
    claimed { filename := "a.rb" } commentedBody emptyBody leads_commentedBody
      isDefinition_emptyBody
  have leaked : ((ofSource { filename := "a.rb" }).deliverAll
      (commentedBody ++ emptyBody)).2.getLast? =
        some (.ok (.node "comment" [.str "# inner\n", .node "def" []])) := rfl
  have silent : Report.commentsIn ((ofSource { filename := "a.rb" }).trail {} commentedBody).now =
      "" := by decide
  rw [leaked, carries, silent] at last
  simp at last

end Builder

end RubyNormalForm
