import RubyNormalForm.Proofs.Events.Conservation

/-!
# Definitions in the headers of methods

Between `def` and the parameters of a method every keyword is read as a name. A definition can
stand there all the same: as the default of a parameter. Its keyword is then taken for a name,
unless a list of parameters has been completed since `def`, which may be that of a block inside
another default. Such a hidden definition opens no frame, and its completion closes the frame
of another definition, or finds none.

`Traced` says which streams of reports nest their definitions properly, in headers as anywhere
else, and lists the definitions. The main statement is that all reports of such a stream succeed
just when no definition in it is hidden, and that each definition then closes the frame that its
own keyword opened. A stretch of a stream is described by `Stretch`, which is put together piece by
piece; that a hidden definition makes some report fail is a matter of counting, since all
definitions are completed and only the others are opened.
-/

namespace RubyNormalForm

/-- Whether a report completes a list of parameters. -/
def Report.isParameters : Report → Bool
  | .token _ _ _ _ => false
  | .reduction event _ => event == "params"

/-- A definition in a stream of reports. -/
structure DefinitionSpan where
  kind : DefinitionKind
  /-- The reports before its keyword. -/
  before : List Report
  keyword : Report
  inside : List Report
  completion : Report
  /-- Whether it stands in the header of a method and no list of parameters is completed between
  the keyword of that method and its own. -/
  hidden : Bool

namespace DefinitionSpan

/-- The definition in a stream with more reports in front. -/
def after (front : List Report) (d : DefinitionSpan) : DefinitionSpan :=
  { d with before := front ++ d.before }

/-- Whether no list of parameters is completed before the keyword. -/
def isEarly (d : DefinitionSpan) : Bool :=
  !d.before.any Report.isParameters

/-- The definition in a stream that stands in the header of a method, or not. -/
def inHeader (header : Bool) (d : DefinitionSpan) : DefinitionSpan :=
  { d with hidden := d.hidden || (header && d.isEarly) }

/-- The keyword with which a stream begins is hidden just if the stream stands in a header. -/
theorem inHeader_first (header : Bool) (kind : DefinitionKind) (keyword completion : Report)
    (inside : List Report) :
    inHeader header ⟨kind, [], keyword, inside, completion, false⟩ =
      ⟨kind, [], keyword, inside, completion, header⟩ := by
  simp [inHeader, isEarly]

theorem inHeader_false (d : DefinitionSpan) : d.inHeader false = d := by
  simp [inHeader]

/-- A definition is in no deeper header than the innermost one. -/
theorem inHeader_inHeader (header : Bool) (d : DefinitionSpan) :
    (d.inHeader true).inHeader header = d.inHeader true := by
  have same : (d.hidden || d.isEarly || (header && d.isEarly)) = (d.hidden || d.isEarly) := by
    cases d.isEarly <;> simp
  simpa [inHeader, isEarly] using same

theorem after_inHeader (front : List Report) (header : Bool) (d : DefinitionSpan) :
    (d.after front).inHeader header =
      (d.inHeader (header && !front.any Report.isParameters)).after front := by
  simp [inHeader, after, isEarly, Bool.and_assoc]

theorem map_inHeader_after (front : List Report) (defs : List DefinitionSpan) (header : Bool) :
    (defs.map (after front)).map (inHeader header) =
      (defs.map (inHeader (header && !front.any Report.isParameters))).map (after front) := by
  simp [after_inHeader]

theorem after_after (front front' : List Report) (d : DefinitionSpan) :
    (d.after front').after front = d.after (front ++ front') := by
  simp [after]

end DefinitionSpan

/-- The streams of reports in which definitions nest properly, and the definitions in them. A
definition may stand among statements, in an interpolation, and in the parameters of a method.
The text of a dynamic symbol is marked as quoted. -/
inductive Traced : (quoted : Bool) → List Report → List DefinitionSpan → Prop
  | nil (quoted : Bool) : Traced quoted [] []
  | append {quoted : Bool} {first second : List Report} {defs defs' : List DefinitionSpan}
      (before : Traced quoted first defs) (rest : Traced quoted second defs') :
      Traced quoted (first ++ second) (defs ++ defs'.map (.after first))
  | token {quoted : Bool} {kind text : String} {line column : Nat}
      (admitted : Region.items.admitsToken kind text = true) :
      Traced quoted [.token kind text line column] []
  | reduction {quoted : Bool} {event : String} {args : List Raw} (plain : Plain event args) :
      Traced quoted [.reduction event args] []
  /-- A symbol. -/
  | symbol {quoted : Bool} {text : String} {line column : Nat} {inside : List Report}
      {args : List Raw} (names : ∀ report ∈ inside, report.isName = true) :
      Traced quoted
        (.token "symbeg" text line column :: (inside ++ [.reduction "symbol" args])) []
  /-- A symbol in quotes. -/
  | dynamicSymbol {text : String} {line column : Nat} {inside : List Report} {args : List Raw}
      {defs : List DefinitionSpan} (content : Traced true inside defs) :
      Traced false (.token "symbeg" text line column :: (inside ++ [.reduction "dyna_symbol" args]))
        (defs.map (.after [.token "symbeg" text line column]))
  /-- An interpolation in a symbol in quotes. -/
  | interpolation {text text' : String} {line column line' column' : Nat} {inside : List Report}
      {defs : List DefinitionSpan} (code : Traced false inside defs) :
      Traced true (.token "embexpr_beg" text line column ::
        (inside ++ [.token "embexpr_end" text' line' column']))
        (defs.map (.after [.token "embexpr_beg" text line column]))
  /-- Method names after `alias` or `undef`. -/
  | methodNames {word event : String} {line column : Nat} {inside : List Report} {args : List Raw}
      (opens : word = "alias" ∨ word = "undef")
      (closes : event = "alias" ∨ event = "var_alias" ∨ event = "undef")
      (names : Nested .names inside) (noParameters : inside.any Report.isParameters = false) :
      Traced false (.token "kw" word line column :: (inside ++ [.reduction event args])) []
  /-- A class or a module. -/
  | scope {word event : String} {kind : DefinitionKind} {line column : Nat}
      {inside : List Report} {args : List Raw} {defs : List DefinitionSpan}
      (notMethod : kind ≠ .methodDef) (opens : DefinitionKind.ofKeyword? word = some kind)
      (closes : DefinitionKind.ofEvent? event = some kind) (body : Traced false inside defs) :
      Traced false (.token "kw" word line column :: (inside ++ [.reduction event args]))
        (⟨kind, [], .token "kw" word line column, inside, .reduction event args, false⟩ ::
          defs.map (.after [.token "kw" word line column]))
  /-- A method: its name, its parameters and its body. -/
  | method {event : String} {line column : Nat} {name header inside : List Report}
      {params args : List Raw} {defs defs' : List DefinitionSpan}
      (closes : DefinitionKind.ofEvent? event = some .methodDef) (isName : Nested .header name)
      (parameters : Traced false header defs) (body : Traced false inside defs') :
      Traced false
        (.token "kw" "def" line column ::
          (name ++ (header ++ .reduction "params" params :: inside) ++ [.reduction event args]))
        (⟨.methodDef, [], .token "kw" "def" line column,
            name ++ (header ++ .reduction "params" params :: inside), .reduction event args,
            false⟩ ::
          (defs.map (fun d => (d.inHeader true).after (.token "kw" "def" line column :: name)) ++
            defs'.map (.after (.token "kw" "def" line column ::
              (name ++ (header ++ [.reduction "params" params]))))))

/-! ### Names -/

theorem Report.plain_of_isName {report : Report} (isName : report.isName = true) :
    report.completes = false ∧ report.isParameters = false := by
  cases report with
  | token kind text line column => exact ⟨rfl, rfl⟩
  | reduction event args => cases isName

/-- What is read as names completes no definition, and what is read as the name of a method no list
of parameters. -/
theorem Nested.plain_of_names {region : Region} {reports : List Report}
    (nested : Nested region reports) (names : region = .names ∨ region = .header) :
    ∀ report ∈ reports,
      report.completes = false ∧ (region = .header → report.isParameters = false) := by
  induction nested with
  | nil region => simp
  | append _ _ before after =>
    intro report member
    obtain member | member := List.mem_append.1 member
    · exact before names report member
    · exact after names report member
  | token admitted => simp [Report.completes, Report.isParameters]
  | reduction plain admitted =>
    intro report member
    obtain rfl := List.mem_singleton.1 member
    refine ⟨by simp [Report.completes, plain.notDefinition], ?_⟩
    rintro rfl
    simpa [Region.admitsEvent, Report.isParameters] using admitted
  | symbol isName =>
    intro report member
    obtain rfl | member := List.mem_cons.1 member
    · exact ⟨rfl, fun _ => rfl⟩
    obtain member | member := List.mem_append.1 member
    · obtain ⟨plain, quiet⟩ := Report.plain_of_isName (isName report member)
      exact ⟨plain, fun _ => quiet⟩
    · obtain rfl := List.mem_singleton.1 member
      exact ⟨rfl, fun _ => rfl⟩
  | dynamicSymbol | interpolation | methodNames | scope | method => simp at names

theorem Report.plain_of_symbol {inside : List Report}
    (names : ∀ report ∈ inside, report.isName = true) (text : String) (line column : Nat)
    (args : List Raw) :
    ∀ report ∈ .token "symbeg" text line column :: (inside ++ [.reduction "symbol" args]),
      report.completes = false ∧ report.isParameters = false := by
  have nested : Nested .header
      (.token "symbeg" text line column :: (inside ++ [.reduction "symbol" args])) := .symbol names
  intro report member
  obtain ⟨plain, quiet⟩ := nested.plain_of_names (.inr rfl) report member
  exact ⟨plain, quiet rfl⟩

/-- Method names can stand in the header of a method. -/
theorem Nested.header_of_names {region : Region} {reports : List Report}
    (nested : Nested region reports) (names : region = .names)
    (noParameters : reports.any Report.isParameters = false) : Nested .header reports := by
  induction nested with
  | nil region => exact .nil .header
  | append _ _ before after =>
    rw [List.any_append, Bool.or_eq_false_iff] at noParameters
    exact (before names noParameters.1).append (after names noParameters.2)
  | token admitted =>
    subst names
    exact .token admitted
  | reduction plain admitted =>
    exact .reduction plain (by simpa [Region.admitsEvent, Report.isParameters] using noParameters)
  | symbol isName => exact .symbol isName
  | dynamicSymbol | interpolation | methodNames | scope | method => cases names

/-! ### Frames and their definitions -/

theorem CommentState.close_fst (s : CommentState) (kind : DefinitionKind) :
    (s.close kind).1 = { s with frames := s.frames.tail } := by
  obtain ⟨pending, frames, inSymbol, inDefHeader, inAlias⟩ := s
  cases frames with
  | nil => rfl
  | cons frame rest =>
    simp only [close, List.tail_cons]
    split <;> rfl

namespace Builder

/-- From here, the keyword of a definition opens a frame that holds the waiting comments, and the
completion of the definition closes that frame and hands out those comments. -/
structure Owns (b : Builder) (d : DefinitionSpan) : Prop where
  opens : (b.deliver d.keyword).1.comments.frames =
    ⟨d.kind, b.comments.pending⟩ :: b.comments.frames
  holds : (b.deliverAll (d.keyword :: d.inside)).1.comments.frames =
    ⟨d.kind, b.comments.pending⟩ :: b.comments.frames
  closes : ((b.deliverAll (d.keyword :: d.inside)).1.deliver d.completion).1.comments.frames =
    b.comments.frames
  handsOut : ∃ r, ((b.deliverAll (d.keyword :: d.inside)).1.deliver d.completion).2 = .ok r ∧
    r.Carries ⟨d.kind, b.comments.pending⟩

/-- A definition in a stream closes the frame that its own keyword opened. -/
def ClosesOwn (b : Builder) (d : DefinitionSpan) : Prop :=
  (b.deliverAll d.before).1.Owns d

theorem closesOwn_after {b : Builder} {front : List Report} {d : DefinitionSpan} :
    b.ClosesOwn (d.after front) ↔ (b.deliverAll front).1.ClosesOwn d := by
  rw [ClosesOwn, ClosesOwn, DefinitionSpan.after, deliverAll_append]
  constructor <;> exact fun owns => ⟨owns.opens, owns.holds, owns.closes, owns.handsOut⟩

variable {b : Builder}

theorem succeeds_append {first second : List Report} :
    b.Succeeds (first ++ second) ↔
      b.Succeeds first ∧ (b.deliverAll first).1.Succeeds second := by
  simp only [Succeeds, deliverAll_append, List.mem_append, or_imp, forall_and]

theorem opened_append (first second : List Report) :
    b.opened (first ++ second) = b.opened first ++ (b.deliverAll first).1.opened second := by
  induction first generalizing b with
  | nil => rfl
  | cons report rest ih =>
    rw [List.cons_append, opened, ih, opened, List.append_assoc]
    rfl

/-- Where all reports succeed, every definition that is opened or completed shows in the depth of
the stack. -/
theorem depth_add_completions {reports : List Report} (succeeds : b.Succeeds reports) :
    (b.deliverAll reports).1.comments.depth + reports.countP Report.completes =
      b.comments.depth + (b.opened reports).length := by
  induction reports generalizing b with
  | nil => rfl
  | cons report rest ih =>
    obtain ⟨⟨r, first⟩, others⟩ := succeeds_cons.1 succeeds
    have run := ih others
    rw [deliverAll_cons_fst, opened, List.length_append, List.countP_cons]
    cases moves_deliver first with
    | keeps frames pending plain =>
      simp [opens, CommentState.depth, frames, plain] at run ⊢
      omega
    | opens kind frames pending silent plain =>
      simp [opens, CommentState.depth, frames, plain] at run ⊢
      omega
    | closes frame frames pending silent complete wrapper =>
      simp [opens, CommentState.depth, frames, complete] at run ⊢
      omega

/-- The completion of a definition takes the innermost frame off the stack, whosever it is. -/
theorem deliver_completion (b : Builder) {event : String} {kind : DefinitionKind}
    (closes : DefinitionKind.ofEvent? event = some kind) (args : List Raw) :
    ∃ value, b.deliver (.reduction event args) =
      ({ b with comments := (b.comments.close kind).1 },
        (b.comments.close kind).2.map fun text => .node "comment" [.str text, value]) := by
  obtain ⟨notError, blind, unmoved⟩ := DefinitionKind.facts_of_ofEvent? closes b.comments
  obtain ⟨value, isValue⟩ := Event.value_of_not_inspects blind args
  exact ⟨value, by simp only [deliver, reduce, notError, isValue, closes, unmoved]; rfl⟩

theorem comments_completion (b : Builder) {event : String} {kind : DefinitionKind}
    (closes : DefinitionKind.ofEvent? event = some kind) (args : List Raw) :
    (b.deliver (.reduction event args)).1.comments =
      { b.comments with frames := b.comments.frames.tail } := by
  obtain ⟨value, completed⟩ := b.deliver_completion closes args
  rw [completed]
  exact b.comments.close_fst kind

/-- If the innermost frame is of the right kind, the definition gets its comments. -/
theorem carries_completion {b : Builder} {event : String} {kind : DefinitionKind}
    (closes : DefinitionKind.ofEvent? event = some kind) (args : List Raw) {text : String}
    {rest : List Frame} (top : b.comments.frames = ⟨kind, text⟩ :: rest) :
    ∃ r, (b.deliver (.reduction event args)).2 = .ok r ∧ r.Carries ⟨kind, text⟩ := by
  obtain ⟨value, completed⟩ := b.deliver_completion closes args
  refine ⟨.node "comment" [.str text, value], ?_, value, rfl⟩
  rw [completed]
  simp only [CommentState.close, top, if_true]
  rfl

theorem opens_completion (b : Builder) {event : String} {kind : DefinitionKind}
    (closes : DefinitionKind.ofEvent? event = some kind) (args : List Raw) :
    b.opens (.reduction event args) = [] := by
  have shallower : b.comments.frames.tail.length - b.comments.frames.length = 0 := by
    rw [List.length_tail]
    omega
  simp only [opens, b.comments_completion closes args, CommentState.depth, shallower,
    List.take_zero]

end Builder

/-! ### Places in a stream -/

/-- What the flags are at a place: whether the place is in the text of a dynamic symbol, where
the flag of the symbol may be set or not, and whether keywords are taken for names because a
method has no parameters yet. -/
structure Situated (quoted named : Bool) (s : CommentState) : Prop where
  inSymbol : quoted = false → s.inSymbol = false
  inDefHeader : s.inDefHeader = named
  inAlias : s.inAlias = false

namespace Situated

variable {quoted named : Bool} {s t : CommentState}

theorem of_keeps (place : Situated quoted named s) (keeps : s.Keeps t) :
    Situated quoted named t := by
  refine ⟨?_, keeps.inDefHeader.trans place.inDefHeader, keeps.inAlias.trans place.inAlias⟩
  intro outside
  obtain same | cleared := keeps.inSymbol
  · exact same.trans (place.inSymbol outside)
  · exact cleared

theorem items (place : Situated false false s) : Region.items.Holds s :=
  ⟨place.inSymbol rfl, place.inDefHeader, place.inAlias⟩

theorem header (place : Situated false true s) : Region.header.Holds s :=
  ⟨place.inSymbol rfl, place.inDefHeader, place.inAlias⟩

/-- A reduction ends a header just if it completes a list of parameters. -/
theorem leave (place : Situated quoted named s) (event : String) (args : List Raw) :
    Situated quoted (named && !(Report.reduction event args).isParameters) (s.leave event) := by
  rw [CommentState.leave, Report.isParameters]
  split
  · rename_i isParams
    exact ⟨place.inSymbol, by simp [isParams], place.inAlias⟩
  · rename_i other
    have stays : s.inDefHeader = (named && !(event == "params")) := by
      simp [place.inDefHeader, other]
    split
    · exact ⟨fun _ => rfl, stays, place.inAlias⟩
    · split
      · exact ⟨place.inSymbol, stays, rfl⟩
      · exact ⟨place.inSymbol, stays, place.inAlias⟩

/-- The keyword of a definition opens a frame unless it is taken for a name. -/
theorem scan_keyword (place : Situated false named s) {word : String} {kind : DefinitionKind}
    (opens : DefinitionKind.ofKeyword? word = some kind) :
    s.scan "kw" word = if named then s else s.openFrame kind := by
  cases named with
  | true => exact CommentState.keyword_of_named word (.inr (.inl place.inDefHeader))
  | false => exact place.items.scan_keyword opens

/-- Behind the keyword of a method its header begins, whether the keyword is taken for a name or
not. -/
theorem keyword (place : Situated false named s) {word : String} {kind : DefinitionKind}
    (opens : DefinitionKind.ofKeyword? word = some kind) :
    Situated false (named || kind == .methodDef) (s.scan "kw" word) := by
  rw [place.scan_keyword opens]
  cases named with
  | true => exact place
  | false => exact ⟨place.inSymbol, by simp [CommentState.openFrame, place.inDefHeader], place.inAlias⟩

end Situated

/-! ### Runs -/

/-- What a stretch of a stream does between two places, if the definitions in it that are marked
as hidden are those whose keyword is taken for a name. Every definition is completed, and those
that are not hidden are opened; if none is hidden, all reports succeed, the stack is kept, and
every definition closes its own frame. -/
structure Stretch (quoted named : Bool) (reports : List Report) (defs : List DefinitionSpan)
    (quoted' named' : Bool) : Prop where
  completions : reports.countP Report.completes = defs.length
  place : ∀ b : Builder, Situated quoted named b.comments →
    Situated quoted' named' (b.deliverAll reports).1.comments
  opened : ∀ b : Builder, Situated quoted named b.comments →
    (b.opened reports).length = defs.countP fun d => !d.hidden
  succeeds : ∀ b : Builder, Situated quoted named b.comments → (∀ d ∈ defs, d.hidden = false) →
    b.Succeeds reports ∧ (b.deliverAll reports).1.comments.frames = b.comments.frames ∧
      ∀ d ∈ defs, b.ClosesOwn d

theorem countP_after (front : List Report) (defs : List DefinitionSpan) :
    (defs.map (DefinitionSpan.after front)).countP (fun d => !d.hidden) =
      defs.countP fun d => !d.hidden := by
  rw [List.countP_map]
  rfl

namespace Stretch

variable {quoted named quoted' named' quoted'' named'' : Bool} {reports : List Report}
variable {defs : List DefinitionSpan}

theorem append {first second : List Report} {defs' : List DefinitionSpan}
    (before : Stretch quoted named first defs quoted' named')
    (rest : Stretch quoted' named' second defs' quoted'' named'') :
    Stretch quoted named (first ++ second) (defs ++ defs'.map (.after first)) quoted'' named'' where
  completions := by
    rw [List.countP_append, before.completions, rest.completions, List.length_append,
      List.length_map]
  place b here := by
    rw [Builder.deliverAll_append]
    exact rest.place _ (before.place b here)
  opened b here := by
    rw [Builder.opened_append, List.length_append, before.opened b here,
      rest.opened _ (before.place b here), List.countP_append, countP_after]
  succeeds b here open_ := by
    obtain ⟨firstOk, firstFrames, firstOwn⟩ :=
      before.succeeds b here fun d member => open_ d (List.mem_append_left _ member)
    obtain ⟨restOk, restFrames, restOwn⟩ :=
      rest.succeeds _ (before.place b here) fun d member =>
        open_ (d.after first) (List.mem_append_right _ (List.mem_map.2 ⟨d, member, rfl⟩))
    refine ⟨Builder.succeeds_append.2 ⟨firstOk, restOk⟩, ?_, ?_⟩
    · rw [Builder.deliverAll_append]
      exact restFrames.trans firstFrames
    · intro d member
      obtain member | member := List.mem_append.1 member
      · exact firstOwn d member
      · obtain ⟨e, isMember, rfl⟩ := List.mem_map.1 member
        exact Builder.closesOwn_after.2 (restOwn e isMember)

/-- A stretch without definitions in which all reports succeed. -/
theorem of_passes (silent : ∀ report ∈ reports, report.completes = false)
    (passes : ∀ s, Situated quoted named s →
      ∃ t, Passes s reports t ∧ t.frames = s.frames ∧ Situated quoted' named' t) :
    Stretch quoted named reports [] quoted' named' := by
  have none : reports.countP Report.completes = 0 := by
    rw [List.countP_eq_zero]
    simpa using silent
  refine ⟨none, ?_, ?_, ?_⟩
  · intro b here
    obtain ⟨t, run, -, there⟩ := passes _ here
    rw [(run b rfl).2]
    exact there
  · intro b here
    obtain ⟨t, run, frames, -⟩ := passes _ here
    obtain ⟨succeeds, ends⟩ := run b rfl
    have depth := Builder.depth_add_completions succeeds
    rw [ends, none, CommentState.depth, CommentState.depth, frames] at depth
    simpa using depth.symm
  · intro b here _
    obtain ⟨t, run, frames, -⟩ := passes _ here
    obtain ⟨succeeds, ends⟩ := run b rfl
    refine ⟨succeeds, by rw [ends, frames], ?_⟩
    simp

/-- A whole definition: the frame that its keyword opens stays below all that happens inside, and
its completion closes that frame. -/
theorem definition {word event : String} {kind : DefinitionKind}
    (opens : DefinitionKind.ofKeyword? word = some kind)
    (closes : DefinitionKind.ofEvent? event = some kind) (line column : Nat) (args : List Raw)
    {inside : List Report} {header : Bool} (isHeader : (named || kind == .methodDef) = header)
    (body : Stretch false header inside defs false named') :
    Stretch false named (.token "kw" word line column :: (inside ++ [.reduction event args]))
      (⟨kind, [], .token "kw" word line column, inside, .reduction event args, named⟩ ::
        defs.map (.after [.token "kw" word line column])) false named' where
  completions := by
    simp [Report.completes, body.completions, closes]
  place b here := by
    have there := body.place (b.deliver (.token "kw" word line column)).1 (isHeader ▸ here.keyword opens)
    rw [Builder.deliverAll_cons_fst, Builder.deliverAll_append, Builder.deliverAll_cons_fst,
      Builder.deliverAll, Builder.comments_completion _ closes]
    exact ⟨there.inSymbol, there.inDefHeader, there.inAlias⟩
  opened b here := by
    have first : (b.opens (.token "kw" word line column)).length = if named then 0 else 1 := by
      have scanned : (b.deliver (.token "kw" word line column)).1.comments =
          if named then b.comments else b.comments.openFrame kind := here.scan_keyword opens
      rw [Builder.opens, scanned]
      cases named <;> simp [CommentState.openFrame, CommentState.depth]
    rw [Builder.opened, List.length_append, first, Builder.opened_append, List.length_append,
      body.opened _ (isHeader ▸ here.keyword opens), Builder.opened, Builder.opens_completion _ closes,
      List.countP_cons, countP_after]
    cases named <;> simp [Builder.opened, Nat.add_comm]
  succeeds b here open_ := by
    obtain rfl : named = false := open_ _ List.mem_cons_self
    have opened : (b.deliver (.token "kw" word line column)).1.comments =
        b.comments.openFrame kind := here.scan_keyword opens
    obtain ⟨bodyOk, bodyFrames, bodyOwn⟩ :=
      body.succeeds (b.deliver (.token "kw" word line column)).1 (isHeader ▸ here.keyword opens)
        fun d member => open_ (d.after [.token "kw" word line column])
          (List.mem_cons_of_mem _ (List.mem_map.2 ⟨d, member, rfl⟩))
    have top : ((b.deliver (.token "kw" word line column)).1.deliverAll inside).1.comments.frames =
        ⟨kind, b.comments.pending⟩ :: b.comments.frames := by
      rw [bodyFrames, opened]
      rfl
    obtain ⟨r, result, carries⟩ := Builder.carries_completion closes args top
    have popped := congrArg CommentState.frames (Builder.comments_completion
      ((b.deliver (.token "kw" word line column)).1.deliverAll inside).1 closes args)
    rw [top] at popped
    refine ⟨?_, ?_, ?_⟩
    · refine Builder.succeeds_cons.2 ⟨⟨_, rfl⟩, Builder.succeeds_append.2 ⟨bodyOk, ?_⟩⟩
      exact Builder.succeeds_cons.2 ⟨⟨r, result⟩, fun _ member => absurd member List.not_mem_nil⟩
    · rw [Builder.deliverAll_cons_fst, Builder.deliverAll_append]
      exact popped
    · intro d member
      obtain rfl | member := List.mem_cons.1 member
      · exact ⟨congrArg CommentState.frames opened, top, popped, r, result, carries⟩
      · obtain ⟨e, isMember, rfl⟩ := List.mem_map.1 member
        exact Builder.closesOwn_after.2 (bodyOwn e isMember)

/-! Stretches without definitions. -/

theorem nil : Stretch quoted named [] [] quoted named :=
  of_passes (by simp) fun s here => ⟨s, Passes.nil s, rfl, here⟩

theorem token {kind text : String} (admitted : Region.items.admitsToken kind text = true)
    (line column : Nat) : Stretch quoted named [.token kind text line column] [] quoted named := by
  refine of_passes (by simp [Report.completes]) ?_
  intro s here
  have keeps := Region.keeps_scan_of_admitsToken admitted (s := s)
  exact ⟨_, .token s kind text line column, keeps.frames, here.of_keeps keeps⟩

theorem reduction {event : String} {args : List Raw} (plain : Plain event args) :
    Stretch quoted named [.reduction event args] [] quoted
      (named && !(Report.reduction event args).isParameters) := by
  refine of_passes (by simp [Report.completes, plain.notDefinition]) ?_
  intro s here
  exact ⟨_, .reduction plain s, (s.leave_fields event).1, here.leave event args⟩

/-- Behind its parameters the header of a method has ended. -/
theorem parameters (params : List Raw) :
    Stretch quoted named [.reduction "params" params] [] quoted false := by
  have ended : Stretch quoted named _ [] quoted _ :=
    reduction (Plain.of_ending "params" params (by simp))
  rwa [Report.isParameters, beq_self_eq_true, Bool.not_true, Bool.and_false] at ended

theorem symbol {inside : List Report} (names : ∀ report ∈ inside, report.isName = true)
    (text : String) (line column : Nat) (args : List Raw) :
    Stretch quoted named
      (.token "symbeg" text line column :: (inside ++ [.reduction "symbol" args])) []
      quoted named := by
  have plain := Report.plain_of_symbol names text line column args
  refine of_passes (fun report member => (plain report member).1) ?_
  intro s here
  obtain ⟨t, passes, keeps⟩ := Passes.symbol names s text line column args
  exact ⟨t, passes, keeps.frames, here.of_keeps keeps⟩

/-- The text of a dynamic symbol begins. -/
theorem quote (text : String) (line column : Nat) :
    Stretch false named [.token "symbeg" text line column] [] true named := by
  refine of_passes (by simp [Report.completes]) ?_
  intro s here
  exact ⟨_, .token s "symbeg" text line column, rfl, Bool.noConfusion, here.inDefHeader,
    here.inAlias⟩

/-- The text of a dynamic symbol ends. -/
theorem unquote (args : List Raw) :
    Stretch true named [.reduction "dyna_symbol" args] [] false named := by
  refine of_passes (by simp [Report.completes, DefinitionKind.ofEvent?]) ?_
  intro s here
  have plain := Plain.of_ending "dyna_symbol" args (by simp)
  exact ⟨_, .reduction plain s, rfl, fun _ => rfl, here.inDefHeader, here.inAlias⟩

/-- The text of a dynamic symbol is interrupted by code. -/
theorem enterCode (text : String) (line column : Nat) :
    Stretch true named [.token "embexpr_beg" text line column] [] false named := by
  refine of_passes (by simp [Report.completes]) ?_
  intro s here
  exact ⟨_, .token s "embexpr_beg" text line column, rfl, fun _ => rfl, here.inDefHeader,
    here.inAlias⟩

/-- The text of a dynamic symbol goes on behind code. -/
theorem leaveCode (text : String) (line column : Nat) :
    Stretch false named [.token "embexpr_end" text line column] [] true named := by
  refine of_passes (by simp [Report.completes]) ?_
  intro s here
  exact ⟨_, .token s "embexpr_end" text line column, rfl, Bool.noConfusion, here.inDefHeader,
    here.inAlias⟩

/-- The name of a method. -/
theorem name {reports : List Report} (isName : Nested .header reports) :
    Stretch false true reports [] false true := by
  refine of_passes (fun report member => (isName.plain_of_names (.inr rfl) report member).1) ?_
  intro s here
  obtain ⟨t, passes, keeps⟩ := isName.sound s here.header
  exact ⟨t, passes, keeps.frames, here.of_keeps keeps⟩

/-- In a header, `alias` and `undef` are names themselves. -/
theorem methodNames {word event : String} (opens : word = "alias" ∨ word = "undef")
    (closes : event = "alias" ∨ event = "var_alias" ∨ event = "undef") {inside : List Report}
    (names : Nested .names inside) (noParameters : inside.any Report.isParameters = false)
    (line column : Nat) (args : List Raw) :
    Stretch false named (.token "kw" word line column :: (inside ++ [.reduction event args])) []
      false named := by
  refine of_passes ?_ ?_
  · intro report member
    obtain rfl | member := List.mem_cons.1 member
    · rfl
    obtain member | member := List.mem_append.1 member
    · exact (names.plain_of_names (.inl rfl) report member).1
    · obtain rfl := List.mem_singleton.1 member
      obtain rfl | rfl | rfl := closes <;> rfl
  intro s here
  cases named with
  | false =>
    obtain ⟨t, passes, keeps⟩ :=
      Region.Sound.methodNames opens closes names.sound line column args s here.items
    exact ⟨t, passes, keeps.frames, here.of_keeps keeps⟩
  | true =>
    have unread : s.scan "kw" word = s :=
      CommentState.keyword_of_named word (.inr (.inl here.inDefHeader))
    obtain ⟨t, passes, keeps⟩ := (names.header_of_names rfl noParameters).sound s here.header
    have started := Passes.token s "kw" word line column
    rw [unread] at started
    have closed := Passes.reduction (Plain.of_ending event args (by simp [closes])) t
    have left := (here.of_keeps keeps).leave event args
    have noParams : (Report.reduction event args).isParameters = false := by
      obtain rfl | rfl | rfl := closes <;> rfl
    rw [noParams] at left
    exact ⟨_, started.append (passes.append closed),
      (t.leave_fields event).1.trans keeps.frames, left⟩

end Stretch

/-- What a stream in which definitions nest properly does from a place in a header, or outside
all headers. -/
theorem Traced.stretch {quoted : Bool} {reports : List Report} {defs : List DefinitionSpan}
    (traced : Traced quoted reports defs) (named : Bool) :
    Stretch quoted named reports (defs.map (.inHeader named)) quoted
      (named && !reports.any Report.isParameters) := by
  induction traced generalizing named with
  | nil quoted =>
    rw [List.any_nil, Bool.not_false, Bool.and_true]
    exact Stretch.nil
  | append _ _ before rest =>
    rw [List.map_append, DefinitionSpan.map_inHeader_after, List.any_append, Bool.not_or, ← Bool.and_assoc]
    exact (before named).append (rest (named && _))
  | token admitted => simpa [Report.isParameters] using Stretch.token admitted _ _
  | reduction plain => simpa using Stretch.reduction plain
  | @symbol quoted text line column inside args names =>
    have quiet : (Report.token "symbeg" text line column ::
        (inside ++ [.reduction "symbol" args])).any Report.isParameters = false := by
      refine List.any_eq_false.2 fun report member => ?_
      simp [(Report.plain_of_symbol names text line column args report member).2]
    rw [quiet, Bool.not_false, Bool.and_true]
    exact Stretch.symbol names text line column args
  | @dynamicSymbol text line column inside args defs _ content =>
    have whole :=
      (Stretch.quote text line column).append ((content named).append (Stretch.unquote args))
    rw [DefinitionSpan.map_inHeader_after]
    simpa [Report.isParameters] using whole
  | @interpolation text text' line column line' column' inside defs _ code =>
    have whole := (Stretch.enterCode text line column).append
      ((code named).append (Stretch.leaveCode text' line' column'))
    rw [DefinitionSpan.map_inHeader_after]
    simpa [Report.isParameters] using whole
  | @methodNames word event line column inside args opens closes names noParameters =>
    have quiet : (Report.token "kw" word line column ::
        (inside ++ [.reduction event args])).any Report.isParameters = false := by
      obtain rfl | rfl | rfl := closes <;> simp [noParameters, Report.isParameters]
    rw [quiet, Bool.not_false, Bool.and_true]
    exact Stretch.methodNames opens closes names noParameters line column args
  | @scope word event kind line column inside args defs notMethod opens closes _ body =>
    have quiet : (event == "params") = false := by
      refine beq_false_of_ne ?_
      rintro rfl
      cases closes
    have same : (named || kind == .methodDef) = named := by
      rw [beq_false_of_ne notMethod, Bool.or_false]
    have whole := Stretch.definition opens closes line column args same (body named)
    rw [List.map_cons, DefinitionSpan.inHeader_first, DefinitionSpan.map_inHeader_after]
    simpa [Report.isParameters, quiet] using whole
  | @method event line column name header inside params args defs defs' closes isName _ _ parameters
      body =>
    have inner := (Stretch.name isName).append ((parameters true).append
      ((Stretch.parameters params).append (body false)))
    have whole : Stretch false named (.token "kw" "def" line column :: _) _ false _ :=
      Stretch.definition rfl closes line column args (Bool.or_true named) inner
    simpa [Report.isParameters, Function.comp_def, DefinitionSpan.inHeader_first,
      DefinitionSpan.inHeader_inHeader, DefinitionSpan.inHeader_false,
      DefinitionSpan.after_inHeader, DefinitionSpan.after_after] using whole

/-- In a stream in which definitions nest properly, all reports succeed just when no definition is
hidden: when in every header of a method, a list of parameters is completed before the first
definition in it. Each definition then closes the frame that its own keyword opened, and the
stream may end. -/
theorem Traced.succeeds_iff {reports : List Report} {defs : List DefinitionSpan}
    (traced : Traced false reports defs) (source : Source) :
    ((∀ result ∈ ((Builder.ofSource source).deliverAll reports).2, ∃ r, result = .ok r) ↔
        ∀ d ∈ defs, d.hidden = false) ∧
      ((∀ d ∈ defs, d.hidden = false) →
        (∀ d ∈ defs, (Builder.ofSource source).ClosesOwn d) ∧
          ((Builder.ofSource source).deliverAll reports).1.finish = .ok ()) := by
  have whole := traced.stretch false
  rw [funext DefinitionSpan.inHeader_false, List.map_id'] at whole
  have start : Situated false false (Builder.ofSource source).comments :=
    ⟨fun _ => rfl, rfl, rfl⟩
  refine ⟨⟨?_, ?_⟩, ?_⟩
  · intro succeeds
    -- All definitions are completed, so all must have been opened.
    have depth := Builder.depth_add_completions succeeds
    rw [whole.completions, whole.opened _ start] at depth
    have none : (Builder.ofSource source).comments.depth = 0 := rfl
    have most : defs.countP (fun d => !d.hidden) ≤ defs.length := List.countP_le_length
    have all : defs.countP (fun d => !d.hidden) = defs.length := by omega
    simpa using List.countP_eq_length.1 all
  · intro open_
    exact (whole.succeeds _ start open_).1
  · intro open_
    obtain ⟨-, frames, own⟩ := whole.succeeds _ start open_
    refine ⟨own, ?_⟩
    rw [Builder.finish, CommentState.finish, frames]
    rfl

/-- The keyword and the name of a method. -/
def methodHead (name : String) (column : Nat) : List Report :=
  [.token "kw" "def" 1 column, .token "ident" name 1 (column + 4)]

/-- The reports of a method with an empty body. -/
def methodReports (name : String) (column : Nat) (header : List Report) : List Report :=
  .token "kw" "def" 1 column :: ([.token "ident" name 1 (column + 4)] ++
    (header ++ .reduction "params" [] :: []) ++ [.reduction "def" []])

/-- The method as a part of a stream. -/
def methodSpan (name : String) (column : Nat) (before header : List Report) (hidden : Bool) :
    DefinitionSpan :=
  ⟨.methodDef, before, .token "kw" "def" 1 column,
    [.token "ident" name 1 (column + 4)] ++ (header ++ .reduction "params" [] :: []),
    .reduction "def" [], hidden⟩

theorem traced_methodReports (name : String) (column : Nat) :
    Traced false (methodReports name column []) [methodSpan name column [] [] false] :=
  .method rfl (.token rfl) (.nil false) (.nil false)

/-- `def a(x = f { |y| def b; end }); end`: the parameters of a block stand before the inner
method. -/
theorem traced_method_behind_block :
    Traced false (methodReports "a" 0 ([.reduction "params" []] ++ methodReports "b" 18 []))
      [methodSpan "a" 0 [] ([.reduction "params" []] ++ methodReports "b" 18 []) false,
        methodSpan "b" 18 (methodHead "a" 0 ++ [.reduction "params" []]) [] false] :=
  .method rfl (.token rfl) (.append (.reduction (Plain.of_ending "params" [] (by simp)))
    (traced_methodReports "b" 18)) (.nil false)

theorem method_behind_block_succeeds :
    let b := Builder.ofSource { filename := "a.rb" }
    let reports := methodReports "a" 0 ([.reduction "params" []] ++ methodReports "b" 18 [])
    (∀ result ∈ (b.deliverAll reports).2, ∃ r, result = .ok r) ∧
      b.ClosesOwn (methodSpan "b" 18 (methodHead "a" 0 ++ [.reduction "params" []]) [] false) := by
  intro b reports
  obtain ⟨succeeds, own⟩ := traced_method_behind_block.succeeds_iff { filename := "a.rb" }
  have noneHidden : ∀ d ∈ [methodSpan "a" 0 []
        ([.reduction "params" []] ++ methodReports "b" 18 []) false,
      methodSpan "b" 18 (methodHead "a" 0 ++ [.reduction "params" []]) [] false],
      d.hidden = false := by
    simp [methodSpan]
  exact ⟨succeeds.2 noneHidden, (own noneHidden).1 _ (by simp)⟩

/-- `def a(x = def b; end); end`. -/
theorem traced_method_in_parameters :
    Traced false (methodReports "a" 0 (methodReports "b" 10 []))
      [methodSpan "a" 0 [] (methodReports "b" 10 []) false,
        methodSpan "b" 10 (methodHead "a" 0) [] true] :=
  .method rfl (.token rfl) (traced_methodReports "b" 10) (.nil false)

/-- So definitions that nest properly may be refused: the inner method closes the frame of the
outer one, which then finds none. -/
theorem not_succeeds_of_method_in_parameters :
    ¬ ∀ (source : Source) (reports : List Report) (defs : List DefinitionSpan),
      Traced false reports defs →
      (∀ result ∈ ((Builder.ofSource source).deliverAll reports).2, ∃ r, result = .ok r) ∧
        (∀ d ∈ defs, (Builder.ofSource source).ClosesOwn d) ∧
        ((Builder.ofSource source).deliverAll reports).1.finish = .ok () := by
  intro claimed
  obtain ⟨succeeds, -⟩ := claimed { filename := "a.rb" } _ _ traced_method_in_parameters
  have refused : ((Builder.ofSource { filename := "a.rb" }).deliverAll
      (methodReports "a" 0 (methodReports "b" 10 []))).2[7]? =
        some (.error (.nesting (.nothingOpen .methodDef))) := rfl
  obtain ⟨r, accepted⟩ := succeeds _ (List.mem_of_getElem? refused)
  cases accepted

end RubyNormalForm
