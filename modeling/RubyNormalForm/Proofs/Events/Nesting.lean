import RubyNormalForm.Events.Builder

/-!
# Well-nested streams of events

A grammar reports tokens and reductions one by one. This module says which sequences of
reports are well nested, and proves that such a sequence never violates the stack of open
definitions: every report succeeds, and the stack is afterwards what it was before.

Keywords are names in some stretches of the stream and open definitions in others, so a
sequence is well nested relative to the region it lies in. Each region fixes what the flags
of the comment state must be, and that is the invariant of the induction.
-/

namespace RubyNormalForm

/-- What a grammar reports: a token, or a reduction of values. -/
inductive Report where
  | token (kind text : String) (line column : Nat)
  | reduction (event : String) (args : List Raw)

namespace Builder

/-- Takes one report. -/
def deliver (b : Builder) : Report → Builder × Result Raw
  | .token kind text line column =>
    let (b, r) := b.scan kind text line column
    (b, .ok r)
  | .reduction event args => b.reduce event args

/-- Takes reports in order, also after one that failed. -/
def deliverAll (b : Builder) : List Report → Builder × List (Result Raw)
  | [] => (b, [])
  | report :: rest =>
    let (b, result) := b.deliver report
    let (b, results) := b.deliverAll rest
    (b, result :: results)

theorem deliverAll_cons_fst (b : Builder) (report : Report) (rest : List Report) :
    (b.deliverAll (report :: rest)).1 = ((b.deliver report).1.deliverAll rest).1 := rfl

theorem deliverAll_append (b : Builder) (first second : List Report) :
    b.deliverAll (first ++ second) =
      (((b.deliverAll first).1.deliverAll second).1,
        (b.deliverAll first).2 ++ ((b.deliverAll first).1.deliverAll second).2) := by
  induction first generalizing b with
  | nil => rfl
  | cons report rest ih =>
    simp only [List.cons_append, deliverAll, ih]

end Builder

namespace Event

/-- The reductions that look at their arguments and may reject them. -/
def inspects (event : String) : Bool :=
  isAdd event || isAddStar event ||
    ["args_add_block", "mlhs_add_post", "mrhs_new_from_args", "assoclist_from_args"].contains event

/-- A reduction that does not look at its arguments takes any. -/
theorem value_of_not_inspects {event : String} (blind : inspects event = false) (args : List Raw) :
    ∃ r, value event args = .ok r := by
  simp only [inspects, Bool.or_eq_false_iff] at blind
  obtain ⟨⟨noAdd, noStar⟩, others⟩ := blind
  simp only [List.contains_cons, List.contains_nil, Bool.or_false, Bool.or_eq_false_iff] at others
  obtain ⟨noBlock, noPost, noMrhs, noAssoc⟩ := others
  rw [value]
  cases newListTag? event with
  | some tag => exact ⟨_, rfl⟩
  | none =>
    simp only [noAdd, noStar, noBlock, noPost, noMrhs, noAssoc, Bool.false_eq_true, if_false]
    split
    · exact ⟨_, rfl⟩
    · split
      · exact ⟨_, rfl⟩
      · split <;> exact ⟨_, rfl⟩

end Event

/-- A reduction that completes no definition, reports no error and, if it looks at its
arguments, accepts them. -/
structure Plain (event : String) (args : List Raw) : Prop where
  notError : Event.isError event = false
  notDefinition : DefinitionKind.ofEvent? event = none
  accepted : Event.inspects event = true → ∃ r, Event.value event args = .ok r

theorem Plain.value {event : String} {args : List Raw} (plain : Plain event args) :
    ∃ r, Event.value event args = .ok r := by
  cases looks : Event.inspects event with
  | true => exact plain.accepted looks
  | false => exact Event.value_of_not_inspects looks args

/-- The reductions that end a place where keywords are names take any arguments. -/
theorem Plain.of_ending (event : String) (args : List Raw)
    (ending : event ∈ ["params", "symbol", "dyna_symbol", "alias", "var_alias", "undef"]) :
    Plain event args := by
  have blind : Event.isError event = false ∧ DefinitionKind.ofEvent? event = none ∧
      Event.inspects event = false := by
    revert event
    decide
  refine ⟨blind.1, blind.2.1, ?_⟩
  intro looks
  rw [blind.2.2] at looks
  cases looks

/-- A reduction that completes a definition reports no error, takes any arguments and ends
no place where keywords are names. -/
theorem DefinitionKind.facts_of_ofEvent? {event : String} {kind : DefinitionKind}
    (completes : DefinitionKind.ofEvent? event = some kind) (s : CommentState) :
    Event.isError event = false ∧ Event.inspects event = false ∧ s.leave event = s := by
  have named : event = "class" ∨ event = "sclass" ∨ event = "module" ∨ event = "def" ∨
      event = "defs" := by
    refine Decidable.byContradiction ?_
    intro none
    simp only [not_or] at none
    simp [DefinitionKind.ofEvent?, none] at completes
  obtain rfl | rfl | rfl | rfl | rfl := named <;> exact ⟨by decide, by decide, rfl⟩

/-! ### Runs that succeed -/

/-- From the comment state `s`, every one of the reports succeeds and the state after them
is `t`, whatever else the builder holds. -/
def Passes (s : CommentState) (reports : List Report) (t : CommentState) : Prop :=
  ∀ b : Builder, b.comments = s →
    (∀ result ∈ (b.deliverAll reports).2, ∃ r, result = .ok r) ∧
      (b.deliverAll reports).1.comments = t

namespace Passes

variable {s t u : CommentState}

theorem nil (s : CommentState) : Passes s [] s := by
  intro b hb
  refine ⟨?_, hb⟩
  intro result member
  cases member

theorem append {first second : List Report} (before : Passes s first t)
    (after : Passes t second u) : Passes s (first ++ second) u := by
  intro b hb
  obtain ⟨firstOk, middle⟩ := before b hb
  obtain ⟨secondOk, final⟩ := after _ middle
  rw [Builder.deliverAll_append]
  refine ⟨?_, final⟩
  intro result member
  obtain member | member := List.mem_append.1 member
  · exact firstOk result member
  · exact secondOk result member

/-- A report that always succeeds and changes the comments in one way. -/
theorem single {report : Report}
    (step : ∀ b : Builder, b.comments = s →
      (∃ r, (b.deliver report).2 = .ok r) ∧ (b.deliver report).1.comments = t) :
    Passes s [report] t := by
  intro b hb
  obtain ⟨ok, comments⟩ := step b hb
  refine ⟨?_, comments⟩
  intro result member
  obtain rfl := List.mem_singleton.1 member
  exact ok

theorem token (s : CommentState) (kind text : String) (line column : Nat) :
    Passes s [.token kind text line column] (s.scan kind text) := by
  refine single ?_
  intro b hb
  subst hb
  exact ⟨⟨_, rfl⟩, rfl⟩

theorem reduction {event : String} {args : List Raw} (plain : Plain event args) (s : CommentState) :
    Passes s [.reduction event args] (s.leave event) := by
  refine single ?_
  intro b hb
  subst hb
  obtain ⟨r, value⟩ := plain.value
  simp only [Builder.deliver, Builder.reduce, plain.notError, value, plain.notDefinition]
  exact ⟨⟨r, rfl⟩, rfl⟩

/-- The reduction of a definition closes the frame on top of the stack if the kinds agree. -/
theorem definition {event : String} {kind : DefinitionKind}
    (completes : DefinitionKind.ofEvent? event = some kind) (args : List Raw)
    {text : String} {rest : List Frame} (top : s.frames = ⟨kind, text⟩ :: rest) :
    Passes s [.reduction event args] { s with frames := rest } := by
  obtain ⟨notError, blind, unmoved⟩ := DefinitionKind.facts_of_ofEvent? completes s
  obtain ⟨r, value⟩ := Event.value_of_not_inspects blind args
  refine single ?_
  intro b hb
  subst hb
  simp only [Builder.deliver, Builder.reduce, notError, value, completes, unmoved,
    CommentState.close, top, if_true]
  exact ⟨⟨_, rfl⟩, rfl⟩

end Passes

/-! ### Regions -/

/-- The stretches of a stream, by how keywords are read in them. -/
inductive Region where
  /-- Statements, where keywords open definitions. -/
  | items
  /-- The text of a dynamic symbol, interpolations apart. -/
  | quoted
  /-- After `alias` or `undef`. -/
  | names
  /-- Between `def` and the end of its parameters. -/
  | header
deriving DecidableEq

namespace Region

/-- What the flags are in a region. Inside a dynamic symbol the first interpolation clears
the flag of the symbol early, so nothing is said about that one. -/
def Holds : Region → CommentState → Prop
  | .items, s => s.inSymbol = false ∧ s.inDefHeader = false ∧ s.inAlias = false
  | .quoted, s => s.inDefHeader = false ∧ s.inAlias = false
  | .names, s => s.inSymbol = false ∧ s.inDefHeader = false ∧ s.inAlias = true
  | .header, s => s.inSymbol = false ∧ s.inDefHeader = true ∧ s.inAlias = false

/-- The keywords that begin a definition or a list of method names. -/
def isOpening (word : String) : Bool :=
  ["class", "module", "def", "alias", "undef"].contains word

/-- Whether a token may stand by itself in a region. -/
def admitsToken : Region → (kind text : String) → Bool
  | .items, kind, text => kind != "symbeg" && !(kind == "kw" && isOpening text)
  | .quoted, kind, text => kind != "symbeg" && !(kind == "kw" && isOpening text)
  | .names, kind, _ => kind != "symbeg"
  | .header, kind, _ => kind != "symbeg"

/-- Whether a reduction may stand by itself in a region, which it must not end. -/
def admitsEvent : Region → (event : String) → Bool
  | .items, _ => true
  | .quoted, _ => true
  | .names, event => !(["alias", "var_alias", "undef"].contains event)
  | .header, event => event != "params"

end Region

/-- Whether a report is a token that can be part of a symbol. -/
def Report.isName : Report → Bool
  | .token kind _ _ _ => kind != "embexpr_beg"
  | .reduction _ _ => false

/-- The well-nested sequences of a region. -/
inductive Nested : Region → List Report → Prop
  | nil (region : Region) : Nested region []
  | append {region : Region} {first second : List Report} (before : Nested region first)
      (after : Nested region second) : Nested region (first ++ second)
  | token {region : Region} {kind text : String} {line column : Nat}
      (admitted : region.admitsToken kind text = true) :
      Nested region [.token kind text line column]
  | reduction {region : Region} {event : String} {args : List Raw} (plain : Plain event args)
      (admitted : region.admitsEvent event = true) : Nested region [.reduction event args]
  /-- A symbol. -/
  | symbol {region : Region} {text : String} {line column : Nat} {inside : List Report}
      {args : List Raw} (names : ∀ report ∈ inside, report.isName = true) :
      Nested region (.token "symbeg" text line column :: (inside ++ [.reduction "symbol" args]))
  /-- A symbol in quotes. -/
  | dynamicSymbol {text : String} {line column : Nat} {inside : List Report} {args : List Raw}
      (content : Nested .quoted inside) :
      Nested .items
        (.token "symbeg" text line column :: (inside ++ [.reduction "dyna_symbol" args]))
  /-- An interpolation in a symbol in quotes. -/
  | interpolation {text text' : String} {line column line' column' : Nat} {inside : List Report}
      (code : Nested .items inside) :
      Nested .quoted (.token "embexpr_beg" text line column ::
        (inside ++ [.token "embexpr_end" text' line' column']))
  /-- Method names after `alias` or `undef`. -/
  | methodNames {word event : String} {line column : Nat} {inside : List Report} {args : List Raw}
      (opens : word = "alias" ∨ word = "undef")
      (closes : event = "alias" ∨ event = "var_alias" ∨ event = "undef")
      (names : Nested .names inside) :
      Nested .items (.token "kw" word line column :: (inside ++ [.reduction event args]))
  /-- A class or a module. -/
  | scope {word event : String} {kind : DefinitionKind} {line column : Nat}
      {inside : List Report} {args : List Raw} (notMethod : kind ≠ .methodDef)
      (opens : DefinitionKind.ofKeyword? word = some kind)
      (closes : DefinitionKind.ofEvent? event = some kind) (body : Nested .items inside) :
      Nested .items (.token "kw" word line column :: (inside ++ [.reduction event args]))
  /-- A method. -/
  | method {event : String} {line column : Nat} {header inside : List Report}
      {params args : List Raw} (closes : event = "def" ∨ event = "defs")
      (name : Nested .header header) (body : Nested .items inside) :
      Nested .items (.token "kw" "def" line column ::
        (header ++ .reduction "params" params :: (inside ++ [.reduction event args])))

/-! ### What one report changes -/

namespace CommentState

/-- The stack and the flags are kept, except that the flag of a symbol may be cleared. -/
structure Keeps (s t : CommentState) : Prop where
  frames : t.frames = s.frames
  inDefHeader : t.inDefHeader = s.inDefHeader
  inAlias : t.inAlias = s.inAlias
  inSymbol : t.inSymbol = s.inSymbol ∨ t.inSymbol = false

theorem Keeps.refl (s : CommentState) : Keeps s s :=
  ⟨rfl, rfl, rfl, .inl rfl⟩

theorem Keeps.trans {s t u : CommentState} (first : Keeps s t) (second : Keeps t u) :
    Keeps s u := by
  refine ⟨second.frames.trans first.frames, second.inDefHeader.trans first.inDefHeader,
    second.inAlias.trans first.inAlias, ?_⟩
  obtain same | cleared := second.inSymbol
  · rw [same]
    exact first.inSymbol
  · exact .inr cleared

/-- Where keywords are names, a keyword changes nothing. -/
theorem keyword_of_named {s : CommentState} (word : String)
    (named : s.inSymbol = true ∨ s.inDefHeader = true ∨ s.inAlias = true) :
    s.keyword word = s := by
  obtain ⟨pending, frames, inSymbol, inDefHeader, inAlias⟩ := s
  rw [keyword]
  split
  · rename_i opens
    simp only [Bool.and_eq_true, Bool.not_eq_true'] at opens
    obtain named | named | named := named
    · exact absurd named (by simp [opens.1.2])
    · exact absurd named (by simp [opens.2])
    · simp only at named
      rw [named]
  · cases DefinitionKind.ofKeyword? word with
    | none => rfl
    | some kind => rcases named with named | named | named <;> simp only at named <;> simp [named]

/-- A keyword that begins nothing changes nothing. -/
theorem keyword_of_not_isOpening {s : CommentState} {word : String}
    (plain : Region.isOpening word = false) : s.keyword word = s := by
  simp only [Region.isOpening, List.contains_cons, List.contains_nil, Bool.or_false,
    Bool.or_eq_false_iff] at plain
  obtain ⟨noClass, noModule, noDef, noAlias, noUndef⟩ := plain
  simp [keyword, DefinitionKind.ofKeyword?, noClass, noModule, noDef, noAlias, noUndef]

/-- A token that begins no symbol, and whose keyword changes nothing, keeps the state. -/
theorem keeps_scan {s : CommentState} {kind text : String} (notSymbol : kind ≠ "symbeg")
    (still : kind = "kw" → s.keyword text = s) : Keeps s (s.scan kind text) := by
  rw [scan]
  split
  · exact ⟨rfl, rfl, rfl, .inl rfl⟩
  · split
    · rename_i isKeyword
      rw [still (eq_of_beq isKeyword)]
      exact Keeps.refl s
    · split
      · rename_i isSymbol
        exact absurd (eq_of_beq isSymbol) notSymbol
      · split
        · exact ⟨rfl, rfl, rfl, .inr rfl⟩
        · exact Keeps.refl s

/-- Inside a symbol, no token but the start of an interpolation changes stack or flags. -/
theorem keeps_scan_of_inSymbol {s : CommentState} {kind text : String}
    (inside : s.inSymbol = true) (notCode : kind ≠ "embexpr_beg") :
    Keeps s (s.scan kind text) ∧ (s.scan kind text).inSymbol = true := by
  rw [scan]
  split
  · exact ⟨⟨rfl, rfl, rfl, .inl rfl⟩, inside⟩
  · split
    · rw [keyword_of_named text (.inl inside)]
      exact ⟨Keeps.refl s, inside⟩
    · split
      · exact ⟨⟨rfl, rfl, rfl, .inl inside.symm⟩, rfl⟩
      · split
        · rename_i isCode
          exact absurd (eq_of_beq isCode) notCode
        · exact ⟨Keeps.refl s, inside⟩

end CommentState

namespace Region

variable {region : Region} {s t : CommentState}

theorem Holds.of_keeps (holds : region.Holds s) (keeps : s.Keeps t) : region.Holds t := by
  obtain ⟨-, sameHeader, sameAlias, symbol⟩ := keeps
  have cleared : s.inSymbol = false → t.inSymbol = false := by
    intro before
    obtain same | after := symbol
    · rw [same, before]
    · exact after
  cases region with
  | items => exact ⟨cleared holds.1, sameHeader.trans holds.2.1, sameAlias.trans holds.2.2⟩
  | quoted => exact ⟨sameHeader.trans holds.1, sameAlias.trans holds.2⟩
  | names => exact ⟨cleared holds.1, sameHeader.trans holds.2.1, sameAlias.trans holds.2.2⟩
  | header => exact ⟨cleared holds.1, sameHeader.trans holds.2.1, sameAlias.trans holds.2.2⟩

/-- A token that may stand among statements keeps any state. -/
theorem keeps_scan_of_admitsToken {kind text : String}
    (admitted : Region.items.admitsToken kind text = true) : s.Keeps (s.scan kind text) := by
  simp only [admitsToken, Bool.and_eq_true, bne_iff_ne, ne_eq, Bool.not_eq_true',
    Bool.and_eq_false_iff, beq_eq_false_iff_ne] at admitted
  refine CommentState.keeps_scan admitted.1 ?_
  intro isKeyword
  obtain other | plain := admitted.2
  · exact absurd isKeyword other
  · exact CommentState.keyword_of_not_isOpening plain

theorem Holds.keeps_scan (holds : region.Holds s) {kind text : String}
    (admitted : region.admitsToken kind text = true) : s.Keeps (s.scan kind text) := by
  cases region with
  | items | quoted => exact keeps_scan_of_admitsToken admitted
  | names =>
    refine CommentState.keeps_scan (by simpa [admitsToken] using admitted) ?_
    intro _
    exact CommentState.keyword_of_named text (.inr (.inr holds.2.2))
  | header =>
    refine CommentState.keeps_scan (by simpa [admitsToken] using admitted) ?_
    intro _
    exact CommentState.keyword_of_named text (.inr (.inl holds.2.1))

/-- Among statements, the keyword of a definition opens it. -/
theorem Holds.scan_keyword (holds : Region.items.Holds s) {word : String} {kind : DefinitionKind}
    (opens : DefinitionKind.ofKeyword? word = some kind) :
    s.scan "kw" word = s.openFrame kind := by
  have noAlias : (word == "alias" || word == "undef") = false := by
    refine Bool.eq_false_iff.2 ?_
    intro isAlias
    simp only [Bool.or_eq_true, beq_iff_eq] at isAlias
    obtain rfl | rfl := isAlias <;> cases opens
  simp [CommentState.scan, isComment, CommentState.keyword, noAlias, opens, holds.1, holds.2.1,
    holds.2.2]

theorem Holds.keeps_leave (holds : region.Holds s) {event : String}
    (admitted : region.admitsEvent event = true) : s.Keeps (s.leave event) := by
  have headerKept : event = "params" → s.inDefHeader = false := by
    intro isParams
    cases region with
    | items => exact holds.2.1
    | quoted => exact holds.1
    | names => exact holds.2.1
    | header => simp [admitsEvent, isParams] at admitted
  have aliasKept : event = "alias" ∨ event = "var_alias" ∨ event = "undef" →
      s.inAlias = false := by
    intro isAlias
    cases region with
    | items => exact holds.2.2
    | quoted => exact holds.2
    | names => rcases isAlias with rfl | rfl | rfl <;> simp [admitsEvent] at admitted
    | header => exact holds.2.2
  rw [CommentState.leave]
  split
  · rename_i isParams
    exact ⟨rfl, (headerKept (eq_of_beq isParams)).symm, rfl, .inl rfl⟩
  · split
    · exact ⟨rfl, rfl, rfl, .inr rfl⟩
    · split
      · rename_i isAlias
        simp only [Bool.or_eq_true, beq_iff_eq, or_assoc] at isAlias
        exact ⟨rfl, rfl, (aliasKept isAlias).symm, .inl rfl⟩
      · exact CommentState.Keeps.refl s

end Region

/-! ### What a whole sequence changes -/

/-- The tokens of a symbol leave everything as it is. -/
theorem Passes.names {inside : List Report} (names : ∀ report ∈ inside, report.isName = true)
    (s : CommentState) (inSymbol : s.inSymbol = true) :
    ∃ t, Passes s inside t ∧ s.Keeps t := by
  induction inside generalizing s with
  | nil => exact ⟨s, Passes.nil s, CommentState.Keeps.refl s⟩
  | cons report rest ih =>
    cases report with
    | reduction event args => simpa [Report.isName] using names (.reduction event args) (by simp)
    | token kind text line column =>
      have notCode : kind ≠ "embexpr_beg" := by
        simpa [Report.isName] using names (.token kind text line column) (by simp)
      obtain ⟨keeps, still⟩ := CommentState.keeps_scan_of_inSymbol inSymbol notCode
      obtain ⟨t, passes, keeps'⟩ := ih (fun r member => names r (by simp [member])) _ still
      exact ⟨t, (Passes.token s kind text line column).append passes, keeps.trans keeps'⟩

/-- A symbol leaves everything as it is. -/
theorem Passes.symbol {inside : List Report} (names : ∀ report ∈ inside, report.isName = true)
    (s : CommentState) (text : String) (line column : Nat) (args : List Raw) :
    ∃ t, Passes s (.token "symbeg" text line column :: (inside ++ [.reduction "symbol" args])) t ∧
      s.Keeps t := by
  obtain ⟨t, named, kept⟩ := Passes.names names { s with inSymbol := true } rfl
  have closed := Passes.reduction (Plain.of_ending "symbol" args (by simp)) t
  refine ⟨_, (Passes.token s "symbeg" text line column).append (named.append closed), ?_⟩
  exact ⟨kept.frames, kept.inDefHeader, kept.inAlias, .inr rfl⟩

/-- From every state of the region, every report succeeds, and the stack and the flags are
kept. -/
def Region.Sound (region : Region) (reports : List Report) : Prop :=
  ∀ s : CommentState, region.Holds s → ∃ t, Passes s reports t ∧ s.Keeps t

namespace Region.Sound

variable {region : Region} {inside : List Report}

theorem append {first second : List Report} (before : region.Sound first)
    (after : region.Sound second) : region.Sound (first ++ second) := by
  intro s holds
  obtain ⟨t, passes, keeps⟩ := before s holds
  obtain ⟨u, passes', keeps'⟩ := after t (holds.of_keeps keeps)
  exact ⟨u, passes.append passes', keeps.trans keeps'⟩

theorem symbol (names : ∀ report ∈ inside, report.isName = true) (text : String)
    (line column : Nat) (args : List Raw) :
    region.Sound (.token "symbeg" text line column :: (inside ++ [.reduction "symbol" args])) :=
  fun s _ => Passes.symbol names s text line column args

theorem dynamicSymbol (content : Region.quoted.Sound inside) (text : String)
    (line column : Nat) (args : List Raw) :
    Region.items.Sound
      (.token "symbeg" text line column :: (inside ++ [.reduction "dyna_symbol" args])) := by
  intro s holds
  obtain ⟨t, quoted, kept⟩ := content { s with inSymbol := true } holds.2
  have closed := Passes.reduction (Plain.of_ending "dyna_symbol" args (by simp)) t
  refine ⟨_, (Passes.token s "symbeg" text line column).append (quoted.append closed), ?_⟩
  exact ⟨kept.frames, kept.inDefHeader, kept.inAlias, .inr rfl⟩

theorem interpolation (code : Region.items.Sound inside) (text text' : String)
    (line column line' column' : Nat) :
    Region.quoted.Sound (.token "embexpr_beg" text line column ::
      (inside ++ [.token "embexpr_end" text' line' column'])) := by
  intro s holds
  obtain ⟨t, coded, kept⟩ := code { s with inSymbol := false } ⟨rfl, holds⟩
  have closed := Passes.token t "embexpr_end" text' line' column'
  refine ⟨_, (Passes.token s "embexpr_beg" text line column).append (coded.append closed), ?_⟩
  have opened : s.Keeps { s with inSymbol := false } := ⟨rfl, rfl, rfl, .inr rfl⟩
  exact opened.trans kept

theorem methodNames {word event : String} (opens : word = "alias" ∨ word = "undef")
    (closes : event = "alias" ∨ event = "var_alias" ∨ event = "undef")
    (names : Region.names.Sound inside) (line column : Nat) (args : List Raw) :
    Region.items.Sound (.token "kw" word line column :: (inside ++ [.reduction event args])) := by
  intro s holds
  have opened : s.scan "kw" word = { s with inAlias := true } := by
    obtain rfl | rfl := opens <;>
      simp [CommentState.scan, isComment, CommentState.keyword, holds.1, holds.2.1]
  obtain ⟨t, named, kept⟩ := names { s with inAlias := true } ⟨holds.1, holds.2.1, rfl⟩
  have left : t.leave event = { t with inAlias := false } := by
    obtain rfl | rfl | rfl := closes <;> rfl
  have started := Passes.token s "kw" word line column
  rw [opened] at started
  have closed := Passes.reduction (Plain.of_ending event args (by simp [closes])) t
  rw [left] at closed
  refine ⟨_, started.append (named.append closed), ?_⟩
  exact ⟨kept.frames, kept.inDefHeader, holds.2.2.symm, kept.inSymbol⟩

/-- In the body of a class or a module keywords open definitions, and the frame on top holds
what was waiting before. -/
theorem enterScope {word : String} {kind : DefinitionKind} (body : Region.items.Sound inside)
    (notMethod : kind ≠ .methodDef) (opens : DefinitionKind.ofKeyword? word = some kind)
    (line column : Nat) {s : CommentState} (holds : Region.items.Holds s) :
    ∃ t, Passes s (.token "kw" word line column :: inside) t ∧ Region.items.Holds t ∧
      t.frames = ⟨kind, s.pending⟩ :: s.frames := by
  have begins : Region.items.Holds (s.openFrame kind) := by
    refine ⟨holds.1, ?_, holds.2.2⟩
    simp [CommentState.openFrame, holds.2.1, notMethod]
  obtain ⟨t, bodied, kept⟩ := body _ begins
  have started := Passes.token s "kw" word line column
  rw [holds.scan_keyword opens] at started
  exact ⟨t, started.append bodied, begins.of_keeps kept, kept.frames⟩

/-- In the body of a method keywords open definitions, and the frame on top holds what was
waiting before. -/
theorem enterMethod {header : List Report} (name : Region.header.Sound header)
    (body : Region.items.Sound inside) (line column : Nat) (params : List Raw)
    {s : CommentState} (holds : Region.items.Holds s) :
    ∃ t, Passes s (.token "kw" "def" line column ::
        (header ++ .reduction "params" params :: inside)) t ∧ Region.items.Holds t ∧
      t.frames = ⟨.methodDef, s.pending⟩ :: s.frames := by
  have starts : Region.header.Holds (s.openFrame .methodDef) :=
    ⟨holds.1, by simp [CommentState.openFrame], holds.2.2⟩
  obtain ⟨t, headed, kept⟩ := name _ starts
  have begins : Region.items.Holds (t.leave "params") :=
    ⟨(starts.of_keeps kept).1, rfl, (starts.of_keeps kept).2.2⟩
  obtain ⟨u, bodied, kept'⟩ := body _ begins
  have started := Passes.token s "kw" "def" line column
  rw [holds.scan_keyword rfl] at started
  have parameters := Passes.reduction (Plain.of_ending "params" params (by simp)) t
  exact ⟨u, started.append (headed.append (parameters.append bodied)), begins.of_keeps kept',
    kept'.frames.trans kept.frames⟩

theorem scope {word event : String} {kind : DefinitionKind} (notMethod : kind ≠ .methodDef)
    (opens : DefinitionKind.ofKeyword? word = some kind)
    (closes : DefinitionKind.ofEvent? event = some kind) (body : Region.items.Sound inside)
    (line column : Nat) (args : List Raw) :
    Region.items.Sound (.token "kw" word line column :: (inside ++ [.reduction event args])) := by
  intro s holds
  obtain ⟨t, entered, there, top⟩ := body.enterScope notMethod opens line column holds
  have closed := Passes.definition closes args top
  refine ⟨_, entered.append closed, ?_⟩
  exact ⟨rfl, there.2.1.trans holds.2.1.symm, there.2.2.trans holds.2.2.symm, .inr there.1⟩

theorem method {event : String} (closes : event = "def" ∨ event = "defs") {header : List Report}
    (name : Region.header.Sound header) (body : Region.items.Sound inside) (line column : Nat)
    (params args : List Raw) :
    Region.items.Sound (.token "kw" "def" line column ::
      (header ++ .reduction "params" params :: (inside ++ [.reduction event args]))) := by
  intro s holds
  obtain ⟨t, entered, there, top⟩ := name.enterMethod body line column params holds
  have completes : DefinitionKind.ofEvent? event = some .methodDef := by
    obtain rfl | rfl := closes <;> rfl
  have closed := entered.append (Passes.definition completes args top)
  rw [List.cons_append, List.append_assoc, List.cons_append] at closed
  refine ⟨_, closed, ?_⟩
  exact ⟨rfl, there.2.1.trans holds.2.1.symm, there.2.2.trans holds.2.2.symm, .inr there.1⟩

end Region.Sound

/-- Every report of a well-nested sequence succeeds, and the stack and the flags are kept. -/
theorem Nested.sound {region : Region} {reports : List Report} (nested : Nested region reports) :
    region.Sound reports := by
  induction nested with
  | nil region =>
    intro s _
    exact ⟨s, Passes.nil s, CommentState.Keeps.refl s⟩
  | append _ _ before after => exact before.append after
  | token admitted =>
    intro s holds
    exact ⟨_, Passes.token s _ _ _ _, holds.keeps_scan admitted⟩
  | reduction plain admitted =>
    intro s holds
    exact ⟨_, Passes.reduction plain s, holds.keeps_leave admitted⟩
  | symbol names => exact Region.Sound.symbol names _ _ _ _
  | dynamicSymbol _ content => exact Region.Sound.dynamicSymbol content _ _ _ _
  | interpolation _ code => exact Region.Sound.interpolation code _ _ _ _ _ _
  | methodNames opens closes _ names => exact Region.Sound.methodNames opens closes names _ _ _
  | scope notMethod opens closes _ body =>
    exact Region.Sound.scope notMethod opens closes body _ _ _
  | method closes _ _ name body => exact Region.Sound.method closes name body _ _ _ _

/-- A well-nested sequence of reports, taken where no keyword is a name, never violates the
stack of definitions: every report succeeds, no flag is left set, the stack is exactly what it
was, and so the stream may end after the sequence just when it could have ended before. -/
theorem Nested.deliverAll_keeps_stack {reports : List Report} (nested : Nested .items reports)
    (b : Builder) (noSymbol : b.comments.inSymbol = false)
    (noHeader : b.comments.inDefHeader = false) (noAlias : b.comments.inAlias = false) :
    (∀ result ∈ (b.deliverAll reports).2, ∃ r, result = .ok r) ∧
      (b.deliverAll reports).1.comments.inSymbol = false ∧
      (b.deliverAll reports).1.comments.inDefHeader = false ∧
      (b.deliverAll reports).1.comments.inAlias = false ∧
      (b.deliverAll reports).1.comments.frames = b.comments.frames ∧
      (b.deliverAll reports).1.finish = b.finish := by
  have holds : Region.items.Holds b.comments := ⟨noSymbol, noHeader, noAlias⟩
  obtain ⟨t, passes, keeps⟩ := nested.sound b.comments holds
  obtain ⟨succeeds, ends⟩ := passes b rfl
  have after : Region.items.Holds t := holds.of_keeps keeps
  refine ⟨succeeds, ?_⟩
  simp only [Builder.finish, CommentState.finish, CommentState.depth, ends, keeps.frames]
  exact ⟨after.1, after.2.1, after.2.2, trivial, trivial⟩

/-- A class under a comment, with a method that is named by a keyword and holds the symbol
of another. -/
def namedByKeywords : List Report :=
  [.token "comment" "# A\n" 1 0] ++
    .token "kw" "class" 2 0 ::
      ((.token "kw" "def" 3 2 ::
        ([.token "kw" "class" 3 6] ++ .reduction "params" [] ::
          ((.token "symbeg" ":" 4 4 :: ([.token "kw" "def" 4 5] ++ [.reduction "symbol" []])) ++
            [.reduction "def" []]))) ++
        [.reduction "class" []])

theorem nested_namedByKeywords : Nested .items namedByKeywords := by
  refine .append (.token rfl) (.scope (by decide) rfl rfl ?_)
  refine .method (.inl rfl) (.token rfl) (.symbol ?_)
  simp [Report.isName]

theorem deliverAll_namedByKeywords :
    let b : Builder := { filename := "a.rb", lineOffset := 0 }
    (∀ result ∈ (b.deliverAll namedByKeywords).2, ∃ r, result = .ok r) ∧
      (b.deliverAll namedByKeywords).1.finish = .ok () := by
  intro b
  have kept := nested_namedByKeywords.deliverAll_keeps_stack b rfl rfl rfl
  exact ⟨kept.1, kept.2.2.2.2.2⟩

end RubyNormalForm
