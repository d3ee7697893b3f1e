import Mathlib.Data.List.Forall2
import RubyNormalForm.Proofs.Events.Nesting

/-!
# Comments are conserved

Comment tokens arrive one by one, definitions take what has gathered, and completed
definitions hand it out again. This module follows the text through a whole stream of
reports: what the definitions took, in the order in which they were opened, followed by what
is still waiting, is what the tokens brought. Every definition that was opened is either
still open or has handed out its comments exactly once.

Which frames a report opened is read off the stacks before and after it, so the statement
does not depend on how keywords are recognised.
-/

namespace RubyNormalForm

namespace Report

/-- The text that a report adds to the comments; only comment tokens have one. -/
def commentText : Report → String
  | .token kind text _ _ => if isComment kind then text else ""
  | .reduction _ _ => ""

/-- Whether a report completes a definition. -/
def completes : Report → Bool
  | .token _ _ _ _ => false
  | .reduction event _ => (DefinitionKind.ofEvent? event).isSome

end Report

/-- A definition wrapped in the comments of a frame. -/
def Raw.Carries (r : Raw) (frame : Frame) : Prop :=
  ∃ inside, r = .node "comment" [.str frame.text, inside]

namespace Builder

/-- The frames that a report opens. -/
def opens (b : Builder) (report : Report) : List Frame :=
  let after := (b.deliver report).1.comments
  after.frames.take (after.depth - b.comments.depth)

/-- The frames that are opened while reports are taken, in order of opening. -/
def opened (b : Builder) : List Report → List Frame
  | [] => []
  | report :: rest => b.opens report ++ (b.deliver report).1.opened rest

/-- The definition that a report completes. -/
def wraps (b : Builder) (report : Report) : List Raw :=
  match (b.deliver report).2 with
  | .ok r => if report.completes then [r] else []
  | .error _ => []

/-- The definitions that are completed while reports are taken, in order of completion. -/
def wrapped (b : Builder) : List Report → List Raw
  | [] => []
  | report :: rest => b.wraps report ++ (b.deliver report).1.wrapped rest

end Builder

/-! ### What one report changes -/

/-- What a report that gives `r` does to the waiting comments and the open definitions. -/
inductive Moves (report : Report) (r : Raw) (s t : CommentState) : Prop
  /-- Nothing is opened or closed. -/
  | keeps (frames : t.frames = s.frames) (pending : t.pending = s.pending ++ report.commentText)
      (plain : report.completes = false)
  /-- A definition takes what is waiting. -/
  | opens (kind : DefinitionKind) (frames : t.frames = ⟨kind, s.pending⟩ :: s.frames)
      (pending : t.pending = "") (silent : report.commentText = "")
      (plain : report.completes = false)
  /-- The innermost definition is completed. -/
  | closes (frame : Frame) (frames : s.frames = frame :: t.frames)
      (pending : t.pending = s.pending) (silent : report.commentText = "")
      (complete : report.completes = true) (wrapper : r.Carries frame)

/-- A keyword opens at most one definition, and otherwise leaves texts and stack alone. -/
theorem CommentState.keyword_cases (s : CommentState) (word : String) :
    ((s.keyword word).frames = s.frames ∧ (s.keyword word).pending = s.pending) ∨
      ∃ kind, (s.keyword word).frames = ⟨kind, s.pending⟩ :: s.frames ∧
        (s.keyword word).pending = "" := by
  rw [keyword]
  split
  · exact .inl ⟨rfl, rfl⟩
  · split
    · exact .inl ⟨rfl, rfl⟩
    · rename_i kind _
      split
      · exact .inl ⟨rfl, rfl⟩
      · exact .inr ⟨kind, rfl, rfl⟩

/-- The end of a place where keywords are names moves no comment. -/
theorem CommentState.leave_fields (s : CommentState) (event : String) :
    (s.leave event).frames = s.frames ∧ (s.leave event).pending = s.pending := by
  rw [leave]
  split
  · exact ⟨rfl, rfl⟩
  · split
    · exact ⟨rfl, rfl⟩
    · split <;> exact ⟨rfl, rfl⟩

theorem moves_scan (s : CommentState) (kind text : String) (line column : Nat) (r : Raw) :
    Moves (.token kind text line column) r s (s.scan kind text) := by
  rw [CommentState.scan]
  split
  · rename_i comment
    exact .keeps rfl (by simp [CommentState.addComment, Report.commentText, comment]) rfl
  · rename_i other
    have silent : (Report.token kind text line column).commentText = "" := by
      simp [Report.commentText, other]
    split
    · obtain ⟨frames, pending⟩ | ⟨kind, frames, pending⟩ := s.keyword_cases text
      · exact .keeps frames (by simp [pending, silent]) rfl
      · exact .opens kind frames pending silent rfl
    · split
      · exact .keeps rfl (by simp [silent]) rfl
      · split <;> exact .keeps rfl (by simp [silent]) rfl

/-- A definition that is completed hands out the comments of the innermost frame. -/
theorem CommentState.close_eq_ok {s : CommentState} {kind : DefinitionKind} {text : String}
    (closes : (s.close kind).2 = .ok text) :
    ∃ frame : Frame, frame.text = text ∧ s.frames = frame :: (s.close kind).1.frames ∧
      (s.close kind).1.pending = s.pending := by
  unfold close at closes ⊢
  cases stack : s.frames with
  | nil => simp [stack] at closes
  | cons frame rest =>
    by_cases same : frame.kind = kind
    · simp only [stack, same, if_true] at closes ⊢
      exact ⟨frame, Except.ok.inj closes, rfl, trivial⟩
    · simp [stack, same] at closes

/-- Everything a successful report can do to the comments. -/
theorem Builder.moves_deliver {b : Builder} {report : Report} {r : Raw}
    (succeeds : (b.deliver report).2 = .ok r) :
    Moves report r b.comments (b.deliver report).1.comments := by
  cases report with
  | token kind text line column => exact moves_scan b.comments kind text line column r
  | reduction event args =>
    obtain ⟨frames, pending⟩ := b.comments.leave_fields event
    simp only [deliver, reduce] at succeeds ⊢
    cases isError : Event.isError event with
    | true => simp [isError] at succeeds
    | false =>
      cases found : Event.value event args with
      | error e => simp [isError, found] at succeeds
      | ok value =>
        cases completed : DefinitionKind.ofEvent? event with
        | none =>
          simp only [Bool.false_eq_true, if_false]
          exact .keeps frames (by simp [pending, Report.commentText])
            (by simp [Report.completes, completed])
        | some kind =>
          simp only [isError, found, completed, Bool.false_eq_true, if_false] at succeeds ⊢
          cases closes : ((b.comments.leave event).close kind).2 with
          | error e =>
            rw [closes] at succeeds
            cases succeeds
          | ok text =>
            rw [closes] at succeeds
            cases succeeds
            obtain ⟨frame, rfl, popped, waiting⟩ := CommentState.close_eq_ok closes
            exact .closes frame (frames.symm.trans popped) (waiting.trans pending) rfl
              (by simp [Report.completes, completed]) ⟨value, rfl⟩

/-! ### What a stream of reports changes -/

namespace Builder

variable {b : Builder} {report : Report} {r : Raw}

/-- One report: what it opens takes the waiting text, and what it brings waits after it. -/
theorem join_opens (succeeds : (b.deliver report).2 = .ok r) :
    String.join ((b.opens report).map Frame.text) ++ (b.deliver report).1.comments.pending =
      b.comments.pending ++ report.commentText := by
  cases moves_deliver succeeds with
  | keeps frames pending plain => simp [opens, CommentState.depth, frames, pending]
  | opens kind frames pending silent plain =>
    simp [opens, CommentState.depth, frames, pending, silent]
  | closes frame frames pending silent complete wrapper =>
    simp [opens, CommentState.depth, frames, pending, silent]

/-- Every report of a stream succeeds. -/
def Succeeds (b : Builder) (reports : List Report) : Prop :=
  ∀ result ∈ (b.deliverAll reports).2, ∃ r, result = .ok r

theorem succeeds_cons {rest : List Report} :
    b.Succeeds (report :: rest) ↔
      (∃ r, (b.deliver report).2 = .ok r) ∧ (b.deliver report).1.Succeeds rest := by
  simp [Succeeds, deliverAll]

/-- A whole stream: no text is lost, doubled or moved past another. -/
theorem join_opened {reports : List Report} (succeeds : b.Succeeds reports) :
    String.join ((b.opened reports).map Frame.text) ++
        (b.deliverAll reports).1.comments.pending =
      b.comments.pending ++ String.join (reports.map Report.commentText) := by
  induction reports generalizing b with
  | nil => simp [opened, deliverAll]
  | cons report rest ih =>
    obtain ⟨⟨r, first⟩, others⟩ := succeeds_cons.1 succeeds
    have step := join_opens first
    have run := ih others
    calc
      _ = String.join ((b.opens report).map Frame.text) ++
            (String.join (((b.deliver report).1.opened rest).map Frame.text) ++
              ((b.deliver report).1.deliverAll rest).1.comments.pending) := by
          simp [opened, deliverAll, String.append_assoc]
      _ = (String.join ((b.opens report).map Frame.text) ++
            (b.deliver report).1.comments.pending) ++
              String.join (rest.map Report.commentText) := by
          rw [run, String.append_assoc]
      _ = _ := by
          rw [step, String.append_assoc, List.map_cons, String.join_cons]

end Builder

/-! ### Every frame is handed out at most once -/

/-- An account of the frames that were opened, each known by its place in the order of
opening. The definitions handed out carry the frames at the places `owners`, the frames still
on the stack are those at `holders`, and between them each place occurs exactly once. -/
structure Account (opened : List Frame) (handed : List Raw) (stack : List Frame)
    (owners holders : List Nat) : Prop where
  carried : List.Forall₂ (fun r i => ∃ frame, opened[i]? = some frame ∧ r.Carries frame)
    handed owners
  held : List.Forall₂ (fun frame i => opened[i]? = some frame) stack holders
  complete : (owners ++ holders).Perm (List.range opened.length)

namespace Account

variable {opened stack : List Frame} {handed : List Raw} {owners holders : List Nat}

theorem empty : Account [] [] [] [] [] :=
  ⟨.nil, .nil, .nil⟩

/-- A new frame has the next place. -/
theorem opens (account : Account opened handed stack owners holders) (frame : Frame) :
    Account (opened ++ [frame]) handed (frame :: stack) owners (opened.length :: holders) := by
  have still : ∀ {i : Nat} {f : Frame}, opened[i]? = some f → (opened ++ [frame])[i]? = some f := by
    intro i f found
    obtain ⟨inside, -⟩ := List.getElem?_eq_some_iff.1 found
    rw [List.getElem?_append_left inside, found]
  refine ⟨account.carried.imp ?_, .cons (by simp) (account.held.imp ?_), ?_⟩
  · rintro r i ⟨f, found, carries⟩
    exact ⟨f, still found, carries⟩
  · intro f i found
    exact still found
  · rw [List.length_append, List.length_singleton, List.range_succ]
    exact List.perm_middle.trans
      ((account.complete.cons opened.length).trans (List.perm_append_singleton _ _).symm)

/-- The frame on top of the stack passes to the definition that it is handed out with. -/
theorem closes {frame : Frame} (account : Account opened handed (frame :: stack) owners holders)
    {r : Raw} (carries : r.Carries frame) :
    ∃ i rest, Account opened (handed ++ [r]) stack (owners ++ [i]) rest := by
  obtain ⟨carried, held, complete⟩ := account
  cases held with
  | cons found others =>
    rename_i i rest
    refine ⟨i, rest, List.rel_append carried (.cons ⟨frame, found, carries⟩ .nil), others, ?_⟩
    simpa using complete

end Account

namespace Builder

/-- One report carries an account on. -/
theorem account_deliver {b : Builder} {report : Report} {r : Raw}
    (succeeds : (b.deliver report).2 = .ok r) {opened : List Frame} {handed : List Raw}
    {owners holders : List Nat}
    (account : Account opened handed b.comments.frames owners holders) :
    ∃ owners' holders', Account (opened ++ b.opens report) (handed ++ b.wraps report)
      (b.deliver report).1.comments.frames owners' holders' := by
  cases moves_deliver succeeds with
  | keeps frames pending plain =>
    refine ⟨owners, holders, ?_⟩
    simpa [opens, wraps, CommentState.depth, succeeds, frames, plain] using account
  | opens kind frames pending silent plain =>
    refine ⟨owners, opened.length :: holders, ?_⟩
    simpa [opens, wraps, CommentState.depth, succeeds, frames, plain] using
      account.opens ⟨kind, b.comments.pending⟩
  | closes frame frames pending silent complete wrapper =>
    rw [frames] at account
    obtain ⟨i, rest, further⟩ := account.closes wrapper
    refine ⟨owners ++ [i], rest, ?_⟩
    simpa [opens, wraps, CommentState.depth, succeeds, frames, complete] using further

/-- A stream of reports carries an account on. -/
theorem account_deliverAll {b : Builder} {reports : List Report} (succeeds : b.Succeeds reports)
    {opened : List Frame} {handed : List Raw} {owners holders : List Nat}
    (account : Account opened handed b.comments.frames owners holders) :
    ∃ owners' holders', Account (opened ++ b.opened reports) (handed ++ b.wrapped reports)
      (b.deliverAll reports).1.comments.frames owners' holders' := by
  induction reports generalizing b opened handed owners holders with
  | nil => exact ⟨owners, holders, by simpa [Builder.opened, wrapped, deliverAll] using account⟩
  | cons report rest ih =>
    obtain ⟨⟨r, first⟩, others⟩ := succeeds_cons.1 succeeds
    obtain ⟨owners', holders', step⟩ := account_deliver first account
    obtain ⟨owners'', holders'', run⟩ := ih others step
    refine ⟨owners'', holders'', ?_⟩
    simpa [Builder.opened, wrapped, deliverAll] using run

/-- Comments are conserved. In every stream of reports that all succeed, the texts of all the
frames ever opened, in order of opening, followed by what is still waiting, are the texts of
the comment tokens in order. Every definition that was completed is wrapped in the text of
one frame, and no frame is handed out twice: the frames of the completed definitions and
those still on the stack are all the frames, each once. -/
theorem comments_conserved (source : Source) (reports : List Report)
    (succeeds : ∀ result ∈ ((ofSource source).deliverAll reports).2, ∃ r, result = .ok r) :
    String.join (((ofSource source).opened reports).map Frame.text) ++
        ((ofSource source).deliverAll reports).1.comments.pending =
      String.join (reports.map Report.commentText) ∧
    ∃ owners holders, Account ((ofSource source).opened reports)
      ((ofSource source).wrapped reports)
      ((ofSource source).deliverAll reports).1.comments.frames owners holders := by
  constructor
  · have whole := join_opened succeeds
    rwa [show (ofSource source).comments.pending = "" from rfl, String.empty_append] at whole
  · obtain ⟨owners, holders, account⟩ := account_deliverAll succeeds Account.empty
    exact ⟨owners, holders, account⟩

/-- A method under a comment in a class under a comment, with a last comment after both. The
inner frame is opened last and handed out first. -/
def methodInClass : List Report :=
  [.token "comment" "# A\n" 1 0, .token "kw" "class" 2 0, .token "comment" "# b\n" 3 2,
   .token "kw" "def" 4 2, .reduction "params" [], .reduction "def" [], .reduction "class" [],
   .token "comment" "# end\n" 6 0]

theorem methodInClass_conserved :
    let b := ofSource { filename := "a.rb" }
    (∀ result ∈ (b.deliverAll methodInClass).2, ∃ r, result = .ok r) ∧
      b.opened methodInClass = [⟨.classDef, "# A\n"⟩, ⟨.methodDef, "# b\n"⟩] ∧
      String.join ((b.opened methodInClass).map Frame.text) ++
          (b.deliverAll methodInClass).1.comments.pending =
        String.join (methodInClass.map Report.commentText) ∧
      ∃ owners holders, Account (b.opened methodInClass) (b.wrapped methodInClass)
        (b.deliverAll methodInClass).1.comments.frames owners holders := by
  intro b
  have succeeds : b.Succeeds methodInClass := by
    have all : (b.deliverAll methodInClass).2.all Except.isOk = true := by decide
    intro result member
    have isOk := List.all_eq_true.1 all result member
    cases result with
    | ok r => exact ⟨r, rfl⟩
    | error e => cases isOk
  exact ⟨succeeds, by decide, comments_conserved _ methodInClass succeeds⟩

end Builder

end RubyNormalForm
