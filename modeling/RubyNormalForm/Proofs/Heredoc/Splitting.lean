import RubyNormalForm.Proofs.Heredoc

/-!
# Where a body is divided

The text between two interpolations may come in one part or in several. As long as it is divided
after newlines only, dedenting does not see where: a part that ends in a newline leaves the passes
in the state in which they would be inside one text, and its last line does not run into what
follows.

A body is compared with others through its `flow`, the characters and interpolations in order.
Every body that is divided at line ends is dedented like the coarsest one of its flow.
-/

namespace RubyNormalForm.Heredoc

/-! ### Lines of a joined text -/

theorem CutIntoLines.ends_all {text : List Char} {lines : List (List Char)}
    (cut : CutIntoLines text lines) (ends : endsLine text = true) :
    ∀ line ∈ lines, endsLine line = true := by
  obtain rfl | ⟨first, last, rfl⟩ := lines.eq_nil_or_concat'
  · simp
  · have isLast : endsLine last = true := by
      have present : last ≠ [] := cut.present last (by simp)
      have whole := cut.whole
      rw [List.flatten_append, List.flatten_singleton] at whole
      rwa [← whole, endsLine, List.getLast?_append_of_ne_nil _ present] at ends
    have others := cut.ends
    rw [List.dropLast_concat] at others
    simpa [or_imp, forall_and] using ⟨others, isLast⟩

theorem linePieces_ne_nil {text : List Char} (present : text ≠ []) : linePieces text ≠ [] := by
  intro none
  have whole := (cutIntoLines text).whole
  rw [none] at whole
  exact present whole.symm

theorem ne_nil_of_endsLine {text : List Char} (ends : endsLine text = true) : text ≠ [] := by
  rintro rfl
  cases ends

/-- After a newline the lines of a text are cut as if they stood by themselves. -/
theorem linePieces_append {a : List Char} (ends : endsLine a = true) (b : List Char) :
    linePieces (a ++ b) = linePieces a ++ linePieces b := by
  induction a with
  | nil => cases ends
  | cons c rest ih =>
    cases rest with
    | nil =>
      have isNewline : c = '\n' := by simpa [endsLine] using ends
      simp [isNewline, linePieces]
    | cons d rest =>
      have following : endsLine (d :: rest) = true := by
        rwa [endsLine, List.getLast?_cons_cons] at ends
      have inner := ih following
      rw [List.cons_append, linePieces, linePieces, inner]
      split
      · rfl
      · cases lines : linePieces (d :: rest) with
        | nil => exact absurd lines (linePieces_ne_nil (by simp))
        | cons line others => rfl

/-- Lines that all end in a newline are measured by themselves, whatever follows them. -/
theorem lineWidths_append (atStart beforeCode : Bool) {lines : List (List Char)}
    (present : lines ≠ []) (ends : ∀ line ∈ lines, endsLine line = true)
    (more : List (List Char)) :
    lineWidths atStart beforeCode (lines ++ more) =
      lineWidths atStart false lines ++ lineWidths true beforeCode more := by
  induction lines generalizing atStart with
  | nil => exact absurd rfl present
  | cons line rest ih =>
    obtain ⟨isEnd, others⟩ := List.forall_mem_cons.1 ends
    -- a line that ends in a newline never runs into an interpolation
    have alone : lineWidths true beforeCode (rest ++ more) =
        lineWidths true false rest ++ lineWidths true beforeCode more := by
      cases rest with
      | nil => rfl
      | cons next rest => exact ih true (by simp) others
    simp only [List.cons_append, lineWidths, isEnd, alone, Bool.not_true, Bool.and_false,
      Bool.false_and, Bool.or_false, List.append_assoc]

theorem stripPieces_append (width : Nat) (atStart : Bool) {lines : List (List Char)}
    (present : lines ≠ []) (more : List (List Char)) :
    stripPieces width atStart (lines ++ more) =
      stripPieces width atStart lines ++ stripPieces width true more := by
  induction lines generalizing atStart with
  | nil => exact absurd rfl present
  | cons line rest ih =>
    have others : stripPieces width true (rest ++ more) =
        stripPieces width true rest ++ stripPieces width true more := by
      cases rest with
      | nil => rfl
      | cons next rest => exact ih true (by simp)
    simp only [List.cons_append, stripPieces, others, List.append_assoc]

theorem startAfter_of_endsLine (atStart : Bool) {text : List Char} (ends : endsLine text = true) :
    startAfter atStart text = true := by
  rw [startAfter, List.isEmpty_eq_false_iff.2 (ne_nil_of_endsLine ends), ends]
  rfl

theorem startAfter_append (atStart : Bool) (a b : List Char) :
    startAfter atStart (a ++ b) = startAfter (startAfter atStart a) b := by
  cases b with
  | nil => simp [startAfter]
  | cons c rest => simp [startAfter, endsLine]

theorem length_stripBody (width : Nat) (atStart : Bool) (body : List (Option (List Char))) :
    (stripBody width atStart body).length = body.length := by
  induction body generalizing atStart with
  | nil => rfl
  | cons part rest ih => cases part <;> simp [stripBody, ih]

/-! ### Dividing one text -/

section Divided

variable {a : List Char} (ends : endsLine a = true) (b : List Char)
include ends

theorem lineWidths_divided (atStart beforeCode : Bool) :
    lineWidths atStart beforeCode (linePieces (a ++ b)) =
      lineWidths atStart false (linePieces a) ++ lineWidths true beforeCode (linePieces b) := by
  rw [linePieces_append ends, lineWidths_append atStart beforeCode
    (linePieces_ne_nil (ne_nil_of_endsLine ends)) ((cutIntoLines a).ends_all ends)]

theorem stripPieces_divided (width : Nat) (atStart : Bool) :
    stripPieces width atStart (linePieces (a ++ b)) =
      stripPieces width atStart (linePieces a) ++ stripPieces width true (linePieces b) := by
  rw [linePieces_append ends,
    stripPieces_append width atStart (linePieces_ne_nil (ne_nil_of_endsLine ends))]

theorem startAfter_divided (atStart : Bool) :
    startAfter atStart (a ++ b) = startAfter true b := by
  rw [startAfter_append, startAfter_of_endsLine atStart ends]

/-- The first pass measures the same lines in a text and in the two parts of it. -/
theorem bodyWidths_divided (atStart : Bool) (rest : List (Option (List Char))) :
    bodyWidths atStart (some a :: some b :: rest) = bodyWidths atStart (some (a ++ b) :: rest) := by
  have follows : (some (some b) == some (none : Option (List Char))) = false := rfl
  simp only [bodyWidths, List.head?_cons, follows, startAfter_of_endsLine atStart ends,
    lineWidths_divided ends, startAfter_divided ends, List.append_assoc]

/-- The first pass sees no difference between a body and one in which a text is divided. -/
theorem bodyWidths_divided_in (before after : List (Option (List Char))) (atStart : Bool) :
    bodyWidths atStart (before ++ some a :: some b :: after) =
      bodyWidths atStart (before ++ some (a ++ b) :: after) := by
  induction before generalizing atStart with
  | nil => exact bodyWidths_divided ends b atStart after
  | cons part rest ih =>
    cases part with
    | none => simp only [List.cons_append, bodyWidths, ih]
    | some text =>
      have head : ((rest ++ some a :: some b :: after).head? == some none) =
          ((rest ++ some (a ++ b) :: after).head? == some none) := by
        cases rest <;> rfl
      simp only [List.cons_append, bodyWidths, ih, head]

/-- The second pass leaves the same of a text as of the two parts of it, and the same of everything
around them. -/
theorem exists_stripBody_divided (before after : List (Option (List Char))) (width : Nat)
    (atStart : Bool) :
    ∃ before' after' a' b', before'.length = before.length ∧ after'.length = after.length ∧
      stripBody width atStart (before ++ some (a ++ b) :: after) =
        before' ++ some (a' ++ b') :: after' ∧
      stripBody width atStart (before ++ some a :: some b :: after) =
        before' ++ some a' :: some b' :: after' := by
  induction before generalizing atStart with
  | nil =>
    refine ⟨[], stripBody width (startAfter true b) after, stripPieces width atStart (linePieces a),
      stripPieces width true (linePieces b), rfl, length_stripBody _ _ _, ?_, ?_⟩
    · simp only [List.nil_append, stripBody, stripPieces_divided ends, startAfter_divided ends]
    · simp only [List.nil_append, stripBody, startAfter_of_endsLine atStart ends]
  | cons part rest ih =>
    cases part with
    | none =>
      obtain ⟨before', after', a', b', length, length', whole, divided⟩ := ih false
      refine ⟨none :: before', after', a', b', by simp [length], length', ?_, ?_⟩
      · simp only [List.cons_append, stripBody, whole]
      · simp only [List.cons_append, stripBody, divided]
    | some text =>
      obtain ⟨before', after', a', b', length, length', whole, divided⟩ :=
        ih (startAfter atStart text)
      refine ⟨some (stripPieces width atStart (linePieces text)) :: before', after', a', b',
        by simp [length], length', ?_, ?_⟩
      · simp only [List.cons_append, stripBody, whole]
      · simp only [List.cons_append, stripBody, divided]

theorem exists_dedentChars_divided (before after : List (Option (List Char))) :
    ∃ before' after' a' b', before'.length = before.length ∧ after'.length = after.length ∧
      dedentChars (before ++ some (a ++ b) :: after) = before' ++ some (a' ++ b') :: after' ∧
      dedentChars (before ++ some a :: some b :: after) =
        before' ++ some a' :: some b' :: after' := by
  rw [dedentChars, dedentChars, bodyWidths_divided_in ends]
  split
  · exact ⟨before, after, a, b, rfl, rfl, rfl, rfl⟩
  · split
    · exact ⟨before, after, a, b, rfl, rfl, rfl, rfl⟩
    · exact exists_stripBody_divided ends b before after _ true

end Divided

/-! ### The flow of a body -/

/-- A body as one sequence of characters and interpolations. -/
def flow (body : List (Option (List Char))) : List (Option Char) :=
  body.flatMap fun part => part.elim [none] (·.map some)

@[simp] theorem flow_code (rest : List (Option (List Char))) :
    flow (none :: rest) = none :: flow rest := rfl

@[simp] theorem flow_text (text : List Char) (rest : List (Option (List Char))) :
    flow (some text :: rest) = text.map some ++ flow rest := rfl

/-- Texts are divided at line ends only: one that another text follows is empty or ends in a
newline. -/
def DividedAtLineEnds : List (Option (List Char)) → Prop
  | [] => True
  | none :: rest => DividedAtLineEnds rest
  | some text :: rest =>
    ((∃ next, rest.head? = some (some next)) → text = [] ∨ endsLine text = true) ∧
      DividedAtLineEnds rest

/-- Puts a text before a body, joined with a text at its front. -/
def joinText (text : List Char) : List (Option (List Char)) → List (Option (List Char))
  | some next :: rest => some (text ++ next) :: rest
  | rest => some text :: rest

/-- The coarsest body of a flow: no text is empty, and none follows another. -/
def partsOf : List (Option Char) → List (Option (List Char))
  | [] => []
  | none :: rest => none :: partsOf rest
  | some c :: rest => joinText [c] (partsOf rest)

@[simp] theorem flow_joinText (text : List Char) (rest : List (Option (List Char))) :
    flow (joinText text rest) = text.map some ++ flow rest := by
  unfold joinText
  split <;> simp

@[simp] theorem flow_partsOf (parts : List (Option Char)) : flow (partsOf parts) = parts := by
  induction parts with
  | nil => rfl
  | cons part rest ih => cases part <;> simp [partsOf, ih]

theorem joinText_joinText (a b : List Char) (rest : List (Option (List Char))) :
    joinText a (joinText b rest) = joinText (a ++ b) rest := by
  cases rest with
  | nil => rfl
  | cons part rest => cases part <;> simp [joinText]

theorem partsOf_text {text : List Char} (present : text ≠ []) (rest : List (Option Char)) :
    partsOf (text.map some ++ rest) = joinText text (partsOf rest) := by
  induction text with
  | nil => exact absurd rfl present
  | cons c text ih =>
    cases text with
    | nil => rfl
    | cons d text =>
      rw [List.map_cons, List.cons_append, partsOf, ih (by simp), joinText_joinText]
      rfl

/-- Before an interpolation, or at the end, a text stays by itself. -/
theorem joinText_partsOf_flow (text : List Char) {rest : List (Option (List Char))}
    (alone : ¬ ∃ next, rest.head? = some (some next)) :
    joinText text (partsOf (flow rest)) = some text :: partsOf (flow rest) ∧
      (partsOf (flow rest)).head? = rest.head? := by
  match rest with
  | [] => exact ⟨rfl, rfl⟩
  | none :: rest => exact ⟨rfl, rfl⟩
  | some next :: rest => exact absurd ⟨next, rfl⟩ alone

section LineEnd

variable {text : List Char} (ends : endsLine text = true) (rest : List (Option (List Char)))
include ends

/-- A text that ends in a newline is measured by itself, joined or not. -/
theorem bodyWidths_joinText (atStart : Bool) :
    bodyWidths atStart (joinText text rest) =
      lineWidths atStart false (linePieces text) ++ bodyWidths true rest := by
  have alone (beforeCode : Bool) : lineWidths atStart beforeCode (linePieces text) =
      lineWidths atStart false (linePieces text) := by
    have divided := lineWidths_divided ends [] atStart beforeCode
    simpa [linePieces, lineWidths] using divided
  unfold joinText
  split
  · rename_i next rest
    rw [← bodyWidths_divided ends, bodyWidths, startAfter_of_endsLine atStart ends]
    rfl
  · rw [bodyWidths, alone, startAfter_of_endsLine atStart ends]

theorem flow_stripBody_joinText (width : Nat) (atStart : Bool) :
    flow (stripBody width atStart (joinText text rest)) =
      (stripPieces width atStart (linePieces text)).map some ++
        flow (stripBody width true rest) := by
  unfold joinText
  split
  · simp only [stripBody, stripPieces_divided ends, startAfter_divided ends, flow_text,
      List.map_append, List.append_assoc]
  · simp only [stripBody, startAfter_of_endsLine atStart ends, flow_text]

end LineEnd

/-- The first pass measures the coarsest body of the flow. -/
theorem bodyWidths_partsOf {body : List (Option (List Char))} (divided : DividedAtLineEnds body)
    (atStart : Bool) : bodyWidths atStart (partsOf (flow body)) = bodyWidths atStart body := by
  induction body generalizing atStart with
  | nil => rfl
  | cons part rest ih =>
    cases part with
    | none => rw [flow_code, partsOf, bodyWidths, bodyWidths, ih divided]
    | some text =>
      obtain ⟨lineEnd, others⟩ := divided
      obtain rfl | present := eq_or_ne text []
      · exact ih others atStart
      · rw [flow_text, partsOf_text present]
        by_cases followed : ∃ next, rest.head? = some (some next)
        · have ends := (lineEnd followed).resolve_left present
          have notCode : (rest.head? == some none) = false := by
            obtain ⟨next, isNext⟩ := followed
            rw [isNext]
            rfl
          rw [bodyWidths_joinText ends, ih others, bodyWidths, notCode,
            startAfter_of_endsLine atStart ends]
        · obtain ⟨joined, head⟩ := joinText_partsOf_flow text followed
          rw [joined, bodyWidths, bodyWidths, head, ih others]

/-- The second pass leaves the same of the coarsest body of the flow. -/
theorem flow_stripBody_partsOf {body : List (Option (List Char))}
    (divided : DividedAtLineEnds body) (width : Nat) (atStart : Bool) :
    flow (stripBody width atStart (partsOf (flow body))) =
      flow (stripBody width atStart body) := by
  induction body generalizing atStart with
  | nil => rfl
  | cons part rest ih =>
    cases part with
    | none => rw [flow_code, partsOf, stripBody, stripBody, flow_code, flow_code, ih divided]
    | some text =>
      obtain ⟨lineEnd, others⟩ := divided
      obtain rfl | present := eq_or_ne text []
      · exact ih others atStart
      · rw [flow_text, partsOf_text present]
        by_cases followed : ∃ next, rest.head? = some (some next)
        · have ends := (lineEnd followed).resolve_left present
          rw [flow_stripBody_joinText ends, ih others, stripBody, flow_text,
            startAfter_of_endsLine atStart ends]
        · obtain ⟨joined, -⟩ := joinText_partsOf_flow text followed
          rw [joined, stripBody, stripBody, flow_text, flow_text, ih others]

/-- What dedenting leaves depends on the flow of the body alone. -/
theorem flow_dedentChars {body : List (Option (List Char))} (divided : DividedAtLineEnds body) :
    flow (dedentChars body) = flow (dedentChars (partsOf (flow body))) := by
  rw [dedentChars, dedentChars, bodyWidths_partsOf divided]
  split
  · rw [flow_partsOf]
  · split
    · rw [flow_partsOf]
    · rw [flow_stripBody_partsOf divided]

/-! ### Dedenting -/

/-- Dedenting does not depend on where a body is divided at line ends. A text `a ++ b` and its
parts `a` and `b`, where `a` ends in a newline, are dedented alike: what is left of the two parts
makes up what is left of the text, and everything before and after them is the same. So any two
bodies with the same flow, each divided at line ends, are dedented to the same flow. -/
theorem dedent_divided_at_line_ends :
    (∀ (before after : List (Option String)) (a b : String), a.toList.getLast? = some '\n' →
      ∃ (before' after' : List (Option String)) (a' b' : String),
        before'.length = before.length ∧ after'.length = after.length ∧
        dedent (before ++ [some (a ++ b)] ++ after) = before' ++ [some (a' ++ b')] ++ after' ∧
        dedent (before ++ [some a, some b] ++ after) = before' ++ [some a', some b'] ++ after') ∧
    ∀ body body' : List (Option String),
      DividedAtLineEnds (body.map (Option.map String.toList)) →
      DividedAtLineEnds (body'.map (Option.map String.toList)) →
      flow (body.map (Option.map String.toList)) = flow (body'.map (Option.map String.toList)) →
      flow ((dedent body).map (Option.map String.toList)) =
        flow ((dedent body').map (Option.map String.toList)) := by
  constructor
  · intro before after a b isEnd
    have ends : endsLine a.toList = true := by rw [endsLine, isEnd, beq_self_eq_true]
    obtain ⟨before', after', a', b', length, length', whole, divided⟩ :=
      exists_dedentChars_divided ends b.toList (before.map (Option.map String.toList))
        (after.map (Option.map String.toList))
    refine ⟨before'.map (Option.map String.ofList), after'.map (Option.map String.ofList),
      String.ofList a', String.ofList b', by simpa using length, by simpa using length', ?_, ?_⟩
    · simp [dedent, whole]
    · simp [dedent, divided]
  · intro body body' divided divided' same
    rw [map_toList_dedent, map_toList_dedent, flow_dedentChars divided, flow_dedentChars divided',
      same]

/-- A body in three parts, and the same with its texts divided after every newline. -/
theorem dedent_divided_around_code :
    let body : List (Option String) := [some "    a\n \n  ", none, some "  b\n   c"]
    let divided : List (Option String) :=
      [some "    a\n", some " \n", some "  ", none, some "", some "  b\n", some "   c"]
    flow (body.map (Option.map String.toList)) = flow (divided.map (Option.map String.toList)) ∧
      flow ((dedent body).map (Option.map String.toList)) =
        flow ((dedent divided).map (Option.map String.toList)) ∧
      dedent divided =
        [some "  a\n", some "\n", some "", none, some "", some "  b\n", some " c"] ∧
      ∃ (before' after' : List (Option String)) (a' b' : String),
        before'.length = 2 ∧ after'.length = 0 ∧
        dedent [some "    a\n \n  ", none, some ("  b\n" ++ "   c")] =
          before' ++ [some (a' ++ b')] ++ after' ∧
        dedent [some "    a\n \n  ", none, some "  b\n", some "   c"] =
          before' ++ [some a', some b'] ++ after' := by
  intro body divided
  have same : flow (body.map (Option.map String.toList)) =
      flow (divided.map (Option.map String.toList)) := by decide
  refine ⟨same, ?_, by decide, ?_⟩
  · refine dedent_divided_at_line_ends.2 body divided ?_ ?_ same
    · simp [body, DividedAtLineEnds]
    · simp [divided, DividedAtLineEnds, endsLine]
  · exact dedent_divided_at_line_ends.1 [some "    a\n \n  ", none] [] "  b\n" "   c" (by decide)

end RubyNormalForm.Heredoc
