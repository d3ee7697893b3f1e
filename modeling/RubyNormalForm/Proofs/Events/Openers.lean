import RubyNormalForm.Proofs.Events.Nesting

/-!
# The literal around a text

Every text inside a literal is marked with the token that opened the literal, because that
token decides how the text is to be read. The builder keeps the openers of the literals around
the current token on a stack. This module says which sequences of reports open and close
literals in pairs, and proves that after such a sequence the stack is what it was before, so
that every text in it is marked with the opener of the innermost literal that is open there.

Which literal that is, is said without a stack: its opener is the last one that is followed by
nothing but paired literals.
-/

namespace RubyNormalForm

/-- The sequences of reports in which every literal that is opened is closed again. Other tokens
and reductions, whether they succeed or not, may stand anywhere. -/
inductive Paired : List Report → Prop
  | nil : Paired []
  | append {first second : List Report} (before : Paired first) (after : Paired second) :
      Paired (first ++ second)
  | token {kind text : String} {line column : Nat} (opensNone : opensLiteral kind text = false)
      (closesNone : closesLiteral kind = false) : Paired [.token kind text line column]
  | reduction (event : String) (args : List Raw) : Paired [.reduction event args]
  | literal {kind text kind' text' : String} {line column line' column' : Nat}
      {content : List Report} (opens : opensLiteral kind text = true)
      (closes : closesLiteral kind' = true) (inside : Paired content) :
      Paired (.token kind text line column :: (content ++ [.token kind' text' line' column']))

/-- The opener of the innermost literal that is open after some reports, if there is one. -/
inductive Innermost : List Report → Option String → Prop
  | outside {before : List Report} (paired : Paired before) : Innermost before none
  | inside {front content : List Report} {kind text : String} {line column : Nat}
      (opens : opensLiteral kind text = true) (paired : Paired content) :
      Innermost (front ++ .token kind text line column :: content) (some text)

/-- The leaf of a text inside a literal with the given opener, or outside all literals. -/
def Raw.textLeaf (text : String) (line column : Nat) (opener : Option String) : Raw :=
  .node "@tstring_content" (.str text :: .pos line column :: (opener.map Raw.str).toList)

/-! ### What reports do to the stack -/

namespace Builder

variable {openers : List String} {kind text : String}

theorem openersAfter_of_opens (opens : opensLiteral kind text = true) :
    openersAfter openers kind text = text :: openers := by
  rw [openersAfter, if_pos opens]

/-- No token both opens and closes a literal. -/
theorem openersAfter_of_closes (closes : closesLiteral kind = true) :
    openersAfter openers kind text = openers.drop 1 := by
  have opensNone : opensLiteral kind text = false := by
    simp only [closesLiteral, List.contains_cons, List.contains_nil, Bool.or_false,
      Bool.or_eq_true, beq_iff_eq] at closes
    obtain rfl | rfl | rfl | rfl := closes <;> rfl
  simp [openersAfter, opensNone, closes]

theorem openersAfter_of_other (opensNone : opensLiteral kind text = false)
    (closesNone : closesLiteral kind = false) : openersAfter openers kind text = openers := by
  simp [openersAfter, opensNone, closesNone]

theorem openers_scan (b : Builder) (kind text : String) (line column : Nat) :
    (b.scan kind text line column).1.openers = openersAfter b.openers kind text := rfl

/-- A reduction opens and closes no literal. -/
theorem openers_reduce (b : Builder) (event : String) (args : List Raw) :
    (b.reduce event args).1.openers = b.openers := by
  rw [reduce]
  split
  · rfl
  · split
    · rfl
    · split <;> rfl

end Builder

/-- Paired literals leave the stack as it was. -/
theorem Paired.openers_eq {reports : List Report} (paired : Paired reports) (b : Builder) :
    (b.deliverAll reports).1.openers = b.openers := by
  induction paired generalizing b with
  | nil => rfl
  | append _ _ before after =>
    rw [Builder.deliverAll_append]
    exact (after _).trans (before b)
  | token opensNone closesNone => exact Builder.openersAfter_of_other opensNone closesNone
  | reduction event args => exact b.openers_reduce event args
  | literal opens closes _ inside =>
    -- The opener is pushed, stays below all that the content pushes, and is popped.
    rw [Builder.deliverAll_cons_fst, Builder.deliverAll_append]
    refine (Builder.openersAfter_of_closes closes).trans ?_
    rw [inside, Builder.deliver, Builder.openers_scan, Builder.openersAfter_of_opens opens]
    rfl

/-- The innermost literal that is open is on top of the stack. What was open before shows only
outside all literals that were opened since. -/
theorem Innermost.head?_openers {before : List Report} {opener : Option String}
    (innermost : Innermost before opener) (b : Builder) :
    (b.deliverAll before).1.openers.head? = opener.or b.openers.head? := by
  cases innermost with
  | outside paired => rw [paired.openers_eq, Option.none_or]
  | @inside front content kind text line column opens paired =>
    rw [Builder.deliverAll_append, Builder.deliverAll_cons_fst, paired.openers_eq, Builder.deliver,
      Builder.openers_scan, Builder.openersAfter_of_opens opens]
    rfl

/-- Only one literal is the innermost one. -/
theorem Innermost.unique {before : List Report} {opener other : Option String}
    (innermost : Innermost before opener) (again : Innermost before other) : other = opener := by
  have first := innermost.head?_openers { filename := "", lineOffset := 0 }
  have second := again.head?_openers { filename := "", lineOffset := 0 }
  simpa [first] using second.symm

/-! ### Places in paired literals -/

/-- Paired literals before a place do not change which literal is open there. -/
theorem Innermost.after {first before : List Report} {opener : Option String}
    (innermost : Innermost before opener) (paired : Paired first) :
    Innermost (first ++ before) opener := by
  cases innermost with
  | outside others => exact .outside (paired.append others)
  | inside opens others =>
    rw [← List.append_assoc]
    exact .inside opens others

/-- In a literal, the literal itself is open where no other one is. -/
theorem Innermost.within {before : List Report} {opener : Option String}
    (innermost : Innermost before opener) {kind text : String}
    (opens : opensLiteral kind text = true) (line column : Nat) :
    Innermost (.token kind text line column :: before) (opener.or (some text)) := by
  cases innermost with
  | outside paired =>
    have first : Innermost ([] ++ .token kind text line column :: before) (some text) :=
      .inside opens paired
    exact first
  | inside opens' paired =>
    rw [← List.cons_append]
    exact .inside opens' paired

/-- At every place in a sequence of paired literals there is an innermost one, or none is open. -/
theorem Paired.exists_innermost {reports before after : List Report} (paired : Paired reports)
    (place : reports = before ++ after) : ∃ opener, Innermost before opener := by
  induction paired generalizing before after with
  | nil =>
    obtain ⟨rfl, -⟩ := List.append_eq_nil_iff.1 place.symm
    exact ⟨none, .outside .nil⟩
  | append isFirst _ inFirst inSecond =>
    obtain ⟨between, rfl, rest⟩ | ⟨between, rest, -⟩ := List.append_eq_append_iff.1 place
    · obtain ⟨opener, innermost⟩ := inSecond rest
      exact ⟨opener, innermost.after isFirst⟩
    · exact inFirst rest
  | token opensNone closesNone =>
    obtain ⟨rfl, -⟩ | ⟨rfl, -⟩ := List.append_eq_singleton_iff.1 place.symm
    · exact ⟨none, .outside .nil⟩
    · exact ⟨none, .outside (.token opensNone closesNone)⟩
  | reduction event args =>
    obtain ⟨rfl, -⟩ | ⟨rfl, -⟩ := List.append_eq_singleton_iff.1 place.symm
    · exact ⟨none, .outside .nil⟩
    · exact ⟨none, .outside (.reduction event args)⟩
  | literal opens closes inside ih =>
    -- The place is before the literal, behind it, or among its content.
    obtain rfl | ⟨start, last, rfl⟩ := List.eq_nil_or_concat after
    · rw [List.append_nil] at place
      rw [← place]
      exact ⟨none, .outside (.literal opens closes inside)⟩
    · cases before with
      | nil => exact ⟨none, .outside .nil⟩
      | cons report rest =>
        rw [List.concat_eq_append, List.cons_append, ← List.append_assoc] at place
        obtain ⟨rfl, same⟩ := List.cons.inj place
        obtain ⟨opener, innermost⟩ := ih (List.append_inj' same rfl).1
        exact ⟨_, innermost.within opens _ _⟩

/-- The result of a report in a sequence depends on the reports before it only. -/
theorem Builder.getElem?_deliverAll (b : Builder) (before after : List Report) (report : Report) :
    (b.deliverAll (before ++ report :: after)).2[before.length]? =
      some ((b.deliverAll before).1.deliver report).2 := by
  have length : ∀ (b : Builder) (reports : List Report),
      (b.deliverAll reports).2.length = reports.length := by
    intro b reports
    induction reports generalizing b with
    | nil => rfl
    | cons report rest ih => simp [deliverAll, ih]
  rw [deliverAll_append, List.getElem?_append_right (Nat.le_of_eq (length b before)), length]
  simp [deliverAll]

/-- In every sequence of paired literals, each text is marked with the opener of the innermost
literal that is open where it stands, and there is exactly one answer to which literal that is.
A text outside all literals of the sequence is marked as before it, so not at all if nothing was
open. The stack is afterwards what it was. -/
theorem Paired.deliverAll_marks_texts {reports : List Report} (paired : Paired reports)
    (b : Builder) :
    (b.deliverAll reports).1.openers = b.openers ∧
      ∀ before text line column after,
        reports = before ++ .token "tstring_content" text line column :: after →
        ∃ opener, Innermost before opener ∧ (∀ other, Innermost before other → other = opener) ∧
          (b.deliverAll reports).2[before.length]? =
            some (.ok (Raw.textLeaf text line column (opener.or b.openers.head?))) := by
  refine ⟨paired.openers_eq b, ?_⟩
  intro before text line column after place
  obtain ⟨opener, innermost⟩ := paired.exists_innermost place
  refine ⟨opener, innermost, fun other again => innermost.unique again, ?_⟩
  rw [place, Builder.getElem?_deliverAll, ← innermost.head?_openers b]
  rfl

/-- The reports of `'b'`. -/
def singleQuoted : List Report :=
  .token "tstring_beg" "'" 1 4 ::
    ([.token "tstring_content" "b" 1 5] ++ [.token "tstring_end" "'" 1 6])

/-- The reports of `a#{'b'}`. -/
def interpolated : List Report :=
  [.token "tstring_content" "a" 1 1] ++ [.token "embexpr_beg" "#\x7b" 1 2] ++ singleQuoted ++
    [.token "embexpr_end" "\x7d" 1 7]

/-- `"a#{'b'}c"`: a literal in the interpolation of another. -/
def literalInLiteral : List Report :=
  .token "tstring_beg" "\x22" 1 0 ::
    ((interpolated ++ [.token "tstring_content" "c" 1 8]) ++ [.token "tstring_end" "\x22" 1 9])

theorem paired_interpolated : Paired interpolated :=
  .append (.append (.append (.token rfl rfl) (.token rfl rfl))
    (.literal rfl rfl (.token rfl rfl))) (.token rfl rfl)

theorem paired_literalInLiteral : Paired literalInLiteral :=
  .literal rfl rfl (.append paired_interpolated (.token rfl rfl))

/-- The text behind the interpolation belongs to the outer literal again. -/
theorem literalInLiteral_marks_texts :
    let b : Builder := { filename := "a.rb", lineOffset := 0 }
    (b.deliverAll literalInLiteral).1.openers = [] ∧
      (b.deliverAll literalInLiteral).2[7]? =
        some (.ok (Raw.textLeaf "c" 1 8 (some "\x22"))) := by
  intro b
  obtain ⟨stack, texts⟩ := paired_literalInLiteral.deliverAll_marks_texts b
  refine ⟨stack, ?_⟩
  obtain ⟨opener, -, only, marked⟩ :=
    texts (.token "tstring_beg" "\x22" 1 0 :: interpolated) "c" 1 8 _ rfl
  have outer : Innermost (.token "tstring_beg" "\x22" 1 0 :: interpolated) (some "\x22") :=
    Innermost.within (.outside paired_interpolated) rfl 1 0
  rw [← only _ outer] at marked
  exact marked

end RubyNormalForm
