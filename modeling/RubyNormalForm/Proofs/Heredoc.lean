import Mathlib.Data.List.DropRight
import Mathlib.Data.List.Forall2
import RubyNormalForm.Literal.Heredoc

/-!
# Common indentation

Dedenting makes two passes over a body, one that measures lines and one that strips them, and
each carries a flag for the start of a line from one part to the next. Here both are held to a
single view of the body: its line pieces, each with everything that stands before it. Whether a
piece begins a line is read off what stands before it, so that the passes agree about it, and the
width they share is the least over the pieces that count.

The flags of the passes are `lineBegins` of what has been passed; that invariant carries each
induction over a body. An interpolation leaves no trace in them but that it was there, so that
several in a row are dedented like one.
-/

namespace RubyNormalForm.Heredoc

/-! ### The pieces of a body -/

/-- Whether a line begins after what has been passed, with `none` for an interpolation: nothing
has been, or a newline was the last of it. -/
def lineBegins (before : List (Option Char)) : Bool :=
  before.isEmpty || before.getLast? == some (some '\n')

/-- Whether a character is part of a line end. -/
def isLineEnd (c : Char) : Bool :=
  c == '\n' || c == '\r'

/-- A piece of a line in a body. -/
structure LinePiece where
  /-- Everything before the piece in the body. -/
  before : List (Option Char)
  text : List Char
  /-- Whether the piece is the last of its text and the next part is an interpolation. -/
  meetsCode : Bool

namespace LinePiece

/-- Whether the piece stands at the start of a line. -/
def beginsLine (p : LinePiece) : Bool :=
  lineBegins p.before

/-- Whether the piece holds nothing but spaces, tabs and the line ends that close it. -/
def isBlank (p : LinePiece) : Bool :=
  (p.text.rdropWhile isLineEnd).all isIndent

/-- Whether the piece counts for the common indentation. -/
def isCounted (p : LinePiece) : Bool :=
  p.beginsLine && (!p.isBlank || p.meetsCode && p.text.getLast? != some '\n')

/-- The width of the indentation of the piece. -/
def width (p : LinePiece) : Nat :=
  indentWidth p.text

end LinePiece

/-- The lines of one text as pieces of a body. -/
def located (before : List (Option Char)) (beforeCode : Bool) : List (List Char) → List LinePiece
  | [] => []
  | line :: rest =>
    ⟨before, line, rest.isEmpty && beforeCode⟩ ::
      located (before ++ line.map some) beforeCode rest

/-- The pieces of each part of a body; `none` for an interpolation. -/
def bodyPieces (before : List (Option Char)) :
    List (Option (List Char)) → List (Option (List LinePiece))
  | [] => []
  | none :: rest => none :: bodyPieces (before ++ [none]) rest
  | some text :: rest =>
    some (located before (rest.head? == some none) (linePieces text)) ::
      bodyPieces (before ++ text.map some) rest

/-- The pieces that count. -/
def countedPieces (parts : List (Option (List LinePiece))) : List LinePiece :=
  (parts.flatMap (·.getD [])).filter LinePiece.isCounted

/-- The least width of the pieces that count; `none` if there is no such piece. -/
def leastWidth (parts : List (Option (List LinePiece))) : Option Nat :=
  ((countedPieces parts).map LinePiece.width).min?

/-! ### Cutting a text into lines -/

/-- The lines are those of the text, which is cut after each newline and nowhere else. -/
structure CutIntoLines (text : List Char) (lines : List (List Char)) : Prop where
  whole : lines.flatten = text
  present : ∀ line ∈ lines, line ≠ []
  inside : ∀ line ∈ lines, '\n' ∉ line.dropLast
  ends : ∀ line ∈ lines.dropLast, endsLine line = true

theorem CutIntoLines.newline {text : List Char} {lines : List (List Char)}
    (cut : CutIntoLines text lines) : CutIntoLines ('\n' :: text) (['\n'] :: lines) where
  whole := by rw [List.flatten_cons, cut.whole, List.singleton_append]
  present := List.forall_mem_cons.2 ⟨by simp, cut.present⟩
  inside := List.forall_mem_cons.2 ⟨by simp, cut.inside⟩
  ends := by
    cases lines with
    | nil => simp
    | cons next others =>
      rw [List.dropLast_cons_cons, List.forall_mem_cons]
      exact ⟨rfl, cut.ends⟩

theorem endsLine_cons {line : List Char} (ends : endsLine line = true) (c : Char) :
    endsLine (c :: line) = true := by
  cases line with
  | nil => cases ends
  | cons d rest => rwa [endsLine, List.getLast?_cons_cons]

/-- A character that ends no line goes before the first line. -/
theorem CutIntoLines.cons {text line : List Char} {lines : List (List Char)}
    (cut : CutIntoLines text (line :: lines)) {c : Char} (inside : c ≠ '\n') :
    CutIntoLines (c :: text) ((c :: line) :: lines) where
  whole := by
    rw [← cut.whole]
    rfl
  present := List.forall_mem_cons.2 ⟨by simp, (List.forall_mem_cons.1 cut.present).2⟩
  inside := by
    obtain ⟨first, others⟩ := List.forall_mem_cons.1 cut.inside
    refine List.forall_mem_cons.2 ⟨?_, others⟩
    rw [List.dropLast_cons_of_ne_nil (cut.present line (by simp)), List.mem_cons, not_or]
    exact ⟨inside.symm, first⟩
  ends := by
    cases lines with
    | nil => simp
    | cons next others =>
      have ends := cut.ends
      rw [List.dropLast_cons_cons, List.forall_mem_cons] at ends ⊢
      exact ⟨endsLine_cons ends.1 c, ends.2⟩

theorem cutIntoLines (text : List Char) : CutIntoLines text (linePieces text) := by
  induction text with
  | nil => exact ⟨rfl, by simp [linePieces], by simp [linePieces], by simp [linePieces]⟩
  | cons c rest ih =>
    rw [linePieces]
    split
    · rename_i isNewline
      rw [eq_of_beq isNewline]
      exact ih.newline
    · rename_i inside
      split
      · rename_i none
        rw [none] at ih
        have empty : rest = [] := ih.whole.symm
        exact ⟨by simp [empty], by simp, by simp, by simp⟩
      · rename_i line lines some
        rw [some] at ih
        exact ih.cons (by simpa using inside)

/-- The pieces of a part are the lines of its text. -/
inductive PartCut : Option (List Char) → Option (List LinePiece) → Prop
  | code : PartCut none none
  | text {text : List Char} {pieces : List LinePiece}
      (cut : CutIntoLines text (pieces.map LinePiece.text)) : PartCut (some text) (some pieces)

theorem map_text_located (before : List (Option Char)) (beforeCode : Bool)
    (lines : List (List Char)) :
    (located before beforeCode lines).map LinePiece.text = lines := by
  induction lines generalizing before with
  | nil => rfl
  | cons line rest ih => rw [located, List.map_cons, ih]

theorem bodyPieces_cut (before : List (Option Char)) (body : List (Option (List Char))) :
    List.Forall₂ PartCut body (bodyPieces before body) := by
  induction body generalizing before with
  | nil => exact .nil
  | cons part rest ih =>
    cases part with
    | none => exact .cons .code (ih _)
    | some text =>
      refine .cons (.text ?_) (ih _)
      rw [map_text_located]
      exact cutIntoLines text

/-! ### Where lines begin -/

@[simp] theorem lineBegins_nil : lineBegins [] = true := rfl

/-- No line begins after an interpolation. -/
@[simp] theorem lineBegins_code (before : List (Option Char)) :
    lineBegins (before ++ [none]) = false := by
  simp [lineBegins]

/-- The flag that both passes carry over a text. -/
theorem lineBegins_text (before : List (Option Char)) (text : List Char) :
    lineBegins (before ++ text.map some) = startAfter (lineBegins before) text := by
  cases last : text.getLast? with
  | none =>
    rw [List.getLast?_eq_none_iff] at last
    simp [last, startAfter]
  | some c =>
    have present : text ≠ [] := by
      rintro rfl
      cases last
    simp [lineBegins, startAfter, endsLine, last, present]

/-- A line begins after every line of a text but the last. -/
theorem lineBegins_line (before : List (Option Char)) {line next : List Char}
    {rest : List (List Char)}
    (ends : ∀ other ∈ (line :: next :: rest).dropLast, endsLine other = true) :
    lineBegins (before ++ line.map some) = true := by
  have isEnd : endsLine line = true := ends line (by simp)
  have present : line ≠ [] := by
    rintro rfl
    cases isEnd
  rw [lineBegins_text, startAfter, List.isEmpty_eq_false_iff.2 present]
  exact isEnd

/-! ### Measuring -/

/-- Indentation followed by line ends may be read from either end. -/
theorem isBlankLine_eq (line : List Char) :
    isBlankLine line = (line.rdropWhile isLineEnd).all isIndent := by
  rw [Bool.eq_iff_iff, isBlankLine, List.all_eq_true, List.all_eq_true]
  constructor
  · intro ends c member
    have shorter : line.rdropWhile isLineEnd = (line.takeWhile isIndent).rdropWhile isLineEnd := by
      conv_lhs => rw [← List.takeWhile_append_dropWhile (p := isIndent) (l := line)]
      rw [List.rdropWhile, List.reverse_append, List.dropWhile_append_of_pos]
      · rfl
      · intro d inside
        exact ends d (List.mem_reverse.1 inside)
    rw [shorter] at member
    have inside := (List.rdropWhile_prefix isLineEnd (line.takeWhile isIndent)).subset member
    exact List.all_eq_true.1 List.all_takeWhile c inside
  · intro indents c member
    have shorter : line.dropWhile isIndent = (line.rtakeWhile isLineEnd).dropWhile isIndent := by
      conv_lhs => rw [← List.rdropWhile_append_rtakeWhile (p := isLineEnd) (l := line)]
      rw [List.dropWhile_append_of_pos indents]
    rw [shorter] at member
    have inside := (List.dropWhile_sublist isIndent).subset member
    exact List.mem_rtakeWhile_imp (p := isLineEnd) inside

/-- The lines of a text that are measured are its pieces that count. -/
theorem lineWidths_eq (before : List (Option Char)) (beforeCode : Bool) {lines : List (List Char)}
    (ends : ∀ line ∈ lines.dropLast, endsLine line = true) :
    lineWidths (lineBegins before) beforeCode lines =
      ((located before beforeCode lines).filter LinePiece.isCounted).map LinePiece.width := by
  induction lines generalizing before with
  | nil => rfl
  | cons line rest ih =>
    have others : lineWidths true beforeCode rest =
        ((located (before ++ line.map some) beforeCode rest).filter LinePiece.isCounted).map
          LinePiece.width := by
      cases rest with
      | nil => rfl
      | cons next rest =>
        have begins := lineBegins_line before ends
        rw [← ih (before ++ line.map some) fun line member => ends line (by simp [member]), begins]
    have counted : (lineBegins before &&
        (!isBlankLine line || rest.isEmpty && !endsLine line && beforeCode)) =
        LinePiece.isCounted ⟨before, line, rest.isEmpty && beforeCode⟩ := by
      rw [isBlankLine_eq]
      simp only [LinePiece.isCounted, LinePiece.beginsLine, LinePiece.isBlank, endsLine, bne,
        Bool.and_assoc, Bool.and_comm beforeCode]
    simp only [lineWidths, located, counted, others, List.filter_cons]
    split <;> rfl

/-- The first pass measures the pieces that count. -/
theorem bodyWidths_eq (before : List (Option Char)) (body : List (Option (List Char))) :
    bodyWidths (lineBegins before) body =
      (countedPieces (bodyPieces before body)).map LinePiece.width := by
  induction body generalizing before with
  | nil => rfl
  | cons part rest ih =>
    cases part with
    | none =>
      have after := ih (before ++ [none])
      rw [lineBegins_code] at after
      exact after
    | some text =>
      have after := ih (before ++ text.map some)
      rw [lineBegins_text] at after
      rw [bodyWidths, after, lineWidths_eq _ _ (cutIntoLines text).ends]
      simp [countedPieces, bodyPieces]

/-! ### Stripping -/

/-- Removing the longest indentation at the front of a line that stays within a width, where
the line begins in the given column. -/
structure Strips (width column : Nat) (line removed kept : List Char) : Prop where
  split : line = removed ++ kept
  indent : ∀ c ∈ removed, isIndent c = true
  within : removed.foldl advance column ≤ width
  longest : ∀ more, more <+: line → (∀ c ∈ more, isIndent c = true) →
    more.foldl advance column ≤ width → more.length ≤ removed.length

/-- What is left of a piece once indentation up to a width is removed from every line. -/
inductive Dedents (width : Nat) (p : LinePiece) : (kept : List Char) → Prop
  | begins (isStart : p.beginsLine = true) {removed kept : List Char}
      (strips : Strips width 0 p.text removed kept) : Dedents width p kept
  | inside (isInside : p.beginsLine = false) : Dedents width p p.text

/-- What is left of a part: of an interpolation everything, of a text the rest of its pieces. -/
inductive PartDedents (width : Nat) : Option (List LinePiece) → Option (List Char) → Prop
  | code : PartDedents width none none
  | text {pieces : List LinePiece} {kept : List (List Char)}
      (each : List.Forall₂ (Dedents width) pieces kept) :
      PartDedents width (some pieces) (some kept.flatten)

theorem lt_advance (column : Nat) (c : Char) : column < advance column c := by
  rw [advance]
  split <;> omega

theorem le_foldl_advance (column : Nat) (indent : List Char) :
    column ≤ indent.foldl advance column := by
  induction indent generalizing column with
  | nil => exact Nat.le_refl column
  | cons c rest ih =>
    exact Nat.le_trans (Nat.le_of_lt (lt_advance column c)) (ih (advance column c))

theorem exists_strips {width column : Nat} (room : column ≤ width) (line : List Char) :
    ∃ removed, Strips width column line removed (stripIndent width column line) := by
  induction line generalizing column with
  | nil =>
    refine ⟨[], rfl, by simp, room, ?_⟩
    intro more isPrefix _ _
    exact isPrefix.length_le
  | cons c rest ih =>
    rw [stripIndent]
    split
    · rename_i fits
      simp only [Bool.and_eq_true, decide_eq_true_eq] at fits
      obtain ⟨removed, strips⟩ := ih fits.2
      refine ⟨c :: removed, ?_, ?_, strips.within, ?_⟩
      · rw [List.cons_append, ← strips.split]
      · exact List.forall_mem_cons.2 ⟨fits.1, strips.indent⟩
      · intro more isPrefix indent within
        obtain rfl | ⟨more, rfl, below⟩ := List.prefix_cons_iff.1 isPrefix
        · exact Nat.zero_le _
        · have shorter := strips.longest more below (List.forall_mem_cons.1 indent).2 within
          exact Nat.succ_le_succ shorter
    · rename_i stuck
      simp only [Bool.and_eq_true, decide_eq_true_eq, not_and] at stuck
      refine ⟨[], rfl, by simp, room, ?_⟩
      intro more isPrefix indent within
      obtain rfl | ⟨more, rfl, -⟩ := List.prefix_cons_iff.1 isPrefix
      · exact Nat.le_refl _
      · -- one more character of indentation would already pass the width
        have first := (List.forall_mem_cons.1 indent).1
        exact absurd (Nat.le_trans (le_foldl_advance (advance column c) more) within) (stuck first)

theorem dedents_line (width : Nat) (p : LinePiece) :
    Dedents width p (if p.beginsLine then stripIndent width 0 p.text else p.text) := by
  split
  · rename_i isStart
    obtain ⟨removed, strips⟩ := exists_strips (Nat.zero_le width) p.text
    exact .begins isStart strips
  · rename_i isInside
    exact .inside (by simpa using isInside)

/-- The lines of a text are stripped piece by piece. -/
theorem exists_stripPieces (width : Nat) (before : List (Option Char)) (beforeCode : Bool)
    {lines : List (List Char)} (ends : ∀ line ∈ lines.dropLast, endsLine line = true) :
    ∃ kept, stripPieces width (lineBegins before) lines = kept.flatten ∧
      List.Forall₂ (Dedents width) (located before beforeCode lines) kept := by
  induction lines generalizing before with
  | nil => exact ⟨[], rfl, .nil⟩
  | cons line rest ih =>
    have here := dedents_line width ⟨before, line, rest.isEmpty && beforeCode⟩
    cases rest with
    | nil => exact ⟨[_], rfl, .cons here .nil⟩
    | cons next rest =>
      have begins := lineBegins_line before ends
      obtain ⟨kept, isKept, each⟩ := ih (before ++ line.map some)
        fun line member => ends line (by simp [member])
      rw [begins] at isKept
      refine ⟨_ :: kept, ?_, .cons here each⟩
      rw [stripPieces, isKept, List.flatten_cons]
      rfl

/-- The second pass strips a body part by part. -/
theorem stripBody_dedents (width : Nat) (before : List (Option Char))
    (body : List (Option (List Char))) :
    List.Forall₂ (PartDedents width) (bodyPieces before body)
      (stripBody width (lineBegins before) body) := by
  induction body generalizing before with
  | nil => exact .nil
  | cons part rest ih =>
    cases part with
    | none =>
      have after := ih (before ++ [none])
      rw [lineBegins_code] at after
      exact .cons .code after
    | some text =>
      have after := ih (before ++ text.map some)
      rw [lineBegins_text] at after
      obtain ⟨kept, isKept, each⟩ := exists_stripPieces width before (rest.head? == some none)
        (cutIntoLines text).ends
      rw [stripBody, isKept]
      exact .cons (.text each) after

theorem stripPieces_zero (atStart : Bool) (lines : List (List Char)) :
    stripPieces 0 atStart lines = lines.flatten := by
  have whole (line : List Char) : stripIndent 0 0 line = line := by
    cases line with
    | nil => rfl
    | cons c rest =>
      have wide : ¬ advance 0 c ≤ 0 := Nat.not_le.2 (lt_advance 0 c)
      simp [stripIndent, wide]
  induction lines generalizing atStart with
  | nil => rfl
  | cons line rest ih => rw [stripPieces, ih, whole, ite_self, List.flatten_cons]

/-- Stripping no width changes nothing. -/
theorem stripBody_zero (atStart : Bool) (body : List (Option (List Char))) :
    stripBody 0 atStart body = body := by
  induction body generalizing atStart with
  | nil => rfl
  | cons part rest ih =>
    cases part with
    | none => rw [stripBody, ih]
    | some text => rw [stripBody, ih, stripPieces_zero, (cutIntoLines text).whole]

/-- The width that dedenting removes is the least over the pieces that count. -/
theorem dedentChars_of_some {body : List (Option (List Char))} {width : Nat}
    (least : leastWidth (bodyPieces [] body) = some width) :
    dedentChars body = stripBody width true body := by
  have measured : (bodyWidths true body).min? = some width := by
    rw [← lineBegins_nil, bodyWidths_eq]
    exact least
  rw [dedentChars, measured]
  dsimp only
  split
  · rename_i isZero
    rw [isZero, stripBody_zero]
  · rfl

theorem dedentChars_of_none {body : List (Option (List Char))}
    (least : leastWidth (bodyPieces [] body) = none) : dedentChars body = body := by
  have measured : (bodyWidths true body).min? = none := by
    rw [← lineBegins_nil, bodyWidths_eq]
    exact least
  rw [dedentChars, measured]

/-! ### Indentation by spaces -/

theorem foldl_advance_spaces (n : Nat) : (List.replicate n ' ').foldl advance 0 = n := by
  have shifted (column : Nat) : (List.replicate n ' ').foldl advance column = column + n := by
    induction n generalizing column with
    | zero => rfl
    | succ n ih =>
      have space : advance column ' ' = column + 1 := rfl
      rw [List.replicate_succ, List.foldl_cons, ih, space]
      omega
  rw [shifted, Nat.zero_add]

/-- Indentation without a tab is as long as it is wide. -/
theorem indent_eq_spaces {line : List Char} (noTab : '\t' ∉ line.takeWhile isIndent) :
    line.takeWhile isIndent = List.replicate (indentWidth line) ' ' := by
  have spaces : line.takeWhile isIndent =
      List.replicate (line.takeWhile isIndent).length ' ' := by
    refine List.eq_replicate_iff.2 ⟨rfl, ?_⟩
    intro c member
    have indent := List.all_eq_true.1 List.all_takeWhile c member
    simp only [isIndent, Bool.or_eq_true, beq_iff_eq] at indent
    obtain rfl | rfl := indent
    · rfl
    · exact absurd member noTab
  have width : indentWidth line = (line.takeWhile isIndent).length := by
    rw [indentWidth, spaces, foldl_advance_spaces, List.length_replicate]
  rw [width]
  exact spaces

/-- Of a line that is indented by spaces, and deep enough, exactly the width is removed. -/
theorem Strips.spaces {width : Nat} {line removed kept : List Char}
    (strips : Strips width 0 line removed kept) (noTab : '\t' ∉ line.takeWhile isIndent)
    (deep : width ≤ indentWidth line) :
    removed = List.replicate width ' ' ∧ indentWidth line = width + indentWidth kept := by
  have spaces := indent_eq_spaces noTab
  have isPrefix : List.replicate width ' ' <+: line := by
    refine List.IsPrefix.trans ?_ (List.takeWhile_prefix isIndent)
    rw [spaces, List.prefix_replicate_iff]
    simpa using deep
  have enough : width ≤ removed.length := by
    have indent : ∀ c ∈ List.replicate width ' ', isIndent c = true := by
      intro c member
      rw [List.eq_of_mem_replicate member]
      rfl
    have within := Nat.le_of_eq (foldl_advance_spaces width)
    simpa using strips.longest _ isPrefix indent within
  -- both what is removed and what is left of the indentation are spaces
  have parts := spaces
  rw [strips.split, List.takeWhile_append_of_pos strips.indent, ← strips.split,
    List.append_eq_replicate_iff] at parts
  obtain ⟨lengths, isRemoved, isLeft⟩ := parts
  have within := strips.within
  rw [isRemoved, foldl_advance_spaces] at within
  have length : removed.length = width := Nat.le_antisymm within enough
  have left : indentWidth kept = (kept.takeWhile isIndent).length := by
    rw [indentWidth, isLeft, foldl_advance_spaces, List.length_replicate]
  refine ⟨?_, ?_⟩
  · rw [isRemoved, length]
  · rw [← lengths, length, left]

/-! ### Dedenting -/

theorem map_toList_dedent (body : List (Option String)) :
    (dedent body).map (Option.map String.toList) =
      dedentChars (body.map (Option.map String.toList)) := by
  have same : Option.map String.toList ∘ Option.map String.ofList = id := by
    funext part
    cases part <;> simp
  rw [dedent, List.map_map, same, List.map_id]

/-- Dedenting removes the common indentation and nothing else. The pieces of a body are the
lines of its texts. Without a piece that counts, or if one of these is not indented, nothing
changes. Otherwise, with `width` the least width of those pieces, interpolations and pieces
inside a line stay as they are, and every piece at the start of a line loses the longest
indentation of at most that width. A piece that counts and is indented by spaces loses exactly
`width` of them, so that such pieces stay indented against each other as they were. -/
theorem dedent_common_indentation (body : List (Option String)) :
    let parts := bodyPieces [] (body.map (Option.map String.toList))
    List.Forall₂ PartCut (body.map (Option.map String.toList)) parts ∧
    (leastWidth parts = none ∨ leastWidth parts = some 0 → dedent body = body) ∧
    ∀ width, leastWidth parts = some width →
      List.Forall₂ (PartDedents width) parts ((dedent body).map (Option.map String.toList)) ∧
      ∀ p ∈ countedPieces parts, '\t' ∉ p.text.takeWhile isIndent →
        ∀ kept, Dedents width p kept →
          p.text = List.replicate width ' ' ++ kept ∧
            indentWidth p.text = width + indentWidth kept := by
  intro parts
  refine ⟨bodyPieces_cut [] _, ?_, ?_⟩
  · intro unchanged
    have same : dedentChars (body.map (Option.map String.toList)) =
        body.map (Option.map String.toList) := by
      obtain none | zero := unchanged
      · exact dedentChars_of_none none
      · rw [dedentChars_of_some zero, stripBody_zero]
    have back : Option.map String.ofList ∘ Option.map String.toList = id := by
      funext part
      cases part <;> simp
    rw [dedent, same, List.map_map, back, List.map_id]
  · intro width least
    constructor
    · rw [map_toList_dedent, dedentChars_of_some least]
      exact stripBody_dedents width [] _
    · intro p counted noTab kept dedents
      have deep : width ≤ p.width :=
        (List.min?_eq_some_iff.1 least).2 _ (List.mem_map_of_mem counted)
      cases dedents with
      | inside isInside =>
        have begins := (List.mem_filter.1 counted).2
        rw [LinePiece.isCounted, isInside] at begins
        cases begins
      | begins isStart strips =>
        obtain ⟨isRemoved, widths⟩ := strips.spaces noTab deep
        exact ⟨isRemoved ▸ strips.split, widths⟩

/-- A body with a line that is blank, one that runs into an interpolation and one that goes on
after it. -/
theorem dedent_around_code :
    let body : List (Option String) := [some "    a\n \n  ", none, some "  b\n   c"]
    let parts := bodyPieces [] (body.map (Option.map String.toList))
    leastWidth parts = some 2 ∧
      List.Forall₂ (PartDedents 2) parts ((dedent body).map (Option.map String.toList)) ∧
      dedent body = [some "  a\n\n", none, some "  b\n c"] := by
  intro body parts
  have least : leastWidth parts = some 2 := by decide
  exact ⟨least, ((dedent_common_indentation body).2.2 2 least).1, by decide⟩

/-! ### Interpolations that are repeated -/

/-- Each part of a body as often as the numbers say. -/
def repeatEach {α : Type} (counts : List Nat) (body : List α) : List α :=
  (List.zipWith List.replicate counts body).flatten

/-- The numbers repeat nothing but interpolations, and leave none of these out. -/
def Repeats {α : Type} (counts : List Nat) (body : List (Option α)) : Prop :=
  List.Forall₂ (fun count part => 0 < count ∧ (part ≠ none → count = 1)) counts body

theorem repeatEach_cons {α : Type} (count : Nat) (counts : List Nat) (part : α) (body : List α) :
    repeatEach (count :: counts) (part :: body) =
      List.replicate count part ++ repeatEach counts body := by
  rw [repeatEach, List.zipWith_cons_cons, List.flatten_cons, repeatEach]

theorem map_repeatEach {α β : Type} (f : α → β) (counts : List Nat) (body : List α) :
    (repeatEach counts body).map f = repeatEach counts (body.map f) := by
  induction counts generalizing body with
  | nil => rfl
  | cons count counts ih =>
    cases body with
    | nil => rfl
    | cons part body =>
      rw [repeatEach_cons, List.map_append, List.map_replicate, ih, List.map_cons, repeatEach_cons]

theorem head?_repeatEach {α : Type} {counts : List Nat} {body : List (Option α)}
    (repeats : Repeats counts body) : (repeatEach counts body).head? = body.head? := by
  cases repeats with
  | nil => rfl
  | cons first others =>
    obtain ⟨count, isCount⟩ := Nat.exists_eq_add_of_lt first.1
    rw [isCount, Nat.zero_add, repeatEach_cons, List.replicate_succ]
    rfl

theorem bodyWidths_replicate_none (count : Nat) (atStart : Bool)
    (rest : List (Option (List Char))) :
    bodyWidths atStart (List.replicate (count + 1) none ++ rest) = bodyWidths false rest := by
  induction count generalizing atStart with
  | zero => rfl
  | succ count ih =>
    rw [List.replicate_succ, List.cons_append, bodyWidths, ih]

theorem stripBody_replicate_none (width count : Nat) (atStart : Bool)
    (rest : List (Option (List Char))) :
    stripBody width atStart (List.replicate (count + 1) none ++ rest) =
      List.replicate (count + 1) none ++ stripBody width false rest := by
  induction count generalizing atStart with
  | zero => rfl
  | succ count ih =>
    rw [List.replicate_succ, List.cons_append, stripBody, ih, List.cons_append]

theorem bodyWidths_repeatEach {counts : List Nat} {body : List (Option (List Char))}
    (repeats : Repeats counts body) (atStart : Bool) :
    bodyWidths atStart (repeatEach counts body) = bodyWidths atStart body := by
  induction repeats generalizing atStart with
  | nil => rfl
  | @cons count part counts body first others ih =>
    rw [repeatEach_cons]
    cases part with
    | none =>
      obtain ⟨more, isCount⟩ := Nat.exists_eq_add_of_lt first.1
      rw [isCount, Nat.zero_add, bodyWidths_replicate_none, ih, bodyWidths]
    | some text =>
      have once : count = 1 := first.2 nofun
      rw [once, List.replicate_one, List.singleton_append, bodyWidths, bodyWidths,
        head?_repeatEach others, ih]

theorem stripBody_repeatEach {counts : List Nat} {body : List (Option (List Char))}
    (repeats : Repeats counts body) (width : Nat) (atStart : Bool) :
    stripBody width atStart (repeatEach counts body) =
      repeatEach counts (stripBody width atStart body) := by
  induction repeats generalizing atStart with
  | nil => rfl
  | @cons count part counts body first others ih =>
    rw [repeatEach_cons]
    cases part with
    | none =>
      obtain ⟨more, isCount⟩ := Nat.exists_eq_add_of_lt first.1
      rw [isCount, Nat.zero_add, stripBody_replicate_none, ih, stripBody, repeatEach_cons]
    | some text =>
      have once : count = 1 := first.2 nofun
      rw [once, List.replicate_one, List.singleton_append, stripBody, stripBody, ih,
        repeatEach_cons, List.replicate_one, List.singleton_append]

/-- Several interpolations in a row are dedented like one. -/
theorem dedent_repeatEach {counts : List Nat} {body : List (Option String)}
    (repeats : Repeats counts body) :
    dedent (repeatEach counts body) = repeatEach counts (dedent body) := by
  have chars : Repeats counts (body.map (Option.map String.toList)) := by
    rw [Repeats, List.forall₂_map_right_iff]
    refine List.Forall₂.imp ?_ repeats
    rintro count part ⟨positive, once⟩
    exact ⟨positive, fun isText => once (by rintro rfl; exact isText rfl)⟩
  have same : dedentChars (repeatEach counts (body.map (Option.map String.toList))) =
      repeatEach counts (dedentChars (body.map (Option.map String.toList))) := by
    rw [dedentChars, dedentChars, bodyWidths_repeatEach chars]
    split
    · rfl
    · split
      · rfl
      · exact stripBody_repeatEach chars _ true
  rw [dedent, dedent, map_repeatEach, same, map_repeatEach]

end RubyNormalForm.Heredoc
