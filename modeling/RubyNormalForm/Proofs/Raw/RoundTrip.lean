import RubyNormalForm.Proofs.Raw.Token

/-!
# Reading a raw tree back

Every layout of a storable tree is read as that tree. The reader counts down as it goes, and
the induction is on that count: a value needs two steps for each character of its text, and
the items of an array one step more. Each step hands the rest of the text on unread, so the
statement says what is read from any layout with any text behind it that may follow a token.
-/

namespace RubyNormalForm.Raw

open Reader

/-! ### Gaps -/

theorem skipFrom_comment {text : List Char} (line : '\n' ∉ text) (rest : List Char) :
    skipFrom true (text ++ '\n' :: rest) = skipFrom false rest := by
  induction text with
  | nil => rfl
  | cons c text ih =>
    simp only [List.mem_cons, not_or] at line
    have inside : (c != '\n') = true := by simpa using Ne.symm line.1
    rw [List.cons_append, skipFrom, inside, ih line.2]

/-- A gap is passed as a whole. -/
theorem skip_gap {gap : List Char} (h : Gap gap) (rest : List Char) :
    skip (gap ++ rest) = skip rest := by
  induction h with
  | nil => rfl
  | blank blank _ ih =>
    rw [← ih]
    simp only [List.mem_cons, List.not_mem_nil, or_false] at blank
    obtain rfl | rfl | rfl | rfl := blank
    all_goals rfl
  | comment line _ ih =>
    rw [← ih, List.cons_append, List.append_assoc, List.cons_append]
    exact skipFrom_comment line _

theorem skip_gap_self {gap : List Char} (h : Gap gap) : skip gap = [] := by
  have passed := skip_gap h []
  rwa [List.append_nil] at passed

/-- No value begins with a character of a gap, or with a bracket that closes an array. -/
theorem scalar?_gap {c : Char} (h : c ∈ [' ', '\t', '\r', '\n', '#', '[', ']'])
    (tail : List Char) : scalar? (c :: tail) = none := by
  simp only [List.mem_cons, List.not_mem_nil, or_false] at h
  obtain rfl | rfl | rfl | rfl | rfl | rfl | rfl := h
  all_goals rfl

theorem skip_cons {c : Char} (gap : isGap c = false) (comment : c ≠ '#') (tail : List Char) :
    skip (c :: tail) = c :: tail := by
  simp [skip, skipFrom, gap, comment]

/-- A token is not passed. -/
theorem skip_of_scalar? {text : List Char} {found : Raw × List Char}
    (h : scalar? text = some found) : skip text = text := by
  cases text with
  | nil => rfl
  | cons c tail =>
    by_cases gap : c ∈ [' ', '\t', '\r', '\n', '#', '[', ']']
    · rw [scalar?_gap gap] at h
      cases h
    · simp only [List.mem_cons, List.not_mem_nil, or_false, not_or] at gap
      apply skip_cons
      · simp [isGap, gap]
      · exact gap.2.2.2.2.1

/-! ### Arrays -/

/-- An untagged sequence stays one unless it looks like something else. -/
theorem ofItems_untagged {items : List Raw} (h : ¬ LooksTagged items) :
    ofItems items = .node listTag items := by
  unfold ofItems
  split
  case h_1 => exact absurd trivial h
  case h_2 line column =>
    have negative : ¬ (0 ≤ line ∧ 0 ≤ column) := h
    simp [negative]
  case h_3 => rfl

theorem ofItems_pos (line column : Nat) : ofItems [.int line, .int column] = .pos line column := by
  simp [ofItems]

theorem check_outOfRange {v : Raw} (h : v.Storable) {t : Trail} (ht : t.outOfRange = none)
    (text : List Char) : (t.check v text).outOfRange = none := by
  cases v with
  | int n =>
    have fits : Number.fits64 n = true := h
    simp [Trail.check, ht, fits]
  | _ => simpa [Trail.check] using ht

theorem value_scalar {fuel : Nat} {t : Trail} {v : Raw} {text rest : List Char}
    (found : scalar? text = some (v, rest)) :
    value (fuel + 1) t text =
      (({ t with tried := text } : Trail).check v text, some (v, rest)) := by
  unfold value
  split
  case h_1 tail =>
    rw [scalar?_gap (by decide)] at found
    cases found
  case h_2 => simp only [found]

theorem value_array {fuel : Nat} {t t' : Trail} {children : List Raw} {text rest : List Char}
    (inside : items fuel { t with tried := '[' :: text } (skip text) =
      (t', some (children, rest))) :
    value (fuel + 1) t ('[' :: text) = (t', some (ofItems children, rest)) := by
  simp only [value, inside]

/-- At the closing bracket no value is found, and the array ends. -/
theorem items_close {fuel : Nat} {t : Trail} (rest : List Char) :
    items (fuel + 2) t (']' :: rest) =
      ({ t with tried := ']' :: rest }, some ([], rest)) := by
  have nothing : value (fuel + 1) t (']' :: rest) = ({ t with tried := ']' :: rest }, none) := by
    rw [value, scalar?_gap (by decide)]
    simp
  simp only [items, nothing]

theorem items_last {fuel : Nat} {t t' : Trail} {v : Raw} {text gap rest : List Char}
    (item : value fuel t text = (t', some (v, gap ++ ']' :: rest))) (after : Gap gap) :
    items (fuel + 1) t text = (t', some ([v], rest)) := by
  have closed : skip (gap ++ ']' :: rest) = ']' :: rest := skip_gap after _
  simp only [items, item, closed]

theorem items_more {fuel : Nat} {t t' t'' : Trail} {v : Raw} {vs : List Raw}
    {text gap row rest : List Char}
    (item : value fuel t text = (t', some (v, gap ++ ',' :: row))) (after : Gap gap)
    (others : items fuel t' (skip row) = (t'', some (vs, rest))) :
    items (fuel + 1) t text = (t'', some (v :: vs, rest)) := by
  have divided : skip (gap ++ ',' :: row) = ',' :: row := skip_gap after _
  simp only [items, item, divided, others]

theorem skip_laid {v : Raw} {text : List Char} (laid : Laid v text) (h : v.Storable)
    {rest : List Char} (hr : Delimited rest) : skip (text ++ rest) = text ++ rest := by
  cases laid with
  | scalar single => exact skip_of_scalar? (scalar?_render_append single h hr)
  | tagged _ _ => rfl
  | untagged _ => rfl
  | pos _ => rfl

theorem storableAll_pos {line column : Nat} (h : (Raw.pos line column).Storable) :
    StorableAll [.int line, .int column] := by
  obtain ⟨hl, hc⟩ := h
  refine ⟨?_, ?_, trivial⟩
  · simp only [Storable, Number.fits64, Bool.and_eq_true, decide_eq_true_eq]
    omega
  · simp only [Storable, Number.fits64, Bool.and_eq_true, decide_eq_true_eq]
    omega

/-- What the reader makes of a layout, by the number of steps it may take. The text behind a
value must end it; behind a row anything may stand, because its bracket ends it. -/
theorem value_laid_items_row (fuel : Nat) :
    (∀ {v : Raw} {text rest : List Char} (t : Trail), Laid v text → v.Storable →
      Delimited rest → 2 * text.length + 1 ≤ fuel → t.outOfRange = none →
      ∃ t', t'.outOfRange = none ∧ value fuel t (text ++ rest) = (t', some (v, rest))) ∧
    (∀ {vs : List Raw} {text : List Char} (t : Trail) (rest : List Char), Row vs text →
      StorableAll vs → 2 * text.length + 2 ≤ fuel → t.outOfRange = none →
      ∃ t', t'.outOfRange = none ∧ items fuel t (skip (text ++ rest)) = (t', some (vs, rest))) := by
  induction fuel with
  | zero =>
    constructor
    · intro v text rest t laid h hr enough ht
      omega
    · intro vs text t rest row h enough ht
      omega
  | succ fuel ih =>
    obtain ⟨ihValue, ihRow⟩ := ih
    -- An array is its row behind a bracket, whatever the items amount to.
    have array : ∀ {children : List Raw} {text : List Char} (t : Trail) (rest : List Char),
        Row children text → StorableAll children → 2 * ('[' :: text).length + 1 ≤ fuel + 1 →
        t.outOfRange = none → ∃ t', t'.outOfRange = none ∧
          value (fuel + 1) t ('[' :: text ++ rest) = (t', some (ofItems children, rest)) := by
      intro children text t rest row h enough ht
      rw [List.length_cons] at enough
      obtain ⟨t', ht', inside⟩ := ihRow { t with tried := '[' :: (text ++ rest) } rest row h
        (by omega) ht
      exact ⟨t', ht', value_array inside⟩
    constructor
    · intro v text rest t laid h hr enough ht
      cases laid with
      | scalar single =>
        refine ⟨_, ?_, value_scalar (scalar?_render_append single h hr)⟩
        apply check_outOfRange h
        exact ht
      | tagged _ row => exact array t rest row ⟨h.1, h.2.2⟩ enough ht
      | untagged row =>
        rw [← ofItems_untagged (h.2.1 rfl)]
        exact array t rest row h.2.2 enough ht
      | pos row =>
        rw [← ofItems_pos]
        exact array t rest row (storableAll_pos h) enough ht
    · intro vs text t rest row h enough ht
      cases row with
      | close before =>
        simp only [List.length_append, List.length_cons, List.length_nil] at enough
        obtain ⟨fuel, rfl⟩ : ∃ k, fuel = k + 1 := ⟨fuel - 1, by omega⟩
        refine ⟨{ t with tried := ']' :: rest }, ht, ?_⟩
        rw [List.append_assoc, skip_gap before]
        exact items_close rest
      | @last v text gap gap' before item after =>
        simp only [List.length_append, List.length_cons, List.length_nil] at enough
        have closed : Delimited (gap' ++ ']' :: rest) := after.delimited (.cons (by decide) rest)
        obtain ⟨t', ht', found⟩ := ihValue t item h.1 closed (by omega) ht
        refine ⟨t', ht', ?_⟩
        simp only [List.append_assoc, List.cons_append, List.nil_append]
        rw [skip_gap before, skip_laid item h.1 closed]
        exact items_last found after
      | @more v vs text row gap gap' before item after others =>
        simp only [List.length_append, List.length_cons] at enough
        have divided : Delimited (gap' ++ ',' :: (row ++ rest)) :=
          after.delimited (.cons (by decide) _)
        obtain ⟨t', ht', found⟩ := ihValue t item h.1 divided (by omega) ht
        obtain ⟨t'', ht'', following⟩ := ihRow t' rest others h.2 (by omega) ht'
        refine ⟨t'', ht'', ?_⟩
        simp only [List.append_assoc, List.cons_append]
        rw [skip_gap before, skip_laid item h.1 divided]
        exact items_more found after following

/-- Reading is the inverse of writing, whatever stands between the tokens: a storable tree is
read back from the text that is written for it and from every other layout of it. -/
theorem read_layout {v : Raw} (h : v.Storable) (origin : String) :
    read v.text origin = .ok v ∧
      ∀ text, Layout v text.toList → read text origin = .ok v := by
  have every : ∀ text, Layout v text.toList → read text origin = .ok v := by
    rintro text ⟨before, inside, after, hb, laid, ha, shape⟩
    have closed : Delimited after := by
      have ends := ha.delimited delimited_nil
      rwa [List.append_nil] at ends
    have enough : 2 * inside.length + 1 ≤ 2 * text.toList.length + 2 := by
      rw [shape]
      simp only [List.length_append]
      omega
    obtain ⟨t, ht, found⟩ :=
      (value_laid_items_row _).1 { tried := text.toList } laid h closed enough rfl
    have start : skip text.toList = inside ++ after := by
      rw [shape, skip_gap hb, skip_laid laid h closed]
    simp only [read, whole, start, found, skip_gap_self ha, ht]
    rfl
  refine ⟨every v.text ?_, every⟩
  rw [text, String.toList_ofList]
  exact layout_render v

/-- A tree written over two lines, with a comment and with commas before closing brackets. -/
theorem read_layout_commented :
    (Raw.node "a" [.sym "+", .pos 1 0]).Storable ∧
      read "# c\n[:a ,\t:+,[1, 0,],] " "dump" = .ok (.node "a" [.sym "+", .pos 1 0]) := by
  have storable : (Raw.node "a" [.sym "+", .pos 1 0]).Storable := by
    simp [Storable, StorableAll, listTag]
  have position : Laid (.pos 1 0) "[1, 0,]".toList :=
    .pos (.more .nil (.scalar rfl) .nil (.more .space (.scalar rfl) .nil (.close .nil)))
  have row : Row [.sym "a", .sym "+", .pos 1 0] ":a ,\t:+,[1, 0,],]".toList :=
    .more .nil (.scalar rfl) .space (.more (.blank (c := '\t') (by decide) .nil) (.scalar rfl) .nil
      (.more .nil position .nil (.close .nil)))
  have comment : Gap "# c\n".toList := .comment (by decide : '\n' ∉ [' ', 'c']) .nil
  refine ⟨storable, (read_layout storable "dump").2 _ ?_⟩
  exact ⟨_, _, _, comment, .tagged (by decide) row, .space, rfl⟩

/-! ### Symbols by themselves -/

/-- A text that is a single token is read as what the token stands for. -/
theorem read_of_scalar? {text : String} {v : Raw} (h : v.Storable)
    (found : scalar? text.toList = some (v, [])) (origin : String) : read text origin = .ok v := by
  have inRange := check_outOfRange h (t := ⟨text.toList, none⟩) rfl text.toList
  simp only [read, whole, skip_of_scalar? found, value_scalar found, inRange]
  rfl

/-- The symbol of every name is read back from its own text, whether it is written bare or in
quotes, with one exception: that of `=` is written bare, and no bare symbol of that name is
read. -/
theorem read_inspect (name origin : String) :
    read (Symbol.inspect name) origin =
      if name = "=" then .error (.source .malformedDump origin (some 1)) else .ok (.sym name) := by
  split
  · rename_i equals
    subst equals
    rfl
  · rename_i other
    obtain ⟨text, written, found⟩ := symbol?_inspect other delimited_nil
    rw [List.append_nil] at found
    refine read_of_scalar? (v := .sym name) other ?_ origin
    rw [written, scalar?, found]

/-- So not every symbol can be told from its text. -/
theorem not_read_inspect_of_equals :
    ¬ ∀ name origin : String, read (Symbol.inspect name) origin = .ok (.sym name) := by
  intro claimed
  have refused : read (Symbol.inspect "=") "dump" =
      .error (.source .malformedDump "dump" (some 1)) := rfl
  rw [claimed] at refused
  cases refused

end RubyNormalForm.Raw
