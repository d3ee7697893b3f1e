import RubyNormalForm.Literal.Regexp

/-!
# Bodies of regular expressions

Two scans take the body of a regular expression apart into characters and pairs of a backslash with
the character after it: `resolve` when the literal is read, `escapeSlashes` when it is shown. What
the first one leaves is a `Resolved` text: it consists of plain characters and of pairs that hold
neither a line end nor a slash, and perhaps a backslash that ends it. Dropping a splice or the
backslash of a slash joins nothing to the pairs on either side, so such a text is taken apart again
in the same way, and both statements about reading twice are inductions over it.
-/

namespace RubyNormalForm.Regexp

/-- Texts in which nothing is left to resolve between slashes. -/
inductive Resolved : List Char → Prop
  | nil : Resolved []
  | plain {c : Char} {rest : List Char} : c ≠ '\\' → Resolved rest → Resolved (c :: rest)
  | pair {d : Char} {rest : List Char} :
      d ≠ '\n' → d ≠ '/' → Resolved rest → Resolved ('\\' :: d :: rest)
  | backslash : Resolved ['\\']

/-- The characters outside the pairs of a backslash with the character after it. -/
def unpaired : List Char → List Char
  | [] => []
  | c :: rest =>
    if c = '\\' then
      match rest with
      | [] => ['\\']
      | _ :: tail => unpaired tail
    else c :: unpaired rest

theorem resolve_plain {opening c : Char} (plain : c ≠ '\\') (rest : List Char) :
    resolve opening (c :: rest) = c :: resolve opening rest := by
  rw [resolve.eq_def]
  simp only [beq_iff_eq, if_neg plain]

theorem resolve_pair {opening d : Char} (line : d ≠ '\n') (slash : d ≠ '/') (rest : List Char) :
    resolve opening ('\\' :: d :: rest) = '\\' :: d :: resolve opening rest := by
  rw [resolve.eq_def]
  simp [line, slash]

theorem resolve_slash (rest : List Char) :
    resolve '/' ('\\' :: '/' :: rest) = '/' :: resolve '/' rest := by
  rw [resolve.eq_def]
  rfl

theorem resolved_resolve (text : List Char) : Resolved (resolve '/' text) := by
  fun_induction resolve '/' text with
  | case1 => exact .nil
  | case2 => exact .backslash
  | case3 _ _ _ _ _ ih => exact ih
  | case4 _ _ _ _ _ _ ih => exact .plain (by decide) ih
  | case5 c _ d _ line slash ih =>
    simp only [beq_self_eq_true, Bool.and_true, beq_iff_eq] at line slash
    exact .pair line slash ih
  | case6 c rest plain ih => exact .plain (by simpa using plain) ih

/-- A resolved text stays as it is. -/
theorem Resolved.resolve_eq {text : List Char} (resolved : Resolved text) :
    resolve '/' text = text := by
  induction resolved with
  | nil => rfl
  | plain plain _ ih => rw [resolve_plain plain, ih]
  | pair line slash _ ih => rw [resolve_pair line slash, ih]
  | backslash => rfl

theorem escapeSlashes_slash (rest : List Char) :
    escapeSlashes ('/' :: rest) = '\\' :: '/' :: escapeSlashes rest := by
  rw [escapeSlashes.eq_def]
  rfl

theorem escapeSlashes_plain {c : Char} (plain : c ≠ '\\') (slash : c ≠ '/') (rest : List Char) :
    escapeSlashes (c :: rest) = c :: escapeSlashes rest := by
  rw [escapeSlashes.eq_def]
  simp only [beq_iff_eq, if_neg plain, if_neg slash]

theorem escapeSlashes_pair (d : Char) (rest : List Char) :
    escapeSlashes ('\\' :: d :: rest) = '\\' :: d :: escapeSlashes rest := by
  rw [escapeSlashes.eq_def]
  rfl

/-- Escaping the bare slashes of a resolved text adds only pairs that reading resolves. -/
theorem Resolved.resolve_escapeSlashes {text : List Char} (resolved : Resolved text) :
    resolve '/' (escapeSlashes text) = text := by
  induction resolved with
  | nil => rfl
  | @plain c rest plain _ ih =>
    by_cases slash : c = '/'
    · rw [slash, escapeSlashes_slash, resolve_slash, ih]
    · rw [escapeSlashes_plain plain slash, resolve_plain plain, ih]
  | pair line slash _ ih => rw [escapeSlashes_pair, resolve_pair line slash, ih]
  | backslash => rfl

theorem unpaired_plain {c : Char} (plain : c ≠ '\\') (rest : List Char) :
    unpaired (c :: rest) = c :: unpaired rest := by
  rw [unpaired.eq_def]
  simp only [if_neg plain]

theorem unpaired_pair (d : Char) (rest : List Char) :
    unpaired ('\\' :: d :: rest) = unpaired rest := by
  rw [unpaired.eq_def]
  rfl

/-- What is shown between slashes has none outside a pair, whatever the text. -/
theorem slash_not_mem_unpaired_escapeSlashes (text : List Char) :
    '/' ∉ unpaired (escapeSlashes text) := by
  fun_induction escapeSlashes text with
  | case1 => exact List.not_mem_nil
  | case2 => decide
  | case3 _ _ d tail ih =>
    rw [unpaired_pair]
    exact ih
  | case4 _ rest _ _ ih =>
    rw [unpaired_pair]
    exact ih
  | case5 c rest plain slash ih =>
    simp only [beq_iff_eq] at plain slash
    rw [unpaired_plain plain, List.mem_cons, not_or]
    exact ⟨fun same => slash same.symm, ih⟩

/-- The body of a literal between slashes is read once and for all: reading it again changes
nothing. A regular expression with that body is shown between slashes as a text in which every slash
belongs to a pair, and reading that text gives the body back. -/
theorem unescape_unescape (text : String) (options : Nat) :
    unescape '/' (unescape '/' text) = unescape '/' text ∧
      ∃ body : String,
        inspect ⟨unescape '/' text, options⟩ =
          "/" ++ body ++ "/" ++ String.ofList (flagLetters ⟨unescape '/' text, options⟩) ∧
        '/' ∉ unpaired body.toList ∧ unescape '/' body = unescape '/' text := by
  have resolved := resolved_resolve text.toList
  refine ⟨?_, String.ofList (escapeSlashes (resolve '/' text.toList)), ?_, ?_, ?_⟩
  · rw [unescape, unescape, String.toList_ofList, resolved.resolve_eq]
  · rw [inspect, ← String.toList_inj]
    simp [unescape]
  · rw [String.toList_ofList]
    exact slash_not_mem_unpaired_escapeSlashes _
  · rw [unescape, unescape, String.toList_ofList, resolved.resolve_escapeSlashes]

end RubyNormalForm.Regexp
