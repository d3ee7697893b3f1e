import RubyNormalForm.Proofs.Raw.Token
import RubyNormalForm.Tree.Printer

/-!
# The text of a form determines the form

Forms are compared by the texts they print as. That loses nothing but what equality of forms
leaves out: if the tags are words, the items are of the kinds that are written without loss,
and all strings are in one encoding, then forms with one text are the same form.

The first character of an item tells its kind. Inside a node an item is followed by a comma or
by a closing parenthesis, so items are compared at the front of texts that go on in such a way:
two items that begin one text are the same, and the rests after them are the same too. Words
and numbers end because a separator cannot belong to them, nodes because their items do, and
strings and quoted symbols by their closing quote. The one bare symbol with a separator in it
is `:$,`, and its comma is never taken for a separator, since `$` alone names no symbol.
-/

namespace RubyNormalForm

/-! ### Runs of characters -/

/-- The text does not go on with a character of the class. -/
def Stops (p : Char → Bool) (rest : List Char) : Prop :=
  ∀ c ∈ rest.head?, p c = false

/-- A run of characters of a class can be cut off where the class is left. -/
theorem append_inj_of_stops {p : Char → Bool} {run run' rest rest' : List Char}
    (inside : run.all p = true) (inside' : run'.all p = true) (stops : Stops p rest)
    (stops' : Stops p rest') (h : run ++ rest = run' ++ rest') : run = run' ∧ rest = rest' := by
  induction run generalizing run' with
  | nil =>
    cases run' with
    | nil => exact ⟨rfl, h⟩
    | cons c run' =>
      have outside : p c = false := stops c (by rw [← List.nil_append rest, h]; rfl)
      rw [List.all_cons, outside] at inside'
      cases inside'
  | cons c run ih =>
    cases run' with
    | nil =>
      have outside : p c = false := stops' c (by rw [← List.nil_append rest', ← h]; rfl)
      rw [List.all_cons, outside] at inside
      cases inside
    | cons d run' =>
      simp only [List.cons_append, List.cons.injEq, List.all_cons, Bool.and_eq_true] at *
      obtain ⟨rfl, rfl⟩ := ih inside.2 inside'.2 h.2
      exact ⟨⟨h.1, rfl⟩, rfl⟩

/-- The characters that end an item inside a node. -/
def isSeparator (c : Char) : Bool :=
  c == ',' || c == ')'

/-- What can follow the text of an item: nothing, or a separator. -/
def Separated (rest : List Char) : Prop :=
  ∀ c ∈ rest.head?, isSeparator c = true

theorem separated_cons {c : Char} (h : isSeparator c = true) (rest : List Char) :
    Separated (c :: rest) := by
  intro d mem
  obtain rfl : c = d := by simpa using mem
  exact h

theorem Separated.stops {p : Char → Bool} {rest : List Char} (h : Separated rest)
    (comma : p ',' = false) (parenthesis : p ')' = false) : Stops p rest := by
  intro c mem
  have separator : c = ',' ∨ c = ')' := by simpa [isSeparator] using h c mem
  obtain rfl | rfl := separator
  · exact comma
  · exact parenthesis

/-! ### Numbers -/

/-- The characters of integers. -/
def isNumeral (c : Char) : Bool :=
  c.isDigit || c == '-'

theorem all_isNumeral_toString (n : Int) : (toString n).toList.all isNumeral = true := by
  have digits (m : Nat) : (Nat.toDigits 10 m).all isNumeral = true := by
    rw [List.all_eq_true]
    intro c mem
    rw [isNumeral, Nat.isDigit_of_mem_toDigits (by decide) (by decide) mem, Bool.true_or]
  rw [Int.toString_eq_repr, Int.repr_eq_if]
  split
  · rw [Nat.toList_repr]
    exact digits _
  · rw [String.toList_append, Nat.toList_repr, List.all_append, digits, Bool.and_true]
    decide

theorem toString_int_inj {m n : Int} (h : (toString m).toList = (toString n).toList) : m = n := by
  -- Reading the text back gives the number.
  have first := Raw.scalar?_int m Raw.delimited_nil
  have second := Raw.scalar?_int n Raw.delimited_nil
  rw [Raw.render] at first second
  rw [h, second] at first
  simpa using first.symm

theorem exists_toString_eq_cons (n : Int) :
    ∃ c tail, (toString n).toList = c :: tail ∧ isNumeral c = true := by
  cases text : (toString n).toList with
  | nil =>
    have read := Raw.scalar?_int n Raw.delimited_nil
    rw [Raw.render, text] at read
    cases read
  | cons c tail =>
    have numerals := all_isNumeral_toString n
    rw [text, List.all_cons, Bool.and_eq_true] at numerals
    exact ⟨c, tail, rfl, numerals.1⟩

theorem int_append_inj {m n : Int} {rest rest' : List Char} (stops : Stops isNumeral rest)
    (stops' : Stops isNumeral rest')
    (h : (toString m).toList ++ rest = (toString n).toList ++ rest') : m = n ∧ rest = rest' := by
  obtain ⟨digits, rests⟩ := append_inj_of_stops (all_isNumeral_toString m)
    (all_isNumeral_toString n) stops stops' h
  exact ⟨toString_int_inj digits, rests⟩

/-- The dots of a range and its upper end. -/
def rangeTail (stop : Int) (exclusive : Bool) : List Char :=
  '.' :: '.' :: (if exclusive then ['.'] else []) ++ (toString stop).toList

theorem toList_rangeText (start stop : Int) (exclusive : Bool) :
    (Item.rangeText start stop exclusive).toList =
      (toString start).toList ++ rangeTail stop exclusive := by
  cases exclusive <;> simp [Item.rangeText, rangeTail]

theorem stops_rangeTail (stop : Int) (exclusive : Bool) (rest : List Char) :
    Stops isNumeral (rangeTail stop exclusive ++ rest) := by
  intro c mem
  obtain rfl : '.' = c := by simpa [rangeTail] using mem
  decide

/-- No number begins with a dot, so the number of dots is plain from the text. -/
theorem rangeTail_append_inj {m n : Int} {x y : Bool} {rest rest' : List Char}
    (stops : Stops isNumeral rest) (stops' : Stops isNumeral rest')
    (h : rangeTail m x ++ rest = rangeTail n y ++ rest') : m = n ∧ x = y ∧ rest = rest' := by
  have dotless {k : Int} {u v : List Char} (eq : (toString k).toList ++ u = '.' :: v) : False := by
    obtain ⟨c, tail, text, numeral⟩ := exists_toString_eq_cons k
    rw [text, List.cons_append] at eq
    obtain ⟨rfl, -⟩ := List.cons.inj eq
    exact absurd numeral (by decide)
  cases x <;> cases y <;>
    simp only [rangeTail, Bool.false_eq_true, if_false, if_true, List.cons_append, List.nil_append,
      List.cons.injEq, true_and] at h
  · obtain ⟨rfl, rfl⟩ := int_append_inj stops stops' h
    exact ⟨rfl, rfl, rfl⟩
  · exact (dotless h).elim
  · exact (dotless h.symm).elim
  · obtain ⟨rfl, rfl⟩ := int_append_inj stops stops' h
    exact ⟨rfl, rfl, rfl⟩

/-! ### Quoted texts -/

theorem quote_append_inj {units units' : List ByteString.Glyph} {rest rest' : List Char}
    (h : ByteString.quote units ++ '\x22' :: rest = ByteString.quote units' ++ '\x22' :: rest') :
    ByteString.quote units = ByteString.quote units' ∧ rest = rest' := by
  have first := Raw.Reader.quotedBody_quote units rest
  rw [h, Raw.Reader.quotedBody_quote units' rest'] at first
  simpa [eq_comm] using first

/-- A literal determines the bytes of its string, and where it ends. -/
theorem ByteString.inspect_append_inj {s t : ByteString} {rest rest' : List Char}
    (h : s.inspect.toList ++ rest = t.inspect.toList ++ rest') :
    s.bytes = t.bytes ∧ rest = rest' := by
  simp only [inspect, String.toList_ofList, List.cons_append, List.append_assoc, List.nil_append,
    List.cons.injEq, true_and] at h
  obtain ⟨body, rests⟩ := quote_append_inj h
  exact ⟨bytes_eq_of_quote_eq body, rests⟩

/-! ### Symbols -/

namespace Symbol

theorem not_separator_of_isNameChar {c : Char} (h : isNameChar c = true) :
    (!isSeparator c) = true := by
  rw [Bool.not_eq_true', ← Bool.not_eq_true]
  intro separator
  obtain rfl | rfl : c = ',' ∨ c = ')' := by simpa [isSeparator] using separator
  all_goals exact absurd h (by decide)

theorem isNameChar_of_isNameStart {c : Char} (h : isNameStart c = true) :
    isNameChar c = true := by
  simp only [isNameStart, isNameChar, Char.isAlphanum, Bool.or_eq_true] at h ⊢
  tauto

theorem isNameChar_of_isDigit {c : Char} (h : c.isDigit = true) : isNameChar c = true := by
  simp only [isNameChar, Char.isAlphanum, h, Bool.or_true, Bool.true_or]

theorem all_not_separator_of_isName {name : List Char} (h : isName name = true) :
    name.all (!isSeparator ·) = true := by
  cases name with
  | nil => rfl
  | cons c tail =>
    obtain ⟨start, chars⟩ := Raw.isName_cons h
    rw [List.all_cons, not_separator_of_isNameChar (isNameChar_of_isNameStart start),
      Bool.true_and, List.all_eq_true]
    intro d mem
    exact not_separator_of_isNameChar (chars d mem)

theorem eq_or_all_not_separator_of_isSpecialGlobal {name : List Char}
    (h : isSpecialGlobal name = true) :
    name = [','] ∨ name.all (!isSeparator ·) = true := by
  have parenthesis : specialGlobals.contains ')' = false := by cbv
  unfold isSpecialGlobal at h
  simp only [Bool.or_eq_true, Bool.and_eq_true, List.all_eq_true] at h
  obtain ⟨-, digits⟩ | mark := h
  · right
    rw [List.all_eq_true]
    intro c mem
    exact not_separator_of_isNameChar (isNameChar_of_isDigit (digits c mem))
  · split at mark
    case h_1 c =>
      by_cases comma : c = ','
      · exact .inl (by rw [comma])
      · have other : c ≠ ')' := by
          rintro rfl
          rw [parenthesis] at mark
          cases mark
        exact .inr (by simp [isSeparator, comma, other])
    case h_2 => cases mark

/-- One name alone has a separator in it and is yet written bare. -/
theorem eq_or_all_not_separator_of_isPlain {text : List Char} (plain : isPlain text = true) :
    text = ['$', ','] ∨ text.all (!isSeparator ·) = true := by
  have bareOperators : ∀ op ∈ operators, op.toList.all (!isSeparator ·) = true := by
    decide +kernel
  unfold isPlain at plain
  simp only [Bool.or_eq_true] at plain
  obtain ((name | marked) | sigil) | operator := plain
  · exact .inr (all_not_separator_of_isName name)
  · obtain ⟨name, mark, rfl, isMark, isName⟩ := Raw.exists_of_isMarkedName marked
    have bare : (!isSeparator mark) = true := by
      simp only [Bool.or_eq_true, beq_iff_eq] at isMark
      obtain (rfl | rfl) | rfl := isMark
      all_goals decide
    right
    rw [List.all_append, all_not_separator_of_isName isName, List.all_cons, bare]
    rfl
  · split at sigil
    case h_1 name =>
      right
      rw [List.all_cons, List.all_cons, all_not_separator_of_isName sigil]
      decide
    case h_2 name _ =>
      right
      rw [List.all_cons, all_not_separator_of_isName sigil]
      decide
    case h_3 name =>
      obtain name | special := Bool.or_eq_true_iff.1 sigil
      · right
        rw [List.all_cons, all_not_separator_of_isName name]
        decide
      · obtain rfl | bare := eq_or_all_not_separator_of_isSpecialGlobal special
        · exact .inl rfl
        · right
          rw [List.all_cons, bare]
          decide
    case h_4 => cases sigil
  · have bare := bareOperators _ (List.contains_iff_mem.1 operator)
    rw [String.toList_ofList] at bare
    exact .inr bare

/-- A name that is written bare is not taken for a quoted one. -/
theorem not_isPlain_quote (tail : List Char) : isPlain ('\x22' :: tail) = false := by
  rw [← Bool.not_eq_true]
  intro plain
  have read := Raw.bareSymbol?_append plain (by simp) Raw.delimited_nil
  cases read

theorem toList_inspect_of_isPlain {name : String} (plain : isPlain name.toList = true) :
    (inspect name).toList = ':' :: name.toList := by
  simp [inspect, plain]

theorem toList_inspect_of_not_isPlain {name : String} (quoted : isPlain name.toList = false) :
    (inspect name).toList = ':' :: (ByteString.ofText name).inspect.toList := by
  simp [inspect, quoted]

theorem plain_append_inj {text text' rest rest' : List Char} (plain : isPlain text = true)
    (plain' : isPlain text' = true) (separated : Separated rest) (separated' : Separated rest')
    (h : text ++ rest = text' ++ rest') : text = text' ∧ rest = rest' := by
  have stops {u : List Char} (separated : Separated u) : Stops (!isSeparator ·) u :=
    separated.stops rfl rfl
  -- The comma of `:$,` would leave a bare dollar sign before it.
  have apart {other u v : List Char} (bare : other.all (!isSeparator ·) = true)
      (ended : Separated v) (eq : ['$', ','] ++ u = other ++ v) : isPlain other = false := by
    have cut : ['$'] ++ ',' :: u = other ++ v := eq
    obtain ⟨dollar, -⟩ := append_inj_of_stops (by decide) bare
      (stops (separated_cons (by decide) u)) (stops ended) cut
    rw [← dollar]
    decide
  obtain rfl | bare := eq_or_all_not_separator_of_isPlain plain
  · obtain rfl | bare' := eq_or_all_not_separator_of_isPlain plain'
    · exact ⟨rfl, List.append_cancel_left h⟩
    · rw [apart bare' separated' h] at plain'
      cases plain'
  · obtain rfl | bare' := eq_or_all_not_separator_of_isPlain plain'
    · rw [apart bare separated h.symm] at plain
      cases plain
    · exact append_inj_of_stops bare bare' (stops separated) (stops separated') h

/-- Every name that is written bare has a first character, and it is no quote. -/
theorem plain_append_ne_quote {text rest rest' : List Char} (plain : isPlain text = true) :
    text ++ rest ≠ '\x22' :: rest' := by
  intro h
  cases text with
  | nil => cases plain
  | cons c tail =>
    obtain ⟨rfl, -⟩ := List.cons.inj h
    rw [not_isPlain_quote] at plain
    cases plain

/-- The text of a symbol determines its name, and where it ends. -/
theorem inspect_append_inj {s t : String} {rest rest' : List Char} (separated : Separated rest)
    (separated' : Separated rest') (h : (inspect s).toList ++ rest = (inspect t).toList ++ rest') :
    s = t ∧ rest = rest' := by
  have quotes (name : String) : ∃ body, (ByteString.ofText name).inspect.toList = '\x22' :: body :=
    ⟨_, String.toList_ofList⟩
  by_cases plain : isPlain s.toList = true
  · rw [toList_inspect_of_isPlain plain] at h
    by_cases plain' : isPlain t.toList = true
    · rw [toList_inspect_of_isPlain plain'] at h
      obtain ⟨names, rests⟩ :=
        plain_append_inj plain plain' separated separated' (List.cons.inj h).2
      exact ⟨String.toList_injective names, rests⟩
    · obtain ⟨body, text⟩ := quotes t
      rw [toList_inspect_of_not_isPlain (by simpa using plain'), text] at h
      exact absurd (List.cons.inj h).2 (plain_append_ne_quote plain)
  · rw [toList_inspect_of_not_isPlain (by simpa using plain)] at h
    by_cases plain' : isPlain t.toList = true
    · obtain ⟨body, text⟩ := quotes s
      rw [toList_inspect_of_isPlain plain', text] at h
      exact absurd (List.cons.inj h).2.symm (plain_append_ne_quote plain')
    · rw [toList_inspect_of_not_isPlain (by simpa using plain')] at h
      obtain ⟨bytes, rests⟩ := ByteString.inspect_append_inj (List.cons.inj h).2
      refine ⟨?_, rests⟩
      rw [← Utf8.toText_ofText s, ← Utf8.toText_ofText t]
      exact congrArg Utf8.toText bytes

end Symbol

/-! ### Items -/

namespace Item

mutual

/-- Whether an item is of a kind that its text determines: the tags in it are words, and its
strings are in the given encoding. -/
def isShowable (encoding : Encoding) : Item → Bool
  | .node tag items _ _ =>
    !tag.toList.isEmpty && tag.toList.all Symbol.isNameChar && areShowable encoding items
  | .nil | .bool _ | .sym _ | .int _ | .range _ _ _ => true
  | .str s => s.encoding == encoding
  | _ => false

/-- Whether all items of a sequence are of such kinds. -/
def areShowable (encoding : Encoding) : List Item → Bool
  | [] => true
  | item :: rest => isShowable encoding item && areShowable encoding rest

end

/-- What the first character of an item tells about it. -/
inductive Lead where
  | node
  | nil
  | bool (b : Bool)
  | symbol
  | string
  | number
deriving DecidableEq

/-- What a first character tells. -/
def Lead.ofChar (c : Char) : Lead :=
  if c == 's' then .node
  else if c == 'n' then .nil
  else if c == 't' then .bool true
  else if c == 'f' then .bool false
  else if c == ':' then .symbol
  else if c == '\x22' then .string
  else .number

/-- What there is to tell about an item. -/
def lead : Item → Lead
  | .node _ _ _ _ => .node
  | .nil => .nil
  | .bool b => .bool b
  | .sym _ => .symbol
  | .str _ => .string
  | _ => .number

theorem Lead.ofChar_of_isNumeral {c : Char} (h : isNumeral c = true) : ofChar c = .number := by
  have other (d : Char) (letter : isNumeral d = false) : (c == d) = false := by
    rw [beq_eq_false_iff_ne]
    rintro rfl
    rw [h] at letter
    cases letter
  simp only [ofChar, other 's' (by decide), other 'n' (by decide), other 't' (by decide),
    other 'f' (by decide), other ':' (by decide), other '\x22' (by decide), Bool.false_eq_true,
    if_false]

variable {encoding : Encoding} {x y : Item} {rest rest' : List Char}

/-- The first character of an item tells what there is to tell about it. -/
theorem exists_render_eq_cons (shown : x.isShowable encoding = true) :
    ∃ c tail, render false x = c :: tail ∧ Lead.ofChar c = x.lead := by
  cases x with
  | node tag items line comments => exact ⟨_, _, by rw [render]; rfl, rfl⟩
  | nil => exact ⟨'n', _, rfl, rfl⟩
  | bool b =>
    cases b
    · exact ⟨'f', _, rfl, rfl⟩
    · exact ⟨'t', _, rfl, rfl⟩
  | sym name =>
    refine ⟨':', (Symbol.inspect name).toList.tail, ?_, rfl⟩
    rw [render, Symbol.inspect]
    split <;> simp
  | int n =>
    obtain ⟨c, tail, text, numeral⟩ := exists_toString_eq_cons n
    exact ⟨c, tail, by rw [render, text], Lead.ofChar_of_isNumeral numeral⟩
  | range start stop exclusive =>
    obtain ⟨c, tail, text, numeral⟩ := exists_toString_eq_cons start
    refine ⟨c, tail ++ rangeTail stop exclusive, ?_, Lead.ofChar_of_isNumeral numeral⟩
    rw [render, toList_rangeText, text, List.cons_append]
  | str s => exact ⟨'\x22', _, by rw [render, ByteString.inspect, String.toList_ofList]; rfl, rfl⟩
  | bigInt => cases shown
  | float => cases shown
  | regexp => cases shown
  | rational => cases shown
  | imaginary => cases shown

theorem lead_eq_of_render_append (shown : x.isShowable encoding = true)
    (shown' : y.isShowable encoding = true) (h : render false x ++ rest = render false y ++ rest') :
    x.lead = y.lead := by
  obtain ⟨c, tail, text, lead⟩ := exists_render_eq_cons shown
  obtain ⟨d, tail', text', lead'⟩ := exists_render_eq_cons shown'
  rw [text, text'] at h
  obtain ⟨rfl, -⟩ := List.cons.inj h
  rw [← lead, ← lead']

theorem cases_of_number (number : x.lead = .number) (shown : x.isShowable encoding = true) :
    (∃ n, x = .int n) ∨ ∃ start stop exclusive, x = .range start stop exclusive := by
  cases x with
  | int n => exact .inl ⟨n, rfl⟩
  | range start stop exclusive => exact .inr ⟨start, stop, exclusive, rfl⟩
  | node => cases number
  | nil => cases number
  | bool => cases number
  | sym => cases number
  | str => cases number
  | bigInt => cases shown
  | float => cases shown
  | regexp => cases shown
  | rational => cases shown
  | imaginary => cases shown

/-- Integers and ranges are told apart by what follows the first number. -/
theorem same_of_number_append (number : x.lead = .number) (number' : y.lead = .number)
    (shown : x.isShowable encoding = true) (shown' : y.isShowable encoding = true)
    (separated : Separated rest) (separated' : Separated rest')
    (h : render false x ++ rest = render false y ++ rest') :
    x.same y = true ∧ rest = rest' := by
  have stops {u : List Char} (separated : Separated u) : Stops isNumeral u :=
    separated.stops rfl rfl
  have dots {stop : Int} {exclusive : Bool} {u : List Char} :
      ¬ Separated (rangeTail stop exclusive ++ u) := by
    intro separated
    exact absurd (separated '.' rfl) (by decide)
  obtain ⟨m, rfl⟩ | ⟨start, stop, exclusive, rfl⟩ := cases_of_number number shown
  · obtain ⟨n, rfl⟩ | ⟨start, stop, exclusive, rfl⟩ := cases_of_number number' shown'
    · rw [render, render] at h
      obtain ⟨rfl, rests⟩ := int_append_inj (stops separated) (stops separated') h
      exact ⟨by simp [same], rests⟩
    · rw [render, render, toList_rangeText, List.append_assoc] at h
      obtain ⟨-, rfl⟩ := int_append_inj (stops separated) (stops_rangeTail stop exclusive rest') h
      exact absurd separated dots
  · obtain ⟨n, rfl⟩ | ⟨start', stop', exclusive', rfl⟩ := cases_of_number number' shown'
    · rw [render, render, toList_rangeText, List.append_assoc] at h
      obtain ⟨-, rfl⟩ := int_append_inj (stops_rangeTail stop exclusive rest) (stops separated') h
      exact absurd separated' dots
    · rw [render, render, toList_rangeText, toList_rangeText, List.append_assoc,
        List.append_assoc] at h
      obtain ⟨rfl, tails⟩ := int_append_inj (stops_rangeTail stop exclusive rest)
        (stops_rangeTail stop' exclusive' rest') h
      obtain ⟨rfl, rfl, rests⟩ := rangeTail_append_inj (stops separated) (stops separated') tails
      exact ⟨by simp [same], rests⟩

/-- Items other than nodes that begin one text are the same. -/
theorem same_of_scalar_append (single : x.lead ≠ .node) (shown : x.isShowable encoding = true)
    (shown' : y.isShowable encoding = true) (separated : Separated rest)
    (separated' : Separated rest') (h : render false x ++ rest = render false y ++ rest') :
    x.same y = true ∧ rest = rest' := by
  have leads : y.lead = x.lead := (lead_eq_of_render_append shown shown' h).symm
  cases which : x.lead with
  | node => exact absurd which single
  | nil =>
    rw [which] at leads
    cases x <;> cases which
    cases y <;> cases leads
    exact ⟨rfl, List.append_cancel_left h⟩
  | bool b =>
    rw [which] at leads
    cases x <;> cases which
    cases y <;> cases leads
    exact ⟨by simp [same], List.append_cancel_left h⟩
  | symbol =>
    rw [which] at leads
    cases x <;> cases which
    cases y <;> cases leads
    rw [render, render] at h
    obtain ⟨rfl, rests⟩ := Symbol.inspect_append_inj separated separated' h
    exact ⟨by simp [same], rests⟩
  | string =>
    rw [which] at leads
    cases x <;> cases which
    cases y <;> cases leads
    rename_i s t
    rw [render, render] at h
    obtain ⟨bytes, rests⟩ := ByteString.inspect_append_inj h
    have encodings : s.encoding = t.encoding := by
      simp only [isShowable, beq_iff_eq] at shown shown'
      rw [shown, shown']
    have equal : s = t := by
      cases s
      cases t
      simp_all
    exact ⟨by simp [same, equal], rests⟩
  | number =>
    rw [which] at leads
    exact same_of_number_append which leads shown shown' separated separated' h

/-- What follows the tag of a node begins with a separator. -/
theorem separated_renderAll_append (items : List Item) (rest : List Char) :
    Separated (renderAll false items ++ ')' :: rest) := by
  cases items with
  | nil => exact separated_cons (by decide) rest
  | cons item items =>
    rw [renderAll]
    exact separated_cons (by decide) _

mutual

/-- Items that begin one text are the same, and what follows them is the same. -/
theorem same_of_render_append (encoding : Encoding) (x y : Item) {rest rest' : List Char}
    (shown : x.isShowable encoding = true) (shown' : y.isShowable encoding = true)
    (separated : Separated rest) (separated' : Separated rest')
    (h : render false x ++ rest = render false y ++ rest') :
    x.same y = true ∧ rest = rest' := by
  cases x with
  | node tag items line comments =>
    have leads := lead_eq_of_render_append shown shown' h
    cases y with
    | node tag' items' line' comments' =>
      simp only [isShowable, Bool.and_eq_true] at shown shown'
      rw [render, render] at h
      have h : tag.toList ++ (renderAll false items ++ ')' :: rest) =
          tag'.toList ++ (renderAll false items' ++ ')' :: rest') := by
        cases line <;> cases line' <;> simpa [lineMark] using h
      obtain ⟨tags, bodies⟩ := append_inj_of_stops shown.1.2 shown'.1.2
        ((separated_renderAll_append items rest).stops rfl rfl)
        ((separated_renderAll_append items' rest').stops rfl rfl) h
      obtain ⟨inside, rests⟩ := sameAll_of_renderAll_append encoding items items' shown.2 shown'.2
        bodies
      refine ⟨?_, rests⟩
      rw [same, inside, String.toList_injective tags, beq_self_eq_true, Bool.and_true]
    | _ => cases leads
  | _ => exact same_of_scalar_append (by simp [lead]) shown shown' separated separated' h

/-- Items of nodes that go on alike up to the end of the node are the same. -/
theorem sameAll_of_renderAll_append (encoding : Encoding) (xs ys : List Item)
    {rest rest' : List Char} (shown : areShowable encoding xs = true)
    (shown' : areShowable encoding ys = true)
    (h : renderAll false xs ++ ')' :: rest = renderAll false ys ++ ')' :: rest') :
    sameAll xs ys = true ∧ rest = rest' := by
  cases xs with
  | nil =>
    cases ys with
    | nil => exact ⟨rfl, (List.cons.inj h).2⟩
    | cons y ys =>
      rw [renderAll, renderAll] at h
      cases h
  | cons x xs =>
    cases ys with
    | nil =>
      rw [renderAll, renderAll] at h
      cases h
    | cons y ys =>
      simp only [areShowable, Bool.and_eq_true] at shown shown'
      simp only [renderAll, List.cons_append, List.append_assoc, List.cons.injEq, true_and] at h
      obtain ⟨first, others⟩ := same_of_render_append encoding x y shown.1 shown'.1
        (separated_renderAll_append xs rest) (separated_renderAll_append ys rest') h
      obtain ⟨inside, rests⟩ := sameAll_of_renderAll_append encoding xs ys shown.2 shown'.2 others
      exact ⟨by rw [sameAll, first, inside, Bool.and_true], rests⟩

end

end Item

/-- Forms with one text are the same form, up to lines and comments. -/
theorem Form.same_of_text_eq (encoding : Encoding) {f g : Form}
    (shown : f.toItem.isShowable encoding = true) (shown' : g.toItem.isShowable encoding = true)
    (h : f.text = g.text) : f.same g = true := by
  have separated : Separated [] := by simp [Separated]
  have texts : f.toItem.render false = g.toItem.render false := String.ofList_injective h
  exact (Item.same_of_render_append encoding f.toItem g.toItem shown shown' separated separated
    (by rw [texts])).1

/-- A node with a symbol that ends in a comma, a broken string, a range and a node inside. -/
def Form.sample (line : Option Nat) (comments : Option String) : Form where
  tag := "defn"
  items := [.sym "$,", .sym "[]=", .sym "a b", .str ⟨[0xFF, 0x22, 0x0A], .utf8⟩, .range (-1) 2 true,
    .node "self" [.nil, .bool false, .int 3] line none]
  line := line
  comments := comments

theorem Form.same_sample :
    (sample (some 3) none).text =
      "s(:defn, :$,, :[]=, :\"a b\", \"\\xFF\\\"\\n\", -1...2, s(:self, nil, false, 3))" ∧
    (sample (some 3) none).same (sample none (some "# note")) = true :=
  ⟨by decide +kernel,
    same_of_text_eq .utf8 (by decide +kernel) (by decide +kernel) (by decide +kernel)⟩

end RubyNormalForm
