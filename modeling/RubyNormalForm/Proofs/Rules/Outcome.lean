import RubyNormalForm.Normalize

/-!
# What successful results satisfy

A postcondition of a computation that may fail says nothing about its errors. The rules are
sequences of such computations, and the lemmas below take a postcondition back through them
one step at a time. An invariant of normal forms that every rule preserves holds of every
result of the normaliser.
-/

namespace RubyNormalForm

/-- Every value that the computation gives has the property. -/
def Ensures {α : Type} (x : Result α) (post : α → Prop) : Prop :=
  ∀ a, x = .ok a → post a

section

variable {α β : Type} {post : α → Prop}

@[simp]
theorem ensures_ok (a : α) : Ensures (.ok a) post ↔ post a := by
  constructor
  · intro h
    exact h a rfl
  · intro h b same
    cases same
    exact h

@[simp]
theorem ensures_pure (a : α) : Ensures (pure a) post ↔ post a :=
  ensures_ok a

@[simp]
theorem ensures_error (e : Error) : Ensures (.error e) post := by
  intro a same
  cases same

@[simp]
theorem ensures_throw (e : Error) : Ensures (throw e : Result α) post :=
  ensures_error e

@[simp]
theorem ensures_bind (x : Result β) (f : β → Result α) :
    Ensures (x >>= f) post ↔ Ensures x (fun b => Ensures (f b) post) := by
  cases x with
  | error e => exact ⟨fun _ => ensures_error e, fun _ => ensures_error e⟩
  | ok b =>
    rw [ensures_ok]
    exact Iff.rfl

@[simp]
theorem ensures_map (x : Result β) (f : β → α) :
    Ensures (x.map f) post ↔ Ensures x (fun b => post (f b)) := by
  cases x with
  | error e => exact ⟨fun _ => ensures_error e, fun _ => ensures_error e⟩
  | ok b =>
    rw [ensures_ok]
    exact ensures_ok (f b)

@[simp]
theorem ensures_functorMap (x : Result β) (f : β → α) :
    Ensures (f <$> x) post ↔ Ensures x (fun b => post (f b)) :=
  ensures_map x f

@[simp]
theorem ensures_ite (c : Prop) [Decidable c] (x y : Result α) :
    Ensures (if c then x else y) post ↔ (c → Ensures x post) ∧ (¬c → Ensures y post) := by
  by_cases h : c <;> simp only [h, if_true, if_false, true_implies, not_true_eq_false,
    not_false_eq_true, false_implies, and_true, true_and]

@[simp]
theorem ensures_true (x : Result α) : Ensures x (fun _ => True) := by
  intro _ _
  trivial

theorem Ensures.mono {x : Result α} {post' : α → Prop} (h : Ensures x post)
    (weaken : ∀ a, post a → post' a) : Ensures x post' := by
  intro a found
  exact weaken a (h a found)

theorem Ensures.of_forall {x : Result α} (always : ∀ a, post a) : Ensures x post := by
  intro a _
  exact always a

end

/-- A sequence succeeds if both of its steps do. -/
theorem bind_eq_ok {α β : Type} {x : Result α} {f : α → Result β} {b : β} :
    (x >>= f) = .ok b ↔ ∃ a, x = .ok a ∧ f a = .ok b := by
  cases x with
  | error e =>
    constructor
    · intro h
      cases h
    · rintro ⟨a, h, -⟩
      cases h
  | ok a =>
    constructor
    · intro h
      exact ⟨a, rfl, h⟩
    · rintro ⟨a', h, h'⟩
      cases h
      exact h'

theorem map_eq_ok {α β : Type} {x : Result α} {f : α → β} {b : β} :
    x.map f = .ok b ↔ ∃ a, x = .ok a ∧ f a = b := by
  cases x with
  | error e =>
    constructor
    · intro h
      cases h
    · rintro ⟨a, h, -⟩
      cases h
  | ok a =>
    constructor
    · intro h
      exact ⟨a, rfl, Except.ok.inj h⟩
    · rintro ⟨a', h, h'⟩
      cases h
      exact congrArg Except.ok h'

/-- The invariant holds of every normal form that the normaliser gives. -/
def Normalizer.Maintains (inner : Normalizer) (inv : Context → Form → Prop) : Prop :=
  ∀ ctx n, Ensures (inner ctx n) (inv ctx)

/-- The rule keeps the invariant if the normal forms of smaller nodes have it. -/
def Rule.Maintains (rule : Rule) (inv : Context → Form → Prop) : Prop :=
  ∀ inner : Normalizer, inner.Maintains inv → ∀ ctx n, Ensures (rule inner ctx n) (inv ctx)

/-- The rule for a tag stands in the table. -/
theorem mem_rules {tag : String} {rule : Rule} (found : rule? tag = some rule) :
    (tag, rule) ∈ rules := by
  obtain ⟨before, after, split, -⟩ := List.lookup_eq_some_iff.1 found
  simp [split]

/-- An invariant that every rule keeps, and that does not depend on the line settled last,
holds of all normal forms. -/
theorem normalizeNode_maintains {inv : Context → Form → Prop}
    (kept : ∀ entry ∈ rules, Rule.Maintains entry.2 inv)
    (settled : ∀ ctx n f, inv ctx f → inv ctx (settle ctx n f)) :
    normalizeNode.Maintains inv := by
  intro ctx n
  induction size : n.size using Nat.strongRecOn generalizing ctx n with
  | ind s ih =>
    subst size
    rw [normalizeNode_eq]
    rw [normalizeStep]
    split
    · exact ensures_error _
    · rename_i rule found
      rw [ensures_map]
      refine (kept _ (mem_rules found) _ ?_ ctx n).mono (settled ctx n)
      intro ctx m
      by_cases smaller : m.size < n.size
      · simp only [smaller, if_true]
        exact ih m.size smaller ctx m rfl
      · simp only [smaller, if_false]
        exact ensures_error _

end RubyNormalForm
