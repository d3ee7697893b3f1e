import RubyNormalForm.Events.Builder
import RubyNormalForm.Normalize

/-!
# Replaying events

The work of a grammar as a recording: it shifts tokens, pushes values, and reduces the
topmost values to one. Replaying the recording builds the raw tree that the grammar would.
-/

namespace RubyNormalForm

/-- A step of a grammar. -/
inductive Step where
  /-- A token, whose value is kept or dropped. -/
  | scan (kind text : String) (line column : Nat) (keep : Bool)
  | push (r : Raw)
  /-- A reduction of the topmost values. -/
  | reduce (event : String) (arity : Nat)

/-- What an event gave, and the state of the comments after it. -/
structure TraceEntry where
  value : Result Raw
  state : CommentState

/-- A finished replay. -/
structure Replay where
  /-- One entry for each event that was reported. -/
  trace : List TraceEntry
  builder : Builder
  /-- The value that was left, if there was one. -/
  outcome : Result (Option Raw)

namespace Replay

/-- The value left at the end. -/
def leftover : List Raw → Result (Option Raw)
  | [] => .ok none
  | [r] => .ok (some r)
  | rs => .error (.malformed "program" (.leftoverValues rs.length))

/-- Replays steps on a stack of values, the topmost first. -/
def run (b : Builder) (stack : List Raw) : List Step → Replay
  | [] => ⟨[], b, leftover stack⟩
  | .push r :: steps => run b (r :: stack) steps
  | .scan kind text line column keep :: steps =>
    let (b, r) := b.scan kind text line column
    let rest := run b (if keep then r :: stack else stack) steps
    { rest with trace := ⟨.ok r, b.comments⟩ :: rest.trace }
  | .reduce event arity :: steps =>
    if stack.length < arity then
      ⟨[], b, .error (.malformed event (.missingValues arity stack.length))⟩
    else
      let (b, result) := b.reduce event (stack.take arity).reverse
      match result with
      | .error e => ⟨[⟨.error e, b.comments⟩], b, .error e⟩
      | .ok r =>
        let rest := run b (r :: stack.drop arity) steps
        { rest with trace := ⟨.ok r, b.comments⟩ :: rest.trace }

/-- Replays steps from the beginning. -/
def ofSteps (source : Source) (steps : List Step) : Replay :=
  run (.ofSource source) [] steps

end Replay

/-- Replays the events of a source file and gives the result its normal form. -/
def parse (config : Config) (source : Source) (steps : List Step) : Result (Option Form) := do
  let replay := Replay.ofSteps source steps
  let outcome ← replay.outcome
  replay.builder.finish
  match outcome with
  | some r => normalize config source r
  | none => return none

end RubyNormalForm
