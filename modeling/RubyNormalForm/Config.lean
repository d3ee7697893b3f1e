import RubyNormalForm.Json.Reader

/-!
# Configuration

The settings that stay the same from one source file to the next. They are read from a JSON
object whose other members are ignored, or from an array with at most one truth value.
-/

namespace RubyNormalForm

/-- The settings of a run. -/
structure Config where
  /-- Keep every literal in the encoding of its source file. -/
  extraCompatible : Bool := false
deriving DecidableEq

namespace Config

open JsonReader

/-- The name of the setting `extraCompatible`. -/
def extraCompatibleKey : String := "extra_compatible"

/-- Reads the members of an object up to its closing brace. The setting may be given only
once. -/
def members : (fuel : Nat) → Option Bool → List Char → Option (Option Bool × List Char)
  | 0, _, _ => none
  | fuel + 1, found, text =>
    match text with
    | '\x22' :: rest => do
      let (key, rest) ← string? rest
      match skipBlanks rest with
      | ':' :: rest =>
        let (found, rest) ←
          if key == extraCompatibleKey then
            match found, bool? (skipBlanks rest) with
            | none, some (value, rest) => some (some value, rest)
            | _, _ => none
          else (skipAny (skipBlanks rest)).map fun rest => (found, rest)
        match skipBlanks rest with
        | '\x7d' :: rest => some (found, rest)
        | ',' :: rest => members fuel found (skipBlanks rest)
        | _ => none
      | _ => none
    | _ => none

/-- Reads an object or an array of settings. -/
def document (text : List Char) : Option (Option Bool × List Char) :=
  match text with
  | '\x7b' :: rest =>
    match skipBlanks rest with
    | '\x7d' :: rest => some (none, rest)
    | rest => members rest.length none rest
  | '[' :: rest =>
    match skipBlanks rest with
    | ']' :: rest => some (none, rest)
    | rest => do
      let (value, rest) ← bool? rest
      match skipBlanks rest with
      | ']' :: rest => some (some value, rest)
      | _ => none
  | _ => none

/-- The settings that a JSON text gives; `none` if it is not well formed. -/
def ofJson? (text : String) : Option Config := do
  let (found, rest) ← document (skipBlanks text.toList)
  if (skipBlanks rest).isEmpty then return { extraCompatible := found.getD false } else none

end Config

end RubyNormalForm
