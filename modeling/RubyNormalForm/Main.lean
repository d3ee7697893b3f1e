import RubyNormalForm.Cli.Run

/-!
# The program

Takes a snapshot of the files that the arguments name, runs the command on it, and prints
what it printed.
-/

namespace RubyNormalForm.Cli

/-- What is found at a path on disk where something of the given kind stands. -/
partial def contents (path : String) : IO.FS.FileType → IO Entry
  | .dir => do
    try
      let mut entries := []
      for entry in ← (← IO.FS.realPath path).readDir do
        let kind := (← entry.path.symlinkMetadata).type
        entries := (entry.fileName, ← contents entry.path.toString kind) :: entries
      return .dir entries
    catch _ => return .locked
  | .file => do
    try return .file (← IO.FS.readBinFile path).toList
    catch _ => return .unreadable
  | _ => return .special

/-- What is found at a path that an argument names. Links are followed here, and whatever is no
directory is read. -/
def snapshot (path : String) : IO (Option Entry) := do
  try
    let isDir ← (← IO.FS.realPath path).isDir
    return some (← contents path (if isDir then .dir else .file))
  catch _ => return none

/-- The paths that a list of arguments names. -/
def paths (args : List String) : List String :=
  match Request.ofArgs? args with
  | some (.run o) => o.path :: o.config.toList
  | _ => []

end RubyNormalForm.Cli

open RubyNormalForm.Cli in
/-- Runs the command. -/
def main (args : List String) : IO UInt32 := do
  let found ← (paths args).mapM fun path => do return (path, ← snapshot path)
  let outcome := run (fun path => (found.lookup path).join) args
  IO.print outcome.stdout
  match outcome.ending with
  | .done => pure ()
  | .failed failure => IO.eprintln ("ruby_canon::" ++ failure.code ++ ": " ++ failure.message)
  | .usage => IO.eprintln "usage: ruby-canon [OPTIONS] <PATH>"
  return UInt32.ofNat outcome.status
