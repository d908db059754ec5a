import SchemaSketch.CommandLine.Run

/-!
The command itself: a run on real files.
-/
namespace SchemaSketch.CommandLine

def attempt? {α : Type} (action : IO α) : IO (Option α) := do
  try
    let a ← action
    pure (some a)
  catch _ => pure none

/-- A path leads somewhere if it can be opened, or fails to open for another reason than that
there is nothing. -/
def opens (path : String) : IO Bool := do
  try
    let _ ← IO.FS.Handle.mk path .read
    pure true
  catch
    | .noFileOrDirectory .. => pure false
    | .inappropriateType .. => pure false
    | _ => pure (path ≠ "")

def realWorld : World IO where
  isThere := opens
  read? path := attempt? (IO.FS.readFile path)
  write path content := do
    let written ← attempt? (IO.FS.writeFile path content)
    pure written.isSome
  input? := attempt? do
    let stdin ← IO.getStdin
    stdin.readToEnd

def complaint? : Ending → Option String
  | .done => none
  | .failed problem => some problem.message
  | .misuse => some "unexpected arguments; try --help"
  | .crashed .emptyZoomRange => some "the zoom bounds leave no factor"

end SchemaSketch.CommandLine

open SchemaSketch.CommandLine in
def main (args : List String) : IO UInt32 := do
  let outcome ← run realWorld args
  IO.print outcome.printed
  match complaint? outcome.ending with
  | none => pure ()
  | some text => IO.eprintln text
  pure outcome.ending.code.toUInt32
