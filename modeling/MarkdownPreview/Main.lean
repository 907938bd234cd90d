import MarkdownPreview.CommandLine.Run

/-! The program: it hands its arguments and the files they name to `CommandLine.execute`, and shows
the outcome when the run has ended, so that the run itself has an output without limits. -/

namespace MarkdownPreview.CommandLine

/-- What a file holds, or why it cannot be read. -/
def readFile (p : Path) : IO (Path × Except (List Char) (List Char)) := do
  try
    let text ← IO.FS.readFile (String.ofList p)
    return (p, .ok text.toList)
  catch e => return (p, .error (toString e).toList)

/-- The files that have been read, by path. -/
def filesOf (contents : List (Path × Except (List Char) (List Char))) : Config.Files := fun p =>
  match contents.find? (·.1 == p) with
  | some (_, content) => content
  | none => .error "not read".toList

end MarkdownPreview.CommandLine

open MarkdownPreview.CommandLine

def main (args : List String) : IO UInt32 := do
  let args := args.map (·.toList)
  let environment := (← IO.getEnv configVariable).map (·.toList)
  let paths := match parse environment args with
    | .ok i => i.paths
    | .error _ => []
  let contents ← paths.mapM readFile
  let outcome := execute Output.unlimited (filesOf contents) environment args
  IO.print (String.ofList outcome.stdout)
  if let some failure := outcome.failure then
    IO.eprintln (String.ofList failure.message)
  return outcome.status.toUInt32
