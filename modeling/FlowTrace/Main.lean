import FlowTrace.CommandLine.Response

/-!
# The program

Reads the graph file, prints the response and adds how long loading and running took.
-/

namespace FlowTrace

namespace CommandLine

/-- More moves than any run can make in practice. -/
def ampleMoves : Nat := Nat.pow 2 62

def readContents (path : String) : IO (Except String String) := do
  try
    return .ok (← IO.FS.readFile path)
  catch error =>
    match error with
    | .noFileOrDirectory .. => return .error "No such file or directory (os error 2)"
    | other => return .error (toString other)

def draw (length : Nat) : IO (List Float) :=
  (List.range length).mapM fun _ => do
    return Number.ofNat (← IO.rand 1 99)

def Response.print (response : Response) : IO UInt32 := do
  IO.eprint response.errors
  IO.print response.output
  return response.exit.toUInt32

def run (options : Options) : IO UInt32 := do
  let begun ← IO.monoNanosNow
  let contents ← readContents options.path
  let drawn ← draw (options.randomLength.getD 0)
  let chosen := plan options contents drawn
  match chosen with
  | .finished response => response.print
  | .run .. =>
      let loaded ← IO.monoNanosNow
      match chosen.respond? ampleMoves with
      | none => return 1
      | some response =>
          let code ← response.print
          let ended ← IO.monoNanosNow
          if options.format = .text then
            IO.println s!"Graph loading:    {loaded - begun}ns"
            IO.println s!"Execution:        {ended - loaded}ns"
          return code

end CommandLine
end FlowTrace

def main (arguments : List String) : IO UInt32 := do
  match FlowTrace.CommandLine.Options.parse? arguments with
  | some options => FlowTrace.CommandLine.run options
  | none =>
      IO.eprintln "error: unexpected arguments; give one graph file and its options"
      return 2
