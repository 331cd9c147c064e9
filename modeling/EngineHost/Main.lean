import EngineHost.CommandLine

/-!
# The program

Reads the arguments, the environment and the files that they name, and leaves the rest to
`CommandLine.run`.
-/

namespace EngineHost

/-- The contents of a file. -/
def readContents (path : Bytes) : IO (Except FileFault Bytes) := do
  try
    let contents ← IO.FS.readBinFile (Bytes.lossyText path)
    return .ok contents.data.toList
  catch
    | .noFileOrDirectory .. => return .error .notFound
    | e => return .error (.other (toString e))

/-- The variables of the environment that matter. -/
def readEnvironment : IO Environment := do
  let names := [Config.modulePathVariable, Config.poolSizeVariable, Config.optimizeVariable]
  let found ← names.filterMapM fun name => do
    return (← IO.getEnv name).map fun value => (name, Bytes.ofText value)
  return ⟨found⟩

end EngineHost

open EngineHost in
/-- Runs the program. No engine is linked in, so the only module that can be compiled is the one
without parts. -/
def main (arguments : List String) : IO UInt32 := do
  let args := arguments.map Bytes.ofText
  let env ← readEnvironment
  let contents ← (CommandLine.paths env args).mapM fun path => do
    return (path, ← readContents path)
  let files := fun path => (contents.lookup path).getD (.error .notFound)
  let completion := CommandLine.run (Compiler.bare ()) files env args
  (← IO.getStdout).write (ByteArray.mk completion.output.toArray)
  for complaint in completion.complaint do
    (← IO.getStderr).putStrLn complaint
  return completion.status.toUInt32
