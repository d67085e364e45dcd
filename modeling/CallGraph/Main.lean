/-
  CallGraph.Main — the command on the files of the system.
-/

import CallGraph.CommandLine.Run

namespace CallGraph.CommandLine

/-- The bytes of a file, if it can be read. -/
def readFile? (path : String) : IO (Option ByteArray) := do
  try
    let bytes ← IO.FS.readBinFile path
    pure (some bytes)
  catch _ => pure none

/-- The file that a command line names, read if the command line is in order. -/
def readTrace? (words : List String) : IO (Option ByteArray) :=
  match parse words with
  | .error _ => pure none
  | .ok a => readFile? a.trace

def createFile? (path : String) : IO (Option IO.FS.Handle) := do
  try
    let file ← IO.FS.Handle.mk path .write
    pure (some file)
  catch _ => pure none

/-- Writes a document to a file of the system. -/
def deliverFile (path document : String) : IO Delivery := do
  match ← createFile? path with
  | none => pure .notCreated
  | some file =>
    try
      file.putStr document
      file.flush
      pure .written
    catch e => pure (Delivery.ofFailure document (toString e))

def runCommand (words : List String) : IO UInt32 := do
  let bytes ← readTrace? words
  let o ← (conclude words fun _ => bytes).outcome deliverFile
  let out ← IO.getStdout
  let err ← IO.getStderr
  out.putStr o.output
  err.putStr o.complaint
  pure o.code.toUInt32

end CallGraph.CommandLine

def main (words : List String) : IO UInt32 := CallGraph.CommandLine.runCommand words
