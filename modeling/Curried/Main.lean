/-
  Curried.Main — the program: it gathers what a call needs, and writes the answer.

  The input is read to its end before anything runs.
-/

import Curried.CommandLine

namespace Curried.Main

open CommandLine

partial def readAll (input : IO.FS.Stream) (before : String) : IO String := do
  let line ← input.getLine
  if line.isEmpty then return before else readAll input (before ++ line)

def readVariables : IO Variables := do
  let found ← variableNames.mapM fun name => do return (name, ← IO.getEnv name)
  return found.filterMap fun (name, value) => value.map (name, ·)

/-- What a path leads to; what cannot be read counts as missing. -/
def look (path : String) : IO FileState := do
  try
    if ← (← IO.FS.realPath path).isDir then return .directory
    else return .file (← IO.FS.readFile path)
  catch _ => return .missing

def gather (words : List String) : IO Call := do
  let file ← match programPath? words with
    | some path => look path
    | none => pure .missing
  let input ← if readsInput words then readAll (← IO.getStdin) "" else pure ""
  return { words := words, environment := ← readVariables, files := fun _ => file, input := input }

end Curried.Main

open Curried in
def main (words : List String) : IO UInt32 := do
  let answer := CommandLine.answer (← Main.gather words)
  let out ← IO.getStdout
  let err ← IO.getStderr
  out.putStr (answer.output (← out.isTty))
  out.flush
  err.putStr (answer.errors (← err.isTty))
  return answer.exitCode.toUInt32
