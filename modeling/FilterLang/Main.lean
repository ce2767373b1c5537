import FilterLang.Config.Json
import FilterLang.Session

/-! The command line: filters as arguments, or an interactive session on standard input. -/

namespace FilterLang.Main

def configPath : String := "filter_query.json"

def loadConfig : IO Config := do
  try
    return Config.ofFileOrDefault (.bytes (← IO.FS.readBinFile configPath))
  catch _ => return {}

/-- Reads and answers lines until the session or the input ends; the result is the status. -/
partial def loop (c : Config) (shown : Session.Shown) (input output : IO.FS.Stream) : IO Nat := do
  let typed ← input.getLine
  if typed = "" then return 0
  match TypedLine.read? typed.toList with
  | none => return Session.brokenOff
  | some line =>
    match Session.step c shown (String.ofList line) with
    | none => return 0
    | some (said, shown) =>
      output.putStr said
      output.flush
      loop c shown input output

end FilterLang.Main

def main (filters : List String) : IO UInt32 := do
  let c ← FilterLang.Main.loadConfig
  let output ← IO.getStdout
  if filters.isEmpty then
    output.putStr FilterLang.Session.help
    return (← FilterLang.Main.loop c {} (← IO.getStdin) output).toUInt32
  else
    output.putStr (FilterLang.Session.batch c filters)
    return 0
