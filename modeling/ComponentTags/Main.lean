import ComponentTags.Command.Piped
import ComponentTags.Command.Run

/-!
# The program

Reads the command line, lets the command run on the files that it asks for, and carries out its
report. The variable that names the configuration file is the name of the program in capitals
with `_CONFIG` behind it.
-/

namespace ComponentTags.Command

/-- What bytes are the encoding of. -/
def decoded (bytes : ByteArray) : Content :=
  match String.fromUTF8? bytes with
  | some text => .text text.toList
  | none => .undecodable "The file is not in UTF-8.".toList

/-- What is in a file, if there is one. -/
def readFile? (path : Path) : IO (Option Content) := do
  try
    return some (decoded (← IO.FS.readBinFile (String.ofList path.toText)))
  catch
    | .noFileOrDirectory .. => return none
    | e => return some (.unreadable (toString e).toList)

/-- The file system with those of some files that there are. -/
def withFiles (fs : FileSystem) (paths : List Path) : IO FileSystem := do
  let mut fs := fs
  for path in paths do
    if let some content ← readFile? path then
      fs := fs.put path content
  return fs

/-- Runs a request, and runs it again with the files that it asked for until it asks for no other
ones. -/
partial def settle (w : World) (request : Request) (known : List Path) : IO Report := do
  let report := run .piped w request
  let asked := report.sought.filter fun path => !known.contains path
  if asked.isEmpty then return report
  settle { w with files := ← withFiles w.files asked } request (known ++ asked)

/-- Everything that stands in the standard input. -/
partial def readInput (stream : IO.FS.Stream) (done : ByteArray) : IO ByteArray := do
  let bytes ← stream.read 65536
  if bytes.isEmpty then return done else readInput stream (done ++ bytes)

/-- The name of the variable that names the configuration file. -/
def variableName : IO String := do
  let program := Path.ofText (toString (← IO.appPath)).toList
  return (String.ofList (program.parts.getLast?.getD [])).toUpper ++ "_CONFIG"

/-- What the request can see. -/
def worldFor (request : Request) : IO World := do
  let directory := Path.ofText (toString (← IO.currentDir)).toList
  let environment := (← IO.getEnv (← variableName)).map String.toList
  let input ←
    match request with
    | .compile r =>
      if r.template = ['-'] then readInput (← IO.getStdin) .empty else pure .empty
    | _ => pure .empty
  let files ← withFiles { directory, files := [] } (request.inputs environment)
  return ⟨files, decoded input, environment⟩

def isVerbose : Request → Bool
  | .compile r => r.verbose
  | .resolve r => r.verbose
  | _ => false

def carryOut (request : Request) (report : Report) : IO UInt32 := do
  if isVerbose request then
    for line in report.log do
      IO.eprintln (String.ofList line)
  if let some (path, .text text) := report.written then
    IO.FS.writeFile (String.ofList path.toText) (String.ofList text)
  if let some notice := report.notice then
    IO.eprintln (String.ofList notice)
  match report.output with
  | .ok text => IO.print (String.ofList text)
  | .error failure => IO.eprintln ("Error: " ++ String.ofList failure.message)
  return (report.status .piped).toUInt32

def runLine (args : List String) : IO UInt32 := do
  match Platform.piped.read (args.map String.toList) with
  | .error complaint =>
    IO.eprintln ("Error: " ++ String.ofList complaint)
    return Platform.piped.badParameter.toUInt32
  | .ok request =>
    let w ← worldFor request
    carryOut request (← settle w request [])

end ComponentTags.Command

/-- Runs the command line of the program. -/
def main (args : List String) : IO UInt32 :=
  ComponentTags.Command.runLine args
