import ComponentTags.Command.Platform
import ComponentTags.Compile.Project
import ComponentTags.Config.Load

/-!
# Running commands

A command is run on a world: files, a standard input and a variable of the environment. Its report
says what goes to the standard output and what is left in the file that is written. An error that
the command does not expect is a crash, and may come when the file is written already.
-/

namespace ComponentTags.Command

/-- What a command can see. -/
structure World where
  files : FileSystem
  /-- The standard input. -/
  input : Content
  /-- The variable that names the configuration file. -/
  environment : Option Text

/-- Why a command fails. -/
inductive Failure where
  /-- The command line makes no sense. -/
  | usage (complaint : Text)
  /-- The template is not read. -/
  | template (error : ReadError)
  /-- The configuration is not loaded. -/
  | config (error : LoadError)
  /-- A template is not compiled, or nothing answers to a tag. -/
  | compile (error : CompileError)
  /-- An error that the command does not expect. -/
  | crash (complaint : Text)

def Failure.message : Failure → Text
  | usage complaint => complaint
  | template error => "Could not read template: ".toList ++ error.message
  | config error => "Could not read config: ".toList ++ error.message
  | compile error => error.message
  | crash complaint => complaint

/-- The status with which a failing command ends. -/
def Failure.status (lib : Platform) : Failure → Nat
  | usage _ => lib.badParameter
  | template _ => lib.badParameter
  | config _ => lib.badParameter
  | compile _ => lib.exception
  | crash _ => lib.crash

/-- What a command does. -/
structure Report where
  /-- What goes to the standard output, or why the command fails. -/
  output : Except Failure Text
  /-- The file that is opened for writing, and what is left in it. -/
  written : Option (Path × Content) := none
  /-- What is said about the file that is written. -/
  notice : Option Text := none
  /-- What is said on the way. -/
  log : List Text := []
  /-- The files whose existence was asked for. -/
  sought : List Path := []

def Report.files (r : Report) (w : World) : FileSystem :=
  match r.written with
  | some (path, content) => w.files.put path content
  | none => w.files

/-- What a command leaves on the standard output. -/
def Report.stdout (r : Report) : Text :=
  match r.output with
  | .ok text => text
  | .error _ => []

def Report.status (lib : Platform) (r : Report) : Nat :=
  match r.output with
  | .ok _ => 0
  | .error failure => failure.status lib

/-! ## What commands read -/

/-- The name that an option gives; an empty one counts as none. -/
def named? : Option Text → Option Text
  | some (c :: cs) => some (c :: cs)
  | _ => none

/-- What is in a template, or in the standard input for a hyphen. -/
def World.content? (w : World) (name : Text) : Option Content :=
  if name = ['-'] then some w.input else w.files.contents? (Path.ofText name)

/-- The text of a template. Bytes that are no text are not expected there. -/
def World.template (w : World) (name : Text) : Except Failure Text :=
  match w.content? name with
  | none => .error (.template (.missing (Path.ofText name)))
  | some content =>
    match content.read with
    | .ok text => .ok text
    | .error (.undecodable complaint) => .error (.crash complaint)
    | .error e => .error (.template e)

/-- What is said if reading the configuration of a name runs out of stack. -/
def World.overflow? (lib : Platform) (w : World) (named : Option Text) : Option Text :=
  (Config.file? named w.environment).bind fun path =>
    match w.files.read path with
    | .ok text => lib.overflow? text
    | .error _ => none

def World.config (lib : Platform) (w : World) (named : Option Text) : Except Failure Config :=
  match w.overflow? lib named with
  | some complaint => .error (.crash complaint)
  | none =>
    match Config.load w.files named w.environment with
    | .ok config => .ok config
    | .error e => .error (.config e)

/-- The files that a request reads by their names. -/
def Request.inputs (environment : Option Text) : Request → List Path
  | .compile r =>
    (if r.template = ['-'] then [] else [Path.ofText r.template]) ++
      (Config.file? (named? r.config) environment).toList
  | .resolve r => (Config.file? (named? r.config) environment).toList
  | .shown _ => []

/-- The files that were asked for when views were looked up. -/
def soughtFiles (config : Config) (events : List Event) : List Path :=
  events.flatMap fun event =>
    match event with
    | .sought view =>
      match (FileViews.ofConfig config).candidates view with
      | .ok paths => paths
      | .error _ => []
    | _ => []

/-! ## What commands write -/

/-- What goes to the standard output. -/
def printed (lib : Platform) (text : Text) : Except Failure Text :=
  (lib.echo text).mapError .crash

/-- What is said about a result in a file, with markup for the names. -/
def noticeOf (template output : Text) : Text :=
  "✅ Compiled [cyan]".toList ++ template ++ "[/] -> [cyan]".toList ++ output ++ "[/]".toList

/-- The report of a result: it goes to the file that the request names, or to the standard
output. Whether there is something to be said about the file shows when the file is written. -/
def deliver (lib : Platform) (w : World) (r : CompileRequest) (result : Text) (log : List Text)
    (sought : List Path) : Report :=
  match named? r.output with
  | none => { output := printed lib result, log, sought }
  | some name =>
    let path := Path.ofText name
    match w.files.write path result with
    | .refused complaint => { output := .error (.crash complaint), log, sought }
    | .broken left complaint =>
      { output := .error (.crash complaint), written := some (path, left), log, sought }
    | .whole =>
      match lib.print (noticeOf r.template name) with
      | .error complaint =>
        { output := .error (.crash complaint), written := some (path, .text result), log, sought }
      | .ok line =>
        { output := .ok [], written := some (path, .text result), notice := some line, log, sought }

/-! ## The commands -/

def runCompile (lib : Platform) (w : World) (r : CompileRequest) : Report :=
  match w.template r.template with
  | .error failure => { output := .error failure }
  | .ok source =>
    match w.config lib (named? r.config) with
    | .error failure => { output := .error failure }
    | .ok config =>
      let compiled := (Compiler.ofConfig config w.files r.strict).compile r.variants source
      let sought := soughtFiles config compiled.events
      match compiled.outcome with
      | .error e => { output := .error (.compile e), log := compiled.messages, sought }
      | .ok result => deliver lib w r result compiled.messages sought

def runResolve (lib : Platform) (w : World) (r : ResolveRequest) : Report :=
  match w.config lib (named? r.config) with
  | .error failure => { output := .error failure }
  | .ok config =>
    let resolved := (Compiler.ofConfig config w.files false).resolver.resolve r.tag
    let sought := soughtFiles config resolved.events
    match resolved.outcome with
    | .error e => { output := .error (.compile e), log := resolved.messages, sought }
    | .ok target =>
      let line := target.kind.word ++ [' '] ++ target.name ++ ['\n']
      { output := printed lib line, log := resolved.messages, sought }

/-- Runs what a command line asks for. -/
def run (lib : Platform) (w : World) : Request → Report
  | .compile r => runCompile lib w r
  | .resolve r => runResolve lib w r
  | .shown text => { output := .ok text }

def runWords (lib : Platform) (w : World) (words : List Text) : Report :=
  match lib.read words with
  | .error complaint => { output := .error (.usage complaint) }
  | .ok request => run lib w request

end ComponentTags.Command
