import ComponentTags.Command.Platform

/-!
# Command lines

A command line names a command and gives its options and its argument. Options have a long form,
`--output FILE` or `--output=FILE`, and some a short one, `-o FILE` or `-oFILE`; short flags may
be written in one, `-vo FILE`. Two hyphens alone end the options, and one hyphen alone is an
argument. An option that is given twice has the value given last.
-/

namespace ComponentTags.Command

/-- What an option sets. -/
inductive Setting where
  | config
  | variant
  | output
  | strict
  | verbose
  | help
  | version
  deriving DecidableEq

def Setting.takesValue : Setting → Bool
  | config | variant | output => true
  | strict | verbose | help | version => false

/-- Why a command line makes no sense. -/
inductive ArgumentError where
  | missingCommand
  | unknownCommand (name : Text)
  | unknownOption (option : Text)
  | missingValue (option : Text)
  | unexpectedValue (option : Text)
  | unknownVariant (value : Text)
  | missingArgument
  | extraArgument (argument : Text)

def ArgumentError.message : ArgumentError → Text
  | missingCommand => "Missing command.".toList
  | unknownCommand name => "No such command: ".toList ++ name
  | unknownOption option => "No such option: ".toList ++ option
  | missingValue option => "Missing value for option: ".toList ++ option
  | unexpectedValue option => "Option takes no value: ".toList ++ option
  | unknownVariant value => "No such variant: ".toList ++ value
  | missingArgument => "Missing argument.".toList
  | extraArgument argument => "Unexpected argument: ".toList ++ argument

structure Options where
  long : List (Text × Setting)
  short : List (Char × Setting)

/-- The options that stand before a command. -/
def Options.general : Options where
  long := [("--version".toList, .version), ("--help".toList, .help)]
  short := []

def Options.compile : Options where
  long := [("--config".toList, .config), ("--variant".toList, .variant),
    ("--output".toList, .output), ("--strict".toList, .strict), ("--verbose".toList, .verbose),
    ("--help".toList, .help)]
  short := [('o', .output), ('v', .verbose)]

def Options.resolve : Options where
  long := [("--config".toList, .config), ("--verbose".toList, .verbose), ("--help".toList, .help)]
  short := [('v', .verbose)]

/-! ## One option -/

/-- What one word of the command line sets: options with their values, and perhaps one more
option, whose value is the next word. -/
structure Switch where
  settings : List (Setting × Text)
  open? : Option Setting := none

/-- The options of a cluster of short ones. The first that has a value takes what is left of the
word, or the next word if nothing is. -/
def Options.cluster (o : Options) : Text → Except ArgumentError Switch
  | [] => .ok ⟨[], none⟩
  | c :: cs =>
    match o.short.lookup c with
    | none => .error (.unknownOption ['-', c])
    | some setting =>
      if setting.takesValue then
        if cs = [] then .ok ⟨[], some setting⟩ else .ok ⟨[(setting, cs)], none⟩
      else (o.cluster cs).map fun s => ⟨(setting, []) :: s.settings, s.open?⟩

/-- The option of a long form, with the value behind its equals sign if there is one. -/
def longSwitch (setting : Setting) (word : Text) : Option Text → Except ArgumentError Switch
  | some value =>
    if setting.takesValue then .ok ⟨[(setting, value)], none⟩ else .error (.unexpectedValue word)
  | none =>
    if setting.takesValue then .ok ⟨[], some setting⟩ else .ok ⟨[(setting, [])], none⟩

/-- What a word that begins with a hyphen sets. -/
def Options.switch (o : Options) (word : Text) : Except ArgumentError Switch :=
  let name := word.takeWhile (· != '=')
  let value := if name.length < word.length then some (word.drop (name.length + 1)) else none
  match o.long.lookup name with
  | some setting => longSwitch setting name value
  | none =>
    if ['-', '-'].isPrefixOf word then .error (.unknownOption name) else o.cluster (word.drop 1)

/-- Whether a word is an option. -/
def isSwitch : Text → Bool
  | '-' :: _ :: _ => true
  | _ => false

/-! ## All words -/

/-- The options and the arguments of a command line. -/
structure Given where
  settings : List (Setting × Text) := []
  arguments : List Text := []

/-- Adds settings before the others. -/
def Given.prepend (settings : List (Setting × Text)) (g : Given) : Given :=
  ⟨settings ++ g.settings, g.arguments⟩

/-- The options and arguments of a command, in any order. -/
def Options.read (o : Options) : List Text → Except ArgumentError Given
  | [] => .ok {}
  | word :: rest =>
    if word = ['-', '-'] then .ok ⟨[], rest⟩
    else if isSwitch word then
      match o.switch word with
      | .error e => .error e
      | .ok ⟨settings, none⟩ => (o.read rest).map (·.prepend settings)
      | .ok ⟨settings, some setting⟩ =>
        match rest with
        | [] => .error (.missingValue word)
        | value :: rest => (o.read rest).map (·.prepend (settings ++ [(setting, value)]))
    else (o.read rest).map fun g => ⟨g.settings, word :: g.arguments⟩

/-- The options before a command, and the words from the command on. -/
def Options.readLeading (o : Options) : List Text → Except ArgumentError Given
  | [] => .ok {}
  | word :: rest =>
    if word = ['-', '-'] then .ok ⟨[], rest⟩
    else if isSwitch word then
      match o.switch word with
      | .error e => .error e
      | .ok ⟨settings, _⟩ => (o.readLeading rest).map (·.prepend settings)
    else .ok ⟨[], word :: rest⟩

/-- The value that was given last. -/
def Given.value? (g : Given) (setting : Setting) : Option Text :=
  g.settings.reverse.lookup setting

def Given.has (g : Given) (setting : Setting) : Bool :=
  (g.value? setting).isSome

/-- The one argument that was given. -/
def Given.argument (g : Given) : Except ArgumentError Text :=
  match g.arguments with
  | [] => .error .missingArgument
  | [argument] => .ok argument
  | _ :: extra :: _ => .error (.extraArgument extra)

/-! ## Requests -/

/-- How the program is used. -/
def usage : Text :=
  ("Usage: compile TEMPLATE [--config FILE] [--variant all|standard|live] [--output FILE]\n" ++
    "                        [--strict] [--verbose]\n" ++
    "       resolve TAG [--config FILE] [--verbose]\n").toList

def versionLine : Text :=
  "0.1.0\n".toList

def variantsOf (word : Text) : Except ArgumentError (List Variant) :=
  if word = "all".toList then .ok Variant.all
  else if word = "standard".toList then .ok [.standard]
  else if word = "live".toList then .ok [.live]
  else .error (.unknownVariant word)

def compileRequest (g : Given) : Except ArgumentError Request := do
  if g.has .help then return .shown usage
  let variants ← variantsOf ((g.value? .variant).getD "all".toList)
  let template ← g.argument
  return .compile {
    template
    config := g.value? .config
    variants
    output := g.value? .output
    strict := g.has .strict
    verbose := g.has .verbose }

def resolveRequest (g : Given) : Except ArgumentError Request := do
  if g.has .help then return .shown usage
  let tag ← g.argument
  return .resolve { tag, config := g.value? .config, verbose := g.has .verbose }

/-- The request of a command line. -/
def requestOf (words : List Text) : Except ArgumentError Request := do
  let leading ← Options.general.readLeading words
  if leading.has .help then return .shown usage
  if leading.has .version then return .shown versionLine
  match leading.arguments with
  | [] => .error .missingCommand
  | name :: rest =>
    if name = "compile".toList then compileRequest (← Options.compile.read rest)
    else if name = "resolve".toList then resolveRequest (← Options.resolve.read rest)
    else .error (.unknownCommand name)

end ComponentTags.Command
