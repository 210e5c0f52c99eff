import ComponentTags.Config.Basic
import ComponentTags.Config.Json
import ComponentTags.File.System
import ComponentTags.Text.Quoted

/-!
# Loading a configuration

A configuration is made from an object whose members have to have the right shape; members of
other names have no meaning. The members are looked at in a fixed order, and the first that has
another shape is named. Relative paths are seen from the directory of the configuration file.

The object may also be a dump of what the runtime knows about views: then lists among the
namespaces are the directories of hints, and `paths` are further directories for views.
-/

namespace ComponentTags

/-- The shape that a member has to have. -/
inductive Shape where
  | object
  | list
  | string
  | strings
  | path

def Shape.words : Shape → Text
  | object => "an object".toList
  | list => "a list".toList
  | string => "a string".toList
  | strings => "a string or a list of strings".toList
  | path => "a path or an object with a 'path'".toList

/-- Why data is no configuration. -/
inductive ConfigError where
  /-- The data is not an object. -/
  | notObject
  /-- A member has another shape. -/
  | wrongShape (key : Text) (shape : Shape)

def ConfigError.message : ConfigError → Text
  | notObject => "Config must be a JSON object".toList
  | wrongShape key shape =>
    "Config key ".toList ++ Text.quoted key ++ " must be ".toList ++ shape.words

namespace Config

/-! ## Members and their shapes -/

/-- The key of a part of a member. -/
def dotted (key part : Text) : Text :=
  key ++ ['.'] ++ part

/-- The key of an item of a member. -/
def indexed (key : Text) (index : Nat) : Text :=
  key ++ ['['] ++ Nat.toDigits 10 index ++ [']']

/-- The members of an object under a key. A missing object is empty, and so is an empty list. -/
def objectAt (members : List (Text × Data)) (key : Text) :
    Except ConfigError (List (Text × Data)) :=
  match members.lookup key with
  | none => .ok []
  | some (.list []) => .ok []
  | some (.object inner) => .ok inner
  | some _ => .error (.wrongShape key .object)

def listAt (members : List (Text × Data)) (key : Text) : Except ConfigError (List Data) :=
  match members.lookup key with
  | none => .ok []
  | some (.list items) => .ok items
  | some _ => .error (.wrongShape key .list)

def string (key : Text) : Data → Except ConfigError Text
  | .text value => .ok value
  | _ => .error (.wrongShape key .string)

def texts? : List Data → Option (List Text)
  | [] => some []
  | .text value :: rest => (texts? rest).map (value :: ·)
  | _ :: _ => none

/-- A string or a list of strings. -/
def strings (key : Text) : Data → Except ConfigError (List Text)
  | .text value => .ok [value]
  | .list items =>
    match texts? items with
    | some values => .ok values
    | none => .error (.wrongShape key .strings)
  | _ => .error (.wrongShape key .strings)

/-- The strings under a key; a missing member has none. -/
def stringsAt (members : List (Text × Data)) (key : Text) : Except ConfigError (List Text) :=
  match members.lookup key with
  | none => .ok []
  | some value => strings key value

/-- The table of an object under a key, with values that `read` makes of its members. -/
def tableAt {α : Type} (read : Text → Data → Except ConfigError α)
    (members : List (Text × Data)) (key : Text) : Except ConfigError (Table α) := do
  let inner ← objectAt members key
  let entries ← inner.mapM fun e => do return (e.1, ← read (dotted key e.1) e.2)
  return Table.ofList entries

/-! ## The parts of a configuration -/

/-- A path as it is seen from the directory of the configuration. -/
def located (base : Option Path) (path : Text) : Text :=
  match base with
  | none => path
  | some directory =>
    let p := Path.ofText path
    if p.isAbsolute then path else (directory.join p).toText

/-- The namespaces of classes, and the hints that are listed among them. -/
def readNamespaces (base : Option Path) (members : List (Text × Data)) :
    Except ConfigError (Table Text × Table (List Text)) := do
  let inner ← objectAt members "namespaces".toList
  inner.foldlM (fun tables e =>
    match e.2 with
    | .text target => .ok (tables.1.put e.1 target, tables.2)
    | value => do
      let paths ← strings (dotted "namespaces".toList e.1) value
      return (tables.1, tables.2.put e.1 (paths.map (located base))))
    (Table.empty, Table.empty)

/-- The hints with those that have a member of their own. -/
def readHints (base : Option Path) (members : List (Text × Data))
    (hints : Table (List Text)) : Except ConfigError (Table (List Text)) := do
  let inner ← objectAt members "view_hints".toList
  inner.foldlM (fun hints e => do
    let paths ← strings (dotted "view_hints".toList e.1) e.2
    return hints.put e.1 ((hints.get? e.1).getD [] ++ paths.map (located base))) hints

/-- An anonymous path: a path alone, or an object with a path and perhaps a label. -/
def readAnonymousPath (base : Option Path) (key : Text) (value : Data) :
    Except ConfigError AnonymousPath :=
  match value with
  | .text path => .ok ⟨located base path, none⟩
  | .object members =>
    match members.lookup "path".toList with
    | some (.text path) =>
      match members.lookup "prefix".toList with
      | none => .ok ⟨located base path, none⟩
      | some .null => .ok ⟨located base path, none⟩
      | some label => do
        return ⟨located base path, some (← string (dotted key "prefix".toList) label)⟩
    | _ => .error (.wrongShape key .path)
  | _ => .error (.wrongShape key .path)

def readAnonymousPaths (base : Option Path) (members : List (Text × Data)) :
    Except ConfigError (List AnonymousPath) := do
  let key := "anonymous_paths".toList
  let items ← listAt members key
  items.zipIdx.mapM fun item => readAnonymousPath base (indexed key item.2) item.1

def readAppNamespace (members : List (Text × Data)) : Except ConfigError NamespaceRoot :=
  let key := "app_namespace".toList
  match members.lookup key with
  | none => .ok (.ofText "App\\".toList)
  | some value => (string key value).map .ofText

/-- The configuration that the members of an object stand for. -/
def ofMembers (base : Option Path) (members : List (Text × Data)) :
    Except ConfigError Config := do
  let (namespaces, listedHints) ← readNamespaces base members
  let viewHints ← readHints base members listedHints
  let anonymousPaths ← readAnonymousPaths base members
  let appNamespace ← readAppNamespace members
  let viewPaths ← stringsAt members "view_paths".toList
  let morePaths ← stringsAt members "paths".toList
  let aliases ← tableAt string members "aliases".toList
  let anonymousNamespaces ← tableAt string members "anonymous_namespaces".toList
  let classes ← tableAt strings members "classes".toList
  return {
    aliases
    namespaces
    appNamespace
    anonymousPaths
    anonymousNamespaces
    classes
    viewPaths := (viewPaths ++ morePaths).map (located base)
    viewHints }

def ofData (base : Option Path) : Data → Except ConfigError Config
  | .object members => ofMembers base members
  | _ => .error .notObject

end Config

/-! ## Files -/

/-- Why a configuration is not loaded. -/
inductive LoadError where
  | file (error : ReadError)
  | json (error : Json.Error)
  | notObject (path : Path)
  | config (error : ConfigError)

/-- What is said about a file that is not there. -/
def missingFile (path : Path) : Text :=
  "[Errno 2] No such file or directory: ".toList ++ Text.quoted path.toText

def ReadError.message : ReadError → Text
  | missing path => missingFile path
  | unreadable complaint => complaint
  | undecodable complaint => complaint

def LoadError.message : LoadError → Text
  | file error => error.message
  | json error => error.message
  | notObject path => "Config file ".toList ++ path.toText ++ " must contain a JSON object".toList
  | config error => error.message

namespace Config

def loadFile (fs : FileSystem) (path : Path) : Except LoadError Config :=
  match fs.read path with
  | .error e => .error (.file e)
  | .ok text =>
    match Json.read text with
    | .error e => .error (.json e)
    | .ok (.object members) =>
      match ofMembers (some (fs.resolve path).parent) members with
      | .error e => .error (.config e)
      | .ok config => .ok config
    | .ok _ => .error (.notObject path)

/-- The file of a name, or else of the name in the environment, where an empty one counts as
none. -/
def file? (named environment : Option Text) : Option Path :=
  match named with
  | some path => some (Path.ofText path)
  | none =>
    match environment with
    | some (c :: cs) => some (Path.ofText (c :: cs))
    | _ => none

/-- The configuration that is asked for. Without a file there is a configuration with nothing in
it. -/
def load (fs : FileSystem) (named environment : Option Text) : Except LoadError Config :=
  match file? named environment with
  | some path => loadFile fs path
  | none => .ok {}

end Config

end ComponentTags
