import ComponentTags.File.Path

/-!
# Files

A file system is a working directory and some files with what is in them. Files are known by their
resolved paths; directories are not kept. Not every file can be read, and not every one takes what
is written to it.
-/

namespace ComponentTags

/-- A text with every end of line as a line feed. -/
def Text.lineFeeds : Text → Text
  | [] => []
  | '\r' :: '\n' :: rest => '\n' :: lineFeeds rest
  | '\r' :: rest => '\n' :: lineFeeds rest
  | c :: rest => c :: lineFeeds rest

/-- What is in a file. -/
inductive Content where
  | text (text : Text)
  /-- The file cannot be read; `complaint` says why. -/
  | unreadable (complaint : Text)
  /-- Bytes that are the encoding of no text. -/
  | undecodable (complaint : Text)

/-- Why there is no text to be had from a file. -/
inductive ReadError where
  | missing (path : Path)
  | unreadable (complaint : Text)
  | undecodable (complaint : Text)

def Content.read : Content → Except ReadError Text
  | .text t => .ok (Text.lineFeeds t)
  | .unreadable complaint => .error (.unreadable complaint)
  | .undecodable complaint => .error (.undecodable complaint)

/-- How a file takes a text that is written to it. -/
inductive Storing where
  | whole
  /-- The file is not opened. -/
  | refused (complaint : Text)
  /-- The file is opened, and when the error comes, this is in it. -/
  | broken (left : Content) (complaint : Text)

/-- A working directory and the files that there are, by their resolved paths. -/
structure FileSystem where
  directory : Path
  files : List (Path × Content)
  /-- How the file at a resolved path takes a text. -/
  storing : Path → Text → Storing := fun _ _ => .whole

namespace FileSystem

def resolve (fs : FileSystem) (p : Path) : Path :=
  fs.directory.resolveFrom p

def isFile (fs : FileSystem) (p : Path) : Bool :=
  fs.files.any fun file => file.1 = fs.resolve p

def contents? (fs : FileSystem) (p : Path) : Option Content :=
  fs.files.lookup (fs.resolve p)

/-- The text of the file at a path, with line feeds as the ends of its lines. -/
def read (fs : FileSystem) (p : Path) : Except ReadError Text :=
  match fs.contents? p with
  | none => .error (.missing p)
  | some content => content.read

def write (fs : FileSystem) (p : Path) (text : Text) : Storing :=
  fs.storing (fs.resolve p) text

/-- The file system with something in the file at a path. -/
def put (fs : FileSystem) (p : Path) (content : Content) : FileSystem where
  directory := fs.directory
  files := (fs.resolve p, content) :: fs.files.filter fun file => file.1 ≠ fs.resolve p
  storing := fs.storing

/-- The file system of some texts, given by paths from the working directory. -/
def ofList (directory : Path) (files : List (Path × Text)) : FileSystem :=
  files.foldl (fun fs file => fs.put file.1 (.text file.2)) { directory, files := [] }

end FileSystem

end ComponentTags
