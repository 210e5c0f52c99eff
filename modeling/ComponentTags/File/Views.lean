import ComponentTags.Component.Views
import ComponentTags.Config.Basic
import ComponentTags.File.System

/-!
# Views in files

The view `components.alert` is the file `components/alert` with one of the extensions for views,
in one of the directories for views. A view with a hint is looked up in the directories of its
hint.
-/

namespace ComponentTags

/-- Where views are looked up. -/
structure FileViews where
  /-- The directories for views. -/
  paths : List Path := []
  /-- The directories for the views of each hint. -/
  hints : Table (List Path) := .empty
  extensions : List Text :=
    ["blade.php".toList, "php".toList, "css".toList, "html".toList]

namespace FileViews

/-- The places with one more directory for views. -/
def withDirectory (v : FileViews) (path : Path) : FileViews :=
  { v with paths := v.paths ++ [path] }

/-- The places with more directories for the views of a hint. -/
def withHint (v : FileViews) (hint : Text) (paths : List Path) : FileViews :=
  { v with hints := v.hints.put hint ((v.hints.get? hint).getD [] ++ paths) }

/-- The files that a view without a hint may be in, under some directories. -/
def filesUnder (v : FileViews) (directories : List Path) (name : Text) : List Path :=
  let relative := Text.replaceChar '.' ['/'] name
  directories.flatMap fun directory =>
    v.extensions.map fun extension =>
      directory.join (Path.ofText (relative ++ ['.'] ++ extension))

/-- The name of a view without blanks around it and with dots for slashes. -/
def plainName (name : Text) : Text :=
  Text.replaceChar '/' ['.'] (Text.stripBlanks name)

/-- The files that a view may be in, the first choice first. A name may have one hint at most. -/
def candidates (v : FileViews) (name : Text) : Except ViewError (List Path) :=
  let name := plainName name
  match Text.splitBy Name.hintMark name with
  | [hint, view] => .ok (v.filesUnder ((v.hints.get? hint).getD []) view)
  | _ :: _ :: _ :: _ => .error ⟨name⟩
  | _ => .ok (v.filesUnder v.paths name)

def find (v : FileViews) (fs : FileSystem) (name : Text) : Except ViewError (Option Path) :=
  (v.candidates name).map fun paths => paths.find? fs.isFile

/-- Whether there is a file for a view. -/
def toViews (v : FileViews) (fs : FileSystem) : Views := fun name =>
  (v.find fs name).map Option.isSome

/-- The places that a configuration tells. -/
def ofConfig (config : Config) : FileViews :=
  let base : FileViews := { paths := config.viewPaths.map Path.ofText }
  let hinted := config.viewHints.entries.foldl
    (fun v e => v.withHint e.1 (e.2.map Path.ofText)) base
  config.anonymousPaths.foldl
    (fun v p => v.withHint p.hash [Path.ofText p.path]) hinted

end FileViews

end ComponentTags
