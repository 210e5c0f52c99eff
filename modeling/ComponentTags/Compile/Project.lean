import ComponentTags.Compile.Template
import ComponentTags.Echo
import ComponentTags.File.Views

/-!
# Compilers for a project

A project is a configuration and its files: the classes are those that the configuration
declares, and views are looked up in files.
-/

namespace ComponentTags

namespace ClassTable

/-- The classes that a configuration declares. -/
def ofConfig (config : Config) : ClassTable :=
  ofList (config.classes.entries.map fun e => (e.1, .names e.2))

end ClassTable

namespace Compiler

def ofConfig (config : Config) (fs : FileSystem) (strict : Bool) : Compiler where
  resolver := {
    config
    classes := (ClassTable.ofConfig config).toClasses
    views := (FileViews.ofConfig config).toViews fs }
  reader := { echo := Echo.compile, strict }

end Compiler

end ComponentTags
