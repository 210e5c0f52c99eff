import ComponentTags.Table

/-!
# Plain data

The values that a configuration file can hold. An object has its members in the order in which
their keys came; a key that comes again keeps its place and takes the new value.
-/

namespace ComponentTags

/-- A value of plain data. -/
inductive Data where
  | null
  | bool (value : Bool)
  /-- A number as it is written. -/
  | number (literal : Text)
  | text (value : Text)
  | list (items : List Data)
  | object (members : List (Text × Data))

namespace Data

def ofMembers (members : List (Text × Data)) : Data :=
  .object (members.foldl (fun done e => Entries.put e.1 e.2 done) [])

end Data

end ComponentTags
