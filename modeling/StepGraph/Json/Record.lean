import StepGraph.Json.Basic

/-!
# Records

A record is written as an object whose keys name its fields, or as an array of its fields in the
order of their declaration.  `Record.ofJson?` takes either apart, and the functions after it read
one field each: one that must be there, one with a default, one that may be absent.

Keys that name no field are passed over.  A key that names a field must not come twice.
-/

namespace StepGraph

/-- The fields a document gives for a record, by key. -/
structure Record where
  fields : List (String × Json)
  /-- Whether the document is an array, in which fields have no names. -/
  positional : Bool

namespace Record

/-- The members of an object that name fields. -/
def ofMembers? (keys : List String) (members : List (String × Json)) : Option Record :=
  let known := members.filter fun m => keys.contains m.1
  if (known.map (·.1)).Nodup then some ⟨known, false⟩ else none

/-- Takes a record apart.  An array must not have more items than the record has fields. -/
def ofJson? (keys : List String) : Json → Option Record
  | .obj members => ofMembers? keys members
  | .arr items => if items.length ≤ keys.length then some ⟨keys.zip items, true⟩ else none
  | _ => none

/-- The document given for a field. -/
def get? (r : Record) (key : String) : Option Json := lookupMember key r.fields

variable {α : Type}

/-- A field that must be there. -/
def required (r : Record) (key : String) (read : Json → Option α) : Option α :=
  (r.get? key).bind read

/-- A field that stands for a default when it is missing. -/
def withDefault (r : Record) (key : String) (default : α) (read : Json → Option α) : Option α :=
  match r.get? key with
  | none => some default
  | some j => read j

/-- An optional field: absent when it is missing or null. -/
def optional (r : Record) (key : String) (read : Json → Option α) : Option (Option α) :=
  match r.get? key with
  | none | some .null => some none
  | some j => (read j).map some

/-- An optional field that only an object may leave out. -/
def nullable (r : Record) (key : String) (read : Json → Option α) : Option (Option α) :=
  if r.positional && (r.get? key).isNone then none else r.optional key read

/-- A field that holds a list, empty when it is missing. -/
def list (r : Record) (key : String) (read : Json → Option α) : Option (List α) :=
  r.withDefault key [] (Json.listOf? read)

end Record

end StepGraph
