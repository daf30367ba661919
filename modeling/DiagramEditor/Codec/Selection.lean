import DiagramEditor.Json.Record
import DiagramEditor.Selection.Reconciler

/-!
# Selections and handles as JSON

A selection is a record, and a handle a record that says in `kind` what it names. The position of a
link is left out where it is not known.
-/

namespace DiagramEditor

namespace Selection

/-- The selection as JSON. -/
def toJson (s : Selection) : Json :=
  .ofMembers [("id", .string s.id), ("kind", .string s.kind.name)]

/-- The selection that the JSON value is. -/
def ofJson? (j : Json) : Option Selection := do
  let r ← j.record? ["id", "kind"]
  return ⟨← r.text? "id", ← r.choice? "kind" ObjectKind.ofName?⟩

end Selection

namespace Handle

/-- The handle as JSON. -/
def toJson : Handle → Json
  | .edge source target linkIndex =>
    .ofMembers ([("kind", .string "edge".toList), ("source_core_id", .string source),
      ("target_core_id", .string target)] ++ Json.memberOf "link_index" .ofNat linkIndex)
  | .node id => .ofMembers [("kind", .string "node".toList), ("core_id", .string id)]
  | .subgraph id => .ofMembers [("kind", .string "subgraph".toList), ("core_id", .string id)]
  | .entity name => .ofMembers [("kind", .string "entity".toList), ("name", .string name)]
  | .relationship index =>
    .ofMembers [("kind", .string "relationship".toList), ("index", .ofNat index)]
  | .participant name =>
    .ofMembers [("kind", .string "participant".toList), ("alias", .string name)]
  | .message index => .ofMembers [("kind", .string "message".toList), ("index", .ofNat index)]
  | .note index => .ofMembers [("kind", .string "note".toList), ("index", .ofNat index)]
  | .fragment index => .ofMembers [("kind", .string "fragment".toList), ("index", .ofNat index)]

/-- The fields of a handle of this kind, in their order. -/
def fieldNames? (kind : Text) : Option (List String) :=
  match String.ofList kind with
  | "edge" => some ["source_core_id", "target_core_id", "link_index"]
  | "node" | "subgraph" => some ["core_id"]
  | "entity" => some ["name"]
  | "participant" => some ["alias"]
  | "relationship" | "message" | "note" | "fragment" => some ["index"]
  | _ => none

/-- The handle of this kind with these fields. -/
def ofRecord? (kind : Text) (r : Json.Record) : Option Handle := do
  match String.ofList kind with
  | "edge" =>
    return .edge (← r.text? "source_core_id") (← r.text? "target_core_id")
      (← r.indexOption? "link_index")
  | "node" => return .node (← r.text? "core_id")
  | "subgraph" => return .subgraph (← r.text? "core_id")
  | "entity" => return .entity (← r.text? "name")
  | "relationship" => return .relationship (← r.index? "index")
  | "participant" => return .participant (← r.text? "alias")
  | "message" => return .message (← r.index? "index")
  | "note" => return .note (← r.index? "index")
  | "fragment" => return .fragment (← r.index? "index")
  | _ => none

/-- The handle that the JSON value is. -/
def ofJson? : Json → Option Handle :=
  Json.tagged? "kind" fieldNames? ofRecord?

end Handle

end DiagramEditor
