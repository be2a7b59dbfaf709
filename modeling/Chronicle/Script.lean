import Chronicle.Session
import Chronicle.Value.Codec

/-!
# Scripts

A script lists elements, each with the steps to take on it in order.  It is read from JSON
strictly: a field that is not declared, or comes twice, is refused, and so is a step in which
anything has no meaning.

* `ScriptStep.fieldNames?` : the fields of each kind of step, in order;
* `Script.toJson`, `Script.ofJson?` : the two directions.
-/

namespace Chronicle

/-- One step of a script.  A time that is not given is taken from the clock. -/
inductive ScriptStep where
  | touch (ts : Option Timestamp)
  | softDelete (ts : Option Timestamp)
  | markHidden (v : Visibility) (ts : Option Timestamp)
  | markVisible (v : Visibility) (ts : Option Timestamp)
  | alterVisibility (v : Visibility) (ts : Option Timestamp)
  | alterEdgeLabel (label : String) (ts : Option Timestamp)
  | alterConceptType (name : String) (ts : Option Timestamp)
  | setValue (i : PropertyIdentity) (value : PropValue) (metadata : Metadata)
      (ts : Option Timestamp)
  | annotate (i : PropertyIdentity) (metadata : Metadata) (ts : Option Timestamp)
  | softDeleteProperty (i : PropertyIdentity) (ts : Option Timestamp)
  | hideProperty (i : PropertyIdentity) (label : Visibility) (ts : Option Timestamp)
  | unhideProperty (i : PropertyIdentity) (label : Visibility) (ts : Option Timestamp)
  /-- Removes a property for good, whatever its label if none is given. -/
  | deleteProperty (key name : String) (v : Option Visibility)
  deriving DecidableEq, Inhabited

/-- An element of a script: how to create it, and the steps to take on it. -/
structure ScriptElement where
  id : String
  kind : ElementKind
  visibility : Visibility
  timestamp : Option Timestamp
  steps : List ScriptStep
  deriving DecidableEq, Inhabited

/-- Elements with the steps to take on them. -/
structure Script where
  elements : List ScriptElement
  deriving DecidableEq, Inhabited

/-! ## Shared fields -/

namespace Visibility

/-- The label as JSON. -/
def toJson (v : Visibility) : Json := .string v.label

/-- Reads a label. -/
def ofJson? (j : Json) : Option Visibility := j.string?.map fun l => ⟨l⟩

/-- A label that everyone may read when it is left out. -/
def ofField? : Option Json → Option Visibility := Json.withDefault .empty ofJson?

end Visibility

/-- A time that may be left out or `null`. -/
def timestampOfField? : Option Json → Option (Option Timestamp) :=
  Json.withDefault none (Json.nullable Json.int64?)

/-- The time as JSON, `null` for none. -/
def optionalTimeJson (ts : Option Timestamp) : Json := .ofOption (fun t => .ofInt t.toInt) ts

namespace ElementKind

/-- The kind as JSON. -/
def toJson : ElementKind → Json
  | .vertex => .string "vertex"
  | .edge => .string "edge"

/-- The kind of this name. -/
def ofName? (s : String) : Option ElementKind :=
  if s = "vertex" then some .vertex else if s = "edge" then some .edge else none

/-- Reads a kind: its name, or an object with `null` under the name. -/
def ofJson? : Json → Option ElementKind
  | .string s => ofName? s
  | .object [(s, .null)] => ofName? s
  | _ => none

end ElementKind

/-! ## Steps -/

namespace ScriptStep

/-- The name of the kind of step. -/
def op : ScriptStep → String
  | .touch _ => "touch"
  | .softDelete _ => "soft_delete"
  | .markHidden .. => "mark_hidden"
  | .markVisible .. => "mark_visible"
  | .alterVisibility .. => "alter_visibility"
  | .alterEdgeLabel .. => "alter_edge_label"
  | .alterConceptType .. => "alter_concept_type"
  | .setValue .. => "add_property_value"
  | .annotate .. => "add_property_metadata"
  | .softDeleteProperty .. => "soft_delete_property"
  | .hideProperty .. => "mark_property_hidden"
  | .unhideProperty .. => "mark_property_visible"
  | .deleteProperty .. => "delete_property"

/-- The fields of a kind of step, in order. -/
def fieldNames? : String → Option (List String)
  | "touch" | "soft_delete" => some ["timestamp"]
  | "mark_hidden" | "mark_visible" | "alter_visibility" => some ["visibility", "timestamp"]
  | "alter_edge_label" => some ["label", "timestamp"]
  | "alter_concept_type" => some ["concept_type", "timestamp"]
  | "add_property_value" => some ["key", "name", "value", "metadata", "visibility", "timestamp"]
  | "add_property_metadata" => some ["key", "name", "metadata", "visibility", "timestamp"]
  | "soft_delete_property" => some ["key", "name", "visibility", "timestamp"]
  | "mark_property_hidden" | "mark_property_visible" =>
    some ["key", "name", "visibility", "hide_visibility", "timestamp"]
  | "delete_property" => some ["key", "name", "visibility"]
  | _ => none

/-- The values of the fields of a step, in order. -/
def fieldValues : ScriptStep → List Json
  | .touch ts | .softDelete ts => [optionalTimeJson ts]
  | .markHidden v ts | .markVisible v ts | .alterVisibility v ts => [v.toJson, optionalTimeJson ts]
  | .alterEdgeLabel text ts | .alterConceptType text ts => [.string text, optionalTimeJson ts]
  | .setValue i value metadata ts =>
    [.string i.key, .string i.name, value.toJson, Metadata.toJson metadata, i.visibility.toJson,
      optionalTimeJson ts]
  | .annotate i metadata ts =>
    [.string i.key, .string i.name, Metadata.toJson metadata, i.visibility.toJson,
      optionalTimeJson ts]
  | .softDeleteProperty i ts =>
    [.string i.key, .string i.name, i.visibility.toJson, optionalTimeJson ts]
  | .hideProperty i label ts | .unhideProperty i label ts =>
    [.string i.key, .string i.name, i.visibility.toJson, label.toJson, optionalTimeJson ts]
  | .deleteProperty key name v => [.string key, .string name, .ofOption Visibility.toJson v]

/-- The step as JSON: its kind under `op`, then its fields. -/
def toJson (s : ScriptStep) : Json :=
  .object (("op", .string s.op) :: ((fieldNames? s.op).getD []).zip s.fieldValues)

/-- Reads the identity of a property. -/
def identity? (key name : Json) (visibility : Option Json) : Option PropertyIdentity := do
  let key ← key.string?
  let name ← name.string?
  let visibility ← Visibility.ofField? visibility
  return ⟨name, key, visibility⟩

/-- Reads a value inside a step. -/
def value? : Json → Option PropValue := PropValue.ofJson? PropValue.nullOrEmpty

/-- Reads metadata inside a step. -/
def metadata? : Json → Option Metadata := Metadata.ofJson? PropValue.nullOrEmpty

/-- Reads a step of a kind from the values of its fields. -/
def ofFields? (op : String) (fields : List (Option Json)) : Option ScriptStep :=
  match op, fields with
  | "touch", [ts] => (timestampOfField? ts).map .touch
  | "soft_delete", [ts] => (timestampOfField? ts).map .softDelete
  | "mark_hidden", [v, ts] => do
    return .markHidden (← Visibility.ofField? v) (← timestampOfField? ts)
  | "mark_visible", [v, ts] => do
    return .markVisible (← Visibility.ofField? v) (← timestampOfField? ts)
  | "alter_visibility", [some v, ts] => do
    return .alterVisibility (← Visibility.ofJson? v) (← timestampOfField? ts)
  | "alter_edge_label", [some label, ts] => do
    return .alterEdgeLabel (← label.string?) (← timestampOfField? ts)
  | "alter_concept_type", [some name, ts] => do
    return .alterConceptType (← name.string?) (← timestampOfField? ts)
  | "add_property_value", [some key, some name, some value, metadata, v, ts] => do
    return .setValue (← identity? key name v) (← value? value)
      (← Json.withDefault OrderedMap.empty metadata? metadata) (← timestampOfField? ts)
  | "add_property_metadata", [some key, some name, some metadata, v, ts] => do
    return .annotate (← identity? key name v) (← metadata? metadata) (← timestampOfField? ts)
  | "soft_delete_property", [some key, some name, v, ts] => do
    return .softDeleteProperty (← identity? key name v) (← timestampOfField? ts)
  | "mark_property_hidden", [some key, some name, v, label, ts] => do
    return .hideProperty (← identity? key name v) (← Visibility.ofField? label)
      (← timestampOfField? ts)
  | "mark_property_visible", [some key, some name, v, label, ts] => do
    return .unhideProperty (← identity? key name v) (← Visibility.ofField? label)
      (← timestampOfField? ts)
  | "delete_property", [some key, some name, v] => do
    return .deleteProperty (← key.string?) (← name.string?)
      (← Json.withDefault none (Json.nullable Visibility.ofJson?) v)
  | _, _ => none

/-- How deep arrays and objects may be nested in a step, the step included: a document may have
127 levels, of which four are outside its steps. -/
def nestingLimit : Nat := 123

/-- Reads a step: an object with its kind under `op`, or an array that starts with its kind. -/
def ofJson? (j : Json) : Option ScriptStep :=
  if j.isSound nestingLimit then
    match j with
    | .object members =>
      -- the kind may stand anywhere among the members, once
      match members.partition (·.1 == "op") with
      | ([(_, .string op)], rest) => do
        let names ← fieldNames? op
        ofFields? op (← Json.memberFields? names .refused rest)
      | _ => none
    | .array (.string op :: items) => do
      let names ← fieldNames? op
      ofFields? op (← Json.itemFields? names items)
    | _ => none
  else none

end ScriptStep

/-! ## Elements and scripts -/

namespace ScriptElement

/-- The fields of an element. -/
def fieldNames : List String := ["id", "kind", "visibility", "timestamp", "mutations"]

/-- The element as JSON. -/
def toJson (e : ScriptElement) : Json :=
  .object [
    ("id", .string e.id),
    ("kind", e.kind.toJson),
    ("visibility", e.visibility.toJson),
    ("timestamp", optionalTimeJson e.timestamp),
    ("mutations", .array (e.steps.map ScriptStep.toJson))]

/-- Reads the steps of an element. -/
def steps? (j : Json) : Option (List ScriptStep) := j.array?.bind (·.mapM ScriptStep.ofJson?)

/-- Reads an element. -/
def ofJson? (j : Json) : Option ScriptElement :=
  match j.fields? fieldNames .refused with
  | some [some id, some kind, visibility, timestamp, steps] => do
    let id ← id.string?
    let kind ← ElementKind.ofJson? kind
    let visibility ← Visibility.ofField? visibility
    let timestamp ← timestampOfField? timestamp
    let steps ← Json.withDefault [] steps? steps
    return ⟨id, kind, visibility, timestamp, steps⟩
  | _ => none

end ScriptElement

namespace Script

/-- The script as JSON. -/
def toJson (s : Script) : Json :=
  .object [("elements", .array (s.elements.map ScriptElement.toJson))]

/-- Reads a script. -/
def ofJson? (j : Json) : Option Script :=
  match j.fields? ["elements"] .refused with
  | some [some elements] => do
    let items ← elements.array?
    return ⟨← items.mapM ScriptElement.ofJson?⟩
  | _ => none

/-- Reads a script from a JSON text. -/
def parse? (text : String) : Option Script := (Json.parse? text).bind ofJson?

/-- The script as JSON text. -/
def render (s : Script) : String := s.toJson.compact

end Script

end Chronicle
