import TraitWeaver.Declaration.Basic
import TraitWeaver.Json.Record

/-!
# Declarations as JSON

The JSON form of declarations, written and read. A type, a member and a superclass argument carry
their kind in the field `kind`. When reading, fields may stand in any order, fields that nobody
asks for are passed over, and a field that is asked for may occur only once; which fields may be
missing is told by the readers below. Writing fills in every field, in the order in which an array
gives them. `inner` says that a value is part of a type, a member or a superclass argument.
-/

namespace TraitWeaver

open Json (required withDefault optional list? kind? choice?)

/-! ## Types -/

namespace SourceType

mutual

def toJson : SourceType → Json
  | .primitive name => .object [("kind", .string "primitive"), ("name", .string name)]
  | .void => .object [("kind", .string "void")]
  | .declared name args => .object
    [("kind", .string "declared"), ("name", .string name), ("arguments", .array (listToJson args))]
  | .array component => .object [("kind", .string "array"), ("component", toJson component)]
  | .typeVariable name upper lower => .object
    [("kind", .string "type_variable"), ("name", .string name),
      ("upper_bound", optionToJson upper), ("lower_bound", optionToJson lower)]
  | .wildcard upper lower => .object
    [("kind", .string "wildcard"), ("extends_bound", optionToJson upper),
      ("super_bound", optionToJson lower)]
  | .intersection bounds => .object
    [("kind", .string "intersection"), ("bounds", .array (listToJson bounds))]

def listToJson : List SourceType → List Json
  | [] => []
  | t :: ts => toJson t :: listToJson ts

/-- The JSON form of a bound, `null` if there is none. -/
def optionToJson : Option SourceType → Json
  | none => .null
  | some t => toJson t

end

theorem listToJson_eq_map (ts : List SourceType) : listToJson ts = ts.map toJson := by
  induction ts with
  | nil => rfl
  | cons t ts ih => rw [listToJson, ih, List.map_cons]

def kinds : List String :=
  ["primitive", "void", "declared", "array", "type_variable", "wildcard", "intersection"]

def ofJson? (inner : Bool) (j : Json) : Option SourceType := do
  match ← kind? kinds inner j with
  | "primitive" =>
    let fields ← j.fields? ["kind", "name"]
    return .primitive (← required fields "name" fun v _ => v.string?)
  | "void" => (j.fields? ["kind"]).map fun _ => .void
  | "declared" =>
    let fields ← j.fields? ["kind", "name", "arguments"]
    return .declared (← required fields "name" fun v _ => v.string?)
      (← withDefault fields "arguments" [] fun v _ => list? v fun t _ => ofJson? true t)
  | "array" =>
    let fields ← j.fields? ["kind", "component"]
    return .array (← required fields "component" fun t _ => ofJson? true t)
  | "type_variable" =>
    let fields ← j.fields? ["kind", "name", "upper_bound", "lower_bound"]
    return .typeVariable (← required fields "name" fun v _ => v.string?)
      (← optional fields "upper_bound" fun t _ => ofJson? true t)
      (← optional fields "lower_bound" fun t _ => ofJson? true t)
  | "wildcard" =>
    let fields ← j.fields? ["kind", "extends_bound", "super_bound"]
    return .wildcard (← optional fields "extends_bound" fun t _ => ofJson? true t)
      (← optional fields "super_bound" fun t _ => ofJson? true t)
  | "intersection" =>
    let fields ← j.fields? ["kind", "bounds"]
    return .intersection
      (← required fields "bounds" fun v _ => list? v fun t _ => ofJson? true t)
  | _ => none
termination_by sizeOf j
decreasing_by all_goals omega

end SourceType

/-! ## Members -/

namespace Modifier

def word : Modifier → String
  | «public» => "public"
  | «protected» => "protected"
  | «private» => "private"
  | abstract => "abstract"
  | static => "static"
  | final => "final"
  | default => "default"

def all : List Modifier := [«public», «protected», «private», abstract, static, final, default]

def ofWord? (s : String) : Option Modifier := all.find? (·.word = s)

def listToJson (modifiers : List Modifier) : Json := .ofStrings (modifiers.map word)

def listOfJson? (inner : Bool) (j : Json) : Option (List Modifier) :=
  list? j fun v _ => choice? inner v >>= ofWord?

end Modifier

def stringsOfJson? (j : Json) : Option (List String) := list? j fun v _ => v.string?

/-- The JSON form of a declared type parameter. -/
def TypeParamDecl.toJson (d : TypeParamDecl) : Json :=
  .object [("name", .string d.name), ("bounds", .array (d.bounds.map SourceType.toJson))]

def TypeParamDecl.ofJson? (inner : Bool) (j : Json) : Option TypeParamDecl := do
  let fields ← j.fields? ["name", "bounds"]
  return {
    name := ← required fields "name" fun v _ => v.string?
    bounds := ← withDefault fields "bounds" [] fun v _ =>
      list? v fun t _ => SourceType.ofJson? inner t }

def ParameterDecl.toJson (d : ParameterDecl) : Json :=
  .object [("name", .string d.name), ("type", d.type.toJson)]

/-- Reads a declared parameter, which may have no name. -/
def ParameterDecl.ofJson? (inner : Bool) (j : Json) : Option ParameterDecl := do
  let fields ← j.fields? ["name", "type"]
  return {
    name := ← withDefault fields "name" "" fun v _ => v.string?
    type := ← required fields "type" fun t _ => SourceType.ofJson? inner t }

/-- The fields of the JSON form of a method. -/
def MethodDecl.toFields (d : MethodDecl) : List (String × Json) :=
  [("name", .string d.name),
    ("modifiers", Modifier.listToJson d.modifiers),
    ("type_parameters", .array (d.typeParams.map (·.toJson))),
    ("return_type", d.returns.toJson),
    ("parameters", .array (d.params.map (·.toJson))),
    ("varargs", .bool d.varargs),
    ("throws", .array (d.throws.map SourceType.toJson)),
    ("self_accessor", .bool d.selfAccessor)]

def MethodDecl.fieldNames : List String :=
  ["name", "modifiers", "type_parameters", "return_type", "parameters", "varargs", "throws",
    "self_accessor"]

/-- Reads the fields of a method. Only its name and its return type are required. -/
def MethodDecl.ofFields? {j : Json} (inner : Bool) (fields : Json.Fields j) :
    Option MethodDecl := do
  return {
    name := ← required fields "name" fun v _ => v.string?
    modifiers := ← withDefault fields "modifiers" [] fun v _ => Modifier.listOfJson? inner v
    typeParams := ← withDefault fields "type_parameters" [] fun v _ =>
      list? v fun p _ => TypeParamDecl.ofJson? inner p
    returns := ← required fields "return_type" fun t _ => SourceType.ofJson? inner t
    params := ← withDefault fields "parameters" [] fun v _ =>
      list? v fun p _ => ParameterDecl.ofJson? inner p
    varargs := ← withDefault fields "varargs" false fun v _ => v.bool?
    throws := ← withDefault fields "throws" [] fun v _ =>
      list? v fun t _ => SourceType.ofJson? inner t
    selfAccessor := ← withDefault fields "self_accessor" false fun v _ => v.bool? }

def MethodDecl.toJson (d : MethodDecl) : Json := .object d.toFields

def MethodDecl.ofJson? (j : Json) : Option MethodDecl := j.fields? fieldNames >>= ofFields? false

/-- The fields of the JSON form of a field. -/
def FieldDecl.toFields (d : FieldDecl) : List (String × Json) :=
  [("name", .string d.name), ("type", d.type.toJson),
    ("modifiers", Modifier.listToJson d.modifiers)]

def FieldDecl.fieldNames : List String := ["name", "type", "modifiers"]

/-- Reads the fields of a field, which is always a member. -/
def FieldDecl.ofFields? {j : Json} (fields : Json.Fields j) : Option FieldDecl := do
  return {
    name := ← required fields "name" fun v _ => v.string?
    type := ← required fields "type" fun t _ => SourceType.ofJson? true t
    modifiers := ← withDefault fields "modifiers" [] fun v _ => Modifier.listOfJson? true v }

def MemberDecl.toJson : MemberDecl → Json
  | .method d => .object (("kind", .string "method") :: d.toFields)
  | .constructor params =>
    .object [("kind", .string "constructor"), ("parameters", .array (params.map (·.toJson)))]
  | .field d => .object (("kind", .string "field") :: d.toFields)
  | .other name description => .object
    [("kind", .string "other"), ("name", .string name), ("description", .string description)]

def MemberDecl.kinds : List String := ["method", "constructor", "field", "other"]

def MemberDecl.ofJson? (j : Json) : Option MemberDecl := do
  match ← kind? kinds false j with
  | "method" =>
    return .method (← MethodDecl.ofFields? true (← j.fields? ("kind" :: MethodDecl.fieldNames)))
  | "constructor" =>
    let fields ← j.fields? ["kind", "parameters"]
    return .constructor (← withDefault fields "parameters" [] fun v _ =>
      list? v fun p _ => ParameterDecl.ofJson? true p)
  | "field" =>
    return .field (← FieldDecl.ofFields? (← j.fields? ("kind" :: FieldDecl.fieldNames)))
  | "other" =>
    let fields ← j.fields? ["kind", "name", "description"]
    return .other (← withDefault fields "name" "" fun v _ => v.string?)
      (← required fields "description" fun v _ => v.string?)
  | _ => none

/-! ## Traits -/

/-- The JSON form of an implemented interface. -/
def InterfaceDecl.toJson (d : InterfaceDecl) : Json :=
  .object [("name", .string d.name), ("type_parameters", .ofStrings d.typeParams),
    ("arguments", .array (d.args.map SourceType.toJson)),
    ("methods", .array (d.methods.map (·.toJson)))]

/-- Reads an implemented interface. Only its name is required. -/
def InterfaceDecl.ofJson? (j : Json) : Option InterfaceDecl := do
  let fields ← j.fields? ["name", "type_parameters", "arguments", "methods"]
  return {
    name := ← required fields "name" fun v _ => v.string?
    typeParams := ← withDefault fields "type_parameters" [] fun v _ => stringsOfJson? v
    args := ← withDefault fields "arguments" [] fun v _ =>
      list? v fun t _ => SourceType.ofJson? false t
    methods := ← withDefault fields "methods" [] fun v _ =>
      list? v fun m _ => MethodDecl.ofJson? m }

/-- The JSON form of an optional value, `null` if it is absent. -/
def optionToJson {α : Type} (toJson : α → Json) : Option α → Json
  | none => .null
  | some a => toJson a

def TraitDecl.toJson (d : TraitDecl) : Json :=
  .object [("name", .string d.name),
    ("type_parameters", .array (d.typeParams.map (·.toJson))),
    ("superclass", optionToJson SourceType.toJson d.superclass),
    ("interfaces", .array (d.interfaces.map (·.toJson))),
    ("members", .array (d.members.map (·.toJson)))]

/-- Reads a trait. Only its name is required. -/
def TraitDecl.ofJson? (j : Json) : Option TraitDecl := do
  let fields ← j.fields? ["name", "type_parameters", "superclass", "interfaces", "members"]
  return {
    name := ← required fields "name" fun v _ => v.string?
    typeParams := ← withDefault fields "type_parameters" [] fun v _ =>
      list? v fun p _ => TypeParamDecl.ofJson? false p
    superclass := ← optional fields "superclass" fun t _ => SourceType.ofJson? false t
    interfaces := ← withDefault fields "interfaces" [] fun v _ =>
      list? v fun i _ => InterfaceDecl.ofJson? i
    members := ← withDefault fields "members" [] fun v _ =>
      list? v fun m _ => MemberDecl.ofJson? m }

/-! ## Hosts -/

/-- The JSON form of a superclass argument. -/
def ArgumentDecl.toJson : ArgumentDecl → Json
  | .explicit type => .object [("kind", .string "explicit"), ("type", type.toJson)]
  | .named name => .object [("kind", .string "named"), ("name", .string name)]
  | .auto => .object [("kind", .string "auto")]

def ArgumentDecl.kinds : List String := ["explicit", "named", "auto"]

def ArgumentDecl.ofJson? (j : Json) : Option ArgumentDecl := do
  match ← kind? kinds false j with
  | "explicit" =>
    let fields ← j.fields? ["kind", "type"]
    return .explicit (← required fields "type" fun t _ => SourceType.ofJson? true t)
  | "named" =>
    let fields ← j.fields? ["kind", "name"]
    return .named (← required fields "name" fun v _ => v.string?)
  | "auto" => (j.fields? ["kind"]).map fun _ => .auto
  | _ => none

def SuperclassDecl.toJson (d : SuperclassDecl) : Json :=
  .object [("name", .string d.name),
    ("type_parameters", .array (d.typeParams.map (·.toJson))),
    ("arguments", .array (d.args.map (·.toJson)))]

/-- Reads a superclass. Only its name is required. -/
def SuperclassDecl.ofJson? (j : Json) : Option SuperclassDecl := do
  let fields ← j.fields? ["name", "type_parameters", "arguments"]
  return {
    name := ← required fields "name" fun v _ => v.string?
    typeParams := ← withDefault fields "type_parameters" [] fun v _ =>
      list? v fun p _ => TypeParamDecl.ofJson? false p
    args := ← withDefault fields "arguments" [] fun v _ =>
      list? v fun a _ => ArgumentDecl.ofJson? a }

def PreferenceDecl.toJson (d : PreferenceDecl) : Json :=
  .object [("method", .string d.method), ("trait", .string d.winner)]

def PreferenceDecl.ofJson? (j : Json) : Option PreferenceDecl := do
  let fields ← j.fields? ["method", "trait"]
  return {
    method := ← required fields "method" fun v _ => v.string?
    winner := ← required fields "trait" fun v _ => v.string? }

def HostDecl.toJson (d : HostDecl) : Json :=
  .object [("name", .string d.name), ("traits", .ofStrings d.traits),
    ("superclass", optionToJson SuperclassDecl.toJson d.superclass),
    ("preferences", .array (d.preferences.map (·.toJson)))]

/-- Reads a host. Its name and its list of traits are required. -/
def HostDecl.ofJson? (j : Json) : Option HostDecl := do
  let fields ← j.fields? ["name", "traits", "superclass", "preferences"]
  return {
    name := ← required fields "name" fun v _ => v.string?
    traits := ← required fields "traits" fun v _ => stringsOfJson? v
    superclass := ← optional fields "superclass" fun s _ => SuperclassDecl.ofJson? s
    preferences := ← withDefault fields "preferences" [] fun v _ =>
      list? v fun p _ => PreferenceDecl.ofJson? p }

/-! ## Rounds -/

namespace Declarations

/-- The JSON form of the declarations of a round. -/
def toJson (d : Declarations) : Json :=
  .object [("traits", .array (d.traits.map (·.toJson))),
    ("hosts", .array (d.hosts.map (·.toJson)))]

/-- Reads the declarations of a round, both parts of which may be missing. -/
def ofJson? (j : Json) : Option Declarations := do
  let fields ← j.fields? ["traits", "hosts"]
  return {
    traits := ← withDefault fields "traits" [] fun v _ => list? v fun t _ => TraitDecl.ofJson? t
    hosts := ← withDefault fields "hosts" [] fun v _ => list? v fun h _ => HostDecl.ofJson? h }

end Declarations

end TraitWeaver
