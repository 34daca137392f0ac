import TraitWeaver.Declaration.Json

/-!
# Declarations and their JSON form

Declarations are written by one set of functions and read by another, and nothing
but care keeps the two together: a kind or a field under another name, or a field
that is written in another form than it is read in, and a declaration that was
written does not come back. This module says that they do fit (`Lossless`).

Writing fills in every field, so what is written is read without any default. The
readers are taken one kind of record at a time. Each of them is led back to the
readers of its fields, by computing which field stands under which name; types are
in types, and there the argument is an induction.
-/

namespace TraitWeaver

open Json (list?)

/-! ## Lists and absent values -/

namespace Json

variable {α : Type} {write : α → Json} {read : Json → Option α}

theorem list?_array (read : Json → Option α) (items : List Json) :
    list? (.array items) (fun v _ => read v) = items.mapM read := by
  have hparts : (parts items).map (·.val) = items := by
    unfold parts
    rw [List.map_map]
    exact List.attach_map_subtype_val items
  calc (parts items).mapM (fun item => read item.val)
      = ((parts items).map (·.val)).mapM read := by rw [List.mapM_map]; rfl
    _ = items.mapM read := by rw [hparts]

/-- **A list is read back if each of its items is.** -/
theorem list?_map {as : List α} (h : ∀ a ∈ as, read (write a) = some a) :
    list? (.array (as.map write)) (fun v _ => read v) = some as := by
  rw [list?_array]
  induction as with
  | nil => rfl
  | cons a as ih =>
      rw [List.map_cons, List.mapM_cons, h a List.mem_cons_self,
        ih fun b hb => h b (List.mem_cons_of_mem a hb)]
      rfl

/-- Reads a value that may be `null`. -/
def orNull (read : Json → Option α) : Json → Option (Option α)
  | .null => some none
  | value => do return some (← read value)

/-- **A value that may be absent is read back, as no value is written as `null`.** -/
theorem orNull_optionToJson {o : Option α} (hnull : ∀ a, write a ≠ .null)
    (h : ∀ a, o = some a → read (write a) = some a) :
    orNull read (optionToJson write o) = some o := by
  cases o with
  | none => rfl
  | some a =>
      show orNull read (write a) = some (some a)
      unfold orNull
      split
      · rename_i he
        exact absurd he (hnull a)
      · rw [h a rfl]
        rfl

end Json

/-! ## Types

What is read of an object that has the kind first and then its fields.
-/

namespace SourceType

theorem ofJson?_primitive (inner : Bool) (name : String) :
    ofJson? inner (.object [("kind", .string "primitive"), ("name", .string name)]) =
      some (.primitive name) := by
  rw [ofJson?]
  rfl

theorem ofJson?_void (inner : Bool) :
    ofJson? inner (.object [("kind", .string "void")]) = some .void := by
  rw [ofJson?]
  rfl

theorem ofJson?_declared (inner : Bool) (name : String) (args : Json) :
    ofJson? inner
        (.object [("kind", .string "declared"), ("name", .string name), ("arguments", args)]) = do
      let args ← list? args fun t _ => ofJson? true t
      return .declared name args := by
  rw [ofJson?]
  rfl

theorem ofJson?_array (inner : Bool) (component : Json) :
    ofJson? inner (.object [("kind", .string "array"), ("component", component)]) = do
      let component ← ofJson? true component
      return .array component := by
  rw [ofJson?]
  rfl

theorem ofJson?_typeVariable (inner : Bool) (name : String) (upper lower : Json) :
    ofJson? inner
        (.object [("kind", .string "type_variable"), ("name", .string name),
          ("upper_bound", upper), ("lower_bound", lower)]) = do
      let upper ← upper.orNull (ofJson? true)
      let lower ← lower.orNull (ofJson? true)
      return .typeVariable name upper lower := by
  rw [ofJson?]
  cases upper <;> cases lower <;> rfl

theorem ofJson?_wildcard (inner : Bool) (upper lower : Json) :
    ofJson? inner
        (.object
          [("kind", .string "wildcard"), ("extends_bound", upper), ("super_bound", lower)]) = do
      let upper ← upper.orNull (ofJson? true)
      let lower ← lower.orNull (ofJson? true)
      return .wildcard upper lower := by
  rw [ofJson?]
  cases upper <;> cases lower <;> rfl

theorem ofJson?_intersection (inner : Bool) (bounds : Json) :
    ofJson? inner (.object [("kind", .string "intersection"), ("bounds", bounds)]) = do
      let bounds ← list? bounds fun t _ => ofJson? true t
      return .intersection bounds := by
  rw [ofJson?]
  rfl

theorem toJson_ne_null (t : SourceType) : t.toJson ≠ .null := by
  cases t <;> exact Json.noConfusion

theorem optionToJson_eq (bound : Option SourceType) :
    optionToJson bound = TraitWeaver.optionToJson toJson bound := by
  cases bound <;> rfl

/-- **Types of any depth are read back.** -/
theorem ofJson?_toJson (inner : Bool) (t : SourceType) : ofJson? inner t.toJson = some t := by
  -- whatever is inside of a type stands inside a value with a kind
  induction t generalizing inner with
  | primitive name => exact ofJson?_primitive inner name
  | void => exact ofJson?_void inner
  | declared name args ih =>
      rw [toJson, listToJson_eq_map, ofJson?_declared, Json.list?_map fun t ht => ih t ht true]
      rfl
  | array component ih =>
      rw [toJson, ofJson?_array, ih true]
      rfl
  | typeVariable name upper lower ihUpper ihLower =>
      rw [toJson, optionToJson_eq, optionToJson_eq, ofJson?_typeVariable,
        Json.orNull_optionToJson toJson_ne_null fun t ht => ihUpper t ht true,
        Json.orNull_optionToJson toJson_ne_null fun t ht => ihLower t ht true]
      rfl
  | wildcard upper lower ihUpper ihLower =>
      rw [toJson, optionToJson_eq, optionToJson_eq, ofJson?_wildcard,
        Json.orNull_optionToJson toJson_ne_null fun t ht => ihUpper t ht true,
        Json.orNull_optionToJson toJson_ne_null fun t ht => ihLower t ht true]
      rfl
  | intersection bounds ih =>
      rw [toJson, listToJson_eq_map, ofJson?_intersection, Json.list?_map fun t ht => ih t ht true]
      rfl

end SourceType

/-! ## Members -/

theorem Modifier.ofWord?_word (m : Modifier) : ofWord? m.word = some m := by
  cases m <;> rfl

theorem Modifier.listOfJson?_listToJson (inner : Bool) (ms : List Modifier) :
    listOfJson? inner (listToJson ms) = some ms := by
  unfold listOfJson? listToJson Json.ofStrings
  rw [List.map_map]
  exact Json.list?_map fun m _ => ofWord?_word m

theorem stringsOfJson?_ofStrings (ss : List String) : stringsOfJson? (.ofStrings ss) = some ss :=
  Json.list?_map fun _ _ => rfl

theorem TypeParamDecl.ofJson?_toJson (inner : Bool) (d : TypeParamDecl) :
    ofJson? inner d.toJson = some d := by
  show (do
    let bounds ← list? (.array (d.bounds.map SourceType.toJson)) fun t _ =>
      SourceType.ofJson? inner t
    return { name := d.name, bounds }) = some d
  rw [Json.list?_map fun t _ => SourceType.ofJson?_toJson inner t]
  rfl

theorem ParameterDecl.ofJson?_toJson (inner : Bool) (d : ParameterDecl) :
    ofJson? inner d.toJson = some d := by
  show (do
    let type ← SourceType.ofJson? inner d.type.toJson
    return { name := d.name, type }) = some d
  rw [SourceType.ofJson?_toJson]
  rfl

/-- What is read of the fields of a method that was written, as a record or as a member. -/
theorem MethodDecl.read_fields (inner : Bool) (d : MethodDecl) : (do
    let modifiers ← Modifier.listOfJson? inner (Modifier.listToJson d.modifiers)
    let typeParams ← list? (.array (d.typeParams.map (·.toJson))) fun p _ =>
      TypeParamDecl.ofJson? inner p
    let returns ← SourceType.ofJson? inner d.returns.toJson
    let params ← list? (.array (d.params.map (·.toJson))) fun p _ => ParameterDecl.ofJson? inner p
    let throws ← list? (.array (d.throws.map SourceType.toJson)) fun t _ =>
      SourceType.ofJson? inner t
    return { d with modifiers, typeParams, returns, params, throws }) = some d := by
  rw [Modifier.listOfJson?_listToJson,
    Json.list?_map fun p _ => TypeParamDecl.ofJson?_toJson inner p, SourceType.ofJson?_toJson,
    Json.list?_map fun p _ => ParameterDecl.ofJson?_toJson inner p,
    Json.list?_map fun t _ => SourceType.ofJson?_toJson inner t]
  rfl

theorem MethodDecl.ofJson?_toJson (d : MethodDecl) : ofJson? d.toJson = some d :=
  read_fields false d

/-- What is read of the fields of a field that was written as a member. -/
theorem FieldDecl.read_fields (d : FieldDecl) : (do
    let type ← SourceType.ofJson? true d.type.toJson
    let modifiers ← Modifier.listOfJson? true (Modifier.listToJson d.modifiers)
    return { d with type, modifiers }) = some d := by
  rw [SourceType.ofJson?_toJson, Modifier.listOfJson?_listToJson]
  rfl

theorem MemberDecl.ofJson?_toJson (m : MemberDecl) : ofJson? m.toJson = some m := by
  cases m with
  | method d => exact congrArg (· >>= fun d' => some (MemberDecl.method d')) (d.read_fields true)
  | constructor params =>
      show (do
        let params ← list? (.array (params.map (·.toJson))) fun p _ => ParameterDecl.ofJson? true p
        return .constructor params) = some (MemberDecl.constructor params)
      rw [Json.list?_map fun p _ => ParameterDecl.ofJson?_toJson true p]
      rfl
  | field d => exact congrArg (· >>= fun d' => some (MemberDecl.field d')) d.read_fields
  | other name description => rfl

/-! ## Traits -/

theorem InterfaceDecl.ofJson?_toJson (d : InterfaceDecl) : ofJson? d.toJson = some d := by
  show (do
    let typeParams ← stringsOfJson? (.ofStrings d.typeParams)
    let args ← list? (.array (d.args.map SourceType.toJson)) fun t _ => SourceType.ofJson? false t
    let methods ← list? (.array (d.methods.map (·.toJson))) fun m _ => MethodDecl.ofJson? m
    return { name := d.name, typeParams, args, methods }) = some d
  rw [stringsOfJson?_ofStrings, Json.list?_map fun t _ => SourceType.ofJson?_toJson false t,
    Json.list?_map fun m _ => MethodDecl.ofJson?_toJson m]
  rfl

theorem TraitDecl.ofJson?_toJson (d : TraitDecl) : ofJson? d.toJson = some d := by
  have hread : ofJson? d.toJson = (do
      let typeParams ← list? (.array (d.typeParams.map (·.toJson))) fun p _ =>
        TypeParamDecl.ofJson? false p
      let superclass ← (optionToJson SourceType.toJson d.superclass).orNull (SourceType.ofJson? false)
      let interfaces ← list? (.array (d.interfaces.map (·.toJson))) fun i _ =>
        InterfaceDecl.ofJson? i
      let members ← list? (.array (d.members.map (·.toJson))) fun m _ => MemberDecl.ofJson? m
      return { name := d.name, typeParams, superclass, interfaces, members }) := by
    unfold ofJson? toJson
    cases optionToJson SourceType.toJson d.superclass <;> rfl
  rw [hread, Json.list?_map fun p _ => TypeParamDecl.ofJson?_toJson false p,
    Json.orNull_optionToJson SourceType.toJson_ne_null
      fun t _ => SourceType.ofJson?_toJson false t,
    Json.list?_map fun i _ => InterfaceDecl.ofJson?_toJson i,
    Json.list?_map fun m _ => MemberDecl.ofJson?_toJson m]
  rfl

/-! ## Hosts -/

theorem ArgumentDecl.ofJson?_toJson (d : ArgumentDecl) : ofJson? d.toJson = some d := by
  cases d with
  | explicit type =>
      show (do
        let type ← SourceType.ofJson? true type.toJson
        return .explicit type) = some (ArgumentDecl.explicit type)
      rw [SourceType.ofJson?_toJson]
      rfl
  | named name => rfl
  | auto => rfl

theorem SuperclassDecl.ofJson?_toJson (d : SuperclassDecl) : ofJson? d.toJson = some d := by
  show (do
    let typeParams ← list? (.array (d.typeParams.map (·.toJson))) fun p _ =>
      TypeParamDecl.ofJson? false p
    let args ← list? (.array (d.args.map (·.toJson))) fun a _ => ArgumentDecl.ofJson? a
    return { name := d.name, typeParams, args }) = some d
  rw [Json.list?_map fun p _ => TypeParamDecl.ofJson?_toJson false p,
    Json.list?_map fun a _ => ArgumentDecl.ofJson?_toJson a]
  rfl

theorem PreferenceDecl.ofJson?_toJson (d : PreferenceDecl) : ofJson? d.toJson = some d := rfl

theorem HostDecl.ofJson?_toJson (d : HostDecl) : ofJson? d.toJson = some d := by
  have hread : ofJson? d.toJson = (do
      let traits ← stringsOfJson? (.ofStrings d.traits)
      let superclass ← (optionToJson SuperclassDecl.toJson d.superclass).orNull SuperclassDecl.ofJson?
      let preferences ← list? (.array (d.preferences.map (·.toJson))) fun p _ =>
        PreferenceDecl.ofJson? p
      return { name := d.name, traits, superclass, preferences }) := by
    unfold ofJson? toJson
    cases optionToJson SuperclassDecl.toJson d.superclass <;> rfl
  rw [hread, stringsOfJson?_ofStrings,
    Json.orNull_optionToJson (fun _ => Json.noConfusion)
      fun s _ => SuperclassDecl.ofJson?_toJson s,
    Json.list?_map fun p _ => PreferenceDecl.ofJson?_toJson p]
  rfl

/-! ## Rounds -/

theorem Declarations.ofJson?_toJson (d : Declarations) : ofJson? d.toJson = some d := by
  show (do
    let traits ← list? (.array (d.traits.map (·.toJson))) fun t _ => TraitDecl.ofJson? t
    let hosts ← list? (.array (d.hosts.map (·.toJson))) fun h _ => HostDecl.ofJson? h
    return { traits, hosts }) = some d
  rw [Json.list?_map fun t _ => TraitDecl.ofJson?_toJson t,
    Json.list?_map fun h _ => HostDecl.ofJson?_toJson h]
  rfl

/-! ## No loss -/

/-- Nothing is lost on the way into a form of JSON and back. -/
structure Json.Lossless {α : Type} (write : α → Json) (read : Json → Option α) : Prop where
  /-- Every value is read back from what it is written as. -/
  read_write : ∀ a, read (write a) = some a
  /-- Any JSON value that can be read, in whatever order its fields are, whatever it has beside them
  and whatever it leaves out, is written in a form that does not change when it is read and written
  once more. -/
  write_read : ∀ j a, read j = some a → ∃ b, read (write a) = some b ∧ write b = write a

theorem Json.Lossless.of_read_write {α : Type} {write : α → Json} {read : Json → Option α}
    (h : ∀ a, read (write a) = some a) : Lossless write read where
  read_write := h
  write_read _ a _ := ⟨a, h a, rfl⟩

/--
**Nothing is lost between declarations and their JSON form.**

This holds of types, wherever they stand, of everything that has a kind, and of
all that is declared, however deep it is nested.
-/
theorem lossless_declarations :
    (∀ inner, Json.Lossless SourceType.toJson (SourceType.ofJson? inner))
      ∧ Json.Lossless MemberDecl.toJson MemberDecl.ofJson?
      ∧ Json.Lossless ArgumentDecl.toJson ArgumentDecl.ofJson?
      ∧ Json.Lossless TraitDecl.toJson TraitDecl.ofJson?
      ∧ Json.Lossless HostDecl.toJson HostDecl.ofJson?
      ∧ Json.Lossless Declarations.toJson Declarations.ofJson? :=
  ⟨fun inner => .of_read_write (SourceType.ofJson?_toJson inner),
    .of_read_write MemberDecl.ofJson?_toJson, .of_read_write ArgumentDecl.ofJson?_toJson,
    .of_read_write TraitDecl.ofJson?_toJson, .of_read_write HostDecl.ofJson?_toJson,
    .of_read_write Declarations.ofJson?_toJson⟩

/-- The kind last, a field that nobody asks for, and no arguments. -/
example :
    SourceType.ofJson? false (.object
      [("name", .string "lib.Box"), ("line", .number "7"), ("kind", .string "declared")]) =
    some (.declared "lib.Box" []) := by
  rw [SourceType.ofJson?]
  rfl

end TraitWeaver
