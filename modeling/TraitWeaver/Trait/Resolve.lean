import TraitWeaver.Config
import TraitWeaver.Declaration.Basic
import TraitWeaver.Diagnostic
import TraitWeaver.Declaration.Error
import TraitWeaver.Trait.Basic

/-!
# Checking traits

`TraitDecl.resolve` makes a trait of a declaration. A declaration whose name, superclass or type
parameters are not in order is refused. A member or an interface that is not in order is reported
and left out; the rest of the trait does not depend on it.
-/

namespace TraitWeaver

/-! ## Types in the terms of a trait -/

/-- Puts the trait's types in the place of an interface's parameters, by name. -/
def TypeRef.instantiate (t : TypeRef) (instantiation : Instantiation) : TypeRef :=
  if instantiation.isEmpty then t
  else
    t.rewrite fun p =>
      if p.var.qualifier.isSome then none else instantiation.lookup p.var.name

/-- A type in the terms of a trait: parameters of the interface that it comes from are replaced, and
every other variable is qualified. -/
def SourceType.resolveIn (t : SourceType) (qualifier : String) (instantiation : Instantiation) :
    Except TypeError TypeRef := do
  let t ← t.resolve
  return (t.instantiate instantiation).qualify qualifier

/-- A declared type parameter in the terms of a trait. -/
def TypeParamDecl.resolveIn (d : TypeParamDecl) (qualifier : String)
    (instantiation : Instantiation) : Except TypeError TypeParam := do
  let p ← d.resolve
  let upper := p.upper.map fun bound => (bound.instantiate instantiation).qualify qualifier
  { TypeParam.plain p.var.name with upper }.qualify qualifier

/-- The parameters of a method. A parameter without a name is named after its position, and the last
one is marked if the method is declared with varargs. -/
def resolveParameters (params : List ParameterDecl) (varargs : Bool) (qualifier : String)
    (instantiation : Instantiation) : Except TypeError (List Parameter) :=
  params.zipIdx.mapM fun (p, index) => do
    let type ← p.type.resolveIn qualifier instantiation
    return {
      type := if varargs && index + 1 = params.length then type.markVarargs else type
      name := if p.name = "" then s!"arg{index}" else p.name }

/-- A declared method in the terms of a trait, its kind apart, which is abstract here. -/
def MethodDecl.resolveIn (d : MethodDecl) (qualifier : String) (instantiation : Instantiation) :
    Except TypeError TraitMethod := do
  let typeParams ← d.typeParams.mapM (·.resolveIn qualifier instantiation)
  let params ← resolveParameters d.params d.varargs qualifier instantiation
  let throws ← d.throws.mapM (·.resolveIn qualifier instantiation)
  let returns ← d.returns.resolveIn qualifier instantiation
  return {
    name := d.name, typeParams, returns, params, throws
    kind := .abstract
    isFinal := d.has .final
    inheritedFrom := none }

/-- Static and private methods belong to the trait alone. -/
def MethodDecl.isOwn (d : MethodDecl) : Bool := d.has .static || d.has .private

/-! ## Members -/

/-- What has been made of a trait's members and interfaces so far. -/
structure TraitParts where
  methods : List TraitMethod
  constants : List TraitConstant
  interfaces : List TraitInterface
  diagnostics : List Diagnostic

namespace TraitParts

def empty : TraitParts := ⟨[], [], [], []⟩

def report (parts : TraitParts) (d : Diagnostic) : TraitParts :=
  { parts with diagnostics := parts.diagnostics ++ [d] }

def addMethod (parts : TraitParts) (m : TraitMethod) : TraitParts :=
  { parts with methods := parts.methods ++ [m] }

/-- One of the methods is the self accessor. -/
def hasAccessor (parts : TraitParts) : Bool := parts.methods.any (·.kind = .selfAccessor)

end TraitParts

/-- What members of a trait are checked against. -/
structure TraitContext where
  /-- The name of the trait as it is declared. -/
  name : String
  qualifier : String
  /-- The qualified name of the trait's interface. -/
  interfaceName : String

namespace TraitContext

def place (c : TraitContext) (member : String) : String := s!"{c.name}.{member}"

/-- What stands against a method being the trait's self accessor, if it is declared as one: it has
to be abstract without parameters, to return the trait's interface, and to be the first one. -/
def accessorFault? (c : TraitContext) (parts : TraitParts) (d : MethodDecl) (m : TraitMethod) :
    Option Diagnostic :=
  let returnsInterface :=
    m.returns.dims.depth = 0 && (m.returns.declaredName?.map (·.qualified)) == some c.interfaceName
  if !d.has .abstract || !d.params.isEmpty then
    some (.errorAt (c.place d.name) "the self accessor must be abstract and take no arguments")
  else if !returnsInterface then
    some ((Diagnostic.errorAt (c.place d.name)
      s!"the self accessor must return '{c.interfaceName}'").withHint
        "the host is only known to implement the trait's interface")
  else if parts.hasAccessor then
    some (.errorAt (c.place d.name) "a trait may declare only one self accessor")
  else
    none

/-- The report of a type that cannot be resolved. -/
def typeFault (c : TraitContext) (member : String) (e : TypeError) : Diagnostic :=
  .errorAt (c.place member) s!"unresolvable type: {e.message}"

def addMethod (c : TraitContext) (parts : TraitParts) (d : MethodDecl) : TraitParts :=
  if d.isOwn then
    parts.report (.warningAt (c.place d.name) "static and private methods are not composed")
  else
    match d.resolveIn c.qualifier [] with
    | .error e => parts.report (c.typeFault d.name e)
    | .ok m =>
      let ordinary : MethodKind := if d.has .abstract then .abstract else .concrete
      if d.selfAccessor then
        match c.accessorFault? parts d m with
        | some fault => (parts.report fault).addMethod { m with kind := ordinary }
        | none => parts.addMethod { m with kind := .selfAccessor }
      else
        parts.addMethod { m with kind := ordinary }

/-- Adds a field, which has to be a constant. -/
def addField (c : TraitContext) (parts : TraitParts) (d : FieldDecl) : TraitParts :=
  if d.has .public && d.has .static && d.has .final then
    match d.type.resolve with
    | .ok type => { parts with constants := parts.constants ++ [⟨d.name, type⟩] }
    | .error e => parts.report (c.typeFault d.name e)
  else
    parts.report ((Diagnostic.errorAt (c.place d.name)
      "trait fields must be public static final constants").withHint "traits cannot hold state")

def addMember (c : TraitContext) (parts : TraitParts) : MemberDecl → TraitParts
  | .method d => c.addMethod parts d
  | .constructor [] => parts
  | .constructor _ =>
    parts.report ((Diagnostic.errorAt (c.place "<init>")
      "trait constructors must take no arguments").withHint
        "remove the constructor or its parameters")
  | .field d => c.addField parts d
  | .other name description =>
    parts.report (.errorAt (if name = "" then c.name else c.place name)
      s!"{description} is not allowed in a trait")

end TraitContext

/-! ## Interfaces -/

/-- What a trait puts for the parameters of an interface: its arguments in their order, or the root
of the hierarchy for each if it gives none. -/
def InterfaceDecl.instantiation (d : InterfaceDecl) (args : List TypeRef) : Instantiation :=
  if args.isEmpty then d.typeParams.map fun name => (name, .plain .root)
  else d.typeParams.zip args

/-- An interface in the terms of a trait, and the methods that the trait has from it. -/
def InterfaceDecl.resolveIn (d : InterfaceDecl) (qualifier : String) :
    Except DeclarationError (TraitInterface × List TraitMethod) := do
  let name ← (DeclaredName.ofQualified d.name).mapError (.unresolvableType d.name)
  if !d.args.isEmpty && d.args.length ≠ d.typeParams.length then
    throw (.interfaceArity d.name d.typeParams.length d.args.length)
  let args ← (d.args.mapM (SourceType.resolveIn · qualifier [])).mapError
    (.unresolvableType d.name)
  let instantiation := d.instantiation args
  let methods ← (d.methods.filter (!·.isOwn)).mapM fun m => do
    let resolved ← (m.resolveIn qualifier instantiation).mapError (.unresolvableType d.name)
    return { resolved with
      kind := if m.has .default then .concrete else .abstract
      inheritedFrom := some name.qualified }
  return (⟨⟨name, args⟩, instantiation⟩, methods)

/-- Adds a method from an interface, unless there is one of the same signature. -/
def TraitParts.inherit (parts : TraitParts) (m : TraitMethod) : TraitParts :=
  if parts.methods.any (·.key = m.key) then parts
  else parts.addMethod m

/-- Adds an interface that the trait implements. -/
def TraitContext.addInterface (c : TraitContext) (parts : TraitParts) (d : InterfaceDecl) :
    TraitParts :=
  match d.resolveIn c.qualifier with
  | .ok (interface, methods) =>
    let parts := methods.foldl TraitParts.inherit parts
    { parts with interfaces := parts.interfaces ++ [interface] }
  | .error e => parts.report (.errorAt c.name e.message)

/-! ## Traits -/

/-- A trait must extend nothing but the root of the hierarchy. -/
def TraitDecl.requireRootSuperclass (d : TraitDecl) : Except DeclarationError Unit :=
  match d.superclass with
  | none => .ok ()
  | some superclass =>
    match superclass.resolve with
    | .error e => .error (.unresolvableType d.name e)
    | .ok t =>
      if t.refersToRoot && t.dims.depth = 0 then .ok ()
      else .error (.illegalSuperclass d.name t.text)

namespace TraitDecl

/-- What the members of the trait are checked against. -/
def context (d : TraitDecl) (config : Config) (name : DeclaredName) : TraitContext :=
  { name := d.name
    qualifier := name.simple
    interfaceName := (DeclaredName.mk name.package (config.interfaceOf name.simple)).qualified }

/-- All that is made of the members and interfaces of the trait. -/
def parts (d : TraitDecl) (c : TraitContext) : TraitParts :=
  d.interfaces.foldl c.addInterface (d.members.foldl c.addMember .empty)

/-- The trait that a declaration describes, and what was found on the way. -/
def resolve (d : TraitDecl) (config : Config) :
    Except DeclarationError (Trait × List Diagnostic) := do
  let name ← (DeclaredName.ofQualified d.name).mapError (.invalidName d.name)
  d.requireRootSuperclass
  let typeParams ← (d.typeParams.mapM (TypeParamDecl.resolveIn · name.simple [])).mapError
    (.unresolvableType d.name)
  let parts := d.parts (d.context config name)
  return ({
    type := ⟨name, typeParams.map (·.withoutBounds.toRef)⟩
    qualifier := name.simple
    typeParams
    methods := parts.methods
    constants := parts.constants
    interfaces := parts.interfaces }, parts.diagnostics)

end TraitDecl

end TraitWeaver
