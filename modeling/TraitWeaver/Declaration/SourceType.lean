import TraitWeaver.TypeRef.Occurrences

/-!
# Types as declarations spell them

A `SourceType` is a type as it is found in a declaration: arrays are nested, an intersection may
stand anywhere, names have not been looked at. `resolve` makes a type reference of it, or says why
there is none. `mentions` gathers the declared types straight from the spelling, also where the
spelling is no type.
-/

namespace TraitWeaver

/-- A type as a declaration spells it. -/
inductive SourceType where
  | primitive (name : String)
  | void
  /-- A class or interface with its arguments. -/
  | declared (name : String) (args : List SourceType)
  | array (component : SourceType)
  | typeVariable (name : String) (upper lower : Option SourceType)
  | wildcard (upper lower : Option SourceType)
  /-- Several types at once, which makes sense only as an upper bound. -/
  | intersection (bounds : List SourceType)

namespace SourceType

/-! ## Induction -/

/-- What holds of a type as soon as it holds of the types in it holds of all types. -/
@[induction_eliminator]
theorem inductOn {motive : SourceType → Prop}
    (primitive : ∀ name, motive (.primitive name)) (void : motive .void)
    (declared : ∀ name args, (∀ t ∈ args, motive t) → motive (.declared name args))
    (array : ∀ component, motive component → motive (.array component))
    (typeVariable : ∀ name upper lower, (∀ t, upper = some t → motive t) →
      (∀ t, lower = some t → motive t) → motive (.typeVariable name upper lower))
    (wildcard : ∀ upper lower, (∀ t, upper = some t → motive t) →
      (∀ t, lower = some t → motive t) → motive (.wildcard upper lower))
    (intersection : ∀ bounds, (∀ t ∈ bounds, motive t) → motive (.intersection bounds))
    (t : SourceType) : motive t := by
  refine @SourceType.rec motive (fun ts => ∀ t ∈ ts, motive t)
    (fun bound => ∀ t, bound = some t → motive t) primitive void declared array typeVariable
    wildcard intersection ?nil ?cons ?none ?some t
  case nil => exact fun _ h => absurd h List.not_mem_nil
  case cons => exact fun t ts ht hts => List.forall_mem_cons.mpr ⟨ht, hts⟩
  case none => exact fun _ h => nomatch h
  case some => exact fun t ht u h => Option.some.inj h ▸ ht

/-! ## Resolution -/

/-- The components of an upper bound without the root of the hierarchy, which bounds nothing. An
array of the root is a bound. -/
def withoutRoot (bounds : List TypeRef) : List TypeRef :=
  bounds.filter fun t => !(t.refersToRoot && t.dims.depth = 0)

mutual

/-- The reference that a spelling stands for. -/
def resolve : SourceType → Except TypeError TypeRef
  | .primitive name => do
    let name ← DeclaredName.make "" name
    if name.isPrimitive then return .plain name else throw (.unresolvable name.simple)
  | .void => return .plain .void
  | .declared name args => do
    let args ← resolveAll args
    let name ← DeclaredName.ofQualified name
    return .declared name args .scalar
  | .array component => do
    let t ← resolve component
    return t.withDepth (t.dims.depth + 1)
  | .typeVariable name upper lower => do
    if name = "" then throw .emptyName
    let upper ← resolveUpper upper
    let lower ← resolveLower lower
    return .param (.plain name) upper lower .scalar
  | .wildcard upper lower => do
    let upper ← resolveUpper upper
    let lower ← resolveLower lower
    return .param (.plain TypeVar.wildcardName) upper lower .scalar
  | .intersection _ => throw .unexpectedIntersection

/-- The references that several spellings stand for; the first error counts. -/
def resolveAll : List SourceType → Except TypeError (List TypeRef)
  | [] => return []
  | t :: ts => do
    let t ← resolve t
    let ts ← resolveAll ts
    return t :: ts

/-- The upper bounds that a spelling stands for: an intersection is taken apart, and the root is
left out. -/
def resolveUpper : Option SourceType → Except TypeError (List TypeRef)
  | none => return []
  | some (.intersection bounds) => do
    let bounds ← resolveAll bounds
    return withoutRoot bounds
  | some t => do
    let t ← resolve t
    return withoutRoot [t]

/-- The lower bound that a spelling stands for. -/
def resolveLower : Option SourceType → Except TypeError (Option TypeRef)
  | none => return none
  | some t => do
    let t ← resolve t
    return some t

end

/-! ## Mentions -/

mutual

/-- The names of all classes and interfaces in a spelling; what is no name is passed over. -/
def declaredNames : SourceType → List DeclaredName
  | .primitive _ | .void => []
  | .declared name args =>
    (DeclaredName.ofQualified name).toOption.toList ++ declaredNamesOfAll args
  | .array component => declaredNames component
  | .typeVariable _ upper lower => declaredNamesOfBound upper ++ declaredNamesOfBound lower
  | .wildcard upper lower => declaredNamesOfBound upper ++ declaredNamesOfBound lower
  | .intersection bounds => declaredNamesOfAll bounds

def declaredNamesOfAll : List SourceType → List DeclaredName
  | [] => []
  | t :: ts => declaredNames t ++ declaredNamesOfAll ts

def declaredNamesOfBound : Option SourceType → List DeclaredName
  | none => []
  | some t => declaredNames t

end

/-- The declared types that a file has to know about to write this type. -/
def mentions (t : SourceType) : List DeclaredName := t.declaredNames.filter (·.isImportable)

end SourceType

end TraitWeaver
