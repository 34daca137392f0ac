import TraitWeaver.TypeRef.Basic

/-!
# What occurs in a type reference

The views that laws about references are stated with: the references nested in one, the type
parameters among them, and the declared types it mentions.
-/

namespace TraitWeaver.TypeRef

mutual

/-- The reference itself and every reference nested in it: arguments, upper bounds, lower bound,
each before what is nested in it. -/
def nodes : TypeRef → List TypeRef
  | .declared name args dims => .declared name args dims :: nodesOfList args
  | .param var upper lower dims =>
    .param var upper lower dims :: (nodesOfList upper ++ nodesOfOption lower)

/-- The nodes of several references, one reference after the other. -/
def nodesOfList : List TypeRef → List TypeRef
  | [] => []
  | t :: ts => nodes t ++ nodesOfList ts

def nodesOfOption : Option TypeRef → List TypeRef
  | none => []
  | some t => nodes t

end

theorem nodesOfList_eq_flatMap (ts : List TypeRef) : nodesOfList ts = ts.flatMap nodes := by
  induction ts with
  | nil => rfl
  | cons t ts ih => rw [nodesOfList, ih, List.flatMap_cons]

theorem mem_nodesOfOption {lower : Option TypeRef} {u : TypeRef} :
    u ∈ nodesOfOption lower ↔ ∃ t, lower = some t ∧ u ∈ t.nodes := by
  cases lower with
  | none => simp [nodesOfOption]
  | some t => simp [nodesOfOption]

theorem mem_nodes_declared {name : DeclaredName} {args : List TypeRef} {dims : Dims}
    {u : TypeRef} :
    u ∈ nodes (.declared name args dims) ↔
      u = .declared name args dims ∨ ∃ t ∈ args, u ∈ t.nodes := by
  rw [nodes, nodesOfList_eq_flatMap, List.mem_cons, List.mem_flatMap]

theorem mem_nodes_param {var : TypeVar} {upper : List TypeRef} {lower : Option TypeRef}
    {dims : Dims} {u : TypeRef} :
    u ∈ nodes (.param var upper lower dims) ↔
      u = .param var upper lower dims ∨ (∃ t ∈ upper, u ∈ t.nodes)
        ∨ ∃ t, lower = some t ∧ u ∈ t.nodes := by
  rw [nodes, nodesOfList_eq_flatMap, List.mem_cons, List.mem_append, List.mem_flatMap,
    mem_nodesOfOption]

/-- The type parameters that occur, in the order of `nodes`. -/
def params (t : TypeRef) : List TypeParam := t.nodes.filterMap param?

theorem params_declared (name : DeclaredName) (args : List TypeRef) (dims : Dims) :
    params (.declared name args dims) = args.flatMap params := by
  unfold params
  rw [nodes, nodesOfList_eq_flatMap, List.filterMap_cons_none rfl, List.filterMap_flatMap]

theorem params_param (var : TypeVar) (upper : List TypeRef) (lower : Option TypeRef) (dims : Dims) :
    params (.param var upper lower dims) =
      ⟨var, upper, lower⟩ :: (upper.flatMap params ++ lower.toList.flatMap params) := by
  have hl : nodesOfOption lower = lower.toList.flatMap nodes := by
    cases lower with
    | none => rfl
    | some t => exact (List.append_nil _).symm
  unfold params
  rw [nodes, nodesOfList_eq_flatMap, hl, List.filterMap_cons, List.filterMap_append,
    List.filterMap_flatMap, List.filterMap_flatMap]
  rfl

/-- The declared names that occur, in the order of `nodes`. -/
def declaredNames (t : TypeRef) : List DeclaredName := t.nodes.filterMap declaredName?

/-- The declared types that a file has to know about to write this reference: all that occur but
the root of the hierarchy and the primitives. -/
def mentions (t : TypeRef) : List DeclaredName := t.declaredNames.filter (·.isImportable)

end TraitWeaver.TypeRef

namespace TraitWeaver

/-- What writing a declared type mentions, its arguments included. -/
def DeclaredType.mentions (t : DeclaredType) : List DeclaredName := t.toRef.mentions

/-- What a declaration of the parameter mentions: its upper bounds. -/
def TypeParam.mentions (p : TypeParam) : List DeclaredName := p.upper.flatMap (·.mentions)

end TraitWeaver
