import TraitWeaver.Source.Writer

/-!
# Compilation units

A compilation unit is a file as data: its package, a comment at its head and one type with its
members. It is written in one pass over the data, after the types that it mentions have been
gathered; either all of it is written or nothing.
-/

namespace TraitWeaver

/-- A member of a type. -/
inductive Member where
  | field (field : Field)
  /-- A method without a body. -/
  | abstract (heading : MethodHeading)
  /-- A method or constructor with the statements of its body. -/
  | method (heading : MethodHeading) (body : List Expr)
  /-- A type in the type. -/
  | nested (heading : TypeHeading) (members : List Member)

/-- A type with its members. -/
structure TypeDefinition where
  heading : TypeHeading
  members : List Member

namespace Member

mutual

/-- The types that a file has to know about to write a member. -/
def mentions : Member → List DeclaredName
  | .field f => f.mentions
  | .abstract h => h.mentions
  | .method h body => h.mentions ++ Expr.mentionsOfAll body
  | .nested h members => h.mentions ++ mentionsOfAll members

/-- The types mentioned in several members. -/
def mentionsOfAll : List Member → List DeclaredName
  | [] => []
  | m :: ms => mentions m ++ mentionsOfAll ms

end

mutual

def ops : Member → List Writer.Op
  | .field f => [.field f]
  | .abstract h => [.declareMethod h]
  | .method h body =>
    (if h.isConstructor then .openConstructor h else .openMethod h) ::
      body.map .statement ++ [.closeMethod]
  | .nested h members => .openType h :: opsOfAll members ++ [.closeType]

/-- The operations that write several members. -/
def opsOfAll : List Member → List Writer.Op
  | [] => []
  | m :: ms => ops m ++ opsOfAll ms

end

end Member

namespace TypeDefinition

/-- The types that a file has to know about to write the type. -/
def mentions (b : TypeDefinition) : List DeclaredName :=
  b.heading.mentions ++ Member.mentionsOfAll b.members

def ops (b : TypeDefinition) : List Writer.Op :=
  .openType b.heading :: Member.opsOfAll b.members ++ [.closeType]

end TypeDefinition

/-- A file with one type. -/
structure CompilationUnit where
  package : String
  header : Option String
  body : TypeDefinition

namespace CompilationUnit

def name (u : CompilationUnit) : DeclaredName := ⟨u.package, u.body.heading.name⟩

/-- The types that the file mentions, in increasing order. -/
def mentions (u : CompilationUnit) : List DeclaredName :=
  DeclaredName.sortedSet u.body.mentions

def ops (u : CompilationUnit) : List Writer.Op :=
  u.header.toList.map .comment ++ [.package u.package, .imports u.mentions] ++ u.body.ops

def render (u : CompilationUnit) : Except WriterError String := do
  let w ← Writer.new.applyAll u.ops
  w.finish

end CompilationUnit

end TraitWeaver
