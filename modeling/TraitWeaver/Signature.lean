import TraitWeaver.TypeRef.Display
import TraitWeaver.TypeRef.Rewrite

/-!
# Method signatures

A signature is what decides whether methods of two traits are one method of the host: name, return
type, parameter types and thrown types, each in its position. Qualifiers do not count, so the
comparison is made on normalized signatures.
-/

namespace TraitWeaver

/-- A parameter of a method. -/
structure Parameter where
  type : TypeRef
  name : String
deriving DecidableEq, Repr

/-- The comparable part of a method. -/
structure Signature where
  name : String
  returns : TypeRef
  args : List TypeRef
  throws : List TypeRef
deriving DecidableEq, Repr

namespace Signature

/-- The signature without any qualifier. -/
def normalized (s : Signature) : Signature :=
  { name := s.name
    returns := s.returns.normalized
    args := s.args.map (·.normalized)
    throws := s.throws.map (·.normalized) }

def arity (s : Signature) : Nat := s.args.length

def text (s : Signature) : String :=
  let throwsText := match s.throws with
    | [] => ""
    | types => " throws " ++ ", ".intercalate (types.map (·.text))
  s!"{s.returns.text} {s.name}(" ++ ", ".intercalate (s.args.map (·.text)) ++ ")" ++ throwsText

end Signature

end TraitWeaver
