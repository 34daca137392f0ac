import TraitWeaver.TypeRef.Basic

/-!
# The display form of type references

How a reference is shown where no file and no imports are at hand: every declared type in full,
every variable under its effective name, a wildcard with its bound.
-/

namespace TraitWeaver

namespace TypeRef

/-- Arguments between angle brackets, or nothing if there are none. -/
def argumentText : List String → String
  | [] => ""
  | args => "<" ++ ", ".intercalate args ++ ">"

mutual

def text : TypeRef → String
  | .declared name args dims => name.qualified ++ argumentText (texts args) ++ dims.text
  | .param var upper lower dims =>
    let upperText := match var.isWildcard, texts upper with
      | true, bound :: _ => s!" extends {bound}"
      | _, _ => ""
    var.sourceName ++ upperText ++ lowerText lower ++ dims.text

/-- The display forms of several references. -/
def texts : List TypeRef → List String
  | [] => []
  | t :: ts => text t :: texts ts

/-- The display form of a lower bound. -/
def lowerText : Option TypeRef → String
  | none => ""
  | some t => " super " ++ text t

end

end TypeRef

def DeclaredType.text (t : DeclaredType) : String := t.toRef.text

def TypeParam.text (p : TypeParam) : String := p.toRef.text

end TraitWeaver
