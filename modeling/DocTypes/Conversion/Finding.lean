import DocTypes.Conversion.Traced
import DocTypes.Text.Quoted

/-! # Findings in words

The wording of what a conversion reports, and the diagnostic that it makes. -/

namespace DocTypes.Finding

/-- A finding in words. -/
def message : Finding → Text
  | nestedTooDeep limit => "type nested more than " ++ Text.ofNat limit ++ " levels deep"
  | notAType text => text.quoted ++ " does not appear to be a type"
  | unsupportedGeneric name text =>
    "unsupported generic type " ++ name.quoted ++ " in " ++ text.quoted
  | invalidHash text => "Invalid hash, must have exactly two types: " ++ text.quoted ++ "."
  | notAConstant name => name ++ " is probably not a type, but using anyway"
  | unresolved name replaced =>
    name ++ " wasn't able to be resolved to a constant in this project"
      ++ if replaced then ", replaced with untyped" else ""
  | inferred name path => name ++ " was resolved to " ++ path
  | duckDropped text => text ++ " looks like a duck type, replacing with untyped"
  | duckReplaced text replacement =>
    text ++ " looks like a duck type with an equivalent interface, replacing with " ++ replacement

/-- The diagnostic that reports a finding about an entity, or about none. -/
def diagnostic (item : Option Text) (f : Finding) : Diagnostic := ⟨f.kind, item, f.message⟩

end DocTypes.Finding
