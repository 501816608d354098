import DocTypes.Text.Blank

/-! # Ruby versions

Which classes exist depends on the major and minor version of the host.  A written version has
one to three numbers; the third is checked and dropped, and a missing second one is zero. -/

namespace DocTypes

/-- A version of Ruby, without the patch level. -/
structure RubyVersion where
  major : Nat
  minor : Nat
  deriving DecidableEq

namespace RubyVersion

/-- The version assumed when none is given. -/
def default : RubyVersion := ⟨3, 3⟩

/-- Versions are ordered by the major number, and by the minor number within it. -/
protected def compare (v w : RubyVersion) : Ordering :=
  (Ord.compare v.major w.major).then (Ord.compare v.minor w.minor)

instance : Ord RubyVersion := ⟨RubyVersion.compare⟩

/-- Whether `v` is older than `w`. -/
def olderThan (v w : RubyVersion) : Bool := compare v w == .lt

/-- The version that a text writes, surrounding blanks aside: one to three numbers with points
between them, of which the first two are at most 255 and the third at most 65535. -/
def ofText? (t : Text) : Option RubyVersion :=
  match Text.pieces (· == '.') (Text.trim t) with
  | [major] => do return ⟨← Text.number? 255 major, 0⟩
  | [major, minor] => do return ⟨← Text.number? 255 major, ← Text.number? 255 minor⟩
  | [major, minor, patch] => do
    let version : RubyVersion := ⟨← Text.number? 255 major, ← Text.number? 255 minor⟩
    let _ ← Text.number? 65535 patch
    return version
  | _ => none

/-- A version as it is written: both numbers, with a point between them. -/
def text (v : RubyVersion) : Text := Text.ofNat v.major ++ "." ++ Text.ofNat v.minor

end RubyVersion
end DocTypes
