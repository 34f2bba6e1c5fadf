/-!
# Problems of YAML texts
-/

namespace Ambient
namespace Yaml

inductive Problem where
  | malformed
  | outOfRange
  | tooLarge
  | emptyNumber
  | unknownWord
  | noMoment
  | structuredMoment
  /-- A scalar is made of itself. -/
  | endless
deriving DecidableEq, Repr

end Yaml
end Ambient
