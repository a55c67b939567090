import SkyQuery.Feature.FeatureSet
import SkyQuery.Tree.Needs

/-!
# Unsupported features

Each use of a feature that a service does not support is a fault of a query.
-/

namespace SkyQuery.Check

/-- The complaint about one use of a feature. -/
def unsupported (f : Feature) (span : Option Span) : Diagnostic :=
  let category := (f.category.map Category.ivoid).getD ""
  { code := .unsupportedFeature
    message := "Unsupported ADQL feature: \"" ++ f.form ++ "\" (of type '" ++ category ++ "')!"
    span }

/-- Whether a feature may be used; `anyFunction` admits all functions, declared or not. -/
def admits (features : FeatureSet) (anyFunction : Bool) (f : Feature) : Bool :=
  (anyFunction && f.isFunction) || features.supports f

/-- The uses of features that may not be used, in the order of the text. -/
def features (tree : Fragment) (supported : FeatureSet) (anyFunction : Bool) : Report :=
  (tree.uses.filter fun use => !admits supported anyFunction use.1).map fun use =>
    unsupported use.1 use.2

end SkyQuery.Check
