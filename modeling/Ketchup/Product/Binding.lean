/-
**Parameters of features and what binds them.**

A parameter is named by the feature and a path of segments, and may be bound to a value that a rule derives.
-/

import Ketchup.Product.FeatureKind

namespace Ketchup.Product

open Ketchup.Graph

/-- The segments of a path, which its text has points between. -/
structure ParameterPath where
  segments : List String
  deriving DecidableEq

inductive ParameterValueType
  | length
  | angle
  | scalar
  deriving DecidableEq

structure FeatureParameterTarget where
  featureId : FeatureId
  path : ParameterPath
  valueType : ParameterValueType
  deriving DecidableEq

structure FeatureParameterBinding where
  target : FeatureParameterTarget
  derivedFrom : DerivedIdentity
  deriving DecidableEq

inductive FeatureParameterRecomputeScope
  | all
  | affectedBy (nodes : BTreeSet NodeId)

end Ketchup.Product
