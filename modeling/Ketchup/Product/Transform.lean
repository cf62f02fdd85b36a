/-
**Placements.**

A transform is an affine map given by a matrix whose last row is `0 0 0 1`. Its coefficients may be of
any type with the operations of numbers: nothing about how parts are placed depends on their laws.
-/

import Mathlib.Data.Rat.Floor
import Mathlib.Tactic.Linarith

namespace Ketchup.Product

structure Vec3 (R : Type) where
  x : R
  y : R
  z : R
  deriving DecidableEq

/-- The rows of a matrix. -/
structure Mat3 (R : Type) where
  first : Vec3 R
  second : Vec3 R
  third : Vec3 R
  deriving DecidableEq

structure Transform (R : Type) where
  linear : Mat3 R
  translation : Vec3 R
  deriving DecidableEq

variable {R : Type}

section Operations

variable [Add R] [Mul R]

def Vec3.dot (left right : Vec3 R) : R := left.x * right.x + left.y * right.y + left.z * right.z

def Vec3.add (left right : Vec3 R) : Vec3 R := ⟨left.x + right.x, left.y + right.y, left.z + right.z⟩

def Mat3.transpose (matrix : Mat3 R) : Mat3 R where
  first := ⟨matrix.first.x, matrix.second.x, matrix.third.x⟩
  second := ⟨matrix.first.y, matrix.second.y, matrix.third.y⟩
  third := ⟨matrix.first.z, matrix.second.z, matrix.third.z⟩

def Mat3.mulVec (matrix : Mat3 R) (vector : Vec3 R) : Vec3 R :=
  ⟨matrix.first.dot vector, matrix.second.dot vector, matrix.third.dot vector⟩

def Mat3.mul (left right : Mat3 R) : Mat3 R :=
  let columns := right.transpose
  let row (row : Vec3 R) : Vec3 R := ⟨row.dot columns.first, row.dot columns.second, row.dot columns.third⟩
  ⟨row left.first, row left.second, row left.third⟩

def Transform.transformPoint (transform : Transform R) (point : Vec3 R) : Vec3 R :=
  (transform.linear.mulVec point).add transform.translation

/-- The local transform first. -/
def Transform.compose (transform local_ : Transform R) : Transform R where
  linear := transform.linear.mul local_.linear
  translation := transform.transformPoint local_.translation

end Operations

def Transform.identity [Zero R] [One R] : Transform R where
  linear := ⟨⟨1, 0, 0⟩, ⟨0, 1, 0⟩, ⟨0, 0, 1⟩⟩
  translation := ⟨0, 0, 0⟩

end Ketchup.Product
