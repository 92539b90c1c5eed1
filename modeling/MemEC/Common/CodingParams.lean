import Mathlib.Tactic

/-!
# The parameters of the stripes

The number of stripe lists and the coding scheme with its parameters, as
`GlobalConfig::validate` lets them pass. The chunks of a stripe are counted in
32 bits.
-/

namespace MemEC.Common

inductive CodingScheme
  | undefined
  | raid0
  | raid1
  | raid5
  | rs
  | rdp
  | evenOdd
  | cauchy
deriving DecidableEq

/-- `CodingParams`, with the array `params` entry by entry. -/
structure CodingParams where
  scheme : CodingScheme
  param₀ : UInt32
  param₁ : UInt32
  param₂ : UInt32

namespace CodingParams

variable (params : CodingParams)

def getN : UInt32 :=
  match params.scheme with
  | .raid0 | .raid1 | .raid5 | .rdp | .evenOdd => params.param₀
  | _ => 0

def getK : UInt32 :=
  match params.scheme with
  | .raid5 => params.param₀ - 1
  | .rdp | .evenOdd => params.param₀ - 2
  | .rs | .cauchy => params.param₀
  | _ => 0

def getM : UInt32 :=
  match params.scheme with
  | .rs | .cauchy => params.param₁
  | _ => 0

def getW : UInt32 :=
  match params.scheme with
  | .rs | .cauchy => params.param₂
  | _ => 0

def getDataChunkCount : UInt32 :=
  match params.scheme with
  | .raid0 => params.getN
  | .raid1 => 1
  | .raid5 => params.getN - 1
  | .rs => params.getK
  | .rdp => params.getN - 2
  | .evenOdd => params.getN - 2
  | .cauchy => params.getK
  | .undefined => 0

def getParityChunkCount : UInt32 :=
  match params.scheme with
  | .raid0 => 0
  | .raid1 => params.getN - 1
  | .raid5 => 1
  | .rs => params.getM
  | .rdp => 2
  | .evenOdd => 2
  | .cauchy => params.getM
  | .undefined => 0

def getChunkCount : UInt32 := params.getDataChunkCount + params.getParityChunkCount

/-- The checks of `GlobalConfig::validate` for the scheme. -/
def validate : Bool :=
  match params.scheme with
  | .raid0 | .raid1 => 1 ≤ params.getN
  | .raid5 => 3 ≤ params.getN
  | .rs =>
    let (k, m, w) := (params.getK, params.getM, params.getW)
    1 ≤ k && 1 ≤ m && (w == 8 || w == 16 || w == 32) && !(w ≤ 16 && k + m > 1 <<< w)
  | .rdp | .evenOdd => 2 ≤ params.getN
  | .cauchy =>
    let (k, m, w) := (params.getK, params.getM, params.getW)
    1 ≤ k && 1 ≤ m && 1 ≤ w && w ≤ 32 && !(w < 30 && k + m > 1 <<< w)
  | .undefined => false

end CodingParams

/-- The stripes of a configuration that `GlobalConfig::validate` accepts. -/
structure StripeConfig where
  listCount : UInt32
  params : CodingParams
  one_le_listCount : 1 ≤ listCount
  valid : params.validate = true

end MemEC.Common
