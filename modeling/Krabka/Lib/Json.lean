import Mathlib
import Krabka.Lib.FixedWidth

/-!
# `Lib.Json` — parsed JSON values

A document after parsing: a number is an integer of 64 bits or, written with a fraction or an exponent, a
fraction, and an object keeps its members in the order of their keys. Numbers are exact.
-/

namespace Json

open FixedWidth

inductive Number where
  | posInt (n : UInt64)
  | negInt (n : Int64)
  | float (x : ℚ)
deriving DecidableEq, Repr

inductive Value where
  | null
  | bool (b : Bool)
  | number (n : Number)
  | string (s : List Char)
  | array (items : List Value)
  | object (members : List (List Char × Value))

def Number.asI64 : Number → Option Int64
  | .posInt n => i64OfInt n.toNat
  | .negInt n => some n
  | .float _ => none

def Number.asF64 : Number → ℚ
  | .posInt n => n.toNat
  | .negInt n => n.toInt
  | .float x => x

namespace Value

def lookup (key : List Char) : List (List Char × Value) → Option Value
  | [] => none
  | (k, v) :: rest => if k = key then some v else lookup key rest

/-- `value.get(key)`: nothing but an object has members. -/
def get (v : Value) (key : List Char) : Option Value :=
  match v with
  | .object members => lookup key members
  | _ => none

def asStr : Value → Option (List Char)
  | .string s => some s
  | _ => none

def asBool : Value → Option Bool
  | .bool b => some b
  | _ => none

def asI64 : Value → Option Int64
  | .number n => n.asI64
  | _ => none

def asF64 : Value → Option ℚ
  | .number n => some n.asF64
  | _ => none

/-- `map.insert(key, value)`, in the order of the keys. -/
def insert (key : List Char) (value : Value) : List (List Char × Value) → List (List Char × Value)
  | [] => [(key, value)]
  | (k, v) :: rest =>
      if k = key then (k, value) :: rest
      else if key < k then (key, value) :: (k, v) :: rest
      else (k, v) :: insert key value rest

end Value

end Json
