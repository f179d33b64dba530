import Mathlib.Logic.Basic

/-!
# JSON values

The `serde_json::Value` the server reads ACL blocks from and stores fact values as.
A number is what `serde_json::Number` keeps: a non-negative integer of 64 bits, a
negative integer of 64 bits, or a float, which is only ever compared and is therefore
kept as its bit pattern. An object is its list of entries; `get` reads the first entry
of a key, so that a value with one entry per key behaves as the source's map does.

Floats are equal here when their bits are. `serde_json` compares them by `==`, to which
`0.0` and `-0.0` are equal, and a `jsonb` column hands a large whole float such as `1e16`
back as an integer, to which the float is not. What is proved of repeated values says
nothing of repetitions of these.
-/

set_option autoImplicit false

namespace Verity.Model

/-- `serde_json::Value`. -/
inductive Json where
  | null
  | bool (b : Bool)
  | posInt (n : UInt64)
  | negInt (n : Int)
  | float (bits : UInt64)
  | str (s : String)
  | arr (xs : List Json)
  | obj (kvs : List (String × Json))
deriving Repr

namespace Json

mutual

/-- Equality of JSON values is decided along the tree (`PartialEq for Value`). -/
def decEq : (a b : Json) → Decidable (a = b)
  | null, b =>
    match b with
    | null => isTrue rfl
    | bool _ | posInt _ | negInt _ | float _ | str _ | arr _ | obj _ => isFalse (by simp)
  | bool x, b =>
    match b with
    | bool y => decidable_of_iff (x = y) (by simp)
    | null | posInt _ | negInt _ | float _ | str _ | arr _ | obj _ => isFalse (by simp)
  | posInt x, b =>
    match b with
    | posInt y => decidable_of_iff (x = y) (by simp)
    | null | bool _ | negInt _ | float _ | str _ | arr _ | obj _ => isFalse (by simp)
  | negInt x, b =>
    match b with
    | negInt y => decidable_of_iff (x = y) (by simp)
    | null | bool _ | posInt _ | float _ | str _ | arr _ | obj _ => isFalse (by simp)
  | float x, b =>
    match b with
    | float y => decidable_of_iff (x = y) (by simp)
    | null | bool _ | posInt _ | negInt _ | str _ | arr _ | obj _ => isFalse (by simp)
  | str x, b =>
    match b with
    | str y => decidable_of_iff (x = y) (by simp)
    | null | bool _ | posInt _ | negInt _ | float _ | arr _ | obj _ => isFalse (by simp)
  | arr x, b =>
    match b with
    | arr y =>
      have := decEqList x y
      decidable_of_iff (x = y) (by simp)
    | null | bool _ | posInt _ | negInt _ | float _ | str _ | obj _ => isFalse (by simp)
  | obj x, b =>
    match b with
    | obj y =>
      have := decEqEntries x y
      decidable_of_iff (x = y) (by simp)
    | null | bool _ | posInt _ | negInt _ | float _ | str _ | arr _ => isFalse (by simp)

/-- Equality of the elements of an array. -/
def decEqList : (xs ys : List Json) → Decidable (xs = ys)
  | [], [] => isTrue rfl
  | [], _ :: _ => isFalse (by simp)
  | _ :: _, [] => isFalse (by simp)
  | x :: xs, y :: ys =>
    have := decEq x y
    have := decEqList xs ys
    decidable_of_iff (x = y ∧ xs = ys) (by simp)

/-- Equality of the entries of an object. -/
def decEqEntries : (xs ys : List (String × Json)) → Decidable (xs = ys)
  | [], [] => isTrue rfl
  | [], _ :: _ => isFalse (by simp)
  | _ :: _, [] => isFalse (by simp)
  | (k, x) :: xs, (l, y) :: ys =>
    have := decEq x y
    have := decEqEntries xs ys
    decidable_of_iff (k = l ∧ x = y ∧ xs = ys) (by simp [and_assoc])

end

instance : DecidableEq Json := decEq

/-- `Value::get` by key: the entry of an object, nothing of any other value. -/
def get (v : Json) (key : String) : Option Json :=
  match v with
  | obj kvs => (kvs.find? fun kv => kv.1 = key).map Prod.snd
  | _ => none

/-- `Value::as_object`. -/
def asObject : Json → Option Json
  | obj kvs => some (obj kvs)
  | _ => none

/-- `Value::as_array`. -/
def asArray : Json → Option (List Json)
  | arr xs => some xs
  | _ => none

/-- `Value::as_str`. -/
def asStr : Json → Option String
  | str s => some s
  | _ => none

/-- `Value::as_i64`: an integer that fits a signed 64-bit word; a float never does,
whatever its value. -/
def asI64 : Json → Option Int
  | posInt n => if n.toNat < 9223372036854775808 then some n.toNat else none
  | negInt n => some n
  | _ => none

end Json

end Verity.Model
