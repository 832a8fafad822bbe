import Mathlib.Algebra.Group.Int.Defs
import Mathlib.Algebra.GroupWithZero.Nat
import Mathlib.Data.List.Basic

/-! `serde_json::Value`, and how serde reads and writes the fields of a struct in one. Objects
have their keys in order, as the `BTreeMap` behind them has. -/
namespace Malkuth.Json

/-- `serde_json::Number`; a float is its bits. -/
inductive Number where
  | posInt (n : UInt64)
  | negInt (n : Int64)
  | float (bits : UInt64)
  deriving DecidableEq, Repr

inductive Value where
  | null
  | bool (b : Bool)
  | number (n : Number)
  | string (s : String)
  | array (items : List Value)
  | object (fields : List (String × Value))

section DecidableEq

mutual

def Value.decEq : (v w : Value) → Decidable (v = w)
  | .null, w =>
    match w with
    | .null => isTrue rfl
    | .bool _ | .number _ | .string _ | .array _ | .object _ => isFalse (by simp)
  | .bool a, w =>
    match w with
    | .bool b => decidable_of_iff (a = b) (by simp)
    | .null | .number _ | .string _ | .array _ | .object _ => isFalse (by simp)
  | .number a, w =>
    match w with
    | .number b => decidable_of_iff (a = b) (by simp)
    | .null | .bool _ | .string _ | .array _ | .object _ => isFalse (by simp)
  | .string a, w =>
    match w with
    | .string b => decidable_of_iff (a = b) (by simp)
    | .null | .bool _ | .number _ | .array _ | .object _ => isFalse (by simp)
  | .array a, w =>
    match w with
    | .array b => @decidable_of_iff _ (a = b) (by simp) (Value.decEqItems a b)
    | .null | .bool _ | .number _ | .string _ | .object _ => isFalse (by simp)
  | .object a, w =>
    match w with
    | .object b => @decidable_of_iff _ (a = b) (by simp) (Value.decEqFields a b)
    | .null | .bool _ | .number _ | .string _ | .array _ => isFalse (by simp)

def Value.decEqItems : (v w : List Value) → Decidable (v = w)
  | [], [] => isTrue rfl
  | [], _ :: _ => isFalse (by simp)
  | _ :: _, [] => isFalse (by simp)
  | v :: vs, w :: ws =>
    match Value.decEq v w, Value.decEqItems vs ws with
    | isTrue first, isTrue rest => isTrue (by rw [first,rest])
    | isFalse first, _ => isFalse fun same => first (List.cons.inj same).1
    | _, isFalse rest => isFalse fun same => rest (List.cons.inj same).2

def Value.decEqFields : (v w : List (String × Value)) → Decidable (v = w)
  | [], [] => isTrue rfl
  | [], _ :: _ => isFalse (by simp)
  | _ :: _, [] => isFalse (by simp)
  | (key,v) :: vs, (key',w) :: ws =>
    match instDecidableEqString key key', Value.decEq v w, Value.decEqFields vs ws with
    | isTrue name, isTrue first, isTrue rest => isTrue (by rw [name,first,rest])
    | isFalse name, _, _ => isFalse fun same => name (Prod.mk.inj (List.cons.inj same).1).1
    | _, isFalse first, _ => isFalse fun same => first (Prod.mk.inj (List.cons.inj same).1).2
    | _, _, isFalse rest => isFalse fun same => rest (List.cons.inj same).2

end

instance : DecidableEq Value := Value.decEq

end DecidableEq

def field (fields : List (String × Value)) (key : String) : Option Value :=
  (fields.find? fun f => f.1 = key).map Prod.snd

/-- The fields of a struct: by name from an object, by position from an array, which must not
be longer than the struct. `none` is a field that is not there. -/
def structFields (names : List String) : Value → Option (List (Option Value))
  | .object fields => some (names.map (field fields))
  | .array items => if items.length ≤ names.length then some (names.mapIdx fun i _ => items[i]?) else none
  | _ => none

/-- `#[serde(skip_serializing_if = "Option::is_none")]`. -/
def skipNone (key : String) (value : Option Value) : List (String × Value) := (value.map fun v => (key,v)).toList

def asString : Value → Option String
  | .string s => some s
  | _ => none

def asI32 : Value → Option Int32
  | .number (.posInt n) => if n.toNat < 2^31 then some (Int32.ofNat n.toNat) else none
  | .number (.negInt n) => if -2^31 ≤ n.toInt ∧ n.toInt < 2^31 then some (Int32.ofInt n.toInt) else none
  | _ => none

def ofI32 (n : Int32) : Value :=
  if 0 ≤ n.toInt then .number (.posInt (UInt64.ofNat n.toInt.toNat)) else .number (.negInt (Int64.ofInt n.toInt))

/-- A field of type `Option<T>`: `null` is `None`, as if it were missing. -/
def asOption (read : Value → Option α) : Option Value → Option (Option α)
  | none => some none
  | some .null => some none
  | some v => (read v).map some

theorem asI32_ofI32 (n : Int32) : asI32 (ofI32 n) = some n := by
  have low := n.le_toInt
  have high := n.toInt_lt
  by_cases sign : 0 ≤ n.toInt
  · have same : (UInt64.ofNat n.toInt.toNat).toNat = n.toInt.toNat :=
      UInt64.toNat_ofNat_of_lt' (by simp only [UInt64.size]; omega)
    have bound : n.toInt.toNat < 2^31 := by omega
    have back : Int32.ofNat n.toInt.toNat = n := by
      rw [← Int32.ofInt_eq_ofNat,Int.toNat_of_nonneg sign,Int32.ofInt_toInt]
    simp only [ofI32,if_pos sign,asI32,same,if_pos bound,back]
  · have same : (Int64.ofInt n.toInt).toInt = n.toInt := Int64.toInt_ofInt_of_le (by omega) (by omega)
    simp only [ofI32,if_neg sign,asI32,same,if_pos (And.intro low high),Int32.ofInt_toInt]

end Malkuth.Json
