import Treewalk.Store

/-!
# Equality of values

Values of different types are never equal. Arrays are compared by their elements, all other objects by
identity. A pair of arrays already met is not compared again, so that cyclic arrays of the same shape
are equal: two values are equal exactly if no difference can be reached from them.
-/

namespace Treewalk.Store

/-- What one look at two values tells. -/
inductive Verdict where
  | same
  | different
  /-- Two different arrays of one length: their elements decide. -/
  | elements (a b : ArrayId)
deriving DecidableEq, Repr

/-- `same` if `b`, else `different`. -/
def Verdict.ofBool (b : Bool) : Verdict := if b then .same else .different

/-- Compares two values without looking into arrays. -/
def glance (s : Store) : Value → Value → Verdict
  | .none, .none => .same
  | .unset, .unset => .same
  | .number x, .number y => .ofBool (x == y)
  | .string x, .string y => .ofBool (@decide (x = y) (ByteArray.instDecidableEq x y))
  | .bool x, .bool y => .ofBool (x == y)
  | .function x, .function y => .ofBool (x == y)
  | .classRef x, .classRef y => .ofBool (x == y)
  | .native x, .native y => .ofBool (x == y)
  | .object x, .object y => .ofBool (x == y)
  | .host x, .host y => .ofBool (x == y)
  | .hollow x, .hollow y => .ofBool (x == y)
  | .array x, .array y =>
    if x = y then .same
    else if (s.elements x).size = (s.elements y).size then .elements x y
    else .different
  | _, _ => .different

/-- The pairs of arrays met so far, and pairs of values still to compare. -/
structure Round where
  met : List (ArrayId × ArrayId)
  due : List (Value × Value)

/-- Compares pairs in order; the elements of arrays not met before are due in the next round. `none`
tells that a pair differs. -/
def glanceAll (s : Store) (r : Round) : List (Value × Value) → Option Round
  | [] => some r
  | (v, w) :: rest =>
    match s.glance v w with
    | .same => s.glanceAll r rest
    | .different => none
    | .elements a b =>
      if r.met.contains (a, b) then s.glanceAll r rest
      else
        s.glanceAll
          ⟨(a, b) :: r.met, (s.elements a).toList.zip (s.elements b).toList ++ r.due⟩ rest

/-- Compares until nothing is due. Every round but the last meets a new pair of arrays, so the fuel
never gives out. -/
def settle (s : Store) : (fuel : Nat) → List (ArrayId × ArrayId) → List (Value × Value) → Bool
  | 0, _, _ => true
  | _ + 1, _, [] => true
  | fuel + 1, met, due =>
    match s.glanceAll ⟨met, []⟩ due with
    | none => false
    | some r => s.settle fuel r.met r.due

/-- Are two values equal? -/
def equal (s : Store) (v w : Value) : Bool :=
  s.settle (s.arrays.size * s.arrays.size + 2) [] [(v, w)]

end Treewalk.Store
