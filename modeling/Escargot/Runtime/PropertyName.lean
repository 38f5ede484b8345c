/-
# Property names of object structures

A property name holds a tagged pointer: an interned string, a string that was
never interned, or a symbol. Two interned strings are compared by pointer, all
other strings by content, and the hash follows the pointer or the content in the
same way. What the name stands for in the language is its key.
-/

import Escargot.Runtime.String

namespace Escargot.Runtime

inductive ObjectStructurePropertyName
  | atomic (string : Nat)
  | plain (string : Nat)
  | symbol (address : Nat)
  deriving DecidableEq

inductive PropertyKey
  | string (units : List UInt16)
  | symbol (address : Nat)
  deriving DecidableEq

namespace ObjectStructurePropertyName

def hasAtomicString : ObjectStructurePropertyName → Bool
  | atomic _ => true
  | _ => false

def isSymbol : ObjectStructurePropertyName → Bool
  | symbol _ => true
  | _ => false

variable (memory : Nat → EString)

def key : ObjectStructurePropertyName → PropertyKey
  | atomic string | plain string => .string (memory string).content
  | symbol address => .symbol address

/-- `operator==`. -/
def equals (a b : ObjectStructurePropertyName) : Bool :=
  match a, b with
  | atomic p, atomic q => p == q
  | symbol p, symbol q => p == q
  | symbol _, _ | _, symbol _ => false
  | atomic p, plain q | plain p, atomic q | plain p, plain q => (memory p).equals (memory q)

def hashValue : ObjectStructurePropertyName → Nat
  | atomic string => string
  | plain string => (memory string).hashValue.toNat
  | symbol address => address

/-- Decimal digits without a leading zero, as `isIndexString` of a string has
them. -/
def isIndexUnits : List UInt16 → Bool
  | [] => false
  | [c] => 0x30 ≤ c && c ≤ 0x39
  | c :: cs => 0x31 ≤ c && c ≤ 0x39 && cs.all fun c => 0x30 ≤ c && c ≤ 0x39

def isIndexString : ObjectStructurePropertyName → Bool
  | atomic string | plain string => isIndexUnits (memory string).content
  | symbol _ => false

variable {memory} {a b : ObjectStructurePropertyName}

theorem key_eq_of_equals (h : equals memory a b = true) :
    key memory a = key memory b := by
  cases a with
  | atomic p =>
    cases b with
    | atomic q => rw [beq_iff_eq.mp h]
    | plain q => exact congrArg PropertyKey.string ((EString.equals_iff _ _).mp h)
    | symbol q => cases h
  | plain p =>
    cases b with
    | atomic q => exact congrArg PropertyKey.string ((EString.equals_iff _ _).mp h)
    | plain q => exact congrArg PropertyKey.string ((EString.equals_iff _ _).mp h)
    | symbol q => cases h
  | symbol p =>
    cases b with
    | atomic q => cases h
    | plain q => cases h
    | symbol q => rw [beq_iff_eq.mp h]

theorem equals_self (a : ObjectStructurePropertyName) : equals memory a a = true := by
  cases a with
  | atomic p => exact beq_self_eq_true p
  | plain p => exact (EString.equals_iff _ _).mpr rfl
  | symbol p => exact beq_self_eq_true p

/-- Between interned strings the comparison is the one of the tagged pointers. -/
theorem equals_atomic (ha : a.hasAtomicString = true) (hb : b.hasAtomicString = true) :
    equals memory a b = (a == b) := by
  cases a <;> cases b <;> simp_all [hasAtomicString, equals]

theorem equals_symbol (ha : a.isSymbol = false) (hb : b.isSymbol = true) :
    equals memory a b = false := by
  cases a <;> cases b <;> simp_all [isSymbol, equals]

end ObjectStructurePropertyName

end Escargot.Runtime
