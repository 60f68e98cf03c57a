/-!
# Types

The types of the intermediate representation, their equality and their text.
-/

namespace SlotIR

/-- A type of the intermediate representation. -/
inductive Ty where
  | void
  /-- The result of a comparison; no source type names it. -/
  | bool
  /-- Eight bits, unsigned. -/
  | char
  /-- Thirty-two bits, signed. -/
  | int
  /-- Single precision. -/
  | float
  /-- The address of storage for a value of the inner type. -/
  | ptr (pointee : Ty)
  | fn (params : List Ty) (ret : Ty)
deriving Repr, Inhabited

namespace Ty

mutual

/-- Decides whether two types are equal. -/
def decEq : (a b : Ty) → Decidable (a = b)
  | void, void => isTrue rfl
  | bool, bool => isTrue rfl
  | char, char => isTrue rfl
  | int, int => isTrue rfl
  | float, float => isTrue rfl
  | ptr a, ptr b =>
    match decEq a b with
    | isTrue h => isTrue (h ▸ rfl)
    | isFalse h => isFalse fun e => h (Ty.ptr.inj e)
  | fn ps r, fn qs s =>
    match decEqAll ps qs, decEq r s with
    | isTrue hp, isTrue hr => isTrue (hp ▸ hr ▸ rfl)
    | isFalse hp, _ => isFalse fun e => hp (Ty.fn.inj e).1
    | _, isFalse hr => isFalse fun e => hr (Ty.fn.inj e).2
  | void, bool | void, char | void, int | void, float | void, ptr _ | void, fn .. => isFalse nofun
  | bool, void | bool, char | bool, int | bool, float | bool, ptr _ | bool, fn .. => isFalse nofun
  | char, void | char, bool | char, int | char, float | char, ptr _ | char, fn .. => isFalse nofun
  | int, void | int, bool | int, char | int, float | int, ptr _ | int, fn .. => isFalse nofun
  | float, void | float, bool | float, char | float, int | float, ptr _ | float, fn .. =>
    isFalse nofun
  | ptr _, void | ptr _, bool | ptr _, char | ptr _, int | ptr _, float | ptr _, fn .. =>
    isFalse nofun
  | fn .., void | fn .., bool | fn .., char | fn .., int | fn .., float | fn .., ptr _ =>
    isFalse nofun

/-- Decides whether two lists of types are equal. -/
def decEqAll : (as bs : List Ty) → Decidable (as = bs)
  | [], [] => isTrue rfl
  | a :: as, b :: bs =>
    match decEq a b, decEqAll as bs with
    | isTrue h, isTrue hs => isTrue (h ▸ hs ▸ rfl)
    | isFalse h, _ => isFalse fun e => h (List.cons.inj e).1
    | _, isFalse hs => isFalse fun e => hs (List.cons.inj e).2
  | [], _ :: _ => isFalse nofun
  | _ :: _, [] => isFalse nofun

end

instance : DecidableEq Ty := decEq

/-- Whether a type is one of those that variables can have. -/
def isArithmetic : Ty → Bool
  | char | int | float => true
  | _ => false

def isFloat : Ty → Bool
  | float => true
  | _ => false

/-- Whether a type is the type of an address. -/
def isAddress : Ty → Bool
  | ptr _ => true
  | _ => false

/-- The type of what is stored at an address. -/
def pointee? : Ty → Option Ty
  | ptr t => some t
  | _ => none

/-- The width in bits of an integer type. -/
def intWidth? : Ty → Option Nat
  | bool => some 1
  | char => some 8
  | int => some 32
  | _ => none

mutual

/-- The text of a type. Every address is written `ptr`, whatever it points to. -/
def text : Ty → String
  | void => "void"
  | bool => "i1"
  | char => "i8"
  | int => "i32"
  | float => "float"
  | ptr _ => "ptr"
  | fn params ret => ret.text ++ " (" ++ ", ".intercalate (texts params) ++ ")"

/-- The texts of a list of types. -/
def texts : List Ty → List String
  | [] => []
  | t :: ts => t.text :: texts ts

end

end Ty

/-- The parameter types and the return type of a function. -/
structure Signature where
  params : List Ty
  ret : Ty
deriving DecidableEq, Repr, Inhabited

namespace Signature

/-- The type of the functions with a signature. -/
def ty (s : Signature) : Ty := .fn s.params s.ret

/-- The text of a signature. -/
def text (s : Signature) : String := s.ty.text

end Signature

end SlotIR
