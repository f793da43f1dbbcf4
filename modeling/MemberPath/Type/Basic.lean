/-!
# Types

A type is native, defined by a program, or a list of another type. Equality of types is identity:
two defined types are the same only if they are the same definition, whatever their names say.
-/

namespace MemberPath

/-- The size of an integer type; `word` has the size of an address, 64 bits. -/
inductive Width
  | w8 | w16 | w32 | w64 | w128 | word
  deriving DecidableEq

namespace Width

def bits : Width → Nat
  | .w8 => 8
  | .w16 => 16
  | .w32 => 32
  | .w64 | .word => 64
  | .w128 => 128

def digits : Width → String
  | .w8 => "8"
  | .w16 => "16"
  | .w32 => "32"
  | .w64 => "64"
  | .w128 => "128"
  | .word => "size"

end Width

structure IntKind where
  signed : Bool
  width : Width
  deriving DecidableEq

namespace IntKind

/-- The integers of a type, from the least to the greatest. -/
def holds (k : IntKind) (n : Int) : Bool :=
  if k.signed then -Int.pow 2 (k.width.bits - 1) ≤ n && n < Int.pow 2 (k.width.bits - 1)
  else 0 ≤ n && n < Int.pow 2 k.width.bits

def u8 : IntKind := ⟨false, .w8⟩
def u16 : IntKind := ⟨false, .w16⟩
def u32 : IntKind := ⟨false, .w32⟩

end IntKind

inductive FloatKind
  | single
  | double
  deriving DecidableEq

inductive Ty
  | bool
  | char
  | int (kind : IntKind)
  | float (kind : FloatKind)
  | text
  | unit
  | defined (id : Nat)
  | list (elem : Ty)
  deriving DecidableEq

namespace Ty

/-- The word for a native type; other types have none. -/
def word? : Ty → Option String
  | .bool => some "bool"
  | .char => some "char"
  | .int k => some ((if k.signed then "i" else "u") ++ k.width.digits)
  | .float .single => some "f32"
  | .float .double => some "f64"
  | .text => some "String"
  | .unit => some "()"
  | .defined _ | .list _ => none

def u8 : Ty := .int .u8
def u16 : Ty := .int .u16
def u32 : Ty := .int .u32

def natives : List Ty :=
  [.bool, .char, .float .single, .float .double, .text, .unit] ++
    [true, false].flatMap fun signed =>
      [Width.w8, .w16, .w32, .w64, .w128, .word].map fun w => .int ⟨signed, w⟩

/-- The native type that a word stands for. -/
def ofWord? (w : String) : Option Ty :=
  natives.find? (·.word? = some w)

end Ty

end MemberPath
