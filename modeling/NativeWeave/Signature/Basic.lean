import NativeWeave.QualifiedName

namespace NativeWeave

/-!
# Type signatures

A signature says which type a declaration or a reference means.  Classes, structs, enums and
interfaces are meant by name, so a signature can reach into another module.
-/

/-- A type that the machine knows without a declaration. -/
inductive Primitive
  | void | bool | char
  | i8 | u8 | i16 | u16 | i32 | u32 | i64 | u64
  | f32 | f64
  | string
  /-- An integer as wide as a pointer. -/
  | intPtr
  | object
deriving DecidableEq, Repr

namespace Primitive

/-- The tag byte of a primitive. -/
def tag : Primitive → UInt8
  | void => 0 | bool => 1 | char => 2
  | i8 => 3 | u8 => 4 | i16 => 5 | u16 => 6 | i32 => 7 | u32 => 8 | i64 => 9 | u64 => 10
  | f32 => 11 | f64 => 12 | string => 13 | intPtr => 14 | object => 15

/-- The primitive with the given tag byte. -/
def ofTag? : UInt8 → Option Primitive
  | 0 => some void | 1 => some bool | 2 => some char
  | 3 => some i8 | 4 => some u8 | 5 => some i16 | 6 => some u16 | 7 => some i32 | 8 => some u32
  | 9 => some i64 | 10 => some u64
  | 11 => some f32 | 12 => some f64 | 13 => some string | 14 => some intPtr | 15 => some object
  | _ => none

@[simp] theorem ofTag?_tag (primitive : Primitive) : ofTag? primitive.tag = some primitive := by
  cases primitive <;> rfl

/-- How listings and messages spell a primitive. -/
def text : Primitive → String
  | void => "void" | bool => "bool" | char => "char"
  | i8 => "sbyte" | u8 => "byte" | i16 => "short" | u16 => "ushort"
  | i32 => "int" | u32 => "uint" | i64 => "long" | u64 => "ulong"
  | f32 => "float" | f64 => "double" | string => "string" | intPtr => "nint" | object => "object"

end Primitive

/-- A type as a declaration or a reference means it. -/
inductive Signature
  | primitive (kind : Primitive)
  /-- A declared type, by its name. -/
  | named (name : QualifiedName)
  /-- A generic type applied to arguments. -/
  | generic (base : QualifiedName) (arguments : List Signature)
  | array (element : Signature)
  /-- A reference to a storage place of the type, as reference and output parameters have it. -/
  | byRef (target : Signature)
deriving Repr

namespace Signature

@[match_pattern] abbrev void : Signature := .primitive .void
@[match_pattern] abbrev bool : Signature := .primitive .bool
@[match_pattern] abbrev i32 : Signature := .primitive .i32
@[match_pattern] abbrev string : Signature := .primitive .string
@[match_pattern] abbrev intPtr : Signature := .primitive .intPtr

instance : Inhabited Signature := ⟨.void⟩

mutual

/-- Equality of signatures is decidable. -/
def decEq : (s t : Signature) → Decidable (s = t)
  | .primitive a, .primitive b =>
    if h : a = b then isTrue (h ▸ rfl) else isFalse fun e => h (Signature.primitive.inj e)
  | .named a, .named b =>
    if h : a = b then isTrue (h ▸ rfl) else isFalse fun e => h (Signature.named.inj e)
  | .generic a as, .generic b bs =>
    if h : a = b then
      match decEqAll as bs with
      | isTrue hs => isTrue (h ▸ hs ▸ rfl)
      | isFalse hs => isFalse fun e => hs (Signature.generic.inj e).2
    else isFalse fun e => h (Signature.generic.inj e).1
  | .array a, .array b =>
    match decEq a b with
    | isTrue h => isTrue (h ▸ rfl)
    | isFalse h => isFalse fun e => h (Signature.array.inj e)
  | .byRef a, .byRef b =>
    match decEq a b with
    | isTrue h => isTrue (h ▸ rfl)
    | isFalse h => isFalse fun e => h (Signature.byRef.inj e)
  | .primitive _, .named _ | .primitive _, .generic _ _ | .primitive _, .array _
  | .primitive _, .byRef _ | .named _, .primitive _ | .named _, .generic _ _ | .named _, .array _
  | .named _, .byRef _ | .generic _ _, .primitive _ | .generic _ _, .named _
  | .generic _ _, .array _ | .generic _ _, .byRef _ | .array _, .primitive _ | .array _, .named _
  | .array _, .generic _ _ | .array _, .byRef _ | .byRef _, .primitive _ | .byRef _, .named _
  | .byRef _, .generic _ _ | .byRef _, .array _ => isFalse nofun

/-- Equality of sequences of signatures is decidable. -/
def decEqAll : (ss ts : List Signature) → Decidable (ss = ts)
  | [], [] => isTrue rfl
  | [], _ :: _ | _ :: _, [] => isFalse nofun
  | s :: ss, t :: ts =>
    match decEq s t, decEqAll ss ts with
    | isTrue h, isTrue hs => isTrue (h ▸ hs ▸ rfl)
    | isFalse h, _ => isFalse fun e => h (List.cons.inj e).1
    | _, isFalse hs => isFalse fun e => hs (List.cons.inj e).2

end

instance : DecidableEq Signature := decEq

/-- The type without one level of reference. -/
def stripByRef : Signature → Signature
  | .byRef target => target
  | other => other

def isByRef : Signature → Bool
  | .byRef _ => true
  | _ => false

def isVoid (signature : Signature) : Bool :=
  signature = .void

/-- The declared type that is meant, for named and generic signatures. -/
def typeName? : Signature → Option QualifiedName
  | .named name => some name
  | .generic base _ => some base
  | _ => none

mutual

/-- How listings and messages spell a signature. -/
def text : Signature → String
  | .primitive kind => kind.text
  | .named name => name.full
  | .generic base arguments => base.full ++ "<" ++ ", ".intercalate (texts arguments) ++ ">"
  | .array element => element.text ++ "[]"
  | .byRef target => "ref " ++ target.text

/-- The spellings of several signatures. -/
def texts : List Signature → List String
  | [] => []
  | signature :: more => signature.text :: texts more

end

end Signature

end NativeWeave
