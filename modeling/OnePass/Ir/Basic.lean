import OnePass.Failure
import OnePass.Symbol.Basic
import OnePass.Target
import OnePass.Text.Lowercase
set_option autoImplicit false

/-!
# Emitted code

The part of LLVM's assembly language that is emitted: global variables, and functions that
reserve storage for parameters and local variables.  Lines are kept as data; how pointers are
spelled is decided only when they are rendered.
-/

namespace OnePass.Ir

/-! ## Types -/

/-- The types of stored values. -/
inductive Ty where
  | i32
  | i8
  | float
  | pointer (elem : Ty)
  | array (length : Nat) (elem : Ty)
  deriving DecidableEq, Repr, Inhabited

/-- The text of a type. -/
def Ty.render (style : PointerStyle) : Ty → Bytes
  | .i32 => text "i32"
  | .i8 => text "i8"
  | .float => text "float"
  | .pointer elem =>
    match style with
    | .typed => elem.render style ++ text "*"
    | .untyped => text "ptr"
  | .array length elem =>
    text "[" ++ Bytes.ofNat length ++ text " x " ++ elem.render style ++ text "]"

/-- The type that holds a scalar. -/
def Ty.ofScalar : Scalar → Ty
  | .integer | .bool => .i32
  | .float => .float
  | .char => .i8
  | .string => .pointer .i8

/-- The alignment of a scalar in bytes. -/
def scalarAlign : Scalar → Nat
  | .char => 1
  | .string => 8
  | .integer | .float | .bool => 4

/-- The alignment of an array of scalars in bytes. -/
def arrayAlign : Scalar → Nat
  | .char => 1
  | .integer | .float | .bool | .string => 16

/-- The value that a global variable starts with. -/
inductive Zero where
  | number
  | float
  | null
  | aggregate
  deriving DecidableEq, Repr, Inhabited

/-- The text of a first value. -/
def Zero.render : Zero → Bytes
  | .number => text "0"
  | .float => text "0.000000e+00"
  | .null => text "null"
  | .aggregate => text "zeroinitializer"

/-- The value that a scalar starts with. -/
def Zero.ofScalar : Scalar → Zero
  | .float => .float
  | .string => .null
  | .integer | .bool | .char => .number

/-! ## Lines -/

/-- A name inside a function: one of the program's, or a numbered slot. -/
inductive Local where
  | named (name : Bytes)
  | slot (number : Nat)
  deriving DecidableEq, Repr, Inhabited

/-- The text of a name inside a function. -/
def Local.render : Local → Bytes
  | .named name => text "%" ++ name
  | .slot number => text "%" ++ Bytes.ofNat number

/-- A parameter in a function's header. -/
structure Formal where
  ty : Ty
  align : Nat
  name : Bytes
  deriving DecidableEq, Repr, Inhabited

/-- A line of emitted code. -/
inductive Line where
  /-- nothing -/
  | blank
  /-- a global variable -/
  | global (name : Bytes) (ty : Ty) (zero : Zero) (align : Nat)
  /-- the header of a procedure -/
  | procedure (name : Bytes) (formals : List Formal)
  /-- the header of the program -/
  | main
  /-- storage for a local variable or a parameter -/
  | alloca (name : Local) (ty : Ty) (align : Nat)
  /-- a parameter stored in its slot -/
  | store (ty : Ty) (value : Local) (slot : Local)
  /-- the end of a procedure's work -/
  | returnVoid
  /-- the end of the program's work -/
  | returnZero
  /-- the end of a function -/
  | close
  /-- a line that is given as text -/
  | verbatim (content : Bytes)
  deriving DecidableEq, Repr, Inhabited

/-- The text of a parameter in a header. -/
def Formal.render (style : PointerStyle) (f : Formal) : Bytes :=
  f.ty.render style ++ text " " ++ (Local.named f.name).render

/-- The text of a line. -/
def Line.render (style : PointerStyle) : Line → Bytes
  | .blank => []
  | .global name ty zero align =>
    text "@" ++ name ++ text " = common global " ++ ty.render style ++ text " " ++ zero.render
      ++ text ", align " ++ Bytes.ofNat align
  | .procedure name formals =>
    text "define void @" ++ name ++ text "("
      ++ Bytes.join (text ", ") (formals.map (Formal.render style)) ++ text ") \x7b"
  | .main => text "define i32 @main() \x7b"
  | .alloca name ty align =>
    name.render ++ text " = alloca " ++ ty.render style ++ text ", align " ++ Bytes.ofNat align
  | .store ty value slot =>
    text "store " ++ ty.render style ++ text " " ++ value.render ++ text ", "
      ++ (Ty.pointer ty).render style ++ text " " ++ slot.render
  | .returnVoid => text "ret void"
  | .returnZero => text "ret i32 0"
  | .close => text "\x7d"
  | .verbatim content => content

/-- The text of a file of lines. -/
def fileText (lines : List Bytes) : Bytes := Bytes.join (text "\n") lines ++ text "\n"

/-! ## What symbols become -/

/-- Why something cannot be emitted. -/
inductive Error where
  /-- a variable of a kind that has no type -/
  | noType (kind : Kind)
  /-- a parameter of a kind that has no type -/
  | noParameterType (kind : Kind)
  /-- bounds that give an array no size -/
  | invalidBounds (bounds : Bounds)
  /-- a procedure is closed while none is open -/
  | unbalanced
  /-- the code is finished while procedures are open -/
  | openUnits (count : Nat)
  deriving DecidableEq, Repr, Inhabited

/-- The description of an error. -/
def Error.failure : Error → Failure
  | .noType kind => .noIrType kind.name
  | .noParameterType kind => .noIrType (text "parameter of kind " ++ kind.name)
  | .invalidBounds bounds => .invalidBounds bounds.lower bounds.upper
  | .unbalanced => .unbalancedUnits
  | .openUnits count => .openUnits count

/-- The type, the alignment and the first value of a variable. -/
structure Storage where
  ty : Ty
  align : Nat
  zero : Zero
  deriving DecidableEq, Repr, Inhabited

/-- The storage of an array; its length must not be negative. -/
def Storage.ofArray (s : Scalar) (bounds : Bounds) : Except Error Storage :=
  match bounds.length with
  | .error _ => .error (.invalidBounds bounds)
  | .ok n =>
    if n < 0 then .error (.invalidBounds bounds)
    else .ok ⟨.array n.toNat (.ofScalar s), arrayAlign s, .aggregate⟩

/-- The storage of a variable. -/
def Storage.ofSymbol (sym : Symbol) : Except Error Storage :=
  match sym.kind with
  | .scalar s =>
    match sym.bounds with
    | none => .ok ⟨.ofScalar s, scalarAlign s, .ofScalar s⟩
    | some bounds => Storage.ofArray s bounds
  | kind => .error (.noType kind)

/-- The line that declares a variable: global variables stand outside of functions. -/
def declaration (name : Bytes) (sym : Symbol) : Except Error Line := do
  let storage ← Storage.ofSymbol sym
  if sym.global then return .global name storage.ty storage.zero storage.align
  else return .alloca (.named name) storage.ty storage.align

/-- A parameter in the header.  Arrays, and parameters that the procedure writes to, are passed
by their address. -/
def Formal.ofParameter (p : Parameter) : Except Error Formal :=
  match p.kind with
  | .scalar s =>
    if p.direction.any Direction.byReference || p.bounds.isSome then
      .ok ⟨.pointer (.ofScalar s), 8, p.name.lower⟩
    else .ok ⟨.ofScalar s, scalarAlign s, p.name.lower⟩
  | kind => .error (.noParameterType kind)

end OnePass.Ir
