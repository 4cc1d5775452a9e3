import OnePass.Scalar
import OnePass.Position
import OnePass.Text.Quoted
import OnePass.Text.Lowercase
set_option autoImplicit false

/-!
# Tokens

The kinds of tokens, their names and numbers, and tokens with their place in the source.
-/

namespace OnePass

/-- The kinds of literals. -/
inductive Literal where
  | integer
  | float
  | string
  | char
  /-- the word `true` or `false` -/
  | truth (value : Bool)
  deriving DecidableEq, Repr, Inhabited

/-- The type of a literal's value. -/
def Literal.scalar : Literal → Scalar
  | .integer => .integer
  | .float => .float
  | .string => .string
  | .char => .char
  | .truth _ => .bool

/-- The binary operators; `minus` is the sign as well. -/
inductive Operator where
  | and
  | or
  | plus
  | minus
  | times
  | divide
  | less
  | lessEqual
  | greater
  | greaterEqual
  | equal
  | notEqual
  deriving DecidableEq, Repr, Inhabited

/-- The kinds of tokens. -/
inductive TokenKind where
  /-- the end of the source -/
  | eof
  /-- text that is no token of the language -/
  | error
  /-- a name -/
  | identifier
  | literal (l : Literal)
  | kwProgram
  | kwIs
  | kwBegin
  | kwEnd
  | kwGlobal
  | kwProcedure
  | direction (d : Direction)
  | typeMark (s : Scalar)
  | kwIf
  | kwThen
  | kwElse
  | kwFor
  | kwNot
  | kwReturn
  | builtin (b : Builtin)
  | op (o : Operator)
  | assign
  | comma
  | semicolon
  | colon
  | period
  | leftBracket
  | rightBracket
  | leftParen
  | rightParen
  deriving DecidableEq, Repr, Inhabited

namespace TokenKind

/-- The kinds that name a type. -/
def isTypeMark : TokenKind → Bool
  | .typeMark _ => true
  | _ => false

/-- The kinds that name a built-in procedure. -/
def isBuiltin : TokenKind → Bool
  | .builtin _ => true
  | _ => false

/-- The kinds of constants. -/
def isLiteral : TokenKind → Bool
  | .literal _ => true
  | _ => false

/-- The kinds that are written as a reserved word. -/
def isReserved : TokenKind → Bool
  | .kwProgram | .kwIs | .kwBegin | .kwEnd | .kwGlobal | .kwProcedure | .kwIf | .kwThen | .kwElse
  | .kwFor | .kwNot | .kwReturn | .direction _ | .typeMark _ | .builtin _
  | .literal (.truth _) => true
  | _ => false

/-- The name of a kind. -/
def name : TokenKind → Bytes
  | .eof => text "EOF"
  | .error => text "ERROR"
  | .identifier => text "IDENTITY"
  | .literal .integer => text "INTEGER"
  | .literal .float => text "FLOAT"
  | .literal .string => text "STRING"
  | .literal .char => text "CHAR"
  | .literal (.truth true) => text "TRUE"
  | .literal (.truth false) => text "FALSE"
  | .kwProgram => text "PROGRAM"
  | .kwIs => text "IS"
  | .kwBegin => text "BEGIN"
  | .kwEnd => text "END"
  | .kwGlobal => text "GLOBAL"
  | .kwProcedure => text "PROCEDURE"
  | .direction d => d.name
  | .typeMark s => s.name ++ text "_TYPE"
  | .kwIf => text "IF"
  | .kwThen => text "THEN"
  | .kwElse => text "ELSE"
  | .kwFor => text "FOR"
  | .kwNot => text "NOT"
  | .kwReturn => text "RETURN"
  | .builtin b => b.name
  | .op .and => text "AND"
  | .op .or => text "OR"
  | .op .plus => text "PLUS"
  | .op .minus => text "MINUS"
  | .op .times => text "MULTIPLY"
  | .op .divide => text "DIVIDE"
  | .op .less => text "LESS_THAN"
  | .op .lessEqual => text "LESS_THAN_EQ"
  | .op .greater => text "GREATER_THAN"
  | .op .greaterEqual => text "GREATER_THAN_EQ"
  | .op .equal => text "EQUIVALENT"
  | .op .notEqual => text "NOT_EQUIVALENT"
  | .assign => text "ASSIGN"
  | .comma => text "COMMA"
  | .semicolon => text "SEMICOLON"
  | .colon => text "COLON"
  | .period => text "PERIOD"
  | .leftBracket => text "LEFT_BRACKET"
  | .rightBracket => text "RIGHT_BRACKET"
  | .leftParen => text "LEFT_PARENTHESIS"
  | .rightParen => text "RIGHT_PARENTHESIS"

/-! ## Numbered kinds -/

/-- The kinds in the order of their numbers, from zero on. -/
def all : List TokenKind :=
  ([.eof, .error, .identifier, .literal .integer, .literal .float, .literal .string,
    .literal .char, .kwProgram, .kwIs, .kwBegin, .kwEnd, .kwGlobal, .kwProcedure,
    .direction .input, .direction .output, .direction .both, .typeMark .integer,
    .typeMark .float, .typeMark .bool, .typeMark .char, .typeMark .string, .kwIf, .kwThen,
    .kwElse, .kwFor, .literal (.truth true), .literal (.truth false), .kwNot, .kwReturn] :
      List TokenKind)
  ++ Builtin.all.map .builtin ++
  ([.op .and, .op .or, .op .plus, .op .minus, .op .times, .op .divide, .op .less, .op .lessEqual,
    .op .greater, .op .greaterEqual, .op .equal, .op .notEqual, .assign, .comma, .semicolon,
    .colon, .period, .leftBracket, .rightBracket, .leftParen, .rightParen] : List TokenKind)

/-- The kind with a number, if there is one. -/
def ofCode? (code : Int) : Option TokenKind :=
  if code < 0 then none else all[code.toNat]?

/-- The name of the kind with a number. -/
def nameOfCode (code : Int) : Bytes :=
  match ofCode? code with
  | some kind => kind.name
  | none => text "UNKNOWN(" ++ Bytes.ofInt code ++ text ")"

/-! ## Reserved words -/

/-- The kinds that reserved words stand for, with their spelling in small letters. -/
def reservedWords : List (Bytes × TokenKind) :=
  ([(text "program", .kwProgram), (text "is", .kwIs), (text "begin", .kwBegin),
    (text "end", .kwEnd), (text "global", .kwGlobal), (text "procedure", .kwProcedure),
    (text "in", .direction .input), (text "out", .direction .output),
    (text "inout", .direction .both), (text "integer", .typeMark .integer),
    (text "float", .typeMark .float), (text "bool", .typeMark .bool),
    (text "char", .typeMark .char), (text "string", .typeMark .string), (text "if", .kwIf),
    (text "then", .kwThen), (text "else", .kwElse), (text "for", .kwFor),
    (text "true", .literal (.truth true)), (text "false", .literal (.truth false)),
    (text "not", .kwNot), (text "return", .kwReturn)] : List (Bytes × TokenKind))
  ++ Builtin.all.map fun b => (b.word, .builtin b)

/-- The kind of a word: a reserved word in any case, or else a name. -/
def ofWord (word : Bytes) : TokenKind :=
  (reservedWords.lookup word.lower).getD .identifier

end TokenKind

/-- A token with its text and the place of its first byte.  Lines and columns count from one,
columns in bytes. -/
structure Token where
  kind : TokenKind
  literal : Bytes
  line : Nat
  column : Nat
  deriving DecidableEq, Repr, Inhabited

namespace Token

/-- The token's position in a file. -/
def position (t : Token) (file : Bytes) : Position := ⟨file, t.line, t.column⟩

/-- A token's fields on one line, for a kind given by its name. -/
def describe (kindName literal : Bytes) (line column : Int) : Bytes :=
  text "\x7bType: " ++ kindName ++ text ", Literal: " ++ quoted literal ++ text ", Line: "
    ++ Bytes.ofInt line ++ text ", Column: " ++ Bytes.ofInt column ++ text "\x7d"

/-- The line that lists a token: place, kind, and the text of any token but the last. -/
def listing (t : Token) : Bytes :=
  let place := Bytes.ofNat t.line ++ text ":" ++ Bytes.ofNat t.column ++ text " " ++ t.kind.name
  if t.kind = .eof then place else place ++ text " " ++ quoted t.literal

end Token

end OnePass
