import OnePass.Token.Lexeme
set_option autoImplicit false

/-!
# Token streams

`TokenStream.ofSource` reads a whole source.  The stream keeps the token that marks the end apart
from the tokens before it, since that one never runs out: reading on after the end gives the same
token again.
-/

namespace OnePass

/-- A line and a column, counted from one; columns count bytes. -/
structure Place where
  line : Nat
  column : Nat
  deriving DecidableEq, Repr, Inhabited

namespace Place

/-- The place of a text's first byte. -/
def start : Place := ⟨1, 1⟩

/-- The place behind one byte. -/
def step (p : Place) (b : UInt8) : Place :=
  if b = Ascii.newline then ⟨p.line + 1, 1⟩ else ⟨p.line, p.column + 1⟩

/-- The place behind a text. -/
def advance (p : Place) (s : Bytes) : Place := s.foldl step p

@[simp]
theorem advance_append (p : Place) (s t : Bytes) :
    p.advance (s ++ t) = (p.advance s).advance t := by
  simp [advance]

end Place

/-- The tokens of a source, with the end apart. -/
structure TokenStream where
  tokens : List Token
  eof : Token
  deriving DecidableEq, Repr, Inhabited

namespace TokenStream

/-- The tokens of a text that starts at a place. -/
def scan (place : Place) (s : Bytes) : TokenStream :=
  let here := place.advance (Gap.split s).1
  match (Gap.split s).2, Gap.length_split_le s with
  | [], _ => ⟨[], ⟨.eof, [], here.line, here.column⟩⟩
  | a :: rest, hle =>
    have : (Lexeme.read a rest).2.length < s.length :=
      Nat.lt_of_le_of_lt (Lexeme.length_read_le a rest) hle
    let lexeme := (Lexeme.read a rest).1
    let stream := scan (here.advance lexeme.raw) (Lexeme.read a rest).2
    ⟨⟨lexeme.kind, lexeme.literal, here.line, here.column⟩ :: stream.tokens, stream.eof⟩
termination_by s.length

/-- The tokens of a source. -/
def ofSource (s : Bytes) : TokenStream := scan .start s

/-- All tokens up to and including the end. -/
def toList (stream : TokenStream) : List Token := stream.tokens ++ [stream.eof]

/-- The tokens of a source, one to a line. -/
def listing (s : Bytes) : Bytes := Bytes.unlines ((ofSource s).toList.map Token.listing)

end TokenStream

end OnePass
