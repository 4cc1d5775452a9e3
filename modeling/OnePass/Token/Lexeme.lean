import OnePass.Token.Basic
set_option autoImplicit false

/-!
# Lexemes and the gaps between them

A source is a sequence of lexemes, separated by gaps of blank space and comments.  `Gap.split`
takes the gap at the beginning of a text, `Lexeme.read` the lexeme at the beginning of a text
that has no gap there; both give back the rest, and neither loses a byte (`Gap.split_append`,
`Lexeme.read_append`).
-/

namespace OnePass

/-! ## Gaps -/

namespace Gap

/-- Where a reader of gaps stands. -/
inductive Mode where
  /-- outside comments -/
  | blank
  /-- in a comment that ends with its line -/
  | line
  /-- in a comment between marks, with `outer` more of them around it -/
  | block (outer : Nat)
  deriving DecidableEq, Repr, Inhabited

/-- What follows the end mark of a comment with `outer` more around it. -/
def Mode.close : Nat → Mode
  | 0 => .blank
  | outer + 1 => .block outer

/-- Puts a byte in front of the first of two texts. -/
def keep (b : UInt8) (parts : Bytes × Bytes) : Bytes × Bytes := (b :: parts.1, parts.2)

/-- Splits a text behind the gap that it starts with.  Comments between marks nest; one without
an end mark runs to the end of the text. -/
def splitFrom : Mode → Bytes → Bytes × Bytes
  | _, [] => ([], [])
  | .blank, b :: rest =>
    if Ascii.isBlank b then keep b (splitFrom .blank rest)
    else if b = Ascii.slash then
      match rest with
      | [] => ([], [b])
      | c :: more =>
        if c = Ascii.slash then keep b (keep c (splitFrom .line more))
        else if c = Ascii.star then keep b (keep c (splitFrom (.block 0) more))
        else ([], b :: c :: more)
    else ([], b :: rest)
  | .line, b :: rest => keep b (splitFrom (if b = Ascii.newline then .blank else .line) rest)
  | .block outer, b :: rest =>
    match rest with
    | [] => ([b], [])
    | c :: more =>
      if b = Ascii.slash ∧ c = Ascii.star then
        keep b (keep c (splitFrom (.block (outer + 1)) more))
      else if b = Ascii.star ∧ c = Ascii.slash then
        keep b (keep c (splitFrom (.close outer) more))
      else keep b (splitFrom (.block outer) (c :: more))

/-- Splits a text into the gap that it starts with and the rest. -/
def split (s : Bytes) : Bytes × Bytes := splitFrom .blank s

theorem splitFrom_append (mode : Mode) (s : Bytes) :
    (splitFrom mode s).1 ++ (splitFrom mode s).2 = s := by
  fun_induction splitFrom mode s <;> simp_all [keep]

/-- A gap and what follows it are the text. -/
theorem split_append (s : Bytes) : (split s).1 ++ (split s).2 = s := splitFrom_append .blank s

theorem length_split_le (s : Bytes) : (split s).2.length ≤ s.length := by
  have h := congrArg List.length (split_append s)
  simp only [List.length_append] at h
  omega

end Gap

/-! ## Lexemes -/

/-- A lexeme: its kind and its bytes as they stand in the source. -/
structure Lexeme where
  kind : TokenKind
  raw : Bytes
  deriving DecidableEq, Repr, Inhabited

namespace Lexeme

/-- The bytes of a word behind its first letter. -/
def isWordByte (b : UInt8) : Bool := Ascii.isLetter b || Ascii.isDigit b || b = Ascii.underscore

/-- The bytes of a number. -/
def isNumberByte (b : UInt8) : Bool := Ascii.isDigit b || b = Ascii.period

/-- The bytes that a quoted literal may hold between its delimiters; the delimiter itself ends
the literal. -/
def isContent (b : UInt8) : Bool :=
  Ascii.isLetter b || Ascii.isDigit b
    || [Ascii.underscore, Ascii.space, Ascii.semicolon, Ascii.colon, Ascii.period, Ascii.comma,
      Ascii.singleQuote, Ascii.doubleQuote].contains b

/-- The kind of a number by its decimal points; with more than one it is malformed. -/
def numberKind (raw : Bytes) : TokenKind :=
  match raw.count Ascii.period with
  | 0 => .literal .integer
  | 1 => .literal .float
  | _ => .error

/-- What follows an opening delimiter: the bytes up to and including the closing one, whether the
literal is well formed, and the rest.  A literal does not leave its line, and a byte that has no
place in it spoils it without ending it. -/
def quotedTail (delimiter : UInt8) : Bytes → Bytes × Bool × Bytes
  | [] => ([], false, [])
  | b :: rest =>
    if b = Ascii.newline then ([], false, b :: rest)
    else if b = delimiter then ([b], true, rest)
    else
      let (raw, wellFormed, after) := quotedTail delimiter rest
      (b :: raw, isContent b && wellFormed, after)

/-- A literal between delimiters. -/
def quoted (delimiter : UInt8) (kind : TokenKind) (rest : Bytes) : Lexeme × Bytes :=
  let (raw, wellFormed, after) := quotedTail delimiter rest
  (⟨if wellFormed then kind else .error, delimiter :: raw⟩, after)

/-- A mark of one byte that becomes another one when a certain byte follows. -/
structure Mark where
  single : TokenKind
  second : UInt8
  double : TokenKind
  deriving DecidableEq, Repr, Inhabited

/-- The marks that look at the byte behind them.  The end mark of a comment has no place outside
of one. -/
def marks : List (UInt8 × Mark) :=
  [(Ascii.colon, ⟨.colon, Ascii.equals, .assign⟩),
    (Ascii.bang, ⟨.error, Ascii.equals, .op .notEqual⟩),
    (Ascii.equals, ⟨.error, Ascii.equals, .op .equal⟩),
    (Ascii.less, ⟨.op .less, Ascii.equals, .op .lessEqual⟩),
    (Ascii.greater, ⟨.op .greater, Ascii.equals, .op .greaterEqual⟩),
    (Ascii.star, ⟨.op .times, Ascii.slash, .error⟩)]

/-- Reads a mark whose first byte is `a`. -/
def Mark.read (m : Mark) (a : UInt8) : Bytes → Lexeme × Bytes
  | [] => (⟨m.single, [a]⟩, [])
  | b :: rest =>
    if b = m.second then (⟨m.double, [a, b]⟩, rest) else (⟨m.single, [a]⟩, b :: rest)

/-- The bytes that are a token by themselves. -/
def singles : List (UInt8 × TokenKind) :=
  [(Ascii.plus, .op .plus), (Ascii.minus, .op .minus), (Ascii.slash, .op .divide),
    (Ascii.comma, .comma), (Ascii.ampersand, .op .and), (Ascii.bar, .op .or),
    (Ascii.semicolon, .semicolon), (Ascii.leftBracket, .leftBracket),
    (Ascii.rightBracket, .rightBracket), (Ascii.leftParen, .leftParen),
    (Ascii.rightParen, .rightParen), (Ascii.period, .period)]

/-- The lexeme at the beginning of a text that starts with `a` and with no gap, and the rest. -/
def read (a : UInt8) (rest : Bytes) : Lexeme × Bytes :=
  if Ascii.isLetter a then
    let raw := a :: rest.takeWhile isWordByte
    (⟨.ofWord raw, raw⟩, rest.dropWhile isWordByte)
  else if Ascii.isDigit a then
    let raw := a :: rest.takeWhile isNumberByte
    (⟨numberKind raw, raw⟩, rest.dropWhile isNumberByte)
  else if a = Ascii.singleQuote then quoted a (.literal .char) rest
  else if a = Ascii.doubleQuote then quoted a (.literal .string) rest
  else match marks.lookup a with
    | some mark => mark.read a rest
    | none => (⟨(singles.lookup a).getD .error, [a]⟩, rest)

/-- The text that a token carries: reserved words are in small letters, a single byte that is no
token is given as the code point of that number, and all else is as it stands. -/
def literal (l : Lexeme) : Bytes :=
  match l.kind, l.raw with
  | .error, [b] => Utf8.encode b.toNat
  | kind, raw => if kind.isReserved then raw.lower else raw

/-! ## Laws -/

theorem quotedTail_append (delimiter : UInt8) (s : Bytes) :
    (quotedTail delimiter s).1 ++ (quotedTail delimiter s).2.2 = s := by
  induction s with
  | nil => rfl
  | cons b rest ih =>
    unfold quotedTail
    split
    · rfl
    · split
      · rfl
      · simpa using ih

theorem quoted_append (delimiter : UInt8) (kind : TokenKind) (rest : Bytes) :
    (quoted delimiter kind rest).1.raw ++ (quoted delimiter kind rest).2 = delimiter :: rest := by
  have h := quotedTail_append delimiter rest
  simp only [quoted, List.cons_append, List.cons.injEq, true_and]
  exact h

theorem Mark.read_append (m : Mark) (a : UInt8) (rest : Bytes) :
    (m.read a rest).1.raw ++ (m.read a rest).2 = a :: rest := by
  cases rest with
  | nil => rfl
  | cons b rest =>
    simp only [Mark.read]
    split <;> rfl

theorem Mark.read_raw_ne_nil (m : Mark) (a : UInt8) (rest : Bytes) :
    (m.read a rest).1.raw ≠ [] := by
  cases rest with
  | nil => simp [Mark.read]
  | cons b rest =>
    simp only [Mark.read]
    split <;> simp

/-- The ways to read the lexemes that start with a byte, given what follows the byte. -/
inductive Reading (a : UInt8) : (Bytes → Lexeme × Bytes) → Prop where
  | word (letter : Ascii.isLetter a = true) :
      Reading a fun rest =>
        (⟨.ofWord (a :: rest.takeWhile isWordByte), a :: rest.takeWhile isWordByte⟩,
          rest.dropWhile isWordByte)
  | number (letter : Ascii.isLetter a = false) (digit : Ascii.isDigit a = true) :
      Reading a fun rest =>
        (⟨numberKind (a :: rest.takeWhile isNumberByte), a :: rest.takeWhile isNumberByte⟩,
          rest.dropWhile isNumberByte)
  | quoted (letter : Ascii.isLetter a = false) {l : Literal} (delimited : l = .char ∨ l = .string) :
      Reading a (quoted a (.literal l))
  | mark (letter : Ascii.isLetter a = false) {m : Mark} (listed : (a, m) ∈ marks) :
      Reading a (m.read a)
  | single (letter : Ascii.isLetter a = false) {kind : TokenKind}
      (listed : kind = .error ∨ (a, kind) ∈ singles) :
      Reading a fun rest => (⟨kind, [a]⟩, rest)

theorem mem_of_lookup_eq_some {α : Type} {table : List (UInt8 × α)} {a : UInt8} {x : α}
    (h : table.lookup a = some x) : (a, x) ∈ table := by
  obtain ⟨before, after, rfl, -⟩ := List.lookup_eq_some_iff.mp h
  exact List.mem_append_right before (List.mem_cons_self ..)

/-- A lexeme is read in one of these ways, and its first byte decides in which one. -/
theorem reading_read (a : UInt8) : Reading a (read a) := by
  change Reading a fun rest => read a rest
  unfold read
  by_cases hletter : Ascii.isLetter a = true
  · simp only [if_pos hletter]
    exact .word hletter
  simp only [if_neg hletter]
  rw [Bool.not_eq_true] at hletter
  by_cases hdigit : Ascii.isDigit a = true
  · simp only [if_pos hdigit]
    exact .number hletter hdigit
  simp only [if_neg hdigit]
  by_cases hsingle : a = Ascii.singleQuote
  · simp only [if_pos hsingle]
    exact .quoted hletter (.inl rfl)
  simp only [if_neg hsingle]
  by_cases hdouble : a = Ascii.doubleQuote
  · simp only [if_pos hdouble]
    exact .quoted hletter (.inr rfl)
  simp only [if_neg hdouble]
  cases hmark : marks.lookup a with
  | some m => exact .mark hletter (mem_of_lookup_eq_some hmark)
  | none =>
    cases hlisted : singles.lookup a with
    | none => exact .single hletter (.inl rfl)
    | some kind => exact .single hletter (.inr (mem_of_lookup_eq_some hlisted))

/-- A lexeme and what follows it are the text. -/
theorem read_append (a : UInt8) (rest : Bytes) :
    (read a rest).1.raw ++ (read a rest).2 = a :: rest := by
  have hread := reading_read a
  generalize read a = f at hread ⊢
  cases hread with
  | word => simp [List.takeWhile_append_dropWhile]
  | number => simp [List.takeWhile_append_dropWhile]
  | quoted => exact quoted_append _ _ _
  | mark => exact Mark.read_append _ _ _
  | single => rfl

theorem read_raw_ne_nil (a : UInt8) (rest : Bytes) : (read a rest).1.raw ≠ [] := by
  have hread := reading_read a
  generalize read a = f at hread ⊢
  cases hread with
  | word => simp
  | number => simp
  | quoted => simp [quoted]
  | mark => exact Mark.read_raw_ne_nil _ _ _
  | single => simp

/-- Reading a lexeme leaves less to read. -/
theorem length_read_le (a : UInt8) (rest : Bytes) : (read a rest).2.length ≤ rest.length := by
  have happ := congrArg List.length (read_append a rest)
  have hne := List.length_pos_iff.mpr (read_raw_ne_nil a rest)
  simp only [List.length_append, List.length_cons] at happ
  omega

end Lexeme

end OnePass
