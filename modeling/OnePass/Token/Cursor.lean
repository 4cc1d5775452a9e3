import OnePass.Token.Stream
set_option autoImplicit false

/-!
# A place in a token stream

A cursor stands on a token and sees the one behind it.  At the end of the stream both are the
token that marks the end, and stepping on stays there.
-/

namespace OnePass

/-- A place in a token stream. -/
structure Cursor where
  /-- the tokens that were stepped over, latest first -/
  passed : List Token
  /-- the tokens from the current one on, the end left out -/
  ahead : List Token
  /-- the end -/
  eof : Token
  deriving DecidableEq, Repr, Inhabited

namespace Cursor

/-- The beginning of a stream. -/
def ofStream (stream : TokenStream) : Cursor := ⟨[], stream.tokens, stream.eof⟩

/-- The token that the cursor stands on. -/
def current (c : Cursor) : Token := c.ahead.headD c.eof

/-- The token behind the current one. -/
def peek (c : Cursor) : Token := c.ahead.tail.headD c.eof

/-- Steps over the current token. -/
def next (c : Cursor) : Cursor := { c with passed := c.current :: c.passed, ahead := c.ahead.tail }

/-- Steps over a number of tokens that are ahead. -/
def skip (c : Cursor) (n : Nat) : Cursor :=
  { c with passed := (c.ahead.take n).reverse ++ c.passed, ahead := c.ahead.drop n }

/-- How many tokens there are up to the end. -/
def remaining (c : Cursor) : Nat := c.ahead.length

@[simp] theorem ahead_next (c : Cursor) : c.next.ahead = c.ahead.tail := rfl

@[simp] theorem ahead_skip (c : Cursor) (n : Nat) : (c.skip n).ahead = c.ahead.drop n := rfl

@[simp] theorem eof_skip (c : Cursor) (n : Nat) : (c.skip n).eof = c.eof := rfl

theorem current_of_ahead {c : Cursor} {t : Token} {rest : List Token}
    (h : c.ahead = t :: rest) : c.current = t := by
  simp [current, h]

theorem peek_of_ahead {c : Cursor} {t u : Token} {rest : List Token}
    (h : c.ahead = t :: u :: rest) : c.peek = u := by
  simp [peek, h]

theorem next_eq_skip {c : Cursor} {t : Token} {rest : List Token} (h : c.ahead = t :: rest) :
    c.next = c.skip 1 := by
  simp [next, skip, current_of_ahead h, h]

theorem skip_zero (c : Cursor) : c.skip 0 = c := by
  simp [skip]

theorem skip_skip (c : Cursor) (m n : Nat) : (c.skip m).skip n = c.skip (m + n) := by
  simp only [skip, List.drop_drop, List.take_add, List.reverse_append, List.append_assoc]

theorem remaining_next (c : Cursor) : c.next.remaining = c.remaining - 1 := by
  simp [next, remaining]

theorem remaining_skip (c : Cursor) (n : Nat) : (c.skip n).remaining = c.remaining - n := by
  simp [skip, remaining]

end Cursor

end OnePass
