import Statechart.Source.Lexeme

/-!
# Semicolons that are not written

A statement may end without a semicolon: at the end of the text, before a closing
brace, or at a line break after which the next token does not go on with the
statement. Whether it does is judged by the first characters of that token.

* `Ending`: what else may stand at the place;
* `endsAt`: whether a semicolon may be left out exactly here;
* `endsAhead`: whether it may be left out here or after one of the comments that
  follow;
* `trailingComments`: the comments that belong to a block because a semicolon could
  stand after them.
-/

namespace Statechart.Source

/-- What may stand where a statement may end. -/
structure Ending where
  /-- An operator may follow, so that brackets on the next line go on with the
      expression. -/
  operator : Bool
  /-- A body in braces may follow on the next line. -/
  body : Bool
  deriving DecidableEq, Repr

namespace Ending

/-- After an expression. -/
def ofExpression : Ending := { operator := true, body := false }

/-- After a type or a name. -/
def ofType : Ending := { operator := false, body := false }

/-- After the head of a function without a body. -/
def ofSignature : Ending := { operator := false, body := true }

end Ending

/-- The white space that a line break is looked for in. -/
def isPlainGap (c : Char) : Bool :=
  c == ' ' || (0x09 ≤ c.toNat && c.toNat ≤ 0x0D)

/-- Past white space and comments, at most `n` of them; nothing if a slash opens no
    comment. -/
def skipTrivia? : Nat → List Char → Option (List Char)
  | 0, cs => some cs
  | n + 1, cs =>
    match cs.dropWhile isPlainGap with
    | '/' :: '/' :: rest => skipTrivia? n (rest.dropWhile (· != '\n'))
    | '/' :: '*' :: rest =>
      skipTrivia? n (rest.drop ((throughClose? rest).getD rest).length)
    | '/' :: _ => none
    | rest => some rest

/-- The characters that no statement starts with. -/
def goesOn : List Char :=
  "`,.;*%><=?^|&/:".toList

/-- Whether a token at the start of a line starts a new statement. -/
def startsStatement (ending : Ending) : List Char → Bool
  | [] => true
  | c :: cs =>
    if goesOn.contains c then false
    else if c == '\x7b' then !ending.body
    else if c == '(' || c == '[' then !ending.operator
    else if c == '+' || c == '-' then cs.head? == some c
    else if c == '!' then cs.head? != some '='
    else if c == 'i' then
      let rest := (c :: cs).takeWhile Char.isAlpha
      rest != "in".toList && rest != "instanceof".toList
    else true

/-- Whether a semicolon may be left out exactly here. `n` bounds the comments after
    the line break. -/
def endsAt (ending : Ending) (n : Nat) (cs : List Char) : Bool :=
  match cs.dropWhile fun c => isPlainGap c && c != '\n' with
  | [] => true
  | '\x7d' :: rest => (rest.dropWhile isPlainGap).head? != some ':' || ending.operator
  | '\n' :: rest =>
    match skipTrivia? n rest with
    | some next => startsStatement ending next
    | none => false
  | _ => false

/-- Whether a semicolon may be left out here, or after one of the at most `n`
    comments that follow. -/
def endsAhead (ending : Ending) : Nat → List Char → Bool
  | 0, _ => false
  | n + 1, cs =>
    endsAt ending n cs ||
      (let rest := cs.dropWhile isGap
       let length := (comment rest).length
       length != 0 && endsAhead ending n (rest.drop length))

/-- The number of characters from here to the first place where a semicolon may be
    left out, if there are only comments before it; else none. -/
def trailingComments (ending : Ending) : Nat → List Char → Nat
  | 0, _ => 0
  | n + 1, cs =>
    if endsAt ending n cs then 0
    else
      let gap := (cs.takeWhile isGap).length
      let rest := cs.drop gap
      let length := (comment rest).length
      let after := rest.drop length
      if length != 0 && endsAhead ending n after then
        gap + length + trailingComments ending n after
      else 0

end Statechart.Source
