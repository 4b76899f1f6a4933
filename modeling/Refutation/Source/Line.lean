import Refutation.Source.Phrase

/-!
Reading one line without its white space: a query is one literal, a sentence is literals separated by
bars. A literal is a name with arguments in parentheses, after `~` if it is negative; an argument is
a name, with or without arguments of its own.

The reader is an automaton over the characters. Its place says what the characters so far amount to,
so the first character that no line of the kind can have there is the one that it reports.
-/

namespace Refutation.Source

inductive Kind where
  | query
  | sentence
deriving DecidableEq

/-- A name with the arguments that were read for it so far. -/
structure Frame where
  name : String
  args : List Phrase

def Frame.push (frame : Frame) (arg : Phrase) : Frame := { frame with args := frame.args ++ [arg] }

/-- A place between the parentheses of a literal. -/
inductive ArgPlace where
  /-- Right after an opening parenthesis. -/
  | first
  /-- Right after a comma. -/
  | next
  /-- In the name of an argument. -/
  | inName (name : String)
  /-- Right after the closing parenthesis of an argument. -/
  | closed

/-- A place in a line. -/
inductive Place where
  /-- Where a literal begins. -/
  | start
  /-- Right after the sign of a negative literal. -/
  | signed
  /-- In the name of a predicate. -/
  | inPredicate (positive : Bool) (name : String)
  /-- Between parentheses: the innermost name and those around it. -/
  | inArgs (positive : Bool) (outer : List Frame) (frame : Frame) (inner : ArgPlace)
  /-- Right after a literal. -/
  | complete

/-- The literals that were read, and the place behind them. -/
structure Reading where
  literals : List LiteralPhrase
  place : Place

/-- What a line lacks where it cannot go on. -/
inductive Expected where
  | name
  | character (c : Char)
  | lineEnd
deriving DecidableEq

namespace Reading

def begin : Reading := ⟨[], .start⟩

/-- Closes the innermost parenthesis. -/
def close (r : Reading) (positive : Bool) : List Frame → Frame → Reading
  | [], frame => ⟨r.literals ++ [⟨positive, frame.name, frame.args⟩], .complete⟩
  | around :: outer, frame =>
      { r with place := .inArgs positive outer (around.push (.call frame.name frame.args)) .closed }

/-- Goes on behind a complete argument. -/
def afterArg (r : Reading) (positive : Bool) (outer : List Frame) (frame : Frame) (c : Char) :
    Except Expected Reading :=
  if c = ')' then .ok (r.close positive outer frame)
  else if c = ',' then .ok { r with place := .inArgs positive outer frame .next }
  else .error (.character ',')

def step (kind : Kind) (r : Reading) (c : Char) : Except Expected Reading :=
  match r.place with
  | .start =>
      if c = '~' then .ok { r with place := .signed }
      else if isNameStart c then .ok { r with place := .inPredicate true c.toString }
      else .error .name
  | .signed =>
      if isNameStart c then .ok { r with place := .inPredicate false c.toString }
      else .error .name
  | .inPredicate positive name =>
      if isNameChar c then .ok { r with place := .inPredicate positive (name.push c) }
      else if c = '(' then .ok { r with place := .inArgs positive [] ⟨name, []⟩ .first }
      else .error (.character '(')
  | .inArgs positive outer frame .first =>
      if c = ')' then .ok (r.close positive outer frame)
      else if isNameStart c then .ok { r with place := .inArgs positive outer frame (.inName c.toString) }
      else .error .name
  | .inArgs positive outer frame .next =>
      if isNameStart c then .ok { r with place := .inArgs positive outer frame (.inName c.toString) }
      else .error .name
  | .inArgs positive outer frame (.inName name) =>
      if isNameChar c then .ok { r with place := .inArgs positive outer frame (.inName (name.push c)) }
      else if c = '(' then .ok { r with place := .inArgs positive (frame :: outer) ⟨name, []⟩ .first }
      else r.afterArg positive outer (frame.push (.name name)) c
  | .inArgs positive outer frame .closed => r.afterArg positive outer frame c
  | .complete =>
      if c = '|' ∧ kind = .sentence then .ok { r with place := .start }
      else .error .lineEnd

/-- The literals of a line that ends here. -/
def finish (r : Reading) : Except Expected (List LiteralPhrase) :=
  match r.place with
  | .start => .error .name
  | .signed => .error .name
  | .inPredicate _ _ => .error (.character '(')
  | .inArgs _ _ _ .first => .error .name
  | .inArgs _ _ _ .next => .error .name
  | .inArgs _ _ _ (.inName _) => .error (.character ',')
  | .inArgs _ _ _ .closed => .error (.character ',')
  | .complete => .ok r.literals

end Reading

/-- Where a line cannot go on, what it lacks there, and what it has instead; nothing if it ends. -/
structure Mismatch where
  position : Nat
  expected : Expected
  found : Option Char

/-- Reads on from a place behind so many characters. -/
def readFrom (kind : Kind) : Reading → Nat → List Char → Except Mismatch (List LiteralPhrase)
  | r, position, [] =>
      match r.finish with
      | .ok literals => .ok literals
      | .error expected => .error ⟨position, expected, none⟩
  | r, position, c :: rest =>
      match r.step kind c with
      | .ok next => readFrom kind next (position + 1) rest
      | .error expected => .error ⟨position, expected, some c⟩

/-- Reads the characters of a line. -/
def readLine (kind : Kind) (line : List Char) : Except Mismatch (List LiteralPhrase) :=
  readFrom kind .begin 0 line

def Expected.message : Expected → String
  | .name => "expected a name"
  | .character c => s!"expected '{c}'"
  | .lineEnd => "unexpected character"

def Mismatch.message (m : Mismatch) : String :=
  let found := match m.found with
    | some c => s!"'{c}'"
    | none => "end of line"
  s!"{m.expected.message}, found {found}"

end Refutation.Source
