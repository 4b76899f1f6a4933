import Refutation.Proofs.LineGrammar

/-!
Reading a line by recursive descent, one function for each part of the grammar: names, terms, arguments, literals and
lines. Each begins at some place in the line and ends further on, which is why the descent ends. The automaton reads the
same phrases, and where it cannot go on it reports the same position, what is expected there and what is found.
-/

namespace Refutation.Source

/-- A place in a line: how many characters are behind it, and those ahead. -/
structure Cursor where
  position : Nat
  ahead : List Char

namespace Cursor

/-- A place further on. -/
abbrev Further (cur : Cursor) : Type := {next : Cursor // next.ahead.length < cur.ahead.length}

def Further.trans {cur : Cursor} (mid : cur.Further) (last : mid.1.Further) : cur.Further :=
  ⟨last.1, Nat.lt_trans last.2 mid.2⟩

def peek (cur : Cursor) : Option Char := cur.ahead.head?

def mismatch (cur : Cursor) (expected : Expected) : Mismatch := ⟨cur.position, expected, cur.peek⟩

/-- Passes over a character if it is the next one. -/
def eat (c : Char) : (cur : Cursor) → Option cur.Further
  | ⟨_, []⟩ => none
  | ⟨position, d :: ahead⟩ => if d = c then some ⟨⟨position + 1, ahead⟩, Nat.lt_succ_self _⟩ else none

def expect (c : Char) (cur : Cursor) : Except Mismatch cur.Further :=
  match cur.eat c with
  | some next => .ok next
  | none => .error (cur.mismatch (.character c))

/-- Reads a name, which goes as far as it can. -/
def name : (cur : Cursor) → Except Mismatch (String × cur.Further)
  | ⟨position, []⟩ => .error (mismatch ⟨position, []⟩ .name)
  | ⟨position, c :: ahead⟩ =>
      if isNameStart c then
        let word := ahead.takeWhile isNameChar
        .ok (String.ofList (c :: word), ⟨⟨position + 1 + word.length, ahead.dropWhile isNameChar⟩,
          Nat.lt_succ_of_le (List.dropWhile_sublist isNameChar).length_le⟩)
      else .error (mismatch ⟨position, c :: ahead⟩ .name)

mutual

def term (cur : Cursor) : Except Mismatch (Phrase × cur.Further) := do
  let (name, next) ← cur.name
  if next.1.peek = some '(' then
    let (args, last) ← next.1.args
    return (.call name args, next.trans last)
  else return (.name name, next)
termination_by (cur.ahead.length, 0)
decreasing_by exact .left _ _ next.2

/-- Reads arguments with their parentheses. -/
def args (cur : Cursor) : Except Mismatch (List Phrase × cur.Further) := do
  let opened ← cur.expect '('
  match opened.1.eat ')' with
  | some closed => return ([], opened.trans closed)
  | none =>
      let (args, last) ← opened.1.argsFrom []
      return (args, opened.trans last)
termination_by (cur.ahead.length, 0)
decreasing_by exact .left _ _ opened.2

/-- Reads an argument behind others, and those that follow it. -/
def argsFrom (cur : Cursor) (before : List Phrase) : Except Mismatch (List Phrase × cur.Further) := do
  let (arg, next) ← cur.term
  match next.1.eat ')' with
  | some closed => return (before ++ [arg], next.trans closed)
  | none =>
      let behind ← next.1.expect ','
      let (args, last) ← behind.1.argsFrom (before ++ [arg])
      return (args, next.trans (behind.trans last))
termination_by (cur.ahead.length, 1)
decreasing_by
  · exact .right _ Nat.zero_lt_one
  · exact .left _ _ (Nat.lt_trans behind.2 next.2)

end

/-- Reads a literal behind its sign. -/
def unsigned (positive : Bool) (cur : Cursor) : Except Mismatch (LiteralPhrase × cur.Further) := do
  let (name, next) ← cur.name
  let (args, last) ← next.1.args
  return (⟨positive, name, args⟩, next.trans last)

def literal (cur : Cursor) : Except Mismatch (LiteralPhrase × cur.Further) :=
  match cur.eat '~' with
  | none => cur.unsigned true
  | some next => do
      let (literal, last) ← next.1.unsigned false
      return (literal, next.trans last)

def finish (cur : Cursor) : Except Mismatch Unit :=
  if cur.ahead = [] then .ok () else .error (cur.mismatch .lineEnd)

/-- Reads a literal behind others, and in a sentence those behind bars, up to the end of the line. -/
def literals (kind : Kind) (cur : Cursor) (before : List LiteralPhrase) : Except Mismatch (List LiteralPhrase) := do
  let (literal, last) ← cur.literal
  match kind with
  | .query =>
      last.1.finish
      return before ++ [literal]
  | .sentence =>
      match last.1.eat '|' with
      | some next => next.1.literals .sentence (before ++ [literal])
      | none =>
          last.1.finish
          return before ++ [literal]
termination_by cur.ahead.length
decreasing_by exact Nat.lt_trans next.2 last.2

end Cursor

/-- Reads the characters of a line by recursive descent. -/
def descend (kind : Kind) (line : List Char) : Except Mismatch (List LiteralPhrase) :=
  Cursor.literals kind ⟨0, line⟩ []

namespace Cursor

/-- Reads on from a place as the automaton does. -/
def resume (kind : Kind) (r : Reading) (cur : Cursor) : Except Mismatch (List LiteralPhrase) :=
  readFrom kind r cur.position cur.ahead

section Characters

variable {kind : Kind} {r : Reading} {position : Nat} {ahead : List Char} {c : Char}

theorem resume_nil : resume kind r ⟨position, []⟩ =
    match r.finish with
    | .ok literals => .ok literals
    | .error expected => .error ⟨position, expected, none⟩ := rfl

theorem resume_cons : resume kind r ⟨position, c :: ahead⟩ =
    match r.step kind c with
    | .ok next => resume kind next ⟨position + 1, ahead⟩
    | .error expected => .error ⟨position, expected, some c⟩ := rfl

theorem eat_cons_self : eat c ⟨position, c :: ahead⟩ = some ⟨⟨position + 1, ahead⟩, Nat.lt_succ_self _⟩ := if_pos rfl

theorem ne_of_eat_eq_none {cur : Cursor} {d : Char} (stays : cur.eat d = none) (first : cur.peek = some c) :
    c ≠ d := by
  obtain ⟨position, ahead⟩ := cur
  cases ahead with
  | nil => cases first
  | cons e ahead =>
      cases first
      rintro rfl
      rw [eat_cons_self] at stays
      cases stays

theorem eat_cons_of_ne {d : Char} (other : c ≠ d) : eat d ⟨position, c :: ahead⟩ = none := if_neg other

theorem expect_cons_self :
    expect c ⟨position, c :: ahead⟩ = .ok ⟨⟨position + 1, ahead⟩, Nat.lt_succ_self _⟩ := by
  rw [expect, eat_cons_self]

theorem expect_cons_of_ne {d : Char} (other : c ≠ d) :
    expect d ⟨position, c :: ahead⟩ = .error ⟨position, .character d, some c⟩ := by
  rw [expect, eat_cons_of_ne other]
  rfl

theorem name_stops {cur : Cursor} {word : String} {next : cur.Further} (read : cur.name = .ok (word, next)) :
    ∀ c, next.1.peek = some c → ¬ isNameChar c = true := by
  obtain ⟨position, ahead⟩ := cur
  cases ahead with
  | nil => cases read
  | cons d ahead =>
      rw [name] at read
      split at read
      · cases read
        intro c first
        have stops := List.head?_dropWhile_not isNameChar ahead
        rw [show (ahead.dropWhile isNameChar).head? = some c from first] at stops
        exact ne_true_of_eq_false stops
      · cases read

end Characters

section Parts

variable {cur : Cursor}

theorem term_of_name {word : String} {next : cur.Further} (named : cur.name = .ok (word, next)) : cur.term =
    if next.1.peek = some '(' then next.1.args >>= fun read => pure (.call word read.1, next.trans read.2)
    else pure (.name word, next) := by
  rw [term, named]
  rfl

theorem args_of_expect {opened : cur.Further} (opens : cur.expect '(' = .ok opened) : cur.args =
    match opened.1.eat ')' with
    | some closed => pure ([], opened.trans closed)
    | none => opened.1.argsFrom [] >>= fun read => pure (read.1, opened.trans read.2) := by
  rw [args, opens]
  rfl

theorem argsFrom_of_term {before : List Phrase} {arg : Phrase} {next : cur.Further}
    (read : cur.term = .ok (arg, next)) : cur.argsFrom before =
    match next.1.eat ')' with
    | some closed => pure (before ++ [arg], next.trans closed)
    | none => next.1.expect ',' >>= fun behind => behind.1.argsFrom (before ++ [arg]) >>= fun read =>
        pure (read.1, next.trans (behind.trans read.2)) := by
  rw [argsFrom, read]
  rfl

theorem unsigned_of_name {positive : Bool} {word : String} {next : cur.Further}
    (named : cur.name = .ok (word, next)) :
    cur.unsigned positive = next.1.args >>= fun read => pure (⟨positive, word, read.1⟩, next.trans read.2) := by
  rw [unsigned, named]
  rfl

theorem literal_of_eat {next : cur.Further} (negates : cur.eat '~' = some next) :
    cur.literal = next.1.unsigned false >>= fun read => pure (read.1, next.trans read.2) := by
  rw [literal, negates]

end Parts

section Places

variable {kind : Kind} {literals : List LiteralPhrase} {positive : Bool} {outer : List Frame} {frame : Frame}

/-- A name is read to its end if each of its characters leads to a place of one kind. -/
theorem resume_word {inWord : String → Place}
    (grows : ∀ word c, isNameChar c = true →
      Reading.step kind ⟨literals, inWord word⟩ c = .ok ⟨literals, inWord (word.push c)⟩)
    (word : String) (position : Nat) (ahead : List Char) :
    resume kind ⟨literals, inWord word⟩ ⟨position, ahead⟩ =
      resume kind ⟨literals, inWord (word ++ String.ofList (ahead.takeWhile isNameChar))⟩
        ⟨position + (ahead.takeWhile isNameChar).length, ahead.dropWhile isNameChar⟩ := by
  induction ahead generalizing word position with
  | nil => simp
  | cons c ahead ih =>
      cases inName : isNameChar c with
      | true =>
          rw [resume_cons, grows word c inName, List.takeWhile_cons_of_pos inName, List.dropWhile_cons_of_pos inName,
            ← push_append_ofList, List.length_cons, ← Nat.add_assoc, Nat.add_right_comm]
          exact ih (word.push c) (position + 1)
      | false =>
          rw [List.takeWhile_cons_of_neg (by simp [inName]), List.dropWhile_cons_of_neg (by simp [inName])]
          simp

/-- Where a name must stand, one is read. -/
theorem resume_name {r : Reading} {cur : Cursor} (inWord : String → Place)
    (begins : ∀ c, cur.peek = some c → Reading.step kind r c =
      if isNameStart c then .ok ⟨literals, inWord c.toString⟩ else .error .name)
    (ends : r.finish = .error .name)
    (grows : ∀ word c, isNameChar c = true →
      Reading.step kind ⟨literals, inWord word⟩ c = .ok ⟨literals, inWord (word.push c)⟩) :
    cur.resume kind r = cur.name >>= fun read => read.2.1.resume kind ⟨literals, inWord read.1⟩ := by
  obtain ⟨position, ahead⟩ := cur
  cases ahead with
  | nil =>
      rw [resume_nil, ends]
      rfl
  | cons c ahead =>
      rw [resume_cons, begins c rfl, name]
      cases isNameStart c with
      | true =>
          have word := resume_word grows c.toString (position + 1) ahead
          rw [toString_append_ofList] at word
          exact word
      | false => rfl

/-- Behind an argument the parenthesis closes, or a comma must follow. -/
theorem resume_closed (cur : Cursor) :
    cur.resume kind ⟨literals, .inArgs positive outer frame .closed⟩ =
      match cur.eat ')' with
      | some next => next.1.resume kind (Reading.close ⟨literals, .start⟩ positive outer frame)
      | none => cur.expect ',' >>= fun next => next.1.resume kind ⟨literals, .inArgs positive outer frame .next⟩ := by
  obtain ⟨position, ahead⟩ := cur
  cases ahead with
  | nil => rfl
  | cons c ahead =>
      by_cases closes : c = ')'
      · subst closes
        rw [eat_cons_self]
        cases outer <;> rfl
      · simp only [eat_cons_of_ne closes, resume_cons, Reading.step, Reading.afterArg, if_neg closes]
        by_cases comma : c = ','
        · subst comma
          rw [expect_cons_self, if_pos rfl]
          rfl
        · rw [expect_cons_of_ne comma, if_neg comma]
          rfl

/-- Behind an opening parenthesis it closes at once, or an argument must follow. -/
theorem resume_first (cur : Cursor) :
    cur.resume kind ⟨literals, .inArgs positive outer frame .first⟩ =
      match cur.eat ')' with
      | some next => next.1.resume kind (Reading.close ⟨literals, .start⟩ positive outer frame)
      | none => cur.resume kind ⟨literals, .inArgs positive outer frame .next⟩ := by
  obtain ⟨position, ahead⟩ := cur
  cases ahead with
  | nil => rfl
  | cons c ahead =>
      by_cases closes : c = ')'
      · subst closes
        rw [eat_cons_self]
        cases outer <;> rfl
      · simp only [eat_cons_of_ne closes, resume_cons, Reading.step, if_neg closes]

/-- Where the name of an argument ends, its own arguments follow, or it is complete. -/
theorem resume_inName {cur : Cursor} {word : String} (stops : ∀ c, cur.peek = some c → ¬ isNameChar c = true) :
    cur.resume kind ⟨literals, .inArgs positive outer frame (.inName word)⟩ =
      if cur.peek = some '(' then
        cur.expect '(' >>= fun next =>
          next.1.resume kind ⟨literals, .inArgs positive (frame :: outer) ⟨word, []⟩ .first⟩
      else cur.resume kind ⟨literals, .inArgs positive outer (frame.push (.name word)) .closed⟩ := by
  obtain ⟨position, ahead⟩ := cur
  cases ahead with
  | nil => rfl
  | cons c ahead =>
      simp only [resume_cons, Reading.step, if_neg (stops c rfl)]
      by_cases opens : c = '('
      · subst opens
        have here : peek ⟨position, '(' :: ahead⟩ = some '(' := rfl
        rw [if_pos rfl, expect_cons_self, if_pos here]
        rfl
      · have other : ¬ peek ⟨position, c :: ahead⟩ = some '(' := fun same => opens (Option.some.inj same)
        rw [if_neg opens, if_neg other]
        rfl

theorem resume_inPredicate {cur : Cursor} {word : String} (stops : ∀ c, cur.peek = some c → ¬ isNameChar c = true) :
    cur.resume kind ⟨literals, .inPredicate positive word⟩ =
      cur.expect '(' >>= fun next => next.1.resume kind ⟨literals, .inArgs positive [] ⟨word, []⟩ .first⟩ := by
  obtain ⟨position, ahead⟩ := cur
  cases ahead with
  | nil => rfl
  | cons c ahead =>
      simp only [resume_cons, Reading.step, if_neg (stops c rfl)]
      by_cases opens : c = '('
      · subst opens
        rw [expect_cons_self, if_pos rfl]
        rfl
      · rw [expect_cons_of_ne opens, if_neg opens]
        rfl

theorem resume_next (cur : Cursor) :
    cur.resume kind ⟨literals, .inArgs positive outer frame .next⟩ =
      cur.name >>= fun read => read.2.1.resume kind ⟨literals, .inArgs positive outer frame (.inName read.1)⟩ := by
  refine resume_name (fun word => .inArgs positive outer frame (.inName word)) (fun _ _ => rfl) rfl ?_
  intro word c inName
  simp only [Reading.step, if_pos inName]

theorem resume_signed (cur : Cursor) : cur.resume kind ⟨literals, .signed⟩ =
    cur.name >>= fun read => read.2.1.resume kind ⟨literals, .inPredicate false read.1⟩ := by
  refine resume_name (fun word => .inPredicate false word) (fun _ _ => rfl) rfl ?_
  intro word c inName
  simp only [Reading.step, if_pos inName]

/-- Where a literal begins, its sign or the name of its predicate must stand. -/
theorem resume_start (cur : Cursor) : cur.resume kind ⟨literals, .start⟩ =
    match cur.eat '~' with
    | some next => next.1.resume kind ⟨literals, .signed⟩
    | none => cur.name >>= fun read => read.2.1.resume kind ⟨literals, .inPredicate true read.1⟩ := by
  cases negates : cur.eat '~' with
  | some next =>
      obtain ⟨position, ahead⟩ := cur
      cases ahead with
      | nil => cases negates
      | cons c ahead =>
          rw [eat] at negates
          split at negates
          · next sign =>
              cases negates
              subst sign
              rfl
          · cases negates
  | none =>
      refine resume_name (fun word => .inPredicate true word) (fun c first => ?_) rfl ?_
      · simp only [Reading.step, if_neg (ne_of_eat_eq_none negates first)]
      · intro word c inName
        simp only [Reading.step, if_pos inName]

/-- Behind a literal the line ends, or in a sentence a bar and another literal follow. -/
theorem resume_complete (cur : Cursor) : cur.resume kind ⟨literals, .complete⟩ =
    match kind, cur.eat '|' with
    | .sentence, some next => next.1.resume .sentence ⟨literals, .start⟩
    | _, _ => cur.finish >>= fun _ => pure literals := by
  obtain ⟨position, ahead⟩ := cur
  cases ahead with
  | nil => cases kind <;> rfl
  | cons c ahead =>
      by_cases bar : c = '|'
      · subst bar
        cases kind <;> rfl
      · have other : ¬ (c = '|' ∧ kind = .sentence) := fun both => bar both.1
        rw [eat_cons_of_ne bar]
        simp only [resume_cons, Reading.step, if_neg other]
        cases kind <;> rfl

-- each of the three falls back on one that begins further on, except that arguments begin with a term
mutual

/-- Where an argument must stand, a term is read. -/
theorem resume_term (cur : Cursor) (kind : Kind) (literals : List LiteralPhrase) (positive : Bool)
    (outer : List Frame) (frame : Frame) :
    cur.resume kind ⟨literals, .inArgs positive outer frame .next⟩ =
      cur.term >>= fun read => read.2.1.resume kind ⟨literals, .inArgs positive outer (frame.push read.1) .closed⟩ := by
  rw [resume_next]
  cases named : cur.name with
  | error mismatch =>
      rw [term, named]
      rfl
  | ok read =>
      obtain ⟨word, next⟩ := read
      rw [term_of_name named]
      refine (resume_inName (name_stops named)).trans ?_
      split
      · rw [resume_args next.1, bind_assoc]
        rfl
      · rfl
termination_by (cur.ahead.length, 0)
decreasing_by exact .left _ _ next.2

/-- Where arguments must stand, they are read up to the parenthesis that closes them. -/
theorem resume_args (cur : Cursor) (kind : Kind) (literals : List LiteralPhrase) (positive : Bool)
    (outer : List Frame) (word : String) :
    (cur.expect '(' >>= fun opened => opened.1.resume kind ⟨literals, .inArgs positive outer ⟨word, []⟩ .first⟩) =
      cur.args >>= fun read =>
        read.2.1.resume kind (Reading.close ⟨literals, .start⟩ positive outer ⟨word, read.1⟩) := by
  cases opens : cur.expect '(' with
  | error mismatch =>
      rw [args, opens]
      rfl
  | ok opened =>
      rw [args_of_expect opens]
      refine (resume_first opened.1).trans ?_
      cases opened.1.eat ')' with
      | some closed => rfl
      | none =>
          dsimp only
          rw [resume_argsFrom opened.1, bind_assoc]
          rfl
termination_by (cur.ahead.length, 0)
decreasing_by exact .left _ _ opened.2

theorem resume_argsFrom (cur : Cursor) (before : List Phrase) (kind : Kind) (literals : List LiteralPhrase)
    (positive : Bool) (outer : List Frame) (word : String) :
    cur.resume kind ⟨literals, .inArgs positive outer ⟨word, before⟩ .next⟩ =
      cur.argsFrom before >>= fun read =>
        read.2.1.resume kind (Reading.close ⟨literals, .start⟩ positive outer ⟨word, read.1⟩) := by
  rw [resume_term cur]
  cases read : cur.term with
  | error mismatch =>
      rw [argsFrom, read]
      rfl
  | ok pair =>
      obtain ⟨arg, next⟩ := pair
      rw [argsFrom_of_term read]
      refine (resume_closed next.1).trans ?_
      cases next.1.eat ')' with
      | some closed => rfl
      | none =>
          dsimp only
          rw [bind_assoc]
          refine bind_congr fun behind => ?_
          rw [bind_assoc]
          exact resume_argsFrom behind.1 (before ++ [arg]) kind literals positive outer word
termination_by (cur.ahead.length, 1)
decreasing_by
  · exact .right _ Nat.zero_lt_one
  · exact .left _ _ (Nat.lt_trans behind.2 next.2)

end

theorem resume_unsigned (cur : Cursor) :
    (cur.name >>= fun read => read.2.1.resume kind ⟨literals, .inPredicate positive read.1⟩) =
      cur.unsigned positive >>= fun read => read.2.1.resume kind ⟨literals ++ [read.1], .complete⟩ := by
  cases named : cur.name with
  | error mismatch =>
      rw [unsigned, named]
      rfl
  | ok read =>
      obtain ⟨word, next⟩ := read
      rw [unsigned_of_name named, bind_assoc]
      refine (resume_inPredicate (name_stops named)).trans ?_
      exact resume_args next.1 kind literals positive [] word

theorem resume_literal (cur : Cursor) : cur.resume kind ⟨literals, .start⟩ =
    cur.literal >>= fun read => read.2.1.resume kind ⟨literals ++ [read.1], .complete⟩ := by
  rw [resume_start]
  cases negates : cur.eat '~' with
  | none =>
      rw [literal, negates]
      exact resume_unsigned cur
  | some next =>
      rw [literal_of_eat negates, bind_assoc]
      exact (resume_signed next.1).trans (resume_unsigned next.1)

/-- From where a literal begins the rest of the line is read. -/
theorem resume_literals (cur : Cursor) (kind : Kind) (before : List LiteralPhrase) :
    cur.resume kind ⟨before, .start⟩ = cur.literals kind before := by
  rw [resume_literal, literals]
  refine bind_congr fun ⟨literal, last⟩ => ?_
  rw [resume_complete]
  cases kind with
  | query => rfl
  | sentence =>
      dsimp only
      cases last.1.eat '|' with
      | none => rfl
      | some next => exact resume_literals next.1 .sentence (before ++ [literal])
termination_by cur.ahead.length
decreasing_by exact Nat.lt_trans next.2 last.2

end Places

end Cursor

/-- The automaton reads the phrases that recursive descent reads, and reports what it reports: the position, what is
expected there and what is found. -/
theorem readLine_eq_descend (kind : Kind) (line : List Char) : readLine kind line = descend kind line :=
  Cursor.resume_literals ⟨0, line⟩ kind []

end Refutation.Source
