import Mathlib.Data.List.Basic
import Refutation.Source.Grammar

/-!
Lines are read by their grammar. For every place that the reader can be in there is a set of texts that can
follow it, each with the literals that the whole line has then. A character leads from one place to the next
exactly as it leads from one such set to the next, so the reader accepts the lines of the grammar, with the
phrases that the grammar gives them, and no line has two readings.
-/

namespace Refutation.Source

section Names

theorem isNameChar_of_isNameStart {c : Char} (start : isNameStart c = true) : isNameChar c = true := by
  rw [isNameStart] at start
  rw [isNameChar, start]
  rfl

/-- The characters that give a line its shape are no part of a name. -/
theorem isNameChar_eq_false : ∀ c ∈ ['~', '(', ')', ',', '|'], isNameChar c = false := by
  have none : ['~', '(', ')', ',', '|'].any isNameChar = false := by decide +kernel
  intro c member
  exact Bool.eq_false_iff.mpr (List.any_eq_false.mp none c member)

theorem not_mem_of_isNameChar {c : Char} (inName : isNameChar c = true) : c ∉ ['~', '(', ')', ',', '|'] := by
  intro member
  rw [isNameChar_eq_false c member] at inName
  cases inName

theorem push_append_ofList (name : String) (c : Char) (n : List Char) :
    name.push c ++ String.ofList n = name ++ String.ofList (c :: n) := by
  simp [← String.toList_inj]

theorem toString_append_ofList (c : Char) (n : List Char) :
    c.toString ++ String.ofList n = String.ofList (c :: n) := by
  simp

theorem IsName.exists_cons {w : List Char} (isName : IsName w) :
    ∃ c n, w = c :: n ∧ isNameStart c = true ∧ ∀ d ∈ n, isNameChar d = true := by
  cases w with
  | nil => exact absurd isName id
  | cons c n => exact ⟨c, n, rfl, isName⟩

end Names

/-- What can follow an argument: further arguments, each behind a comma, and the closing parenthesis. -/
inductive SpellsTail : List Char → List Phrase → Prop
  | close : SpellsTail [')'] []
  | more {w u : List Char} {t : Phrase} {ts : List Phrase} :
      SpellsTerm w t → SpellsTail u ts → SpellsTail (',' :: (w ++ u)) (t :: ts)

/-- What can follow a literal: nothing, or in a sentence a bar and further literals. -/
inductive SpellsMore : Kind → List Char → List LiteralPhrase → Prop
  | done {kind : Kind} : SpellsMore kind [] []
  | bar {u : List Char} {ls : List LiteralPhrase} :
      SpellsLine .sentence u ls → SpellsMore .sentence ('|' :: u) ls

theorem SpellsTerm.ne_nil {w : List Char} {t : Phrase} (spells : SpellsTerm w t) : w ≠ [] := by
  cases spells with
  | name isName =>
      obtain ⟨c, n, rfl, -⟩ := isName.exists_cons
      simp
  | call isName _ =>
      obtain ⟨c, n, rfl, -⟩ := isName.exists_cons
      simp

theorem SpellsTerms.exists_tail {u : List Char} {args : List Phrase} (spells : SpellsTerms u args) :
    ∃ w v t ts, u ++ [')'] = w ++ v ∧ SpellsTerm w t ∧ SpellsTail v ts ∧ args = t :: ts := by
  induction args generalizing u with
  | nil => cases spells
  | cons t args ih =>
      cases spells with
      | one first => exact ⟨u, [')'], t, [], rfl, first, .close, rfl⟩
      | @more w u _ _ first others =>
          obtain ⟨w', v, t', ts, split, second, tail, rfl⟩ := ih others
          refine ⟨w, ',' :: (w' ++ v), t, t' :: ts, ?_, first, .more second tail, rfl⟩
          rw [← split]
          simp

theorem SpellsTail.exists_terms {w v : List Char} {t : Phrase} {ts : List Phrase} (first : SpellsTerm w t)
    (tail : SpellsTail v ts) : ∃ u, w ++ v = u ++ [')'] ∧ SpellsTerms u (t :: ts) := by
  induction tail generalizing w t with
  | close => exact ⟨w, rfl, .one first⟩
  | @more w' v t' ts second _ ih =>
      obtain ⟨u, split, others⟩ := ih second
      refine ⟨w ++ ',' :: u, ?_, .more first others⟩
      rw [split]
      simp

/-- Behind an opening parenthesis stands the closing one, or a first argument and what can follow it. -/
theorem spellsArgs_open_iff {u : List Char} {args : List Phrase} :
    SpellsArgs ('(' :: u) args ↔ u = [')'] ∧ args = [] ∨
      ∃ w v t ts, u = w ++ v ∧ SpellsTerm w t ∧ SpellsTail v ts ∧ args = t :: ts := by
  constructor
  · intro spells
    cases spells with
    | none => exact .inl ⟨rfl, rfl⟩
    | some terms => exact .inr terms.exists_tail
  · rintro (⟨rfl, rfl⟩ | ⟨w, v, t, ts, rfl, first, tail, rfl⟩)
    · exact .none
    · obtain ⟨u, split, terms⟩ := tail.exists_terms first
      rw [split]
      exact .some terms

theorem SpellsArgs.exists_open {u : List Char} {args : List Phrase} (spells : SpellsArgs u args) :
    ∃ v, u = '(' :: v := by
  cases spells with
  | none => exact ⟨_, rfl⟩
  | some _ => exact ⟨_, rfl⟩

/-- A line is a literal and what can follow it. -/
theorem spellsLine_iff {kind : Kind} {w : List Char} {ls : List LiteralPhrase} :
    SpellsLine kind w ls ↔
      ∃ u v l more, w = u ++ v ∧ SpellsLiteral u l ∧ SpellsMore kind v more ∧ ls = l :: more := by
  constructor
  · intro spells
    cases spells with
    | one literal => exact ⟨w, [], _, [], (List.append_nil w).symm, literal, .done, rfl⟩
    | more literal others => exact ⟨_, _, _, _, rfl, literal, .bar others, rfl⟩
  · rintro ⟨u, v, l, more, rfl, literal, follows, rfl⟩
    cases follows with
    | done =>
        rw [List.append_nil]
        exact .one literal
    | bar others => exact .more literal others

theorem spellsLine_query_iff {w : List Char} {ls : List LiteralPhrase} :
    SpellsLine .query w ls ↔ ∃ l, ls = [l] ∧ SpellsLiteral w l := by
  constructor
  · intro spells
    cases spells with
    | one literal => exact ⟨_, rfl, literal⟩
  · rintro ⟨l, rfl, literal⟩
    exact .one literal

/-- A frame with more arguments. -/
def Frame.extend (frame : Frame) (args : List Phrase) : Frame := { frame with args := frame.args ++ args }

theorem Frame.extend_nil (frame : Frame) : frame.extend [] = frame := by
  rw [extend, List.append_nil]

theorem Frame.extend_push (frame : Frame) (t : Phrase) (ts : List Phrase) :
    (frame.push t).extend ts = frame.extend (t :: ts) := by
  rw [extend, extend, push, List.append_assoc]
  rfl

/-- The texts that can follow a place in a line, each with the literals that the whole line has then. -/
abbrev Continuation := List Char → List LiteralPhrase → Prop

namespace Continuation

section Places

variable (kind : Kind) (literals : List LiteralPhrase) (positive : Bool)

/-- Where a literal begins. -/
def start : Continuation := fun w all => ∃ more, SpellsLine kind w more ∧ all = literals ++ more

/-- Behind a literal. -/
def complete : Continuation := fun w all => ∃ more, SpellsMore kind w more ∧ all = literals ++ more

/-- Behind the parenthesis that closes a frame: the frame around it goes on, and so outwards. -/
def closed : List Frame → Frame → Continuation
  | [], frame => complete kind (literals ++ [⟨positive, frame.name, frame.args⟩])
  | around :: outer, frame => fun w all => ∃ u v args, w = u ++ v ∧ SpellsTail u args ∧
      closed outer ((around.push (.call frame.name frame.args)).extend args) v all

/-- Behind an argument of a frame. -/
def afterArg (outer : List Frame) (frame : Frame) : Continuation := fun w all =>
  ∃ u v args, w = u ++ v ∧ SpellsTail u args ∧ closed kind literals positive outer (frame.extend args) v all

/-- Behind a comma. -/
def nextArg (outer : List Frame) (frame : Frame) : Continuation := fun w all =>
  ∃ u v t, w = u ++ v ∧ SpellsTerm u t ∧ afterArg kind literals positive outer (frame.push t) v all

/-- Behind the parenthesis that opens a frame. -/
def firstArg (outer : List Frame) (frame : Frame) : Continuation := fun w all =>
  ∃ u v args, w = u ++ v ∧ SpellsArgs ('(' :: u) args ∧
    closed kind literals positive outer (frame.extend args) v all

/-- Within the name of an argument, which may turn out to be that of a frame of its own. -/
def argName (outer : List Frame) (frame : Frame) (name : String) : Continuation := fun w all =>
  ∃ n u, w = n ++ u ∧ (∀ c ∈ n, isNameChar c = true) ∧
    (afterArg kind literals positive outer (frame.push (.name (name ++ String.ofList n))) u all ∨
      ∃ v, u = '(' :: v ∧
        firstArg kind literals positive (frame :: outer) ⟨name ++ String.ofList n, []⟩ v all)

/-- Within the name of a predicate. -/
def predicate (name : String) : Continuation := fun w all =>
  ∃ n u, w = n ++ '(' :: u ∧ (∀ c ∈ n, isNameChar c = true) ∧
    firstArg kind literals positive [] ⟨name ++ String.ofList n, []⟩ u all

/-- Where the name of a predicate begins. -/
def named : Continuation := fun w all =>
  ∃ n u, w = n ++ '(' :: u ∧ IsName n ∧ firstArg kind literals positive [] ⟨String.ofList n, []⟩ u all

end Places

section Characters

variable {kind : Kind} {literals all : List LiteralPhrase} {positive : Bool} {outer : List Frame} {frame : Frame}
variable {name : String} {c : Char} {w : List Char}

theorem complete_cons_iff : complete kind literals (c :: w) all ↔
    (c = '|' ∧ kind = .sentence) ∧ start kind literals w all := by
  constructor
  · rintro ⟨more, spells, rfl⟩
    cases spells with
    | bar line => exact ⟨⟨rfl, rfl⟩, more, line, rfl⟩
  · rintro ⟨⟨rfl, rfl⟩, more, line, rfl⟩
    exact ⟨more, .bar line, rfl⟩

theorem afterArg_cons_iff : afterArg kind literals positive outer frame (c :: w) all ↔
    c = ')' ∧ closed kind literals positive outer frame w all ∨
      c = ',' ∧ nextArg kind literals positive outer frame w all := by
  constructor
  · rintro ⟨u, v, args, split, tail, rest⟩
    cases tail with
    | close =>
        obtain ⟨rfl, rfl⟩ := List.cons.inj split
        rw [frame.extend_nil] at rest
        exact .inl ⟨rfl, rest⟩
    | @more x y t ts term tail =>
        obtain ⟨rfl, rfl⟩ := List.cons.inj split
        rw [← frame.extend_push] at rest
        exact .inr ⟨rfl, x, y ++ v, t, List.append_assoc x y v, term, y, v, ts, rfl, tail, rest⟩
  · rintro (⟨rfl, rest⟩ | ⟨rfl, x, _, t, rfl, term, y, v, ts, rfl, tail, rest⟩)
    · exact ⟨[')'], w, [], rfl, .close, by rwa [frame.extend_nil]⟩
    · rw [frame.extend_push] at rest
      exact ⟨',' :: (x ++ y), v, t :: ts, by simp, .more term tail, rest⟩

/-- An opening parenthesis behind a name makes the name that of a frame. -/
theorem exists_args_iff (n : List Char) : (∃ u v args, w = u ++ v ∧ SpellsArgs u args ∧
      afterArg kind literals positive outer (frame.push (.call (name ++ String.ofList n) args)) v all) ↔
    ∃ v, w = '(' :: v ∧
      firstArg kind literals positive (frame :: outer) ⟨name ++ String.ofList n, []⟩ v all := by
  constructor
  · rintro ⟨u, v, args, rfl, spells, rest⟩
    obtain ⟨u, rfl⟩ := spells.exists_open
    exact ⟨u ++ v, rfl, u, v, args, rfl, spells, rest⟩
  · rintro ⟨_, rfl, u, v, args, rfl, spells, rest⟩
    exact ⟨'(' :: u, v, args, rfl, spells, rest⟩

theorem nextArg_cons_iff : nextArg kind literals positive outer frame (c :: w) all ↔
    isNameStart c = true ∧ argName kind literals positive outer frame c.toString w all := by
  constructor
  · rintro ⟨u, v, t, split, term, rest⟩
    cases term with
    | name isName =>
        obtain ⟨d, n, rfl, begins, within⟩ := isName.exists_cons
        obtain ⟨rfl, rfl⟩ := List.cons.inj split
        rw [← toString_append_ofList] at rest
        exact ⟨begins, n, v, rfl, within, .inl rest⟩
    | @call _ u args isName spells =>
        obtain ⟨d, n, rfl, begins, within⟩ := isName.exists_cons
        obtain ⟨rfl, rfl⟩ := List.cons.inj split
        rw [← toString_append_ofList] at rest
        refine ⟨begins, n, u ++ v, List.append_assoc n u v, within, .inr ?_⟩
        exact (exists_args_iff n).mp ⟨u, v, args, rfl, spells, rest⟩
  · rintro ⟨begins, n, u, rfl, within, rest⟩
    have isName : IsName (c :: n) := ⟨begins, within⟩
    rcases rest with plain | called
    · rw [toString_append_ofList] at plain
      exact ⟨c :: n, u, _, rfl, .name isName, plain⟩
    · obtain ⟨x, v, args, rfl, spells, rest⟩ := (exists_args_iff n).mpr called
      rw [toString_append_ofList] at rest
      exact ⟨c :: n ++ x, v, _, by simp, .call isName spells, rest⟩

theorem firstArg_cons_iff : firstArg kind literals positive outer frame (c :: w) all ↔
    c = ')' ∧ closed kind literals positive outer frame w all ∨
      nextArg kind literals positive outer frame (c :: w) all := by
  constructor
  · rintro ⟨u, v, args, split, spells, rest⟩
    rcases spellsArgs_open_iff.mp spells with ⟨rfl, rfl⟩ | ⟨x, y, t, ts, rfl, term, tail, rfl⟩
    · obtain ⟨rfl, rfl⟩ := List.cons.inj split
      rw [frame.extend_nil] at rest
      exact .inl ⟨rfl, rest⟩
    · rw [← frame.extend_push] at rest
      refine .inr ⟨x, y ++ v, t, ?_, term, y, v, ts, rfl, tail, rest⟩
      rw [split, List.append_assoc]
  · rintro (⟨rfl, rest⟩ | ⟨x, _, t, split, term, y, v, ts, rfl, tail, rest⟩)
    · exact ⟨[')'], w, [], rfl, .none, by rwa [frame.extend_nil]⟩
    · rw [frame.extend_push] at rest
      refine ⟨x ++ y, v, t :: ts, ?_, spellsArgs_open_iff.mpr (.inr ⟨x, y, t, ts, rfl, term, tail, rfl⟩), rest⟩
      rw [split, List.append_assoc]

theorem argName_cons_iff : argName kind literals positive outer frame name (c :: w) all ↔
    isNameChar c = true ∧ argName kind literals positive outer frame (name.push c) w all ∨
      c = '(' ∧ firstArg kind literals positive (frame :: outer) ⟨name, []⟩ w all ∨
      afterArg kind literals positive outer (frame.push (.name name)) (c :: w) all := by
  have whole : name ++ String.ofList [] = name := by simp
  constructor
  · rintro ⟨n, u, split, within, rest⟩
    cases n with
    | nil =>
        obtain rfl : c :: w = u := split
        rw [whole] at rest
        rcases rest with plain | ⟨v, opens, called⟩
        · exact .inr (.inr plain)
        · obtain ⟨rfl, rfl⟩ := List.cons.inj opens
          exact .inr (.inl ⟨rfl, called⟩)
    | cons d n =>
        obtain ⟨rfl, rfl⟩ := List.cons.inj split
        obtain ⟨first, others⟩ := List.forall_mem_cons.mp within
        rw [← push_append_ofList] at rest
        exact .inl ⟨first, n, u, rfl, others, rest⟩
  · rintro (⟨first, n, u, rfl, within, rest⟩ | ⟨rfl, called⟩ | plain)
    · rw [push_append_ofList] at rest
      exact ⟨c :: n, u, rfl, List.forall_mem_cons.mpr ⟨first, within⟩, rest⟩
    · exact ⟨[], '(' :: w, rfl, by simp, .inr ⟨w, rfl, by rwa [whole]⟩⟩
    · exact ⟨[], c :: w, rfl, by simp, .inl (by rwa [whole])⟩

theorem predicate_cons_iff : predicate kind literals positive name (c :: w) all ↔
    isNameChar c = true ∧ predicate kind literals positive (name.push c) w all ∨
      c = '(' ∧ firstArg kind literals positive [] ⟨name, []⟩ w all := by
  have whole : name ++ String.ofList [] = name := by simp
  constructor
  · rintro ⟨n, u, split, within, rest⟩
    cases n with
    | nil =>
        obtain ⟨rfl, rfl⟩ := List.cons.inj split
        rw [whole] at rest
        exact .inr ⟨rfl, rest⟩
    | cons d n =>
        obtain ⟨rfl, rfl⟩ := List.cons.inj split
        obtain ⟨first, others⟩ := List.forall_mem_cons.mp within
        rw [← push_append_ofList] at rest
        exact .inl ⟨first, n, u, rfl, others, rest⟩
  · rintro (⟨first, n, u, rfl, within, rest⟩ | ⟨rfl, rest⟩)
    · rw [push_append_ofList] at rest
      exact ⟨c :: n, u, rfl, List.forall_mem_cons.mpr ⟨first, within⟩, rest⟩
    · exact ⟨[], w, rfl, by simp, by rwa [whole]⟩

theorem named_cons_iff : named kind literals positive (c :: w) all ↔
    isNameStart c = true ∧ predicate kind literals positive c.toString w all := by
  constructor
  · rintro ⟨n, u, split, isName, rest⟩
    obtain ⟨d, n, rfl, begins, within⟩ := isName.exists_cons
    obtain ⟨rfl, rfl⟩ := List.cons.inj split
    rw [← toString_append_ofList] at rest
    exact ⟨begins, n, u, rfl, within, rest⟩
  · rintro ⟨begins, n, u, rfl, within, rest⟩
    rw [toString_append_ofList] at rest
    exact ⟨c :: n, u, rfl, ⟨begins, within⟩, rest⟩

/-- What a predicate's name and arguments spell, and what can follow them. -/
theorem named_iff : named kind literals positive w all ↔ ∃ n u v args more, w = n ++ u ++ v ∧ IsName n ∧
    SpellsArgs u args ∧ SpellsMore kind v more ∧ all = literals ++ ⟨positive, String.ofList n, args⟩ :: more := by
  constructor
  · rintro ⟨n, _, rfl, isName, u, v, args, rfl, spells, more, follows, rfl⟩
    refine ⟨n, '(' :: u, v, args, more, by simp, isName, spells, follows, ?_⟩
    rw [List.append_assoc]
    rfl
  · rintro ⟨n, u, v, args, more, rfl, isName, spells, follows, rfl⟩
    obtain ⟨u, rfl⟩ := spells.exists_open
    refine ⟨n, u ++ v, by simp, isName, u, v, args, rfl, spells, more, follows, ?_⟩
    rw [List.append_assoc]
    rfl

theorem start_iff : start kind literals w all ↔
    named kind literals true w all ∨ ∃ v, w = '~' :: v ∧ named kind literals false v all := by
  simp only [start, spellsLine_iff, named_iff]
  constructor
  · rintro ⟨_, ⟨_, v, _, more, rfl, literal, follows, rfl⟩, rfl⟩
    cases literal with
    | @positive n u args isName spells => exact .inl ⟨n, u, v, args, more, rfl, isName, spells, follows, rfl⟩
    | @negative n u args isName spells =>
        exact .inr ⟨n ++ u ++ v, rfl, n, u, v, args, more, rfl, isName, spells, follows, rfl⟩
  · rintro (⟨n, u, v, args, more, rfl, isName, spells, follows, rfl⟩ |
      ⟨_, rfl, n, u, v, args, more, rfl, isName, spells, follows, rfl⟩)
    · exact ⟨_, ⟨n ++ u, v, _, more, rfl, .positive isName spells, follows, rfl⟩, rfl⟩
    · exact ⟨_, ⟨'~' :: n ++ u, v, _, more, by simp, .negative isName spells, follows, rfl⟩, rfl⟩

theorem start_cons_iff : start kind literals (c :: w) all ↔ c = '~' ∧ named kind literals false w all ∨
    isNameStart c = true ∧ predicate kind literals true c.toString w all := by
  rw [start_iff, named_cons_iff, or_comm]
  apply or_congr_left
  constructor
  · rintro ⟨v, split, rest⟩
    obtain ⟨rfl, rfl⟩ := List.cons.inj split
    exact ⟨rfl, rest⟩
  · rintro ⟨rfl, rest⟩
    exact ⟨w, rfl, rest⟩

theorem complete_nil_iff : complete kind literals [] all ↔ all = literals := by
  constructor
  · rintro ⟨more, spells, rfl⟩
    cases spells
    rw [List.append_nil]
  · rintro rfl
    exact ⟨[], .done, (List.append_nil _).symm⟩

theorem not_named_nil : ¬ named kind literals positive [] all := by
  rintro ⟨n, u, split, -⟩
  simp at split

theorem not_afterArg_nil : ¬ afterArg kind literals positive outer frame [] all := by
  rintro ⟨u, v, args, split, tail, -⟩
  cases tail <;> cases split

theorem not_nextArg_nil : ¬ nextArg kind literals positive outer frame [] all := by
  rintro ⟨u, v, t, split, term, -⟩
  obtain ⟨rfl, -⟩ := List.append_eq_nil_iff.mp split.symm
  exact term.ne_nil rfl

theorem not_firstArg_nil : ¬ firstArg kind literals positive outer frame [] all := by
  rintro ⟨u, v, args, split, spells, -⟩
  obtain ⟨rfl, -⟩ := List.append_eq_nil_iff.mp split.symm
  rcases spellsArgs_open_iff.mp spells with ⟨short, -⟩ | ⟨x, y, t, ts, split, term, -⟩
  · cases short
  · exact term.ne_nil (List.append_eq_nil_iff.mp split.symm).1

end Characters

end Continuation

namespace Reading

open Continuation

/-- The texts that a line can go on with from where it was read to. -/
def Goes (kind : Kind) (r : Reading) : Continuation :=
  match r.place with
  | .start => start kind r.literals
  | .signed => named kind r.literals false
  | .inPredicate positive name => predicate kind r.literals positive name
  | .inArgs positive outer frame .first => firstArg kind r.literals positive outer frame
  | .inArgs positive outer frame .next => nextArg kind r.literals positive outer frame
  | .inArgs positive outer frame (.inName name) => argName kind r.literals positive outer frame name
  | .inArgs positive outer frame .closed => Continuation.afterArg kind r.literals positive outer frame
  | .complete => complete kind r.literals

variable {kind : Kind} {literals all : List LiteralPhrase} {r : Reading} {c : Char} {w : List Char}

theorem goes_close (r : Reading) (positive : Bool) (outer : List Frame) (frame : Frame) :
    (r.close positive outer frame).Goes kind = closed kind r.literals positive outer frame := by
  cases outer with
  | nil => rfl
  | cons around outer => rfl

theorem goes_afterArg_iff {positive : Bool} {outer : List Frame} {frame : Frame} :
    Continuation.afterArg kind r.literals positive outer frame (c :: w) all ↔
      ∃ next, r.afterArg positive outer frame c = .ok next ∧ next.Goes kind w all := by
  rw [afterArg_cons_iff, ← goes_close]
  unfold Reading.afterArg
  split
  · next closes => simp [closes]
  · split
    · next comma => simp [comma, Goes]
    · next other comma => simp [other, comma]

/-- A choice between two ways to go on is one between the texts that can follow. -/
theorem exists_ok_ite_iff {p : Prop} [Decidable p] {yes : Reading} {no : Except Expected Reading} :
    (∃ next, (if p then .ok yes else no) = .ok next ∧ next.Goes kind w all) ↔
      p ∧ yes.Goes kind w all ∨ ¬p ∧ ∃ next, no = .ok next ∧ next.Goes kind w all := by
  split
  · next holds => simp [holds]
  · next fails => simp [fails]

theorem not_exists_error (kind : Kind) (w : List Char) (all : List LiteralPhrase) (expected : Expected) :
    ¬ ∃ next : Reading, Except.error expected = .ok next ∧ next.Goes kind w all := by
  rintro ⟨next, stuck, -⟩
  cases stuck

/-- A character leads on exactly if the text with it can follow, and then to where the rest can follow. -/
theorem goes_cons_iff (kind : Kind) (r : Reading) (c : Char) (w : List Char) (all : List LiteralPhrase) :
    r.Goes kind (c :: w) all ↔ ∃ next, r.step kind c = .ok next ∧ next.Goes kind w all := by
  have stuck := not_exists_error kind w all
  have shape := @not_mem_of_isNameChar c
  have begins := @isNameChar_of_isNameStart c
  simp only [List.mem_cons, List.not_mem_nil, not_or] at shape
  obtain ⟨literals, place⟩ := r
  cases place with
  | start =>
      refine start_cons_iff.trans ?_
      simp only [step, exists_ok_ite_iff, stuck]
      simp only [Goes]
      grind
  | signed =>
      refine named_cons_iff.trans ?_
      simp only [step, exists_ok_ite_iff, stuck]
      simp only [Goes]
      grind
  | inPredicate positive name =>
      refine predicate_cons_iff.trans ?_
      simp only [step, exists_ok_ite_iff, stuck]
      simp only [Goes]
      grind
  | inArgs positive outer frame inner =>
      cases inner with
      | first =>
          refine firstArg_cons_iff.trans ?_
          simp only [step, exists_ok_ite_iff, stuck, nextArg_cons_iff, goes_close]
          simp only [Goes]
          grind
      | next =>
          refine nextArg_cons_iff.trans ?_
          simp only [step, exists_ok_ite_iff, stuck]
          simp only [Goes]
          grind
      | inName name =>
          refine argName_cons_iff.trans ?_
          rw [goes_afterArg_iff (r := ⟨literals, .inArgs positive outer frame (.inName name)⟩)]
          simp only [step, exists_ok_ite_iff, Reading.afterArg, stuck, goes_close]
          simp only [Goes]
          grind
      | closed => exact goes_afterArg_iff
  | complete =>
      refine complete_cons_iff.trans ?_
      simp only [step, exists_ok_ite_iff, stuck]
      simp only [Goes]
      grind

/-- A line can end behind a literal and nowhere else. -/
theorem goes_nil_iff (kind : Kind) (r : Reading) (all : List LiteralPhrase) :
    r.Goes kind [] all ↔ r.finish = .ok all := by
  obtain ⟨literals, place⟩ := r
  cases place with
  | start => simp [finish, Goes, start_iff, not_named_nil]
  | signed => simp [finish, Goes, not_named_nil]
  | inPredicate positive name => simp [finish, Goes, predicate]
  | inArgs positive outer frame inner =>
      cases inner with
      | first => simp [finish, Goes, not_firstArg_nil]
      | next => simp [finish, Goes, not_nextArg_nil]
      | inName name => simp [finish, Goes, argName, not_afterArg_nil]
      | closed => simp [finish, Goes, not_afterArg_nil]
  | complete =>
      refine complete_nil_iff.trans ?_
      rw [finish, Except.ok.injEq, eq_comm]

end Reading

/-- What is read from a place on is what can follow it. -/
theorem readFrom_eq_ok_iff {kind : Kind} {r : Reading} {position : Nat} {w : List Char} {all : List LiteralPhrase} :
    readFrom kind r position w = .ok all ↔ r.Goes kind w all := by
  induction w generalizing r position with
  | nil =>
      rw [r.goes_nil_iff, readFrom]
      cases r.finish <;> simp
  | cons c w ih =>
      rw [r.goes_cons_iff, readFrom]
      cases r.step kind c <;> simp [ih]

/-- The lines that can be read are those of the grammar, with the phrases that it gives them. -/
theorem readLine_eq_ok_iff {kind : Kind} {w : List Char} {phrases : List LiteralPhrase} :
    readLine kind w = .ok phrases ↔ SpellsLine kind w phrases := by
  rw [readLine, readFrom_eq_ok_iff]
  change (∃ more, _ ∧ phrases = [] ++ more) ↔ _
  simp

end Refutation.Source
