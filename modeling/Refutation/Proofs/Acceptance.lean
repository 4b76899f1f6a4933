import Mathlib.Data.List.TakeWhile
import Mathlib.Data.Nat.Digits.Defs
import Refutation.Proofs.Denotation

/-!
Which texts are problems. A text counts its lines that are not blank: a number of queries and that many literals,
a number of sentences and that many disjunctions of literals, and nothing more. A text can be read exactly if it is
of this form, and what is read is what its lines denote.
-/

namespace Refutation

namespace Source

/-- The lines of a text, split at line ends, that are not blank. -/
def contentLines (text : String) : List (List Char) :=
  (text.toList.splitOn '\n').filter fun line => !line.all Text.isBlank

/-- The number that decimal digits write. -/
def decimal (digits : List Char) : Nat := Nat.ofDigits 10 (digits.reverse.map fun d => d.toNat - '0'.toNat)

/-- A count: decimal digits, perhaps behind a plus sign, with blanks around them. -/
inductive SpellsCount : List Char → Nat → Prop
  | mk {before sign digits after : List Char} :
      (∀ c ∈ before, Text.isBlank c) → (∀ c ∈ after, Text.isBlank c) → sign = [] ∨ sign = ['+'] →
      digits ≠ [] → (∀ d ∈ digits, d.isDigit) → decimal digits < Nat.pow 2 64 →
      SpellsCount (before ++ (sign ++ digits) ++ after) (decimal digits)

/-- The lines of a problem that are not blank, with the phrases of its queries and sentences. -/
inductive SpellsProblem : List (List Char) → List LiteralPhrase → List (List LiteralPhrase) → Prop
  | mk {first second : List Char} {queries sentences : List (List Char)} {asked : List LiteralPhrase}
      {told : List (List LiteralPhrase)} :
      SpellsCount first queries.length → List.Forall₂ (fun line => SpellsLiteral (bare line)) queries asked →
      SpellsCount second sentences.length →
      List.Forall₂ (fun line => SpellsLine .sentence (bare line)) sentences told →
      SpellsProblem (first :: queries ++ second :: sentences) asked told

section Lines

theorem splitLines_eq (chars : List Char) : splitLines chars = chars.splitOn '\n' := by
  fun_induction splitLines chars with
  | case1 => rfl
  | case2 rest ih => rw [List.splitOn_cons_eq_if_modifyHead, if_pos (by simp), ih]
  | case3 c rest _ none ih => exact absurd (ih.symm.trans none) (List.splitOn_ne_nil _ _)
  | case4 c rest isInner line lines some ih =>
      rw [List.splitOn_cons_eq_if_modifyHead, if_neg (by simpa using isInner), ← ih, some, List.modifyHead_cons]

theorem chars_linesOf (text : String) : (linesOf text).map NumberedLine.chars = contentLines text := by
  have numbered : ∀ lines : List (List Char),
      (lines.mapIdx fun i line => (⟨i + 1, line⟩ : NumberedLine)).map NumberedLine.chars = lines := by
    intro lines
    apply List.ext_getElem?
    intro i
    simp [List.getElem?_mapIdx, Function.comp_def]
  rw [contentLines, ← splitLines_eq, ← numbered (splitLines text.toList), List.filter_map]
  rfl

end Lines

section Counts

theorem digitsValue_eq (digits : List Char) : Text.digitsValue digits = decimal digits := by
  induction digits using List.reverseRecOn with
  | nil => rfl
  | append_singleton digits d ih =>
      rw [Text.digitsValue, List.foldl_append, ← Text.digitsValue, ih, decimal, decimal, List.reverse_append]
      simp [Nat.ofDigits_cons, Nat.add_comm]

theorem not_isBlank_of_isDigit {c : Char} (digit : c.isDigit = true) : Text.isBlank c = false := by
  have range : 48 ≤ c.toNat ∧ c.toNat ≤ 57 := by simpa [Char.isDigit, UInt32.le_iff_toNat_le] using digit
  simp only [Text.isBlank, Text.blankRanges, List.any_eq_false, List.forall_mem_cons, Text.Range.contains,
    List.not_mem_nil, Bool.and_eq_true, decide_eq_true_eq, false_implies, implies_true, and_true]
  omega

theorem count?_eq_some_iff {w : List Char} {n : Nat} :
    count? w = some n ↔ ∃ sign digits, (sign = [] ∨ sign = ['+']) ∧ digits ≠ [] ∧ (∀ d ∈ digits, d.isDigit) ∧
      decimal digits < Nat.pow 2 64 ∧ w = sign ++ digits ∧ n = decimal digits := by
  unfold count?
  simp only [digitsValue_eq, Option.ite_none_right_eq_some, List.all_eq_true, Option.some.injEq]
  split
  · next digits =>
      constructor
      · rintro ⟨⟨some, all, small⟩, rfl⟩
        exact ⟨['+'], digits, .inr rfl, some, all, small, rfl, rfl⟩
      · rintro ⟨sign, digits', plus | plus, some, all, small, same, rfl⟩
        · -- a plus sign is no digit
          subst plus same
          exact absurd (all '+' (by simp)) (by decide)
        · subst plus
          cases same
          exact ⟨⟨some, all, small⟩, rfl⟩
  · next unsigned =>
      constructor
      · rintro ⟨⟨some, all, small⟩, rfl⟩
        exact ⟨[], w, .inl rfl, some, all, small, rfl, rfl⟩
      · rintro ⟨sign, digits', plus | plus, some, all, small, rfl, rfl⟩
        · subst plus
          exact ⟨⟨some, all, small⟩, rfl⟩
        · subst plus
          exact absurd rfl (unsigned digits')

/-- Dropping blanks stops at the first character that is none. -/
theorem dropWhile_isBlank {before rest : List Char} (blank : ∀ c ∈ before, Text.isBlank c)
    (stop : ∀ c ∈ rest.head?, Text.isBlank c = false) : (before ++ rest).dropWhile Text.isBlank = rest := by
  rw [List.dropWhile_append_of_pos blank]
  cases rest with
  | nil => rfl
  | cons c rest => exact List.dropWhile_cons_of_neg (by simp [stop c rfl])

theorem trim_eq {before w after : List Char} (blank : ∀ c ∈ before, Text.isBlank c)
    (blank' : ∀ c ∈ after, Text.isBlank c) (inked : ∀ c ∈ w, Text.isBlank c = false) (some : w ≠ []) :
    trim (before ++ w ++ after) = w := by
  have left : (before ++ (w ++ after)).dropWhile Text.isBlank = w ++ after := by
    refine dropWhile_isBlank blank fun c first => inked c ?_
    rw [List.head?_append_of_ne_nil _ some] at first
    exact List.mem_of_mem_head? first
  have right : (after.reverse ++ w.reverse).dropWhile Text.isBlank = w.reverse := by
    refine dropWhile_isBlank (fun c member => blank' c (List.mem_reverse.mp member)) fun c first => inked c ?_
    exact List.mem_reverse.mp (List.mem_of_mem_head? first)
  rw [trim, List.append_assoc, left, List.reverse_append, right, List.reverse_reverse]

theorem exists_trim (line : List Char) : ∃ before after, (∀ c ∈ before, Text.isBlank c) ∧
    (∀ c ∈ after, Text.isBlank c) ∧ line = before ++ trim line ++ after := by
  refine ⟨line.takeWhile Text.isBlank, ((line.dropWhile Text.isBlank).reverse.takeWhile Text.isBlank).reverse,
    fun c member => List.mem_takeWhile_imp member,
    fun c member => List.mem_takeWhile_imp (List.mem_reverse.mp member), ?_⟩
  rw [trim, List.append_assoc, ← List.reverse_append, List.takeWhile_append_dropWhile, List.reverse_reverse,
    List.takeWhile_append_dropWhile]

theorem count?_trim_iff {line : List Char} {n : Nat} : count? (trim line) = some n ↔ SpellsCount line n := by
  constructor
  · intro counted
    obtain ⟨before, after, blank, blank', split⟩ := exists_trim line
    obtain ⟨sign, digits, plus, some, all, small, w, rfl⟩ := count?_eq_some_iff.mp counted
    rw [split, w]
    exact .mk blank blank' plus some all small
  · rintro @⟨before, sign, digits, after, blank, blank', plus, some, all, small⟩
    have inked : ∀ c ∈ sign ++ digits, Text.isBlank c = false := by
      intro c member
      rcases List.mem_append.mp member with first | later
      · obtain rfl | rfl := plus
        · cases first
        · rw [List.mem_singleton.mp first]
          decide
      · exact not_isBlank_of_isDigit (all c later)
    rw [trim_eq blank blank' inked (by simp [some])]
    exact count?_eq_some_iff.mpr ⟨sign, digits, plus, some, all, small, rfl, rfl⟩

end Counts

theorem SpellsCount.lt {line : List Char} {n : Nat} : SpellsCount line n → n < Nat.pow 2 64
  | .mk _ _ _ _ _ small => small

theorem takeSection_eq_ok_iff {kind : Kind} {lines taken rest : List NumberedLine} :
    takeSection kind lines = .ok (taken, rest) ↔
      ∃ first, SpellsCount first.chars taken.length ∧ lines = first :: taken ++ rest := by
  cases lines with
  | nil => simp [takeSection]
  | cons first lines =>
      simp only [takeSection, List.cons_append, List.cons.injEq]
      constructor
      · intro took
        split at took
        · cases took
        · next n counted =>
            split at took
            · cases took
            · next enough =>
                cases took
                rw [List.length_take, Nat.min_eq_left (by omega)]
                exact ⟨first, count?_trim_iff.mp counted, rfl, (List.take_append_drop n lines).symm⟩
      · rintro ⟨_, counted, rfl, rfl⟩
        rw [count?_trim_iff.mpr counted]
        simp

variable {text : String} {asked : List LiteralPhrase} {told : List (List LiteralPhrase)}

theorem exists_forall₂ {α β : Type} {R : α → β → Prop} {as : List α} (each : ∀ a ∈ as, ∃ b, R a b) :
    ∃ bs, List.Forall₂ R as bs := by
  induction as with
  | nil => exact ⟨[], .nil⟩
  | cons a as ih =>
      obtain ⟨⟨b, first⟩, rest⟩ := List.forall_mem_cons.mp each
      obtain ⟨bs, others⟩ := ih rest
      exact ⟨b :: bs, .cons first others⟩

theorem exists_lines_of_readLines {kind : Kind} {b after : Builder} {lines : List NumberedLine}
    (read : readLines kind b lines = .ok after) :
    ∃ phrases, List.Forall₂ (fun line => SpellsLine kind (bare line)) (lines.map NumberedLine.chars) phrases := by
  refine exists_forall₂ (readLines_keeps
    (P := fun _ done => ∀ line ∈ done, ∃ phrases, SpellsLine kind (bare line) phrases) ?_ [] read (by simp))
  intro b after line done before read
  refine List.forall_mem_append.mpr ⟨before, List.forall_mem_singleton.mpr ?_⟩
  unfold readInto at read
  split at read
  · cases read
  · next phrases parsed => exact ⟨phrases, readLine_eq_ok_iff.mp parsed⟩

/-- A line of a query is one literal. -/
theorem exists_literals_of_readLines {b after : Builder} {lines : List NumberedLine}
    (read : readLines .query b lines = .ok after) :
    ∃ phrases, List.Forall₂ (fun line => SpellsLiteral (bare line)) (lines.map NumberedLine.chars) phrases := by
  obtain ⟨phrases, spelled⟩ := exists_lines_of_readLines read
  refine exists_forall₂ (forall_mem_of_forall₂ ?_ spelled.flip)
  intro phrases line spells
  obtain ⟨phrase, -, literal⟩ := spellsLine_query_iff.mp spells
  exact ⟨phrase, literal⟩

end Source

open Source

namespace Problem

variable {text : String} {asked : List LiteralPhrase} {told : List (List LiteralPhrase)}

/-- A text of the right form is read, as what its lines denote. -/
theorem denotes_of_spells (spells : SpellsProblem (contentLines text) asked told) :
    ∃ p, ofText text = .ok p ∧ p.Denotes asked told := by
  generalize content : contentLines text = lines at spells
  cases spells with
  | mk counted asks counted' tells =>
      rw [← chars_linesOf] at content
      obtain ⟨front, back, split, frontLines, backLines⟩ := List.map_eq_append_iff.mp content
      obtain ⟨first, queries, rfl, rfl, rfl⟩ := List.map_eq_cons_iff.mp frontLines
      obtain ⟨second, sentences, rfl, rfl, rfl⟩ := List.map_eq_cons_iff.mp backLines
      rw [List.length_map] at counted counted'
      rw [List.forall₂_map_left_iff] at asks tells
      obtain ⟨b, readQueries, holds⟩ := Builder.holds_empty.readQueries asks
      obtain ⟨b', readSentences, holds'⟩ := holds.readSentences tells
      refine ⟨b'.finish, ofText_eq_ok_iff.mpr ⟨queries, second :: sentences, sentences, b, b', ?_, readQueries, ?_,
        readSentences, rfl⟩, holds'.built⟩
      · exact takeSection_eq_ok_iff.mpr ⟨first, counted, split⟩
      · exact takeSection_eq_ok_iff.mpr ⟨second, counted', by rw [List.append_nil]⟩

theorem exists_spells_of_ofText {p : Problem} (read : ofText text = .ok p) :
    ∃ asked told, SpellsProblem (contentLines text) asked told := by
  obtain ⟨queries, rest, sentences, b, b', taken, readQueries, taken', readSentences, rfl⟩ := ofText_eq_ok_iff.mp read
  obtain ⟨first, counted, split⟩ := takeSection_eq_ok_iff.mp taken
  obtain ⟨second, counted', split'⟩ := takeSection_eq_ok_iff.mp taken'
  obtain ⟨asked, asks⟩ := exists_literals_of_readLines readQueries
  obtain ⟨told, tells⟩ := exists_lines_of_readLines readSentences
  refine ⟨asked, told, ?_⟩
  rw [← chars_linesOf, split, split', List.append_nil, List.map_append, List.map_cons, List.map_cons]
  refine .mk ?_ asks ?_ tells
  · rwa [List.length_map]
  · rwa [List.length_map]

/-- What is read is what the phrases of the text denote, however they were found. -/
theorem denotes_of_ofText {p : Problem} (read : ofText text = .ok p)
    (spells : SpellsProblem (contentLines text) asked told) : p.Denotes asked told := by
  obtain ⟨p', read', denotes⟩ := denotes_of_spells spells
  cases read.symm.trans read'
  exact denotes

/-- A text is read exactly if its lines that are not blank are a number of queries, the queries, a number of
sentences and the sentences; what is read asks and tells what the phrases of these lines denote. -/
theorem ofText_reads_format (text : String) :
    ((∃ p, ofText text = .ok p) ↔ ∃ asked told, SpellsProblem (contentLines text) asked told) ∧
      ∀ p asked told, ofText text = .ok p → SpellsProblem (contentLines text) asked told → p.Denotes asked told := by
  refine ⟨⟨?_, ?_⟩, ?_⟩
  · intro ⟨p, read⟩
    exact exists_spells_of_ofText read
  · intro ⟨asked, told, spells⟩
    obtain ⟨p, read, -⟩ := denotes_of_spells spells
    exact ⟨p, read⟩
  · intro p asked told read spells
    exact denotes_of_ofText read spells

/-- Blanks and an empty line, a plus sign, and variables that are mentioned in two lines and out of order. -/
def scattered : String := " +1\n\n~Owes( y , Bob )\n1\nOwes(y,x) | Paid(next(x) ,y)\n"

set_option maxRecDepth 4000 in
theorem scattered_reads :
    ∃ p, ofText scattered = .ok p ∧
      p.Denotes [⟨false, "Owes", [.name "y", .name "Bob"]⟩]
        [[⟨true, "Owes", [.name "y", .name "x"]⟩, ⟨true, "Paid", [.call "next" [.name "x"], .name "y"]⟩]] := by
  have lines : contentLines scattered =
      " +1".toList :: ["~Owes( y , Bob )".toList] ++ "1".toList :: ["Owes(y,x) | Paid(next(x) ,y)".toList] := by
    decide +kernel
  have spells : SpellsProblem (contentLines scattered) [⟨false, "Owes", [.name "y", .name "Bob"]⟩]
      [[⟨true, "Owes", [.name "y", .name "x"]⟩, ⟨true, "Paid", [.call "next" [.name "x"], .name "y"]⟩]] := by
    rw [lines]
    refine .mk (count?_trim_iff.mp (by decide +kernel)) ?_ (count?_trim_iff.mp (by decide +kernel)) ?_
    · refine .cons ?_ .nil
      have spelled : SpellsLine .query (bare "~Owes( y , Bob )".toList) [⟨false, "Owes", [.name "y", .name "Bob"]⟩] :=
        readLine_eq_ok_iff.mp rfl
      obtain ⟨phrase, same, literal⟩ := spellsLine_query_iff.mp spelled
      cases same
      exact literal
    · exact .cons (readLine_eq_ok_iff.mp rfl) .nil
  obtain ⟨p, read⟩ := (ofText_reads_format scattered).1.mpr ⟨_, _, spells⟩
  exact ⟨p, read, (ofText_reads_format scattered).2 p _ _ read spells⟩

end Problem

end Refutation
