import Refutation.Proofs.Acceptance

/-!
Where reading stops. From every place in a line some text leads to the end of a line, so what was read so far is always
the beginning of a line of the grammar. A character that leads nowhere is therefore the first after which no line goes
on, and a line that ends too early is the beginning of another one. A text is read up to the first line of a section
that is not of the grammar, and the error names that line by its number among all lines, blank ones included.
-/

namespace Refutation

namespace Source

/-- Whether characters are a line of a kind. -/
def Grammatical (kind : Kind) (w : List Char) : Prop := ∃ phrases, SpellsLine kind w phrases

/-- Whether some line of a kind begins with the characters. -/
def Viable (kind : Kind) (w : List Char) : Prop := ∃ line, Grammatical kind line ∧ w <+: line

/-- Whether a mismatch is where the characters leave the grammar: at a character that no line has after those before it,
or at the end if they only begin a line. -/
def Mismatch.Pinpoints (kind : Kind) (w : List Char) (m : Mismatch) : Prop :=
  match m.found with
  | some c => w[m.position]? = some c ∧ Viable kind (w.take m.position) ∧ ¬ Viable kind (w.take (m.position + 1))
  | none => m.position = w.length ∧ (∃ line, Grammatical kind line ∧ w <+: line ∧ w ≠ line) ∧ ¬ Grammatical kind w

namespace Continuation

section Completion

variable (kind : Kind) (literals : List LiteralPhrase) (positive : Bool)

theorem isName_letter : IsName ['x'] := ⟨by decide +kernel, by simp⟩

theorem exists_complete : ∃ w all, complete kind literals w all := ⟨[], _, [], .done, rfl⟩

theorem exists_afterArg_of_closed {outer : List Frame} {frame : Frame}
    (closes : ∃ w all, closed kind literals positive outer (frame.extend []) w all) :
    ∃ w all, afterArg kind literals positive outer frame w all := by
  obtain ⟨w, all, rest⟩ := closes
  exact ⟨[')'] ++ w, all, [')'], w, [], rfl, .close, rest⟩

/-- Open parentheses can be closed, from the innermost outwards. -/
theorem exists_closed (outer : List Frame) (frame : Frame) :
    ∃ w all, closed kind literals positive outer frame w all := by
  induction outer generalizing frame with
  | nil => exact exists_complete kind _
  | cons around outer ih => exact exists_afterArg_of_closed kind literals positive (ih _)

theorem exists_afterArg (outer : List Frame) (frame : Frame) :
    ∃ w all, afterArg kind literals positive outer frame w all :=
  exists_afterArg_of_closed kind literals positive (exists_closed kind literals positive outer _)

theorem exists_nextArg (outer : List Frame) (frame : Frame) :
    ∃ w all, nextArg kind literals positive outer frame w all := by
  obtain ⟨w, all, rest⟩ := exists_afterArg kind literals positive outer (frame.push (.name (String.ofList ['x'])))
  exact ⟨['x'] ++ w, all, ['x'], w, _, rfl, .name isName_letter, rest⟩

theorem exists_firstArg (outer : List Frame) (frame : Frame) :
    ∃ w all, firstArg kind literals positive outer frame w all := by
  obtain ⟨w, all, rest⟩ := exists_closed kind literals positive outer (frame.extend [])
  exact ⟨[')'] ++ w, all, [')'], w, [], rfl, .none, rest⟩

theorem exists_argName (outer : List Frame) (frame : Frame) (name : String) :
    ∃ w all, argName kind literals positive outer frame name w all := by
  obtain ⟨w, all, rest⟩ := exists_afterArg kind literals positive outer
    (frame.push (.name (name ++ String.ofList [])))
  exact ⟨w, all, [], w, rfl, by simp, .inl rest⟩

theorem exists_predicate (name : String) : ∃ w all, predicate kind literals positive name w all := by
  obtain ⟨w, all, rest⟩ := exists_firstArg kind literals positive [] ⟨name ++ String.ofList [], []⟩
  exact ⟨'(' :: w, all, [], w, rfl, by simp, rest⟩

theorem exists_named : ∃ w all, named kind literals positive w all := by
  obtain ⟨w, all, rest⟩ := exists_firstArg kind literals positive [] ⟨String.ofList ['x'], []⟩
  exact ⟨['x'] ++ '(' :: w, all, ['x'], w, rfl, isName_letter, rest⟩

end Completion

end Continuation

namespace Reading

open Continuation

variable {kind : Kind} {r next : Reading} {c : Char} {w : List Char} {all : List LiteralPhrase}

/-- Every place in a line can be led to the end of one. -/
theorem exists_goes (kind : Kind) (r : Reading) : ∃ w all, r.Goes kind w all := by
  obtain ⟨literals, place⟩ := r
  cases place with
  | start =>
      obtain ⟨w, all, rest⟩ := exists_named kind literals true
      exact ⟨w, all, start_iff.mpr (.inl rest)⟩
  | signed => exact exists_named kind literals false
  | inPredicate positive name => exact exists_predicate kind literals positive name
  | inArgs positive outer frame inner =>
      cases inner with
      | first => exact exists_firstArg kind literals positive outer frame
      | next => exact exists_nextArg kind literals positive outer frame
      | inName name => exact exists_argName kind literals positive outer frame name
      | closed => exact exists_afterArg kind literals positive outer frame
  | complete => exact exists_complete kind literals

theorem goes_cons_of_step (step : r.step kind c = .ok next) : r.Goes kind (c :: w) all ↔ next.Goes kind w all := by
  rw [goes_cons_iff, step]
  simp

theorem goes_begin_iff : begin.Goes kind w all ↔ SpellsLine kind w all := by
  rw [← readLine_eq_ok_iff, readLine, readFrom_eq_ok_iff]

end Reading

/-- Reading stops behind some characters, at a place from which the next one leads nowhere, or no line ends. -/
theorem exists_place_of_error {kind : Kind} {r : Reading} {position : Nat} {w : List Char} {m : Mismatch}
    (stuck : readFrom kind r position w = .error m) :
    ∃ (done : List Char) (place : Reading), (∀ v all, r.Goes kind (done ++ v) all ↔ place.Goes kind v all) ∧
      m.position = position + done.length ∧
      ((∃ c rest, w = done ++ c :: rest ∧ m.found = some c ∧ ∀ v all, ¬ place.Goes kind (c :: v) all) ∨
        w = done ∧ m.found = none ∧ ∀ all, ¬ place.Goes kind [] all) := by
  induction w generalizing r position with
  | nil =>
      rw [readFrom] at stuck
      cases ends : r.finish with
      | ok literals => simp [ends] at stuck
      | error expected =>
          simp only [ends, Except.error.injEq] at stuck
          subst stuck
          refine ⟨[], r, fun _ _ => Iff.rfl, rfl, .inr ⟨rfl, rfl, fun all goes => ?_⟩⟩
          rw [r.goes_nil_iff, ends] at goes
          cases goes
  | cons c w ih =>
      rw [readFrom] at stuck
      cases step : r.step kind c with
      | error expected =>
          simp only [step, Except.error.injEq] at stuck
          subst stuck
          refine ⟨[], r, fun _ _ => Iff.rfl, rfl, .inl ⟨c, w, rfl, rfl, fun v all goes => ?_⟩⟩
          rw [r.goes_cons_iff, step] at goes
          obtain ⟨next, stuck, -⟩ := goes
          cases stuck
      | ok next =>
          simp only [step] at stuck
          obtain ⟨done, place, leads, behind, stops⟩ := ih stuck
          refine ⟨c :: done, place, fun v all => (Reading.goes_cons_of_step step).trans (leads v all), ?_, ?_⟩
          · rw [behind, List.length_cons]
            omega
          · rcases stops with ⟨d, rest, rfl, rest'⟩ | ⟨rfl, rest'⟩
            · exact .inl ⟨d, rest, rfl, rest'⟩
            · exact .inr ⟨rfl, rest'⟩

theorem pinpoints_of_readLine {kind : Kind} {w : List Char} {m : Mismatch} (stuck : readLine kind w = .error m) :
    m.Pinpoints kind w := by
  obtain ⟨done, place, leads, position, stops⟩ := exists_place_of_error stuck
  rw [Nat.zero_add] at position
  obtain ⟨v, all, completes⟩ := place.exists_goes kind
  have completed : SpellsLine kind (done ++ v) all := Reading.goes_begin_iff.mp ((leads v all).mpr completes)
  unfold Mismatch.Pinpoints
  rcases stops with ⟨c, rest, rfl, found, nowhere⟩ | ⟨rfl, found, never⟩
  · simp only [found, position]
    refine ⟨by simp, ⟨done ++ v, ⟨all, completed⟩, by simp⟩, ?_⟩
    rintro ⟨line, ⟨phrases, spells⟩, v', whole⟩
    refine nowhere v' phrases ((leads _ _).mp (Reading.goes_begin_iff.mpr ?_))
    rwa [← whole, List.take_length_add_append, List.append_assoc] at spells
  · simp only [found]
    refine ⟨position, ⟨w ++ v, ⟨all, completed⟩, List.prefix_append _ _, fun same => ?_⟩, ?_⟩
    · rw [List.self_eq_append_right.mp same] at completes
      exact never all completes
    · rintro ⟨phrases, spells⟩
      refine never phrases ((leads _ _).mp (Reading.goes_begin_iff.mpr ?_))
      rwa [List.append_nil]

theorem not_grammatical_iff {kind : Kind} {w : List Char} :
    ¬ Grammatical kind w ↔ ∃ m, readLine kind w = .error m := by
  simp only [Grammatical, ← readLine_eq_ok_iff]
  cases readLine kind w <;> simp

/-- The lines of a text by their numbers: the first is number one, and blank lines count. -/
def IsLine (text : String) (number : Nat) (line : List Char) : Prop :=
  ∃ i, number = i + 1 ∧ (text.toList.splitOn '\n')[i]? = some line

theorem isLine_of_mem_linesOf {text : String} {line : NumberedLine} (member : line ∈ linesOf text) :
    IsLine text line.number line.chars := by
  obtain ⟨i, inside, rfl⟩ := List.mem_mapIdx.mp (List.mem_filter.mp member).1
  refine ⟨i, rfl, ?_⟩
  rw [← splitLines_eq, List.getElem?_eq_getElem inside]

/-- A section of a text: a line that counts, as many lines as it says, and the lines behind them. -/
def IsSection (lines taken rest : List NumberedLine) : Prop :=
  ∃ first : NumberedLine, SpellsCount first.chars taken.length ∧ lines = first :: taken ++ rest

/-- The lines that are read as queries or as sentences: lines of a section, where all lines of that kind before them,
and all queries before a sentence, are of the grammar. -/
inductive Reached (text : String) : Kind → NumberedLine → Prop
  | query {line : NumberedLine} {before after rest : List NumberedLine} :
      IsSection (linesOf text) (before ++ line :: after) rest →
      (∀ l ∈ before, Grammatical .query (bare l.chars)) → Reached text .query line
  | sentence {line : NumberedLine} {queries before after rest rest' : List NumberedLine} :
      IsSection (linesOf text) queries rest → (∀ l ∈ queries, Grammatical .query (bare l.chars)) →
      IsSection rest (before ++ line :: after) rest' →
      (∀ l ∈ before, Grammatical .sentence (bare l.chars)) → Reached text .sentence line

theorem Reached.mem_linesOf {text : String} {kind : Kind} {line : NumberedLine} (reached : Reached text kind line) :
    line ∈ linesOf text := by
  cases reached with
  | query taken _ =>
      obtain ⟨first, -, split⟩ := taken
      simp [split]
  | sentence taken _ taken' _ =>
      obtain ⟨first, -, split⟩ := taken
      obtain ⟨second, -, split'⟩ := taken'
      simp [split, split']

/-- Lines are read up to the first that is refused. -/
theorem readLines_eq_error_iff {kind : Kind} {b : Builder} {lines : List NumberedLine} {error : InputError} :
    readLines kind b lines = .error error ↔ ∃ before line after between, lines = before ++ line :: after ∧
      readLines kind b before = .ok between ∧ readInto kind between line = .error error := by
  induction lines generalizing b with
  | nil => simp [readLines]
  | cons first lines ih =>
      rw [readLines]
      constructor
      · intro stopped
        cases read : readInto kind b first with
        | error other =>
            rw [read] at stopped
            cases stopped
            exact ⟨[], first, lines, b, rfl, rfl, read⟩
        | ok middle =>
            rw [read] at stopped
            obtain ⟨before, line, after, between, rfl, reads, refused⟩ := ih.mp stopped
            refine ⟨first :: before, line, after, between, rfl, ?_, refused⟩
            rw [readLines, read]
            exact reads
      · rintro ⟨before, line, after, between, split, reads, refused⟩
        cases before with
        | nil =>
            obtain ⟨rfl, rfl⟩ := List.cons.inj split
            cases reads
            rw [refused]
        | cons first' before =>
            obtain ⟨rfl, rfl⟩ := List.cons.inj split
            rw [readLines] at reads
            cases read : readInto kind b first with
            | error other =>
                rw [read] at reads
                cases reads
            | ok middle =>
                rw [read] at reads
                exact ih.mpr ⟨before, line, after, between, rfl, reads, refused⟩

theorem readInto_eq_malformed_iff {kind : Kind} {b : Builder} {line : NumberedLine} {number : Nat} {m : Mismatch} :
    readInto kind b line = .error (.malformed number m) ↔
      line.number = number ∧ readLine kind (bare line.chars) = .error m := by
  unfold readInto
  rw [← bare]
  cases readLine kind (bare line.chars) with
  | error other => simp
  | ok phrases =>
      cases kind with
      | sentence => simp
      | query =>
          simp only
          split <;> simp

theorem takeSection_ne_malformed (kind : Kind) (lines : List NumberedLine) (number : Nat) (m : Mismatch) :
    takeSection kind lines ≠ .error (.malformed number m) := by
  cases lines with
  | nil => simp [takeSection]
  | cons first lines =>
      rw [takeSection]
      split
      · simp
      · split <;> simp

end Source

open Source

namespace Problem

variable {text : String} {number : Nat} {m : Mismatch}

/-- A text is refused for a malformed line if reading its queries is, or that of its sentences. -/
theorem ofText_eq_malformed_iff : ofText text = .error (.malformed number m) ↔
    ∃ queries rest, takeSection .query (linesOf text) = .ok (queries, rest) ∧
      (readLines .query .empty queries = .error (.malformed number m) ∨
        ∃ asked sentences rest', readLines .query .empty queries = .ok asked ∧
          takeSection .sentence rest = .ok (sentences, rest') ∧
          readLines .sentence asked sentences = .error (.malformed number m)) := by
  have counted := takeSection_ne_malformed
  unfold ofText
  simp only [bind, Except.bind]
  cases taken : takeSection .query (linesOf text) with
  | error error =>
      have other := counted .query (linesOf text) number m
      simp_all
  | ok first =>
      obtain ⟨queries, rest⟩ := first
      cases asked : readLines .query .empty queries with
      | error error => simp [asked]
      | ok b =>
          cases taken' : takeSection .sentence rest with
          | error error =>
              have other := counted .sentence rest number m
              simp_all
          | ok second =>
              obtain ⟨sentences, rest'⟩ := second
              cases told : readLines .sentence b sentences with
              | error error => simp [asked, taken', told]
              | ok b' => cases rest' <;> simp [asked, taken', told]

/-- Queries of the grammar are read. -/
theorem exists_readQueries {lines : List NumberedLine} (grammatical : ∀ l ∈ lines, Grammatical .query (bare l.chars)) :
    ∃ b asked, readLines .query .empty lines = .ok b ∧ b.Holds asked [] := by
  have literals : ∀ l ∈ lines, ∃ phrase, SpellsLiteral (bare l.chars) phrase := by
    intro l member
    obtain ⟨phrases, spells⟩ := grammatical l member
    obtain ⟨phrase, -, literal⟩ := spellsLine_query_iff.mp spells
    exact ⟨phrase, literal⟩
  obtain ⟨asked, spelled⟩ := exists_forall₂ literals
  obtain ⟨b, reads, holds⟩ := Builder.holds_empty.readQueries spelled
  exact ⟨b, _, reads, holds⟩

/-- What was read is of the grammar. -/
theorem grammatical_of_readLines {kind : Kind} {b after : Builder} {lines : List NumberedLine}
    (read : readLines kind b lines = .ok after) : ∀ l ∈ lines, Grammatical kind (bare l.chars) := by
  obtain ⟨phrases, spelled⟩ := exists_lines_of_readLines read
  rw [List.forall₂_map_left_iff] at spelled
  exact forall_mem_of_forall₂ (fun phrases line spells => ⟨phrases, spells⟩) spelled.flip

/-- A text is refused for a malformed line exactly if a line that is reached cannot be read. -/
theorem malformed_iff_reached : ofText text = .error (.malformed number m) ↔
    ∃ kind line, Reached text kind line ∧ line.number = number ∧ readLine kind (bare line.chars) = .error m := by
  rw [ofText_eq_malformed_iff]
  constructor
  · rintro ⟨queries, rest, taken, stopped | ⟨asked, sentences, rest', reads, taken', stopped⟩⟩
    · obtain ⟨before, line, after, between, rfl, earlier, refused⟩ := readLines_eq_error_iff.mp stopped
      exact ⟨.query, line, .query (takeSection_eq_ok_iff.mp taken) (grammatical_of_readLines earlier),
        readInto_eq_malformed_iff.mp refused⟩
    · obtain ⟨before, line, after, between, rfl, earlier, refused⟩ := readLines_eq_error_iff.mp stopped
      exact ⟨.sentence, line, .sentence (takeSection_eq_ok_iff.mp taken) (grammatical_of_readLines reads)
        (takeSection_eq_ok_iff.mp taken') (grammatical_of_readLines earlier), readInto_eq_malformed_iff.mp refused⟩
  · rintro ⟨kind, line, reached, refused⟩
    cases reached with
    | query taken grammatical =>
        obtain ⟨b, -, reads, -⟩ := exists_readQueries grammatical
        exact ⟨_, _, takeSection_eq_ok_iff.mpr taken,
          .inl (readLines_eq_error_iff.mpr ⟨_, line, _, b, rfl, reads, readInto_eq_malformed_iff.mpr refused⟩)⟩
    | sentence taken grammatical taken' grammatical' =>
        obtain ⟨b, asked, reads, holds⟩ := exists_readQueries grammatical
        obtain ⟨told, spelled⟩ := exists_forall₂ grammatical'
        obtain ⟨b', reads', -⟩ := holds.readSentences spelled
        exact ⟨_, _, takeSection_eq_ok_iff.mpr taken, .inr ⟨b, _, _, reads, takeSection_eq_ok_iff.mpr taken',
          readLines_eq_error_iff.mpr ⟨_, line, _, b', rfl, reads', readInto_eq_malformed_iff.mpr refused⟩⟩⟩

/-- Syntax errors point at the first offending character. A line that is read as a query or a sentence, and is not of
the grammar, makes the text refused with the number of that line among all lines. The mismatch that is reported is at
a character where the characters before it begin some line of the kind but with it they do not, or it is at the end of
a line that only begins another one. No other line is reported so. -/
theorem malformed_pinpoints (text : String) :
    (∀ kind line, Reached text kind line → ¬ Grammatical kind (bare line.chars) →
      IsLine text line.number line.chars ∧
        ∃ m : Mismatch, ofText text = .error (.malformed line.number m) ∧ m.Pinpoints kind (bare line.chars)) ∧
    ∀ number m, ofText text = .error (.malformed number m) →
      ∃ kind line, Reached text kind ⟨number, line⟩ ∧ ¬ Grammatical kind (bare line) ∧ IsLine text number line ∧
        m.Pinpoints kind (bare line) := by
  constructor
  · intro kind line reached ungrammatical
    obtain ⟨m, read⟩ := not_grammatical_iff.mp ungrammatical
    exact ⟨isLine_of_mem_linesOf reached.mem_linesOf, m, malformed_iff_reached.mpr ⟨kind, line, reached, rfl, read⟩,
      pinpoints_of_readLine read⟩
  · intro number m refused
    obtain ⟨kind, line, reached, rfl, read⟩ := malformed_iff_reached.mp refused
    exact ⟨kind, line.chars, reached, not_grammatical_iff.mpr ⟨m, read⟩, isLine_of_mem_linesOf reached.mem_linesOf,
      pinpoints_of_readLine read⟩

/-- A blank line, and in the last line a comma that no argument follows. -/
def trailed : String := "0\n\n2\nP(A)\n~Q(f(x) , y) | R(A,)\n"

set_option maxRecDepth 4000 in
theorem reached_trailed : Reached trailed .sentence ⟨5, "~Q(f(x) , y) | R(A,)".toList⟩ := by
  have lines : linesOf trailed = [⟨1, "0".toList⟩, ⟨3, "2".toList⟩, ⟨4, "P(A)".toList⟩,
      ⟨5, "~Q(f(x) , y) | R(A,)".toList⟩] := rfl
  have queries : IsSection (linesOf trailed) [] [⟨3, "2".toList⟩, ⟨4, "P(A)".toList⟩,
      ⟨5, "~Q(f(x) , y) | R(A,)".toList⟩] := ⟨⟨1, "0".toList⟩, count?_trim_iff.mp (by decide +kernel), lines⟩
  have sentences : IsSection [⟨3, "2".toList⟩, ⟨4, "P(A)".toList⟩, ⟨5, "~Q(f(x) , y) | R(A,)".toList⟩]
      ([⟨4, "P(A)".toList⟩] ++ [⟨5, "~Q(f(x) , y) | R(A,)".toList⟩]) [] :=
    ⟨⟨3, "2".toList⟩, count?_trim_iff.mp (by decide +kernel), rfl⟩
  refine .sentence queries (by simp) sentences (List.forall_mem_singleton.mpr ?_)
  exact ⟨_, readLine_eq_ok_iff.mp rfl⟩

/-- A query that ends within its arguments. -/
def unclosed : String := "1\n~P(x\n0\n"

theorem reached_unclosed : Reached unclosed .query ⟨2, "~P(x".toList⟩ := by
  have lines : linesOf unclosed = [⟨1, "1".toList⟩, ⟨2, "~P(x".toList⟩, ⟨3, "0".toList⟩] := rfl
  have queries : IsSection (linesOf unclosed) ([] ++ [⟨2, "~P(x".toList⟩]) [⟨3, "0".toList⟩] :=
    ⟨⟨1, "1".toList⟩, count?_trim_iff.mp (by decide +kernel), lines⟩
  exact .query queries (by simp)

set_option maxRecDepth 4000 in
/-- In line 5 the parenthesis behind the comma is the first character that is out of place, and in line 2 the end of the
query is. -/
theorem malformed_trailed_unclosed :
    (Reached trailed .sentence ⟨5, "~Q(f(x) , y) | R(A,)".toList⟩ ∧
      ¬ Grammatical .sentence (bare "~Q(f(x) , y) | R(A,)".toList) ∧
      IsLine trailed 5 "~Q(f(x) , y) | R(A,)".toList ∧ ∃ m : Mismatch, ofText trailed = .error (.malformed 5 m) ∧
        m.Pinpoints .sentence (bare "~Q(f(x) , y) | R(A,)".toList)) ∧
    ofText unclosed = .error (.malformed 2 ⟨4, .character ',', none⟩) ∧
    ∃ kind line, Reached unclosed kind ⟨2, line⟩ ∧ ¬ Grammatical kind (bare line) ∧ IsLine unclosed 2 line ∧
      Mismatch.Pinpoints kind (bare line) ⟨4, .character ',', none⟩ := by
  have ungrammatical : ¬ Grammatical .sentence (bare "~Q(f(x) , y) | R(A,)".toList) :=
    not_grammatical_iff.mpr ⟨⟨15, .name, some ')'⟩, rfl⟩
  have refused : ofText unclosed = .error (.malformed 2 ⟨4, .character ',', none⟩) :=
    malformed_iff_reached.mpr ⟨.query, _, reached_unclosed, rfl, rfl⟩
  exact ⟨⟨reached_trailed, ungrammatical, (malformed_pinpoints trailed).1 _ _ reached_trailed ungrammatical⟩, refused,
    (malformed_pinpoints unclosed).2 _ _ refused⟩

end Problem

end Refutation
