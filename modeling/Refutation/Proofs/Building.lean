import Refutation.Proofs.Formed
import Refutation.Proofs.Transport
import Refutation.Source.Document

/-!
Whatever is built piece by piece, or read from a text, is formed over its symbol table: its clauses are made
of literals over the table, and its queries are such literals. The table grows while a problem is built, but a
name that is entered keeps its number, so a clause that was made earlier is the one that the last table makes.
-/

namespace Refutation

namespace Symbols

/-- Whether a table has all that is in another, in the same places. -/
structure Extends (large small : Symbols) : Prop where
  size : small.size ≤ large.size
  name : ∀ id < small.size, large.name id = small.name id

theorem Extends.refl (symbols : Symbols) : symbols.Extends symbols := ⟨Nat.le_refl _, fun _ _ => rfl⟩

theorem Extends.trans {small middle large : Symbols} (upper : large.Extends middle)
    (lower : middle.Extends small) : large.Extends small := by
  refine ⟨lower.size.trans upper.size, fun id known => ?_⟩
  rw [upper.name id (known.trans_le lower.size), lower.name id known]

theorem extends_intern (symbols : Symbols) (name : String) : (symbols.intern name).2.Extends symbols := by
  unfold intern
  split
  · exact .refl symbols
  · refine ⟨by simp [size], fun id known => ?_⟩
    have inside : id < symbols.names.size := known
    simp [Symbols.name, name?, Array.getElem?_push, inside, Nat.ne_of_lt inside]

theorem intern_lt (symbols : Symbols) (name : String) :
    (symbols.intern name).1 < (symbols.intern name).2.size := by
  unfold intern
  split
  · next id found =>
      obtain ⟨position, -, rfl⟩ := Option.map_eq_some_iff.mp found
      exact position.isLt
  · simp [size]

end Symbols

section Extension

variable {small large : Symbols}

theorem Term.Over.extend {t : Term} (inTable : t.Over small) (more : large.Extends small) : t.Over large :=
  fun id used => (inTable id used).trans_le more.size

theorem Literal.Over.extend {l : Literal} (inTable : l.Over small) (more : large.Extends small) :
    l.Over large :=
  Term.Over.extend inTable more

/-- A name that is entered keeps its number, so a larger table carries all that is over the smaller one. -/
theorem Literal.Over.carried {l : Literal} (inTable : l.Over small) (more : large.Extends small) :
    l.Carried (fun id => id) small large :=
  fun id used => ⟨inTable id used, more.name id (inTable id used)⟩

namespace Clause

/-- The clause of literals over a table is the clause of them in every larger one. -/
theorem ofLiterals_extend (more : large.Extends small) {literals : List Literal}
    (inTable : ∀ l ∈ literals, l.Over small) : ofLiterals large literals = ofLiterals small literals := by
  have unchanged : ∀ literals : List Literal, literals.map (Literal.renumber fun id => id) = literals := by
    intro literals
    rw [List.map_congr_left (g := id) fun l _ => l.renumber_id, List.map_id]
  have images := literals_ofLiterals_renumber fun l member => (inTable l member).carried more
  rw [unchanged, unchanged] at images
  exact ext_literals images

theorem Formed.extend {c : Clause} (formed : c.Formed small) (more : large.Extends small) : c.Formed large := by
  obtain ⟨literals, inTable, same⟩ := formed
  refine ⟨literals, fun l member => (inTable l member).extend more, ?_⟩
  rwa [ofLiterals_extend more inTable]

end Clause

end Extension

/-- What every line that is read keeps is kept by all, also if it speaks of the lines that were read. -/
theorem Source.readLines_keeps {P : Builder → List (List Char) → Prop} {kind : Kind} {b after : Builder}
    {lines : List NumberedLine}
    (step : ∀ {b after : Builder} {line : NumberedLine} {done : List (List Char)}, P b done →
      readInto kind b line = .ok after → P after (done ++ [line.chars]))
    (done : List (List Char)) (read : readLines kind b lines = .ok after) (start : P b done) :
    P after (done ++ lines.map NumberedLine.chars) := by
  induction lines generalizing b done with
  | nil =>
      cases read
      rwa [List.map_nil, List.append_nil]
  | cons line lines ih =>
      unfold readLines at read
      split at read
      · next first =>
          have rest := ih _ read (step start first)
          rwa [List.append_assoc] at rest
      · cases read

/-- Whether all that is built so far, and the literals at hand, are over the symbol table. -/
structure Builder.Formed (b : Builder) : Prop where
  clauses : ∀ c ∈ b.clauses, c.Formed b.symbols
  queries : ∀ l ∈ b.queries, l.Over b.symbols
  pending : ∀ l ∈ b.pending, l.Over b.symbols

namespace Builder

variable {b : Builder}

theorem formed_empty : empty.Formed :=
  ⟨fun _ member => absurd member List.not_mem_nil, fun _ member => absurd member List.not_mem_nil,
    fun _ member => absurd member List.not_mem_nil⟩

/-- A larger table forms what was formed. -/
theorem Formed.grow (formed : b.Formed) {symbols : Symbols} (more : symbols.Extends b.symbols) :
    Formed { b with symbols } where
  clauses := fun c member => (formed.clauses c member).extend more
  queries := fun l member => (formed.queries l member).extend more
  pending := fun l member => (formed.pending l member).extend more

theorem Formed.literal (formed : b.Formed) (positive : Bool) (name : String) {args : List Term}
    (inTable : ∀ t ∈ args, t.Over b.symbols) : (b.literal positive name args).Formed := by
  have grown := formed.grow (b.symbols.extends_intern name)
  refine ⟨grown.clauses, grown.queries, fun l member => ?_⟩
  rcases List.mem_append.mp member with old | new
  · exact grown.pending l old
  · rw [List.mem_singleton.mp new]
    refine Term.over_app.mpr ⟨b.symbols.intern_lt name, fun t inside => ?_⟩
    exact (inTable t inside).extend (b.symbols.extends_intern name)

theorem Formed.clause (formed : b.Formed) : b.clause.Formed where
  clauses := by
    intro c member
    rcases List.mem_append.mp member with old | new
    · exact formed.clauses c old
    · rw [List.mem_singleton.mp new]
      exact Clause.formed_ofLiterals formed.pending
  queries := formed.queries
  pending := fun _ member => absurd member List.not_mem_nil

theorem Formed.query? (formed : b.Formed) {after : Builder} (made : b.query? = some after) :
    after.Formed := by
  unfold Builder.query? at made
  split at made
  · next literal single =>
      cases made
      refine ⟨formed.clauses, fun l member => ?_, fun _ member => absurd member List.not_mem_nil⟩
      rcases List.mem_append.mp member with old | new
      · exact formed.queries l old
      · rw [List.mem_singleton.mp new]
        exact formed.pending literal (single ▸ List.mem_singleton_self literal)
  · cases made

theorem Formed.finish (formed : b.Formed) :
    b.finish.Formed ∧ ∀ query ∈ b.finish.queries, query.Over b.finish.symbols :=
  ⟨formed.clauses, formed.queries⟩

open Source

mutual

/-- What a phrase denotes is over the table that it leaves, and that table is no smaller. -/
theorem denote_formed {b : Builder} (formed : b.Formed) (phrase : Phrase) :
    (b.denote phrase).2.Formed ∧ (b.denote phrase).2.symbols.Extends b.symbols ∧
      (b.denote phrase).1.Over (b.denote phrase).2.symbols := by
  cases phrase with
  | name text =>
      unfold denote
      split
      · have more := b.symbols.extends_intern text
        exact ⟨formed.grow more, more, Term.over_const.mpr (b.symbols.intern_lt text)⟩
      · exact ⟨⟨formed.clauses, formed.queries, formed.pending⟩, .refl _, Term.over_var _⟩
  | call function args =>
      obtain ⟨formedArgs, moreArgs, overArgs⟩ := denoteAll_formed formed args
      have more := (b.denoteAll args).2.symbols.extends_intern function
      unfold denote
      refine ⟨formedArgs.grow more, more.trans moreArgs, Term.over_app.mpr ⟨?_, fun t inside => ?_⟩⟩
      · exact (b.denoteAll args).2.symbols.intern_lt function
      · exact (overArgs t inside).extend more

theorem denoteAll_formed {b : Builder} (formed : b.Formed) (phrases : List Phrase) :
    (b.denoteAll phrases).2.Formed ∧ (b.denoteAll phrases).2.symbols.Extends b.symbols ∧
      ∀ t ∈ (b.denoteAll phrases).1, t.Over (b.denoteAll phrases).2.symbols := by
  cases phrases with
  | nil => exact ⟨formed, .refl _, fun _ member => absurd member List.not_mem_nil⟩
  | cons phrase phrases =>
      obtain ⟨formedFirst, moreFirst, overFirst⟩ := denote_formed formed phrase
      obtain ⟨formedRest, moreRest, overRest⟩ := denoteAll_formed formedFirst phrases
      refine ⟨formedRest, moreRest.trans moreFirst, fun t member => ?_⟩
      rcases List.mem_cons.mp member with rfl | later
      · exact overFirst.extend moreRest
      · exact overRest t later

end

theorem Formed.addPhrases (formed : b.Formed) (phrases : List LiteralPhrase) :
    (phrases.foldl addPhrase b).Formed := by
  induction phrases generalizing b with
  | nil => exact formed
  | cons phrase phrases ih =>
      obtain ⟨formedArgs, -, inTable⟩ := denoteAll_formed formed phrase.args
      exact ih (formedArgs.literal phrase.positive phrase.predicate inTable)

theorem Formed.readInto (formed : b.Formed) {kind : Kind} {line : NumberedLine} {after : Builder}
    (read : Source.readInto kind b line = .ok after) : after.Formed := by
  unfold Source.readInto at read
  split at read
  · cases read
  · next literals _ =>
      have added := formed.addPhrases literals
      cases kind with
      | sentence =>
          cases read
          exact added.clause
      | query =>
          dsimp only at read
          split at read
          · next made =>
              cases read
              exact added.query? made
          · cases read

theorem Formed.readLines (formed : b.Formed) {kind : Kind} {lines : List NumberedLine} {after : Builder}
    (read : Source.readLines kind b lines = .ok after) : after.Formed :=
  readLines_keeps (P := fun b _ => b.Formed) (fun before read => before.readInto read) [] read formed

end Builder

open Source in
/-- A text is read if it has its queries, then its sentences, and nothing more. -/
theorem Problem.ofText_eq_ok_iff {text : String} {p : Problem} : Problem.ofText text = .ok p ↔
    ∃ (queries rest sentences : List NumberedLine) (asked told : Builder),
      takeSection .query (linesOf text) = .ok (queries, rest) ∧ readLines .query .empty queries = .ok asked ∧
      takeSection .sentence rest = .ok (sentences, []) ∧ readLines .sentence asked sentences = .ok told ∧
      told.finish = p := by
  constructor
  · intro read
    unfold Problem.ofText at read
    simp only [bind, Except.bind] at read
    split at read
    · cases read
    next queries takenQueries =>
      split at read
      · cases read
      next asked readQueries =>
        split at read
        · cases read
        next sentences takenSentences =>
          split at read
          · cases read
          next told readSentences =>
            split at read
            · next nothing =>
                cases read
                exact ⟨queries.1, queries.2, sentences.1, asked, told, takenQueries, readQueries,
                  by rw [takenSentences, ← nothing], readSentences, rfl⟩
            · cases read
  · rintro ⟨queries, rest, sentences, asked, told, takenQueries, readQueries, takenSentences, readSentences, rfl⟩
    simp only [Problem.ofText, bind, Except.bind, takenQueries, readQueries, takenSentences, readSentences]

theorem Problem.exists_ofText (text : String) (accepted : (Problem.ofText text).isOk = true) :
    ∃ p, Problem.ofText text = .ok p := by
  cases read : Problem.ofText text with
  | ok p => exact ⟨p, rfl⟩
  | error error =>
      rw [read] at accepted
      cases accepted

/-- A problem that is read from a text is formed, and its queries are over its symbol table. -/
theorem Problem.formed_ofText {text : String} {p : Problem} (read : Problem.ofText text = .ok p) :
    p.Formed ∧ ∀ query ∈ p.queries, query.Over p.symbols := by
  obtain ⟨_, _, _, asked, told, -, readQueries, -, readSentences, rfl⟩ := ofText_eq_ok_iff.mp read
  exact ((Builder.formed_empty.readLines readQueries).readLines readSentences).finish

end Refutation
