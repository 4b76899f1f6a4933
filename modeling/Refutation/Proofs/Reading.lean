import Mathlib.Logic.Equiv.Fintype
import Mathlib.Logic.Equiv.List
import Refutation.Proofs.Building
import Refutation.Proofs.Renumbering

/-!
What the lines of a text say. A symbol table numbers names in the order in which they are met, so the literals
that are read from a line depend on what was read before it. They do not if every symbol is renumbered by the
code of its name: a line says the same in every text. The queries of a problem that is read are what its query
lines say, and its clauses are what its sentence lines say.
-/

namespace Refutation

/-- A number for every name. -/
def nameCode (name : String) : Nat := Encodable.encode (name.toList.map Char.toNat)

theorem nameCode_injective : Function.Injective nameCode := by
  intro s t same
  have distinct : Function.Injective Char.toNat := fun _ _ => Char.toNat_inj.mp
  exact String.toList_inj.mp (distinct.list_map (Encodable.encode_injective same))

namespace Symbols

/-- The code of the name of a symbol. -/
def code (symbols : Symbols) (id : SymbolId) : SymbolId := nameCode (symbols.name id)

/-- The symbols of a table get the codes of their names by a permutation of all numbers. -/
theorem exists_perm_code (symbols : Symbols) :
    ∃ π : Equiv.Perm SymbolId, ∀ id < symbols.size, π id = symbols.code id := by
  have injective : Function.Injective fun id : Fin symbols.size => symbols.code id := fun c d same =>
    Fin.ext (name_inj c.isLt d.isLt (nameCode_injective same))
  obtain ⟨π, placed⟩ := Equiv.Perm.exists_extending_pair (fun id : Fin symbols.size => (id : SymbolId)) _
    Fin.val_injective injective
  exact ⟨π, fun id known => placed ⟨id, known⟩⟩

theorem name_intern (symbols : Symbols) (name : String) :
    (symbols.intern name).2.name (symbols.intern name).1 = name := by
  unfold intern
  split
  · next found =>
      obtain ⟨position, located, rfl⟩ := Option.map_eq_some_iff.mp found
      have here : symbols.names[position.val] = name := (Array.finIdxOf?_eq_some_iff.mp located).1
      simp [Symbols.name, name?, here]
  · simp [Symbols.name, name?, size]

theorem code_intern (symbols : Symbols) (name : String) :
    (symbols.intern name).2.code (symbols.intern name).1 = nameCode name :=
  congrArg nameCode (symbols.name_intern name)

end Symbols

section Extension

variable {small large : Symbols} (more : large.Extends small)
include more

/-- A name that is entered keeps its number, so a larger table codes terms as before. -/
theorem Term.renumber_extend {t : Term} (inTable : t.Over small) : t.renumber large.code = t.renumber small.code :=
  t.renumber_congr fun id used => congrArg nameCode (more.name id (inTable id used))

theorem Literal.renumber_extend {l : Literal} (inTable : l.Over small) :
    l.renumber large.code = l.renumber small.code :=
  l.renumber_congr fun id used => congrArg nameCode (more.name id (inTable id used))

theorem Clause.renumber_extend {c : Clause} (formed : c.Formed small) :
    c.toSet.renumber large.code = c.toSet.renumber small.code :=
  Set.image_congr fun l member => l.renumber_extend more (formed.over_literals l member)

end Extension

namespace Builder

open Source

variable {b b' after : Builder}

mutual

/-- Phrases are looked up for what they denote; all else stays as it is. -/
theorem denote_frame (b : Builder) (phrase : Phrase) :
    (b.denote phrase).2.clauses = b.clauses ∧ (b.denote phrase).2.queries = b.queries ∧
      (b.denote phrase).2.pending = b.pending := by
  cases phrase with
  | name text =>
      unfold denote
      split
      · exact ⟨rfl, rfl, rfl⟩
      · exact ⟨rfl, rfl, rfl⟩
  | call function args =>
      unfold denote
      exact denoteAll_frame b args

theorem denoteAll_frame (b : Builder) (phrases : List Phrase) :
    (b.denoteAll phrases).2.clauses = b.clauses ∧ (b.denoteAll phrases).2.queries = b.queries ∧
      (b.denoteAll phrases).2.pending = b.pending := by
  cases phrases with
  | nil => exact ⟨rfl, rfl, rfl⟩
  | cons phrase phrases =>
      obtain ⟨clauses, queries, pending⟩ := b.denote_frame phrase
      obtain ⟨clauses', queries', pending'⟩ := (b.denote phrase).2.denoteAll_frame phrases
      unfold denoteAll
      exact ⟨clauses'.trans clauses, queries'.trans queries, pending'.trans pending⟩

end

mutual

/-- What a phrase denotes, up to the numbers of symbols, depends only on the variables that were met. -/
theorem denote_alike {b b' : Builder} (formed : b.Formed) (formed' : b'.Formed) (scope : b.scope = b'.scope)
    (phrase : Phrase) :
    (b.denote phrase).1.renumber (b.denote phrase).2.symbols.code =
        (b'.denote phrase).1.renumber (b'.denote phrase).2.symbols.code ∧
      (b.denote phrase).2.scope = (b'.denote phrase).2.scope := by
  cases phrase with
  | name text =>
      unfold denote
      split
      · refine ⟨?_, scope⟩
        simp only [const, Term.renumber_const, Symbols.code_intern]
      · simp only [var, scope, Term.renumber_var, and_self]
  | call function args =>
      obtain ⟨terms, scopes⟩ := denoteAll_alike formed formed' scope args
      obtain ⟨-, -, inTable⟩ := denoteAll_formed formed args
      obtain ⟨-, -, inTable'⟩ := denoteAll_formed formed' args
      -- the function is entered behind its arguments, whose codes it leaves alone
      have grown := (b.denoteAll args).2.symbols.extends_intern function
      have grown' := (b'.denoteAll args).2.symbols.extends_intern function
      unfold denote
      refine ⟨?_, scopes⟩
      simp only [app, Term.renumber_app, Symbols.code_intern]
      rw [List.map_congr_left fun t member => Term.renumber_extend grown (inTable t member),
        List.map_congr_left fun t member => Term.renumber_extend grown' (inTable' t member), terms]

theorem denoteAll_alike {b b' : Builder} (formed : b.Formed) (formed' : b'.Formed) (scope : b.scope = b'.scope)
    (phrases : List Phrase) :
    (b.denoteAll phrases).1.map (Term.renumber (b.denoteAll phrases).2.symbols.code) =
        (b'.denoteAll phrases).1.map (Term.renumber (b'.denoteAll phrases).2.symbols.code) ∧
      (b.denoteAll phrases).2.scope = (b'.denoteAll phrases).2.scope := by
  cases phrases with
  | nil => exact ⟨rfl, scope⟩
  | cons phrase phrases =>
      obtain ⟨term, scopes⟩ := denote_alike formed formed' scope phrase
      obtain ⟨formedFirst, -, inTable⟩ := denote_formed formed phrase
      obtain ⟨formedFirst', -, inTable'⟩ := denote_formed formed' phrase
      obtain ⟨terms, scopesAll⟩ := denoteAll_alike formedFirst formedFirst' scopes phrases
      have grown := (denoteAll_formed formedFirst phrases).2.1
      have grown' := (denoteAll_formed formedFirst' phrases).2.1
      unfold denoteAll
      refine ⟨?_, scopesAll⟩
      simp only [List.map_cons]
      rw [Term.renumber_extend grown inTable, Term.renumber_extend grown' inTable', term, terms]

end

/-- Two builders that have met the same variables and have the same literals at hand, up to the numbers of
symbols. -/
structure Alike (b b' : Builder) : Prop where
  scope : b.scope = b'.scope
  pending : b.pending.map (Literal.renumber b.symbols.code) = b'.pending.map (Literal.renumber b'.symbols.code)

/-- The literals at hand, coded by the table that one more phrase leaves. -/
theorem pending_addPhrase (formed : b.Formed) (phrase : LiteralPhrase) :
    (b.addPhrase phrase).pending.map (Literal.renumber (b.addPhrase phrase).symbols.code) =
      b.pending.map (Literal.renumber b.symbols.code) ++ [⟨phrase.positive, nameCode phrase.predicate,
        (b.denoteAll phrase.args).1.map (Term.renumber (b.denoteAll phrase.args).2.symbols.code)⟩] := by
  obtain ⟨formedArgs, moreArgs, inTable⟩ := denoteAll_formed formed phrase.args
  have grown := (b.denoteAll phrase.args).2.symbols.extends_intern phrase.predicate
  have old : (b.denoteAll phrase.args).2.pending = b.pending := (b.denoteAll_frame phrase.args).2.2
  have same : ∀ l ∈ b.pending, l.renumber (b.addPhrase phrase).symbols.code = l.renumber b.symbols.code :=
    fun l member => l.renumber_extend (grown.trans moreArgs) (formed.pending l member)
  simp only [addPhrase, literal, old, List.map_append, List.map_cons, List.map_nil, Literal.renumber,
    Symbols.code_intern]
  rw [List.map_congr_left fun t member => Term.renumber_extend grown (inTable t member)]
  congr 1
  exact List.map_congr_left same

theorem Alike.addPhrase (alike : b.Alike b') (formed : b.Formed) (formed' : b'.Formed) (phrase : LiteralPhrase) :
    (b.addPhrase phrase).Alike (b'.addPhrase phrase) := by
  obtain ⟨terms, scopes⟩ := denoteAll_alike formed formed' alike.scope phrase.args
  refine ⟨scopes, ?_⟩
  rw [pending_addPhrase formed, pending_addPhrase formed', alike.pending, terms]

theorem Alike.addPhrases (alike : b.Alike b') (formed : b.Formed) (formed' : b'.Formed)
    (phrases : List LiteralPhrase) :
    (phrases.foldl Builder.addPhrase b).Alike (phrases.foldl Builder.addPhrase b') := by
  induction phrases generalizing b b' with
  | nil => exact alike
  | cons phrase phrases ih =>
      exact ih (alike.addPhrase formed formed' phrase) (formed.addPhrases [phrase]) (formed'.addPhrases [phrase])

theorem addPhrases_frame (formed : b.Formed) (phrases : List LiteralPhrase) :
    (phrases.foldl addPhrase b).clauses = b.clauses ∧ (phrases.foldl addPhrase b).queries = b.queries ∧
      (phrases.foldl addPhrase b).symbols.Extends b.symbols := by
  induction phrases generalizing b with
  | nil => exact ⟨rfl, rfl, .refl _⟩
  | cons phrase phrases ih =>
      obtain ⟨clauses, queries, more⟩ := ih (formed.addPhrases [phrase])
      obtain ⟨clausesArgs, queriesArgs, -⟩ := b.denoteAll_frame phrase.args
      have moreArgs := (denoteAll_formed formed phrase.args).2.1
      have grown := (b.denoteAll phrase.args).2.symbols.extends_intern phrase.predicate
      exact ⟨clauses.trans clausesArgs, queries.trans queriesArgs, more.trans (grown.trans moreArgs)⟩

end Builder

namespace Source

/-- The literals of a line, read for itself and coded by the names of their symbols. -/
def spoken (kind : Kind) (line : List Char) : List Literal :=
  match readLine kind (line.filter fun c => !Text.isBlank c) with
  | .ok phrases =>
      let b := phrases.foldl Builder.addPhrase .empty
      b.pending.map (Literal.renumber b.symbols.code)
  | .error _ => []

/-- The lines of a text that follow the number of queries, as many as it says. -/
def queryLines (text : String) : List (List Char) :=
  match takeSection .query (linesOf text) with
  | .ok taken => taken.1.map NumberedLine.chars
  | .error _ => []

/-- The lines of a text that follow the number of sentences, as many as it says. -/
def sentenceLines (text : String) : List (List Char) :=
  match takeSection .query (linesOf text) with
  | .ok before =>
      match takeSection .sentence before.2 with
      | .ok taken => taken.1.map NumberedLine.chars
      | .error _ => []
  | .error _ => []

theorem queryLines_eq {text : String} {taken : List NumberedLine × List NumberedLine}
    (queries : takeSection .query (linesOf text) = .ok taken) :
    queryLines text = taken.1.map NumberedLine.chars := by
  rw [queryLines, queries]

theorem sentenceLines_eq {text : String} {before taken : List NumberedLine × List NumberedLine}
    (queries : takeSection .query (linesOf text) = .ok before)
    (sentences : takeSection .sentence before.2 = .ok taken) :
    sentenceLines text = taken.1.map NumberedLine.chars := by
  simp only [sentenceLines, queries, sentences]

end Source

namespace Builder

open Source

variable {b after : Builder} {line : NumberedLine}

/-- A builder between two lines, whose queries and clauses are what some lines say. -/
structure Records (b : Builder) (queries sentences : List (List Char)) : Prop where
  formed : b.Formed
  pending : b.pending = []
  scope : b.scope = .empty
  queries : b.queries.map (fun l => [l.renumber b.symbols.code]) = queries.map (spoken .query)
  clauses : b.clauses.map (fun c => c.toSet.renumber b.symbols.code) =
    sentences.map fun line => {l | l ∈ spoken .sentence line}

theorem records_empty : empty.Records [] [] := ⟨formed_empty, rfl, rfl, rfl, rfl⟩

variable {queries sentences : List (List Char)} {kind : Kind} {phrases : List LiteralPhrase}

namespace Records

/-- The literals at hand behind the phrases of a line are what the line says, whatever was read before. -/
theorem pending_eq (records : b.Records queries sentences)
    (read : readLine kind (line.chars.filter fun c => !Text.isBlank c) = .ok phrases) :
    (phrases.foldl addPhrase b).pending.map (Literal.renumber (phrases.foldl addPhrase b).symbols.code) =
      spoken kind line.chars := by
  -- between two lines a builder differs from the empty one in its table only
  have alike : b.Alike .empty := ⟨records.scope, by rw [records.pending]; rfl⟩
  rw [spoken, read]
  exact (alike.addPhrases records.formed formed_empty phrases).pending

theorem queries_grown (records : b.Records queries sentences) {large : Symbols} (more : large.Extends b.symbols) :
    b.queries.map (fun l => [l.renumber large.code]) = queries.map (spoken .query) := by
  rw [← records.queries]
  refine List.map_congr_left fun l member => ?_
  exact congrArg (fun k => [k]) (l.renumber_extend more (records.formed.queries l member))

theorem clauses_grown (records : b.Records queries sentences) {large : Symbols} (more : large.Extends b.symbols) :
    b.clauses.map (fun c => c.toSet.renumber large.code) =
      sentences.map fun line => {l | l ∈ spoken .sentence line} := by
  rw [← records.clauses]
  exact List.map_congr_left fun c member => c.renumber_extend more (records.formed.clauses c member)

theorem readQuery (records : b.Records queries sentences) (read : readInto .query b line = .ok after) :
    after.Records (queries ++ [line.chars]) sentences := by
  have formed := records.formed.readInto read
  unfold readInto at read
  split at read
  · cases read
  · next phrases parsed =>
      have pending := records.pending_eq parsed
      obtain ⟨clauses, asked, more⟩ := addPhrases_frame records.formed phrases
      dsimp only at read
      split at read
      · next made =>
          cases read
          unfold query? at made
          split at made
          · next literal single =>
              cases made
              refine ⟨formed, rfl, rfl, ?_, ?_⟩
              · rw [single] at pending
                simp only [asked, List.map_append, records.queries_grown more]
                exact congrArg (queries.map (spoken .query) ++ [·]) pending
              · simp only [clauses, records.clauses_grown more]
          · cases made
      · cases read

theorem readSentence (records : b.Records queries sentences) (read : readInto .sentence b line = .ok after) :
    after.Records queries (sentences ++ [line.chars]) := by
  have formed := records.formed.readInto read
  unfold readInto at read
  split at read
  · cases read
  · next phrases parsed =>
      cases read
      have pending := records.pending_eq parsed
      obtain ⟨clauses, asked, more⟩ := addPhrases_frame records.formed phrases
      refine ⟨formed, rfl, rfl, ?_, ?_⟩
      · simp only [clause, asked, records.queries_grown more]
      · have new : (Clause.ofLiterals (phrases.foldl addPhrase b).symbols
            (phrases.foldl addPhrase b).pending).toSet.renumber (phrases.foldl addPhrase b).symbols.code =
            {l | l ∈ spoken .sentence line.chars} := by
          rw [Clause.toSet_ofLiterals, ← pending]
          ext l
          simp [LiteralSet.renumber]
        simp only [clause, clauses, List.map_append, records.clauses_grown more]
        exact congrArg (sentences.map _ ++ [·]) new

theorem readQueries {lines : List NumberedLine} (records : b.Records queries sentences)
    (read : readLines .query b lines = .ok after) :
    after.Records (queries ++ lines.map NumberedLine.chars) sentences :=
  readLines_keeps (P := fun b queries => b.Records queries sentences) (fun before read => before.readQuery read)
    queries read records

theorem readSentences {lines : List NumberedLine} (records : b.Records queries sentences)
    (read : readLines .sentence b lines = .ok after) :
    after.Records queries (sentences ++ lines.map NumberedLine.chars) :=
  readLines_keeps (P := fun b sentences => b.Records queries sentences)
    (fun before read => before.readSentence read) sentences read records

end Records

end Builder

open Source in
/-- A problem that is read from a text says what the lines of the text say. -/
theorem Problem.records_ofText {text : String} {p : Problem} (read : Problem.ofText text = .ok p) :
    ∃ b : Builder, b.finish = p ∧ b.Records (queryLines text) (sentenceLines text) := by
  obtain ⟨_, _, _, _, told, queries, readQueries, sentences, readSentences, rfl⟩ := ofText_eq_ok_iff.mp read
  rw [queryLines_eq queries, sentenceLines_eq queries sentences]
  exact ⟨told, rfl, (Builder.records_empty.readQueries readQueries).readSentences readSentences⟩

end Refutation
