import Mathlib.Data.List.Forall2
import Refutation.Proofs.LineGrammar
import Refutation.Proofs.Reading

/-!
What phrases denote, said without the order in which names are entered into a table. A name that is called is a
function, a name that stands alone is a constant or a variable. The variables of a line are numbered from zero in
the order in which the line first mentions them; names of symbols mean the same in every line. What is built from
phrases, one line after another, is what they denote.
-/

namespace Refutation

theorem forall_mem_of_forall₂ {α β : Type} {R : α → β → Prop} {P : β → Prop} (right : ∀ a b, R a b → P b)
    {as : List α} {bs : List β} (each : List.Forall₂ R as bs) : ∀ b ∈ bs, P b := by
  induction each with
  | nil => exact fun _ member => absurd member List.not_mem_nil
  | cons first _ ih => exact List.forall_mem_cons.mpr ⟨right _ _ first, ih⟩

theorem prefix_eraseDups_append {α : Type} [BEq α] [LawfulBEq α] (as bs : List α) :
    as.eraseDups <+: (as ++ bs).eraseDups := by
  rw [List.eraseDups_append]
  exact List.prefix_append _ _

namespace Source

mutual

/-- The names of variables in a phrase, from left to right. -/
def Phrase.variableNames : Phrase → List String
  | .name text => if isConstantName text then [] else [text]
  | .call _ args => variableNamesAll args

def Phrase.variableNamesAll : List Phrase → List String
  | [] => []
  | phrase :: phrases => phrase.variableNames ++ variableNamesAll phrases

end

def LiteralPhrase.variableNames (phrase : LiteralPhrase) : List String := Phrase.variableNamesAll phrase.args

/-- The variables of a line: each name once, in the order of first mention. -/
def scopeOf (phrases : List LiteralPhrase) : List String := (phrases.flatMap LiteralPhrase.variableNames).eraseDups

mutual

/-- What a phrase denotes, given what symbols are called and the variables of its line. -/
inductive Phrase.Denotes (symbols : Symbols) (scope : List String) : Phrase → Term → Prop
  | const {text : String} {c : SymbolId} : isConstantName text = true → symbols.name? c = some text →
      Phrase.Denotes symbols scope (.name text) (.const c)
  | var {text : String} {x : VarId} : isConstantName text = false → scope[x]? = some text →
      Phrase.Denotes symbols scope (.name text) (.var x)
  | app {function : String} {f : SymbolId} {args : List Phrase} {terms : List Term} :
      symbols.name? f = some function → Phrase.DenotesAll symbols scope args terms →
      Phrase.Denotes symbols scope (.call function args) (.app f terms)

inductive Phrase.DenotesAll (symbols : Symbols) (scope : List String) : List Phrase → List Term → Prop
  | nil : Phrase.DenotesAll symbols scope [] []
  | cons {phrase : Phrase} {t : Term} {phrases : List Phrase} {ts : List Term} :
      Phrase.Denotes symbols scope phrase t → Phrase.DenotesAll symbols scope phrases ts →
      Phrase.DenotesAll symbols scope (phrase :: phrases) (t :: ts)

end

structure LiteralPhrase.Denotes (symbols : Symbols) (scope : List String) (phrase : LiteralPhrase) (l : Literal) :
    Prop where
  sign : l.positive = phrase.positive
  predicate : symbols.name? l.predicate = some phrase.predicate
  args : Phrase.DenotesAll symbols scope phrase.args l.args

/-- The clause of the literals that the phrases of a line denote. -/
def DenotesClause (symbols : Symbols) (phrases : List LiteralPhrase) (c : Clause) : Prop :=
  ∃ literals, List.Forall₂ (LiteralPhrase.Denotes symbols (scopeOf phrases)) phrases literals ∧
    c = Clause.ofLiterals symbols literals

end Source

open Source

/-- Whether a problem asks and tells what some phrases denote, line by line. -/
structure Problem.Denotes (p : Problem) (asked : List LiteralPhrase) (told : List (List LiteralPhrase)) : Prop where
  queries : List.Forall₂ (fun phrase l => phrase.Denotes p.symbols (scopeOf [phrase]) l) asked p.queries
  clauses : List.Forall₂ (DenotesClause p.symbols) told p.clauses

namespace Symbols

theorem name?_eq_some_iff {symbols : Symbols} {id : SymbolId} {name : String} :
    symbols.name? id = some name ↔ id < symbols.size ∧ symbols.name id = name := by
  simp only [Symbols.name, name?, size, Array.getElem?_eq_some_iff]
  constructor
  · rintro ⟨known, rfl⟩
    exact ⟨known, by simp [known]⟩
  · rintro ⟨known, rfl⟩
    exact ⟨known, by simp [known]⟩

theorem Extends.name?_eq_some {small large : Symbols} (more : large.Extends small) {id : SymbolId} {name : String}
    (named : small.name? id = some name) : large.name? id = some name := by
  obtain ⟨known, rfl⟩ := name?_eq_some_iff.mp named
  exact name?_eq_some_iff.mpr ⟨known.trans_le more.size, more.name id known⟩

theorem name?_intern (symbols : Symbols) (name : String) :
    (symbols.intern name).2.name? (symbols.intern name).1 = some name :=
  name?_eq_some_iff.mpr ⟨symbols.intern_lt name, symbols.name_intern name⟩

/-- A table that holds the different names among some holds, with one name more, the different ones among them all. -/
theorem names_intern {symbols : Symbols} {met : List String} (holds : symbols.names.toList = met.eraseDups)
    (name : String) : (symbols.intern name).2.names.toList = (met ++ [name]).eraseDups := by
  have known : name ∈ symbols.names ↔ name ∈ met := by
    rw [← Array.mem_toList_iff, holds, List.mem_eraseDups]
  rw [List.eraseDups_append]
  unfold intern
  split
  · next found =>
      have old : name ∈ met := by
        by_contra new
        rw [← known, ← Array.idxOf?_eq_none_iff, found] at new
        cases new
      simp [holds, List.removeAll, old]
  · next absent =>
      have new : name ∉ met := fun old => Array.idxOf?_eq_none_iff.mp absent (known.mpr old)
      simp [holds, List.removeAll, new, List.eraseDups_cons]

end Symbols

namespace Source

variable {small large : Symbols} {scope wide : List String}

mutual

/-- More symbols and more variables leave what is denoted as it is. -/
theorem Phrase.Denotes.mono {phrase : Phrase} {t : Term} (denotes : phrase.Denotes small scope t)
    (more : large.Extends small) (wider : scope <+: wide) : phrase.Denotes large wide t := by
  cases denotes with
  | const upper named => exact .const upper (more.name?_eq_some named)
  | @var _ x lower named =>
      obtain ⟨rest, rfl⟩ := wider
      have inside : x < scope.length := (List.getElem?_eq_some_iff.mp named).1
      exact .var lower ((List.getElem?_append_left inside).trans named)
  | app named args => exact .app (more.name?_eq_some named) (args.mono more wider)

theorem Phrase.DenotesAll.mono {phrases : List Phrase} {ts : List Term} (denotes : DenotesAll small scope phrases ts)
    (more : large.Extends small) (wider : scope <+: wide) : DenotesAll large wide phrases ts := by
  cases denotes with
  | nil => exact .nil
  | cons first rest => exact .cons (first.mono more wider) (rest.mono more wider)

end

theorem LiteralPhrase.Denotes.mono {phrase : LiteralPhrase} {l : Literal} (denotes : phrase.Denotes small scope l)
    (more : large.Extends small) (wider : scope <+: wide) : phrase.Denotes large wide l :=
  ⟨denotes.sign, more.name?_eq_some denotes.predicate, denotes.args.mono more wider⟩

mutual

theorem Phrase.Denotes.over {phrase : Phrase} {t : Term} (denotes : phrase.Denotes small scope t) :
    t.Over small := by
  cases denotes with
  | const _ named => exact Term.over_const.mpr (Symbols.name?_eq_some_iff.mp named).1
  | var _ _ => exact Term.over_var _
  | app named args => exact Term.over_app.mpr ⟨(Symbols.name?_eq_some_iff.mp named).1, args.over⟩

theorem Phrase.DenotesAll.over {phrases : List Phrase} {ts : List Term} (denotes : DenotesAll small scope phrases ts) :
    ∀ t ∈ ts, t.Over small := by
  cases denotes with
  | nil => exact fun _ member => absurd member List.not_mem_nil
  | cons first rest => exact List.forall_mem_cons.mpr ⟨first.over, rest.over⟩

end

theorem LiteralPhrase.Denotes.over {phrase : LiteralPhrase} {l : Literal} (denotes : phrase.Denotes small scope l) :
    l.Over small :=
  Term.over_app.mpr ⟨(Symbols.name?_eq_some_iff.mp denotes.predicate).1, denotes.args.over⟩

theorem DenotesClause.extend {phrases : List LiteralPhrase} {c : Clause} (denotes : DenotesClause small phrases c)
    (more : large.Extends small) : DenotesClause large phrases c := by
  obtain ⟨literals, each, rfl⟩ := denotes
  have inTable : ∀ l ∈ literals, l.Over small := forall_mem_of_forall₂ (fun _ _ denoted => denoted.over) each
  refine ⟨literals, each.imp fun _ _ denoted => denoted.mono more List.prefix_rfl, ?_⟩
  rw [Clause.ofLiterals_extend more inTable]

end Source

/-- The characters of a line that are not blank. -/
def Source.bare (line : List Char) : List Char := line.filter fun c => !Text.isBlank c

/-- If every line can be read then all can, and what one line establishes is established for all. -/
theorem Source.readLines_succeeds {α : Type} {P : Builder → List α → Prop} {R : NumberedLine → α → Prop} {kind : Kind}
    (step : ∀ {b : Builder} {line : NumberedLine} {a : α} {done : List α}, P b done → R line a →
      ∃ after, readInto kind b line = .ok after ∧ P after (done ++ [a]))
    {lines : List NumberedLine} {as : List α} (each : List.Forall₂ R lines as) {b : Builder} {done : List α}
    (start : P b done) : ∃ after, readLines kind b lines = .ok after ∧ P after (done ++ as) := by
  induction each generalizing b done with
  | nil => exact ⟨b, rfl, by rwa [List.append_nil]⟩
  | cons first _ ih =>
      obtain ⟨middle, read, established⟩ := step start first
      obtain ⟨after, reads, all⟩ := ih established
      rw [List.append_assoc] at all
      refine ⟨after, ?_, all⟩
      rw [readLines, read]
      exact reads

namespace Builder

variable {b : Builder}

mutual

/-- A phrase leaves behind the variables that it mentions, and what it denotes. -/
theorem denote_denotes {b : Builder} {met : List String} (formed : b.Formed)
    (scope : b.scope.names.toList = met.eraseDups) (phrase : Phrase) :
    (b.denote phrase).2.scope.names.toList = (met ++ phrase.variableNames).eraseDups ∧
      phrase.Denotes (b.denote phrase).2.symbols (met ++ phrase.variableNames).eraseDups (b.denote phrase).1 := by
  cases phrase with
  | name text =>
      unfold denote Phrase.variableNames
      split
      · next upper =>
          rw [List.append_nil]
          exact ⟨scope, .const upper (b.symbols.name?_intern text)⟩
      · next lower =>
          have met' := Symbols.names_intern scope text
          have named := b.scope.name?_intern text
          rw [Symbols.name?, ← Array.getElem?_toList, met'] at named
          exact ⟨met', .var (by simpa using lower) named⟩
  | call function args =>
      obtain ⟨met', denoted⟩ := denoteAll_denotes formed scope args
      have grown := (b.denoteAll args).2.symbols.extends_intern function
      unfold denote Phrase.variableNames
      exact ⟨met', .app ((b.denoteAll args).2.symbols.name?_intern function) (denoted.mono grown List.prefix_rfl)⟩

theorem denoteAll_denotes {b : Builder} {met : List String} (formed : b.Formed)
    (scope : b.scope.names.toList = met.eraseDups) (phrases : List Phrase) :
    (b.denoteAll phrases).2.scope.names.toList = (met ++ Phrase.variableNamesAll phrases).eraseDups ∧
      Phrase.DenotesAll (b.denoteAll phrases).2.symbols (met ++ Phrase.variableNamesAll phrases).eraseDups phrases
        (b.denoteAll phrases).1 := by
  cases phrases with
  | nil =>
      unfold denoteAll Phrase.variableNamesAll
      rw [List.append_nil]
      exact ⟨scope, .nil⟩
  | cons phrase phrases =>
      obtain ⟨formedFirst, -, -⟩ := denote_formed formed phrase
      obtain ⟨metFirst, denotedFirst⟩ := denote_denotes formed scope phrase
      obtain ⟨metRest, denotedRest⟩ := denoteAll_denotes formedFirst metFirst phrases
      have more := (denoteAll_formed formedFirst phrases).2.1
      unfold denoteAll Phrase.variableNamesAll
      rw [List.append_assoc] at metRest denotedRest
      refine ⟨metRest, .cons (denotedFirst.mono more ?_) denotedRest⟩
      rw [← List.append_assoc]
      exact prefix_eraseDups_append _ _

end

/-- Whether the literals at hand are what the phrases of a line, as far as it is read, denote. -/
structure AtHand (b : Builder) (phrases : List LiteralPhrase) : Prop where
  formed : b.Formed
  scope : b.scope.names.toList = scopeOf phrases
  pending : List.Forall₂ (LiteralPhrase.Denotes b.symbols (scopeOf phrases)) phrases b.pending

theorem AtHand.addPhrase {phrases : List LiteralPhrase} (atHand : b.AtHand phrases) (phrase : LiteralPhrase) :
    (b.addPhrase phrase).AtHand (phrases ++ [phrase]) := by
  obtain ⟨formedArgs, moreArgs, -⟩ := denoteAll_formed atHand.formed phrase.args
  obtain ⟨met, denoted⟩ := denoteAll_denotes atHand.formed atHand.scope phrase.args
  have grown := (b.denoteAll phrase.args).2.symbols.extends_intern phrase.predicate
  have scopes : scopeOf (phrases ++ [phrase]) =
      (phrases.flatMap LiteralPhrase.variableNames ++ Phrase.variableNamesAll phrase.args).eraseDups := by
    rw [scopeOf, List.flatMap_append, List.flatMap_singleton, LiteralPhrase.variableNames]
  have old : (b.denoteAll phrase.args).2.pending = b.pending := (b.denoteAll_frame phrase.args).2.2
  refine ⟨atHand.formed.addPhrases [phrase], met.trans scopes.symm, ?_⟩
  rw [scopes]
  simp only [Builder.addPhrase, literal, old]
  refine List.rel_append (atHand.pending.imp fun _ _ before => ?_) (.cons ⟨rfl, ?_, ?_⟩ .nil)
  · exact before.mono (grown.trans moreArgs) (prefix_eraseDups_append _ _)
  · exact (b.denoteAll phrase.args).2.symbols.name?_intern phrase.predicate
  · exact denoted.mono grown List.prefix_rfl

theorem AtHand.addPhrases {done : List LiteralPhrase} (atHand : b.AtHand done) (phrases : List LiteralPhrase) :
    (phrases.foldl Builder.addPhrase b).AtHand (done ++ phrases) := by
  induction phrases generalizing b done with
  | nil => rwa [List.append_nil]
  | cons phrase phrases ih =>
      have rest := ih (atHand.addPhrase phrase)
      rwa [List.append_assoc] at rest

/-- A builder between two lines, whose queries and clauses are what the phrases of the lines denote. -/
structure Holds (b : Builder) (asked : List LiteralPhrase) (told : List (List LiteralPhrase)) : Prop where
  formed : b.Formed
  pending : b.pending = []
  scope : b.scope = .empty
  built : b.finish.Denotes asked told

theorem holds_empty : empty.Holds [] [] := ⟨formed_empty, rfl, rfl, .nil, .nil⟩

namespace Holds

variable {asked : List LiteralPhrase} {told : List (List LiteralPhrase)}

/-- With the phrases of one more line their literals are at hand, and what was built stands. -/
theorem addPhrases (holds : b.Holds asked told) (phrases : List LiteralPhrase) :
    (phrases.foldl addPhrase b).AtHand phrases ∧ (phrases.foldl addPhrase b).finish.Denotes asked told := by
  have start : b.AtHand [] := by
    refine ⟨holds.formed, ?_, ?_⟩
    · rw [holds.scope]
      rfl
    · rw [holds.pending]
      exact .nil
  obtain ⟨clauses, queries, more⟩ := addPhrases_frame holds.formed phrases
  refine ⟨start.addPhrases phrases, ?_, ?_⟩
  · simp only [finish, queries]
    exact holds.built.queries.imp fun _ _ denoted => denoted.mono more List.prefix_rfl
  · simp only [finish, clauses]
    exact holds.built.clauses.imp fun _ _ denoted => denoted.extend more

theorem readQuery (holds : b.Holds asked told) {line : NumberedLine} {phrase : LiteralPhrase}
    (spells : SpellsLiteral (bare line.chars) phrase) :
    ∃ after, readInto .query b line = .ok after ∧ after.Holds (asked ++ [phrase]) told := by
  obtain ⟨atHand, built⟩ := holds.addPhrases [phrase]
  -- one phrase leaves one literal at hand, so there is a query to make
  obtain ⟨l, none, denoted, empty, single⟩ := List.forall₂_cons_left_iff.mp atHand.pending
  rw [List.forall₂_nil_left_iff.mp empty] at single
  have parsed : readLine .query (bare line.chars) = .ok [phrase] := readLine_eq_ok_iff.mpr (.one spells)
  have made : ([phrase].foldl addPhrase b).query? = some { [phrase].foldl addPhrase b with
      queries := ([phrase].foldl addPhrase b).queries ++ [l], pending := [], scope := .empty } := by
    rw [Builder.query?, single]
  refine ⟨_, ?_, atHand.formed.query? made, rfl, rfl, ?_, built.clauses⟩
  · rw [bare] at parsed
    simp only [readInto, parsed, made]
  · exact List.rel_append built.queries (.cons denoted .nil)

theorem readSentence (holds : b.Holds asked told) {line : NumberedLine} {phrases : List LiteralPhrase}
    (spells : SpellsLine .sentence (bare line.chars) phrases) :
    ∃ after, readInto .sentence b line = .ok after ∧ after.Holds asked (told ++ [phrases]) := by
  obtain ⟨atHand, built⟩ := holds.addPhrases phrases
  have parsed : readLine .sentence (bare line.chars) = .ok phrases := readLine_eq_ok_iff.mpr spells
  refine ⟨(phrases.foldl addPhrase b).clause, ?_, atHand.formed.clause, rfl, rfl, built.queries, ?_⟩
  · rw [bare] at parsed
    simp only [readInto, parsed]
  · exact List.rel_append built.clauses (.cons ⟨_, atHand.pending, rfl⟩ .nil)

theorem readQueries (holds : b.Holds asked told) {lines : List NumberedLine} {phrases : List LiteralPhrase}
    (spells : List.Forall₂ (fun line phrase => SpellsLiteral (bare line.chars) phrase) lines phrases) :
    ∃ after, readLines .query b lines = .ok after ∧ after.Holds (asked ++ phrases) told :=
  readLines_succeeds (P := fun b asked => b.Holds asked told) (fun before line => before.readQuery line) spells holds

theorem readSentences (holds : b.Holds asked told) {lines : List NumberedLine} {phrases : List (List LiteralPhrase)}
    (spells : List.Forall₂ (fun line phrases => SpellsLine .sentence (bare line.chars) phrases) lines phrases) :
    ∃ after, readLines .sentence b lines = .ok after ∧ after.Holds asked (told ++ phrases) :=
  readLines_succeeds (P := fun b told => b.Holds asked told) (fun before line => before.readSentence line) spells holds

end Holds

end Builder

end Refutation
