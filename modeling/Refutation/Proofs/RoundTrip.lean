import Refutation.Proofs.ExhaustiveSearch
import Refutation.Proofs.Printing

/-!
Printing and reading again. The printed text gives every variable a name of its own and every clause its literals in
order, so reading it numbers variables by first occurrence and symbols by first mention. What was a clause comes back
as its standard form in another table. A standard form does not change when a clause is made of it, and neither the
order of literals nor their texts depend on the numbers of symbols, so it is printed as before.
-/

namespace Refutation

open Source

section Texts

variable {f : SymbolId → SymbolId} {symbols symbols' : Symbols}

theorem Term.charsAll_map {g : Term → Term} {ts : List Term}
    (each : ∀ t ∈ ts, (g t).chars symbols' = t.chars symbols) :
    charsAll symbols' (ts.map g) = charsAll symbols ts := by
  induction ts with
  | nil => rfl
  | cons t ts ih =>
      obtain ⟨first, rest⟩ := List.forall_mem_cons.mp each
      cases ts with
      | nil => exact first
      | cons s ts =>
          have tail := ih rest
          simp only [List.map_cons, charsAll] at tail ⊢
          rw [first, tail]

/-- Texts show the names of symbols, not their numbers. -/
theorem Term.chars_renumber {t : Term} (kept : t.Carried f symbols symbols') :
    (t.renumber f).chars symbols' = t.chars symbols := by
  induction t using Term.induct with
  | const c => rw [renumber_const, chars, chars, (kept c (List.mem_singleton_self c)).2]
  | var x => rw [renumber_var, chars, chars]
  | app h args ih =>
      obtain ⟨named, keptArgs⟩ := carried_app.mp kept
      rw [renumber_app, chars, chars, named.2, charsAll_map fun t member => ih t member (keptArgs t member)]

theorem Literal.chars_renumber {l : Literal} (kept : l.Carried f symbols symbols') :
    (l.renumber f).chars symbols' = l.chars symbols := by
  rw [chars, chars, atom_renumber, Term.chars_renumber kept]
  rfl

theorem Clause.charsOf_renumber {literals : List Literal} (kept : ∀ l ∈ literals, l.Carried f symbols symbols') :
    charsOf symbols' (literals.map (Literal.renumber f)) = charsOf symbols literals := by
  induction literals with
  | nil => rfl
  | cons l ls ih =>
      obtain ⟨first, rest⟩ := List.forall_mem_cons.mp kept
      cases ls with
      | nil => exact Literal.chars_renumber first
      | cons k ls =>
          have tail := ih rest
          simp only [List.map_cons, charsOf] at tail ⊢
          rw [Literal.chars_renumber first, tail]

theorem Clause.text_renumber {c d : Clause} (kept : ∀ l ∈ c.literals, l.Carried f symbols symbols')
    (copy : d.literals = c.literals.map (Literal.renumber f)) : d.text symbols' = c.text symbols := by
  have empty : d.isEmpty = c.isEmpty := by
    rw [isEmpty, isEmpty, copy, List.isEmpty_map]
  rw [text, text, empty, copy, charsOf_renumber kept]

end Texts

/-- The only place of an element in a list without repetitions is its index. -/
theorem idxOf_of_getElem? {α : Type} [BEq α] [LawfulBEq α] {as : List α} (distinct : as.Nodup) {i : Nat} {a : α}
    (here : as[i]? = some a) : as.idxOf a = i := by
  obtain ⟨inside, rfl⟩ := List.getElem?_eq_some_iff.mp here
  exact distinct.idxOf_getElem i inside

section Scopes

variable {symbols : Symbols} {scope : List String}

theorem Source.Phrase.variableNamesAll_eq_flatMap (phrases : List Phrase) :
    variableNamesAll phrases = phrases.flatMap variableNames := by
  induction phrases with
  | nil => rfl
  | cons phrase phrases ih => rw [variableNamesAll, ih, List.flatMap_cons]

theorem Term.phraseAll_eq_map (ts : List Term) : phraseAll symbols ts = ts.map (phrase symbols) := by
  induction ts with
  | nil => rfl
  | cons t ts ih => rw [phraseAll, ih, List.map_cons]

mutual

/-- Variables are the numbers of their names. -/
theorem Source.Phrase.Denotes.vars_eq {phrase : Phrase} {t : Term} (distinct : scope.Nodup)
    (denotes : phrase.Denotes symbols scope t) : t.vars = phrase.variableNames.map scope.idxOf := by
  cases denotes with
  | const upper _ => rw [Term.vars, Phrase.variableNames, if_pos upper, List.map_nil]
  | var lower place =>
      rw [Term.vars, Phrase.variableNames, if_neg (by simp [lower]), List.map_singleton,
        idxOf_of_getElem? distinct place]
  | app _ args => rw [Term.vars, Phrase.variableNames, args.vars_eq distinct]

theorem Source.Phrase.DenotesAll.vars_eq {phrases : List Phrase} {ts : List Term} (distinct : scope.Nodup)
    (denotes : Phrase.DenotesAll symbols scope phrases ts) :
    Term.varsAll ts = (Phrase.variableNamesAll phrases).map scope.idxOf := by
  cases denotes with
  | nil => rfl
  | cons first rest =>
      rw [Term.varsAll, Phrase.variableNamesAll, List.map_append, first.vars_eq distinct, rest.vars_eq distinct]

end

theorem vars_eq_of_denotes (distinct : scope.Nodup) {phrases : List LiteralPhrase} {literals : List Literal}
    (denotes : List.Forall₂ (LiteralPhrase.Denotes symbols scope) phrases literals) :
    literals.flatMap Literal.vars = (phrases.flatMap LiteralPhrase.variableNames).map scope.idxOf := by
  induction denotes with
  | nil => rfl
  | cons first _ ih =>
      rw [List.flatMap_cons, List.flatMap_cons, List.map_append, ih]
      congr 1
      exact first.args.vars_eq distinct

/-- The literals of a line that was read have their variables numbered by first occurrence. -/
theorem standardForm_of_denotes {phrases : List LiteralPhrase} {literals : List Literal}
    (denotes : List.Forall₂ (LiteralPhrase.Denotes symbols (scopeOf phrases)) phrases literals) :
    standardForm literals = literals := by
  have distinct : (scopeOf phrases).Nodup := nodup_eraseDups _
  have injective : Set.InjOn (scopeOf phrases).idxOf {a | a ∈ phrases.flatMap LiteralPhrase.variableNames} := by
    intro a member b _ same
    exact (List.idxOf_inj (List.mem_eraseDups.mpr member)).mp same
  have vars := vars_eq_of_denotes distinct denotes
  have names : (literals.flatMap Literal.vars).eraseDups = (scopeOf phrases).map (scopeOf phrases).idxOf := by
    rw [vars, eraseDups_map injective, ← scopeOf]
  have fixed : ∀ x ∈ literals.flatMap Literal.vars, (literals.flatMap Literal.vars).eraseDups.idxOf x = x := by
    intro x occurs
    refine idxOf_of_getElem? (nodup_eraseDups _) ?_
    rw [← List.mem_eraseDups, names] at occurs
    obtain ⟨a, member, rfl⟩ := List.mem_map.mp occurs
    rw [names, List.getElem?_map, List.getElem?_eq_getElem (List.idxOf_lt_length_of_mem member), List.getElem_idxOf,
      Option.map_some]
  rw [Arrangement.standardForm_eq_numbered, Arrangement.numbered,
    List.map_congr_left (g := id) fun l member =>
      l.rename_eq_self fun x occurs => fixed x (mem_flatMap_vars member occurs),
    List.map_id]

theorem Term.Printable.variableNames {t : Term} (printable : t.Printable symbols) :
    (t.phrase symbols).variableNames = t.vars.map varName := by
  induction printable with
  | const _ _ upper => rw [phrase, Phrase.variableNames, if_pos upper, vars, List.map_nil]
  | var x =>
      rw [phrase, Phrase.variableNames, if_neg (by simp [isConstantName_varName]), vars, List.map_singleton]
  | app _ _ _ ih =>
      rw [phrase, Phrase.variableNames, Phrase.variableNamesAll_eq_flatMap, phraseAll_eq_map, List.flatMap_map,
        List.flatMap_congr ih, vars, varsAll_eq_flatMap, List.map_flatMap]

/-- The printed names of variables are in scope in the order in which the variables occur. -/
theorem scopeOf_phrases {literals : List Literal} (printable : ∀ l ∈ literals, l.Printable symbols) :
    scopeOf (literals.map (Literal.phrase symbols)) = (literals.flatMap Literal.vars).eraseDups.map varName := by
  have names : ∀ l ∈ literals, (l.phrase symbols).variableNames = l.vars.map varName :=
    fun l member => (printable l member).variableNames
  rw [scopeOf, List.flatMap_map, List.flatMap_congr names, ← List.map_flatMap,
    eraseDups_map varName_injective.injOn]

end Scopes

section Again

variable {symbols symbols' : Symbols}

/-- Where the name of a symbol stands in another table. -/
def relocate (symbols symbols' : Symbols) (id : SymbolId) : SymbolId := symbols'.names.toList.idxOf (symbols.name id)

theorem relocate_of_name? {id id' : SymbolId} (known : id < symbols.size)
    (named : symbols'.name? id' = some (symbols.name id)) :
    relocate symbols symbols' id = id' ∧ id ∈ carried (relocate symbols symbols') symbols symbols' := by
  have place : relocate symbols symbols' id = id' := by
    refine idxOf_of_getElem? symbols'.distinct ?_
    rwa [Symbols.name?, ← Array.getElem?_toList] at named
  refine ⟨place, known, ?_⟩
  rw [place]
  exact (Symbols.name?_eq_some_iff.mp named).2

theorem Term.denotedAll {names : List VarId} {args : List Term}
    (each : ∀ t ∈ args, ∀ {t' : Term}, (t.phrase symbols).Denotes symbols' (names.map varName) t' →
      t.Carried (relocate symbols symbols') symbols symbols' ∧
        t' = (t.rename names.idxOf).renumber (relocate symbols symbols'))
    {args' : List Term} (denotes : Phrase.DenotesAll symbols' (names.map varName) (phraseAll symbols args) args') :
    (∀ t ∈ args, t.Carried (relocate symbols symbols') symbols symbols') ∧
      args' = args.map fun t => (t.rename names.idxOf).renumber (relocate symbols symbols') := by
  induction args generalizing args' with
  | nil =>
      cases denotes
      exact ⟨fun _ member => absurd member List.not_mem_nil, rfl⟩
  | cons t args ih =>
      obtain ⟨eachFirst, eachRest⟩ := List.forall_mem_cons.mp each
      cases denotes with
      | cons first rest =>
          obtain ⟨kept, rfl⟩ := eachFirst first
          obtain ⟨keptRest, rfl⟩ := ih eachRest rest
          exact ⟨List.forall_mem_cons.mpr ⟨kept, keptRest⟩, rfl⟩

/-- A printed term is read as itself with its variables and symbols numbered anew. -/
theorem Term.Printable.denoted {t : Term} (printable : t.Printable symbols) {names : List VarId}
    (distinct : names.Nodup) {t' : Term} (denotes : (t.phrase symbols).Denotes symbols' (names.map varName) t') :
    t.Carried (relocate symbols symbols') symbols symbols' ∧
      t' = (t.rename names.idxOf).renumber (relocate symbols symbols') := by
  induction printable generalizing t' with
  | @const c known _ upper =>
      cases denotes with
      | const _ named =>
          obtain ⟨place, kept⟩ := relocate_of_name? known named
          refine ⟨fun id used => ?_, ?_⟩
          · rwa [List.mem_singleton.mp used]
          · rw [rename_const, renumber_const, place]
      | var lower _ => exact absurd (lower.symm.trans upper) (by decide)
  | var x =>
      cases denotes with
      | const upper _ => exact absurd (upper.symm.trans (isConstantName_varName x)) (by decide)
      | var _ here =>
          refine ⟨fun _ used => absurd used List.not_mem_nil, ?_⟩
          rw [List.getElem?_map] at here
          obtain ⟨y, place, same⟩ := Option.map_eq_some_iff.mp here
          rw [varName_injective same] at place
          rw [rename_var, renumber_var, idxOf_of_getElem? distinct place]
  | app known _ _ ih =>
      cases denotes with
      | app named args =>
          obtain ⟨place, kept⟩ := relocate_of_name? known named
          obtain ⟨keptArgs, rfl⟩ := denotedAll (fun t member t' denotes => ih t member denotes) args
          refine ⟨carried_app.mpr ⟨kept, keptArgs⟩, ?_⟩
          rw [rename_app, renumber_app, place, List.map_map]
          rfl

theorem Literal.Printable.denoted {l : Literal} (printable : l.Printable symbols) {names : List VarId}
    (distinct : names.Nodup) {l' : Literal} (denotes : (l.phrase symbols).Denotes symbols' (names.map varName) l') :
    l.Carried (relocate symbols symbols') symbols symbols' ∧
      l' = (l.rename names.idxOf).renumber (relocate symbols symbols') := by
  have atom : (l.atom.phrase symbols).Denotes symbols' (names.map varName) l'.atom :=
    .app denotes.predicate denotes.args
  obtain ⟨kept, same⟩ := Term.Printable.denoted printable distinct atom
  refine ⟨kept, ext_atom denotes.sign ?_⟩
  rw [same, atom_renumber, atom_rename]

/-- Printed literals are read as their standard form with the symbols numbered anew. -/
theorem literals_eq_of_denotes {literals literals' : List Literal} (printable : ∀ l ∈ literals, l.Printable symbols)
    (denotes : List.Forall₂ (LiteralPhrase.Denotes symbols' (scopeOf (literals.map (Literal.phrase symbols))))
      (literals.map (Literal.phrase symbols)) literals') :
    (∀ l ∈ literals, l.Carried (relocate symbols symbols') symbols symbols') ∧
      literals' = (standardForm literals).map (Literal.renumber (relocate symbols symbols')) := by
  have distinct : (literals.flatMap Literal.vars).eraseDups.Nodup := nodup_eraseDups _
  rw [scopeOf_phrases printable] at denotes
  rw [Arrangement.standardForm_eq_numbered, Arrangement.numbered]
  generalize (literals.flatMap Literal.vars).eraseDups = names at distinct denotes ⊢
  rw [List.forall₂_map_left_iff] at denotes
  induction denotes with
  | nil => exact ⟨fun _ member => absurd member List.not_mem_nil, rfl⟩
  | cons first _ ih =>
      obtain ⟨printableFirst, printableRest⟩ := List.forall_mem_cons.mp printable
      obtain ⟨kept, rfl⟩ := printableFirst.denoted distinct first
      obtain ⟨keptRest, rfl⟩ := ih printableRest
      exact ⟨List.forall_mem_cons.mpr ⟨kept, keptRest⟩, rfl⟩

theorem Literal.text_of_denotes {l l' : Literal} (printable : l.Printable symbols) (numbered : standardForm [l] = [l])
    (denotes : (l.phrase symbols).Denotes symbols' (scopeOf [l.phrase symbols]) l') :
    l'.text symbols' = l.text symbols := by
  obtain ⟨kept, same⟩ := literals_eq_of_denotes (List.forall_mem_singleton.mpr printable) (.cons denotes .nil)
  rw [numbered] at same
  cases same
  rw [text, text, chars_renumber (kept l (List.mem_singleton_self l))]

/-- The standard form of a clause is printed the same when the printed clause was read again. -/
theorem Clause.text_of_denotes {c c' : Clause} (formed : c.Formed symbols)
    (printable : ∀ l ∈ c.literals, l.Printable symbols)
    (denotes : DenotesClause symbols' (c.literals.map (Literal.phrase symbols)) c') :
    c'.standardize.text symbols' = c.standardize.text symbols := by
  obtain ⟨literals', each, rfl⟩ := denotes
  obtain ⟨kept, rfl⟩ := literals_eq_of_denotes printable each
  have keptForm : ∀ l ∈ c.canonical, l.Carried (relocate symbols symbols') symbols symbols' := by
    intro l member
    rw [c.standard] at member
    obtain ⟨k, inside, rfl⟩ := List.mem_map.mp member
    exact (kept k inside).rename _
  refine text_renumber keptForm ?_
  -- made of its standard form, in either table, a clause has that standard form again
  calc
    (ofLiterals symbols' ((standardForm c.literals).map (Literal.renumber (relocate symbols symbols')))).canonical =
        standardForm
          ((ofLiterals symbols c.canonical).literals.map (Literal.renumber (relocate symbols symbols'))) := by
      rw [Clause.standard, ← c.standard, literals_ofLiterals_renumber keptForm]
    _ = (ofLiterals symbols c.canonical).canonical.map (Literal.renumber (relocate symbols symbols')) := by
      rw [standardForm_map_renumber, ← Clause.standard]
    _ = c.canonical.map (Literal.renumber (relocate symbols symbols')) := by rw [formed.represented.fixed]

end Again

/-- A problem that was read is printed as a text that is read again, with as many queries and clauses; every query and
the standard form of every clause are printed the same. -/
theorem Problem.text_round_trips {text : String} {p : Problem} (read : ofText text = .ok p) :
    ∃ p', ofText p.text = .ok p' ∧
      p'.queries.length = p.queries.length ∧ p'.clauses.length = p.clauses.length ∧
      p'.queries.map (Literal.text p'.symbols) = p.queries.map (Literal.text p.symbols) ∧
      (p'.clauses.map fun c => c.standardize.text p'.symbols) = p.clauses.map fun c => c.standardize.text p.symbols := by
  have printable := printable_ofText read
  have formed := (formed_ofText read).1
  obtain ⟨p', read', asks, tells⟩ := denotes_of_spells printable.spells
  have query : ∀ l ∈ p.queries, l.Printable p.symbols ∧ standardForm [l] = [l] := by
    obtain ⟨asked, told, spells⟩ := exists_spells_of_ofText read
    have denotes := (denotes_of_ofText read spells).queries
    have numbered : ∀ l ∈ p.queries, standardForm [l] = [l] :=
      forall_mem_of_forall₂ (fun _ _ denoted => standardForm_of_denotes (.cons denoted .nil)) denotes
    exact fun l member => ⟨printable.queries l member, numbered l member⟩
  have clause : ∀ c ∈ p.clauses, c.Formed p.symbols ∧ ∀ l ∈ c.literals, l.Printable p.symbols :=
    fun c member => ⟨formed c member, (printable.clauses c member).2⟩
  rw [List.forall₂_map_left_iff] at asks tells
  have queries : List.Forall₂ (fun l l' => l.text p.symbols = l'.text p'.symbols) p.queries p'.queries := by
    refine ((List.forall₂_and_left _ _).mpr ⟨query, asks⟩).imp ?_
    intro l l' ⟨⟨readable, fixed⟩, denotes⟩
    exact (Literal.text_of_denotes readable fixed denotes).symm
  have clauses : List.Forall₂ (fun c c' => c.standardize.text p.symbols = c'.standardize.text p'.symbols)
      p.clauses p'.clauses := by
    refine ((List.forall₂_and_left _ _).mpr ⟨clause, tells⟩).imp ?_
    intro c c' ⟨⟨made, readable⟩, denotes⟩
    exact (Clause.text_of_denotes made readable denotes).symm
  refine ⟨p', read', queries.length_eq.symm, clauses.length_eq.symm, ?_, ?_⟩
  · rw [eq_comm, ← List.forall₂_eq_eq_eq, List.forall₂_map_left_iff, List.forall₂_map_right_iff]
    exact queries
  · rw [eq_comm, ← List.forall₂_eq_eq_eq, List.forall₂_map_left_iff, List.forall₂_map_right_iff]
    exact clauses

/-- Reading sorts the sentence by predicate, so it is printed with `x1` before `x0`. -/
def Problem.unsorted : String := "1\nAbove(y, B)\n1\nOn(x, y) | ~Clear(next(y)) | Above(y, x)\n"

theorem Problem.unsorted_round_trips : ∃ p p', Problem.ofText unsorted = .ok p ∧ Problem.ofText p.text = .ok p' ∧
    p'.queries.map (Literal.text p'.symbols) = p.queries.map (Literal.text p.symbols) ∧
    (p'.clauses.map fun c => c.standardize.text p'.symbols) = p.clauses.map fun c => c.standardize.text p.symbols := by
  obtain ⟨p, read⟩ := Problem.exists_ofText unsorted (by decide +kernel)
  obtain ⟨p', read', -, -, queries, clauses⟩ := Problem.text_round_trips read
  exact ⟨p, p', read, read', queries, clauses⟩

end Refutation
