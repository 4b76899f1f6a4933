import Refutation.Proofs.Acceptance

/-!
What is printed is in the grammar of what is read. A printed term spells the phrase that it would be read from: a
constant and a function by its name, a variable by a name of its own that no constant has. This needs that names in
the table can be read at all, which holds of everything that was read.
-/

namespace Refutation

open Source

namespace Source

/-- Blanks are apart from all ranges of characters that can be in a name. -/
theorem blankRanges_apart : (Text.blankRanges.all fun b => (Text.alphabeticRanges ++ Text.numericRanges).all fun r =>
    Nat.blt r.last b.first || Nat.blt b.last r.first) = true := by decide +kernel

theorem not_isBlank_of_isNameChar {c : Char} (inName : isNameChar c = true) : Text.isBlank c = false := by
  by_contra blank
  rw [Bool.not_eq_false] at blank
  obtain ⟨b, blanks, inside⟩ := List.any_eq_true.mp blank
  rw [isNameChar, Bool.or_eq_true, beq_iff_eq] at inName
  rcases inName with letter | rfl
  · obtain ⟨r, ranges, within⟩ : ∃ r ∈ Text.alphabeticRanges ++ Text.numericRanges, r.contains c = true := by
      rw [← List.any_eq_true, List.any_append]
      exact letter
    have apart := List.all_eq_true.mp (List.all_eq_true.mp blankRanges_apart b blanks) r ranges
    rw [Bool.or_eq_true, Nat.blt_eq, Nat.blt_eq] at apart
    rw [Text.Range.contains, Bool.and_eq_true, decide_eq_true_eq, decide_eq_true_eq] at inside within
    omega
  · exact absurd blank (by decide)

theorem IsName.inked {w : List Char} (name : IsName w) : ∀ c ∈ w, Text.isBlank c = false := by
  intro c member
  obtain ⟨first, rest, rfl, starts, goesOn⟩ := name.exists_cons
  rcases List.mem_cons.mp member with rfl | later
  · exact not_isBlank_of_isNameChar (isNameChar_of_isNameStart starts)
  · exact not_isBlank_of_isNameChar (goesOn c later)

mutual

/-- Nothing that the grammar derives has a blank in it. -/
theorem SpellsTerm.inked {w : List Char} {phrase : Phrase} :
    SpellsTerm w phrase → ∀ c ∈ w, Text.isBlank c = false
  | .name isName => isName.inked
  | .call isName args => List.forall_mem_append.mpr ⟨isName.inked, args.inked⟩

theorem SpellsArgs.inked {w : List Char} {phrases : List Phrase} :
    SpellsArgs w phrases → ∀ c ∈ w, Text.isBlank c = false
  | .none => List.forall_mem_cons.mpr ⟨rfl, List.forall_mem_singleton.mpr rfl⟩
  | .some terms => by
      refine List.forall_mem_append.mpr ⟨List.forall_mem_cons.mpr ⟨by decide, terms.inked⟩, ?_⟩
      exact List.forall_mem_singleton.mpr (by decide)

theorem SpellsTerms.inked {w : List Char} {phrases : List Phrase} :
    SpellsTerms w phrases → ∀ c ∈ w, Text.isBlank c = false
  | .one term => term.inked
  | .more term terms =>
      List.forall_mem_append.mpr ⟨term.inked, List.forall_mem_cons.mpr ⟨by decide, terms.inked⟩⟩

end

theorem SpellsLiteral.inked {w : List Char} {phrase : LiteralPhrase} (spells : SpellsLiteral w phrase) :
    ∀ c ∈ w, Text.isBlank c = false := by
  cases spells with
  | positive isName args => exact List.forall_mem_append.mpr ⟨isName.inked, args.inked⟩
  | negative isName args =>
      exact List.forall_mem_append.mpr ⟨List.forall_mem_cons.mpr ⟨by decide, isName.inked⟩, args.inked⟩

theorem bare_append (w u : List Char) : bare (w ++ u) = bare w ++ bare u := List.filter_append ..

theorem lineEnd_not_mem {w : List Char} (inked : ∀ c ∈ w, Text.isBlank c = false) : '\n' ∉ w := fun member =>
  absurd (inked _ member) (by decide)

theorem bare_eq_self {w : List Char} (inked : ∀ c ∈ w, Text.isBlank c = false) : bare w = w :=
  List.filter_eq_self.mpr fun c member => by rw [inked c member]; rfl

end Source

/-- The name of a variable as it is printed. -/
def varName (x : VarId) : String := String.ofList ('x' :: Nat.toDigits 10 x)

theorem toList_varName (x : VarId) : (varName x).toList = 'x' :: Nat.toDigits 10 x := String.toList_ofList

theorem varName_injective : Function.Injective varName := by
  intro x y same
  have digits : Nat.toDigits 10 x = Nat.toDigits 10 y := by
    have chars := congrArg String.toList same
    rw [toList_varName, toList_varName] at chars
    exact (List.cons.inj chars).2
  have values := congrArg (fun digits => Nat.ofDigitChars 10 digits 0) digits
  simpa only [Nat.ofDigitChars_ten_toDigits] using values

theorem isConstantName_varName (x : VarId) : isConstantName (varName x) = false := by
  rw [isConstantName, toList_varName, List.head?_cons, Option.map_some, Option.getD_some]
  decide +kernel

theorem isNameChar_of_isDigit {c : Char} (digit : c.isDigit = true) : isNameChar c = true := by
  have each : ∀ i < 10, isNameChar (Char.ofNat (48 + i)) = true := by decide +kernel
  have range : 48 ≤ c.toNat ∧ c.toNat ≤ 57 := by simpa [Char.isDigit, UInt32.le_iff_toNat_le] using digit
  have here := each (c.toNat - 48) (by omega)
  rwa [Nat.add_sub_cancel' range.1, Char.ofNat_toNat] at here

theorem isName_varName (x : VarId) : IsName (varName x).toList := by
  rw [toList_varName]
  refine ⟨by decide +kernel, fun c member => isNameChar_of_isDigit ?_⟩
  exact Nat.isDigit_of_mem_toDigits (by decide) (by decide) member

mutual

/-- The phrase that a term is printed as. -/
def Term.phrase (symbols : Symbols) : Term → Phrase
  | .const c => .name (symbols.name c)
  | .var x => .name (varName x)
  | .app f args => .call (symbols.name f) (phraseAll symbols args)

def Term.phraseAll (symbols : Symbols) : List Term → List Phrase
  | [] => []
  | t :: ts => t.phrase symbols :: phraseAll symbols ts

end

def Literal.phrase (symbols : Symbols) (l : Literal) : LiteralPhrase :=
  ⟨l.positive, symbols.name l.predicate, Term.phraseAll symbols l.args⟩

/-- Whether the names in a term can be read again as what they are names of. -/
inductive Term.Printable (symbols : Symbols) : Term → Prop
  | const {c : SymbolId} : c < symbols.size → IsName (symbols.name c).toList →
      isConstantName (symbols.name c) = true → Term.Printable symbols (.const c)
  | var (x : VarId) : Term.Printable symbols (.var x)
  | app {f : SymbolId} {args : List Term} : f < symbols.size → IsName (symbols.name f).toList →
      (∀ t ∈ args, Term.Printable symbols t) → Term.Printable symbols (.app f args)

def Literal.Printable (symbols : Symbols) (l : Literal) : Prop := l.atom.Printable symbols

variable {symbols : Symbols} {scope : List String}

section Read

theorem isName_of_name? {w : List Char} (isName : IsName w) {id : SymbolId}
    (named : symbols.name? id = some (String.ofList w)) :
    id < symbols.size ∧ IsName (symbols.name id).toList ∧ symbols.name id = String.ofList w := by
  obtain ⟨known, same⟩ := Symbols.name?_eq_some_iff.mp named
  rw [same, String.toList_ofList]
  exact ⟨known, isName, rfl⟩

mutual

/-- What a term that is spelled out denotes can be printed. -/
theorem Source.SpellsTerm.printable {w : List Char} {phrase : Phrase} {t : Term} :
    SpellsTerm w phrase → phrase.Denotes symbols scope t → t.Printable symbols
  | .name isName, .const upper named => by
      obtain ⟨known, isName', same⟩ := isName_of_name? isName named
      exact .const known isName' (same ▸ upper)
  | .name _, .var _ _ => .var _
  | .call isName args, .app named terms => by
      obtain ⟨known, isName', -⟩ := isName_of_name? isName named
      exact .app known isName' (args.printable terms)

theorem Source.SpellsArgs.printable {w : List Char} {phrases : List Phrase} {ts : List Term} :
    SpellsArgs w phrases → Phrase.DenotesAll symbols scope phrases ts → ∀ t ∈ ts, t.Printable symbols
  | .none, .nil => fun _ member => absurd member List.not_mem_nil
  | .some terms, denotes => terms.printable denotes

theorem Source.SpellsTerms.printable {w : List Char} {phrases : List Phrase} {ts : List Term} :
    SpellsTerms w phrases → Phrase.DenotesAll symbols scope phrases ts → ∀ t ∈ ts, t.Printable symbols
  | .one term, .cons first .nil => List.forall_mem_singleton.mpr (term.printable first)
  | .more term terms, .cons first rest => List.forall_mem_cons.mpr ⟨term.printable first, terms.printable rest⟩

end

theorem Source.SpellsLiteral.printable {w : List Char} {phrase : LiteralPhrase} {l : Literal}
    (spells : SpellsLiteral w phrase) (denotes : phrase.Denotes symbols scope l) : l.Printable symbols := by
  obtain ⟨-, named, terms⟩ := denotes
  cases spells with
  | positive isName args =>
      obtain ⟨known, isName', -⟩ := isName_of_name? isName named
      exact .app known isName' (args.printable terms)
  | negative isName args =>
      obtain ⟨known, isName', -⟩ := isName_of_name? isName named
      exact .app known isName' (args.printable terms)

theorem Source.SpellsLine.printable {kind : Kind} {w : List Char} {phrases : List LiteralPhrase}
    {literals : List Literal} (spells : SpellsLine kind w phrases)
    (denotes : List.Forall₂ (LiteralPhrase.Denotes symbols scope) phrases literals) :
    literals ≠ [] ∧ ∀ l ∈ literals, l.Printable symbols := by
  induction spells generalizing literals with
  | one spells =>
      obtain ⟨l, rest, first, none, rfl⟩ := List.forall₂_cons_left_iff.mp denotes
      rw [List.forall₂_nil_left_iff.mp none]
      exact ⟨by simp, List.forall_mem_singleton.mpr (spells.printable first)⟩
  | more spells _ ih =>
      obtain ⟨l, rest, first, others, rfl⟩ := List.forall₂_cons_left_iff.mp denotes
      exact ⟨by simp, List.forall_mem_cons.mpr ⟨spells.printable first, (ih others).2⟩⟩

end Read

section Printed

/-- Arguments are printed with commas between them, in parentheses. -/
theorem Term.spellsArgs_charsAll {args : List Term}
    (each : ∀ t ∈ args, SpellsTerm (t.chars symbols) (t.phrase symbols)) :
    SpellsArgs ('(' :: charsAll symbols args ++ [')']) (phraseAll symbols args) := by
  have terms : ∀ t ts, (∀ s ∈ t :: ts, SpellsTerm (s.chars symbols) (s.phrase symbols)) →
      SpellsTerms (charsAll symbols (t :: ts)) (phraseAll symbols (t :: ts)) := by
    intro t ts
    induction ts generalizing t with
    | nil =>
        intro each
        exact .one (each t (List.mem_singleton_self t))
    | cons s ts ih =>
        intro each
        obtain ⟨first, rest⟩ := List.forall_mem_cons.mp each
        exact .more first (ih s rest)
  cases args with
  | nil => exact .none
  | cons t ts => exact .some (terms t ts each)

theorem Term.Printable.spells {t : Term} (printable : t.Printable symbols) :
    SpellsTerm (t.chars symbols) (t.phrase symbols) := by
  induction printable with
  | @const c _ isName _ =>
      have named := SpellsTerm.name isName
      rwa [String.ofList_toList] at named
  | var x =>
      have named := SpellsTerm.name (isName_varName x)
      rwa [String.ofList_toList, toList_varName] at named
  | @app f args _ isName _ ih =>
      have called := SpellsTerm.call isName (Term.spellsArgs_charsAll ih)
      rw [String.ofList_toList] at called
      rw [chars, List.append_assoc]
      exact called

theorem Literal.Printable.spells {l : Literal} (printable : l.Printable symbols) :
    SpellsLiteral (l.chars symbols) (l.phrase symbols) := by
  obtain ⟨positive, predicate, args⟩ := l
  cases printable with
  | app _ isName terms =>
      have spelled := Term.spellsArgs_charsAll fun t member => (terms t member).spells
      cases positive with
      | true =>
          have literal := SpellsLiteral.positive isName spelled
          rw [String.ofList_toList] at literal
          rw [chars, if_pos rfl, atom, Term.chars, List.append_assoc]
          exact literal
      | false =>
          have literal := SpellsLiteral.negative isName spelled
          rw [String.ofList_toList] at literal
          rw [chars, if_neg (by simp), atom, Term.chars, List.append_assoc]
          exact literal

/-- A clause is printed as a sentence: between the literals are bars, and blanks that reading passes over. -/
theorem Clause.spellsLine_charsOf {literals : List Literal} (some : literals ≠ [])
    (printable : ∀ l ∈ literals, l.Printable symbols) :
    SpellsLine .sentence (bare (charsOf symbols literals)) (literals.map (Literal.phrase symbols)) := by
  induction literals with
  | nil => exact absurd rfl some
  | cons l ls ih =>
      obtain ⟨first, rest⟩ := List.forall_mem_cons.mp printable
      cases ls with
      | nil =>
          rw [charsOf, bare_eq_self first.spells.inked]
          exact .one first.spells
      | cons k ls =>
          have bars : bare (' ' :: '|' :: ' ' :: charsOf symbols (k :: ls)) =
              '|' :: bare (charsOf symbols (k :: ls)) := rfl
          rw [charsOf, bare_append, bare_eq_self first.spells.inked, bars]
          · exact .more first.spells (ih (by simp) rest)
          · simp

theorem Clause.not_mem_charsOf {literals : List Literal} (printable : ∀ l ∈ literals, l.Printable symbols) :
    '\n' ∉ charsOf symbols literals := by
  induction literals with
  | nil => exact List.not_mem_nil
  | cons l ls ih =>
      obtain ⟨first, rest⟩ := List.forall_mem_cons.mp printable
      cases ls with
      | nil => exact lineEnd_not_mem first.spells.inked
      | cons k ls =>
          rw [charsOf]
          · simp only [List.mem_append, List.mem_cons, not_or]
            exact ⟨lineEnd_not_mem first.spells.inked, by decide, by decide, by decide, ih rest⟩
          · simp

theorem Source.SpellsLiteral.ne_nil {w : List Char} {phrase : LiteralPhrase} (spells : SpellsLiteral w phrase) :
    w ≠ [] := by
  cases spells with
  | positive isName _ =>
      obtain ⟨first, rest, rfl, -⟩ := isName.exists_cons
      simp
  | negative isName _ => simp

theorem Source.SpellsLine.ne_nil {kind : Kind} {w : List Char} {phrases : List LiteralPhrase}
    (spells : SpellsLine kind w phrases) : w ≠ [] := by
  cases spells with
  | one literal => exact literal.ne_nil
  | more literal _ => simp

/-- A number is printed as a count of its value. -/
theorem Source.spellsCount_toDigits {n : Nat} (small : n < Nat.pow 2 64) : SpellsCount (Nat.toDigits 10 n) n := by
  have value : decimal (Nat.toDigits 10 n) = n := by
    rw [← digitsValue_eq]
    exact Nat.ofDigitChars_ten_toDigits
  have counted : SpellsCount ([] ++ ([] ++ Nat.toDigits 10 n) ++ []) (decimal (Nat.toDigits 10 n)) :=
    .mk (by simp) (by simp) (.inl rfl) Nat.toDigits_ne_nil
      (fun d member => Nat.isDigit_of_mem_toDigits (by decide) (by decide) member) (by rwa [value])
  rwa [value, List.nil_append, List.nil_append, List.append_nil] at counted

theorem Source.inked_toDigits (n : Nat) : ∀ c ∈ Nat.toDigits 10 n, Text.isBlank c = false := fun _ member =>
  not_isBlank_of_isDigit (Nat.isDigit_of_mem_toDigits (by decide) (by decide) member)

/-- Lines that are not blank, each with its end, are the lines of the text that they make. -/
theorem Source.contentLines_ofList {lines : List (List Char)}
    (whole : ∀ line ∈ lines, '\n' ∉ line ∧ bare line ≠ []) :
    contentLines (String.ofList (lines.flatMap (· ++ ['\n']))) = lines := by
  rw [contentLines, String.toList_ofList]
  induction lines with
  | nil => rfl
  | cons line lines ih =>
      obtain ⟨⟨unbroken, inked⟩, rest⟩ := List.forall_mem_cons.mp whole
      have kept : (!line.all Text.isBlank) = true := by
        simpa [bare, List.filter_eq_nil_iff] using inked
      rw [List.flatMap_cons, List.append_assoc, List.singleton_append,
        List.splitOn_append_cons_self_of_not_mem unbroken, List.filter_cons, if_pos kept, ih rest]

/-- The lines of a printed problem. -/
def Problem.printed (p : Problem) : List (List Char) :=
  Nat.toDigits 10 p.queries.length :: p.queries.map (Literal.chars p.symbols) ++
    Nat.toDigits 10 p.clauses.length :: p.clauses.map fun c => Clause.charsOf p.symbols c.literals

theorem Problem.text_eq_printed {p : Problem} (some : ∀ c ∈ p.clauses, c.literals ≠ []) :
    p.text = String.ofList (p.printed.flatMap (· ++ ['\n'])) := by
  have texts : ∀ c ∈ p.clauses, c.text p.symbols = String.ofList (Clause.charsOf p.symbols c.literals) := by
    intro c member
    rw [Clause.text, if_neg (by simpa [Clause.isEmpty] using some c member)]
  have number : ∀ n : Nat, n.repr.toList = Nat.toDigits 10 n := by
    intro n
    rw [Nat.repr_eq_ofList_toDigits, String.toList_ofList]
  have lineEnd : "\n".toList = ['\n'] := rfl
  have clauses : (p.clauses.map fun c => c.text p.symbols ++ "\n") =
      p.clauses.map fun c => String.ofList (Clause.charsOf p.symbols c.literals) ++ "\n" :=
    List.map_congr_left fun c member => congrArg (· ++ "\n") (texts c member)
  apply String.toList_inj.mp
  simp only [text, clauses, printed, Literal.text, String.toList_append, String.toList_join, number,
    List.flatMap_append, List.flatMap_map, List.flatMap_cons, String.toList_ofList, toString, lineEnd, List.append_assoc]

/-- Whether a problem is printed as a text that can be read. -/
structure Problem.Printable (p : Problem) : Prop where
  queries : ∀ l ∈ p.queries, l.Printable p.symbols
  clauses : ∀ c ∈ p.clauses, c.literals ≠ [] ∧ ∀ l ∈ c.literals, l.Printable p.symbols
  asked : p.queries.length < Nat.pow 2 64
  told : p.clauses.length < Nat.pow 2 64

/-- Whatever is printed on a line is not blank and does not end it. -/
theorem Problem.Printable.whole {p : Problem} (printable : p.Printable) :
    ∀ line ∈ p.printed, '\n' ∉ line ∧ bare line ≠ [] := by
  have inked : ∀ line : List Char, (∀ c ∈ line, Text.isBlank c = false) → line ≠ [] →
      '\n' ∉ line ∧ bare line ≠ [] := by
    intro line inked some
    rw [bare_eq_self inked]
    exact ⟨lineEnd_not_mem inked, some⟩
  have number : ∀ n, '\n' ∉ Nat.toDigits 10 n ∧ bare (Nat.toDigits 10 n) ≠ [] := fun n =>
    inked _ (inked_toDigits n) Nat.toDigits_ne_nil
  refine List.forall_mem_append.mpr ⟨List.forall_mem_cons.mpr ⟨number _, ?_⟩, List.forall_mem_cons.mpr ⟨number _, ?_⟩⟩
  · rw [List.forall_mem_map]
    intro l member
    have spells := (printable.queries l member).spells
    exact inked _ spells.inked spells.ne_nil
  · rw [List.forall_mem_map]
    intro c member
    obtain ⟨some, literals⟩ := printable.clauses c member
    exact ⟨Clause.not_mem_charsOf literals, (Clause.spellsLine_charsOf some literals).ne_nil⟩

/-- A printed problem spells, line by line, the phrases of its queries and of the literals of its clauses. -/
theorem Problem.Printable.spells {p : Problem} (printable : p.Printable) :
    SpellsProblem (contentLines p.text) (p.queries.map (Literal.phrase p.symbols))
      (p.clauses.map fun c => c.literals.map (Literal.phrase p.symbols)) := by
  rw [Problem.text_eq_printed fun c member => (printable.clauses c member).1, contentLines_ofList printable.whole]
  refine .mk ?_ ?_ ?_ ?_
  · rw [List.length_map]
    exact spellsCount_toDigits printable.asked
  · rw [List.forall₂_map_left_iff, List.forall₂_map_right_iff, List.forall₂_same]
    intro l member
    have spells := (printable.queries l member).spells
    rwa [bare_eq_self spells.inked]
  · rw [List.length_map]
    exact spellsCount_toDigits printable.told
  · rw [List.forall₂_map_left_iff, List.forall₂_map_right_iff, List.forall₂_same]
    intro c member
    exact Clause.spellsLine_charsOf (printable.clauses c member).1 (printable.clauses c member).2

end Printed

/-- What was read from a text can be printed. -/
theorem Problem.printable_ofText {text : String} {p : Problem} (read : ofText text = .ok p) : p.Printable := by
  obtain ⟨asked, told, spells⟩ := exists_spells_of_ofText read
  obtain ⟨asks, tells⟩ := denotes_of_ofText read spells
  generalize contentLines text = lines at spells
  cases spells with
  | mk counted queries counted' sentences =>
      have literal : ∀ phrase ∈ asked, ∃ w, SpellsLiteral w phrase :=
        forall_mem_of_forall₂ (fun _ _ spells => ⟨_, spells⟩) queries
      have sentence : ∀ phrases ∈ told, ∃ w, SpellsLine .sentence w phrases :=
        forall_mem_of_forall₂ (fun _ _ spells => ⟨_, spells⟩) sentences
      refine ⟨?_, ?_, ?_, ?_⟩
      · refine forall_mem_of_forall₂ ?_ ((List.forall₂_and_left _ _).mpr ⟨literal, asks⟩)
        intro phrase l ⟨⟨w, spells⟩, denotes⟩
        exact spells.printable denotes
      · refine forall_mem_of_forall₂ ?_ ((List.forall₂_and_left _ _).mpr ⟨sentence, tells⟩)
        intro phrases c ⟨⟨w, spells⟩, literals, denotes, made⟩
        obtain ⟨some, printable⟩ := spells.printable denotes
        have members : ∀ l, l ∈ c.literals ↔ l ∈ literals := by
          intro l
          rw [made, Clause.mem_ofLiterals]
        obtain ⟨l, member⟩ := List.exists_mem_of_ne_nil literals some
        exact ⟨List.ne_nil_of_mem ((members l).mpr member), fun l member => printable l ((members l).mp member)⟩
      · rw [← asks.length_eq, ← queries.length_eq]
        exact counted.lt
      · rw [← tells.length_eq, ← sentences.length_eq]
        exact counted'.lt

end Refutation
