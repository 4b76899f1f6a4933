import Refutation.Entailment
import Refutation.Source.Document

/-!
Reading and searching with every lookup made explicit. The definitions elsewhere are total: a number outside the
symbol table has the empty name, literals are picked without an index, a literal under a substitution is a literal.
Here the same is computed by operations that can fail. Names are looked up in the table. Literals of a clause and
clauses of a pass are taken by their indices, positive literals being those from the place where a clause is divided,
and an arrangement is extended only if a literal is left for it. What a substitution or a renaming makes of an atom has
to be an application. Two literals that are resolved on have to be complementary under their unifier, and a query has
to be one literal.

Which literals a sort or the search for the least form compares is left open, so all that could be are compared.
-/

namespace Refutation

/-- What can go wrong in a lookup. -/
inductive Fault where
  | unknownSymbol (id : SymbolId)
  | notApplication (atom : Term)
  | outOfRange (index size : Nat)
  | notComplementary (left right : Literal)
  | notOneLiteral (literals : List Literal)

abbrev Guarded := Except Fault

namespace Guarded

def elementAt {α : Type} (as : List α) (i : Nat) : Guarded α :=
  match as[i]? with
  | some a => .ok a
  | none => .error (.outOfRange i as.length)

/-- The elements from a place on, which may be the end. -/
def sliceFrom {α : Type} (as : List α) (i : Nat) : Guarded (List α) :=
  if i ≤ as.length then .ok (as.drop i) else .error (.outOfRange i as.length)

/-- The element at a place, with the others. -/
def pick {α : Type} (as : List α) (i : Nat) : Guarded (α × List α) := do
  return (← elementAt as i, as.eraseIdx i)

/-- Collects the results of a computation that may have none. -/
def collect {α β : Type} (f : α → Guarded (Option β)) : List α → Guarded (List β)
  | [] => .ok []
  | a :: as => do
      let b ← f a
      let bs ← collect f as
      return b.toList ++ bs

section Literals

variable (symbols : Symbols)

def name (id : SymbolId) : Guarded String :=
  match symbols.name? id with
  | some name => .ok name
  | none => .error (.unknownSymbol id)

/-- Goes on to a second comparison only after a tie. -/
def andThen (first : Ordering) (second : Guarded Ordering) : Guarded Ordering :=
  match first with
  | .eq => second
  | order => .ok order

/-- Variables come before constants and constants before applications. -/
def rank : Term → Nat
  | .var _ => 0
  | .const _ => 1
  | .app _ _ => 2

variable (onVars : VarId → VarId → Ordering)

mutual

def compareTerms : Term → Term → Guarded Ordering
  | .var x, .var y => .ok (onVars x y)
  | .const c, .const d => do return compare (← name symbols c) (← name symbols d)
  | .app f ss, .app g ts => do
      andThen (compare (← name symbols f) (← name symbols g))
        (andThen (compare ss.length ts.length) (compareArgs ss ts))
  | s, t => .ok (compare (rank s) (rank t))

def compareArgs : List Term → List Term → Guarded Ordering
  | s :: ss, t :: ts => do andThen (← compareTerms s t) (compareArgs ss ts)
  | _, _ => .ok .eq

end

def compareLiterals (l r : Literal) : Guarded Ordering :=
  andThen (compare l.positive r.positive) (compareTerms symbols onVars l.atom r.atom)

/-- Compares every two of some literals. -/
def compareAll (literals : List Literal) : Guarded Unit :=
  literals.forM fun l => literals.forM fun r => do
    let _ ← compareLiterals symbols onVars l r

/-- The literal of a sign and an atom. -/
def literal (positive : Bool) : Term → Guarded Literal
  | .app f args => .ok ⟨positive, f, args⟩
  | atom => .error (.notApplication atom)

def subst (θ : VarId → Term) (l : Literal) : Guarded Literal := literal l.positive (l.atom.subst θ)

def rename (ρ : VarId → VarId) (l : Literal) : Guarded Literal := literal l.positive (l.atom.rename ρ)

mutual

def chars : Term → Guarded (List Char)
  | .const c => do return (← name symbols c).toList
  | .var x => .ok ('x' :: Nat.toDigits 10 x)
  | .app f args => do
      let function ← name symbols f
      let inside ← charsAll args
      return function.toList ++ '(' :: inside ++ [')']

def charsAll : List Term → Guarded (List Char)
  | [] => .ok []
  | [t] => chars t
  | t :: ts => do
      let first ← chars t
      let rest ← charsAll ts
      return first ++ ',' :: rest

end

def text (l : Literal) : Guarded String := do
  let atom ← chars symbols l.atom
  return String.ofList (if l.positive then atom else '~' :: atom)

end Literals

section Clauses

variable (symbols : Symbols)

def sort (literals : List Literal) : Guarded (List Literal) := do
  compareAll symbols (fun _ _ => .eq) literals
  return literals.mergeSort fun l r => (l.compare symbols r).isLE

def place (a : Arrangement) (l : Literal) (rest : List Literal) : Guarded (Literal × Arrangement) := do
  let standard ← rename (a.naming.addAll l.vars).index l
  return (standard, (a.place l rest).2)

/-- The arrangements one literal longer; there has to be a literal that has no place yet. -/
def successors (a : Arrangement) : Guarded (List (Literal × Arrangement)) := do
  let first ← elementAt a.rest 0
  let entries ← (List.range a.rest.length).mapM (pick a.rest)
  let tied ← collect (fun p => do
    let order ← compareLiterals symbols (fun _ _ => .eq) p.1 first
    return Option.guard (fun _ => order == .eq) p) entries
  tied.mapM fun p => place a p.1 p.2

def extend (frontier : List Arrangement) : Guarded (List Arrangement) := do
  let blocks ← frontier.mapM (successors symbols)
  compareAll symbols (fun x y => compare x y) (blocks.flatten.map Prod.fst)
  return distinctBy Arrangement.key ((minima (Literal.compareExact symbols) blocks.flatten).map Prod.snd)

def frontier (sorted : List Literal) : Nat → Guarded (List Arrangement)
  | 0 => .ok [.start sorted]
  | n + 1 => do extend symbols (← frontier sorted n)

/-- Makes a clause of some literals. -/
def ofLiterals (literals : List Literal) : Guarded Clause := do
  let sorted ← sort symbols literals.eraseDups
  let last ← frontier symbols sorted sorted.length
  let best := last.getLast?.getD (.start sorted)
  return ⟨best.chosen, leadingNegatives best.chosen, best.standard, rfl, best.standardized⟩

def renameClause (c : Clause) (supply : Supply) : Guarded (Clause × Supply) := do
  let _ ← c.literals.mapM (rename (supply.issue (.ofList c.vars)).1)
  return c.rename supply

def renameAll : List Clause → Supply → Guarded (List Clause × Supply)
  | [], supply => .ok ([], supply)
  | c :: cs, supply => do
      let (fresh, after) ← renameClause c supply
      let (others, last) ← renameAll cs after
      return (fresh :: others, last)

/-- Where the literals of a sign are: negative ones come before the division, positive ones behind it. -/
def range (c : Clause) : Bool → List Nat
  | false => List.range c.split
  | true => List.range' c.split (c.literals.length - c.split)

def resolveOn (clash : Clash) : Guarded (Option Clause) :=
  if clash.left.predicate = clash.right.predicate then
    match Bindings.empty.unify clash.left.atom clash.right.atom with
    | none => .ok none
    | some m => do
        let left ← subst m.image clash.left
        let right ← subst m.image clash.right
        unless left.complements right do throw (.notComplementary left right)
        let survivors ← (clash.leftRest ++ clash.rightRest).mapM (subst m.image)
        return some (← ofLiterals symbols survivors)
  else .ok none

def clashes (c d : Clause) (sign : Bool) : Guarded (List Clash) := do
  let lefts ← (range c sign).mapM (pick c.literals)
  let rights ← (range d !sign).mapM (pick d.literals)
  return lefts.flatMap fun p => rights.map fun q => ⟨p.1, p.2, q.1, q.2⟩

def resolve (c d : Clause) (supply : Supply) : Guarded (List Clause × Supply) := do
  let blocks ← [true, false].mapM (clashes c d)
  let resolvents ← collect (resolveOn symbols) blocks.flatten
  let (renamed, after) ← renameAll resolvents supply
  return (distinctBy Clause.canonical renamed, after)

end Clauses

section Searches

variable (policy : Policy) (symbols : Symbols) (clock : Clock)

/-- Every two clauses of a pass: one by its index, with those in the slice behind it. -/
def pairs (snapshot : List Clause) : Guarded (List (Clause × Clause)) := do
  let blocks ← (List.range snapshot.length).mapM fun i => do
    let left ← elementAt snapshot i
    let later ← sliceFrom snapshot (i + 1)
    return later.map fun right => (left, right)
  return blocks.flatten

def lookAt (c d : Clause) (search : Search) : Guarded Status :=
  if policy.skips && !c.complementary d then
    .ok (.running { search with tally := search.tally.count .skipped })
  else do
    let (found, supply) ← resolve symbols c d search.supply
    let resolvents := policy.enumerate search.looks found
    let tally := (search.tally.count .examined).count (.resolvents resolvents.length)
    if resolvents.any Clause.isEmpty then
      return .finished ⟨.refuted, { search with supply, tally }⟩
    else
      return .running { search with found := search.found.insertAll resolvents, supply, tally }

def scan : List (Clause × Clause) → Search → Guarded Status
  | [], search => .ok (.running search)
  | (c, d) :: rest, search =>
      if clock search.looks then .ok (.finished ⟨.timedOut, search⟩)
      else do
        match ← lookAt policy symbols c d search with
        | .finished outcome => return .finished outcome
        | .running search => scan rest search

def pass (search : Search) : Guarded Status := do
  let listed ← pairs search.snapshot
  match ← scan policy symbols clock listed search.beginPass with
  | .finished outcome => return .finished outcome
  | .running search => return search.endPass

def runFor : Nat → Search → Guarded Status
  | 0, search => .ok (.running search)
  | n + 1, search => do
      match ← pass policy symbols clock search with
      | .finished outcome => return .finished outcome
      | .running search => runFor n search

def saturateFor (passes : Nat) (search : Search) : Guarded Status :=
  if search.known.toList.any Clause.isEmpty then .ok (.finished ⟨.refuted, search⟩)
  else runFor policy symbols clock passes search

def search (p : Problem) (query : Literal) : Guarded Search := do
  let negated ← ofLiterals p.symbols [query.negate]
  let (clauses, supply) ← renameAll (negated :: p.clauses) ⟨0⟩
  return .start (.ofList clauses) supply

/-- Searches for so many passes for a refutation of each query, and writes the query. -/
def proveAll (p : Problem) (passes : Nat) : Guarded (List (String × Status)) :=
  p.queries.mapM fun query => do
    let status ← saturateFor policy p.symbols clock passes (← search p query)
    return (← text p.symbols query, status)

end Searches

section Reading

open Source

def readInto (kind : Kind) (b : Builder) (line : NumberedLine) : Guarded (Except InputError Builder) :=
  match readLine kind (line.chars.filter fun c => !Text.isBlank c) with
  | .error mismatch => .ok (.error (.malformed line.number mismatch))
  | .ok phrases =>
      let b := phrases.foldl Builder.addPhrase b
      match kind with
      | .sentence => do
          let clause ← ofLiterals b.symbols b.pending
          return .ok { b with clauses := b.clauses ++ [clause], pending := [], scope := .empty }
      | .query =>
          match b.pending with
          | [literal] => .ok (.ok { b with queries := b.queries ++ [literal], pending := [], scope := .empty })
          | literals => .error (.notOneLiteral literals)

def readLines (kind : Kind) : Builder → List NumberedLine → Guarded (Except InputError Builder)
  | b, [] => .ok (.ok b)
  | b, line :: rest => do
      match ← readInto kind b line with
      | .ok b => readLines kind b rest
      | .error error => return .error error

/-- Reads a problem from its text. -/
def ofText (text : String) : Guarded (Except InputError Problem) :=
  match takeSection .query (linesOf text) with
  | .error error => .ok (.error error)
  | .ok (queries, rest) => do
      match ← readLines .query .empty queries with
      | .error error => return .error error
      | .ok b =>
          match takeSection .sentence rest with
          | .error error => return .error error
          | .ok (sentences, rest) =>
              match ← readLines .sentence b sentences with
              | .error error => return .error error
              | .ok b =>
                  match rest with
                  | [] => return .ok b.finish
                  | line :: _ => return .error (.trailing line.number)

end Reading

end Guarded

end Refutation
