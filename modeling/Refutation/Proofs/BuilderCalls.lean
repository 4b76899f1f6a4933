import Mathlib.Data.List.DropRight
import Refutation.Proofs.FaultFreedom
import Refutation.Proofs.Interning

/-!
Sequences of calls on a builder. What a builder holds is a function of the calls that were made on it: the names that
they entered make its table, those of variables since the last closing call make its scope, the literals since then are
at hand, and every closing call has left a clause or a query. One equation for each kind of call says so, and with it
what the call resets and what it leaves alone.

The table grows after a clause was made. A name that is entered keeps its number, so the clause is the one that the last
table makes.
-/

namespace Refutation

namespace Builder

inductive Call where
  | const (name : String)
  | var (name : String)
  | app (name : String) (args : List Term)
  | literal (positive : Bool) (name : String) (args : List Term)
  | clause
  | query
deriving DecidableEq

namespace Call

/-- The name that a call enters into the symbol table. -/
def symbolName : Call → Option String
  | .const name => some name
  | .app name _ => some name
  | .literal _ name _ => some name
  | _ => none

/-- The name of a variable that a call asks for. -/
def variableName : Call → Option String
  | .var name => some name
  | _ => none

/-- Whether a call closes the clause or query that is being built. -/
def closes : Call → Bool
  | .clause => true
  | .query => true
  | _ => false

/-- The terms that are passed. -/
def args : Call → List Term
  | .app _ args => args
  | .literal _ _ args => args
  | _ => []

/-- The literal that a call adds, by the numbers of a table. -/
def literal? (table : Symbols) : Call → Option Literal
  | .literal positive name args => some ⟨positive, table.idOf name, args⟩
  | _ => none

end Call

section History

variable (calls : List Call)

/-- The names that were entered into the symbol table. -/
def enteredNames : List String := calls.filterMap Call.symbolName

def tableAfter : Symbols := .ofNames (enteredNames calls)

/-- The calls since the last one that closed a clause or query. -/
def sinceClosing : List Call := calls.rtakeWhile fun call => !call.closes

def variableNames : List String := (sinceClosing calls).filterMap Call.variableName

/-- The literals that were added since the last closing call, by the numbers of a table. -/
def literalsSince (table : Symbols) : List Literal := (sinceClosing calls).filterMap (Call.literal? table)

end History

/-- What a call returns behind others. -/
def value (before : List Call) : Call → Option Term
  | .const name => some (.const ((tableAfter before).idOf name))
  | .var name => some (.var ((Symbols.ofNames (variableNames before)).idOf name))
  | .app name args => some (.app ((tableAfter before).idOf name) args)
  | _ => none

def closedClause? (before : List Call) : Call → Option Clause
  | .clause => some (.ofLiterals (tableAfter before) (literalsSince before (tableAfter before)))
  | _ => none

def closedQuery? (before : List Call) : Call → Option Literal
  | .query => (literalsSince before (tableAfter before)).head?
  | _ => none

/-- Collects what calls yield, each with those made before it. -/
def gather {β : Type} (yields : List Call → Call → Option β) : List Call → List Call → List β
  | _, [] => []
  | before, call :: rest => (yields before call).toList ++ gather yields (before ++ [call]) rest

def returnedBy (calls : List Call) : List (Option Term) := gather (fun before call => some (value before call)) [] calls

/-- The builder that some calls lead to. -/
def after (calls : List Call) : Builder where
  symbols := tableAfter calls
  clauses := gather closedClause? [] calls
  queries := gather closedQuery? [] calls
  pending := literalsSince calls (tableAfter calls)
  scope := .ofNames (variableNames calls)

/-- Whether a query call finds exactly one literal. -/
def Single (before : List Call) (call : Call) : Prop :=
  call = .query → (literalsSince before (tableAfter before)).length = 1

/-- Whether a clause call finds all symbols of its literals in the table. -/
def Known (before : List Call) (call : Call) : Prop :=
  call = .clause → ∀ l ∈ literalsSince before (tableAfter before), l.Over (tableAfter before)

/-- Whether a call finds what it needs. -/
def Fits (before : List Call) (call : Call) : Prop := Single before call ∧ Known before call

/-- Whether only terms are passed that were returned before. -/
def Own (before : List Call) (call : Call) : Prop := ∀ t ∈ call.args, some t ∈ returnedBy before

/-- Whether something holds of every call with those made before it. -/
def AtEach (holds : List Call → Call → Prop) (calls : List Call) : Prop :=
  ∀ before call rest, calls = before ++ call :: rest → holds before call

instance (before : List Call) (call : Call) : Decidable (Single before call) :=
  inferInstanceAs (Decidable (call = .query → (literalsSince before (tableAfter before)).length = 1))

instance (before : List Call) (call : Call) : Decidable (Own before call) :=
  inferInstanceAs (Decidable (∀ t ∈ call.args, some t ∈ returnedBy before))

theorem atEach_iff_forall_lt {holds : List Call → Call → Prop} {calls : List Call} :
    AtEach holds calls ↔ ∀ i (inside : i < calls.length), holds (calls.take i) calls[i] := by
  constructor
  · intro each i inside
    refine each _ _ (calls.drop (i + 1)) ?_
    rw [← List.drop_eq_getElem_cons inside, List.take_append_drop]
  · rintro each before call rest rfl
    have here := each before.length (by simp)
    simpa using here

instance (holds : List Call → Call → Prop) (calls : List Call) [∀ before call, Decidable (holds before call)] :
    Decidable (AtEach holds calls) :=
  decidable_of_iff _ atEach_iff_forall_lt.symm

end Builder

namespace Guarded

open Builder (Call)

/-- Makes a call: what it returns, and the builder behind it. -/
def call (b : Builder) : Call → Guarded (Option Term × Builder)
  | .const name => .ok (some (b.const name).1, (b.const name).2)
  | .var name => .ok (some (b.var name).1, (b.var name).2)
  | .app name args => .ok (some (b.app name args).1, (b.app name args).2)
  | .literal positive name args => .ok (none, b.literal positive name args)
  | .clause => do
      let _ ← ofLiterals b.symbols b.pending
      return (none, b.clause)
  | .query =>
      match b.query? with
      | some after => .ok (none, after)
      | none => .error (.notOneLiteral b.pending)

def calls (b : Builder) : List Call → Guarded (List (Option Term) × Builder)
  | [] => .ok ([], b)
  | first :: rest => do
      let (value, b) ← call b first
      let (values, b) ← calls b rest
      return (value :: values, b)

end Guarded

namespace Builder

section History

theorem enteredNames_append (calls more : List Call) :
    enteredNames (calls ++ more) = enteredNames calls ++ enteredNames more := List.filterMap_append

theorem extends_tableAfter (calls more : List Call) : (tableAfter (calls ++ more)).Extends (tableAfter calls) := by
  rw [tableAfter, enteredNames_append]
  exact Symbols.extends_ofNames _ _

theorem tableAfter_concat {call : Call} {name : String} (enters : call.symbolName = some name) (calls : List Call) :
    tableAfter (calls ++ [call]) = ((tableAfter calls).intern name).2 := by
  have last : enteredNames [call] = [name] := by simp [enteredNames, enters]
  rw [tableAfter, enteredNames_append, last, Symbols.ofNames_concat]
  rfl

theorem tableAfter_concat_of_none {call : Call} (enters : call.symbolName = none) (calls : List Call) :
    tableAfter (calls ++ [call]) = tableAfter calls := by
  have last : enteredNames [call] = [] := by simp [enteredNames, enters]
  rw [tableAfter, enteredNames_append, last, List.append_nil, ← tableAfter]

theorem sinceClosing_concat_of_open (calls : List Call) {call : Call} (opens : call.closes = false) :
    sinceClosing (calls ++ [call]) = sinceClosing calls ++ [call] := by
  rw [sinceClosing, List.rtakeWhile_concat_pos _ _ _ (by rw [opens]; rfl), ← sinceClosing]

theorem sinceClosing_concat_of_closes (calls : List Call) {call : Call} (closes : call.closes = true) :
    sinceClosing (calls ++ [call]) = [] := by
  rw [sinceClosing, List.rtakeWhile_concat_neg _ _ _ (by rw [closes]; exact Bool.false_ne_true)]

/-- Later names leave the numbers in the literals at hand as they are. -/
theorem literalsSince_append (calls more : List Call) :
    literalsSince calls (tableAfter (calls ++ more)) = literalsSince calls (tableAfter calls) := by
  refine List.filterMap_congr fun call member => ?_
  have made : call ∈ calls := (List.rtakeWhile_suffix _ _).subset member
  cases call with
  | literal positive name args =>
      have entered : name ∈ enteredNames calls := List.mem_filterMap.mpr ⟨_, made, rfl⟩
      simp only [Call.literal?, tableAfter, enteredNames_append, Symbols.idOf_ofNames_append entered]
  | _ => rfl

section Gather

variable {β : Type} (yields : List Call → Call → Option β)

theorem gather_append (before calls more : List Call) :
    gather yields before (calls ++ more) = gather yields before calls ++ gather yields (before ++ calls) more := by
  induction calls generalizing before with
  | nil => rw [List.append_nil, gather, List.nil_append, List.nil_append]
  | cons call calls ih => simp only [List.cons_append, gather, ih, List.append_assoc, List.nil_append]

theorem gather_concat (calls : List Call) (call : Call) :
    gather yields [] (calls ++ [call]) = gather yields [] calls ++ (yields calls call).toList := by
  simp [gather_append, gather]

/-- What a call yields is found behind all that was yielded before. -/
theorem getElem?_gather {yields : List Call → Call → Option β} {before rest : List Call} {call : Call} {b : β}
    (yielded : yields before call = some b) :
    (gather yields [] (before ++ call :: rest))[(gather yields [] before).length]? = some b := by
  simp [gather_append, gather, yielded]

end Gather

end History

section Steps

theorem filterMap_singleton {α β : Type} (f : α → Option β) (a : α) : [a].filterMap f = (f a).toList := by
  cases made : f a with
  | none => rw [List.filterMap_cons_none made, List.filterMap_nil, Option.toList_none]
  | some b => rw [List.filterMap_cons_some made, List.filterMap_nil, Option.toList_some]

variable (before : List Call)

theorem variableNames_concat {call : Call} (opens : call.closes = false) :
    variableNames (before ++ [call]) = variableNames before ++ call.variableName.toList := by
  rw [variableNames, sinceClosing_concat_of_open before opens, List.filterMap_append, filterMap_singleton]
  rfl

/-- A call that closes nothing may enter a name, ask for a variable or add a literal. -/
theorem after_concat_of_open {call : Call} (opens : call.closes = false) : after (before ++ [call]) =
    { after before with
      symbols := tableAfter (before ++ [call])
      pending := (after before).pending ++ (call.literal? (tableAfter (before ++ [call]))).toList
      scope := .ofNames (variableNames before ++ call.variableName.toList) } := by
  have since := sinceClosing_concat_of_open before opens
  have closed : closedClause? before call = none ∧ closedQuery? before call = none := by
    cases call with
    | clause => cases opens
    | query => cases opens
    | _ => exact ⟨rfl, rfl⟩
  have literals : literalsSince (before ++ [call]) (tableAfter (before ++ [call])) =
      literalsSince before (tableAfter before) ++ (call.literal? (tableAfter (before ++ [call]))).toList := by
    rw [← literalsSince_append before [call], literalsSince, since, List.filterMap_append, filterMap_singleton]
    rfl
  simp only [after, gather_concat, closed, literals, variableNames_concat before opens, Option.toList_none,
    List.append_nil]

/-- A closing call adds a clause or a query, leaves no literal at hand and forgets all variables. -/
theorem after_concat_of_closes {call : Call} (closes : call.closes = true) : after (before ++ [call]) =
    { after before with
      clauses := (after before).clauses ++ (closedClause? before call).toList
      queries := (after before).queries ++ (closedQuery? before call).toList
      pending := []
      scope := .empty } := by
  have since := sinceClosing_concat_of_closes before closes
  have enters : call.symbolName = none := by
    cases call with
    | clause => rfl
    | query => rfl
    | _ => cases closes
  have table := tableAfter_concat_of_none enters before
  simp only [after, gather_concat, literalsSince, variableNames, since, table, List.filterMap_nil]
  rfl

variable {before}

theorem const_after (name : String) : (after before).const name =
    (.const ((tableAfter before).idOf name), after (before ++ [.const name])) := by
  have enters : (Call.const name).symbolName = some name := rfl
  rw [after_concat_of_open before rfl, tableAfter_concat enters]
  simp only [Call.literal?, Call.variableName, Option.toList_none, List.append_nil]
  rfl

theorem var_after (name : String) : (after before).var name =
    (.var ((Symbols.ofNames (variableNames before)).idOf name), after (before ++ [.var name])) := by
  have enters : (Call.var name).symbolName = none := rfl
  rw [after_concat_of_open before rfl, tableAfter_concat_of_none enters]
  simp only [Call.literal?, Call.variableName, Option.toList_none, Option.toList_some, List.append_nil,
    Symbols.ofNames_concat]
  rfl

theorem app_after (name : String) (args : List Term) : (after before).app name args =
    (.app ((tableAfter before).idOf name) args, after (before ++ [.app name args])) := by
  have enters : (Call.app name args).symbolName = some name := rfl
  rw [after_concat_of_open before rfl, tableAfter_concat enters]
  simp only [Call.literal?, Call.variableName, Option.toList_none, List.append_nil]
  rfl

theorem literal_after (positive : Bool) (name : String) (args : List Term) :
    (after before).literal positive name args = after (before ++ [.literal positive name args]) := by
  have enters : (Call.literal positive name args).symbolName = some name := rfl
  rw [after_concat_of_open before rfl, tableAfter_concat enters]
  simp only [Call.literal?, Call.variableName, Option.toList_none, Option.toList_some, List.append_nil,
    Symbols.idOf_intern]
  rfl

theorem clause_after : (after before).clause = after (before ++ [.clause]) := by
  rw [after_concat_of_closes before rfl]
  simp only [closedClause?, closedQuery?, Option.toList_none, Option.toList_some, List.append_nil]
  rfl

theorem query?_after : (after before).query? =
    if (literalsSince before (tableAfter before)).length = 1 then some (after (before ++ [.query])) else none := by
  rw [after_concat_of_closes before rfl]
  unfold query?
  split
  · next literal single =>
      have found : literalsSince before (tableAfter before) = [literal] := single
      simp [closedClause?, closedQuery?, found]
  · next several =>
      rw [if_neg]
      intro single
      obtain ⟨literal, found⟩ := List.length_eq_one_iff.mp single
      exact several literal found

/-- A call is made if it finds what it needs, and leads to the builder that the calls so far lead to. -/
theorem call_after_eq_ok_iff {call : Call} {result : Option Term × Builder} :
    Guarded.call (after before) call = .ok result ↔
      Fits before call ∧ result = (value before call, after (before ++ [call])) := by
  cases call with
  | const name =>
      rw [Guarded.call, const_after]
      simp [Fits, Single, Known, value, eq_comm]
  | var name =>
      rw [Guarded.call, var_after]
      simp [Fits, Single, Known, value, eq_comm]
  | app name args =>
      rw [Guarded.call, app_after]
      simp [Fits, Single, Known, value, eq_comm]
  | literal positive name args =>
      rw [Guarded.call, literal_after]
      simp [Fits, Single, Known, value, eq_comm]
  | clause =>
      rw [Guarded.call, clause_after]
      constructor
      · intro made
        obtain ⟨c, looked, last⟩ := Guarded.bind_eq_ok_iff.mp made
        cases last
        exact ⟨⟨fun other => (by cases other), fun _ => Guarded.over_of_ofLiterals looked⟩, rfl⟩
      · rintro ⟨⟨-, known⟩, rfl⟩
        have made : Guarded.ofLiterals (after before).symbols (after before).pending = .ok _ :=
          Guarded.ofLiterals_eq_ok (known rfl)
        rw [made]
        rfl
  | query =>
      rw [Guarded.call, query?_after]
      by_cases single : (literalsSince before (tableAfter before)).length = 1
      · rw [if_pos single]
        simp [Fits, Single, Known, value, single, eq_comm]
      · rw [if_neg single]
        simp [Fits, Single, single]

end Steps

section Runs

variable {before calls : List Call}

theorem atEach_cons (holds : List Call → Call → Prop) {call : Call} :
    AtEach (fun prior => holds (before ++ prior)) (call :: calls) ↔
      holds before call ∧ AtEach (fun prior => holds (before ++ [call] ++ prior)) calls := by
  constructor
  · intro each
    have first : holds (before ++ []) call := each [] call calls rfl
    rw [List.append_nil] at first
    refine ⟨first, fun prior later rest split => ?_⟩
    have further : holds (before ++ call :: prior) later := each (call :: prior) later rest (congrArg _ split)
    rwa [List.append_cons] at further
  · rintro ⟨first, others⟩ prior later rest split
    show holds (before ++ prior) later
    cases prior with
    | nil =>
        cases split
        rwa [List.append_nil]
    | cons head prior =>
        rw [List.cons_append, List.cons.injEq] at split
        obtain ⟨rfl, split⟩ := split
        rw [List.append_cons]
        exact others prior later rest split

theorem AtEach.left {holds : List Call → Call → Prop} {rest : List Call} (each : AtEach holds (calls ++ rest)) :
    AtEach holds calls := by
  intro before call later split
  refine each before call (later ++ rest) ?_
  rw [split, List.append_assoc, List.cons_append]

theorem atEach_fits_iff : AtEach Fits calls ↔ AtEach Single calls ∧ AtEach Known calls := by
  constructor
  · intro fits
    exact ⟨fun before call rest split => (fits before call rest split).1,
      fun before call rest split => (fits before call rest split).2⟩
  · rintro ⟨single, known⟩ before call rest split
    exact ⟨single before call rest split, known before call rest split⟩

/-- Calls are made if each finds what it needs, and lead to the builder that they and the calls before them lead to. -/
theorem calls_after_eq_ok_iff {result : List (Option Term) × Builder} :
    Guarded.calls (after before) calls = .ok result ↔ AtEach (fun prior => Fits (before ++ prior)) calls ∧
      result = (gather (fun before call => some (value before call)) before calls, after (before ++ calls)) := by
  induction calls generalizing before result with
  | nil =>
      have none : AtEach (fun prior => Fits (before ++ prior)) [] := by
        intro prior call rest split
        simp at split
      simp [Guarded.calls, gather, none, eq_comm]
  | cons call calls ih =>
      rw [Guarded.calls, Guarded.bind_eq_ok_iff, atEach_cons Fits, gather, List.append_cons before call calls]
      constructor
      · rintro ⟨⟨first, b⟩, made, rest⟩
        obtain ⟨fits, same⟩ := call_after_eq_ok_iff.mp made
        cases same
        obtain ⟨⟨values, last⟩, others, ended⟩ := Guarded.bind_eq_ok_iff.mp rest
        obtain ⟨fitsAll, same⟩ := ih.mp others
        cases same
        cases ended
        exact ⟨⟨fits, fitsAll⟩, rfl⟩
      · rintro ⟨⟨fits, fitsAll⟩, rfl⟩
        refine ⟨_, call_after_eq_ok_iff.mpr ⟨fits, rfl⟩, ?_⟩
        exact Guarded.bind_eq_ok_iff.mpr ⟨_, ih.mpr ⟨fitsAll, rfl⟩, rfl⟩

theorem calls_eq_ok_iff {result : List (Option Term) × Builder} :
    Guarded.calls .empty calls = .ok result ↔
      (AtEach Single calls ∧ AtEach Known calls) ∧ result = (returnedBy calls, after calls) := by
  rw [← atEach_fits_iff]
  exact @calls_after_eq_ok_iff [] calls result

/-- As much is yielded as there are calls that yield something. -/
theorem length_gather {β : Type} {yields : List Call → Call → Option β} {counts : Call → Bool}
    (each : AtEach (fun prior call => (yields (before ++ prior) call).isSome = counts call) calls) :
    (gather yields before calls).length = calls.countP counts := by
  induction calls generalizing before with
  | nil => rfl
  | cons call calls ih =>
      obtain ⟨first, others⟩ := (atEach_cons fun before call => (yields before call).isSome = counts call).mp each
      rw [gather, List.length_append, ih others, List.countP_cons, ← first]
      cases yields before call with
      | none => simp
      | some b => simp [Nat.add_comm]

theorem length_returnedBy (calls : List Call) : (returnedBy calls).length = calls.length := by
  have each : AtEach (fun prior call => (some (value ([] ++ prior) call)).isSome = true) calls := fun _ _ _ _ => rfl
  rw [returnedBy, length_gather each, List.countP_true]

theorem length_clauses_after (calls : List Call) : (after calls).clauses.length = calls.count .clause := by
  refine length_gather fun prior call _ _ => ?_
  cases call <;> rfl

theorem length_queries_after (single : AtEach Single calls) : (after calls).queries.length = calls.count .query := by
  refine length_gather fun prior call rest split => ?_
  cases call with
  | query =>
      obtain ⟨literal, found⟩ := List.length_eq_one_iff.mp (single prior .query rest split rfl)
      rw [List.nil_append, closedQuery?, found]
      rfl
  | _ => rfl

end Runs

section Own

variable {calls : List Call}

/-- A term that is made of returned terms is over the table, and so is returned. -/
theorem over_of_mem_returnedBy (own : AtEach Own calls) :
    ∀ t, some t ∈ returnedBy calls → t.Over (tableAfter calls) := by
  induction calls using List.reverseRecOn with
  | nil => exact fun _ member => absurd member List.not_mem_nil
  | append_singleton calls call ih =>
      have before := ih own.left
      have grown := extends_tableAfter calls [call]
      intro t member
      rw [returnedBy, gather_concat, Option.toList_some, List.mem_append, List.mem_singleton] at member
      rcases member with old | new
      · exact (before t old).extend grown
      · cases call with
        | const name =>
            cases new
            rw [tableAfter_concat rfl]
            exact Term.over_const.mpr ((tableAfter calls).intern_lt name)
        | var name =>
            cases new
            exact Term.over_var _
        | app name args =>
            cases new
            refine Term.over_app.mpr ⟨?_, fun s passed => ?_⟩
            · rw [tableAfter_concat rfl]
              exact (tableAfter calls).intern_lt name
            · exact (before s (own calls (.app name args) [] rfl s passed)).extend grown
        | _ => cases new

/-- A clause call finds its symbols if only terms are passed that were returned. -/
theorem known_of_own (own : AtEach Own calls) : AtEach Known calls := by
  rintro before call rest rfl - l member
  obtain ⟨call, since, adds⟩ := List.mem_filterMap.mp member
  have made : call ∈ before := (List.rtakeWhile_suffix _ _).subset since
  cases call with
  | literal positive name args =>
      cases adds
      obtain ⟨prior, later, rfl⟩ := List.append_of_mem made
      have entered : name ∈ enteredNames (prior ++ .literal positive name args :: later) :=
        List.mem_filterMap.mpr ⟨_, made, rfl⟩
      refine Term.over_app.mpr ⟨Symbols.idOf_ofNames_lt entered, fun t passed => ?_⟩
      have returned : some t ∈ returnedBy prior := own.left prior (.literal positive name args) later rfl t passed
      exact (over_of_mem_returnedBy own.left.left t returned).extend (extends_tableAfter prior _)
  | _ => cases adds

end Own

/-- What comes of a sequence of calls: the terms that they return, and the problem. -/
structure Outcome (calls : List Call) (returned : List (Option Term)) (p : Problem) : Prop where
  values : returned = returnedBy calls
  /-- A variable has the place of its name among the different names since the last closing call. -/
  scoping : ∀ before name rest, calls = before ++ .var name :: rest → ∀ k,
    returned[before.length]? = some (some (.var k)) ↔
      (variableNames (before ++ [.var name])).eraseDups[k]? = some name
  /-- Constants have the numbers that the last table gives their names. -/
  constants : ∀ before name rest, calls = before ++ .const name :: rest →
    returned[before.length]? = some (some (.const (p.symbols.idOf name)))
  applications : ∀ before name args rest, calls = before ++ .app name args :: rest →
    returned[before.length]? = some (some (.app (p.symbols.idOf name) args))
  /-- There are as many clauses as clause calls. -/
  numClauses : p.clauses.length = calls.count .clause
  numQueries : p.queries.length = calls.count .query
  /-- A clause is the one that the last table makes of the literals since the closing call before it. -/
  clauses : ∀ before rest, calls = before ++ .clause :: rest →
    p.clauses[before.count .clause]? = some (.ofLiterals p.symbols (literalsSince before p.symbols))
  queries : ∀ before rest, calls = before ++ .query :: rest →
    ∃ l, literalsSince before p.symbols = [l] ∧ p.queries[before.count .query]? = some l
  /-- The number of a name that was entered gives back the name. -/
  names : ∀ name ∈ enteredNames calls, p.symbols.name? (p.symbols.idOf name) = some name
  numbers : ∀ name ∈ enteredNames calls, ∀ other ∈ enteredNames calls,
    p.symbols.idOf name = p.symbols.idOf other ↔ name = other
  /-- Words of 32 bits hold the numbers of up to `2 ^ 32` names. -/
  words : p.symbols.size ≤ Nat.pow 2 32 → ∀ name ∈ enteredNames calls,
    (p.symbols.idOf name).toUInt32.toNat = p.symbols.idOf name

section Outcome

variable {before rest : List Call}

theorem getElem?_returnedBy (before : List Call) (call : Call) (rest : List Call) :
    (returnedBy (before ++ call :: rest))[before.length]? = some (value before call) := by
  rw [← length_returnedBy before]
  exact getElem?_gather rfl

/-- A name has the number in the last table that it was entered with. -/
theorem idOf_tableAfter {call : Call} {name : String} (enters : call.symbolName = some name) :
    (tableAfter (before ++ call :: rest)).idOf name = (tableAfter before).idOf name := by
  rw [tableAfter, enteredNames_append, enteredNames, enteredNames, List.filterMap_cons_some enters]
  exact Symbols.idOf_ofNames_append_cons _ name _

/-- A clause that was made earlier is the one that the last table makes. -/
theorem getElem?_clauses_after (known : Known before .clause) :
    (after (before ++ .clause :: rest)).clauses[before.count .clause]? =
      some (.ofLiterals (tableAfter (before ++ .clause :: rest))
        (literalsSince before (tableAfter (before ++ .clause :: rest)))) := by
  rw [literalsSince_append, Clause.ofLiterals_extend (extends_tableAfter before _) (known rfl), ← length_clauses_after]
  exact getElem?_gather rfl

theorem getElem?_queries_after (single : AtEach Single (before ++ .query :: rest)) :
    ∃ l, literalsSince before (tableAfter (before ++ .query :: rest)) = [l] ∧
      (after (before ++ .query :: rest)).queries[before.count .query]? = some l := by
  obtain ⟨l, found⟩ := List.length_eq_one_iff.mp (single before .query rest rfl rfl)
  rw [literalsSince_append, ← length_queries_after single.left]
  exact ⟨l, found, getElem?_gather (by rw [closedQuery?, found, List.head?_cons])⟩

theorem outcome_after {calls : List Call} (single : AtEach Single calls) (known : AtEach Known calls) :
    Outcome calls (returnedBy calls) (after calls).finish where
  values := rfl
  scoping := by
    rintro before name rest rfl k
    have names : variableNames (before ++ [.var name]) = variableNames before ++ [name] :=
      variableNames_concat before rfl
    rw [getElem?_returnedBy, names, ← Symbols.idOf_ofNames_eq_iff, value, Option.some.injEq, Option.some.injEq,
      Term.var.injEq]
  constants := by
    rintro before name rest rfl
    rw [getElem?_returnedBy, value]
    exact congrArg (fun id => some (some (Term.const id))) (idOf_tableAfter rfl).symm
  applications := by
    rintro before name args rest rfl
    rw [getElem?_returnedBy, value]
    exact congrArg (fun id => some (some (Term.app id args))) (idOf_tableAfter rfl).symm
  numClauses := length_clauses_after calls
  numQueries := length_queries_after single
  clauses := by
    rintro before rest rfl
    exact getElem?_clauses_after (known before .clause rest rfl)
  queries := by
    rintro before rest rfl
    exact getElem?_queries_after single
  names := fun name entered => Symbols.name?_idOf_ofNames entered
  numbers := fun name entered other enteredOther => Symbols.idOf_ofNames_inj entered enteredOther
  words := fun few name entered => Nat.mod_eq_of_lt ((Symbols.idOf_ofNames_lt entered).trans_le few)

end Outcome

/-- A sequence of calls is made exactly if every query call finds one literal and every clause call finds its symbols in
the table; the latter holds if only terms are passed that calls returned. Then variables are numbered within their
clause or query, there is a clause or query for each closing call, every clause is the one that the last table makes of
its literals, and names and numbers of symbols are one to one. -/
theorem calls_scoped (calls : List Call) :
    ((∃ result, Guarded.calls .empty calls = .ok result) ↔ AtEach Single calls ∧ AtEach Known calls) ∧
    (AtEach Own calls → AtEach Known calls) ∧
    ∀ returned b, Guarded.calls .empty calls = .ok (returned, b) → Outcome calls returned b.finish := by
  refine ⟨⟨?_, ?_⟩, known_of_own, ?_⟩
  · rintro ⟨result, ended⟩
    exact (calls_eq_ok_iff.mp ended).1
  · intro fits
    exact ⟨_, calls_eq_ok_iff.mpr ⟨fits, rfl⟩⟩
  · intro returned b ended
    obtain ⟨⟨single, known⟩, same⟩ := calls_eq_ok_iff.mp ended
    cases same
    exact outcome_after single known

/-- The variables of the second clause are numbered anew, and its predicate has the number that it got in the first. -/
theorem calls_scoped_kinship :
    let calls : List Call := [.var "x", .var "y", .var "x", .literal false "Parent" [.var 0, .var 1],
      .literal true "Ancestor" [.var 0], .clause, .var "z", .const "Bill", .literal true "Parent" [.var 0, .const 2],
      .clause, .const "Jane", .literal true "Ancestor" [.const 3], .query]
    AtEach Single calls ∧ AtEach Own calls ∧ ∃ returned b, Guarded.calls .empty calls = .ok (returned, b) ∧
      returned[1]? = some (some (.var 1)) ∧ returned[2]? = some (some (.var 0)) ∧ returned[6]? = some (some (.var 0)) ∧
      b.finish.clauses.length = 2 ∧ b.finish.queries.length = 1 ∧
      b.finish.clauses[1]? = some (.ofLiterals b.finish.symbols
        [⟨true, b.finish.symbols.idOf "Parent", [.var 0, .const 2]⟩]) ∧
      b.finish.symbols.idOf "Parent" ≠ b.finish.symbols.idOf "Jane" := by
  intro calls
  have single : AtEach Single calls := by decide +kernel
  have own : AtEach Own calls := by decide +kernel
  obtain ⟨made, known, outcome⟩ := calls_scoped calls
  obtain ⟨⟨returned, b⟩, ended⟩ := made.mpr ⟨single, known own⟩
  have result := outcome returned b ended
  refine ⟨single, own, returned, b, ended, ?_, ?_, ?_, result.numClauses, result.numQueries, ?_, ?_⟩
  · exact (result.scoping (calls.take 1) "y" (calls.drop 2) rfl 1).mpr (by decide +kernel)
  · exact (result.scoping (calls.take 2) "x" (calls.drop 3) rfl 0).mpr (by decide +kernel)
  · exact (result.scoping (calls.take 6) "z" (calls.drop 7) rfl 0).mpr (by decide +kernel)
  · exact result.clauses (calls.take 9) (calls.drop 10) rfl
  · intro same
    have names := (result.numbers "Parent" (by decide +kernel) "Jane" (by decide +kernel)).mp same
    exact absurd names (by decide)

end Builder

end Refutation
