import Refutation.Proofs.Denotation
import Refutation.Proofs.Guarded
import Refutation.Proofs.Representation

/-!
No lookup fails between a text and its answers. Everything that is read from a text is over its symbol table, and every
clause of a search is made of literals over the table; the search keeps this by resolving. So guarded reading and
guarded searching, however long, never meet a fault, and they have the result of plain reading and searching.
Conversely a clause is made only of literals over the table, since making it looks up every symbol.
-/

namespace Refutation

namespace Guarded

section Lists

variable {α β : Type}

theorem ok_bind {ε : Type} (a : α) (f : α → Except ε β) : (.ok a >>= f) = f a := rfl

theorem bind_eq_ok_iff {x : Guarded α} {f : α → Guarded β} {b : β} :
    (x >>= f) = .ok b ↔ ∃ a, x = .ok a ∧ f a = .ok b := by
  cases x with
  | error fault =>
      constructor
      · intro ended
        cases ended
      · rintro ⟨a, ended, -⟩
        cases ended
  | ok a =>
      constructor
      · exact fun ended => ⟨a, rfl, ended⟩
      · rintro ⟨_, same, ended⟩
        cases same
        exact ended

theorem mapM_eq_ok {f : α → Guarded β} {g : α → Option β} {as : List α}
    (each : ∀ a ∈ as, ∃ b, f a = .ok b ∧ g a = some b) : as.mapM f = .ok (as.filterMap g) := by
  induction as with
  | nil => rfl
  | cons a as ih =>
      obtain ⟨⟨b, run, value⟩, rest⟩ := List.forall_mem_cons.mp each
      rw [List.mapM_cons, run, ih rest, List.filterMap_cons_some value]
      rfl

theorem mapM_eq_map {f : α → Guarded β} {g : α → β} {as : List α} (each : ∀ a ∈ as, f a = .ok (g a)) :
    as.mapM f = .ok (as.map g) := by
  rw [mapM_eq_ok (g := fun a => some (g a)) fun a member => ⟨g a, each a member, rfl⟩, List.filterMap_eq_map']

theorem forM_eq_ok_iff {f : α → Guarded Unit} {as : List α} : as.forM f = .ok () ↔ ∀ a ∈ as, f a = .ok () := by
  induction as with
  | nil => exact ⟨fun _ _ member => absurd member List.not_mem_nil, fun _ => rfl⟩
  | cons a as ih =>
      rw [List.forall_mem_cons, ← ih]
      constructor
      · intro ended
        obtain ⟨_, first, rest⟩ := bind_eq_ok_iff.mp ended
        exact ⟨first, rest⟩
      · rintro ⟨first, rest⟩
        exact bind_eq_ok_iff.mpr ⟨(), first, rest⟩

theorem collect_eq_ok {f : α → Guarded (Option β)} {g : α → Option β} {as : List α}
    (each : ∀ a ∈ as, f a = .ok (g a)) : collect f as = .ok (as.filterMap g) := by
  induction as with
  | nil => rfl
  | cons a as ih =>
      obtain ⟨first, rest⟩ := List.forall_mem_cons.mp each
      rw [collect, first, ih rest, List.filterMap_cons]
      cases g a <;> rfl

theorem elementAt_eq_ok {as : List α} {i : Nat} {a : α} (here : as[i]? = some a) : elementAt as i = .ok a := by
  rw [elementAt, here]

/-- The element at a place, with the others, if there is one. -/
def pick? (as : List α) (i : Nat) : Option (α × List α) := as[i]?.map fun a => (a, as.eraseIdx i)

theorem picks_eq_filterMap (as : List α) : picks as = (List.range as.length).filterMap (pick? as) := by
  induction as with
  | nil => rfl
  | cons a as ih =>
      have first : pick? (a :: as) 0 = some (a, as) := rfl
      have later : pick? (a :: as) ∘ Nat.succ = fun i => (pick? as i).map fun p => (p.1, a :: p.2) := by
        funext i
        simp [pick?, Function.comp_def]
      rw [picks, ih, List.length_cons, List.range_succ_eq_map, List.filterMap_cons_some first, List.filterMap_map,
        later, List.map_filterMap]

theorem picks_eq_ok {as : List α} {places : List Nat} (within : ∀ i ∈ places, i < as.length) :
    places.mapM (pick as) = .ok (places.filterMap (pick? as)) := by
  refine mapM_eq_ok fun i member => ?_
  have here := List.getElem?_eq_getElem (within i member)
  refine ⟨_, ?_, congrArg (Option.map _) here⟩
  rw [pick, elementAt_eq_ok here]
  rfl

end Lists

section Literals

variable {symbols : Symbols} {onVars : VarId → VarId → Ordering}

theorem name_eq_ok {id : SymbolId} (known : id < symbols.size) : name symbols id = .ok (symbols.name id) := by
  have found : symbols.name? id = some (symbols.name id) := Symbols.name?_eq_some_iff.mpr ⟨known, rfl⟩
  rw [name, found]

theorem lt_of_name {id : SymbolId} {text : String} (found : name symbols id = .ok text) : id < symbols.size := by
  unfold name at found
  split at found
  · next named => exact (Symbols.name?_eq_some_iff.mp named).1
  · cases found

theorem andThen_ok (first second : Ordering) : andThen first (.ok second) = .ok (first.then second) := by
  cases first <;> rfl

theorem compareArgs_eq_ok {ss ts : List Term}
    (each : ∀ s ∈ ss, ∀ t ∈ ts, compareTerms symbols onVars s t = .ok (s.compareWith symbols onVars t)) :
    compareArgs symbols onVars ss ts = .ok (Term.compareArgs symbols onVars ss ts) := by
  induction ss generalizing ts with
  | nil => cases ts <;> rfl
  | cons s ss ih =>
      cases ts with
      | nil => rfl
      | cons t ts =>
          have rest := ih fun s left t right => each s (List.mem_cons_of_mem _ left) t (List.mem_cons_of_mem _ right)
          rw [compareArgs, each s List.mem_cons_self t List.mem_cons_self, rest, Term.compareArgs]
          exact andThen_ok _ _

theorem compareTerms_eq_ok {s t : Term} (left : s.Over symbols) (right : t.Over symbols) :
    compareTerms symbols onVars s t = .ok (s.compareWith symbols onVars t) := by
  induction s using Term.induct generalizing t with
  | const c =>
      cases t with
      | const d =>
          rw [compareTerms, name_eq_ok (Term.over_const.mp left), name_eq_ok (Term.over_const.mp right),
            Term.compareWith]
          rfl
      | var y => rfl
      | app g ts => rfl
  | var x => cases t <;> rfl
  | app f ss ih =>
      cases t with
      | const d => rfl
      | var y => rfl
      | app g ts =>
          obtain ⟨knownF, overSS⟩ := Term.over_app.mp left
          obtain ⟨knownG, overTS⟩ := Term.over_app.mp right
          have args := compareArgs_eq_ok fun s inside t within => ih s inside (overSS s inside) (overTS t within)
          rw [compareTerms, name_eq_ok knownF, name_eq_ok knownG, args, andThen_ok, Term.compareWith]
          exact andThen_ok _ _

theorem over_of_compareArgs {ts : List Term} {order : Ordering}
    (each : ∀ t ∈ ts, ∀ order, compareTerms symbols onVars t t = .ok order → order = .eq ∧ t.Over symbols)
    (compared : compareArgs symbols onVars ts ts = .ok order) : order = .eq ∧ ∀ t ∈ ts, t.Over symbols := by
  induction ts with
  | nil =>
      cases compared
      exact ⟨rfl, fun _ member => absurd member List.not_mem_nil⟩
  | cons t ts ih =>
      rw [compareArgs] at compared
      obtain ⟨first, comparedFirst, comparedRest⟩ := bind_eq_ok_iff.mp compared
      obtain ⟨rfl, inTable⟩ := each t List.mem_cons_self first comparedFirst
      obtain ⟨tie, others⟩ := ih (fun s member => each s (List.mem_cons_of_mem t member)) comparedRest
      exact ⟨tie, List.forall_mem_cons.mpr ⟨inTable, others⟩⟩

/-- A term compared with itself is a tie throughout, so every symbol of it is looked up. -/
theorem over_of_compareTerms (alike : ∀ x, onVars x x = .eq) (t : Term) (order : Ordering)
    (compared : compareTerms symbols onVars t t = .ok order) : order = .eq ∧ t.Over symbols := by
  induction t using Term.induct generalizing order with
  | const c =>
      rw [compareTerms] at compared
      obtain ⟨text, found, rest⟩ := bind_eq_ok_iff.mp compared
      obtain ⟨same, foundAgain, last⟩ := bind_eq_ok_iff.mp rest
      cases found.symm.trans foundAgain
      cases last
      exact ⟨Std.compare_self, Term.over_const.mpr (lt_of_name found)⟩
  | var x =>
      rw [compareTerms, alike] at compared
      cases compared
      exact ⟨rfl, Term.over_var x⟩
  | app f args ih =>
      rw [compareTerms] at compared
      obtain ⟨text, found, rest⟩ := bind_eq_ok_iff.mp compared
      obtain ⟨same, foundAgain, last⟩ := bind_eq_ok_iff.mp rest
      cases found.symm.trans foundAgain
      rw [Std.compare_self, Std.compare_self] at last
      obtain ⟨tie, inTable⟩ := over_of_compareArgs ih last
      exact ⟨tie, Term.over_app.mpr ⟨lt_of_name found, inTable⟩⟩

theorem compareLiterals_eq_ok {l r : Literal} (left : l.Over symbols) (right : r.Over symbols) :
    compareLiterals symbols onVars l r = .ok (l.compareWith symbols onVars r) := by
  rw [compareLiterals, compareTerms_eq_ok left right, andThen_ok]
  rfl

theorem compareAll_eq_ok {literals : List Literal} (inTable : ∀ l ∈ literals, l.Over symbols) :
    compareAll symbols onVars literals = .ok () := by
  refine forM_eq_ok_iff.mpr fun l left => forM_eq_ok_iff.mpr fun r right => ?_
  rw [compareLiterals_eq_ok (inTable l left) (inTable r right)]
  rfl

/-- The atom of a literal stays an application. -/
theorem subst_eq_ok (θ : VarId → Term) (l : Literal) : subst θ l = .ok (l.subst θ) := by
  rw [subst, ← l.atom_subst]
  rfl

theorem rename_eq_ok (ρ : VarId → VarId) (l : Literal) : rename ρ l = .ok (l.rename ρ) := by
  rw [rename, ← l.atom_rename]
  rfl

theorem charsAll_eq_ok {ts : List Term} (each : ∀ t ∈ ts, chars symbols t = .ok (t.chars symbols)) :
    charsAll symbols ts = .ok (Term.charsAll symbols ts) := by
  induction ts with
  | nil => rfl
  | cons t ts ih =>
      obtain ⟨first, rest⟩ := List.forall_mem_cons.mp each
      cases ts with
      | nil => exact first
      | cons s ts =>
          rw [charsAll, first, ih rest]
          · rfl
          · simp

theorem chars_eq_ok {t : Term} (inTable : t.Over symbols) : chars symbols t = .ok (t.chars symbols) := by
  induction t using Term.induct with
  | const c =>
      rw [chars, name_eq_ok (Term.over_const.mp inTable)]
      rfl
  | var x => rfl
  | app f args ih =>
      obtain ⟨known, overArgs⟩ := Term.over_app.mp inTable
      rw [chars, name_eq_ok known, charsAll_eq_ok fun t member => ih t member (overArgs t member)]
      rfl

theorem text_eq_ok {l : Literal} (inTable : l.Over symbols) : text symbols l = .ok (l.text symbols) := by
  rw [text, chars_eq_ok inTable]
  rfl

end Literals

section Clauses

variable {symbols : Symbols}

theorem sort_eq_ok {literals : List Literal} (inTable : ∀ l ∈ literals, l.Over symbols) :
    sort symbols literals = .ok (literals.mergeSort fun l r => (l.compare symbols r).isLE) := by
  rw [sort, compareAll_eq_ok inTable]
  rfl

theorem place_eq_ok (a : Arrangement) (l : Literal) (rest : List Literal) : place a l rest = .ok (a.place l rest) := by
  rw [place, rename_eq_ok]
  rfl

theorem successors_eq_ok {a : Arrangement} (inTable : ∀ l ∈ a.rest, l.Over symbols) (more : a.rest ≠ []) :
    successors symbols a = .ok (a.successors symbols) := by
  obtain ⟨first, tail, split⟩ := List.exists_cons_of_ne_nil more
  have here : a.rest[0]? = some first := by rw [split]; rfl
  have tied : ∀ p ∈ picks a.rest, (do
      let order ← compareLiterals symbols (fun _ _ => .eq) p.1 first
      return Option.guard (fun _ => order == .eq) p : Guarded (Option (Literal × List Literal))) =
        .ok (Option.guard (fun p => p.1.compare symbols first == .eq) p) := by
    intro p member
    have inRest : p.1 ∈ a.rest := (perm_of_mem_picks member).subset List.mem_cons_self
    rw [compareLiterals_eq_ok (inTable _ inRest) (inTable first (List.mem_of_getElem? here))]
    rfl
  rw [successors, elementAt_eq_ok here, picks_eq_ok fun i member => List.mem_range.mp member, ← picks_eq_filterMap]
  rw [ok_bind, ok_bind]
  rw [collect_eq_ok tied, List.filterMap_eq_filter, Arrangement.successors_eq symbols split]
  exact mapM_eq_map fun p _ => place_eq_ok a p.1 p.2

theorem extend_eq_ok {arrangements : List Arrangement} (rests : ∀ a ∈ arrangements, ∀ l ∈ a.rest, l.Over symbols)
    (more : ∀ a ∈ arrangements, a.rest ≠ [])
    (standards : ∀ a ∈ arrangements, ∀ s ∈ a.successors symbols, s.1.Over symbols) :
    extend symbols arrangements = .ok (Arrangement.extend symbols arrangements) := by
  have overNext : ∀ l ∈ (arrangements.flatMap (Arrangement.successors symbols)).map Prod.fst, l.Over symbols := by
    intro l member
    obtain ⟨s, listed, rfl⟩ := List.mem_map.mp member
    obtain ⟨a, inside, successor⟩ := List.mem_flatMap.mp listed
    exact standards a inside s successor
  rw [extend, mapM_eq_map fun a member => successors_eq_ok (rests a member) (more a member)]
  simp only [ok_bind, ← List.flatMap_def, compareAll_eq_ok overNext]
  rfl

theorem frontier_eq_ok {sorted : List Literal} (inTable : ∀ l ∈ sorted, l.Over symbols) {n : Nat}
    (bound : n ≤ sorted.length) : frontier symbols sorted n = .ok (Arrangement.frontier symbols sorted n) := by
  induction n with
  | zero => rfl
  | succ n ih =>
      rw [frontier, ih (Nat.le_of_succ_le bound)]
      refine extend_eq_ok (fun a member l inRest => ?_) (fun a member none => ?_) fun a member s successor => ?_
      · exact inTable l ((Arrangement.reached_of_mem_frontier member).mem inRest)
      · -- after `n` places a literal is left, since there are more than `n`
        have lengths := (Arrangement.reached_of_mem_frontier member).length_rest
        rw [none, List.length_nil] at lengths
        omega
      · exact Arrangement.over_of_mem_successors inTable (Arrangement.reached_of_mem_frontier member) successor

theorem ofLiterals_eq_ok {literals : List Literal} (inTable : ∀ l ∈ literals, l.Over symbols) :
    ofLiterals symbols literals = .ok (Clause.ofLiterals symbols literals) := by
  have overDistinct : ∀ l ∈ literals.eraseDups, l.Over symbols := fun l member =>
    inTable l (List.mem_eraseDups.mp member)
  have overSorted : ∀ l ∈ Clause.sortedLiterals symbols literals, l.Over symbols := fun l member =>
    overDistinct l (List.mem_mergeSort.mp member)
  rw [ofLiterals, sort_eq_ok overDistinct, ok_bind, frontier_eq_ok overSorted (Nat.le_refl _)]
  rfl

/-- A clause is made only if every symbol of its literals is in the table. -/
theorem over_of_ofLiterals {literals : List Literal} {c : Clause} (made : ofLiterals symbols literals = .ok c) :
    ∀ l ∈ literals, l.Over symbols := by
  obtain ⟨sorted, sorts, -⟩ := bind_eq_ok_iff.mp made
  obtain ⟨_, compared, -⟩ := bind_eq_ok_iff.mp sorts
  intro l member
  have distinct := List.mem_eraseDups.mpr member
  obtain ⟨order, itself, -⟩ := bind_eq_ok_iff.mp (forM_eq_ok_iff.mp (forM_eq_ok_iff.mp compared l distinct) l distinct)
  rw [compareLiterals, Std.compare_self] at itself
  exact (over_of_compareTerms (fun _ => rfl) l.atom order itself).2

theorem renameClause_eq_ok (c : Clause) (supply : Supply) : renameClause c supply = .ok (c.rename supply) := by
  rw [renameClause, mapM_eq_map fun l _ => rename_eq_ok _ l]
  rfl

theorem renameAll_eq_ok (cs : List Clause) (supply : Supply) :
    renameAll cs supply = .ok (Clause.renameAll cs supply) := by
  induction cs generalizing supply with
  | nil => rfl
  | cons c cs ih =>
      rw [renameAll, renameClause_eq_ok]
      simp only [ok_bind, ih]
      rfl

end Clauses

section Resolution

variable {symbols : Symbols} {c d : Clause}

theorem ranges_eq (formed : c.Formed symbols) : List.range c.literals.length = range c false ++ range c true := by
  obtain ⟨more, size⟩ := Nat.exists_eq_add_of_le formed.represented.split_le
  have joined : List.range' 0 c.split ++ List.range' (0 + c.split) more = List.range' 0 (c.split + more) :=
    List.range'_append_1
  rw [Nat.zero_add] at joined
  rw [range, range, size, Nat.add_sub_cancel_left, List.range_eq_range', List.range_eq_range', joined]

/-- The literals in the range of a sign have it. -/
theorem positive_of_mem_range (formed : c.Formed symbols) {sign : Bool} {i : Nat} (member : i ∈ range c sign)
    {p : Literal × List Literal} (picked : pick? c.literals i = some p) : p.1.positive = sign := by
  obtain ⟨l, here, rfl⟩ := Option.map_eq_some_iff.mp picked
  have negative := formed.represented.negative_iff i l here
  cases sign with
  | false => exact negative.mpr (List.mem_range.mp member)
  | true =>
      have behind := (List.mem_range'_1.mp member).1
      exact Bool.eq_true_of_not_eq_false fun below => absurd (negative.mp below) (Nat.not_lt.mpr behind)

theorem picksOf_eq_filterMap (formed : c.Formed symbols) (sign : Bool) :
    c.picksOf sign = (range c sign).filterMap (pick? c.literals) := by
  have signs : ∀ s, ∀ p ∈ (range c s).filterMap (pick? c.literals), p.1.positive = s := by
    intro s p member
    obtain ⟨i, inside, picked⟩ := List.mem_filterMap.mp member
    exact positive_of_mem_range formed inside picked
  have kept : ∀ s, ((range c s).filterMap (pick? c.literals)).filter (fun p => p.1.positive == s) =
      (range c s).filterMap (pick? c.literals) := fun s =>
    List.filter_eq_self.mpr fun p member => beq_iff_eq.mpr (signs s p member)
  have dropped : ∀ s s', s ≠ s' →
      ((range c s).filterMap (pick? c.literals)).filter (fun p => p.1.positive == s') = [] := by
    intro s s' differ
    refine List.filter_eq_nil_iff.mpr fun p member same => differ ?_
    rw [← signs s p member, beq_iff_eq.mp same]
  rw [Clause.picksOf, picks_eq_filterMap, ranges_eq formed, List.filterMap_append, List.filter_append]
  cases sign with
  | false => rw [kept false, dropped true false (by decide), List.append_nil]
  | true => rw [kept true, dropped false true (by decide), List.nil_append]

theorem picksOf_eq_ok (formed : c.Formed symbols) (sign : Bool) :
    (range c sign).mapM (pick c.literals) = .ok (c.picksOf sign) := by
  rw [picksOf_eq_filterMap formed]
  refine picks_eq_ok fun i member => List.mem_range.mp ?_
  rw [ranges_eq formed]
  cases sign with
  | false => exact List.mem_append_left _ member
  | true => exact List.mem_append_right _ member

theorem clashes_eq_ok (left : c.Formed symbols) (right : d.Formed symbols) (sign : Bool) :
    clashes c d sign = .ok ((c.picksOf sign).flatMap fun p => (d.picksOf !sign).map fun q => ⟨p.1, p.2, q.1, q.2⟩) := by
  rw [clashes, picksOf_eq_ok left, picksOf_eq_ok right]
  rfl

/-- The two literals of a clash are complementary under their unifier. -/
theorem complements_of_unify {clash : Clash} {m : Bindings} (inside : clash ∈ c.clashes d)
    (unified : Bindings.empty.unify clash.left.atom clash.right.atom = some m) :
    (clash.left.subst m.image).complements (clash.right.subst m.image) = true := by
  obtain ⟨-, -, opposite⟩ := Clause.mem_clashes_iff.mp inside
  rw [Literal.complements, Clash.atoms_eq_of_resolvent unified, beq_self_eq_true, Bool.and_true]
  exact bne_iff_ne.mpr opposite

theorem resolveOn_eq_ok (left : c.Formed symbols) (right : d.Formed symbols) {clash : Clash}
    (inside : clash ∈ c.clashes d) : resolveOn symbols clash = .ok (clash.resolvent? symbols) := by
  unfold resolveOn Clash.resolvent?
  split
  · split
    · next clashing => rw [clashing]; rfl
    · next m unified =>
        have inTable := left.over_survivors right inside unified
        rw [subst_eq_ok, subst_eq_ok, mapM_eq_map fun l _ => subst_eq_ok m.image l, unified]
        simp only [ok_bind, complements_of_unify inside unified, ofLiterals_eq_ok inTable]
        rfl
  · rfl

theorem resolve_eq_ok (left : c.Formed symbols) (right : d.Formed symbols) (supply : Supply) :
    resolve symbols c d supply = .ok (c.resolve symbols d supply) := by
  have resolvents : collect (resolveOn symbols) (c.clashes d) =
      .ok ((c.clashes d).filterMap (Clash.resolvent? symbols)) :=
    collect_eq_ok fun clash inside => resolveOn_eq_ok left right inside
  rw [Clause.clashes, List.flatMap_def] at resolvents
  rw [resolve, mapM_eq_map fun sign _ => clashes_eq_ok left right sign]
  simp only [ok_bind, resolvents, renameAll_eq_ok]
  rw [← List.flatMap_def]
  rfl

end Resolution

section Searches

variable {policy : Policy} {symbols : Symbols} {clock : Clock}

/-- The clause at a place, paired with those behind it. -/
def pairsAt? (cs : List Clause) (i : Nat) : Option (List (Clause × Clause)) :=
  cs[i]?.map fun c => (cs.drop (i + 1)).map fun d => (c, d)

theorem pairs_eq_flatten (cs : List Clause) :
    Refutation.pairs cs = ((List.range cs.length).filterMap (pairsAt? cs)).flatten := by
  induction cs with
  | nil => rfl
  | cons c cs ih =>
      have first : pairsAt? (c :: cs) 0 = some (cs.map fun d => (c, d)) := rfl
      have later : pairsAt? (c :: cs) ∘ Nat.succ = pairsAt? cs := rfl
      rw [Refutation.pairs, ih, List.length_cons, List.range_succ_eq_map, List.filterMap_cons_some first,
        List.filterMap_map, later, List.flatten_cons]

theorem pairs_eq_ok (cs : List Clause) : pairs cs = .ok (Refutation.pairs cs) := by
  rw [pairs_eq_flatten, pairs, mapM_eq_ok (g := pairsAt? cs) fun i member => ?_]
  · rfl
  · have here := List.getElem?_eq_getElem (List.mem_range.mp member)
    refine ⟨_, ?_, congrArg (Option.map _) here⟩
    rw [elementAt_eq_ok here, sliceFrom, if_pos (Nat.succ_le_of_lt (List.mem_range.mp member))]
    rfl

theorem lookAt_eq_ok {c d : Clause} (left : c.Formed symbols) (right : d.Formed symbols) (search : Search) :
    lookAt policy symbols c d search = .ok (search.lookAt policy symbols c d) := by
  unfold lookAt Search.lookAt
  split
  · rfl
  · rw [resolve_eq_ok left right, ok_bind]
    dsimp only
    split <;> rfl

theorem scan_eq_ok {listed : List (Clause × Clause)} (formed : ∀ p ∈ listed, p.1.Formed symbols ∧ p.2.Formed symbols)
    (search : Search) : scan policy symbols clock listed search = .ok (search.scan policy symbols clock listed) := by
  induction listed generalizing search with
  | nil => rfl
  | cons p rest ih =>
      obtain ⟨⟨left, right⟩, others⟩ := List.forall_mem_cons.mp formed
      rw [scan, Search.scan_cons, lookAt_eq_ok left right]
      split
      · rfl
      · cases search.lookAt policy symbols p.1 p.2 with
        | finished outcome => rfl
        | running after => exact ih others after

theorem pass_eq_ok {search : Search} (formed : ∀ c ∈ search.clauses, c.Formed symbols) :
    pass policy symbols clock search = .ok (search.pass policy symbols clock) := by
  have inSnapshot : ∀ c ∈ search.snapshot, c.Formed symbols := fun c listed =>
    formed c (List.mem_append_left _ (Search.mem_snapshot.mp listed))
  have inPairs : ∀ p ∈ Refutation.pairs search.snapshot, p.1.Formed symbols ∧ p.2.Formed symbols := by
    intro p member
    obtain ⟨left, right⟩ := of_mem_pairs member
    exact ⟨inSnapshot p.1 left, inSnapshot p.2 right⟩
  rw [pass, pairs_eq_ok, ok_bind, scan_eq_ok inPairs, Search.pass_eq]
  cases search.beginPass.scan policy symbols clock (Refutation.pairs search.snapshot) with
  | finished outcome => rfl
  | running after => rfl

/-- Passes hand the well-formedness of clauses on, so no pass of a run meets a fault. -/
theorem runFor_eq_ok {search : Search} (formed : ∀ c ∈ search.clauses, c.Formed symbols) (passes : Nat) :
    runFor policy symbols clock passes search = .ok (search.runFor policy symbols clock passes) := by
  induction passes generalizing search with
  | zero => rfl
  | succ n ih =>
      rw [runFor, pass_eq_ok formed, Search.runFor_succ]
      cases made : search.pass policy symbols clock with
      | finished outcome => rfl
      | running after => exact ih (Search.inherited_of_pass Clause.formed_of_mem_resolve formed made)

theorem saturateFor_eq_ok {search : Search} (formed : ∀ c ∈ search.clauses, c.Formed symbols) (passes : Nat) :
    saturateFor policy symbols clock passes search = .ok (search.saturateFor policy symbols clock passes) := by
  rw [saturateFor, Search.saturateFor_eq]
  split
  · rfl
  · exact runFor_eq_ok formed passes

theorem search_eq_ok {p : Problem} {query : Literal} (inTable : query.Over p.symbols) :
    search p query = .ok (p.search query) := by
  have negated : ∀ l ∈ [query.negate], l.Over p.symbols := by
    intro l member
    rw [List.mem_singleton.mp member]
    exact inTable
  rw [search, ofLiterals_eq_ok negated, ok_bind, renameAll_eq_ok]
  rfl

theorem proveAll_eq_ok {p : Problem} (formed : p.Formed) (inTable : ∀ query ∈ p.queries, query.Over p.symbols)
    (passes : Nat) : proveAll policy clock p passes =
      .ok (p.queries.map fun query => (query.text p.symbols, p.proveFor policy clock passes query)) := by
  refine mapM_eq_map fun query member => ?_
  rw [search_eq_ok (inTable query member), ok_bind, saturateFor_eq_ok (formed.search (inTable query member)),
    text_eq_ok (inTable query member)]
  rfl

end Searches

section Reading

open Source

variable {b : Builder} {kind : Kind}

theorem pending_of_readInto {line : NumberedLine} {after : Builder}
    (read : Source.readInto kind b line = .ok after) : after.pending = [] := by
  unfold Source.readInto at read
  split at read
  · cases read
  · cases kind with
    | sentence =>
        cases read
        rfl
    | query =>
        dsimp only [Builder.query?] at read
        split at read
        · next made =>
            split at made
            · cases made
              cases read
              rfl
            · cases made
        · cases read

/-- A query line adds one literal to none. -/
theorem exists_pending_of_query (none : b.pending = []) {w : List Char} {phrases : List LiteralPhrase}
    (read : readLine .query w = .ok phrases) : ∃ l, (phrases.foldl Builder.addPhrase b).pending = [l] := by
  obtain ⟨phrase, rfl, -⟩ := spellsLine_query_iff.mp (readLine_eq_ok_iff.mp read)
  have old : (b.denoteAll phrase.args).2.pending = b.pending := (b.denoteAll_frame phrase.args).2.2
  refine ⟨⟨phrase.positive, ((b.denoteAll phrase.args).2.symbols.intern phrase.predicate).1,
    (b.denoteAll phrase.args).1⟩, ?_⟩
  change (b.denoteAll phrase.args).2.pending ++ _ = _
  rw [old, none]
  rfl

theorem readInto_eq_ok (formed : b.Formed) (none : b.pending = []) (line : NumberedLine) :
    readInto kind b line = .ok (Source.readInto kind b line) := by
  unfold readInto Source.readInto
  cases read : readLine kind (line.chars.filter fun c => !Text.isBlank c) with
  | error mismatch => rfl
  | ok phrases =>
      cases kind with
      | sentence =>
          dsimp only
          rw [ofLiterals_eq_ok (formed.addPhrases phrases).pending]
          rfl
      | query =>
          obtain ⟨l, single⟩ := exists_pending_of_query none read
          simp only [Builder.query?, single]

theorem readLines_eq_ok (formed : b.Formed) (none : b.pending = []) (lines : List NumberedLine) :
    readLines kind b lines = .ok (Source.readLines kind b lines) := by
  induction lines generalizing b with
  | nil => rfl
  | cons line rest ih =>
      rw [readLines, readInto_eq_ok formed none, Source.readLines]
      cases read : Source.readInto kind b line with
      | ok after => exact ih (formed.readInto read) (pending_of_readInto read)
      | error error => rfl

theorem pending_of_readLines (none : b.pending = []) {lines : List NumberedLine} {after : Builder}
    (read : Source.readLines kind b lines = .ok after) : after.pending = [] :=
  readLines_keeps (P := fun b _ => b.pending = []) (fun _ step => pending_of_readInto step) [] read none

theorem ofText_eq_ok (text : String) : ofText text = .ok (Problem.ofText text) := by
  unfold ofText Problem.ofText
  cases takeSection .query (linesOf text) with
  | error error => rfl
  | ok queries =>
      dsimp only
      rw [readLines_eq_ok Builder.formed_empty rfl, ok_bind, ok_bind]
      cases readQueries : Source.readLines .query .empty queries.1 with
      | error error => rfl
      | ok asked =>
          dsimp only
          cases takeSection .sentence queries.2 with
          | error error => rfl
          | ok sentences =>
              dsimp only
              rw [readLines_eq_ok (Builder.formed_empty.readLines readQueries) (pending_of_readLines rfl readQueries)]
              simp only [ok_bind]
              cases Source.readLines .sentence asked sentences.1 with
              | error error => rfl
              | ok told => cases sentences.2 <;> rfl

end Reading

end Guarded

/-- From a text to the answers to its queries no lookup fails, however long the searches are: guarded reading finds
what is read, and guarded searching how every search stands after so many passes. -/
theorem Problem.never_faults (text : String) : Guarded.ofText text = .ok (Problem.ofText text) ∧
    ∀ p, Problem.ofText text = .ok p → ∀ (policy : Policy) (clock : Clock) (passes : Nat),
      Guarded.proveAll policy clock p passes =
        .ok (p.queries.map fun query => (query.text p.symbols, p.proveFor policy clock passes query)) := by
  refine ⟨Guarded.ofText_eq_ok text, fun p read policy clock passes => ?_⟩
  obtain ⟨formed, inTable⟩ := Problem.formed_ofText read
  exact Guarded.proveAll_eq_ok formed inTable passes

theorem Problem.numerals_never_fault :
    ∃ p, Problem.ofText "1\nP(S(x))\n2\n~P(x)|P(S(x))\nP(A)|~P(S(y))\n" = .ok p ∧
      Guarded.proveAll .standard .never p 3 =
        .ok (p.queries.map fun query => (query.text p.symbols, p.proveFor .standard .never 3 query)) := by
  obtain ⟨p, read⟩ := Problem.exists_ofText "1\nP(S(x))\n2\n~P(x)|P(S(x))\nP(A)|~P(S(y))\n" (by decide +kernel)
  exact ⟨p, read, (Problem.never_faults _).2 p read .standard .never 3⟩

/-- A problem whose table lacks the symbols of its query is not one of a text. -/
example : Guarded.proveAll .standard .never ⟨.empty, [], [⟨true, 0, []⟩]⟩ 0 = .error (.unknownSymbol 0) := rfl

end Refutation
