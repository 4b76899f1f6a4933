import Refutation.Proofs.Progress
import Refutation.Proofs.Yield

/-!
What a search spends: the pairs that it resolves and those that it skips, the resolvents that it meets and
the variables that it issues. Every look adds what its pair costs, and a pass without an end adds the cost
of all pairs. The cost of a pair depends neither on the copies of the two clauses nor on their order, so
the cost of a pass depends only on which clauses were known when it began.
-/

namespace Refutation

def sumOf {α : Type} (f : α → Nat) : List α → Nat
  | [] => 0
  | a :: as => f a + sumOf f as

theorem sumOf_perm {α : Type} (f : α → Nat) {as bs : List α} (perm : as.Perm bs) : sumOf f as = sumOf f bs := by
  induction perm with
  | nil => rfl
  | cons a _ ih => rw [sumOf, sumOf, ih]
  | swap a b as =>
      simp only [sumOf]
      omega
  | trans _ _ first second => rw [first, second]

theorem perm_eraseDups {α : Type} [BEq α] [LawfulBEq α] {as bs : List α} (same : ∀ a, a ∈ as ↔ a ∈ bs) :
    as.eraseDups.Perm bs.eraseDups := by
  refine (List.perm_ext_iff_of_nodup (nodup_eraseDups as) (nodup_eraseDups bs)).mpr fun a => ?_
  rw [List.mem_eraseDups, List.mem_eraseDups, same]

/-- As many elements are kept as there are different keys. -/
theorem length_distinctBy {α β : Type} [BEq β] [LawfulBEq β] [Hashable β] (key : α → β) (as : List α) :
    (distinctBy key as).length = (as.map key).eraseDups.length := by
  have distinct : ((distinctBy key as).map key).Nodup := by
    rw [List.Nodup, List.pairwise_map]
    exact distinctBy_pairwise key as
  have perm : ((distinctBy key as).map key).Perm (as.map key).eraseDups := by
    refine (List.perm_ext_iff_of_nodup distinct (nodup_eraseDups _)).mpr fun k => ?_
    rw [List.mem_eraseDups, List.mem_map, List.mem_map]
    constructor
    · rintro ⟨a, kept, rfl⟩
      exact ⟨a, (distinctBy_sublist key as).subset kept, rfl⟩
    · rintro ⟨a, member, rfl⟩
      exact exists_mem_distinctBy key member
  rw [← perm.length_eq, List.length_map]

namespace Clause

/-- How many variables the clauses of a standard form have. -/
def breadth (form : List Literal) : Nat := (Naming.ofList (form.flatMap Literal.vars)).size

theorem canonical_renameAll (cs : List Clause) (supply : Supply) :
    (renameAll cs supply).1.map canonical = cs.map canonical := by
  induction cs generalizing supply with
  | nil => rfl
  | cons c cs ih => exact congrArg (c.canonical :: ·) (ih (c.rename supply).2)

theorem issued_renameAll (cs : List Clause) (supply : Supply) :
    (renameAll cs supply).2.issued = supply.issued + sumOf breadth (cs.map canonical) := by
  induction cs generalizing supply with
  | nil => rfl
  | cons c cs ih =>
      have first : (Naming.ofList c.vars).size = breadth c.canonical := by
        rw [breadth, c.standard, Arrangement.size_naming_standardForm, vars]
      calc
        (renameAll (c :: cs) supply).2.issued = (renameAll cs (c.rename supply).2).2.issued := rfl
        _ = supply.issued + breadth c.canonical + sumOf breadth (cs.map canonical) := by
          rw [ih, issued_rename, first]
        _ = supply.issued + sumOf breadth ((c :: cs).map canonical) := Nat.add_assoc _ _ _

variable {symbols : Symbols} {c d c' d' : Clause}

theorem length_resolve (symbols : Symbols) (c d : Clause) (supply : Supply) :
    (c.resolve symbols d supply).1.length = (c.yield symbols d).eraseDups.length := by
  rw [yield, ← canonical_renameAll _ supply]
  exact length_distinctBy canonical _

theorem issued_resolve (symbols : Symbols) (c d : Clause) (supply : Supply) :
    (c.resolve symbols d supply).2.issued = supply.issued + sumOf breadth (c.yield symbols d) :=
  issued_renameAll _ supply

theorem complementary_comm (c d : Clause) : c.complementary d = d.complementary c := by
  rw [Bool.eq_iff_iff]
  simp only [complementary, List.any_eq_true, Bool.and_eq_true, bne_iff_ne, beq_iff_eq]
  constructor
  · rintro ⟨p, left, q, right, signs, predicates⟩
    exact ⟨q, right, p, left, signs.symm, predicates.symm⟩
  · rintro ⟨q, right, p, left, signs, predicates⟩
    exact ⟨p, left, q, right, signs.symm, predicates.symm⟩

theorem complementary_of_same (sameC : c.Same c') (sameD : d.Same d') :
    c'.complementary d' = c.complementary d := by
  obtain ⟨ρ, -, copyC⟩ := exists_map_rename_of_same sameC
  obtain ⟨σ, -, copyD⟩ := exists_map_rename_of_same sameD
  rw [complementary, copyC, copyD, List.any_map]
  simp only [List.any_map]
  rfl

end Clause

/-- What is spent in a search. -/
@[ext] structure Effort where
  examined : Nat
  skipped : Nat
  resolvents : Nat
  issued : Nat

namespace Effort

def add (e f : Effort) : Effort :=
  ⟨e.examined + f.examined, e.skipped + f.skipped, e.resolvents + f.resolvents, e.issued + f.issued⟩

instance : RightCommutative add where
  right_comm e f g := by
    ext <;> exact Nat.add_right_comm _ _ _

/-- What a look at two clauses costs, where pairs that cannot resolve are skipped or not. -/
def ofPair (skips : Bool) (symbols : Symbols) (pair : Clause × Clause) : Effort :=
  if skips && !pair.1.complementary pair.2 then ⟨0, 1, 0, 0⟩
  else ⟨1, 0, (pair.1.yield symbols pair.2).eraseDups.length,
    sumOf Clause.breadth (pair.1.yield symbols pair.2)⟩

section Pairs

variable {skips : Bool} {symbols : Symbols} {c d c' d' : Clause}

theorem ofPair_swap (left : c.Formed symbols) (right : d.Formed symbols) :
    ofPair skips symbols (d, c) = ofPair skips symbols (c, d) := by
  have perm := left.perm_yield_swap right
  simp only [ofPair, d.complementary_comm c, (perm_eraseDups fun _ => perm.mem_iff).length_eq,
    sumOf_perm Clause.breadth perm]

theorem ofPair_of_same (left : c.Formed symbols) (right : d.Formed symbols) (sameC : c.Same c')
    (sameD : d.Same d') (apart : c.Apart d) (apart' : c'.Apart d') :
    ofPair skips symbols (c', d') = ofPair skips symbols (c, d) := by
  simp only [ofPair, Clause.complementary_of_same sameC sameD,
    left.yield_eq_of_same right sameC sameD apart apart']

end Pairs

end Effort

section Pairing

variable {β : Type} {f : Clause × Clause → β} {cs ds : List Clause}

/-- What does not depend on the order of two clauses is the same for all pairs of a rearranged list. -/
theorem perm_map_pairs (perm : cs.Perm ds) (symmetric : cs.Pairwise fun c d => f (d, c) = f (c, d)) :
    ((pairs cs).map f).Perm ((pairs ds).map f) := by
  induction perm with
  | nil => exact .refl _
  | @cons c cs ds perm ih =>
      rw [pairs, pairs, List.map_append, List.map_append]
      exact ((perm.map _).map f).append (ih (List.Pairwise.of_cons symmetric))
  | swap c d cs =>
      have turned : f (d, c) = f (c, d) := (List.rel_of_pairwise_cons symmetric List.mem_cons_self).symm
      simp only [pairs, List.map_append, List.map_cons, List.map_map, List.cons_append, turned]
      refine .cons _ ?_
      rw [← List.append_assoc, ← List.append_assoc]
      exact List.perm_append_comm.append_right _
  | trans first _ left right => exact (left symmetric).trans (right ((first.pairwise_iff Eq.symm).mp symmetric))

theorem map_eq_of_forall₂ {R : Clause → Clause → Prop} {g h : Clause → β} (related : List.Forall₂ R cs ds)
    (alike : ∀ c ∈ cs, ∀ d ∈ ds, R c d → h d = g c) : ds.map h = cs.map g := by
  induction related with
  | nil => rfl
  | cons head _ ih =>
      have rest := ih fun c left d right => alike c (List.mem_cons_of_mem _ left) d (List.mem_cons_of_mem _ right)
      rw [List.map_cons, List.map_cons, rest, alike _ List.mem_cons_self _ List.mem_cons_self head]

theorem map_pairs_eq {R : Clause → Clause → Prop} (related : List.Forall₂ R cs ds)
    (alike : ∀ c d c' d', (c, d) ∈ pairs cs → (c', d') ∈ pairs ds → R c c' → R d d' → f (c', d') = f (c, d)) :
    (pairs ds).map f = (pairs cs).map f := by
  induction related with
  | nil => rfl
  | @cons c c' cs ds head tail ih =>
      have first : ds.map (fun d' => f (c', d')) = cs.map fun d => f (c, d) :=
        map_eq_of_forall₂ tail fun d left d' right => alike c d c' d' (by simp [pairs, left])
          (by simp [pairs, right]) head
      have rest := ih fun c d c' d' left right => alike c d c' d' (by simp [pairs, left]) (by simp [pairs, right])
      simp only [pairs, List.map_append, List.map_map, rest]
      exact congrArg (· ++ _) first

end Pairing

/-- Lists of the same clauses, in whatever order, have the same costs of pairs. -/
theorem Effort.perm_ofPair {skips : Bool} {symbols : Symbols} {cs ds : List Clause}
    (formed : ∀ c ∈ cs, c.Formed symbols) (apart : cs.Pairwise Clause.Apart) (apart' : ds.Pairwise Clause.Apart)
    (forms : (cs.map Clause.canonical).Perm (ds.map Clause.canonical)) :
    ((pairs cs).map (ofPair skips symbols)).Perm ((pairs ds).map (ofPair skips symbols)) := by
  -- `es` has the clauses of `ds` in the places that they have in `cs`
  obtain ⟨es, same, perm⟩ : ∃ es, List.Forall₂ Clause.Same cs es ∧ es.Perm ds := by
    have own : List.Forall₂ (fun form d => form = d.canonical) (ds.map Clause.canonical) ds := by
      rw [List.forall₂_map_left_iff, List.forall₂_same]
      exact fun d _ => rfl
    obtain ⟨es, related, perm⟩ := List.perm_comp_forall₂ forms own
    have same := List.forall₂_map_left_iff.mp related
    exact ⟨es, same, perm⟩
  have apartEs : es.Pairwise Clause.Apart := (perm.pairwise_iff Clause.Apart.symm).mpr apart'
  have formedEs : ∀ e ∈ es, e.Formed symbols := by
    intro e member
    have listed := forms.mem_iff.mpr (List.mem_map_of_mem (perm.subset member))
    obtain ⟨c, inside, equal⟩ := List.mem_map.mp listed
    exact .of_same equal.symm (formed c inside)
  have places : (pairs es).map (ofPair skips symbols) = (pairs cs).map (ofPair skips symbols) := by
    refine map_pairs_eq same fun c d c' d' left right sameC sameD => ?_
    obtain ⟨inC, inD⟩ := of_mem_pairs left
    exact ofPair_of_same (formed c inC) (formed d inD) sameC sameD (rel_of_mem_pairs apart left)
      (rel_of_mem_pairs apartEs right)
  rw [← places]
  apply perm_map_pairs perm
  exact List.pairwise_of_forall_mem_list fun c left d right => ofPair_swap (formedEs c left) (formedEs d right)

namespace Search

variable {policy : Policy} {symbols : Symbols} {clock : Clock} {before after : Search}

/-- What a search has spent so far. -/
def effort (search : Search) : Effort :=
  ⟨search.tally.examined, search.tally.skipped, search.tally.resolvents, search.supply.issued⟩

theorem effort_lookAt (policy : Policy) (symbols : Symbols) (c d : Clause) (before : Search) :
    (before.lookAt policy symbols c d).search.effort =
      before.effort.add (.ofPair policy.skips symbols (c, d)) := by
  have issued := Clause.issued_resolve symbols c d before.supply
  have met : ∀ n, (policy.enumerate n (c.resolve symbols d before.supply).1).length =
      (c.yield symbols d).eraseDups.length := by
    intro n
    rw [(policy.enumerate_perm _ _).length_eq, Clause.length_resolve]
  unfold lookAt Effort.ofPair
  split
  · rfl
  · simp only
    split <;> simp [Status.search, effort, Effort.add, Tally.count, met, issued]

theorem effort_scan {todo : List (Clause × Clause)}
    (scanned : before.scan policy symbols clock todo = .running after) :
    after.effort = (todo.map (Effort.ofPair policy.skips symbols)).foldl Effort.add before.effort := by
  induction todo generalizing before with
  | nil =>
      cases scanned
      rfl
  | cons pair rest ih =>
      obtain ⟨c, d⟩ := pair
      have first := before.effort_lookAt policy symbols c d
      rw [scan_cons] at scanned
      split at scanned
      · cases scanned
      · split at scanned
        · cases scanned
        · next between looked =>
            rw [looked] at first
            rw [ih scanned, List.map_cons, List.foldl_cons, ← first]
            rfl

/-- A pass that looked at all pairs has spent what they cost. -/
theorem effort_pass {status : Status} (made : before.pass policy symbols clock = status)
    (whole : ∀ outcome, status = .finished outcome → outcome.verdict = .saturated) :
    status.search.effort =
      ((pairs before.snapshot).map (Effort.ofPair policy.skips symbols)).foldl Effort.add before.effort := by
  have started : before.beginPass.effort = before.effort := rfl
  cases scan : before.beginPass.scan policy symbols clock (pairs before.snapshot) with
  | running scanned =>
      rw [← started, ← effort_scan scan, ← made, pass_eq, scan]
      show scanned.endPass.search.effort = scanned.effort
      unfold endPass
      split <;> rfl
  | finished outcome =>
      rw [pass_eq, scan] at made
      have saturated := whole outcome made.symm
      obtain ⟨_, _, _, _, _, -, -, late | look⟩ := scanned_of_finished scan
      · rw [late.2] at saturated
        cases saturated
      · rw [(lookAt_eq_finished look).1] at saturated
        cases saturated

end Search

end Refutation
