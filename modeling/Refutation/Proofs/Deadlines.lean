import Mathlib
import Refutation.Proofs.SearchAccounts

/-!
Searches that ask whether time is up, in any lawful monad. Only the first answer that says so matters, and every look
asks once, with the number of looks before it. So what such a search returns is what it returns without a deadline, or
what it returns with a clock that is up from one look on, and what holds of the searches with every clock holds of it.
The program is such a search in `IO`.
-/

namespace Refutation

/-- The clock that is up when so many looks were made. -/
def Clock.upAt (looks : Nat) : Clock := fun n => decide (looks ≤ n)

theorem Clock.upAt_ne_true {looks n : Nat} (early : n < looks) : ¬ Clock.upAt looks n = true := by
  rw [Clock.upAt, decide_eq_true_eq]
  omega

/-- Whether a run, from so many looks on, comes to a status without a deadline or by the clock that is up when the
run was cut off. -/
inductive Timed (run : Clock → Status) (first : Nat) : Status → Prop
  | inTime {status : Status} : run .never = status → Timed run first status
  | late {last : Search} : first ≤ last.looks → run (.upAt last.looks) = .finished ⟨.timedOut, last⟩ →
      Timed run first (.finished ⟨.timedOut, last⟩)

theorem Timed.exists_clock {run : Clock → Status} {first : Nat} {status : Status} (timed : Timed run first status) :
    ∃ clock, run clock = status := by
  cases timed with
  | inTime ended => exact ⟨.never, ended⟩
  | @late last _ ended => exact ⟨.upAt last.looks, ended⟩

namespace Search

variable {policy : Policy} {symbols : Symbols} {before between after : Search} {n : Nat}

theorem looks_of_lookAt {c d : Clause} (look : before.lookAt policy symbols c d = .running after) :
    after.looks = before.looks + 1 := by
  have adds := before.lookAt_adds policy symbols c d
  rw [look] at adds
  exact adds.looks

theorem scan_of_lookAt {clock : Clock} {c d : Clause} {rest : List (Clause × Clause)}
    (early : ¬ clock before.looks = true) (look : before.lookAt policy symbols c d = .running between) :
    before.scan policy symbols clock ((c, d) :: rest) = between.scan policy symbols clock rest := by
  rw [scan_cons, if_neg early, look]

theorem looks_le_of_scan {todo : List (Clause × Clause)}
    (scanned : before.scan policy symbols .never todo = .running after) : before.looks ≤ after.looks := by
  obtain ⟨count, -, adds, -⟩ := scan_adds policy symbols todo before
  rw [scanned] at adds
  have looks : after.looks = before.looks + count := adds.looks
  omega

theorem looks_le_of_pass (made : before.pass policy symbols .never = .running after) : before.looks ≤ after.looks := by
  have looks := (pass_running_adds made).1
  omega

/-- A clock that is not up before the end of a scan does not change it. -/
theorem scan_upAt {todo : List (Clause × Clause)} (scanned : before.scan policy symbols .never todo = .running after)
    (later : after.looks ≤ n) : before.scan policy symbols (.upAt n) todo = .running after := by
  induction todo generalizing before with
  | nil => exact scanned
  | cons pair rest ih =>
      obtain ⟨c, d⟩ := pair
      have early := never_ne_true before.looks
      cases look : before.lookAt policy symbols c d with
      | finished outcome =>
          rw [scan_cons, if_neg early, look] at scanned
          cases scanned
      | running between =>
          rw [scan_of_lookAt early look] at scanned
          have one := looks_of_lookAt look
          have others := looks_le_of_scan scanned
          rw [scan_of_lookAt (Clock.upAt_ne_true (by omega)) look]
          exact ih scanned

theorem pass_upAt (made : before.pass policy symbols .never = .running after) (later : after.looks ≤ n) :
    before.pass policy symbols (.upAt n) = .running after := by
  rw [pass_eq] at made ⊢
  cases scanned : before.beginPass.scan policy symbols .never (pairs before.snapshot) with
  | finished outcome =>
      rw [scanned] at made
      cases made
  | running between =>
      rw [scanned] at made
      have ended : between.endPass = .running after := made
      have same : after.looks = between.looks := by
        unfold endPass at ended
        split at ended
        · cases ended
        · cases ended
          rfl
      rw [scan_upAt scanned (same ▸ later)]
      exact made

section Monads

variable {m : Type → Type} [Monad m] [LawfulMonad m] (policy : Policy) (symbols : Symbols) (timeUp : Nat → m Bool)

theorem scanM_timed (todo : List (Clause × Clause)) (before : Search) :
    SatisfiesM (Timed (before.scan policy symbols · todo) before.looks)
      (scanM policy symbols timeUp todo before) := by
  induction todo generalizing before with
  | nil => exact SatisfiesM.pure (.inTime rfl)
  | cons pair rest ih =>
      obtain ⟨c, d⟩ := pair
      have early := never_ne_true before.looks
      rw [scanM]
      refine SatisfiesM.trivial.bind fun up _ => ?_
      split
      · refine SatisfiesM.pure (.late (Nat.le_refl _) ?_)
        exact scan_cons.trans (if_pos (decide_eq_true (Nat.le_refl _)))
      · cases look : before.lookAt policy symbols c d with
        | finished outcome =>
            refine SatisfiesM.pure (.inTime ?_)
            rw [scan_cons, if_neg early, look]
        | running between =>
            have one := looks_of_lookAt look
            refine (ih between).imp fun {status} timed => ?_
            cases timed with
            | inTime ended =>
                refine .inTime ?_
                rw [scan_of_lookAt early look]
                exact ended
            | late order ended =>
                refine .late (by omega) ?_
                rw [scan_of_lookAt (Clock.upAt_ne_true (by omega)) look]
                exact ended

theorem passM_timed (before : Search) :
    SatisfiesM (Timed (before.pass policy symbols ·) before.looks) (passM policy symbols timeUp before) := by
  refine (scanM_timed policy symbols timeUp (pairs before.snapshot) before.beginPass).bind fun status timed => ?_
  cases timed with
  | inTime ended =>
      cases status with
      | finished outcome =>
          refine SatisfiesM.pure (.inTime ?_)
          rw [pass_eq, ended]
      | running between =>
          refine SatisfiesM.pure (.inTime ?_)
          rw [pass_eq, ended]
  | late order ended =>
      refine SatisfiesM.pure (.late order ?_)
      rw [pass_eq, ended]

theorem runForM_timed (passes : Nat) (before : Search) :
    SatisfiesM (Timed (before.runFor policy symbols · passes) before.looks)
      (runForM policy symbols timeUp passes before) := by
  induction passes generalizing before with
  | zero => exact SatisfiesM.pure (.inTime rfl)
  | succ n ih =>
      rw [runForM]
      refine (passM_timed policy symbols timeUp before).bind fun status timed => ?_
      cases timed with
      | late order ended =>
          refine SatisfiesM.pure (.late order ?_)
          rw [runFor_succ, ended]
      | inTime ended =>
          cases status with
          | finished outcome =>
              refine SatisfiesM.pure (.inTime ?_)
              rw [runFor_succ, ended]
          | running between =>
              have more := looks_le_of_pass ended
              refine (ih between).imp fun {status} timed => ?_
              cases timed with
              | inTime rest =>
                  refine .inTime ?_
                  rw [runFor_succ, ended]
                  exact rest
              | late order rest =>
                  refine .late (more.trans order) ?_
                  rw [runFor_succ, pass_upAt ended order]
                  exact rest

/-- Whatever is answered when a search asks for the time, it returns what it returns with some clock. -/
theorem exists_clock_saturateForM (passes : Nat) (search : Search) :
    SatisfiesM (fun status => ∃ clock, search.saturateFor policy symbols clock passes = status)
      (saturateForM policy symbols timeUp passes search) := by
  rw [saturateForM]
  split
  · next empty => exact SatisfiesM.pure ⟨.never, saturateFor_eq.trans (if_pos empty)⟩
  · next searched =>
      refine (runForM_timed policy symbols timeUp passes search).imp fun {status} timed => ?_
      obtain ⟨clock, ended⟩ := timed.exists_clock
      exact ⟨clock, (saturateFor_eq.trans (if_neg searched)).trans ended⟩

end Monads

end Search

section Answers

universe u

variable {m : Type → Type} [Monad m] [LawfulMonad m]

/-- What each call gives, if it gives anything, all calls in turn give. -/
theorem satisfiesM_mapM {α β : Type} {f : α → OptionT m β} {R : α → β → Prop}
    (each : ∀ a, SatisfiesM (fun given => ∀ b, given = some b → R a b) (f a).run) (as : List α) :
    SatisfiesM (fun given => ∀ bs, given = some bs → List.Forall₂ R as bs) (as.mapM f).run := by
  induction as with
  | nil =>
      rw [List.mapM_nil, OptionT.run_pure]
      refine SatisfiesM.pure fun bs given => ?_
      cases given
      exact .nil
  | cons a as ih =>
      rw [List.mapM_cons, OptionT.run_bind]
      refine (each a).bind fun first related => ?_
      cases first with
      | none => exact SatisfiesM.pure fun bs given => by cases given
      | some b =>
          show SatisfiesM _ (OptionT.run (as.mapM f >>= fun bs => pure (b :: bs)))
          rw [OptionT.run_bind]
          refine ih.bind fun rest others => ?_
          cases rest with
          | none => exact SatisfiesM.pure fun bs given => by cases given
          | some bs =>
              refine SatisfiesM.pure fun all given => ?_
              cases given
              exact .cons (related b rfl) (others bs rfl)

namespace Problem

/-- The answers to the queries of a problem, whatever is answered when they ask for the time, are those of searches
with some clock each. -/
theorem exists_clock_answersM? (p : Problem) (start : m (Nat → m Bool)) :
    SatisfiesM (fun given => ∀ answers, given = some answers → p.queries.Forall₂ (fun query answer =>
      answer.query = query ∧ ∃ clock, p.prove clock query = .finished answer.outcome) answers)
      (p.answersM? start) := by
  refine satisfiesM_mapM (fun query => ?_) p.queries
  refine SatisfiesM.trivial.bind fun timeUp _ => ?_
  refine (Search.exists_clock_saturateForM .standard p.symbols timeUp Tally.limit (p.search query)).bind ?_
  rintro status ⟨clock, ended⟩
  refine SatisfiesM.pure fun answer given => ?_
  cases status with
  | running search => cases given
  | finished outcome =>
      cases given
      exact ⟨rfl, clock, ended⟩

/-- A query that is answered by yes is entailed. -/
theorem entails_of_answersM? (p : Problem) (start : m (Nat → m Bool)) :
    SatisfiesM (fun given => ∀ answers, given = some answers → p.queries.Forall₂ (fun query answer =>
      answer.query = query ∧ (answer.entailed = true → Entails.{u} p query)) answers) (p.answersM? start) := by
  refine (p.exists_clock_answersM? start).imp fun related answers given => (related answers given).imp ?_
  rintro query answer ⟨own, clock, ended⟩
  have finished : p.proveFor .standard clock Tally.limit query = .finished answer.outcome := ended
  refine ⟨own, fun entailed => ?_⟩
  exact entails_of_unsatisfiable (Search.unsatisfiable_of_refuted finished (of_decide_eq_true entailed))

end Problem

end Answers

end Refutation
