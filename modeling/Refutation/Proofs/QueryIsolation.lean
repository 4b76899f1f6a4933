import Refutation.Proofs.Reading

/-!
Queries have no influence on each other. Other queries of a text change the numbers of all symbols, and they
bring names into the table that the sentences do not have. The search for a query shows the same in every text
that has the query and the sentences: coded by the names of symbols the premises are what the lines say.
-/

namespace Refutation

namespace Problem

variable {p : Problem} {query : Literal}

theorem over_of_mem_premises (formed : p.Formed) (inTable : query.Over p.symbols) {C : LiteralSet}
    (premise : C ∈ p.premises query) : ∀ l ∈ C, l.Over p.symbols := by
  rcases premise with rfl | ⟨c, member, rfl⟩
  · rintro l rfl
    exact inTable
  · exact (formed c member).over_literals

/-- Premises are similar to what they are when coded by the names of their symbols. -/
theorem similar_code (formed : p.Formed) (inTable : query.Over p.symbols) :
    Similar (p.premises query) (LiteralSet.renumber p.symbols.code '' p.premises query) := by
  -- codes are no permutation, but they are part of one on the symbols of the table
  obtain ⟨π, codes⟩ := p.symbols.exists_perm_code
  have agree : ∀ C ∈ p.premises query, C.renumber π = C.renumber p.symbols.code := by
    intro C premise
    refine Set.image_congr fun l member => l.renumber_congr fun id used => ?_
    exact codes id (over_of_mem_premises formed inTable premise l member id used)
  rw [← Set.image_congr agree]
  exact .renumber π (p.premises query)

theorem renumber_premises (p : Problem) (query : Literal) (f : SymbolId → SymbolId) :
    LiteralSet.renumber f '' p.premises query =
      insert {(query.renumber f).negate} {C | C ∈ p.clauses.map fun c => c.toSet.renumber f} := by
  rw [premises, Set.image_insert_eq, Set.image_image, LiteralSet.renumber, Set.image_singleton,
    Literal.renumber_negate]
  congr 1
  ext C
  simp

section Texts

variable {text text' : String} {p q : Problem} {line : List Char} {i j : Nat}

/-- The query of a line, in its place, is what the line asks for. -/
theorem exists_query_of_line (read : Problem.ofText text = .ok p)
    (asked : (Source.queryLines text)[i]? = some line) :
    ∃ query, p.queries[i]? = some query ∧ [query.renumber p.symbols.code] = Source.spoken .query line := by
  obtain ⟨b, rfl, records⟩ := records_ofText read
  have place := congrArg (·[i]?) records.queries
  simp only [List.getElem?_map, asked, Option.map_some] at place
  obtain ⟨query, found, spoken⟩ := Option.map_eq_some_iff.mp place
  exact ⟨query, found, spoken⟩

theorem clauses_eq_of_sentences (read : Problem.ofText text = .ok p) (read' : Problem.ofText text' = .ok q)
    (sentences : Source.sentenceLines text = Source.sentenceLines text') :
    p.clauses.map (fun c => c.toSet.renumber p.symbols.code) =
      q.clauses.map fun c => c.toSet.renumber q.symbols.code := by
  obtain ⟨b, rfl, records⟩ := records_ofText read
  obtain ⟨b', rfl, records'⟩ := records_ofText read'
  have lines := records'.clauses
  rw [← sentences] at lines
  exact records.clauses.trans lines.symm

/-- A query that is asked in two texts with the same sentences, each time among any other queries, is searched for
alike: without a deadline both searches show the same after every number of passes. -/
theorem query_isolated (read : Problem.ofText text = .ok p) (read' : Problem.ofText text' = .ok q)
    (sentences : Source.sentenceLines text = Source.sentenceLines text')
    (asked : (Source.queryLines text)[i]? = some line) (asked' : (Source.queryLines text')[j]? = some line) :
    ∃ query query', p.queries[i]? = some query ∧ q.queries[j]? = some query' ∧
      ∀ (policy policy' : Policy) (n : Nat),
        (p.proveFor policy .never n query).profile = (q.proveFor policy' .never n query').profile := by
  obtain ⟨query, found, spoken⟩ := exists_query_of_line read asked
  obtain ⟨query', found', spoken'⟩ := exists_query_of_line read' asked'
  obtain ⟨formed, inTable⟩ := formed_ofText read
  obtain ⟨formed', inTable'⟩ := formed_ofText read'
  have overP := inTable query (List.mem_of_getElem? found)
  have overQ := inTable' query' (List.mem_of_getElem? found')
  have queries : query.renumber p.symbols.code = query'.renumber q.symbols.code :=
    List.head_eq_of_cons_eq (spoken.trans spoken'.symm)
  have coded : LiteralSet.renumber p.symbols.code '' p.premises query =
      LiteralSet.renumber q.symbols.code '' q.premises query' := by
    rw [renumber_premises, renumber_premises, queries, clauses_eq_of_sentences read read' sentences]
  have similar : Similar (p.premises query) (q.premises query') := by
    have left := similar_code formed overP
    rw [coded] at left
    exact left.trans (similar_code formed' overQ).symm
  exact ⟨query, query', found, found', fun policy policy' n =>
    profile_proveFor formed overP formed' overQ similar policy policy' n⟩

/-- Whether it is wet in Oslo, where every place is wet. -/
def oneQuery : String := "1\nWet(Oslo)\n1\nWet(x)\n"

/-- The same behind a question about something else. -/
def twoQueries : String := "2\nDry(Rome)\nWet(Oslo)\n1\nWet(x)\n"

/-- The other question gives new numbers to all symbols, but the search for a wet Oslo shows the same. -/
theorem oslo_isolated : ∃ p q query query', Problem.ofText oneQuery = .ok p ∧ Problem.ofText twoQueries = .ok q ∧
    p.queries[0]? = some query ∧ q.queries[1]? = some query' ∧
    ∀ n, (p.proveFor .standard .never n query).profile = (q.proveFor .standard .never n query').profile := by
  obtain ⟨p, read⟩ := exists_ofText oneQuery (by decide +kernel)
  obtain ⟨q, read'⟩ := exists_ofText twoQueries (by decide +kernel)
  have sentences : Source.sentenceLines oneQuery = Source.sentenceLines twoQueries := by decide +kernel
  have asked : (Source.queryLines oneQuery)[0]? = some "Wet(Oslo)".toList := by decide +kernel
  have asked' : (Source.queryLines twoQueries)[1]? = some "Wet(Oslo)".toList := by decide +kernel
  obtain ⟨query, query', found, found', same⟩ := query_isolated read read' sentences asked asked'
  exact ⟨p, q, query, query', read, read', found, found', same .standard .standard⟩

end Texts

end Problem

end Refutation
