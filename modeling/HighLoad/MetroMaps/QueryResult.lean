import HighLoad.Lib.Bytes

/-!
# The results of a query

`process_query_result` asks for a result, prints and clears it, and then asks for another one only to see whether there
is one. The one it gets is neither printed nor cleared. So of a sequence of results every other one is processed, from
the first on (`processQueryResult_eq`), and no result is lost only where there is at most one
(`processed_once_iff`). In any case the sequence is read to its end.
-/

namespace HighLoad.MetroMaps

open ByteString

/-! ## `PostgreSQL::process_query_result` -/

structure PGresult where
  /-- `PQresultStatus(result) == PGRES_TUPLES_OK`. -/
  tuplesOk : Bool
  ntuples : Nat
  nfields : Nat
  getvalue : Nat → Nat → Bytes

/-- What is printed of a result. -/
def PGresult.text (result : PGresult) : Bytes :=
  if result.tuplesOk then
    ascii "Query result: " ++ decimal result.ntuples ++ ascii " rows, " ++ decimal result.nfields ++
      ascii " columns\n" ++
      (List.range result.ntuples).flatMap fun i =>
        ((List.range result.nfields).flatMap fun j => result.getvalue i j ++ ascii " ") ++ ascii "\n"
  else []

structure Results where
  /-- What the next calls of `PQgetResult` return before null. -/
  waiting : List PGresult
  out : Bytes
  /-- History: the results that were processed. No step reads it. -/
  processed : List PGresult
  /-- History: the results handed to `PQclear`. No step reads it. -/
  cleared : List PGresult

namespace Results

/-- `PQgetResult` hands a result over. -/
def getResult (s : Results) : Option PGresult × Results := (s.waiting.head?, { s with waiting := s.waiting.tail })

def process (s : Results) (result : PGresult) : Results :=
  { s with out := s.out ++ result.text, processed := s.processed ++ [result] }

def clear (s : Results) (result : PGresult) : Results := { s with cleared := s.cleared ++ [result] }

theorem getResult_some {s t : Results} {result : PGresult} (h : s.getResult = (some result, t)) :
    s.waiting = result :: t.waiting := by
  obtain ⟨hhead, rfl⟩ := Prod.mk.inj h
  obtain ⟨rest, hrest⟩ := List.head?_eq_some_iff.mp hhead
  rw [hrest]
  rfl

def processQueryResult (s : Results) : Results :=
  match _hget : s.getResult with
  | (none, s') => s'
  | (some result, s') =>
    match _htest : ((s'.process result).clear result).getResult with
    | (none, t) => t
    | (some _, t) => processQueryResult t
termination_by s.waiting.length
decreasing_by
  have hs := congrArg List.length (getResult_some _hget)
  have ht : s'.waiting.length = t.waiting.length + 1 := congrArg List.length (getResult_some _htest)
  rw [List.length_cons] at hs
  omega

end Results

/-! ## Every other result -/

/-- The first, the third, the fifth … of a list. -/
def everyOther {α : Type*} : List α → List α
  | [] => []
  | [a] => [a]
  | a :: _ :: as => a :: everyOther as

theorem length_everyOther {α : Type*} (as : List α) : (everyOther as).length = (as.length + 1) / 2 := by
  induction as using everyOther.induct with
  | case1 => simp [everyOther]
  | case2 a => simp [everyOther]
  | case3 a b as ih =>
    simp only [everyOther, List.length_cons, ih]
    omega

/-- Nothing is left out of at most one. -/
theorem everyOther_eq_iff {α : Type*} (as : List α) : everyOther as = as ↔ as.length ≤ 1 := by
  constructor
  · intro h
    have hlen := length_everyOther as
    rw [h] at hlen
    omega
  · intro h
    rcases as with _ | ⟨a, _ | ⟨b, as⟩⟩
    · rfl
    · rfl
    · simp at h

/-- **What `process_query_result` does**: it processes and clears every other result and reads the sequence to its
end. -/
theorem processQueryResult_eq (s : Results) : s.processQueryResult =
    ⟨[], s.out ++ (everyOther s.waiting).flatMap PGresult.text, s.processed ++ everyOther s.waiting,
      s.cleared ++ everyOther s.waiting⟩ := by
  obtain ⟨waiting, out, processed, cleared⟩ := s
  induction waiting using everyOther.induct generalizing out processed cleared with
  | case1 =>
    rw [Results.processQueryResult]
    simp [Results.getResult, everyOther]
  | case2 result =>
    rw [Results.processQueryResult]
    simp [Results.getResult, Results.process, Results.clear, everyOther]
  | case3 result dropped rest ih =>
    rw [Results.processQueryResult]
    simp [Results.getResult, Results.process, Results.clear, everyOther, ih]

/-- Every result is processed and cleared once, in the order of the results. -/
def ProcessedOnce (results : List PGresult) : Prop :=
  (Results.processQueryResult ⟨results, [], [], []⟩).processed = results ∧
    (Results.processQueryResult ⟨results, [], [], []⟩).cleared = results

/-- **Every result is processed once exactly when there is at most one.** -/
theorem processed_once_iff (results : List PGresult) : ProcessedOnce results ↔ results.length ≤ 1 := by
  have hall : ∀ as : List PGresult, [] ++ everyOther as = as ↔ as.length ≤ 1 := everyOther_eq_iff
  unfold ProcessedOnce
  rw [processQueryResult_eq, hall, and_self]

/-- Of two results the second is skipped. -/
theorem twoResults_skipped : ¬ProcessedOnce [⟨true, 1, 1, fun _ _ => ascii "1"⟩, ⟨true, 1, 1, fun _ _ => ascii "2"⟩] := by
  rintro ⟨hprocessed, -⟩
  rw [processQueryResult_eq] at hprocessed
  exact absurd (congrArg List.length hprocessed) (by decide)

end HighLoad.MetroMaps
