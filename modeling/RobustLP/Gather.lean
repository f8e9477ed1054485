/-!
# Gathering by key

`gather key ts` collects what a list of pairs holds for each key, in the order of first appearance. It is how symbols
that occur several times in an expression, and columns that occur several times in a row, are brought together.

No pair is lost and none is invented (`exists_mem_of_mem_gather`), and the keys of the result differ from one another
(`pairwise_gather`).
-/

namespace RobustLP

variable {S α : Type} (key : S → Nat)

/-- The pairs with the key of `s`. -/
def pairsOf (s : S) (ts : List (S × α)) : List (S × α) := ts.filter fun t => key t.1 == key s

/-- The pairs with another key than `s`. -/
def pairsBeside (s : S) (ts : List (S × α)) : List (S × α) := ts.filter fun t => !(key t.1 == key s)

theorem length_pairsBeside_le (s : S) (ts : List (S × α)) : (pairsBeside key s ts).length ≤ ts.length :=
  List.length_filter_le _ _

/-- What is paired with each key, in the order of first appearance. -/
def gather : List (S × α) → List (S × List α)
  | [] => []
  | (s, c) :: rest => (s, c :: (pairsOf key s rest).map (·.2)) :: gather (pairsBeside key s rest)
termination_by ts => ts.length
decreasing_by exact Nat.lt_succ_of_le (length_pairsBeside_le _ _ _)

/-- Nothing gathers to nothing. -/
theorem gather_nil : gather key ([] : List (S × α)) = [] := by simp [gather]

theorem gather_cons (s : S) (c : α) (rest : List (S × α)) :
    gather key ((s, c) :: rest)
      = (s, c :: (pairsOf key s rest).map (·.2)) :: gather key (pairsBeside key s rest) := by
  rw [gather]

/-- A gathered key comes from the list. -/
theorem exists_mem_of_mem_gather {p : S × List α} : ∀ {ts : List (S × α)}, p ∈ gather key ts →
    ∃ c, (p.1, c) ∈ ts
  | [], h => by simp [gather] at h
  | (s, c) :: rest, h => by
    rw [gather] at h
    rcases List.mem_cons.mp h with h | h
    · exact ⟨c, by simp [h]⟩
    · obtain ⟨d, hd⟩ := exists_mem_of_mem_gather h
      exact ⟨d, List.mem_cons_of_mem _ (List.mem_filter.mp hd).1⟩
termination_by ts => ts.length
decreasing_by exact Nat.lt_succ_of_le (length_pairsBeside_le _ _ _)

/-- The keys of a gathered list differ from one another. -/
theorem pairwise_gather : ∀ ts : List (S × α), (gather key ts).Pairwise fun p q => key p.1 ≠ key q.1
  | [] => by simp [gather]
  | (s, c) :: rest => by
    rw [gather]
    refine List.Pairwise.cons ?_ (pairwise_gather _)
    intro q hq
    obtain ⟨d, hd⟩ := exists_mem_of_mem_gather key hq
    have := (List.mem_filter.mp hd).2
    simp only [Bool.not_eq_eq_eq_not, Bool.not_true, beq_eq_false_iff_ne] at this
    exact fun h => this h.symm
termination_by ts => ts.length
decreasing_by exact Nat.lt_succ_of_le (length_pairsBeside_le _ _ _)

end RobustLP
