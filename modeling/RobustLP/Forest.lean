/-!
# Forests of links

The numbers below a bound are put into groups. Each number has a parent that is not larger; one that is its own parent is a
root, and the numbers with the same root form a group. So a root is the least number of its group.

A search for the root of a number halves the path to it: each number that it meets gets the parent of its parent. Parents
are smaller than their children, so the search ends.
-/

namespace RobustLP

/-- Parents of numbers, none of them larger than its child. -/
structure Forest where
  parents : List Nat
  ordered : ∀ k p : Nat, parents[k]? = some p → p ≤ k

namespace Forest

/-- The parent of a number. A number without entry is its own parent. -/
def parent (f : Forest) (k : Nat) : Nat := f.parents[k]?.getD k

theorem parent_le (f : Forest) (k : Nat) : f.parent k ≤ k := by
  unfold parent
  cases h : f.parents[k]? with
  | none => simp
  | some p => simpa using f.ordered k p h

/-- `n` numbers, each a group of its own. -/
def singletons (n : Nat) : Forest where
  parents := List.range n
  ordered k p h := by
    have := List.getElem?_eq_some_iff.mp h
    simp at this
    omega

/-- Gives a number another parent. -/
def setParent (f : Forest) (k p : Nat) (h : p ≤ k) : Forest where
  parents := f.parents.set k p
  ordered i q hq := by
    rw [List.getElem?_set] at hq
    split at hq
    · split at hq
      · simp at hq; omega
      · cases hq
    · exact f.ordered i q hq

/-- The root of a number, and the forest with the path to it halved. -/
def find (f : Forest) (k : Nat) : Nat × Forest :=
  if f.parent k = k then (k, f)
  else
    have hp : f.parent (f.parent k) ≤ k := Nat.le_trans (f.parent_le _) (f.parent_le k)
    (f.setParent k (f.parent (f.parent k)) hp).find (f.parent (f.parent k))
termination_by k
decreasing_by
  have hle := f.parent_le (f.parent k)
  have hlt := f.parent_le k
  omega

/-- Joins the groups of two numbers. The smaller one of their roots is the root of the new group. -/
def unite (f : Forest) (i j : Nat) : Forest :=
  let (a, f) := f.find i
  let (b, f) := f.find j
  if a = b then f else f.setParent (max a b) (min a b) (by omega)

/-- Joins the groups of some numbers. -/
def join (f : Forest) : List Nat → Forest
  | [] => f
  | k :: ks => ks.foldl (fun f j => f.unite k j) f

/-- The roots of numbers, found one after the other. -/
def findAll (f : Forest) : List Nat → List Nat
  | [] => []
  | k :: ks =>
    let (r, f) := f.find k
    r :: f.findAll ks

end Forest

end RobustLP
