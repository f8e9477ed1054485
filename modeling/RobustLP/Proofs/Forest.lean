import Mathlib
import RobustLP.Forest

/-!
# Roots in a forest

The root of a number is reached by going from parent to parent (`root`). Halving a path changes no root (`root_find`), so a
search answers the root (`find_fst`). Joining two groups gives all their numbers the smaller of the two roots
(`root_unite`). After joining some lists of numbers one after the other, two numbers have the same root if and only if they
are connected through common lists (`root_foldl_join_iff`).
-/

namespace RobustLP.Forest

variable {f : Forest} {i j k p : Nat}

/-- The root of a number: go to the parent until a number is its own parent. -/
def root (f : Forest) (k : Nat) : Nat := if f.parent k = k then k else f.root (f.parent k)
termination_by k
decreasing_by
  have := f.parent_le k
  omega

/-! ## Walking to the root -/

theorem parent_lt (h : f.parent k ≠ k) : f.parent k < k := by
  have := f.parent_le k
  omega

/-- Only a number of the forest has another parent than itself. -/
theorem lt_length_of_parent_ne (h : f.parent k ≠ k) : k < f.parents.length := by
  by_contra hk
  exact h (by simp [parent, List.getElem?_eq_none (Nat.le_of_not_lt hk)])

theorem root_of_parent (h : f.parent k = k) : f.root k = k := by rw [root, if_pos h]

theorem root_parent (f : Forest) (k : Nat) : f.root (f.parent k) = f.root k := by
  by_cases h : f.parent k = k
  · rw [h]
  · rw [root.eq_def f k, if_neg h]

theorem root_le (f : Forest) (k : Nat) : f.root k ≤ k := by
  induction k using root.induct f with
  | case1 k h => exact (root_of_parent h).le
  | case2 k h ih =>
    rw [← root_parent]
    exact ih.trans (f.parent_le k)

theorem parent_root (f : Forest) (k : Nat) : f.parent (f.root k) = f.root k := by
  induction k using root.induct f with
  | case1 k h => rw [root_of_parent h, h]
  | case2 k h ih => rwa [root_parent] at ih

theorem root_root (f : Forest) (k : Nat) : f.root (f.root k) = f.root k := root_of_parent (f.parent_root k)

theorem root_singletons (n k : Nat) : (singletons n).root k = k := by
  refine root_of_parent ?_
  by_cases hk : k < n
  · simp [parent, singletons, List.getElem?_range hk]
  · simp [parent, singletons, hk]

/-! ## Another parent -/

@[simp] theorem length_setParent (h : p ≤ k) : (f.setParent k p h).parents.length = f.parents.length := by
  simp [setParent]

theorem parent_setParent (h : p ≤ k) (hk : k < f.parents.length) (j : Nat) :
    (f.setParent k p h).parent j = if j = k then p else f.parent j := by
  by_cases hj : j = k
  · simp [parent, setParent, hj, List.getElem?_set_self hk]
  · simp [parent, setParent, hj, List.getElem?_set_ne (Ne.symm hj)]

/-- No root changes when a number gets a parent with the same root. -/
theorem root_setParent_of_root_eq (hk : k < f.parents.length) (hlt : p < k) (h : f.root p = f.root k) (j : Nat) :
    (f.setParent k p hlt.le).root j = f.root j := by
  have hpar := parent_setParent hlt.le hk
  induction j using Nat.strongRecOn with
  | ind j ih =>
    by_cases hj : j = k
    · rw [← root_parent, hpar, if_pos hj, ih p (hj ▸ hlt), h, hj]
    · by_cases hroot : f.parent j = j
      · rw [root_of_parent hroot, root_of_parent (by rw [hpar, if_neg hj, hroot])]
      · rw [← root_parent, hpar, if_neg hj, ih _ (parent_lt hroot), root_parent]

/-- When a root gets another root as parent, the numbers of its group get this root. -/
theorem root_setParent_of_root (hk : k < f.parents.length) (hroot : f.parent k = k) (hp : f.parent p = p) (hlt : p < k)
    (j : Nat) : (f.setParent k p hlt.le).root j = if f.root j = k then p else f.root j := by
  have hpar := parent_setParent hlt.le hk
  induction j using Nat.strongRecOn with
  | ind j ih =>
    by_cases hj : j = k
    · rw [hj, root_of_parent hroot, if_pos rfl, ← root_parent, hpar, if_pos rfl]
      exact root_of_parent (by rw [hpar, if_neg hlt.ne, hp])
    · by_cases hjroot : f.parent j = j
      · rw [root_of_parent hjroot, if_neg hj, root_of_parent (by rw [hpar, if_neg hj, hjroot])]
      · rw [← root_parent, hpar, if_neg hj, ih _ (parent_lt hjroot), root_parent]

/-! ## Searching -/

/-- The grandparent of a number that is no root is smaller than the number and has the same root. -/
theorem grandparent_lt (h : f.parent k ≠ k) : f.parent (f.parent k) < k :=
  (f.parent_le _).trans_lt (parent_lt h)

/-- **Halving paths changes no root.** -/
theorem root_find (f : Forest) (k j : Nat) : (f.find k).2.root j = f.root j := by
  induction f, k using find.induct with
  | case1 f k h => rw [find, if_pos h]
  | case2 f k h hp ih =>
    rw [find, if_neg h, ih]
    refine root_setParent_of_root_eq (lt_length_of_parent_ne h) (grandparent_lt h) ?_ j
    rw [root_parent, root_parent]

/-- **A search answers the root.** -/
theorem find_fst (f : Forest) (k : Nat) : (f.find k).1 = f.root k := by
  induction f, k using find.induct with
  | case1 f k h => rw [find, if_pos h, root_of_parent h]
  | case2 f k h hp ih =>
    have hsame : f.root (f.parent (f.parent k)) = f.root k := by rw [root_parent, root_parent]
    rw [find, if_neg h, ih, root_setParent_of_root_eq (lt_length_of_parent_ne h) (grandparent_lt h) hsame, hsame]

@[simp] theorem length_find (f : Forest) (k : Nat) : (f.find k).2.parents.length = f.parents.length := by
  induction f, k using find.induct with
  | case1 f k h => rw [find, if_pos h]
  | case2 f k h hp ih => rw [find, if_neg h, ih, length_setParent]

theorem findAll_eq_map (f : Forest) (ks : List Nat) : f.findAll ks = ks.map f.root := by
  induction ks generalizing f with
  | nil => rfl
  | cons k ks ih =>
    have hroot : (f.find k).2.root = f.root := funext (root_find f k)
    simp only [findAll, find_fst, ih, hroot, List.map_cons]

/-! ## Joining -/

@[simp] theorem length_unite (f : Forest) (i j : Nat) : (f.unite i j).parents.length = f.parents.length := by
  unfold unite
  dsimp only
  split <;> simp

/-- **Joining two groups** gives their numbers the smaller of the two roots. -/
theorem root_unite (hi : i < f.parents.length) (hj : j < f.parents.length) (k : Nat) :
    (f.unite i j).root k
      = if f.root k = f.root i ∨ f.root k = f.root j then min (f.root i) (f.root j) else f.root k := by
  have hroot : ∀ k, ((f.find i).2.find j).2.root k = f.root k := fun k => by rw [root_find, root_find]
  have hparent : ∀ k, ((f.find i).2.find j).2.parent (f.root k) = f.root k := fun k => by
    rw [← hroot k]; exact parent_root _ k
  have hle : ∀ {k}, k < f.parents.length → f.root k < ((f.find i).2.find j).2.parents.length := fun hk => by
    rw [length_find, length_find]; exact (f.root_le _).trans_lt hk
  simp only [unite, find_fst, root_find]
  split
  next h => rw [hroot]; split <;> simp_all
  next h =>
    -- the larger one of the two roots gets the smaller one as parent
    rcases Nat.lt_or_gt_of_ne h with hlt | hlt
    · simp only [max_eq_right hlt.le, min_eq_left hlt.le]
      rw [root_setParent_of_root (hle hj) (hparent j) (hparent i) hlt, hroot]
      split <;> split <;> simp_all
    · simp only [max_eq_left hlt.le, min_eq_right hlt.le]
      rw [root_setParent_of_root (hle hi) (hparent i) (hparent j) hlt, hroot]
      split <;> split <;> simp_all

theorem root_unite_self (hi : i < f.parents.length) (hj : j < f.parents.length) :
    (f.unite i j).root i = (f.unite i j).root j := by
  simp [root_unite hi hj]

/-! ## Groups -/

/-- Numbers of one group, those with the same root. -/
def groups (f : Forest) : Setoid Nat := Setoid.ker f.root

theorem groups_iff : f.groups i j ↔ f.root i = f.root j := Iff.rfl

theorem groups_root (f : Forest) (k : Nat) : f.groups k (f.root k) := (f.root_root k).symm

variable {r : Setoid Nat}

/-- An equivalence keeps the numbers of each group together if and only if each number is equivalent to its root. -/
theorem groups_le_iff : f.groups ≤ r ↔ ∀ k, r k (f.root k) := by
  constructor
  · intro h k
    exact h (f.groups_root k)
  · intro h i j hij
    rw [groups_iff] at hij
    exact r.trans' (h i) (hij ▸ r.symm' (h j))

/-- The groups after joining two numbers are the least ones that contain the former groups and the pair. -/
theorem groups_unite_le_iff (hi : i < f.parents.length) (hj : j < f.parents.length) :
    (f.unite i j).groups ≤ r ↔ f.groups ≤ r ∧ r i j := by
  constructor
  · intro h
    refine ⟨fun k l hkl => h ?_, h (root_unite_self hi hj)⟩
    rw [groups_iff, root_unite hi hj, root_unite hi hj, groups_iff.mp hkl]
  · rintro ⟨hf, hij⟩
    rw [groups_le_iff] at hf ⊢
    have hmin : r i (min (f.root i) (f.root j)) := by
      rcases min_choice (f.root i) (f.root j) with h | h <;> rw [h]
      · exact hf i
      · exact r.trans' hij (hf j)
    intro k
    rw [root_unite hi hj]
    split
    next h =>
      refine r.trans' ?_ hmin
      rcases h with h | h
      · exact r.trans' (hf k) (h ▸ r.symm' (hf i))
      · exact r.trans' (hf k) (h ▸ r.trans' (r.symm' (hf j)) (r.symm' hij))
    next => exact hf k

/-- Joining a list of numbers, for the step through the list. -/
theorem groups_foldl_unite_le_iff (ks : List Nat) : ∀ f : Forest, i < f.parents.length →
    (∀ k ∈ ks, k < f.parents.length) →
    (ks.foldl (fun f k => f.unite i k) f).parents.length = f.parents.length
      ∧ ((ks.foldl (fun f k => f.unite i k) f).groups ≤ r ↔ f.groups ≤ r ∧ ∀ k ∈ ks, r i k) := by
  induction ks with
  | nil => intro f _ _; simp
  | cons a ks ih =>
    intro f hi hks
    obtain ⟨hlen, hle⟩ := ih (f.unite i a) (by simpa using hi)
      (fun k hk => by simpa using hks k (List.mem_cons_of_mem _ hk))
    rw [List.foldl_cons, hlen, hle, length_unite, groups_unite_le_iff hi (hks a List.mem_cons_self), List.forall_mem_cons,
      and_assoc]
    exact ⟨rfl, Iff.rfl⟩

theorem length_join {ks : List Nat} (hks : ∀ k ∈ ks, k < f.parents.length) :
    (f.join ks).parents.length = f.parents.length := by
  cases ks with
  | nil => rfl
  | cons a ks =>
    exact (groups_foldl_unite_le_iff ks f (r := ⊤) (hks a List.mem_cons_self) fun k hk =>
      hks k (List.mem_cons_of_mem _ hk)).1

/-- The groups after joining a list are the least ones that contain the former groups and the list. -/
theorem groups_join_le_iff {ks : List Nat} (hks : ∀ k ∈ ks, k < f.parents.length) :
    (f.join ks).groups ≤ r ↔ f.groups ≤ r ∧ ∀ i ∈ ks, ∀ j ∈ ks, r i j := by
  cases ks with
  | nil => simp [join]
  | cons a ks =>
    rw [join, (groups_foldl_unite_le_iff ks f (hks a List.mem_cons_self) fun k hk =>
      hks k (List.mem_cons_of_mem _ hk)).2]
    refine and_congr_right fun _ => ⟨fun h => ?_, fun h k hk => h a List.mem_cons_self k (List.mem_cons_of_mem _ hk)⟩
    have hall : ∀ k ∈ a :: ks, r a k := List.forall_mem_cons.mpr ⟨r.refl' a, h⟩
    exact fun i hi j hj => r.trans' (r.symm' (hall i hi)) (hall j hj)

/-- **After joining lists one after the other,** the groups are the least ones that contain the former groups and all
lists. -/
theorem groups_foldl_join_le_iff (gs : List (List Nat)) : ∀ f : Forest, (∀ g ∈ gs, ∀ k ∈ g, k < f.parents.length) →
    ((gs.foldl join f).groups ≤ r ↔ f.groups ≤ r ∧ ∀ g ∈ gs, ∀ i ∈ g, ∀ j ∈ g, r i j) := by
  induction gs with
  | nil => intro f _; simp
  | cons g gs ih =>
    intro f hgs
    obtain ⟨hg, hgs⟩ := List.forall_mem_cons.mp hgs
    rw [List.foldl_cons, ih (f.join g) (fun g' hg' k hk => by rw [length_join hg]; exact hgs g' hg' k hk),
      groups_join_le_iff hg, List.forall_mem_cons, and_assoc]

/-- Numbers that stand in a common list. -/
def Together (gs : List (List Nat)) (i j : Nat) : Prop := ∃ g ∈ gs, i ∈ g ∧ j ∈ g

/-- Numbers that are connected through common lists. -/
def connected (gs : List (List Nat)) : Setoid Nat where
  r := Relation.ReflTransGen (Together gs)
  iseqv :=
    have : Std.Symm (Together gs) := ⟨fun _ _ ⟨g, hg, hi, hj⟩ => ⟨g, hg, hj, hi⟩⟩
    ⟨fun _ => .refl, Relation.ReflTransGen.stdSymm.symm _ _, .trans⟩

/-- **Two numbers have the same root after joining lists** if and only if they are connected through common lists. -/
theorem root_foldl_join_iff {n : Nat} {gs : List (List Nat)} (hgs : ∀ g ∈ gs, ∀ k ∈ g, k < n) :
    (gs.foldl join (singletons n)).root i = (gs.foldl join (singletons n)).root j
      ↔ Relation.ReflTransGen (Together gs) i j := by
  have hlen : ∀ g ∈ gs, ∀ k ∈ g, k < (singletons n).parents.length := by simpa [singletons] using hgs
  constructor
  · have hsound : (gs.foldl join (singletons n)).groups ≤ connected gs := by
      refine (groups_foldl_join_le_iff gs _ hlen).mpr ⟨?_, fun g hg i hi j hj => .single ⟨g, hg, hi, hj⟩⟩
      rw [groups_le_iff]
      intro k
      rw [root_singletons]
    exact fun h => hsound h
  · -- each pair of a common list has one root, and having one root is transitive
    have hjoined := ((groups_foldl_join_le_iff gs (singletons n) hlen).mp le_rfl).2
    intro h
    induction h with
    | refl => rfl
    | tail _ hstep ih =>
      obtain ⟨g, hg, hi, hj⟩ := hstep
      exact ih.trans (hjoined g hg _ hi _ hj)

end RobustLP.Forest
