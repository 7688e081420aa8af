import Mathlib.Algebra.BigOperators.Group.List.Basic
import Mathlib.Algebra.Order.BigOperators.Group.List
import Mathlib.Algebra.Order.Group.Multiset
import Mathlib.Data.Multiset.OrderedMonoid
import LinearChoice.ChoiceSystem

/-!
# Choices

A choice takes one alternative from each disjunction. A search lists its
choices in the order of the decisions, a solution in the order of registration;
the constraints that they take are the same.
-/

set_option autoImplicit false

namespace LinearChoice

variable {α : Type}

inductive Picks : List (DisjunctionId × Disjunction α) → List Nat → Multiset (Constraint α) → Prop
  | nil : Picks [] [] 0
  | cons {d : DisjunctionId × Disjunction α} {j : Nat} {alternative : Alternative α}
      {ds : List (DisjunctionId × Disjunction α)} {js : List Nat} {A : Multiset (Constraint α)}
      (found : d.2.alternatives[j]? = some alternative) (rest : Picks ds js A) :
      Picks (d :: ds) (j :: js) (alternative + A)

def Disjunction.taken (d : Disjunction α) (j : Nat) : Multiset (Constraint α) :=
  ((d.alternative? j).getD [] : Alternative α)

def Commit.choice (c : Commit) : DisjunctionId × Nat := (c.disjunction, c.alternative)

namespace Disjunctions

theorem decisions_perm (ds : Disjunctions α) (order : DecisionOrder) :
    (ds.decisions order).Perm ds.entries := by
  cases order with
  | registration => exact List.Perm.refl _
  | fewestAlternatives => exact List.mergeSort_perm _ _

theorem getElem?_entries (ds : Disjunctions α) (i : Nat) :
    ds.entries[i]? = (ds.registered[i]?).map fun d => (⟨i⟩, d) := by
  rw [entries, List.getElem?_map, List.getElem?_zipIdx, Option.map_map, Nat.zero_add]
  rfl

theorem mem_entries (ds : Disjunctions α) (d : DisjunctionId × Disjunction α) :
    d ∈ ds.entries ↔ ds.get? d.1 = some d.2 := by
  rw [List.mem_iff_getElem?, get?]
  constructor
  · rintro ⟨i, found⟩
    rw [getElem?_entries] at found
    obtain ⟨d', own, rfl⟩ := Option.map_eq_some_iff.mp found
    exact own
  · intro own
    exact ⟨d.1.index, by rw [getElem?_entries, own]; rfl⟩

theorem mem_decisions (ds : Disjunctions α) (order : DecisionOrder)
    (d : DisjunctionId × Disjunction α) : d ∈ ds.decisions order ↔ ds.get? d.1 = some d.2 :=
  (ds.decisions_perm order).mem_iff.trans (ds.mem_entries d)

theorem entries_index (ds : Disjunctions α) :
    ds.entries.map (fun d => d.1.index) = List.range ds.size := by
  apply List.ext_getElem?
  intro i
  rw [List.getElem?_map, getElem?_entries, Option.map_map]
  by_cases inside : i < ds.registered.length
  · simp [size, inside]
  · simp [size, inside]

/-- A stable order by the number of alternatives: among equals the order of registration. -/
theorem pairwise_fewest (ds : Disjunctions α) :
    (ds.decisions .fewestAlternatives).Pairwise fun a b =>
      a.2.size < b.2.size ∨ (a.2.size = b.2.size ∧ a.1.index < b.1.index) := by
  let le (a b : DisjunctionId × Disjunction α) : Bool := a.2.size ≤ b.2.size
  have trans (a b c) : le a b → le b c → le a c := by
    simp only [le, decide_eq_true_eq]
    exact Nat.le_trans
  have total (a b) : le a b || le b a := by
    simp only [le, Bool.or_eq_true, decide_eq_true_eq]
    exact Nat.le_total _ _
  -- Every entry carries its own position, so the positions that break ties are the indices.
  have position {e : (DisjunctionId × Disjunction α) × Nat}
      (he : e ∈ ds.entries.zipIdx.mergeSort (List.zipIdxLE le)) : e.1.1.index = e.2 := by
    have found := List.mem_zipIdx_iff_getElem?.mp (List.mem_mergeSort.mp he)
    rw [getElem?_entries] at found
    obtain ⟨d, -, same⟩ := Option.map_eq_some_iff.mp found
    rw [← same]
  have distinct : (ds.entries.zipIdx.mergeSort (List.zipIdxLE le)).Pairwise
      fun a b => a.2 ≠ b.2 := by
    have perm := (List.mergeSort_perm ds.entries.zipIdx (List.zipIdxLE le)).map Prod.snd
    rw [List.zipIdx_map_snd] at perm
    exact List.pairwise_map.mp (perm.nodup_iff.mpr List.nodup_range')
  have sorted := List.pairwise_mergeSort (List.zipIdxLE_trans trans) (List.zipIdxLE_total total)
    ds.entries.zipIdx
  have ordered := (sorted.and distinct).imp_of_mem (S := fun a b => a.1.2.size < b.1.2.size ∨
      (a.1.2.size = b.1.2.size ∧ a.1.1.index < b.1.1.index)) fun {a b} ha hb h => by
    obtain ⟨before, apart⟩ := h
    rw [position ha, position hb]
    simp only [List.zipIdxLE, le] at before
    split at before
    · next fits =>
      split at before
      · next back =>
        simp only [decide_eq_true_eq] at fits back before
        exact Or.inr ⟨Nat.le_antisymm fits back, Nat.lt_of_le_of_ne before apart⟩
      · next larger =>
        simp only [decide_eq_true_eq, Nat.not_le] at larger
        exact Or.inl larger
    · contradiction
  have stable : (ds.entries.zipIdx.mergeSort (List.zipIdxLE le)).map Prod.fst =
      ds.decisions .fewestAlternatives := List.mergeSort_zipIdx
  rw [← stable]
  exact List.pairwise_map.mpr ordered

end Disjunctions

namespace ChoiceSystem

variable {σ : Type} (s : ChoiceSystem σ α)

def chosen (choices : List Nat) : Multiset (Constraint α) :=
  (List.zipWith Disjunction.taken s.disjunctions.registered choices).sum

structure Selects (choices : List Nat) : Prop where
  count : choices.length = s.disjunctions.size
  inRange : ∀ (i : Nat) (d : Disjunction α) (j : Nat), s.disjunctions.registered[i]? = some d →
    choices[i]? = some j → j < d.size

def inOrder (choices : List Nat) : List Nat :=
  (s.disjunctions.decisions s.config.order).map fun d => choices.getD d.1.index 0

theorem picks_map (f : Nat → Nat) (ds : List (DisjunctionId × Disjunction α))
    (A : Multiset (Constraint α)) :
    Picks ds (ds.map fun d => f d.1.index) A ↔
      (∀ d ∈ ds, f d.1.index < Disjunction.size d.2) ∧
      A = (ds.map fun d => d.2.taken (f d.1.index)).sum := by
  induction ds generalizing A with
  | nil =>
    constructor
    · rintro ⟨⟩
      exact ⟨nofun, rfl⟩
    · rintro ⟨-, rfl⟩
      exact .nil
  | cons d ds ih =>
    rw [List.forall_mem_cons, List.map_cons, List.map_cons, List.sum_cons]
    constructor
    · rintro (_ | ⟨found, rest⟩)
      obtain ⟨inside, rfl⟩ := (ih _).mp rest
      have found' : d.2.alternative? (f d.1.index) = _ := found
      rw [Disjunction.taken, found', Option.getD_some]
      exact ⟨⟨(List.getElem?_eq_some_iff.mp found).1, inside⟩, rfl⟩
    · rintro ⟨⟨inside, others⟩, rfl⟩
      obtain ⟨alternative, found⟩ : ∃ a, d.2.alternatives[f d.1.index]? = some a :=
        ⟨_, List.getElem?_eq_getElem inside⟩
      have found' : d.2.alternative? (f d.1.index) = some alternative := found
      rw [Disjunction.taken, found', Option.getD_some]
      exact .cons found ((ih _).mpr ⟨others, rfl⟩)

theorem chosen_eq {choices : List Nat} (count : choices.length = s.disjunctions.size) :
    s.chosen choices =
      (s.disjunctions.entries.map fun d => d.2.taken (choices.getD d.1.index 0)).sum := by
  unfold chosen
  congr 1
  apply List.ext_getElem
  · simp [Disjunctions.entries, count, Disjunctions.size]
  · intro i hi hj
    have inside : i < choices.length := by simp at hi; omega
    simp [Disjunctions.entries, inside]

theorem mem_chosen {choices : List Nat} {i j : Nat} {d : Disjunction α}
    {alternative : Alternative α}
    (registered : s.disjunctions.registered[i]? = some d) (picked : choices[i]? = some j)
    (found : d.alternative? j = some alternative) {c : Constraint α} (hc : c ∈ alternative) :
    c ∈ s.chosen choices := by
  have taken : d.taken j = alternative := by rw [Disjunction.taken, found, Option.getD_some]
  have listed : d.taken j ∈ List.zipWith Disjunction.taken s.disjunctions.registered choices := by
    apply List.mem_of_getElem? (i := i)
    simp [List.getElem?_zipWith, registered, picked]
  refine Multiset.mem_of_le (List.le_sum_of_mem listed) ?_
  rw [taken]
  exact hc

theorem selects_iff {choices : List Nat} (count : choices.length = s.disjunctions.size) :
    s.Selects choices ↔
      ∀ d ∈ s.disjunctions.entries, choices.getD d.1.index 0 < Disjunction.size d.2 := by
  constructor
  · rintro ⟨-, inRange⟩ d hd
    have found := (s.disjunctions.mem_entries d).mp hd
    have inside : d.1.index < choices.length :=
      count ▸ (List.getElem?_eq_some_iff.mp found).1
    exact inRange d.1.index d.2 _ found (by simp [inside])
  · refine fun inRange => ⟨count, fun i d j found picked => ?_⟩
    have inside := inRange (⟨i⟩, d) ((s.disjunctions.mem_entries _).mpr found)
    rwa [List.getD_eq_getElem?_getD, picked] at inside

/-- In the order of the decisions a choice takes the same constraints. -/
theorem picks_inOrder {choices : List Nat} (count : choices.length = s.disjunctions.size)
    (A : Multiset (Constraint α)) :
    Picks (s.disjunctions.decisions s.config.order) (s.inOrder choices) A ↔
      s.Selects choices ∧ A = s.chosen choices := by
  have perm := s.disjunctions.decisions_perm s.config.order
  have total := (perm.map fun d => d.2.taken (choices.getD d.1.index 0)).sum_eq
  rw [← s.chosen_eq count] at total
  have picks := picks_map (fun i => choices.getD i 0) (s.disjunctions.decisions s.config.order) A
  rw [total] at picks
  rw [inOrder, picks, s.selects_iff count]
  simp only [perm.mem_iff]

/-- The choices of a search depend on what was chosen, not on the numbers of the constraints. -/
theorem choices_eq (count : Nat) (commits : List Commit) :
    choices count commits = (List.range count).map fun i =>
      (((commits.map Commit.choice).find? fun c => c.1.index = i).map Prod.snd).getD 0 := by
  refine List.map_congr_left fun i _ => ?_
  have picked : ((commits.map Commit.choice).find? fun c => c.1.index = i) =
      (commits.find? fun c => c.disjunction.index = i).map Commit.choice := List.find?_map
  rw [picked]
  cases commits.find? fun c => c.disjunction.index = i <;> rfl

theorem length_choices (count : Nat) (commits : List Commit) :
    (choices count commits).length = count := by simp [choices]

theorem getD_choices {commits : List Commit} {count : Nat}
    (nodup : (commits.map fun c => c.disjunction.index).Nodup) {c : Commit} (hc : c ∈ commits)
    (inside : c.disjunction.index < count) :
    (choices count commits).getD c.disjunction.index 0 = c.alternative := by
  have found : (commits.find? fun c' => c'.disjunction.index = c.disjunction.index) = some c := by
    cases search : commits.find? fun c' => c'.disjunction.index = c.disjunction.index with
    | none => simpa using List.find?_eq_none.mp search c hc
    | some c' =>
      have same := List.find?_some search
      rw [decide_eq_true_eq] at same
      rw [List.inj_on_of_nodup_map nodup (List.mem_of_find?_eq_some search) hc same]
  simp [choices, inside, found]

/-- Read back in the order of the decisions, the choices are those that were committed. -/
theorem inOrder_choices {commits : List Commit}
    (decided : commits.map Commit.disjunction =
      (s.disjunctions.decisions s.config.order).map Prod.fst) :
    s.inOrder (choices s.disjunctions.size commits) = commits.map Commit.alternative := by
  have indices : commits.map (fun c => c.disjunction.index) =
      (s.disjunctions.decisions s.config.order).map fun d => d.1.index := by
    simpa [Function.comp_def] using congrArg (List.map DisjunctionId.index) decided
  have perm := (s.disjunctions.decisions_perm s.config.order).map fun d => d.1.index
  rw [← indices, Disjunctions.entries_index] at perm
  have nodup := perm.nodup_iff.mpr List.nodup_range
  have read : s.inOrder (choices s.disjunctions.size commits) =
      commits.map fun c => (choices s.disjunctions.size commits).getD c.disjunction.index 0 := by
    simpa [inOrder, Function.comp_def] using (congrArg
      (List.map fun i => (choices s.disjunctions.size commits).getD i 0) indices).symm
  rw [read]
  apply List.map_congr_left
  intro c hc
  apply getD_choices nodup hc
  exact List.mem_range.mp (perm.mem_iff.mp (List.mem_map_of_mem hc))

/-- A choice can be told from the order of the decisions. -/
theorem inOrder_injective {choices choices' : List Nat}
    (count : choices.length = s.disjunctions.size) (count' : choices'.length = s.disjunctions.size)
    (same : s.inOrder choices = s.inOrder choices') : choices = choices' := by
  apply List.ext_getElem (count.trans count'.symm)
  intro i inside inside'
  have registered : i < s.disjunctions.registered.length := inside.trans_eq count
  have decided : (⟨i⟩, s.disjunctions.registered[i]) ∈ s.disjunctions.decisions s.config.order :=
    (s.disjunctions.mem_decisions _ _).mpr (List.getElem?_eq_getElem registered)
  have same := List.map_inj_left.mp same _ decided
  simpa [inside, inside'] using same

end ChoiceSystem

end LinearChoice
