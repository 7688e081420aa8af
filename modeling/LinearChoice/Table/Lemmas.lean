import LinearChoice.Table.Basic

/-!
# Looking up in tables

What every operation on a table does to a look-up. Nothing else about a table needs its definition,
except where its order is at stake.
-/

set_option autoImplicit false

namespace LinearChoice.Table

variable {κ ν μ : Type} [DecidableEq κ]

theorem lookup_eq_none_iff (k : κ) (l : List (κ × ν)) :
    lookup k l = none ↔ k ∉ l.map Prod.fst := by
  induction l with
  | nil => simp [lookup]
  | cons e rest ih =>
    by_cases h : e.1 = k
    · simp [lookup, h]
    · have h' : k ≠ e.1 := fun hk => h hk.symm
      simp [lookup, h, h', ih]

theorem mem_of_lookup (k : κ) (v : ν) (l : List (κ × ν)) (h : lookup k l = some v) :
    (k, v) ∈ l := by
  induction l with
  | nil => simp [lookup] at h
  | cons e rest ih =>
    by_cases hk : e.1 = k
    · simp only [lookup, hk, if_true, Option.some.injEq] at h
      subst hk h
      exact List.mem_cons_self
    · simp only [lookup, hk, if_false] at h
      exact List.mem_cons_of_mem e (ih h)

theorem lookup_of_mem (k : κ) (v : ν) (l : List (κ × ν)) (nodup : (l.map Prod.fst).Nodup)
    (h : (k, v) ∈ l) : lookup k l = some v := by
  induction l with
  | nil => simp at h
  | cons e rest ih =>
    rw [List.map_cons, List.nodup_cons] at nodup
    rcases List.mem_cons.mp h with rfl | h
    · simp [lookup]
    · have hk : e.1 ≠ k := fun hk => nodup.1 (hk ▸ List.mem_map.mpr ⟨(k, v), h, rfl⟩)
      simp only [lookup, hk, if_false]
      exact ih nodup.2 h

theorem lookup_place (k k' : κ) (v : ν) (l : List (κ × ν)) :
    lookup k' (place k v l) = if k = k' then some v else lookup k' l := by
  induction l with
  | nil => simp [place, lookup]
  | cons e rest ih =>
    by_cases h : e.1 = k
    · by_cases hk : k = k' <;> simp [place, lookup, h, hk]
    · by_cases hk : e.1 = k'
      · have hne : k ≠ k' := fun hkk => h (hk.trans hkk.symm)
        rw [place, if_neg h, lookup, if_pos hk, if_neg hne, lookup, if_pos hk]
      · simp [place, lookup, h, hk, ih]

theorem mem_eraseP_key (k : κ) (e : κ × ν) (l : List (κ × ν)) (nodup : (l.map Prod.fst).Nodup) :
    e ∈ l.eraseP (fun e => e.1 = k) ↔ e ∈ l ∧ e.1 ≠ k := by
  induction l with
  | nil => simp
  | cons head rest ih =>
    rw [List.map_cons, List.nodup_cons] at nodup
    by_cases h : head.1 = k
    · rw [List.eraseP_cons_of_pos (by simp [h])]
      constructor
      · intro he
        have hne : e.1 ≠ k := fun hk =>
          nodup.1 (List.mem_map.mpr ⟨e, he, hk.trans h.symm⟩)
        exact ⟨List.mem_cons_of_mem head he, hne⟩
      · rintro ⟨he, hne⟩
        rcases List.mem_cons.mp he with rfl | he
        · exact absurd h hne
        · exact he
    · rw [List.eraseP_cons_of_neg (by simp [h]), List.mem_cons, List.mem_cons, ih nodup.2]
      constructor
      · rintro (rfl | ⟨he, hne⟩)
        · exact ⟨Or.inl rfl, h⟩
        · exact ⟨Or.inr he, hne⟩
      · rintro ⟨rfl | he, hne⟩
        · exact Or.inl rfl
        · exact Or.inr ⟨he, hne⟩

theorem get?_eq_some_iff (t : Table κ ν) (k : κ) (v : ν) :
    t.get? k = some v ↔ (k, v) ∈ t.entries :=
  ⟨mem_of_lookup k v t.entries, lookup_of_mem k v t.entries t.nodup_keys⟩

theorem get?_eq_none_iff (t : Table κ ν) (k : κ) : t.get? k = none ↔ k ∉ t.keys :=
  lookup_eq_none_iff k t.entries

theorem contains_iff (t : Table κ ν) (k : κ) : t.contains k = true ↔ k ∈ t.keys := by
  cases h : t.get? k with
  | none => simpa [contains, h] using (t.get?_eq_none_iff k).mp h
  | some v =>
    have hk : k ∈ t.keys := List.mem_map.mpr ⟨(k, v), (t.get?_eq_some_iff k v).mp h, rfl⟩
    simp [contains, h, hk]

theorem isEmpty_iff (t : Table κ ν) : t.isEmpty = true ↔ ∀ k, t.contains k = false := by
  simp only [← Bool.not_eq_true, contains_iff, keys, ← List.eq_nil_iff_forall_not_mem,
    List.map_eq_nil_iff]
  exact List.isEmpty_iff

theorem get?_ext {t u : Table κ ν} (k : κ)
    (h : ∀ v, (k, v) ∈ t.entries ↔ (k, v) ∈ u.entries) : t.get? k = u.get? k := by
  apply Option.ext
  intro v
  rw [t.get?_eq_some_iff, u.get?_eq_some_iff]
  exact h v

@[simp] theorem get?_empty (k : κ) : (empty : Table κ ν).get? k = none := rfl

theorem get?_insert (t : Table κ ν) (k k' : κ) (v : ν) :
    (t.insert k v).get? k' = if k = k' then some v else t.get? k' :=
  lookup_place k k' v t.entries

theorem keys_insert (t : Table κ ν) (k : κ) (v : ν) :
    (t.insert k v).keys = if k ∈ t.keys then t.keys else t.keys ++ [k] :=
  keys_place k v t.entries

theorem mem_entries_eraseShift (t : Table κ ν) (k : κ) (e : κ × ν) :
    e ∈ (t.eraseShift k).entries ↔ e ∈ t.entries ∧ e.1 ≠ k :=
  mem_eraseP_key k e t.entries t.nodup_keys

theorem mem_entries_eraseSwap (t : Table κ ν) (k : κ) (e : κ × ν) :
    e ∈ (t.eraseSwap k).entries ↔ e ∈ t.entries ∧ e.1 ≠ k :=
  (swapOut_perm k t.entries).mem_iff.trans (mem_eraseP_key k e t.entries t.nodup_keys)

theorem get?_eraseShift (t : Table κ ν) (k k' : κ) :
    (t.eraseShift k).get? k' = if k = k' then none else t.get? k' := by
  split
  · next h =>
    rw [get?_eq_none_iff]
    intro hk
    obtain ⟨e, he, rfl⟩ := List.mem_map.mp hk
    exact ((t.mem_entries_eraseShift k e).mp he).2 h.symm
  · next h =>
    apply get?_ext
    intro v
    rw [mem_entries_eraseShift]
    exact ⟨fun he => he.1, fun he => ⟨he, fun hk => h hk.symm⟩⟩

/-- The two ways to erase differ in the order they leave, and in nothing that a look-up can tell. -/
theorem get?_eraseSwap (t : Table κ ν) (k k' : κ) :
    (t.eraseSwap k).get? k' = if k = k' then none else t.get? k' := by
  rw [← get?_eraseShift]
  apply get?_ext
  intro v
  rw [mem_entries_eraseSwap, mem_entries_eraseShift]

theorem mem_keys_eraseSwap {t : Table κ ν} {k x : κ} (h : x ∈ (t.eraseSwap k).keys) :
    x ∈ t.keys := by
  obtain ⟨e, he, rfl⟩ := List.mem_map.mp h
  exact List.mem_map_of_mem ((t.mem_entries_eraseSwap k e).mp he).1

theorem mem_keys_insert {t : Table κ ν} {k x : κ} {v : ν} (h : x ∈ (t.insert k v).keys) :
    x = k ∨ x ∈ t.keys := by
  rw [keys_insert] at h
  split at h
  · exact Or.inr h
  · rcases List.mem_append.mp h with old | new
    · exact Or.inr old
    · exact Or.inl (List.mem_singleton.mp new)

omit [DecidableEq κ] in
@[simp] theorem keys_mapValues (t : Table κ ν) (f : κ → ν → μ) : (t.mapValues f).keys = t.keys :=
  keys_map f t.entries

theorem swapOut_place (k : κ) (v : ν) (l : List (κ × ν)) (h : k ∉ l.map Prod.fst) :
    swapOut k (place k v l) = l := by
  induction l with
  | nil => simp [place, swapOut, lastToFront]
  | cons e rest ih =>
    rw [List.map_cons, List.mem_cons, not_or] at h
    have hk : e.1 ≠ k := fun hk => h.1 hk.symm
    simp [place, swapOut, hk, ih h.2]

theorem place_new (k : κ) (v : ν) (l : List (κ × ν)) (h : lookup k l = none) :
    place k v l = l ++ [(k, v)] := by
  induction l with
  | nil => rfl
  | cons e rest ih =>
    by_cases hk : e.1 = k
    · simp [lookup, hk] at h
    · simp only [lookup, hk, if_false] at h
      simp [place, hk, ih h]

theorem entries_insert_new (t : Table κ ν) (k : κ) (v : ν) (h : t.get? k = none) :
    (t.insert k v).entries = t.entries ++ [(k, v)] := place_new k v t.entries h

theorem eraseP_perm_of_lookup (k : κ) (v : ν) (l : List (κ × ν)) (h : lookup k l = some v) :
    l.Perm ((k, v) :: l.eraseP (fun e => e.1 = k)) := by
  induction l with
  | nil => simp [lookup] at h
  | cons e rest ih =>
    by_cases hk : e.1 = k
    · simp only [lookup, hk, if_true, Option.some.injEq] at h
      rw [List.eraseP_cons_of_pos (by simp [hk]), ← hk, ← h]
    · simp only [lookup, hk, if_false] at h
      rw [List.eraseP_cons_of_neg (by simp [hk])]
      exact ((ih h).cons e).trans (List.Perm.swap _ _ _)

theorem entries_perm_eraseSwap (t : Table κ ν) (k : κ) (v : ν) (h : t.get? k = some v) :
    t.entries.Perm ((k, v) :: (t.eraseSwap k).entries) :=
  (eraseP_perm_of_lookup k v t.entries h).trans ((swapOut_perm k t.entries).symm.cons (k, v))

theorem size_insert_new (t : Table κ ν) (k : κ) (v : ν) (h : t.get? k = none) :
    (t.insert k v).size = t.size + 1 := by
  rw [size, entries_insert_new t k v h, List.length_append, List.length_singleton, size]

theorem size_eraseSwap (t : Table κ ν) (k : κ) (h : t.contains k = true) :
    (t.eraseSwap k).size + 1 = t.size := by
  obtain ⟨v, found⟩ := Option.isSome_iff_exists.mp h
  exact (t.entries_perm_eraseSwap k v found).length_eq.symm

/-- Erasing takes back the insertion of a new key, order included. -/
theorem eraseSwap_insert (t : Table κ ν) (k : κ) (v : ν) (h : t.get? k = none) :
    (t.insert k v).eraseSwap k = t := by
  have erased := swapOut_place k v t.entries ((t.get?_eq_none_iff k).mp h)
  cases t
  simpa [insert, eraseSwap] using erased

theorem eraseP_place (k : κ) (v : ν) (l : List (κ × ν)) (h : k ∉ l.map Prod.fst) :
    (place k v l).eraseP (fun e => e.1 = k) = l := by
  induction l with
  | nil => simp [place]
  | cons e rest ih =>
    rw [List.map_cons, List.mem_cons, not_or] at h
    have hk : e.1 ≠ k := fun hk => h.1 hk.symm
    simp [place, hk, ih h.2]

theorem eraseShift_insert (t : Table κ ν) (k : κ) (v : ν) (h : t.get? k = none) :
    (t.insert k v).eraseShift k = t := by
  have erased := eraseP_place k v t.entries ((t.get?_eq_none_iff k).mp h)
  cases t
  simpa [insert, eraseShift] using erased

theorem place_place (k : κ) (v w : ν) (l : List (κ × ν)) (h : lookup k l = some w) :
    place k w (place k v l) = l := by
  induction l with
  | nil => simp [lookup] at h
  | cons e rest ih =>
    by_cases hk : e.1 = k
    · simp only [lookup, hk, if_true, Option.some.injEq] at h
      subst hk h
      simp [place]
    · simp only [lookup, hk, if_false] at h
      simp [place, hk, ih h]

/-- Writing the old value again takes back what was written over it. -/
theorem insert_insert (t : Table κ ν) (k : κ) (v w : ν) (h : t.get? k = some w) :
    (t.insert k v).insert k w = t := by
  have replaced := place_place k v w t.entries h
  cases t
  simpa [insert] using replaced

theorem map_place (f : κ → ν → μ) (k : κ) (v : ν) (l : List (κ × ν)) :
    (place k v l).map (fun e => (e.1, f e.1 e.2)) =
      place k (f k v) (l.map fun e => (e.1, f e.1 e.2)) := by
  induction l with
  | nil => rfl
  | cons e rest ih =>
    by_cases h : e.1 = k
    · simp [place, h]
    · simp [place, h, ih]

theorem mapValues_insert (t : Table κ ν) (f : κ → ν → μ) (k : κ) (v : ν) :
    (t.insert k v).mapValues f = (t.mapValues f).insert k (f k v) := by
  have placed := map_place f k v t.entries
  simpa [mapValues, insert] using placed

theorem flatMap_place {β : Type} (f : κ × ν → List β) (k : κ) (v w : ν) (l : List (κ × ν))
    (h : lookup k l = some w) (same : f (k, v) = f (k, w)) :
    (place k v l).flatMap f = l.flatMap f := by
  induction l with
  | nil => simp [lookup] at h
  | cons e rest ih =>
    by_cases hk : e.1 = k
    · simp only [lookup, hk, if_true, Option.some.injEq] at h
      subst hk h
      simp [place, same]
    · simp only [lookup, hk, if_false] at h
      simp [place, hk, ih h]

theorem get?_mapValues (t : Table κ ν) (f : κ → ν → μ) (k : κ) :
    (t.mapValues f).get? k = (t.get? k).map (f k) := by
  cases h : t.get? k with
  | none =>
    rw [get?_eq_none_iff] at h
    rwa [Option.map_none, get?_eq_none_iff, keys_mapValues]
  | some v =>
    rw [get?_eq_some_iff] at h
    rw [Option.map_some, get?_eq_some_iff]
    exact List.mem_map.mpr ⟨(k, v), h, rfl⟩

theorem get?_foldl_insert (f : κ → ν) (l : List κ) (t : Table κ ν) (k : κ) :
    ((l.map fun k => (k, f k)).foldl (fun t e => t.insert e.1 e.2) t).get? k =
      if k ∈ l then some (f k) else t.get? k := by
  induction l generalizing t with
  | nil => simp
  | cons head rest ih =>
    rw [List.map_cons, List.foldl_cons, ih, get?_insert]
    by_cases later : k ∈ rest
    · simp [later]
    · by_cases here : head = k
      · simp [later, here]
      · have other : k ≠ head := fun h => here h.symm
        simp [later, here, other]

theorem get?_ofList (f : κ → ν) (l : List κ) (k : κ) :
    (ofList (l.map fun k => (k, f k))).get? k = if k ∈ l then some (f k) else none :=
  get?_foldl_insert f l empty k

section Map

variable {f : κ → κ} {g : ν → μ}

omit [DecidableEq κ] in
theorem ext {t u : Table κ ν} (h : t.entries = u.entries) : t = u := by
  cases t
  cases u
  cases h
  rfl

omit [DecidableEq κ] in
theorem lastToFront_map (l : List (κ × ν)) :
    lastToFront (l.map (Prod.map f g)) = (lastToFront l).map (Prod.map f g) := by
  cases l with
  | nil => rfl
  | cons e l =>
    have ne : e :: l ≠ [] := List.cons_ne_nil e l
    have last : ((e :: l).map (Prod.map f g)).getLast (by simp) = Prod.map f g ((e :: l).getLast ne) :=
      List.getLast_map _
    simp only [List.map_cons, lastToFront] at last ⊢
    rw [last, ← List.map_cons, ← List.map_dropLast]

variable (injective : ∀ {k x : κ}, f k = f x → k = x)
include injective

theorem lookup_map (k : κ) (l : List (κ × ν)) :
    lookup (f k) (l.map (Prod.map f g)) = (lookup k l).map g := by
  induction l with
  | nil => rfl
  | cons e l ih =>
    by_cases h : e.1 = k
    · simp [lookup, h]
    · have h' : f e.1 ≠ f k := fun same => h (injective same)
      simp [lookup, h, h', ih]

theorem place_map (k : κ) (v : ν) (l : List (κ × ν)) :
    place (f k) (g v) (l.map (Prod.map f g)) = (place k v l).map (Prod.map f g) := by
  induction l with
  | nil => rfl
  | cons e l ih =>
    by_cases h : e.1 = k
    · simp [place, h]
    · have h' : f e.1 ≠ f k := fun same => h (injective same)
      simp [place, h, h', ih]

theorem swapOut_map (k : κ) (l : List (κ × ν)) :
    swapOut (f k) (l.map (Prod.map f g)) = (swapOut k l).map (Prod.map f g) := by
  induction l with
  | nil => rfl
  | cons e l ih =>
    by_cases h : e.1 = k
    · simp [swapOut, h, lastToFront_map]
    · have h' : f e.1 ≠ f k := fun same => h (injective same)
      simp [swapOut, h, h', ih]

end Map

theorem mapValues_eraseSwap (t : Table κ ν) (g : ν → μ) (k : κ) :
    (t.eraseSwap k).mapValues (fun _ => g) = (t.mapValues fun _ => g).eraseSwap k :=
  (ext (swapOut_map (f := id) id k t.entries)).symm

end LinearChoice.Table
