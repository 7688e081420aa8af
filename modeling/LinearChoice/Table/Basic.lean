/-!
# Tables

Finite maps that remember an order. A new key goes to the end and a key that is written again stays
where it is. There are two ways to erase: one keeps the order of the rest, the other moves the last
entry into the hole. Which entry comes first decides ties elsewhere, so the order is part of a
table's value.
-/

set_option autoImplicit false

namespace LinearChoice

structure Table (κ ν : Type) where
  entries : List (κ × ν)
  nodup_keys : (entries.map Prod.fst).Nodup

namespace Table

variable {κ ν μ : Type} [DecidableEq κ]

def lookup (k : κ) : List (κ × ν) → Option ν
  | [] => none
  | e :: rest => if e.1 = k then some e.2 else lookup k rest

def place (k : κ) (v : ν) : List (κ × ν) → List (κ × ν)
  | [] => [(k, v)]
  | e :: rest => if e.1 = k then (k, v) :: rest else e :: place k v rest

def lastToFront : List (κ × ν) → List (κ × ν)
  | [] => []
  | e :: rest => (e :: rest).getLast (List.cons_ne_nil e rest) :: (e :: rest).dropLast

def swapOut (k : κ) : List (κ × ν) → List (κ × ν)
  | [] => []
  | e :: rest => if e.1 = k then lastToFront rest else e :: swapOut k rest

theorem keys_place (k : κ) (v : ν) (l : List (κ × ν)) :
    (place k v l).map Prod.fst =
      if k ∈ l.map Prod.fst then l.map Prod.fst else l.map Prod.fst ++ [k] := by
  induction l with
  | nil => simp [place]
  | cons e rest ih =>
    by_cases h : e.1 = k
    · simp [place, h]
    · have h' : k ≠ e.1 := fun hk => h hk.symm
      simp only [place, h, if_false, List.map_cons, ih, List.mem_cons, h', false_or]
      split <;> simp

omit [DecidableEq κ] in
theorem lastToFront_perm (l : List (κ × ν)) : (lastToFront l).Perm l := by
  cases l with
  | nil => exact List.Perm.refl _
  | cons e rest =>
    have split := List.dropLast_concat_getLast (List.cons_ne_nil e rest)
    have moved : ((e :: rest).getLast (List.cons_ne_nil e rest) :: (e :: rest).dropLast).Perm
        ((e :: rest).dropLast ++ [(e :: rest).getLast (List.cons_ne_nil e rest)]) :=
      @List.perm_append_comm _ [_] _
    rw [split] at moved
    exact moved

theorem swapOut_perm (k : κ) (l : List (κ × ν)) :
    (swapOut k l).Perm (l.eraseP (fun e => e.1 = k)) := by
  induction l with
  | nil => exact List.Perm.refl _
  | cons e rest ih =>
    by_cases h : e.1 = k
    · simp only [swapOut, h, if_true, decide_true, List.eraseP_cons_of_pos]
      exact lastToFront_perm rest
    · simp only [swapOut, h, if_false, decide_false, Bool.false_eq_true, not_false_eq_true,
        List.eraseP_cons_of_neg]
      exact ih.cons e

theorem nodup_place (k : κ) (v : ν) (l : List (κ × ν)) (h : (l.map Prod.fst).Nodup) :
    ((place k v l).map Prod.fst).Nodup := by
  rw [keys_place]
  split
  · exact h
  · next hk =>
    rw [List.nodup_append]
    refine ⟨h, by simp, ?_⟩
    intro a ha b hb hab
    rw [List.mem_singleton] at hb
    exact hk (hb ▸ hab ▸ ha)

theorem nodup_swapOut (k : κ) (l : List (κ × ν)) (h : (l.map Prod.fst).Nodup) :
    ((swapOut k l).map Prod.fst).Nodup := by
  rw [((swapOut_perm k l).map Prod.fst).nodup_iff]
  exact (List.eraseP_sublist.map Prod.fst).nodup h

def empty : Table κ ν := ⟨[], List.nodup_nil⟩

instance : Inhabited (Table κ ν) := ⟨empty⟩

def get? (t : Table κ ν) (k : κ) : Option ν := lookup k t.entries

def contains (t : Table κ ν) (k : κ) : Bool := (t.get? k).isSome

def size (t : Table κ ν) : Nat := t.entries.length

def isEmpty (t : Table κ ν) : Bool := t.entries.isEmpty

def keys (t : Table κ ν) : List κ := t.entries.map Prod.fst

def insert (t : Table κ ν) (k : κ) (v : ν) : Table κ ν :=
  ⟨place k v t.entries, nodup_place k v t.entries t.nodup_keys⟩

def eraseShift (t : Table κ ν) (k : κ) : Table κ ν :=
  ⟨t.entries.eraseP (fun e => e.1 = k), (List.eraseP_sublist.map Prod.fst).nodup t.nodup_keys⟩

def eraseSwap (t : Table κ ν) (k : κ) : Table κ ν :=
  ⟨swapOut k t.entries, nodup_swapOut k t.entries t.nodup_keys⟩

omit [DecidableEq κ] in
theorem keys_map (f : κ → ν → μ) (l : List (κ × ν)) :
    (l.map fun e => (e.1, f e.1 e.2)).map Prod.fst = l.map Prod.fst := by
  simp [List.map_map, Function.comp_def]

def mapValues (t : Table κ ν) (f : κ → ν → μ) : Table κ μ :=
  ⟨t.entries.map fun e => (e.1, f e.1 e.2), (keys_map f t.entries).symm ▸ t.nodup_keys⟩

def ofList (l : List (κ × ν)) : Table κ ν := l.foldl (fun t e => t.insert e.1 e.2) empty

end Table

end LinearChoice
