import LinearChoice.Proofs.Backend.Determined
import LinearChoice.Table.Lemmas

/-!
# Shelves

The simplest backend that keeps the contract. A shelf has room for so many
constraints, whatever they say, and shows every variable at zero; its last word
is whether the required constraints on it hold there.
-/

set_option autoImplicit false

namespace LinearChoice

structure Shelf (room : Nat) where
  next : Nat
  entries : Table ConstraintId (Constraint Float)
  issued : ∀ id ∈ entries.keys, id.index < next

namespace Shelf

variable {room : Nat}

def empty (room : Nat) : Shelf room := ⟨0, Table.empty, nofun⟩

theorem new (b : Shelf room) : b.entries.get? ⟨b.next⟩ = none := by
  rw [Table.get?_eq_none_iff]
  exact fun h => Nat.lt_irrefl _ (b.issued _ h)

def put (b : Shelf room) (c : Constraint Float) : Shelf room where
  next := b.next + 1
  entries := b.entries.insert ⟨b.next⟩ c
  issued := by
    intro id hid
    rw [Table.keys_insert, if_neg ((Table.get?_eq_none_iff _ _).mp b.new)] at hid
    rcases List.mem_append.mp hid with h | h
    · exact Nat.lt_succ_of_lt (b.issued id h)
    · rw [List.mem_singleton.mp h]
      exact Nat.lt_succ_self _

def take (b : Shelf room) (id : ConstraintId) : Shelf room where
  next := b.next
  entries := b.entries.eraseSwap id
  issued := by
    intro x hx
    obtain ⟨e, he, rfl⟩ := List.mem_map.mp hx
    exact b.issued _ (List.mem_map_of_mem ((Table.mem_entries_eraseSwap _ _ _).mp he).1)

def atRest (c : Constraint Float) : Bool := !c.isRequired || c.holds (fun _ => 0) 0

instance : Backend (Shelf room) where
  newVariable b := (⟨0⟩, b)
  addConstraint b c :=
    if b.entries.size < room then (.ok ⟨b.next⟩, b.put c) else (.error .unsatisfiable, b)
  removeConstraint b id :=
    if b.entries.contains id then (.ok (), b.take id) else (.error .unknownConstraint, b)
  updateVariables b :=
    (if b.entries.entries.all fun e => atRest e.2 then .ok () else .error .unsatisfiable, b)
  value _ _ := 0
  constraintCount b := b.entries.size

def contract (room : Nat) : Contract (Shelf room) where
  held b := b.entries.entries
  nodup b := b.entries.nodup_keys
  newVariable _ := rfl
  add_ok b c id b' run := by
    simp only [Backend.addConstraint] at run
    split at run
    · cases run
      change ((b.entries.insert ⟨b.next⟩ c).entries : Multiset Entry) = _
      rw [Table.entries_insert_new _ _ _ b.new, ← Multiset.coe_add, Multiset.coe_singleton,
        add_comm, Multiset.singleton_add]
    · cases run
  add_error b c e b' run := by
    simp only [Backend.addConstraint] at run
    split at run
    · cases run
    · cases run
      rfl
  remove_ok b id b' run := by
    simp only [Backend.removeConstraint] at run
    split at run
    · next found =>
      cases run
      obtain ⟨c, hc⟩ := Option.isSome_iff_exists.mp found
      exact ⟨c, Multiset.coe_eq_coe.mpr (b.entries.entries_perm_eraseSwap id c hc)⟩
    · cases run
  remove_error b id e b' run := by
    simp only [Backend.removeConstraint] at run
    split at run
    · cases run
    · cases run
      rfl
  update _ := rfl

def issuing (room : Nat) : Issuing (Shelf room) where
  toContract := contract room
  used b := { id | id.index < b.next }
  add_new b c id b' run := by
    simp only [Backend.addConstraint] at run
    split at run
    · cases run
      exact ⟨Nat.lt_irrefl _, Nat.lt_succ_self _⟩
    · cases run
  newVariable_used _ := fun _ h => h
  add_used b c := by
    simp only [Backend.addConstraint]
    split
    · exact fun _ h => Nat.lt_succ_of_lt h
    · exact fun _ h => h
  remove_used b id := by
    simp only [Backend.removeConstraint]
    split <;> exact fun _ h => h
  update_used _ := fun _ h => h

theorem card_constraints (b : Shelf room) :
    ((contract room).constraints b).card = b.entries.size := by
  simp [contract, Contract.constraints, Table.size]

def deciding (room : Nat) : Deciding (Shelf room) where
  toContract := contract room
  feasible M := M.card ≤ room
  final M := ∀ c ∈ M, atRest c = true
  feasible_mono _ _ le fits := (Multiset.card_le_card le).trans fits
  add_taken b c fits := by
    rw [Multiset.card_cons, card_constraints] at fits
    exact ⟨⟨b.next⟩, by simp only [Backend.addConstraint, if_pos (Nat.lt_of_succ_le fits)]⟩
  add_refused b c full := by
    rw [Multiset.card_cons, card_constraints] at full
    simp only [Backend.addConstraint]
    rw [if_neg fun h => full (Nat.succ_le_of_lt h)]
  update_taken b rest := by
    have all : b.entries.entries.all (fun e => atRest e.2) = true := by
      rw [List.all_eq_true]
      exact fun e he => rest e.2 (Multiset.mem_map_of_mem Prod.snd he)
    simp only [Backend.updateVariables, if_pos all]
  update_refused b unrest := by
    have all : ¬b.entries.entries.all (fun e => atRest e.2) = true := by
      rw [List.all_eq_true]
      intro all
      apply unrest
      intro c hc
      obtain ⟨e, he, rfl⟩ := Multiset.mem_map.mp hc
      exact all e he
    simp only [Backend.updateVariables, if_neg all]
  remove_held b e he := by
    have found : b.entries.contains e.1 = true := by
      rw [Table.contains_iff]
      exact List.mem_map_of_mem he
    simp only [Backend.removeConstraint, if_pos found]

def determined (room : Nat) : Determined (Shelf room) where
  toReliable := (deciding room).reliable
  verdict M _ := if M.card < room then .ok () else .error .unsatisfiable
  last M := if ∀ c ∈ M, atRest c = true then .ok () else .error .unsatisfiable
  reading _ _ := 0
  add_verdict b c := by
    have size : ((deciding room).constraints b).card = b.entries.size := card_constraints b
    change _ = if ((deciding room).constraints b).card < room then _ else _
    rw [size]
    simp only [Backend.addConstraint]
    split <;> rfl
  update_last b := by
    by_cases rest : (deciding room).final ((deciding room).constraints b)
    · exact ((deciding room).update_taken b rest).trans (if_pos rest).symm
    · exact ((deciding room).update_refused b rest).trans (if_neg rest).symm
  value_reading _ _ _ := rfl

end Shelf

end LinearChoice
