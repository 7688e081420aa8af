import Mathlib.Data.Nat.Init
import LinearChoice.Proofs.Simplex.SymbolOrder
import LinearChoice.Proofs.Simplex.Symbols

/-!
# Renamings

A renaming keeps the kind of every symbol and the order among them. So tables
keep their order under it, and every operation on rows and tableaux goes along
with it.
-/

set_option autoImplicit false

namespace LinearChoice

theorem foldl_along {β β' γ γ' : Type} {f : γ → γ'} {h : β → β'} {g : γ → β → γ}
    {g' : γ' → β' → γ'} (step : ∀ acc e, g' (f acc) (h e) = f (g acc e)) (l : List β) (acc : γ) :
    (l.map h).foldl g' (f acc) = f (l.foldl g acc) := by
  rw [List.foldl_map]
  exact List.foldl_hom f step

structure Renaming where
  map : Symbol → Symbol
  rank : ∀ s, (map s).rank = s.rank
  external : ∀ v, map (.external v) = .external v
  lt_iff : ∀ s x, map s < map x ↔ s < x

namespace Renaming

variable (ρ : Renaming) (s x : Symbol)

theorem injective {s x : Symbol} (h : ρ.map s = ρ.map x) : s = x := by
  apply Symbol.eq_of_not_lt
  all_goals
    rw [← ρ.lt_iff, h]
    rintro (lt | ⟨-, lt⟩) <;> exact Nat.lt_irrefl _ lt

@[simp] theorem map_eq_map : ρ.map s = ρ.map x ↔ s = x := ⟨ρ.injective, congrArg ρ.map⟩

@[simp] theorem isExternal : (ρ.map s).isExternal = s.isExternal := by
  have kind := ρ.rank s
  cases s <;> cases same : ρ.map _ <;> simp_all [Symbol.rank, Symbol.isExternal]

@[simp] theorem isError : (ρ.map s).isError = s.isError := by
  have kind := ρ.rank s
  cases s <;> cases same : ρ.map _ <;> simp_all [Symbol.rank, Symbol.isError]

@[simp] theorem isDummy : (ρ.map s).isDummy = s.isDummy := by
  have kind := ρ.rank s
  cases s <;> cases same : ρ.map _ <;> simp_all [Symbol.rank, Symbol.isDummy]

@[simp] theorem isPivotable : (ρ.map s).isPivotable = s.isPivotable := by
  have kind := ρ.rank s
  cases s <;> cases same : ρ.map _ <;> simp_all [Symbol.rank, Symbol.isPivotable]

theorem least (l : List Symbol) :
    Symbol.least (l.map ρ.map) = (Symbol.least l).map ρ.map := by
  refine foldl_along (f := Option.map ρ.map) (fun best s => ?_) l none
  cases best with
  | none => rfl
  | some b =>
    simp only [Option.map_some, ρ.lt_iff]
    split <;> rfl

end Renaming

section Rename

variable {ν μ : Type} (ρ : Renaming)

def Table.rename (g : ν → μ) (t : Table Symbol ν) : Table Symbol μ where
  entries := t.entries.map (Prod.map ρ.map g)
  nodup_keys := by
    have keys : (t.entries.map (Prod.map ρ.map g)).map Prod.fst = t.keys.map ρ.map := by
      simp [Table.keys, Function.comp_def]
    rw [keys]
    exact List.Pairwise.map ρ.map (fun a b ne same => ne (ρ.injective same)) t.nodup_keys

namespace Table

variable (g : ν → μ) (t : Table Symbol ν) (s : Symbol) (v : ν)

@[simp] theorem get?_rename : (t.rename ρ g).get? (ρ.map s) = (t.get? s).map g :=
  lookup_map ρ.injective s t.entries

theorem insert_rename : (t.rename ρ g).insert (ρ.map s) (g v) = (t.insert s v).rename ρ g :=
  Table.ext (place_map ρ.injective s v t.entries)

theorem eraseSwap_rename : (t.rename ρ g).eraseSwap (ρ.map s) = (t.eraseSwap s).rename ρ g :=
  Table.ext (swapOut_map ρ.injective s t.entries)

theorem rename_eq_self {g : ν → ν} {t : Table Symbol ν}
    (fixed : ∀ e ∈ t.entries, ρ.map e.1 = e.1 ∧ g e.2 = e.2) : t.rename ρ g = t := by
  apply Table.ext
  have same : ∀ e ∈ t.entries, Prod.map ρ.map g e = id e :=
    fun e he => Prod.ext (fixed e he).1 (fixed e he).2
  exact (List.map_congr_left same).trans (List.map_id _)

@[simp] theorem keys_rename : (t.rename ρ g).keys = t.keys.map ρ.map := by
  simp [Table.keys, Table.rename, Function.comp_def]

end Table

namespace Row

variable {α : Type}

def rename (r : Row α) : Row α := ⟨r.constant, r.cells.rename ρ id⟩

@[simp] theorem constant_rename (r : Row α) : (r.rename ρ).constant = r.constant := rfl

@[simp] theorem keys_rename (r : Row α) : (r.rename ρ).cells.keys = r.cells.keys.map ρ.map :=
  Table.keys_rename ρ id r.cells

theorem erase_rename (r : Row α) (s : Symbol) :
    (r.rename ρ).erase (ρ.map s) = (r.erase s).rename ρ := by
  simp only [erase, rename, Table.eraseSwap_rename]

variable [Scalar α] (r other : Row α) (s : Symbol)

@[simp] theorem coefficient_rename : (r.rename ρ).coefficient (ρ.map s) = r.coefficient s := by
  simp [coefficient, rename]

theorem scaled_rename (x k : α) :
    (⟨x, (r.rename ρ).cells.mapValues fun _ c => c * k⟩ : Row α) =
      (⟨x, r.cells.mapValues fun _ c => c * k⟩ : Row α).rename ρ := by
  simp only [rename, mk.injEq, true_and]
  apply Table.ext
  simp [Table.mapValues, Table.rename, Function.comp_def]

theorem addCell_rename (c : α) :
    (r.rename ρ).addCell (ρ.map s) c = (r.addCell s c).rename ρ := by
  unfold addCell
  rw [coefficient_rename]
  dsimp only
  split
  · simp only [rename, Table.eraseSwap_rename]
  · exact congrArg (Row.mk r.constant) (Table.insert_rename ρ id r.cells s _)

theorem addCells_rename (cells : List (Symbol × α)) :
    (r.rename ρ).addCells (cells.map (Prod.map ρ.map id)) = (r.addCells cells).rename ρ := by
  induction cells generalizing r with
  | nil => rfl
  | cons e cells ih =>
    simp only [addCells, List.map_cons, List.foldl_cons, Prod.map_fst, Prod.map_snd,
      addCell_rename, id_eq]
    exact ih (r.addCell e.1 e.2)

theorem addScaled_rename (k : α) :
    (r.rename ρ).addScaled (other.rename ρ) k = (r.addScaled other k).rename ρ := by
  have cells : (other.rename ρ).cells.entries.map (fun e => (e.1, e.2 * k)) =
      (other.cells.entries.map fun e => (e.1, e.2 * k)).map (Prod.map ρ.map id) := by
    simp [rename, Table.rename, Function.comp_def]
  rw [addScaled, cells]
  exact addCells_rename ρ (r.shift _) _

theorem oriented_rename : (r.rename ρ).oriented = r.oriented.rename ρ := by
  unfold oriented negate
  rw [constant_rename]
  split
  · simp only [rename, mk.injEq, true_and]
    apply Table.ext
    simp [Table.mapValues, Table.rename, Function.comp_def]
  · rfl

theorem substitute_rename :
    (r.rename ρ).substitute (ρ.map s) (other.rename ρ) = (r.substitute s other).rename ρ := by
  have found : (r.rename ρ).cells.get? (ρ.map s) = r.cells.get? s := by simp [rename]
  unfold substitute
  rw [found]
  cases r.cells.get? s with
  | none => rfl
  | some c =>
    dsimp only
    rw [erase_rename, addScaled_rename]

theorem solveFor_rename : (r.rename ρ).solveFor (ρ.map s) = (r.solveFor s).rename ρ := by
  have found : (r.rename ρ).cells.get? (ρ.map s) = r.cells.get? s := by simp [rename]
  unfold solveFor
  rw [found]
  have erased : (r.rename ρ).cells.eraseSwap (ρ.map s) = ((r.erase s).rename ρ).cells :=
    Table.eraseSwap_rename ρ id r.cells s
  rw [erased]
  exact scaled_rename ρ (r.erase s) _ _

theorem exchange_rename (basic : Symbol) :
    (r.rename ρ).exchange (ρ.map basic) (ρ.map s) = (r.exchange basic s).rename ρ := by
  rw [exchange, addCell_rename, solveFor_rename, exchange]

end Row

def Tag.rename (tag : Tag) : Tag := ⟨ρ.map tag.marker, tag.other.map ρ.map⟩

theorem Tag.rename_eq_self {tag : Tag} (fixed : ∀ s ∈ tag.symbols, ρ.map s = s) :
    tag.rename ρ = tag := by
  obtain ⟨marker, other⟩ := tag
  cases other <;> simp_all [Tag.symbols, Tag.rename]

@[simp] theorem Tag.symbols_rename (tag : Tag) :
    (tag.rename ρ).symbols = tag.symbols.map ρ.map := by
  cases h : tag.other <;> simp [Tag.symbols, Tag.rename, h]

theorem Row.subject?_rename {α : Type} [Scalar α] (r : Row α) (tag : Tag) :
    (r.rename ρ).subject? (tag.rename ρ) = (r.subject? tag).map ρ.map := by
  unfold Row.subject?
  rw [Row.keys_rename, List.find?_map, Tag.symbols_rename, List.find?_map]
  simp only [Function.comp_def, Renaming.isExternal, Renaming.isPivotable,
    Row.coefficient_rename]
  cases r.cells.keys.find? fun s => s.isExternal <;> rfl

namespace Tableau

variable {α : Type}

def rename (t : Tableau α) : Tableau α := ⟨t.rows.rename ρ (Row.rename ρ), t.objective.rename ρ⟩

theorem entries_rename (t : Tableau α) :
    (t.rename ρ).rows.entries = t.rows.entries.map (Prod.map ρ.map (Row.rename ρ)) := rfl

@[simp] theorem get?_rename (t : Tableau α) (s : Symbol) :
    (t.rename ρ).rows.get? (ρ.map s) = (t.rows.get? s).map (Row.rename ρ) :=
  Table.get?_rename ρ (Row.rename ρ) t.rows s

theorem get?_rename_external (t : Tableau α) (v : Variable) :
    (t.rename ρ).rows.get? (.external v) = (t.rows.get? (.external v)).map (Row.rename ρ) := by
  rw [← get?_rename, ρ.external]

theorem attach_rename (t : Tableau α) (s : Symbol) (row : Row α) :
    (t.rename ρ).attach (ρ.map s) (row.rename ρ) = (t.attach s row).rename ρ := by
  simp only [attach, rename, Table.insert_rename]

theorem detach_rename (t : Tableau α) (s : Symbol) :
    (t.rename ρ).detach (ρ.map s) = (t.detach s).rename ρ := by
  simp only [detach, rename, Table.eraseSwap_rename]

theorem mapValues_rename {f f' : Row α → Row α}
    (along : ∀ row, f' (row.rename ρ) = (f row).rename ρ) (rows : Table Symbol (Row α)) :
    (rows.rename ρ (Row.rename ρ)).mapValues (fun _ row => f' row) =
      (rows.mapValues fun _ row => f row).rename ρ (Row.rename ρ) := by
  apply Table.ext
  simp [Table.mapValues, Table.rename, Function.comp_def, along]

/-- A renaming that fixes what occurs changes nothing. -/
theorem rename_eq_self {P : Symbol → Prop} {t : Tableau α} (h : t.Over P)
    (fixed : ∀ s, P s → ρ.map s = s) : t.rename ρ = t := by
  have row (r : Row α) (hr : r.Over P) : r.rename ρ = r := by
    have cells : r.cells.rename ρ id = r.cells :=
      Table.rename_eq_self ρ fun e he => ⟨fixed e.1 (hr e.1 (List.mem_map_of_mem he)), rfl⟩
    rw [Row.rename, cells]
  have rows : t.rows.rename ρ (Row.rename ρ) = t.rows := by
    apply Table.rename_eq_self ρ
    rintro ⟨s, r⟩ he
    have found := (t.rows.get?_eq_some_iff s r).mpr he
    exact ⟨fixed s (h.basic s r found), row r (h.rows s r found)⟩
  rw [rename, rows, row t.objective h.objective]

theorem drop_rename (t : Tableau α) (s : Symbol) :
    (t.rename ρ).drop (ρ.map s) = (t.drop s).rename ρ := by
  simp only [drop, rename, mk.injEq]
  exact ⟨mapValues_rename ρ (fun row => row.erase_rename ρ s) t.rows,
    t.objective.erase_rename ρ s⟩

theorem budget_rename (t : Tableau α) : (t.rename ρ).budget = t.budget := by
  have occurrences : (t.rename ρ).occurrences = t.occurrences := by
    simp [occurrences, rename, Row.rename, Table.rename, Table.size,
      List.foldl_map]
  rw [budget, occurrences, budget]

variable [Scalar α] (t : Tableau α) (s : Symbol) (row : Row α)

theorem value_rename (v : Variable) : (t.rename ρ).value v = t.value v := by
  unfold value
  rw [get?_rename_external]
  cases t.rows.get? (.external v) <;> rfl

theorem isFeasible_rename : (t.rename ρ).isFeasible = t.isFeasible := by
  rw [isFeasible, entries_rename, List.all_map, isFeasible]
  simp only [Function.comp_def, Prod.map_fst, ρ.isExternal]
  rfl

theorem substitute_rename :
    (t.rename ρ).substitute (ρ.map s) (row.rename ρ) = (t.substitute s row).rename ρ := by
  simp only [substitute, rename, mk.injEq]
  exact ⟨mapValues_rename ρ (fun r => r.substitute_rename ρ row s) t.rows,
    t.objective.substitute_rename ρ row s⟩

theorem enter_rename :
    (t.rename ρ).enter (ρ.map s) (row.rename ρ) = (t.enter s row).rename ρ := by
  rw [enter, substitute_rename, attach_rename, enter]

theorem pivot_rename (leaving : Symbol) :
    (t.rename ρ).pivot (ρ.map leaving) (row.rename ρ) (ρ.map s) =
      (t.pivot leaving row s).rename ρ := by
  rw [pivot, detach_rename, Row.exchange_rename, enter_rename, pivot]

theorem addCosts_rename (costs : List (Symbol × α)) :
    (t.rename ρ).addCosts (costs.map (Prod.map ρ.map id)) = (t.addCosts costs).rename ρ := by
  simp only [addCosts, rename, Row.addCells_rename]

theorem express_rename (e : Expression α) : (t.rename ρ).express e = (t.express e).rename ρ := by
  unfold express
  change List.foldl _ ((Row.ofConstant e.constant).rename ρ) _ = _
  refine List.foldl_hom (Row.rename ρ) (fun row term => ?_)
  rw [get?_rename_external]
  cases t.rows.get? (.external term.1) with
  | some basic => exact row.addScaled_rename ρ basic term.2
  | none =>
    have here := row.addCell_rename ρ (.external term.1) term.2
    rwa [ρ.external] at here

end Tableau

end Rename

end LinearChoice
