import Mathlib.Algebra.BigOperators.Group.List.Basic
import Mathlib.Data.List.Nodup
import Mathlib.Tactic.Abel

namespace AdaptivePi.Foundation

/-- The items in the order of insertion, with different keys. -/
structure Dictionary (κ ν : Type) where
  items : List (κ × ν)
  nodup : (items.map Prod.fst).Nodup

/-- A loop whose steps add to a measure. -/
theorem measure_foldl {σ α M : Type} [AddCommMonoid M] {step : σ → α → σ} {measure : σ → M}
    {added : α → M} (hstep : ∀ state item, measure (step state item) = measure state + added item)
    (items : List α) (state : σ) :
    measure (items.foldl step state) = measure state + (items.map added).sum := by
  induction items generalizing state with
  | nil => simp
  | cons item items ih =>
      rw [List.foldl_cons, ih, hstep, List.map_cons, List.sum_cons, add_assoc]

namespace Dictionary

variable {κ ν M : Type} [DecidableEq κ] [AddCommMonoid M]

def empty : Dictionary κ ν := ⟨[], List.nodup_nil⟩

def alterItems (key : κ) (change : Option ν → ν) : List (κ × ν) → List (κ × ν)
  | [] => [(key, change none)]
  | (other, value) :: items =>
      if other = key then (other, change (some value)) :: items
      else (other, value) :: alterItems key change items

theorem mem_keys_alterItems {key other : κ} {change : Option ν → ν} {items : List (κ × ν)} :
    other ∈ (alterItems key change items).map Prod.fst ↔
      other = key ∨ other ∈ items.map Prod.fst := by
  induction items with
  | nil => simp [alterItems]
  | cons item items ih =>
      unfold alterItems
      split
      · rename_i hkey
        simp only [List.map_cons, List.mem_cons, hkey]
        tauto
      · rw [List.map_cons, List.mem_cons, ih, List.map_cons, List.mem_cons]
        tauto

/-- A value that is changed keeps its place, and its key. -/
theorem nodup_alterItems (key : κ) (change : Option ν → ν) {items : List (κ × ν)}
    (hitems : (items.map Prod.fst).Nodup) :
    ((alterItems key change items).map Prod.fst).Nodup := by
  induction items with
  | nil => exact List.nodup_singleton _
  | cons item items ih =>
      rw [List.map_cons, List.nodup_cons] at hitems
      unfold alterItems
      split
      · exact List.nodup_cons.mpr hitems
      · rename_i hkey
        refine List.nodup_cons.mpr ⟨?_, ih hitems.2⟩
        rw [mem_keys_alterItems]
        exact fun h => h.elim hkey hitems.1

/-- `d[key] = change(d.get(key))` -/
def alter (dictionary : Dictionary κ ν) (key : κ) (change : Option ν → ν) : Dictionary κ ν :=
  ⟨alterItems key change dictionary.items, nodup_alterItems key change dictionary.nodup⟩

/-- `change(d[key])` in place, for a `defaultdict`. -/
def access (dictionary : Dictionary κ ν) (key : κ) (default : ν) (change : ν → ν) :
    Dictionary κ ν :=
  dictionary.alter key fun value => change (value.getD default)

/-- `d.setdefault(key, value)` -/
def setDefault (dictionary : Dictionary κ ν) (key : κ) (value : ν) : Dictionary κ ν :=
  dictionary.alter key fun found => found.getD value

def lookupItems (key : κ) : List (κ × ν) → Option ν
  | [] => none
  | (other, value) :: items => if other = key then some value else lookupItems key items

def get (dictionary : Dictionary κ ν) (key : κ) : Option ν := lookupItems key dictionary.items

/-- An item is what is found under its key. -/
theorem mem_items_iff {dictionary : Dictionary κ ν} {key : κ} {value : ν} :
    (key, value) ∈ dictionary.items ↔ dictionary.get key = some value := by
  obtain ⟨items, hitems⟩ := dictionary
  unfold get
  dsimp only
  induction items with
  | nil => simp [lookupItems]
  | cons item items ih =>
      rw [List.map_cons, List.nodup_cons] at hitems
      unfold lookupItems
      by_cases hitem : item.1 = key
      · have hnot : (key, value) ∉ items := by
          intro hmem
          exact hitems.1 (List.mem_map.mpr ⟨_, hmem, hitem.symm⟩)
        rw [if_pos hitem, List.mem_cons, Option.some_inj]
        constructor
        · rintro (h | h)
          · exact congrArg Prod.snd h.symm
          · exact absurd h hnot
        · rintro rfl
          exact .inl (Prod.ext hitem.symm rfl)
      · rw [if_neg hitem, ← ih hitems.2, List.mem_cons]
        constructor
        · rintro (h | h)
          · exact absurd (congrArg Prod.fst h.symm) hitem
          · exact h
        · exact .inr

/-- The sum of what the items weigh. -/
def weigh (dictionary : Dictionary κ ν) (weight : κ → ν → M) : M :=
  (dictionary.items.map fun item => weight item.1 item.2).sum

/-- A value that weighs more by `added` makes the sum greater by `added`. -/
theorem weigh_alter (dictionary : Dictionary κ ν) {key : κ} {change : Option ν → ν}
    {weight : κ → ν → M} {added : M}
    (hchange : ∀ value, weight key (change value) = value.elim 0 (weight key) + added) :
    (dictionary.alter key change).weigh weight = dictionary.weigh weight + added := by
  obtain ⟨items, hitems⟩ := dictionary
  unfold weigh alter
  dsimp only
  clear hitems
  induction items with
  | nil => simpa [alterItems] using hchange none
  | cons item items ih =>
      unfold alterItems
      split
      · rename_i hkey
        have hitem : weight item.1 (change (some item.2)) = weight item.1 item.2 + added := by
          rw [hkey]
          exact hchange (some item.2)
        rw [List.map_cons, List.sum_cons, List.map_cons, List.sum_cons, hitem]
        abel
      · rw [List.map_cons, List.sum_cons, ih, List.map_cons, List.sum_cons, add_assoc]

/-- The weight grows by what is added to one item. -/
theorem weigh_access (dictionary : Dictionary κ ν) {key : κ} {default : ν} {change : ν → ν}
    {weight : κ → ν → M} {added : M} (hdefault : weight key default = 0)
    (hchange : ∀ value, weight key (change value) = weight key value + added) :
    (dictionary.access key default change).weigh weight = dictionary.weigh weight + added := by
  apply weigh_alter
  intro value
  cases value with
  | none => rw [Option.getD_none, hchange, hdefault, Option.elim_none]
  | some value => exact hchange value

theorem weigh_setDefault (dictionary : Dictionary κ ν) {key : κ} {value : ν} {weight : κ → ν → M}
    (hvalue : weight key value = 0) :
    (dictionary.setDefault key value).weigh weight = dictionary.weigh weight := by
  rw [setDefault, dictionary.weigh_alter, add_zero]
  intro found
  cases found with
  | none => rw [Option.getD_none, hvalue, Option.elim_none, add_zero]
  | some found => rw [Option.getD_some, Option.elim_some, add_zero]

end Dictionary

end AdaptivePi.Foundation
