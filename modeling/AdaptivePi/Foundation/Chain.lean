import Mathlib.Data.List.Nodup
import Mathlib.Tactic.Common

namespace AdaptivePi.Foundation

variable {α : Type*}

/-- Following `next` from `start` visits exactly `cells` and then ends. -/
def IsChain (next : α → Option (Option α)) : Option α → List α → Prop
  | start, [] => start = none
  | start, cell :: rest => start = some cell ∧ ∃ link, next cell = some link ∧
      IsChain next link rest

namespace IsChain

variable {next next' : α → Option (Option α)} {start : Option α} {cells : List α}

/-- A chain depends on the links of its own cells only. -/
theorem congr (h : IsChain next start cells) (hsame : ∀ cell ∈ cells, next' cell = next cell) :
    IsChain next' start cells := by
  induction cells generalizing start with
  | nil => exact h
  | cons cell rest ih =>
      obtain ⟨hstart, link, hlink, hrest⟩ := h
      refine ⟨hstart, link, ?_, ih hrest fun other hother => hsame other (by simp [hother])⟩
      rw [hsame cell (by simp), hlink]

/-- A new first cell links to the old start. -/
theorem cons {cell : α} (h : IsChain next start cells) (hcell : next cell = some start) :
    IsChain next (some cell) (cell :: cells) :=
  ⟨rfl, start, hcell, h⟩

theorem start_eq (h : IsChain next start cells) : start = cells.head? := by
  cases cells with
  | nil => exact h
  | cons cell rest => exact h.1

/-- From any cell of a chain the links lead through the rest of it. -/
theorem tail {before after : List α} {cell : α} (h : IsChain next start (before ++ cell :: after)) :
    ∃ link, next cell = some link ∧ IsChain next link after := by
  induction before generalizing start with
  | nil => exact h.2
  | cons first before ih =>
      obtain ⟨-, link, -, hrest⟩ := h
      exact ih hrest

/-- The links determine which cells a chain visits. -/
theorem unique {cells' : List α} (h : IsChain next start cells) (h' : IsChain next start cells') :
    cells = cells' := by
  induction cells generalizing start cells' with
  | nil =>
      cases cells' with
      | nil => rfl
      | cons cell rest => cases (h : start = none).symm.trans h'.1
  | cons cell rest ih =>
      obtain ⟨hstart, link, hlink, hrest⟩ := h
      cases cells' with
      | nil => cases hstart.symm.trans (h' : start = none)
      | cons cell' rest' =>
          obtain ⟨hstart', link', hlink', hrest'⟩ := h'
          obtain rfl := Option.some.inj (hstart.symm.trans hstart')
          obtain rfl := Option.some.inj (hlink.symm.trans hlink')
          rw [ih hrest hrest']

/-- A chain that ends has no cycle: a cell that it visited again would lead to
chains of different lengths. -/
theorem nodup (h : IsChain next start cells) : cells.Nodup := by
  induction cells generalizing start with
  | nil => exact List.nodup_nil
  | cons cell rest ih =>
      obtain ⟨-, link, hlink, hrest⟩ := h
      refine List.nodup_cons.mpr ⟨fun hmem => ?_, ih hrest⟩
      obtain ⟨before, after, rfl⟩ := List.append_of_mem hmem
      obtain ⟨link', hlink', hafter⟩ := hrest.tail
      obtain rfl := Option.some.inj (hlink.symm.trans hlink')
      have hlength := congrArg List.length (hrest.unique hafter)
      rw [List.length_append, List.length_cons] at hlength
      omega

end IsChain

end AdaptivePi.Foundation
