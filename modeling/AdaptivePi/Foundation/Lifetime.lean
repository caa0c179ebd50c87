import Mathlib.Tactic.Common

/-!
Accounts of object lifetimes. The log records when the construction of an
object begins, when it is complete, when the object becomes the active one of
its owner and when it is destroyed. The accounts are balanced for a set of
owned objects if these are alive and every other object that was ever
constructed has been destroyed exactly once. Owners have at most one object
each, and never the same one.
-/

namespace AdaptivePi.Foundation

abbrev ObjectId := Nat

inductive LifetimeEvent where
  | constructing (object : ObjectId)
  | constructed (object : ObjectId)
  | activated (object : ObjectId)
  | destroyed (object : ObjectId)
  deriving DecidableEq

structure Lifetimes where
  nextObject : ObjectId
  log : List LifetimeEvent

namespace Lifetimes

def empty : Lifetimes := ⟨0, []⟩

/-- A constructor starts and throws. -/
def abandon (lifetimes : Lifetimes) : Lifetimes :=
  ⟨lifetimes.nextObject + 1, lifetimes.log ++ [.constructing lifetimes.nextObject]⟩

/-- A constructor starts and completes. -/
def create (lifetimes : Lifetimes) : Lifetimes :=
  ⟨lifetimes.nextObject + 1,
    lifetimes.log ++ [.constructing lifetimes.nextObject, .constructed lifetimes.nextObject]⟩

def activate (object : ObjectId) (lifetimes : Lifetimes) : Lifetimes :=
  { lifetimes with log := lifetimes.log ++ [.activated object] }

def destroy (object : ObjectId) (lifetimes : Lifetimes) : Lifetimes :=
  { lifetimes with log := lifetimes.log ++ [.destroyed object] }

def constructions (lifetimes : Lifetimes) (object : ObjectId) : Nat :=
  lifetimes.log.count (.constructed object)

def destructions (lifetimes : Lifetimes) (object : ObjectId) : Nat :=
  lifetimes.log.count (.destroyed object)

/-- The object has been constructed and not destroyed. -/
def Alive (lifetimes : Lifetimes) (object : ObjectId) : Prop :=
  .constructed object ∈ lifetimes.log ∧ .destroyed object ∉ lifetimes.log

@[simp] theorem constructions_abandon (lifetimes : Lifetimes) (object : ObjectId) :
    lifetimes.abandon.constructions object = lifetimes.constructions object := by
  simp [constructions, abandon]

@[simp] theorem destructions_abandon (lifetimes : Lifetimes) (object : ObjectId) :
    lifetimes.abandon.destructions object = lifetimes.destructions object := by
  simp [destructions, abandon]

@[simp] theorem constructions_create (lifetimes : Lifetimes) (object : ObjectId) :
    lifetimes.create.constructions object =
      lifetimes.constructions object + if object = lifetimes.nextObject then 1 else 0 := by
  simp [constructions, create, List.count_cons, @eq_comm _ object lifetimes.nextObject]

@[simp] theorem destructions_create (lifetimes : Lifetimes) (object : ObjectId) :
    lifetimes.create.destructions object = lifetimes.destructions object := by
  simp [destructions, create]

@[simp] theorem constructions_activate (lifetimes : Lifetimes) (object other : ObjectId) :
    (lifetimes.activate other).constructions object = lifetimes.constructions object := by
  simp [constructions, activate]

@[simp] theorem destructions_activate (lifetimes : Lifetimes) (object other : ObjectId) :
    (lifetimes.activate other).destructions object = lifetimes.destructions object := by
  simp [destructions, activate]

@[simp] theorem constructions_destroy (lifetimes : Lifetimes) (object other : ObjectId) :
    (lifetimes.destroy other).constructions object = lifetimes.constructions object := by
  simp [constructions, destroy]

@[simp] theorem destructions_destroy (lifetimes : Lifetimes) (object other : ObjectId) :
    (lifetimes.destroy other).destructions object =
      lifetimes.destructions object + if object = other then 1 else 0 := by
  simp [destructions, destroy, List.count_cons, @eq_comm _ object other]

/-- The owned objects are alive, and all others are destroyed as often as they
were constructed, at most once. -/
structure Balanced (lifetimes : Lifetimes) (owned : ObjectId → Prop) : Prop where
  fresh : ∀ object, lifetimes.nextObject ≤ object → ¬owned object ∧
    lifetimes.constructions object = 0
  constructions_owned : ∀ object, owned object → lifetimes.constructions object = 1
  destructions_owned : ∀ object, owned object → lifetimes.destructions object = 0
  constructions_le : ∀ object, lifetimes.constructions object ≤ 1
  destructions_eq : ∀ object, ¬owned object →
    lifetimes.destructions object = lifetimes.constructions object

theorem balanced_empty : empty.Balanced fun _ => False :=
  ⟨fun _ _ => ⟨id, rfl⟩, fun _ h => h.elim, fun _ h => h.elim, fun _ => Nat.zero_le 1,
    fun _ _ => rfl⟩

namespace Balanced

variable {lifetimes : Lifetimes} {owned owned' : ObjectId → Prop}

theorem congr (h : lifetimes.Balanced owned) (hiff : ∀ object, owned' object ↔ owned object) :
    lifetimes.Balanced owned' := by
  have hsame : owned' = owned := funext fun object => propext (hiff object)
  rwa [hsame]

/-- Exactly the owned objects are alive. -/
theorem alive_iff (h : lifetimes.Balanced owned) (object : ObjectId) :
    lifetimes.Alive object ↔ owned object := by
  constructor
  · rintro ⟨hconstructed, hdestroyed⟩
    by_contra howned
    have hcount := h.destructions_eq object howned
    have hpositive : 0 < lifetimes.constructions object := List.count_pos_iff.mpr hconstructed
    have hzero : lifetimes.destructions object = 0 := List.count_eq_zero.mpr hdestroyed
    omega
  · intro howned
    refine ⟨List.count_pos_iff.mp ?_, List.count_eq_zero.mp (h.destructions_owned object howned)⟩
    have hone := h.constructions_owned object howned
    unfold constructions at hone
    omega

/-- No object is destroyed before it is constructed, or twice. -/
theorem destructions_le (h : lifetimes.Balanced owned) (object : ObjectId) :
    lifetimes.destructions object ≤ lifetimes.constructions object := by
  by_cases howned : owned object
  · rw [h.destructions_owned object howned]
    exact Nat.zero_le _
  · exact Nat.le_of_eq (h.destructions_eq object howned)

/-- An object without an owner has been destroyed once if it was constructed. -/
theorem destructions_of_not_owned (h : lifetimes.Balanced owned) {object : ObjectId}
    (hnot : ¬owned object) (hconstructed : .constructed object ∈ lifetimes.log) :
    lifetimes.destructions object = 1 := by
  have hpositive : 0 < lifetimes.constructions object := List.count_pos_iff.mpr hconstructed
  have hle := h.constructions_le object
  have heq := h.destructions_eq object hnot
  omega

theorem abandon (h : lifetimes.Balanced owned) : lifetimes.abandon.Balanced owned := by
  refine ⟨?_, ?_, ?_, ?_, ?_⟩
  · intro object hobject
    rw [constructions_abandon]
    exact h.fresh object (Nat.le_of_succ_le hobject)
  · intro object howned
    rw [constructions_abandon]
    exact h.constructions_owned object howned
  · intro object howned
    rw [destructions_abandon]
    exact h.destructions_owned object howned
  · intro object
    rw [constructions_abandon]
    exact h.constructions_le object
  · intro object hother
    rw [constructions_abandon, destructions_abandon]
    exact h.destructions_eq object hother

theorem create (h : lifetimes.Balanced owned) :
    lifetimes.create.Balanced fun object => owned object ∨ object = lifetimes.nextObject := by
  obtain ⟨hnew, hunused⟩ := h.fresh lifetimes.nextObject (Nat.le_refl _)
  have hundestroyed := h.destructions_eq lifetimes.nextObject hnew
  refine ⟨?_, ?_, ?_, ?_, ?_⟩
  · intro object hobject
    have hlt : lifetimes.nextObject < object := hobject
    obtain ⟨hold, hcount⟩ := h.fresh object (Nat.le_of_lt hlt)
    have hne : object ≠ lifetimes.nextObject := Nat.ne_of_gt hlt
    rw [constructions_create, if_neg hne]
    exact ⟨not_or.mpr ⟨hold, hne⟩, hcount⟩
  · rintro object (howned | rfl)
    · have hne : object ≠ lifetimes.nextObject := by
        rintro rfl
        exact hnew howned
      rw [constructions_create, if_neg hne]
      exact h.constructions_owned object howned
    · rw [constructions_create, if_pos rfl, hunused]
  · rintro object (howned | rfl)
    · rw [destructions_create]
      exact h.destructions_owned object howned
    · rw [destructions_create, hundestroyed, hunused]
  · intro object
    rw [constructions_create]
    by_cases hobject : object = lifetimes.nextObject
    · simp [hobject, hunused]
    · rw [if_neg hobject]
      exact h.constructions_le object
  · intro object hother
    obtain ⟨hold, hne⟩ := not_or.mp hother
    rw [destructions_create, constructions_create, if_neg hne]
    exact h.destructions_eq object hold

theorem activate (h : lifetimes.Balanced owned) (object : ObjectId) :
    (lifetimes.activate object).Balanced owned := by
  refine ⟨fun other hother => ?_, fun other hother => ?_, fun other hother => ?_, fun other => ?_,
    fun other hother => ?_⟩
  · rw [constructions_activate]
    exact h.fresh other hother
  · rw [constructions_activate]
    exact h.constructions_owned other hother
  · rw [destructions_activate]
    exact h.destructions_owned other hother
  · rw [constructions_activate]
    exact h.constructions_le other
  · rw [constructions_activate, destructions_activate]
    exact h.destructions_eq other hother

theorem destroy (h : lifetimes.Balanced owned) {object : ObjectId} (howned : owned object) :
    (lifetimes.destroy object).Balanced fun other => owned other ∧ other ≠ object := by
  refine ⟨fun other hother => ?_, fun other hother => ?_, fun other hother => ?_, fun other => ?_,
    fun other hother => ?_⟩
  · obtain ⟨hnew, hunused⟩ := h.fresh other hother
    rw [constructions_destroy]
    exact ⟨fun hboth => hnew hboth.1, hunused⟩
  · rw [constructions_destroy]
    exact h.constructions_owned other hother.1
  · rw [destructions_destroy, if_neg hother.2]
    exact h.destructions_owned other hother.1
  · rw [constructions_destroy]
    exact h.constructions_le other
  · rw [constructions_destroy, destructions_destroy]
    by_cases hsame : other = object
    · rw [if_pos hsame, hsame, h.destructions_owned object howned,
        h.constructions_owned object howned]
    · rw [if_neg hsame]
      exact h.destructions_eq other fun hboth => hother ⟨hboth, hsame⟩

end Balanced

/-- Owners with different objects, and balanced accounts of these. -/
structure Accounts {ι : Type*} (lifetimes : Lifetimes) (object : ι → Option ObjectId) : Prop where
  distinct : ∀ owner owner' owned, object owner = some owned → object owner' = some owned →
    owner = owner'
  balanced : lifetimes.Balanced fun owned => ∃ owner, object owner = some owned

namespace Accounts

variable {ι : Type*} {lifetimes : Lifetimes} {object : ι → Option ObjectId}

theorem empty : Lifetimes.empty.Accounts fun _ : ι => none := by
  refine ⟨fun owner owner' owned h => ?_, balanced_empty.congr fun owned => ?_⟩
  · cases h
  · simp

theorem abandon (h : lifetimes.Accounts object) : lifetimes.abandon.Accounts object :=
  ⟨h.distinct, h.balanced.abandon⟩

/-- The next object does not have an owner yet. -/
theorem unowned (h : lifetimes.Accounts object) (owner : ι) :
    object owner ≠ some lifetimes.nextObject :=
  fun howner => (h.balanced.fresh _ (Nat.le_refl _)).1 ⟨owner, howner⟩

theorem alive_iff (h : lifetimes.Accounts object) (owned : ObjectId) :
    lifetimes.Alive owned ↔ ∃ owner, object owner = some owned :=
  h.balanced.alive_iff owned

variable [DecidableEq ι]

/-- Objects stay different if the new one is new. -/
private theorem distinct_update (h : lifetimes.Accounts object) (owner : ι)
    (owned : Option ObjectId) (hnew : ∀ owner', object owner' = owned → owned = none) :
    ∀ first second other, Function.update object owner owned first = some other →
      Function.update object owner owned second = some other → first = second := by
  intro first second other hfirst hsecond
  by_cases hone : first = owner
  · subst hone
    rw [Function.update_self] at hfirst
    by_cases htwo : second = first
    · exact htwo.symm
    · rw [Function.update_of_ne htwo] at hsecond
      cases hfirst.symm.trans (hnew second (hsecond.trans hfirst.symm))
  · rw [Function.update_of_ne hone] at hfirst
    by_cases htwo : second = owner
    · subst htwo
      rw [Function.update_self] at hsecond
      cases hsecond.symm.trans (hnew first (hfirst.trans hsecond.symm))
    · rw [Function.update_of_ne htwo] at hsecond
      exact h.distinct first second other hfirst hsecond

/-- A new owner gets a new object. -/
theorem create (h : lifetimes.Accounts object) {owner : ι} (hnone : object owner = none) :
    lifetimes.create.Accounts (Function.update object owner (some lifetimes.nextObject)) := by
  refine ⟨h.distinct_update owner _ fun other hother => absurd hother (h.unowned other),
    h.balanced.create.congr fun owned => ?_⟩
  constructor
  · rintro ⟨other, hother⟩
    by_cases hsame : other = owner
    · subst hsame
      rw [Function.update_self] at hother
      exact Or.inr (Option.some.inj hother).symm
    · rw [Function.update_of_ne hsame] at hother
      exact Or.inl ⟨other, hother⟩
  · rintro (⟨other, hother⟩ | rfl)
    · refine ⟨other, ?_⟩
      rw [Function.update_of_ne]
      · exact hother
      · rintro rfl
        cases hnone.symm.trans hother
    · exact ⟨owner, Function.update_self ..⟩

/-- An owner gets a new object, and then loses the old one. -/
theorem replace (h : lifetimes.Accounts object) {owner : ι} {old : ObjectId}
    (hold : object owner = some old) :
    ((lifetimes.create.activate lifetimes.nextObject).destroy old).Accounts
      (Function.update object owner (some lifetimes.nextObject)) := by
  have hne : old ≠ lifetimes.nextObject := by
    rintro rfl
    exact h.unowned owner hold
  refine ⟨h.distinct_update owner _ fun other hother => absurd hother (h.unowned other), ?_⟩
  refine ((h.balanced.create.activate _).destroy (Or.inl ⟨owner, hold⟩)).congr fun owned => ?_
  constructor
  · rintro ⟨other, hother⟩
    by_cases hsame : other = owner
    · subst hsame
      rw [Function.update_self, Option.some.injEq] at hother
      exact ⟨Or.inr hother.symm, fun howned => hne (howned.symm.trans hother.symm)⟩
    · rw [Function.update_of_ne hsame] at hother
      refine ⟨Or.inl ⟨other, hother⟩, ?_⟩
      rintro rfl
      exact hsame (h.distinct other owner owned hother hold)
  · rintro ⟨⟨other, hother⟩ | rfl, hdifferent⟩
    · refine ⟨other, ?_⟩
      rw [Function.update_of_ne]
      · exact hother
      · rintro rfl
        exact hdifferent (Option.some.inj (hother.symm.trans hold))
    · exact ⟨owner, Function.update_self ..⟩

/-- An owner loses its object. -/
theorem destroy (h : lifetimes.Accounts object) {owner : ι} {old : ObjectId}
    (hold : object owner = some old) :
    (lifetimes.destroy old).Accounts (Function.update object owner none) := by
  refine ⟨h.distinct_update owner none fun _ _ => rfl, ?_⟩
  refine (h.balanced.destroy ⟨owner, hold⟩).congr fun owned => ?_
  constructor
  · rintro ⟨other, hother⟩
    by_cases hsame : other = owner
    · subst hsame
      rw [Function.update_self] at hother
      cases hother
    · rw [Function.update_of_ne hsame] at hother
      refine ⟨⟨other, hother⟩, ?_⟩
      rintro rfl
      exact hsame (h.distinct other owner owned hother hold)
  · rintro ⟨⟨other, hother⟩, hdifferent⟩
    refine ⟨other, ?_⟩
    rw [Function.update_of_ne]
    · exact hother
    · rintro rfl
      exact hdifferent (Option.some.inj (hother.symm.trans hold))

end Accounts

end Lifetimes

end AdaptivePi.Foundation
