/-
# Runs of a partial step function

A component takes one action after the other and may stop at one of them. `Along`
says that a condition holds at each step that is taken, in the state before the
step. The rules below turn what single steps do into what whole runs do.
-/

import Mathlib.Logic.Basic

namespace Hercules.Lib

universe u v w

variable {S : Type u} {A : Type v} {T : Type w}

/-- The state after a list of actions, unless one of them stops the component. -/
def run (step : S → A → Option S) : List A → S → Option S
  | [], s => some s
  | a :: actions, s => (step s a).bind (run step actions)

/-- Every step of the run meets the condition. -/
def Along (step : S → A → Option S) (P : S → A → Prop) : List A → S → Prop
  | [], _ => True
  | a :: actions, s => P s a ∧ ∀ s', step s a = some s' → Along step P actions s'

variable {step : S → A → Option S} {P Q : S → A → Prop} {actions : List A} {s s' : S}

@[simp]
theorem run_nil (s : S) : run step [] s = some s := rfl

theorem run_cons (a : A) (actions : List A) (s : S) :
    run step (a :: actions) s = (step s a).bind (run step actions) := rfl

instance Along.decidable [∀ s a, Decidable (P s a)] :
    ∀ (actions : List A) (s : S), Decidable (Along step P actions s)
  | [], _ => isTrue trivial
  | a :: actions, s =>
      match hstep : step s a with
      | none => decidable_of_iff (P s a) ⟨fun h => ⟨h, by simp [hstep]⟩, And.left⟩
      | some next =>
          have := Along.decidable actions next
          decidable_of_iff (P s a ∧ Along step P actions next)
            (and_congr_right fun _ => by simp [hstep])

/-- The first step of a run, and the rest of it. -/
theorem along_cons_of_step {a : A} (hstep : step s a = some s') :
    Along step P (a :: actions) s ↔ P s a ∧ Along step P actions s' := by
  simp [Along, hstep]

/-- The condition at one step of the run. -/
theorem Along.apply {before after : List A} {a : A} (halong : Along step P (before ++ a :: after) s)
    (hrun : run step before s = some s') : P s' a := by
  induction before generalizing s with
  | nil =>
      cases hrun
      exact halong.1
  | cons b before ih =>
      obtain ⟨next, hnext, hrest⟩ := Option.bind_eq_some_iff.mp hrun
      exact ih (halong.2 next hnext) hrest

theorem Along.of_append {before after : List A} (halong : Along step P (before ++ after) s) :
    Along step P before s := by
  induction before generalizing s with
  | nil => trivial
  | cons a before ih => exact ⟨halong.1, fun next hnext => ih (halong.2 next hnext)⟩

/-- An invariant that the steps keep under their condition holds after the run. -/
theorem Along.invariant {Inv : S → Prop}
    (hstep : ∀ s a s', Inv s → P s a → step s a = some s' → Inv s')
    (halong : Along step P actions s) (hinv : Inv s) (hrun : run step actions s = some s') :
    Inv s' := by
  induction actions generalizing s with
  | nil =>
      cases hrun
      exact hinv
  | cons a actions ih =>
      obtain ⟨next, hnext, hrest⟩ := Option.bind_eq_some_iff.mp hrun
      exact ih (halong.2 next hnext) (hstep s a next hinv halong.1 hnext) hrest

/-- What follows from an invariant that the actions keep holds at each step. -/
theorem Along.of_invariant {Inv : S → Prop}
    (hstep : ∀ a ∈ actions, ∀ s s', Inv s → step s a = some s' → Inv s')
    (himp : ∀ s a, Inv s → P s a) (hinv : Inv s) : Along step P actions s := by
  induction actions generalizing s with
  | nil => trivial
  | cons a actions ih =>
      rw [List.forall_mem_cons] at hstep
      exact ⟨himp s a hinv, fun next hnext => ih hstep.2 (hstep.1 s next hinv hnext)⟩

/-- A condition on the actions alone. -/
theorem Along.of_forall {R : A → Prop} (hall : ∀ a ∈ actions, R a) :
    Along step (fun _ a => R a) actions s := by
  induction actions generalizing s with
  | nil => trivial
  | cons a actions ih =>
      rw [List.forall_mem_cons] at hall
      exact ⟨hall.1, fun _ _ => ih hall.2⟩

/-- A condition on the actions alone joins one on the steps. -/
theorem Along.and_forall {R : A → Prop} (halong : Along step P actions s)
    (hall : ∀ a ∈ actions, R a) : Along step (fun s a => P s a ∧ R a) actions s := by
  induction actions generalizing s with
  | nil => trivial
  | cons a actions ih =>
      rw [List.forall_mem_cons] at hall
      exact ⟨⟨halong.1, hall.1⟩, fun next hnext => ih (halong.2 next hnext) hall.2⟩

/-- Two conditions that agree in the states of an invariant hold along a run together, if steps that
meet them keep the invariant. -/
theorem Along.iff_of_invariant {Inv : S → Prop} (hiff : ∀ s a, Inv s → (P s a ↔ Q s a))
    (hstep : ∀ s a s', Inv s → P s a → step s a = some s' → Inv s') (hinv : Inv s) :
    Along step P actions s ↔ Along step Q actions s := by
  induction actions generalizing s with
  | nil => exact Iff.rfl
  | cons a actions ih =>
      constructor
      · intro halong
        exact ⟨(hiff s a hinv).mp halong.1, fun next hnext =>
          (ih (hstep s a next hinv halong.1 hnext)).mp (halong.2 next hnext)⟩
      · intro halong
        have hfirst := (hiff s a hinv).mpr halong.1
        exact ⟨hfirst, fun next hnext =>
          (ih (hstep s a next hinv hfirst hnext)).mpr (halong.2 next hnext)⟩

/-- Two conditions that agree at each step of a run hold along it together. -/
theorem Along.congr {R : S → A → Prop} (hiff : ∀ s a, R s a → (P s a ↔ Q s a))
    (halong : Along step R actions s) : Along step P actions s ↔ Along step Q actions s := by
  induction actions generalizing s with
  | nil => exact Iff.rfl
  | cons a actions ih =>
      exact and_congr (hiff s a halong.1)
        (forall₂_congr fun next hnext => ih (halong.2 next hnext))

/-- A component that follows an abstract one step by step follows it over a run. -/
theorem Along.simulation {next : T → A → T} {Rel : S → T → Prop} {t : T}
    (hstep : ∀ s a s' t, Rel s t → P s a → step s a = some s' → Rel s' (next t a))
    (halong : Along step P actions s) (hrel : Rel s t) (hrun : run step actions s = some s') :
    Rel s' (actions.foldl next t) := by
  induction actions generalizing s t with
  | nil =>
      cases hrun
      exact hrel
  | cons a actions ih =>
      obtain ⟨mid, hmid, hrest⟩ := Option.bind_eq_some_iff.mp hrun
      exact ih (halong.2 mid hmid) (hstep s a mid t hrel halong.1 hmid) hrest

/-- A component whose steps never fail where an abstract one is followed does not fail in a run. -/
theorem Along.forward_simulation {next : T → A → T} {Rel : S → T → Prop} {t : T}
    (hstep : ∀ s a t, Rel s t → P s a → ∃ s', step s a = some s' ∧ Rel s' (next t a))
    (halong : Along step P actions s) (hrel : Rel s t) :
    ∃ s', run step actions s = some s' ∧ Rel s' (actions.foldl next t) := by
  induction actions generalizing s t with
  | nil => exact ⟨s, rfl, hrel⟩
  | cons a actions ih =>
      obtain ⟨mid, hmid, hrel'⟩ := hstep s a t hrel halong.1
      rw [run_cons, hmid]
      exact ih (halong.2 mid hmid) hrel'

end Hercules.Lib
