/-
# Comparing two runs of a transducer

Two ways in which one machine is run twice. In lockstep both runs read inputs of the
same number, related one by one; if related inputs take every state the same step, the
runs never part. Under erasure the second run reads only some of the inputs of the
first; if the others leave every reachable state alone, the rest of the run is as if
they had never been read.
-/

import SilentCompose.Foundations.Transducer

namespace SilentCompose.Foundations

universe uσ uα uβ uγ

/-! ## Lockstep -/

namespace Transducer

variable {σ : Type uσ} {α : Type uα} {β : Type uβ} (M : Transducer σ α β)

/-- After the inputs `before`, both runs answer the two inputs alike and are in the
same state after them. -/
def RunsAgree (before : List (α × α)) (pair : α × α) : Prop :=
  M.step (M.stateAfter (before.map Prod.fst)) pair.1 =
    M.step (M.stateAfter (before.map Prod.snd)) pair.2

/-- **Lockstep.** If inputs related in a state take the same step from it, and the
inputs of two runs are related in the states of the first, the runs agree at every
step. -/
theorem everyStep_runsAgree {E : σ → α → α → Prop}
    (hstep : ∀ s a b, E s a b → M.step s a = M.step s b) {pairs : List (α × α)}
    (hpairs : EveryStep pairs fun before pair =>
      E (M.stateAfter (before.map Prod.fst)) pair.1 pair.2) :
    EveryStep pairs M.RunsAgree := by
  let related : List (α × α) → α × α → Prop := fun before pair =>
    E (M.stateAfter (before.map Prod.fst)) pair.1 pair.2
  -- While the runs are in the same state, related inputs keep them there.
  have hboth : EveryStep pairs (fun before pair => related before pair ∧ M.RunsAgree before pair) ↔
      EveryStep pairs related := by
    apply everyStep_iff_of_invariant (I := fun before =>
      M.stateAfter (before.map Prod.fst) = M.stateAfter (before.map Prod.snd))
    · rfl
    · intro before pair hsame
      apply Iff.intro
      · intro h
        exact h.1
      · intro hrelated
        refine ⟨hrelated, ?_⟩
        rw [RunsAgree, ← hsame]
        exact hstep _ _ _ hrelated
    · intro before pair hsame h
      simp only [List.map_append, List.map_cons, List.map_nil, stateAfter_concat]
      exact congrArg Prod.snd h.2
  intro before pair after hsplit
  exact (hboth.mpr hpairs before pair after hsplit).2

end Transducer

/-! ## Erasing entries of a list -/

section Erasure

variable {α : Type uα} {γ : Type uγ}

/-- The entries that stay: those marked `true`, and those behind the last mark. -/
def kept : List Bool → List α → List α
  | [], xs => xs
  | _ :: _, [] => []
  | stays :: marks, x :: xs => if stays then x :: kept marks xs else kept marks xs

/-- The entries that are erased: those marked `false`. -/
def erased : List Bool → List α → List α
  | [], _ => []
  | _ :: _, [] => []
  | stays :: marks, x :: xs => if stays then erased marks xs else x :: erased marks xs

/-- What is observed of a list does not change when entries that show nothing are
erased. -/
theorem flatMap_kept (view : α → List γ) {marks : List Bool} {xs : List α}
    (hquiet : ∀ x ∈ erased marks xs, view x = []) :
    (kept marks xs).flatMap view = xs.flatMap view := by
  induction marks generalizing xs with
  | nil => rfl
  | cons stays marks ih =>
      cases xs with
      | nil => rfl
      | cons x xs =>
          cases stays with
          | true =>
              have hrest : (kept marks xs).flatMap view = xs.flatMap view := ih hquiet
              simp [kept, hrest]
          | false =>
              have hx : view x = [] := hquiet x List.mem_cons_self
              have hrest := ih fun y hy => hquiet y (List.mem_cons_of_mem x hy)
              simp [kept, hrest, hx]

end Erasure

/-! ## Erasing inputs of a run -/

namespace Transducer

variable {σ : Type uσ} {α : Type uα} {β : Type uβ} (M : Transducer σ α β)

/-- An erased record is that of an erased input at a reachable state. -/
theorem exists_record_of_mem_erased {marks : List Bool} {xs : List α} {s : σ}
    (hreach : M.Reachable s) {r : Record σ α β} (hmem : r ∈ erased marks (M.traceFrom s xs)) :
    ∃ t a, M.Reachable t ∧ a ∈ erased marks xs ∧ r = M.record t a := by
  induction marks generalizing xs s with
  | nil => cases hmem
  | cons stays marks ih =>
      cases xs with
      | nil => cases hmem
      | cons a rest =>
          have hnext := hreach.step a
          cases stays with
          | true => exact ih hnext hmem
          | false =>
              rcases List.mem_cons.mp hmem with rfl | hmem
              · exact ⟨s, a, hreach, List.mem_cons_self, rfl⟩
              · obtain ⟨t, b, ht, hb, hr⟩ := ih hnext hmem
                exact ⟨t, b, ht, List.mem_cons_of_mem a hb, hr⟩

/-- **Erasure.** If every erased input leaves every reachable state alone, the records
of the other inputs are those of a run without the erased ones, and both runs end in
the same state. -/
theorem kept_traceFrom {marks : List Bool} {xs : List α} {s : σ} (hreach : M.Reachable s)
    (hquiet : ∀ t, M.Reachable t → ∀ a ∈ erased marks xs, (M.step t a).2 = t) :
    kept marks (M.traceFrom s xs) = M.traceFrom s (kept marks xs) ∧
      M.stateFrom s xs = M.stateFrom s (kept marks xs) := by
  induction marks generalizing xs s with
  | nil => exact ⟨rfl, rfl⟩
  | cons stays marks ih =>
      cases xs with
      | nil => exact ⟨rfl, rfl⟩
      | cons a rest =>
          cases stays with
          | true =>
              obtain ⟨htrace, hstate⟩ := ih (hreach.step a) hquiet
              exact ⟨congrArg (M.record s a :: ·) htrace, hstate⟩
          | false =>
              have hsame : (M.step s a).2 = s := hquiet s hreach a List.mem_cons_self
              have hrest := ih hreach fun t ht b hb => hquiet t ht b (List.mem_cons_of_mem a hb)
              simpa [traceFrom, stateFrom, kept, hsame] using hrest

end Transducer

end SilentCompose.Foundations
