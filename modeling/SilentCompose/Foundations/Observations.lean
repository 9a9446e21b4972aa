/-
# What a whole run shows

Rules that carry what single steps show to what a whole run shows. A machine with two
phases shows what its inputs say until one of them ends the first phase. A field that
is only ever written with what a step shows holds the last value shown. A machine that
pays for what it shows out of what it was credited never shows more than that. And a
machine that delays what it reads shows it in the order it was read.
-/

import SilentCompose.Foundations.Transducer

namespace SilentCompose.Foundations

universe uσ uα uβ uγ uδ

namespace Transducer

variable {σ : Type uσ} {α : Type uα} {β : Type uβ} {γ : Type uγ} {δ : Type uδ}
  (M : Transducer σ α β)

/-! ## Two phases -/

/-- The second phase shows nothing. -/
theorem flatMap_traceFrom_of_over {finished : σ → Prop} {view : Record σ α β → List γ}
    (hover : ∀ s a, finished s → view (M.record s a) = [] ∧ finished (M.step s a).2)
    {s : σ} (hs : finished s) (xs : List α) : (M.traceFrom s xs).flatMap view = [] := by
  induction xs generalizing s with
  | nil => rfl
  | cons a rest ih =>
      obtain ⟨hview, hnext⟩ := hover s a hs
      simpa [traceFrom, hview] using ih hnext

/-- **Two phases.** In the first phase an input shows what `spec` says, unless it is one
that stops the phase; that one shows `last`, and whatever comes after it shows nothing. -/
theorem flatMap_traceFrom_of_phases {live finished : σ → Prop} {stops : α → Bool}
    {view : Record σ α β → List γ} {spec : α → List γ} {last : List γ}
    (hlive : ∀ s a, live s → stops a = false →
      view (M.record s a) = spec a ∧ live (M.step s a).2)
    (hstop : ∀ s a, live s → stops a = true →
      view (M.record s a) = last ∧ finished (M.step s a).2)
    (hover : ∀ s a, finished s → view (M.record s a) = [] ∧ finished (M.step s a).2)
    {s : σ} (hs : live s) (xs : List α) :
    (M.traceFrom s xs).flatMap view =
      (xs.takeWhile fun a => !stops a).flatMap spec ++ if xs.any stops then last else [] := by
  induction xs generalizing s with
  | nil => rfl
  | cons a rest ih =>
      cases hstops : stops a with
      | false =>
          obtain ⟨hview, hnext⟩ := hlive s a hs hstops
          simp [traceFrom, hstops, hview, ih hnext]
      | true =>
          obtain ⟨hview, hnext⟩ := hstop s a hs hstops
          simp [traceFrom, hstops, hview, M.flatMap_traceFrom_of_over hover hnext]

/-! ## Registers -/

/-- **A register holds the last value shown.** If every step either writes the value it
shows to a field or shows none and keeps the field, the field holds the last value
shown, or its first value if none was. -/
theorem getLast?_filterMap_traceFrom (field : σ → γ) (shown : Record σ α β → Option γ) {s : σ}
    {xs : List α}
    (hstep : ∀ r ∈ M.traceFrom s xs,
      (shown r = none ∧ field r.post = field r.pre) ∨ shown r = some (field r.post)) :
    (((M.traceFrom s xs).filterMap shown).getLast?).getD (field s) =
      field (M.stateFrom s xs) := by
  induction xs generalizing s with
  | nil => rfl
  | cons a rest ih =>
      have hrest := ih fun r hr => hstep r (List.mem_cons_of_mem _ hr)
      simp only [stateFrom, ← hrest]
      rcases hstep (M.record s a) List.mem_cons_self with ⟨hshown, hkept⟩ | hshown
      · rw [traceFrom, List.filterMap_cons_none hshown]
        exact congrArg _ hkept.symm
      · rw [traceFrom, List.filterMap_cons_some hshown, List.getLast?_cons]
        rfl

/-- What is read off the inputs of the steps is read off the inputs of the run. -/
theorem filterMap_input_traceFrom (shown : α → Option γ) (s : σ) (xs : List α) :
    (M.traceFrom s xs).filterMap (fun r => shown r.input) = xs.filterMap shown := by
  induction xs generalizing s with
  | nil => rfl
  | cons a rest ih =>
      rw [traceFrom, List.filterMap_cons, List.filterMap_cons, ih]
      rfl

/-! ## Paying and delaying -/

/-- **What is shown was paid for.** If every step shows the code of as many units as its
payment and what it takes from the potential cover, a run shows the code of as many as
all payments and the first potential cover, less the last potential. -/
theorem exists_units_traceFrom {view : Record σ α β → List γ} {code : δ → List γ}
    {potential : σ → ℕ} {pays : Record σ α β → Bool} {s : σ} {xs : List α}
    (hpay : ∀ r ∈ M.traceFrom s xs, ∃ units : List δ, view r = units.flatMap code ∧
      units.length + potential r.post ≤ potential r.pre + (pays r).toNat) :
    ∃ units : List δ, (M.traceFrom s xs).flatMap view = units.flatMap code ∧
      units.length + potential (M.stateFrom s xs) ≤
        potential s + (M.traceFrom s xs).countP pays := by
  induction xs generalizing s with
  | nil => exact ⟨[], rfl, by simp [traceFrom, stateFrom]⟩
  | cons a rest ih =>
      obtain ⟨first, hview, hfirst⟩ := hpay (M.record s a) List.mem_cons_self
      obtain ⟨later, hrest, hlater⟩ := ih fun r hr => hpay r (List.mem_cons_of_mem _ hr)
      refine ⟨first ++ later, ?_, ?_⟩
      · simp only [traceFrom, List.flatMap_cons, List.flatMap_append, hview, hrest]
      · have hcount : (M.traceFrom s (a :: rest)).countP pays =
            (pays (M.record s a)).toNat + (M.traceFrom (M.step s a).2 rest).countP pays := by
          cases hpays : pays (M.record s a) <;>
            simp [traceFrom, hpays, Nat.add_comm]
        simp only [record_pre, record_post] at hfirst
        simp only [List.length_append, stateFrom, hcount]
        omega

/-- The input of a record was read. -/
theorem input_mem_of_mem_traceFrom {s : σ} {xs : List α} {r : Record σ α β}
    (hmem : r ∈ M.traceFrom s xs) : r.input ∈ xs := by
  obtain ⟨before, a, after, rfl, rfl⟩ := M.mem_traceFrom.mp hmem
  simp [record]

/-- **What is delayed comes out in order.** If every step shows what was withheld and
what it reads, except what it withholds itself, a run shows everything it read, except
what is withheld at its end. -/
theorem flatMap_traceFrom_of_withheld {view : Record σ α β → List γ} {reads : α → List γ}
    {withheld : σ → List γ} {I : σ → Prop} {admissible : σ → α → Prop}
    (hstep : ∀ s a, I s → admissible s a → I (M.step s a).2 ∧
      view (M.record s a) ++ withheld (M.step s a).2 = withheld s ++ reads a)
    {s : σ} (hs : I s) {xs : List α} (hxs : ∀ r ∈ M.traceFrom s xs, admissible r.pre r.input) :
    (M.traceFrom s xs).flatMap view ++ withheld (M.stateFrom s xs) =
      withheld s ++ xs.flatMap reads := by
  induction xs generalizing s with
  | nil => simp [traceFrom, stateFrom]
  | cons a rest ih =>
      obtain ⟨hnext, hshown⟩ := hstep s a hs (hxs (M.record s a) List.mem_cons_self)
      have hrest := ih hnext fun r hr => hxs r (List.mem_cons_of_mem _ hr)
      calc (M.traceFrom s (a :: rest)).flatMap view ++ withheld (M.stateFrom s (a :: rest))
          = view (M.record s a) ++
              ((M.traceFrom (M.step s a).2 rest).flatMap view ++
                withheld (M.stateFrom (M.step s a).2 rest)) := by
            simp only [traceFrom, stateFrom, List.flatMap_cons, List.append_assoc]
        _ = (view (M.record s a) ++ withheld (M.step s a).2) ++ rest.flatMap reads := by
            rw [hrest, List.append_assoc]
        _ = withheld s ++ (a :: rest).flatMap reads := by
            rw [hshown, List.flatMap_cons, List.append_assoc]

end Transducer

end SilentCompose.Foundations
