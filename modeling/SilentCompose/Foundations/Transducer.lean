/-
# Deterministic transducers and their runs

A transducer answers every input with one output and moves to a new state. A
run is the list of its step records, so a statement about a whole run is a
statement about records, and a statement about what a step may assume is a
statement about the inputs that precede it.

Three rules carry the inductions of every client: an invariant holds at all
reachable states, a silent-step simulation carries an observation from one
machine to another, and a condition that is exact for one step is exact for a
whole run. The alternation of rising and falling edges of a Boolean observer
holds of any run whatever the machine does.
-/

import Mathlib.Data.List.Basic
import Mathlib.Data.List.Infix

namespace SilentCompose.Foundations

universe uσ uα uβ uτ uκ uδ uγ

/-! ## Every step of an input list -/

section EveryStep

variable {α : Type uα} {I : List α → Prop} {G C : List α → α → Prop}

/-- `G` holds of each input together with the inputs that precede it. -/
def EveryStep (xs : List α) (G : List α → α → Prop) : Prop :=
  ∀ (before : List α) (x : α) (after : List α), xs = before ++ x :: after → G before x

theorem everyStep_nil : EveryStep [] G := by
  intro before x after hsplit
  simp at hsplit

/-- The steps of a list are the first one and, shifted behind it, those of the rest. -/
theorem everyStep_cons {x : α} {xs : List α} :
    EveryStep (x :: xs) G ↔ G [] x ∧ EveryStep xs fun before y => G (x :: before) y := by
  apply Iff.intro
  · intro hall
    refine ⟨hall [] x xs rfl, fun before y after hsplit => ?_⟩
    exact hall (x :: before) y after (congrArg (x :: ·) hsplit)
  · intro h before y after hsplit
    rcases h with ⟨hfirst, hrest⟩
    cases before with
    | nil =>
        obtain ⟨rfl, rfl⟩ := List.cons.inj hsplit
        exact hfirst
    | cons z before =>
        obtain ⟨rfl, rfl⟩ := List.cons.inj hsplit
        exact hrest before y after rfl

/-- The steps of a longer list are the earlier steps and the last one. -/
theorem everyStep_concat {xs : List α} {x : α} :
    EveryStep (xs ++ [x]) G ↔ EveryStep xs G ∧ G xs x := by
  apply Iff.intro
  · intro hall
    refine ⟨fun before y after hsplit => ?_, hall xs x [] rfl⟩
    exact hall before y (after ++ [x]) (by simp [hsplit])
  · intro h before y after hsplit
    rcases h with ⟨hall, hlast⟩
    rcases List.eq_nil_or_concat after with rfl | ⟨init, z, rfl⟩
    · obtain ⟨rfl, hy⟩ := List.append_inj' hsplit rfl
      obtain rfl : x = y := by simpa using hy
      exact hlast
    · have hsplit' : xs ++ [x] = (before ++ y :: init) ++ [z] := by
        simpa [List.append_assoc] using hsplit
      obtain ⟨rfl, -⟩ := List.append_inj' hsplit' rfl
      exact hall before y init rfl

/-- **A condition exact for one step is exact for a run.** If an invariant holds
at the start, `G` and `C` agree on every step taken from the invariant, and a
step that satisfies `G` keeps the invariant, then all steps satisfy `G` exactly
when all steps satisfy `C`. -/
theorem everyStep_iff_of_invariant (hinit : I [])
    (hexact : ∀ before x, I before → (G before x ↔ C before x))
    (hkeep : ∀ before x, I before → G before x → I (before ++ [x])) (xs : List α) :
    EveryStep xs G ↔ EveryStep xs C := by
  suffices hboth : (EveryStep xs G ↔ EveryStep xs C) ∧ (EveryStep xs G → I xs) from hboth.1
  induction xs using List.reverseRecOn with
  | nil => exact ⟨⟨fun _ => everyStep_nil, fun _ => everyStep_nil⟩, fun _ => hinit⟩
  | append_singleton xs x ih =>
      obtain ⟨hsteps, hinv⟩ := ih
      refine ⟨?_, fun hall => ?_⟩
      · rw [everyStep_concat, everyStep_concat]
        apply Iff.intro
        · intro h
          rcases h with ⟨hall, hlast⟩
          exact ⟨hsteps.mp hall, (hexact xs x (hinv hall)).mp hlast⟩
        · intro h
          rcases h with ⟨hall, hlast⟩
          have hall' := hsteps.mpr hall
          exact ⟨hall', (hexact xs x (hinv hall')).mpr hlast⟩
      · obtain ⟨hall', hlast⟩ := everyStep_concat.mp hall
        exact hkeep xs x (hinv hall') hlast

end EveryStep

/-! ## Machines, runs and reachable states -/

/-- A deterministic machine that answers every input with one output. -/
structure Transducer (σ : Type uσ) (α : Type uα) (β : Type uβ) where
  /-- The state of a fresh machine. -/
  init : σ
  /-- The answer to one input and the state after it. -/
  step : σ → α → β × σ

/-- What one step read, what it answered, and the states around it. -/
structure Record (σ : Type uσ) (α : Type uα) (β : Type uβ) where
  /-- The state before the step. -/
  pre : σ
  /-- The input of the step. -/
  input : α
  /-- The answer of the step. -/
  output : β
  /-- The state after the step. -/
  post : σ
  deriving DecidableEq

namespace Transducer

variable {σ : Type uσ} {α : Type uα} {β : Type uβ} (M : Transducer σ α β)

/-- The record of the step that reads `a` in state `s`. -/
def record (s : σ) (a : α) : Record σ α β :=
  { pre := s, input := a, output := (M.step s a).1, post := (M.step s a).2 }

/-- The state reached from `s` after a list of inputs. -/
def stateFrom (s : σ) : List α → σ
  | [] => s
  | a :: rest => stateFrom (M.step s a).2 rest

/-- The records of the run from `s` over a list of inputs. -/
def traceFrom (s : σ) : List α → List (Record σ α β)
  | [] => []
  | a :: rest => M.record s a :: traceFrom (M.step s a).2 rest

/-- The state of a fresh machine after a list of inputs. -/
def stateAfter (xs : List α) : σ := M.stateFrom M.init xs

/-- The records of a fresh machine's run. -/
def trace (xs : List α) : List (Record σ α β) := M.traceFrom M.init xs

/-- Some list of inputs takes a fresh machine to this state. -/
def Reachable (s : σ) : Prop := ∃ xs, M.stateAfter xs = s

@[simp]
theorem record_pre (s : σ) (a : α) : (M.record s a).pre = s := rfl

@[simp]
theorem record_post (s : σ) (a : α) : (M.record s a).post = (M.step s a).2 := rfl

@[simp]
theorem stateAfter_nil : M.stateAfter [] = M.init := rfl

theorem stateFrom_append (s : σ) (xs ys : List α) :
    M.stateFrom s (xs ++ ys) = M.stateFrom (M.stateFrom s xs) ys := by
  induction xs generalizing s with
  | nil => rfl
  | cons a rest ih => exact ih _

@[simp]
theorem stateAfter_concat (xs : List α) (a : α) :
    M.stateAfter (xs ++ [a]) = (M.step (M.stateAfter xs) a).2 :=
  M.stateFrom_append M.init xs [a]

theorem traceFrom_append (s : σ) (xs ys : List α) :
    M.traceFrom s (xs ++ ys) = M.traceFrom s xs ++ M.traceFrom (M.stateFrom s xs) ys := by
  induction xs generalizing s with
  | nil => rfl
  | cons a rest ih => exact congrArg (M.record s a :: ·) (ih _)

/-- A longer run adds the record of its last step. -/
@[simp]
theorem trace_concat (xs : List α) (a : α) :
    M.trace (xs ++ [a]) = M.trace xs ++ [M.record (M.stateAfter xs) a] :=
  M.traceFrom_append M.init xs [a]

theorem reachable_stateAfter (xs : List α) : M.Reachable (M.stateAfter xs) := ⟨xs, rfl⟩

/-- A step from a reachable state reaches a reachable state. -/
theorem Reachable.step {M : Transducer σ α β} {s : σ} (hreach : M.Reachable s) (a : α) :
    M.Reachable (M.step s a).2 := by
  rcases hreach with ⟨xs, rfl⟩
  exact ⟨xs ++ [a], M.stateAfter_concat xs a⟩

/-- The invariant rule: what the fresh state has and every step keeps holds at
every reachable state. -/
theorem Reachable.induct {M : Transducer σ α β} {P : σ → Prop} (hinit : P M.init)
    (hstep : ∀ s a, P s → P (M.step s a).2) {s : σ} (hreach : M.Reachable s) : P s := by
  rcases hreach with ⟨xs, rfl⟩
  induction xs using List.reverseRecOn with
  | nil => exact hinit
  | append_singleton xs a ih =>
      rw [stateAfter_concat]
      exact hstep _ a ih

/-- The records of a run are the steps taken after each of its prefixes. -/
theorem mem_traceFrom {s : σ} {xs : List α} {r : Record σ α β} :
    r ∈ M.traceFrom s xs ↔
      ∃ before a after, xs = before ++ a :: after ∧ r = M.record (M.stateFrom s before) a := by
  induction xs generalizing s with
  | nil => simp [traceFrom]
  | cons b rest ih =>
      simp only [traceFrom, List.mem_cons, ih]
      apply Iff.intro
      · intro h
        rcases h with rfl | ⟨before, a, after, rfl, rfl⟩
        · exact ⟨[], b, rest, rfl, rfl⟩
        · exact ⟨b :: before, a, after, rfl, rfl⟩
      · intro h
        rcases h with ⟨before, a, after, hsplit, rfl⟩
        cases before with
        | nil =>
            obtain ⟨rfl, rfl⟩ := List.cons.inj hsplit
            exact .inl rfl
        | cons c before =>
            obtain ⟨rfl, rfl⟩ := List.cons.inj hsplit
            exact .inr ⟨before, a, after, rfl, rfl⟩

/-- Every record of a fresh run starts at a reachable state. -/
theorem exists_record_of_mem_trace {xs : List α} {r : Record σ α β} (hmem : r ∈ M.trace xs) :
    ∃ s a, M.Reachable s ∧ r = M.record s a := by
  obtain ⟨before, a, after, -, rfl⟩ := (mem_traceFrom M).mp hmem
  exact ⟨_, a, M.reachable_stateAfter before, rfl⟩

/-! ## Observations carried by a simulation with silent steps -/

/-- **Simulation with silent steps.** `token` names the abstract input a concrete
one stands for, if any. When silent steps show nothing, the other steps show the
same on both sides, and both keep the relation, a whole concrete run shows what
the abstract run over its tokens shows. -/
theorem flatMap_traceFrom_eq_of_simulation {τ : Type uτ} {κ : Type uκ} {δ : Type uδ}
    {γ : Type uγ} (N : Transducer τ κ δ) (token : α → Option κ)
    (view : Record σ α β → List γ) (spec : Record τ κ δ → List γ)
    (rel : σ → τ → Prop) (admissible : α → Prop)
    (hsilent : ∀ s t a, rel s t → admissible a → token a = none →
      view (M.record s a) = [] ∧ rel (M.step s a).2 t)
    (hmove : ∀ s t a k, rel s t → admissible a → token a = some k →
      view (M.record s a) = spec (N.record t k) ∧ rel (M.step s a).2 (N.step t k).2)
    {s : σ} {t : τ} (hrel : rel s t) {xs : List α} (hxs : ∀ a ∈ xs, admissible a) :
    (M.traceFrom s xs).flatMap view = (N.traceFrom t (xs.filterMap token)).flatMap spec := by
  induction xs generalizing s t with
  | nil => rfl
  | cons a rest ih =>
      have hadm := hxs a List.mem_cons_self
      have hrest : ∀ b ∈ rest, admissible b := fun b hb => hxs b (List.mem_cons_of_mem a hb)
      cases htoken : token a with
      | none =>
          obtain ⟨hview, hnext⟩ := hsilent s t a hrel hadm htoken
          simp only [traceFrom, List.flatMap_cons, hview, List.nil_append,
            List.filterMap_cons_none htoken]
          exact ih hnext hrest
      | some k =>
          obtain ⟨hview, hnext⟩ := hmove s t a k hrel hadm htoken
          simp only [traceFrom, List.flatMap_cons, hview, List.filterMap_cons_some htoken,
            ih hnext hrest]

end Transducer

/-! ## Rising and falling edges of a Boolean observer -/

/-- A step can switch an observer on or off. -/
inductive Edge
  | rise
  | fall
  deriving DecidableEq

/-- The edge that follows this one, if any follows. -/
def Edge.other : Edge → Edge
  | .rise => .fall
  | .fall => .rise

/-- The edges alternate, the first one being `next`. -/
def Alternates : Edge → List Edge → Prop
  | _, [] => True
  | next, e :: rest => e = next ∧ Alternates next.other rest

namespace Transducer

variable {σ : Type uσ} {α : Type uα} {β : Type uβ} (M : Transducer σ α β)

/-- The edge of one step, when the observer changes across it. -/
def edge (p : σ → Bool) (r : Record σ α β) : Option Edge :=
  match p r.pre, p r.post with
  | false, true => some .rise
  | true, false => some .fall
  | _, _ => none

theorem edge_eq_rise_iff {p : σ → Bool} {r : Record σ α β} :
    edge p r = some .rise ↔ p r.pre = false ∧ p r.post = true := by
  cases hpre : p r.pre <;> cases hpost : p r.post <;> simp [edge, hpre, hpost]

/-- The edges of a run, in order. -/
def edges (p : σ → Bool) (records : List (Record σ α β)) : List Edge :=
  records.filterMap (edge p)

/-- The edge an observer can make next. -/
def nextEdge (on : Bool) : Edge := if on then .fall else .rise

/-- Rises and falls alternate in every run, beginning with the one the first
state leaves open. -/
theorem edges_alternate (p : σ → Bool) (s : σ) (xs : List α) :
    Alternates (nextEdge (p s)) (edges p (M.traceFrom s xs)) := by
  induction xs generalizing s with
  | nil => exact trivial
  | cons a rest ih =>
      have hrest := ih (M.step s a).2
      cases hpre : p s <;> cases hpost : p (M.step s a).2 <;>
        simpa [traceFrom, edges, edge, hpre, hpost, nextEdge, Alternates, Edge.other] using hrest

/-- Rises and falls balance up to the observer's value at the two ends. -/
theorem count_edges (p : σ → Bool) (s : σ) (xs : List α) :
    (edges p (M.traceFrom s xs)).count .rise + (p s).toNat =
      (edges p (M.traceFrom s xs)).count .fall + (p (M.stateFrom s xs)).toNat := by
  induction xs generalizing s with
  | nil => rfl
  | cons a rest ih =>
      have hrest := ih (M.step s a).2
      simp only [edges] at hrest
      cases hpre : p s <;> cases hpost : p (M.step s a).2 <;>
        simp [traceFrom, stateFrom, edges, edge, hpre, hpost] at hrest ⊢ <;> omega

/-- **What is on was switched on.** If the observer is on after a run that started
with it off, some step switched it on and it stayed on since; what a step with the
observer on at both ends keeps is as that step left it. -/
theorem exists_rise {γ : Type uγ} (p : σ → Bool) (f : σ → γ) (hinit : p M.init = false)
    (hkeep : ∀ s a, M.Reachable s → p s = true → p (M.step s a).2 = true →
      f (M.step s a).2 = f s)
    {xs : List α} (hon : p (M.stateAfter xs) = true) :
    ∃ earlier opening between, M.trace xs = earlier ++ opening :: between ∧
      edge p opening = some .rise ∧ (∀ r ∈ between, p r.pre = true ∧ p r.post = true) ∧
      f opening.post = f (M.stateAfter xs) := by
  induction xs using List.reverseRecOn with
  | nil =>
      rw [stateAfter_nil, hinit] at hon
      cases hon
  | append_singleton xs a ih =>
      rw [stateAfter_concat] at hon ⊢
      rw [trace_concat]
      cases hbefore : p (M.stateAfter xs) with
      | false =>
          refine ⟨M.trace xs, M.record (M.stateAfter xs) a, [], rfl, ?_, by simp, rfl⟩
          simp [edge, hbefore, hon]
      | true =>
          obtain ⟨earlier, opening, between, htrace, hrise, hbetween, hsame⟩ := ih hbefore
          refine ⟨earlier, opening, between ++ [M.record (M.stateAfter xs) a], ?_, hrise, ?_, ?_⟩
          · simp [htrace]
          · intro r hr
            rcases List.mem_append.mp hr with hr | hr
            · exact hbetween r hr
            · obtain rfl := List.mem_singleton.mp hr
              exact ⟨hbefore, hon⟩
          · rw [hsame, hkeep _ a (M.reachable_stateAfter xs) hbefore hon]

end Transducer

end SilentCompose.Foundations
