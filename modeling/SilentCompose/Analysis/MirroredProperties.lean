/-
# The input context mirrors its properties

The context caches two properties and pushes them to its delegate. A property reads as it
was last set, and until disposal the delegate was last pushed the very same value.
-/

import SilentCompose.Analysis.Relaying

namespace SilentCompose.Analysis

open SilentCompose.Foundations SilentCompose.Toolkit SilentCompose.Im

section MirroredProperties

variable {features : GtkFeatures} (object : Pointer)

/-! ## Properties -/

/-- The value an input sets a property to, if it does. -/
def settingOf (property : Property) : Input provided required → Option Guint
  | .call (.setProperty propId value) =>
    if Property.ofId propId = some property then some value else none
  | _ => none

theorem settingOf_of_passedOn {property : Property} {call : ContextCall}
    {forwarding : (c : ImContextCall) × (c.Answer → call.Answer)}
    (hpassed : passedOn call = some forwarding) : settingOf property (.call call) = none := by
  cases call <;> first | rfl | cases hpassed

/-- Setting a property to a value caches that value, and leaves the other property alone. -/
theorem settingOf_set {property written : Property} {propId value : Guint}
    (hproperty : Property.ofId propId = some written) (state : ContextState) :
    (settingOf property (.call (.setProperty propId value)) = none ∧
        property.value (written.set value state) = property.value state) ∨
      settingOf property (.call (.setProperty propId value)) =
        some (property.value (written.set value state)) := by
  by_cases hsame : written = property
  · subst hsame
    exact .inr (by simp [settingOf, hproperty])
  · refine .inl ⟨by simp [settingOf, hproperty, hsame], ?_⟩
    exact Property.value_set_of_ne (Ne.symm hsame) value state

/-- A first segment caches the value its call sets a property to, and keeps it otherwise. -/
theorem settingOf_first {property : Property} {call : ContextCall} {state state' : ContextState}
    {halt : Halt required call.Answer} (hfirst : FirstSegment features call state halt state') :
    (settingOf property (.call call) = none ∧ property.value state' = property.value state) ∨
      settingOf property (.call call) = some (property.value state') := by
  cases hfirst with
  | passedOn hpassed hsome => exact .inl ⟨settingOf_of_passedOn hpassed, rfl⟩
  | refused hpassed hnone => exact .inl ⟨settingOf_of_passedOn hpassed, rfl⟩
  | pushed hproperty hsome => exact settingOf_set hproperty state
  | cached hproperty hnone => exact settingOf_set hproperty state
  | unknownProperty hproperty => exact .inl ⟨by simp [settingOf, hproperty], rfl⟩
  | reported => exact .inl ⟨rfl, rfl⟩
  | disposed hsome => exact .inl ⟨rfl, by cases property <;> rfl⟩
  | disposedAgain hnone => exact .inl ⟨rfl, rfl⟩
  | emptyPreedit => exact .inl ⟨rfl, rfl⟩
  | defaultHandler hparent => exact .inl ⟨rfl, rfl⟩
  | noDefaultHandler hparent => exact .inl ⟨rfl, rfl⟩
  | emitted hemitted => exact .inl ⟨rfl, rfl⟩
  | swallowed hswallowed => exact .inl ⟨rfl, rfl⟩

theorem settingOf_segment {property : Property} {pre post : Config ContextState provided required}
    {input : Input provided required} {output : Output provided required}
    (hsegment : Component.Segment (FirstSegment features) LaterSegment pre input output post) :
    (settingOf property input = none ∧ property.value post.state = property.value pre.state) ∨
      settingOf property input = some (property.value post.state) := by
  cases hsegment with
  | started hfirst => exact settingOf_first hfirst
  | resumed hstack hlater => exact .inl ⟨rfl, congrArg property.value hlater.state_eq⟩
  | ignored => exact .inl ⟨rfl, rfl⟩

variable (features)

/-- The cached value after a run is the last one the inputs set. -/
theorem value_stateAfter (property : Property) (inputs : List (Input provided required)) :
    property.value ((contextMachine features object).stateAfter inputs).state =
      ((inputs.filterMap (settingOf property)).getLast?).getD 0 := by
  have hfirst : property.value (contextMachine features object).init.state = 0 := by
    change property.value (context features object).init = 0
    rw [context, creation_eq]
    cases property <;> rfl
  have hstep : ∀ r ∈ (contextMachine features object).trace inputs,
      (settingOf property r.input = none ∧
          property.value r.post.state = property.value r.pre.state) ∨
        settingOf property r.input = some (property.value r.post.state) :=
    fun r hmem => settingOf_segment (context_segment features object hmem)
  have hlast := (contextMachine features object).getLast?_filterMap_traceFrom
    (fun config => property.value config.state) (fun r => settingOf property r.input) hstep
  rw [Transducer.filterMap_input_traceFrom, hfirst] at hlast
  exact hlast.symm

/-- **A property reads as it was last set**, whatever else happened in between, whether
or not the context was disposed of and whatever is still suspended. -/
theorem getProperty_eq_last (inputs : List (Input provided required)) (propId : Guint) :
    ((contextMachine features object).step ((contextMachine features object).stateAfter inputs)
        (.call (.getProperty propId))).1 =
      .returned (.getProperty propId) ((Property.ofId propId).map fun property =>
        ((inputs.filterMap (settingOf property)).getLast?).getD 0) := by
  simp only [← value_stateAfter features object, Component.machine_step_call]
  change (Component.settle (O := provided) (ContextCall.getProperty propId) _
    ((getProperty propId).run _)).1 = _
  rw [getProperty_eq]
  rfl

/-! ## The delegate mirrors the properties -/

/-- The value a request pushes to a property of the delegate, if it does. -/
def pushOf (property : Property) : ContextRequest → Option Guint
  | .delegate _ (.setInputPurpose value) =>
    if property = .inputPurpose then some value else none
  | .delegate _ (.setInputHints value) => if property = .inputHints then some value else none
  | _ => none

theorem pushOf_push (property written : Property) (value : Guint) :
    pushOf property (.delegate object (written.push value)) =
      if written = property then some value else none := by
  cases property <;> cases written <;> rfl

/-- No call that is passed on pushes a property. -/
theorem pushOf_of_passedOn {property : Property} {call : ContextCall} {c : ImContextCall}
    {reply : c.Answer → call.Answer} (hpassed : passedOn call = some ⟨c, reply⟩) :
    pushOf property (.delegate object c) = none := by
  cases call <;> cases hpassed <;> rfl

/-- What an input asks for pushes a property exactly when the input sets it. -/
theorem filterMap_pushOf_relayed (property : Property) (input : Input provided required) :
    (relayed features object input).filterMap (pushOf property) =
      (settingOf property input).toList := by
  cases input with
  | answer request a => rfl
  | call call =>
      cases hpassed : passedOn call with
      | some forwarding =>
          simp [relayed, hpassed, pushOf_of_passedOn object hpassed,
            settingOf_of_passedOn hpassed]
      | none =>
          cases call with
          | setProperty propId value =>
              cases hproperty : Property.ofId propId with
              | none => simp [relayed, passedOn, settingOf, hproperty]
              | some written =>
                  by_cases hsame : written = property <;>
                    simp [relayed, passedOn, settingOf, hproperty, pushOf_push, hsame]
          | delegateSignal signal =>
              cases hforwarded : isForwarded features signal <;>
                simp [relayed, passedOn, settingOf, hforwarded, pushOf]
          | _ => rfl

/-- **The delegate mirrors the properties.** The last value that was pushed to the
delegate, from its creation on, is the one the context caches now, or cached when it was
disposed of. -/
theorem delegate_mirrors_property (property : Property)
    (inputs : List (Input provided required)) :
    (((creation features object).1 ++
        ((contextMachine features object).trace inputs).flatMap fun r => outward r.output).filterMap
          (pushOf property)).getLast? =
      some (property.value ((contextMachine features object).stateAfter
        (inputs.takeWhile fun input => !disposes input)).state) := by
  have hcreation : (creation features object).1.filterMap (pushOf property) = [0] := by
    rw [creation_eq]
    cases property <;> rfl
  have hrelease : (if inputs.any disposes then [ContextRequest.delegate object .unref]
      else []).filterMap (pushOf property) = [] := by
    split_ifs <;> rfl
  have hpushed : ∀ calls : List (Input provided required),
      (calls.flatMap (relayed features object)).filterMap (pushOf property) =
        calls.filterMap (settingOf property) := by
    intro calls
    simp only [List.filterMap_flatMap, filterMap_pushOf_relayed,
      List.filterMap_eq_flatMap_toList (settingOf property)]
  rw [requests_eq, value_stateAfter, List.filterMap_append, List.filterMap_append, hcreation,
    hrelease, hpushed, List.append_nil]
  exact List.getLast?_cons

end MirroredProperties

end SilentCompose.Analysis
