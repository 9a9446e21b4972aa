/-
# What one segment of the input context does

A function of the context asks at most once before it returns, `dispose` twice. The
first segment of each function and all later ones are listed by two relations, which
later arguments split on instead of unfolding the functions. Between two segments a
context either has its delegate with all handlers connected, or neither.
-/

import SilentCompose.Im.Context

namespace SilentCompose.Im

open SilentCompose.Foundations SilentCompose.Toolkit

/-! ## The two properties -/

/-- The properties the context caches. -/
inductive Property
  | inputPurpose
  | inputHints
  deriving DecidableEq

namespace Property

/-- The property behind an identifier. -/
def ofId (propId : Guint) : Option Property :=
  if propId = propInputPurpose then some .inputPurpose
  else if propId = propInputHints then some .inputHints
  else none

/-- The cached value. -/
def value (property : Property) (state : ContextState) : Guint :=
  match property with
  | .inputPurpose => state.self.inputPurpose
  | .inputHints => state.self.inputHints

/-- Cache a value. -/
def set (property : Property) (value : Guint) (state : ContextState) : ContextState :=
  match property with
  | .inputPurpose => { state with self := { state.self with inputPurpose := value } }
  | .inputHints => { state with self := { state.self with inputHints := value } }

/-- The call that pushes a value to the delegate. -/
def push (property : Property) (value : Guint) : ImContextCall :=
  match property with
  | .inputPurpose => .setInputPurpose value
  | .inputHints => .setInputHints value

@[simp]
theorem set_delegate (property : Property) (v : Guint) (state : ContextState) :
    (property.set v state).self.delegate = state.self.delegate := by
  cases property <;> rfl

@[simp]
theorem set_connected (property : Property) (v : Guint) (state : ContextState) :
    (property.set v state).connected = state.connected := by
  cases property <;> rfl

@[simp]
theorem value_set (property : Property) (v : Guint) (state : ContextState) :
    property.value (property.set v state) = v := by
  cases property <;> rfl

/-- The two properties are cached apart. -/
theorem value_set_of_ne {property other : Property} (h : other ≠ property) (v : Guint)
    (state : ContextState) : other.value (property.set v state) = other.value state := by
  cases property <;> cases other <;> first | rfl | exact absurd rfl h

end Property

/-! ## What is passed on -/

/-- The call on the delegate that a call is passed on as, and what is returned for its
answer. -/
def passedOn : (call : ContextCall) → Option ((c : ImContextCall) × (c.Answer → call.Answer))
  | .setClientWidget widget => some ⟨.setClientWidget widget, id⟩
  | .filterKeypress event => some ⟨.filterKeypress event, id⟩
  | .focusIn => some ⟨.focusIn, id⟩
  | .focusOut => some ⟨.focusOut, id⟩
  | .reset => some ⟨.reset, id⟩
  | .setCursorLocation area => some ⟨.setCursorLocation area, id⟩
  | .setUsePreedit _ => some ⟨.setUsePreedit false, id⟩
  | .setSurrounding text len cursor =>
    some ⟨.setSurroundingWithSelection text len cursor cursor, id⟩
  | .getSurrounding =>
    some ⟨.getSurroundingWithSelection,
      Option.map fun found : Surrounding => (found.text, found.cursor)⟩
  | .setSurroundingWithSelection text len cursor anchor =>
    some ⟨.setSurroundingWithSelection text len cursor anchor, id⟩
  | .getSurroundingWithSelection => some ⟨.getSurroundingWithSelection, id⟩
  | .activateOsk => some ⟨.activateOsk 0, fun _ => ()⟩
  | .activateOskWithEvent event => some ⟨.activateOsk event, id⟩
  | .setProperty .. | .getProperty _ | .dispose | .getPreeditString .. | .invalidComposition _
  | .delegateSignal _ => none

/-- The delegate's signals that reach the application: those connected, but for the ones
that announce temporary text and for one that the application does not know. -/
def reachesClient (features : GtkFeatures) (state : ContextState) (signal : ImSignal) : Bool :=
  decide (signal.name ∈ state.connected) && !signal.isPreedit &&
    (decide (signal.name ≠ .invalidComposition) || features.contextHasInvalidComposition)

/-- The handlers of a context that has its delegate. -/
def handlers (features : GtkFeatures) : List SignalName :=
  [.commit, .retrieveSurrounding, .deleteSurrounding] ++
    (if features.delegateHasInvalidComposition then [.invalidComposition] else []) ++
    [.preeditStart, .preeditChanged, .preeditEnd]

/-- A context has its delegate with all handlers connected to it, or neither. -/
def Wired (features : GtkFeatures) (object : Pointer) (state : ContextState) : Prop :=
  (state.self.delegate = some object ∧ state.connected = handlers features) ∨
    (state.self.delegate = none ∧ state.connected = [])

/-- A context without its delegate. -/
def ContextState.released (state : ContextState) : ContextState :=
  { state with self := { state.self with delegate := none }, connected := [] }

theorem wired_released (features : GtkFeatures) (object : Pointer) (state : ContextState) :
    Wired features object state.released := .inr ⟨rfl, rfl⟩

theorem Wired.set {features : GtkFeatures} {object : Pointer} {state : ContextState}
    (hwired : Wired features object state) (property : Property) (v : Guint) :
    Wired features object (property.set v state) := by
  simpa [Wired] using hwired

theorem Wired.connected_of_some {features : GtkFeatures} {object delegate : Pointer}
    {state : ContextState} (hwired : Wired features object state)
    (hdelegate : state.self.delegate = some delegate) : state.connected = handlers features := by
  rcases hwired with ⟨-, hconnected⟩ | ⟨hnone, -⟩
  · exact hconnected
  · rw [hnone] at hdelegate
    cases hdelegate

theorem Wired.connected_of_none {features : GtkFeatures} {object : Pointer}
    {state : ContextState} (hwired : Wired features object state)
    (hdelegate : state.self.delegate = none) : state.connected = [] := by
  rcases hwired with ⟨hsome, -⟩ | ⟨-, hconnected⟩
  · rw [hsome] at hdelegate
    cases hdelegate
  · exact hconnected

/-! ## Segments -/

/-- The first segment of a function: the state it is called in, why it stops, and the
state it leaves. -/
inductive FirstSegment (features : GtkFeatures) :
    (call : ContextCall) → ContextState → Halt required call.Answer → ContextState → Prop
  | passedOn {call : ContextCall} {state : ContextState} {object : Pointer} {c : ImContextCall}
      {reply : c.Answer → call.Answer} (hcall : passedOn call = some ⟨c, reply⟩)
      (hdelegate : state.self.delegate = some object) :
      FirstSegment features call state (.asked (.delegate object c)) state
  | refused {call : ContextCall} {state : ContextState} {c : ImContextCall}
      {reply : c.Answer → call.Answer} (hcall : Im.passedOn call = some ⟨c, reply⟩)
      (hdelegate : state.self.delegate = none) :
      FirstSegment features call state (.returned (reply c.refused)) state
  | pushed {propId value : Guint} {state : ContextState} {object : Pointer} {property : Property}
      (hproperty : Property.ofId propId = some property)
      (hdelegate : state.self.delegate = some object) :
      FirstSegment features (.setProperty propId value) state
        (.asked (.delegate object (property.push value))) (property.set value state)
  | cached {propId value : Guint} {state : ContextState} {property : Property}
      (hproperty : Property.ofId propId = some property)
      (hdelegate : state.self.delegate = none) :
      FirstSegment features (.setProperty propId value) state (.returned ())
        (property.set value state)
  | unknownProperty {propId value : Guint} {state : ContextState}
      (hproperty : Property.ofId propId = none) :
      FirstSegment features (.setProperty propId value) state (.returned ()) state
  | reported {propId : Guint} {state : ContextState} :
      FirstSegment features (.getProperty propId) state
        (.returned ((Property.ofId propId).map fun property => property.value state)) state
  | disposed {state : ContextState} {object : Pointer}
      (hdelegate : state.self.delegate = some object) :
      FirstSegment features .dispose state (.asked (.delegate object .unref)) state.released
  | disposedAgain {state : ContextState} (hdelegate : state.self.delegate = none) :
      FirstSegment features .dispose state (.asked .parentDispose) state
  | emptyPreedit {str attrs cursor : Bool} {state : ContextState} :
      FirstSegment features (.getPreeditString str attrs cursor) state
        (.returned ⟨if str then some (.ofText []) else none, if attrs then some [] else none,
          if cursor then some 0 else none⟩) state
  | defaultHandler {str : CString} {state : ContextState}
      (hparent : features.parentHandlesInvalidComposition = true) :
      FirstSegment features (.invalidComposition str) state
        (.asked (.parentInvalidComposition str)) state
  | noDefaultHandler {str : CString} {state : ContextState}
      (hparent : features.parentHandlesInvalidComposition = false) :
      FirstSegment features (.invalidComposition str) state (.returned false) state
  | emitted {signal : ImSignal} {state : ContextState}
      (hreaches : reachesClient features state signal = true) :
      FirstSegment features (.delegateSignal signal) state (.asked (.emit signal)) state
  | swallowed {signal : ImSignal} {state : ContextState}
      (hreaches : reachesClient features state signal = false) :
      FirstSegment features (.delegateSignal signal) state (.returned signal.unhandled) state

/-- A later segment returns, or chains up to the parent class while disposing. The
preedit string is reported without asking anyone. -/
inductive LaterSegment :
    (call : ContextCall) → ContextState → Halt required call.Answer → ContextState → Prop
  | returned {call : ContextCall} {state : ContextState} {result : call.Answer}
      (hasked : ∀ str attrs cursor, call ≠ .getPreeditString str attrs cursor) :
      LaterSegment call state (.returned result) state
  | chainedUp {state : ContextState} : LaterSegment .dispose state (.asked .parentDispose) state

/-- Nothing is written once a function was answered. -/
theorem LaterSegment.state_eq {call : ContextCall} {state state' : ContextState}
    {halt : Halt required call.Answer} (hlater : LaterSegment call state halt state') :
    state' = state := by
  cases hlater with
  | returned hasked => rfl
  | chainedUp => rfl

/-! ## The functions follow them -/

section Follows

variable {features : GtkFeatures} {object : Pointer} {state : ContextState}

/-- A call that is passed on asks the delegate and returns what its answer becomes. -/
theorem scImContextClass_of_passedOn {call : ContextCall} {c : ImContextCall}
    {reply : c.Answer → call.Answer} (hcall : passedOn call = some ⟨c, reply⟩) :
    scImContextClass features call = (callDelegate c >>= fun a => .done (reply a)) := by
  cases call <;> cases hcall <;> first | rfl | exact (Program.bind_done _).symm

/-- A program that starts with a call on the delegate. -/
theorem callDelegate_bind_follows {ρ : Type} {I : ContextState → Prop} {c : ImContextCall}
    {now later : ContextState → Halt required ρ → ContextState → Prop} {start : ContextState}
    {k : c.Answer → ContextProgram ρ}
    (hsome : ∀ object, state.self.delegate = some object →
      (I state ∧ now start (.asked (.delegate object c)) state) ∧
        ∀ a s, I s → (k a).Follows I later later s s)
    (hnone : state.self.delegate = none → (k c.refused).Follows I later now start state) :
    (callDelegate c >>= k).Follows I later now start state := by
  simp only [callDelegate, Program.get_bind, Program.read_bind, Program.Follows]
  cases hdelegate : state.self.delegate with
  | none => exact hnone hdelegate
  | some object => exact hsome object hdelegate

/-- A function that is passed on. -/
theorem passedOn_follows {call : ContextCall} {c : ImContextCall}
    {reply : c.Answer → call.Answer} (hcall : passedOn call = some ⟨c, reply⟩)
    (hwired : Wired features object state) :
    (scImContextClass features call).Follows (Wired features object) (LaterSegment call)
      (FirstSegment features call) state state := by
  rw [scImContextClass_of_passedOn hcall]
  have hasked : ∀ str attrs cursor, call ≠ .getPreeditString str attrs cursor := by
    rintro str attrs cursor rfl
    cases hcall
  apply callDelegate_bind_follows
  · intro object hdelegate
    exact ⟨⟨hwired, .passedOn hcall hdelegate⟩, fun a s hs => ⟨hs, .returned hasked⟩⟩
  · intro hdelegate
    exact ⟨hwired, .refused hcall hdelegate⟩

/-- Setting a property caches the value and pushes it. -/
theorem setProperty_eq (propId value : Guint) :
    setProperty propId value =
      match Property.ofId propId with
      | some property =>
        .update (property.set value) (callDelegate (property.push value) >>= fun _ => .done ())
      | none => .done () := by
  by_cases hpurpose : propId = propInputPurpose
  · simp only [setProperty, Property.ofId, if_pos hpurpose]
    exact congrArg (Program.update _) (Program.bind_done _).symm
  · by_cases hhints : propId = propInputHints
    · simp only [setProperty, Property.ofId, if_neg hpurpose, if_pos hhints]
      exact congrArg (Program.update _) (Program.bind_done _).symm
    · simp only [setProperty, Property.ofId, if_neg hpurpose, if_neg hhints, Program.pure_eq]

theorem setProperty_follows (propId value : Guint) (hwired : Wired features object state) :
    (setProperty propId value).Follows (Wired features object)
      (LaterSegment (.setProperty propId value))
      (FirstSegment features (.setProperty propId value)) state state := by
  rw [setProperty_eq]
  cases hproperty : Property.ofId propId with
  | none => exact ⟨hwired, .unknownProperty hproperty⟩
  | some property =>
      apply callDelegate_bind_follows
      · intro object hdelegate
        rw [Property.set_delegate] at hdelegate
        exact ⟨⟨hwired.set property value, .pushed hproperty hdelegate⟩,
          fun a s hs => ⟨hs, .returned (by simp)⟩⟩
      · intro hdelegate
        rw [Property.set_delegate] at hdelegate
        exact ⟨hwired.set property value, .cached hproperty hdelegate⟩

/-- Getting a property reports the cached value. -/
theorem getProperty_eq (propId : Guint) :
    getProperty propId = .read fun s =>
      .done ((Property.ofId propId).map fun property => property.value s) := by
  refine congrArg Program.read (funext fun s => ?_)
  simp only [Property.ofId]
  split_ifs <;> rfl

theorem getProperty_follows (propId : Guint) (hwired : Wired features object state) :
    (getProperty propId).Follows (Wired features object) (LaterSegment (.getProperty propId))
      (FirstSegment features (.getProperty propId)) state state := by
  rw [getProperty_eq]
  exact ⟨hwired, .reported⟩

theorem dispose_follows (hwired : Wired features object state) :
    dispose.Follows (Wired features object) (LaterSegment .dispose)
      (FirstSegment features .dispose) state state := by
  simp only [dispose, Program.get_bind, Program.Follows]
  cases hdelegate : state.self.delegate with
  | none => exact ⟨⟨hwired, .disposedAgain hdelegate⟩, fun a s hs => ⟨hs, .returned (by simp)⟩⟩
  | some object =>
      exact ⟨⟨wired_released features _ state, .disposed hdelegate⟩,
        fun a s hs => ⟨⟨hs, .chainedUp⟩, fun a s hs => ⟨hs, .returned (by simp)⟩⟩⟩

theorem invalidComposition_follows (str : CString) (hwired : Wired features object state) :
    (invalidComposition features str).Follows (Wired features object)
      (LaterSegment (.invalidComposition str))
      (FirstSegment features (.invalidComposition str)) state state := by
  rw [invalidComposition]
  cases hparent : features.parentHandlesInvalidComposition with
  | true => exact ⟨⟨hwired, .defaultHandler hparent⟩, fun a s hs => ⟨hs, .returned (by simp)⟩⟩
  | false => exact ⟨hwired, .noDefaultHandler hparent⟩

/-- The handler of a signal emits it, or swallows it. -/
theorem delegateCb_eq (signal : ImSignal) :
    delegateCb features signal =
      if !signal.isPreedit &&
          (decide (signal.name ≠ .invalidComposition) || features.contextHasInvalidComposition)
      then emit signal else .done signal.unhandled := by
  cases signal with
  | invalidComposition str =>
      cases hexists : features.contextHasInvalidComposition with
      | true => simp [delegateCb, delegateInvalidCompositionCb, ImSignal.isPreedit, hexists]
      | false =>
          simp [delegateCb, delegateInvalidCompositionCb, ImSignal.isPreedit, ImSignal.name,
            ImSignal.unhandled, hexists]
  | _ => rfl

theorem delegateSignal_eq (signal : ImSignal) :
    delegateSignal features signal = .read fun s =>
      if reachesClient features s signal then emit signal else .done signal.unhandled := by
  refine congrArg Program.read (funext fun s => ?_)
  change (if signal.name ∈ s.connected then delegateCb features signal
    else .done signal.unhandled) = _
  by_cases hconnected : signal.name ∈ s.connected
  · simp [reachesClient, hconnected, delegateCb_eq]
  · simp [reachesClient, hconnected]

theorem delegateSignal_follows (signal : ImSignal) (hwired : Wired features object state) :
    (delegateSignal features signal).Follows (Wired features object)
      (LaterSegment (.delegateSignal signal))
      (FirstSegment features (.delegateSignal signal)) state state := by
  rw [delegateSignal_eq]
  simp only [Program.Follows]
  cases hreaches : reachesClient features state signal with
  | true => exact ⟨⟨hwired, .emitted hreaches⟩, fun a s hs => ⟨hs, .returned (by simp)⟩⟩
  | false => exact ⟨hwired, .swallowed hreaches⟩

/-- **Every function of the context follows the listed segments**, and keeps its delegate
and its handlers together. -/
theorem scImContextClass_follows (call : ContextCall) (hwired : Wired features object state) :
    (scImContextClass features call).Follows (Wired features object) (LaterSegment call)
      (FirstSegment features call) state state := by
  cases hcall : passedOn call with
  | some forwarding => exact passedOn_follows hcall hwired
  | none =>
      cases call with
      | setProperty propId value => exact setProperty_follows propId value hwired
      | getProperty propId => exact getProperty_follows propId hwired
      | dispose => exact dispose_follows hwired
      | getPreeditString str attrs cursor => exact ⟨hwired, .emptyPreedit⟩
      | invalidComposition str => exact invalidComposition_follows str hwired
      | delegateSignal signal => exact delegateSignal_follows signal hwired
      | _ => cases hcall

end Follows

section Runs

variable (features : GtkFeatures) (object : Pointer)

/-! ## Runs of a context -/

/-- The steps of a context. -/
abbrev contextMachine : Transducer (Config ContextState provided required)
    (Input provided required) (Output provided required) :=
  (context features object).machine

/-- What creation asks for, and the state it leaves. -/
theorem creation_eq :
    creation features object =
      ([.newDelegate, .delegate object (.setInputPurpose gtkInputPurposeFreeForm),
          .delegate object (.setInputHints gtkInputHintNone),
          .delegate object (.setUsePreedit false)], (),
        { self :=
            { delegate := some object, inputPurpose := gtkInputPurposeFreeForm
              inputHints := gtkInputHintNone }
          connected := handlers features }) := by
  rcases features with ⟨delegateHas, contextHas, parentHandles⟩
  cases delegateHas <;> rfl

theorem wired_init : Wired features object (context features object).init := by
  rw [context, creation_eq]
  exact .inl ⟨rfl, rfl⟩

/-- A configuration whose suspended functions go on as listed. -/
def ContextSound (config : Config ContextState provided required) : Prop :=
  Component.Sound (Wired features object) LaterSegment config

theorem contextSound_init : ContextSound features object (contextMachine features object).init :=
  ⟨wired_init features object, by simp [Component.machine]⟩

/-- Every step from such a configuration is a listed segment and leads to another. -/
theorem context_step {config : Config ContextState provided required}
    (hsound : ContextSound features object config) (input : Input provided required) :
    Component.Segment (FirstSegment features) LaterSegment config input
        ((contextMachine features object).step config input).1
        ((contextMachine features object).step config input).2 ∧
      ContextSound features object ((contextMachine features object).step config input).2 :=
  (context features object).segment_step (fun call _ hs => scImContextClass_follows call hs)
    hsound input

/-- Every record of a run is a listed segment. -/
theorem context_segment {inputs : List (Input provided required)}
    {r : Record (Config ContextState provided required) (Input provided required)
      (Output provided required)}
    (hmem : r ∈ (contextMachine features object).trace inputs) :
    Component.Segment (FirstSegment features) LaterSegment r.pre r.input r.output r.post :=
  ((context features object).segment_of_mem_trace (wired_init features object)
    (fun call _ hs => scImContextClass_follows call hs) hmem).1

end Runs

end SilentCompose.Im
