import Labyrinth.Machine.Execute
import Labyrinth.Proofs.Machine.Operations
import Labyrinth.Proofs.Machine.Shape

/-!
# States that fit a layout

A state **fits** a shape if it keeps what the shape promises of the innermost call. Below that
call every caller has to fit as well, namely the shape at the position to which the call above
it returns, once the result has been pushed.

`Safe` says of an action that it does not fail for want of operands in any state of a kind, and
what it leaves behind if it succeeds. There is a rule for every action of the machine.

## Main results

* `Fits.change_globals`: the callers do not mind what is assigned at the top level.
* `safe_enter`, `safe_leave`: calls and returns.
-/

namespace Labyrinth

/-- A scope keeps what a shape promises. -/
structure Scope.Fits (scope : Scope) (s : Shape) : Prop where
  iterators : scope.iterators.length = s.iterators
  bound : ∀ x ∈ s.bound, ∃ b, scope.lookup? x = some b

/-- A scope with the same iterators as another one, in which no fewer names are bound. -/
structure Scope.Extends (scope other : Scope) : Prop where
  iterators : scope.iterators = other.iterators
  bound : ∀ x b, other.lookup? x = some b → ∃ c, scope.lookup? x = some c

theorem Scope.Fits.of_extends {scope other : Scope} {s : Shape} (h : other.Fits s)
    (he : scope.Extends other) : scope.Fits s := by
  refine ⟨he.iterators ▸ h.iterators, fun x hx => ?_⟩
  obtain ⟨b, hb⟩ := h.bound x hx
  exact he.bound x b hb

theorem Scope.Fits.of_refines {scope : Scope} {s t : Shape} (h : scope.Fits s)
    (hs : s.Refines t) : scope.Fits t :=
  ⟨h.iterators.trans hs.iterators, fun x hx => h.bound x (hs.bound hx)⟩

theorem Scope.extends_bind (scope : Scope) (x : String) (b : Binding) :
    (scope.bind x b).Extends scope := by
  refine ⟨rfl, fun y c hc => ?_⟩
  rw [Scope.lookup?_bind]
  split
  · exact ⟨b, rfl⟩
  · exact ⟨c, hc⟩

theorem Scope.Fits.bind {scope : Scope} {s : Shape} (h : scope.Fits s) (x : String) (b : Binding) :
    (scope.bind x b).Fits (s.bind [x]) := by
  refine ⟨h.iterators, fun y hy => ?_⟩
  rw [Scope.lookup?_bind]
  rcases Braced.mem_bindNames.1 hy with hy | hy
  · exact ⟨b, by simp [List.mem_singleton.1 hy]⟩
  · obtain ⟨c, hc⟩ := h.bound y hy
    split
    · exact ⟨b, rfl⟩
    · exact ⟨c, hc⟩

theorem Scope.bindParams_fits {scope : Scope} {s : Shape} {params : List String}
    {args : List Value} (h : scope.Fits s) (hlength : args.length = params.length) :
    (scope.bindParams params args).Fits (s.bind params) := by
  induction params generalizing scope s args with
  | nil => exact h
  | cons p ps ih =>
    cases args with
    | nil => cases hlength
    | cons v vs => exact ih (h.bind p ⟨v, false⟩) (Nat.succ.inj hlength)

/-! ### Calls in progress -/

/-- The calls in progress, the innermost one first. -/
def State.frames (st : State) : List Frame := st.calls.toList.reverse

/-- The scope of the innermost one of several calls. -/
def scopeOf (globals : Scope) : List Frame → Scope
  | [] => globals
  | frame :: _ => frame.scope

/-- Where the operands of the innermost one of several calls begin. -/
def baseOf : List Frame → Nat
  | [] => 0
  | frame :: _ => frame.base

/-- The frame with its scope changed. -/
def Frame.change (f : Scope → Scope) (frame : Frame) : Frame :=
  { frame with scope := f frame.scope }

theorem get_bind {α : Type} (f : State → Action α) (st : State) : (get >>= f) st = f st st := rfl

theorem eq_empty_or_push (calls : Array Frame) :
    calls = #[] ∨ ∃ (others : Array Frame) (frame : Frame), calls = others.push frame := by
  cases h : calls.back? with
  | none => exact .inl (Array.back?_eq_none_iff.1 h)
  | some frame =>
    obtain ⟨others, hothers⟩ := Array.back?_eq_some_iff.1 h
    exact .inr ⟨others, frame, hothers⟩

theorem State.scope_eq (st : State) : st.scope = scopeOf st.globals st.frames := by
  rcases eq_empty_or_push st.calls with h | ⟨calls, frame, h⟩
  · simp [State.scope, State.frames, scopeOf, h]
  · simp [State.scope, State.frames, scopeOf, h]

theorem modify_push (calls : Array Frame) (frame : Frame) (f : Frame → Frame) :
    (calls.push frame).modify ((calls.push frame).size - 1) f = calls.push (f frame) := by
  refine Array.ext (by simp) fun i hi hi' => ?_
  rw [Array.getElem_modify, Array.getElem_push, Array.getElem_push]
  simp only [Array.size_push, Nat.add_sub_cancel]
  simp only [Array.size_push] at hi'
  split
  · subst_vars
    simp
  · rw [dif_pos (by omega), dif_pos (by omega)]

section Fitting

variable {L : List Shape}

/-- The callers below the innermost one of several calls fit the layout. -/
def Suspended (L : List Shape) (globals : Scope) : List Frame → Prop
  | [] => True
  | frame :: rest =>
    (∃ s, L[frame.returnTo]? = some s ∧ (scopeOf globals rest).Fits s ∧
      frame.base + 1 = baseOf rest + s.height ∧ s.inFunction = !rest.isEmpty) ∧
        Suspended L globals rest

/-- A state fits a shape. -/
structure State.Fits (L : List Shape) (s : Shape) (st : State) : Prop where
  scope : (scopeOf st.globals st.frames).Fits s
  height : st.stack.size = baseOf st.frames + s.height
  inFunction : s.inFunction = !st.frames.isEmpty
  callers : Suspended L st.globals st.frames

/-- A state fits the shape at its position. -/
def State.Poised (L : List Shape) (st : State) : Prop :=
  ∃ s, L[st.position]? = some s ∧ st.Fits L s

theorem scopeOf_extends {globals globals' : Scope} (h : globals'.Extends globals)
    (frames : List Frame) : (scopeOf globals' frames).Extends (scopeOf globals frames) := by
  cases frames with
  | nil => exact h
  | cons frame rest => exact ⟨rfl, fun x b hb => ⟨b, hb⟩⟩

/-- The callers do not mind what is bound at the top level. -/
theorem Suspended.change_globals {globals globals' : Scope} (h : globals'.Extends globals)
    {frames : List Frame} (hs : Suspended L globals frames) : Suspended L globals' frames := by
  induction frames with
  | nil => trivial
  | cons frame rest ih =>
    obtain ⟨⟨s, hs, hscope, hrest⟩, hcallers⟩ := hs
    exact ⟨⟨s, hs, hscope.of_extends (scopeOf_extends h rest), hrest⟩, ih hcallers⟩

theorem State.Fits.of_refines {s t : Shape} {st : State} (h : st.Fits L s) (hs : s.Refines t) :
    st.Fits L t :=
  ⟨h.scope.of_refines hs, hs.height ▸ h.height, hs.inFunction ▸ h.inFunction, h.callers⟩

theorem State.Fits.poised {s : Shape} {st : State} (h : st.Fits L s)
    (haccept : Accepts L st.position s) : st.Poised L := by
  obtain ⟨t, ht, hs⟩ := haccept
  exact ⟨t, ht, h.of_refines hs⟩

/-! ### Actions -/

/-- Begun in a state with the property `P`, the action does not fail for want of operands, and
its results and the states that it leaves are related by `Q`. -/
def Safe {α : Type} (P : State → Prop) (a : Action α) (Q : α → State → Prop) : Prop :=
  ∀ st, P st → Sound (a st) ∧ ∀ v st', a st = .ok (v, st') → Q v st'

/-- The next instruction is at a position, and the state fits a shape. -/
def At (L : List Shape) (position : Nat) (s : Shape) (st : State) : Prop :=
  st.position = position ∧ st.Fits L s

namespace Safe

variable {α β : Type} {P : State → Prop} {Q : α → State → Prop} {R : β → State → Prop}

theorem bind {a : Action α} {f : α → Action β} (ha : Safe P a Q) (hf : ∀ v, Safe (Q v) (f v) R) :
    Safe P (a >>= f) R := by
  intro st hst
  obtain ⟨hsound, hQ⟩ := ha st hst
  refine ⟨fun h => ?_, fun w st'' h => ?_⟩
  · rcases stateBind_eq_error_iff.1 h with h | ⟨v, st', hv, h⟩
    · exact hsound h
    · exact (hf v st' (hQ v st' hv)).1 h
  · obtain ⟨v, st', hv, h⟩ := stateBind_eq_ok_iff.1 h
    exact (hf v st' (hQ v st' hv)).2 w st'' h

theorem pure {v : α} (h : ∀ st, P st → Q v st) : Safe P (Pure.pure v) Q := by
  intro st hst
  refine ⟨.ok _, fun w st' heq => ?_⟩
  cases heq
  exact h st hst

theorem mono {Q' : α → State → Prop} {a : Action α} (ha : Safe P a Q)
    (h : ∀ v st, Q v st → Q' v st) : Safe P a Q' := fun st hst =>
  ⟨(ha st hst).1, fun v st' hv => h v st' ((ha st hst).2 v st' hv)⟩

theorem fail {fault : Fault} (h : fault ≠ .stackUnderflow) :
    Safe P (Action.fail fault : Action α) Q :=
  fun _ _ => ⟨.error h, fun _ _ heq => nomatch heq⟩

/-- An action may be looked at separately in every state. -/
theorem of_forall {a : Action α} (h : ∀ st, P st → Safe (fun st' => st' = st) a Q) : Safe P a Q :=
  fun st hst => h st hst st rfl

theorem ite {c : Prop} [Decidable c] {a b : Action α} (ha : c → Safe P a Q) (hb : ¬c → Safe P b Q) :
    Safe P (if c then a else b) Q := by
  split
  · exact ha ‹_›
  · exact hb ‹_›

end Safe

variable {p : Nat} {s : Shape}

/-- A change of the operands leaves all else as it is. -/
theorem State.Fits.operands {st : State} (h : st.Fits L s) {stack : Array Value} {heap : Heap}
    {position n : Nat} (hn : stack.size = baseOf st.frames + n) :
    State.Fits L { s with height := n } ⟨position, stack, heap, st.globals, st.calls⟩ :=
  ⟨⟨h.scope.iterators, h.scope.bound⟩, hn, h.inFunction, h.callers⟩

open Labyrinth.Action

theorem safe_push (v : Value) : Safe (At L p s) (push v) fun _ => At L p (s.raise 1) := by
  rintro st ⟨rfl, hst⟩
  refine ⟨.ok _, fun _ st' h => ?_⟩
  cases h
  refine ⟨rfl, hst.operands ?_⟩
  rw [Array.size_push, hst.height, Nat.add_assoc]

theorem safe_pop : Safe (At L p (s.raise 1)) pop fun _ => At L p s := by
  rintro ⟨position, stack, heap, globals, calls⟩ ⟨rfl, hst⟩
  have hsize := hst.height
  simp only [Shape.raise] at hsize
  unfold pop
  dsimp only
  split
  · refine ⟨.ok _, fun _ st' h => ?_⟩
    cases h
    refine ⟨rfl, hst.operands ?_⟩
    rw [Array.size_pop, hsize]
    rfl
  · rename_i hnone
    rw [Array.back?_eq_none_iff] at hnone
    rw [hnone, Array.size_empty] at hsize
    omega

theorem safe_popMany (n : Nat) : Safe (At L p (s.raise n)) (popMany n) fun values st =>
    values.length = n ∧ At L p s st := by
  rintro ⟨position, stack, heap, globals, calls⟩ ⟨rfl, hst⟩
  have hsize := hst.height
  simp only [Shape.raise] at hsize
  unfold popMany
  dsimp only
  split
  · refine ⟨.ok _, fun _ st' h => ?_⟩
    cases h
    refine ⟨?_, rfl, hst.operands ?_⟩
    · simp
      omega
    · simp only [Array.size_shrink]
      omega
  · omega

theorem safe_topTruth :
    Safe (At L p (s.raise 1)) topTruth fun _ => At L p (s.raise 1) := by
  rintro st ⟨rfl, hst⟩
  have hsize := hst.height
  simp only [Shape.raise] at hsize
  cases hback : st.stack.back? with
  | none =>
    rw [Array.back?_eq_none_iff] at hback
    rw [hback, Array.size_empty] at hsize
    omega
  | some v =>
    have htruth : topTruth st = .ok (st.heap.truthy v, st) := by
      rw [topTruth, get_bind, hback]
      rfl
    rw [htruth]
    refine ⟨.ok _, fun _ st' h => ?_⟩
    cases h
    exact ⟨rfl, hst⟩

theorem safe_duplicatePair :
    Safe (At L p (s.raise 2)) duplicatePair fun _ => At L p (s.raise 4) := by
  rintro ⟨position, stack, heap, globals, calls⟩ ⟨rfl, hst⟩
  have hsize := hst.height
  simp only [Shape.raise] at hsize
  unfold duplicatePair
  dsimp only
  split
  · refine ⟨.ok _, fun _ st' h => ?_⟩
    cases h
    refine ⟨rfl, hst.operands ?_⟩
    rw [Array.size_push, Array.size_push, hsize]
    rfl
  · omega

theorem safe_jump (target : Nat) : Safe (At L p s) (jump target) fun _ => At L target s := by
  rintro st ⟨rfl, hst⟩
  refine ⟨.ok _, fun _ st' h => ?_⟩
  cases h
  exact ⟨rfl, hst.operands hst.height⟩

theorem safe_compute {f : Heap → Except Fault (Value × Heap)} (hf : ∀ h, Sound (f h)) :
    Safe (At L p s) (compute f) fun _ => At L p (s.raise 1) := by
  rintro ⟨position, stack, heap, globals, calls⟩ ⟨rfl, hst⟩
  refine ⟨.bind (hf heap) fun r => .pure _, fun _ st' h => ?_⟩
  obtain ⟨⟨v, heap'⟩, -, h⟩ := bind_eq_ok_iff.1 h
  cases h
  refine ⟨rfl, hst.operands ?_⟩
  rw [Array.size_push, hst.height, Nat.add_assoc]

theorem safe_inspect {f : Heap → Except Fault Value} (hf : ∀ h, Sound (f h)) :
    Safe (At L p s) (inspect f) fun _ => At L p (s.raise 1) :=
  safe_compute fun h => .bind (hf h) fun _ => .pure _

theorem safe_change {f : Heap → Except Fault Heap} (hf : ∀ h, Sound (f h)) :
    Safe (At L p s) (change f) fun _ => At L p s := by
  rintro ⟨position, stack, heap, globals, calls⟩ ⟨rfl, hst⟩
  refine ⟨.bind (hf heap) fun r => .pure _, fun _ st' h => ?_⟩
  obtain ⟨heap', -, h⟩ := bind_eq_ok_iff.1 h
  cases h
  exact ⟨rfl, hst.operands hst.height⟩

theorem safe_elements (v : Value) : Safe (At L p s) (elements v) fun _ => At L p s := by
  rintro ⟨position, stack, heap, globals, calls⟩ ⟨rfl, hst⟩
  refine ⟨.bind (heap.sound_elements v) fun r => .pure _, fun _ st' h => ?_⟩
  obtain ⟨⟨values, heap'⟩, -, h⟩ := bind_eq_ok_iff.1 h
  cases h
  exact ⟨rfl, hst.operands hst.height⟩

theorem safe_get : Safe (At L p s) get fun st st' => st' = st ∧ At L p s st' :=
  fun st hst => ⟨.ok _, fun _ _ h => by cases h; exact ⟨rfl, hst⟩⟩

/-- What is pushed one after the other lies on the stack. -/
theorem safe_pushAll (values : List Value) :
    Safe (At L p s) (values.forM push) fun _ => At L p (s.raise values.length) := by
  induction values generalizing s with
  | nil => exact .pure fun _ h => h
  | cons v values ih =>
    refine .bind (safe_push v) fun _ => ?_
    have := ih (s := s.raise 1)
    rwa [Shape.raise_raise] at this

/-! ### Scopes -/

theorem changeScope_push (f : Scope → Scope) (position : Nat) (stack : Array Value) (heap : Heap)
    (globals : Scope) (calls : Array Frame) (frame : Frame) :
    changeScope f ⟨position, stack, heap, globals, calls.push frame⟩ =
      .ok ((), ⟨position, stack, heap, globals, calls.push (frame.change f)⟩) := by
  unfold changeScope
  dsimp only
  rw [if_neg (by simp)]
  exact congrArg (fun calls => Except.ok ((), State.mk position stack heap globals calls))
    (modify_push calls frame _)

theorem frames_empty (position : Nat) (stack : Array Value) (heap : Heap) (globals : Scope) :
    State.frames ⟨position, stack, heap, globals, #[]⟩ = [] := rfl

theorem frames_push (position : Nat) (stack : Array Value) (heap : Heap) (globals : Scope)
    (calls : Array Frame) (frame : Frame) :
    State.frames ⟨position, stack, heap, globals, calls.push frame⟩ =
      frame :: calls.toList.reverse := by
  simp [State.frames]

/-- A change of the innermost scope. -/
theorem safe_changeScope {f : Scope → Scope} {t : Shape} (hheight : t.height = s.height)
    (hfunction : t.inFunction = s.inFunction)
    (hf : ∀ scope : Scope, scope.Fits s → (f scope).Fits t) :
    Safe (At L p s) (changeScope f) fun _ => At L p t := by
  rintro ⟨position, stack, heap, globals, calls⟩ ⟨rfl, hscope, hsize, hin, hcallers⟩
  rcases eq_empty_or_push calls with rfl | ⟨calls, frame, rfl⟩
  · refine ⟨.ok _, fun _ st' h => ?_⟩
    cases h
    refine ⟨rfl, hf _ hscope, ?_, ?_, trivial⟩
    · rw [hheight]
      exact hsize
    · rw [hfunction]
      exact hin
  · rw [changeScope_push]
    rw [frames_push] at hscope hsize hin hcallers
    refine ⟨.ok _, fun _ st' h => ?_⟩
    cases h
    refine ⟨rfl, ?_, ?_, ?_, ?_⟩ <;> rw [frames_push]
    · exact hf _ hscope
    · rw [hheight]
      exact hsize
    · rw [hfunction]
      exact hin
    · exact hcallers

/-- A change of the scope of the top level. -/
theorem safe_changeGlobals {f : Scope → Scope} (hf : ∀ scope : Scope, (f scope).Extends scope) :
    Safe (At L p s) (changeGlobals f) fun _ => At L p s := by
  rintro ⟨position, stack, heap, globals, calls⟩ ⟨rfl, hscope, hsize, hin, hcallers⟩
  refine ⟨.ok _, fun _ st' h => ?_⟩
  cases h
  exact ⟨rfl, hscope.of_extends (scopeOf_extends (hf globals) _), hsize, hin,
    hcallers.change_globals (hf globals)⟩

theorem safe_load (x : String) : Safe (At L p s) (load x) fun _ => At L p (s.raise 1) := by
  unfold load
  refine .bind safe_get fun st => ?_
  split
  · exact fun st' h => safe_push _ st' h.2
  · exact .fail nofun

theorem safe_declare (x : String) (b : Binding) :
    Safe (At L p s) (declare x b) fun _ => At L p (s.bind [x]) :=
  safe_changeScope rfl rfl fun _ h => h.bind x b

theorem safe_store (x : String) (v : Value) :
    Safe (At L p s) (store x v) fun _ => At L p s := by
  have hextends : ∀ scope : Scope, (scope.bind x ⟨v, false⟩).Extends scope :=
    fun scope => scope.extends_bind x _
  unfold store
  refine .bind safe_get fun st => ?_
  split
  · refine .ite (fun _ => .fail nofun) fun _ st' h => ?_
    exact safe_changeScope rfl rfl (fun scope hs => hs.of_extends (hextends scope)) st' h.2
  · split
    · refine .ite (fun _ => .fail nofun) fun _ st' h => ?_
      exact safe_changeGlobals hextends st' h.2
    · exact .fail nofun

theorem safe_iterate (values : List Value) :
    Safe (At L p s) (iterate values) fun _ => At L p s.iterate :=
  safe_changeScope rfl rfl fun _ h => ⟨congrArg (· + 1) h.iterators, h.bound⟩

theorem safe_dropIterator : Safe (At L p s.iterate) dropIterator fun _ => At L p s := by
  refine safe_changeScope rfl rfl fun scope h => ⟨?_, h.bound⟩
  rw [List.length_tail, h.iterators]
  rfl

/-- The next element is pushed, or the iterator is at its end. -/
theorem safe_next (exit : Nat) :
    Safe (At L p s.iterate) (next exit) fun _ st =>
      At L p (s.iterate.raise 1) st ∨ At L exit s st := by
  unfold next
  refine .bind safe_get fun st => ?_
  split
  · rename_i v vs rest hiterators
    refine .bind (Q := fun _ => At L p s.iterate) ?_ fun _ => ?_
    · rintro st' ⟨rfl, h⟩
      have hlength := h.2.scope.iterators
      rw [← State.scope_eq, hiterators] at hlength
      refine safe_changeScope (t := s.iterate) rfl rfl (fun scope hs => ?_) st' h
      exact ⟨hlength, hs.bound⟩
    · exact (safe_push v).mono fun _ _ h => .inl h
  · refine .bind (Q := fun _ => At L p s) (fun st' h => safe_dropIterator st' h.2) fun _ => ?_
    exact (safe_jump exit).mono fun _ _ h => .inr h
  · rename_i hiterators
    rintro st' ⟨rfl, -, hst⟩
    have hlength := hst.scope.iterators
    rw [← State.scope_eq, hiterators] at hlength
    cases hlength

/-! ### Calls -/

/-- A function is entered with its parameters bound; the caller is to go on with one operand more
than it has kept. -/
theorem safe_enter {f : FunctionEntry} {args : List Value} (hlength : args.length = f.params.length)
    (haccept : Accepts L p (s.raise 1)) :
    Safe (At L p s) (enter f args) fun _ => At L f.entry (.entry f.params) := by
  rintro ⟨position, stack, heap, globals, calls⟩ ⟨rfl, hst⟩
  refine ⟨.ok _, fun _ st' h => ?_⟩
  cases h
  obtain ⟨t, ht, hrefines⟩ := haccept
  have hscope : (Scope.empty.bindParams f.params args).Fits (.entry f.params) :=
    (Scope.bindParams_fits (s := ⟨0, 0, [], true⟩) ⟨rfl, fun x hx => nomatch hx⟩ hlength).of_refines
      ⟨rfl, rfl, fun x hx => Braced.mem_bindNames.2 (.inl hx), rfl⟩
  refine ⟨rfl, ?_, ?_, ?_, ?_⟩ <;> rw [frames_push]
  · exact hscope
  · rfl
  · rfl
  · refine ⟨⟨t, ht, ⟨?_, fun x hx => ?_⟩, ?_, ?_⟩, hst.callers⟩
    · exact hst.scope.iterators.trans hrefines.iterators
    · exact hst.scope.bound x (hrefines.bound hx)
    · rw [← hrefines.height]
      exact congrArg (· + 1) hst.height
    · rw [← hrefines.inFunction]
      exact hst.inFunction

/-- A call is left for the position where the caller waits. -/
theorem safe_leave (v : Value) (hin : s.inFunction = true) :
    Safe (At L p s) (leave v) fun _ st => st.Poised L := by
  rintro ⟨position, stack, heap, globals, calls⟩ ⟨rfl, hst⟩
  rcases eq_empty_or_push calls with rfl | ⟨calls, frame, rfl⟩
  · have := hst.inFunction
    rw [hin, frames_empty] at this
    cases this
  · obtain ⟨hscope, hsize, -, hcallers⟩ := hst
    rw [frames_push] at hscope hsize hcallers
    have heq : leave v ⟨position, stack, heap, globals, calls.push frame⟩ =
        .ok ((), ⟨frame.returnTo, (stack.shrink frame.base).push v, heap, globals, calls⟩) := by
      simp [leave]
    rw [heq]
    refine ⟨.ok _, fun _ st' h => ?_⟩
    cases h
    obtain ⟨⟨t, ht, hscope', hheight, hin'⟩, hrest⟩ := hcallers
    refine ⟨t, ht, hscope', ?_, ?_, hrest⟩
    · simp only [baseOf] at hsize
      rw [Array.size_push, Array.size_shrink, hsize, Nat.min_eq_left (Nat.le_add_right _ _)]
      exact hheight
    · exact hin'

end Fitting

end Labyrinth
