import Quill.Proofs.Shape

/-!
# Events

What an expression does with names can be listed before it is evaluated: its names are looked up and
assigned to in an order that the tree alone fixes. Evaluation changes values only, so each of these
events is refused or not for reasons that are there from the start, and the first one that is
refused is where evaluation stops.

* `Expr.shape_eval`: evaluating an expression keeps the shape of the heap.
* `Expr.fault?_eval`: the fault of an expression is that of the first event that is refused.
* `Expr.exists_wrote`: the assignments before that event are made, in order.
* `first_refused_event_decides`: all of it.
-/

namespace Quill

/-! ## Events -/

/-- What evaluation does with a name, or with something that is assigned to and is no name. -/
inductive Event where
  /-- A name is looked up. -/
  | lookup (symbol : String) (span : Span)
  /-- A name is given the value of the right side of an assignment. -/
  | assign (symbol : String) (source : Expr) (span : Span)
  /-- Something that is no name is assigned to. -/
  | badTarget (target : Expr)

/-- The events of an expression, in order. An assignment comes after the events of its right side,
    and where the target is no name there is nothing else. -/
def Expr.events : Expr → List Event
  | .number _ _ => []
  | .name symbol span => [.lookup symbol span]
  | .binary left _ right _ => left.events ++ right.events
  | .assign (.name symbol _) value span => value.events ++ [.assign symbol value span]
  | .assign target _ _ => [.badTarget target]

namespace Event

/-- Why an event is refused in scope `c` of a heap, if it is: the name has no owner, or it is
    assigned to and constant there, or there is no name. -/
def fault? (h : Heap) (c : Nat) : Event → Option Fault
  | .lookup symbol span =>
    match h.owner? c symbol with
    | some _ => none
    | none => some (.binding (.undefined symbol) span)
  | .assign symbol _ span =>
    match h.owner? c symbol with
    | some (_, b) => if b.constant then some (.binding (.constant symbol) span) else none
    | none => some (.binding (.undefined symbol) span)
  | .badTarget target => some (.badTarget target.span)

/-- What faults of an event are about: the name that is looked up, the whole assignment, or the
    target that is no name. -/
def span : Event → Span
  | .lookup _ span => span
  | .assign _ _ span => span
  | .badTarget target => target.span

/-- The category of the faults of an event. -/
def category : Event → Category
  | .lookup _ _ => .binding
  | .assign _ _ _ => .binding
  | .badTarget _ => .evaluation

/-- The name that an event assigns to, and the right side. -/
def assignment? : Event → Option (String × Expr)
  | .assign symbol source _ => some (symbol, source)
  | _ => none

/-- The assignments among some events. -/
def assignments (events : List Event) : List (String × Expr) := events.filterMap assignment?

theorem assignments_append (events more : List Event) :
    assignments (events ++ more) = assignments events ++ assignments more :=
  List.filterMap_append

/-- The events before the first that is refused. -/
def granted (h : Heap) (c : Nat) (events : List Event) : List Event :=
  events.takeWhile fun ev => (ev.fault? h c).isNone

variable {h h₁ h₂ : Heap} {c : Nat}

theorem problem_of_fault? {ev : Event} {fault : Fault} (hfault : ev.fault? h c = some fault) :
    fault.problem.category = ev.category ∧ fault.problem.span = ev.span := by
  cases ev with
  | lookup symbol span =>
    simp only [fault?] at hfault
    split at hfault
    · cases hfault
    · cases hfault
      exact ⟨rfl, rfl⟩
  | assign symbol source span =>
    simp only [fault?] at hfault
    split at hfault
    · split at hfault
      · cases hfault
        exact ⟨rfl, rfl⟩
      · cases hfault
    · cases hfault
      exact ⟨rfl, rfl⟩
  | badTarget target =>
    cases hfault
    exact ⟨rfl, rfl⟩

/-- What is refused depends on the shape of the heap alone. -/
theorem fault?_of_shape_eq (hshape : h₁.shape = h₂.shape) (ev : Event) :
    ev.fault? h₁ c = ev.fault? h₂ c := by
  cases ev with
  | lookup symbol span =>
    simp only [fault?]
    obtain ⟨hown₁, hown₂⟩ | ⟨o, b₁, b₂, hown₁, hown₂, -⟩ := Heap.owner?_of_shape_eq hshape c symbol
    · rw [hown₁, hown₂]
    · rw [hown₁, hown₂]
  | assign symbol source span =>
    simp only [fault?]
    obtain ⟨hown₁, hown₂⟩ | ⟨o, b₁, b₂, hown₁, hown₂, hb⟩ := Heap.owner?_of_shape_eq hshape c symbol
    · rw [hown₁, hown₂]
    · rw [hown₁, hown₂]
      dsimp only
      rw [hb]
  | badTarget target => rfl

theorem fault?_eq_of_shape_eq (hshape : h₁.shape = h₂.shape) : fault? h₁ c = fault? h₂ c :=
  funext fun ev => ev.fault?_of_shape_eq hshape

theorem granted_of_shape_eq (hshape : h₁.shape = h₂.shape) (events : List Event) :
    granted h₁ c events = granted h₂ c events := by
  unfold granted
  rw [fault?_eq_of_shape_eq hshape]

/-- Events none of which is refused are followed by what is granted after them. -/
theorem granted_append_of_none {events : List Event}
    (hnone : events.findSome? (fault? h c) = none) (more : List Event) :
    granted h c (events ++ more) = events ++ granted h c more := by
  refine List.takeWhile_append_of_pos fun ev hev => ?_
  rw [List.findSome?_eq_none_iff.mp hnone ev hev]
  rfl

theorem granted_eq_self {events : List Event} (hnone : events.findSome? (fault? h c) = none) :
    granted h c events = events := by
  have happend := granted_append_of_none hnone []
  rwa [List.append_nil, show granted h c [] = [] from rfl, List.append_nil] at happend

/-- Nothing is granted from an event on that is refused. -/
theorem granted_cons_of_some {ev : Event} {fault : Fault} (hev : ev.fault? h c = some fault)
    (after : List Event) : granted h c (ev :: after) = [] :=
  List.takeWhile_cons_of_neg (by simp [hev])

theorem granted_append_of_some {events : List Event} {fault : Fault}
    (hsome : events.findSome? (fault? h c) = some fault) (more : List Event) :
    granted h c (events ++ more) = granted h c events := by
  obtain ⟨before, ev, after, rfl, hev, hbefore⟩ := List.findSome?_eq_some_iff.mp hsome
  have hbefore := List.findSome?_eq_none_iff.mpr hbefore
  rw [List.append_assoc, List.cons_append, granted_append_of_none hbefore,
    granted_append_of_none hbefore, granted_cons_of_some hev, granted_cons_of_some hev]

end Event

/-! ## The first event that is refused -/

theorem Outcome.fault?_eq_none_iff {ε α : Type} {o : Outcome ε α} :
    o.fault? = none ↔ ∃ a, o.result = .ok a := by
  unfold fault?
  cases o.result <;> simp

theorem Outcome.fault?_eq_some_iff {ε α : Type} {o : Outcome ε α} {e : ε} :
    o.fault? = some e ↔ o.result = .error e := by
  unfold fault?
  cases o.result <;> simp

/-- Where what comes next fails in the same way for every result, two parts fail as the first one
    does, or else as the next one. -/
theorem Outcome.fault?_andThen {ε α β : Type} {o : Outcome ε α} {f : α → Heap → Outcome ε β}
    {next : Option ε} (hf : ∀ a, (f a o.heap).fault? = next) :
    (o.andThen f).fault? = o.fault?.or next := by
  cases ho : o.result with
  | error e =>
    rw [andThen_of_error _ _ ho, fault?_eq_some_iff.mpr ho]
    rfl
  | ok a =>
    rw [andThen_of_ok _ _ ho, fault?_eq_none_iff.mpr ⟨a, ho⟩, Option.none_or]
    exact hf a

/-- What the next part keeps of the heap is as the first part left it. -/
theorem Outcome.view_andThen {ε α β γ : Type} (view : Heap → γ) {o : Outcome ε α}
    {f : α → Heap → Outcome ε β} (hf : ∀ a h, view (f a h).heap = view h) :
    view (o.andThen f).heap = view o.heap := by
  cases ho : o.result with
  | error e => rw [andThen_of_error _ _ ho]
  | ok a =>
    rw [andThen_of_ok _ _ ho]
    exact hf a o.heap

/-- Evaluating an expression changes values only. -/
theorem Expr.shape_eval (e : Expr) (c : Nat) (h : Heap) : (e.eval c h).heap.shape = h.shape := by
  fun_induction Expr.eval c e h with
  | case1 => rfl
  | case2 => rfl
  | case3 left op right span h ihleft ihright =>
    refine (Outcome.view_andThen Heap.shape fun a h => ?_).trans ihleft
    refine (Outcome.view_andThen Heap.shape fun b h => ?_).trans (ihright h)
    rw [op.heap_combine]
  | case4 symbol _ value span h ih =>
    refine (Outcome.view_andThen Heap.shape fun v h => ?_).trans ih
    exact h.shape_assign c symbol v
  | case5 => rfl

theorem Event.fault?_lookup (h : Heap) (c : Nat) (symbol : String) (span : Span) :
    Outcome.fault? ⟨(h.lookup c symbol).mapError (Fault.binding · span), h, []⟩ =
      (Event.lookup symbol span).fault? h c := by
  simp only [fault?]
  rw [Heap.lookup_eq]
  cases h.owner? c symbol <;> rfl

theorem Event.fault?_assign (h : Heap) (c : Nat) (symbol : String) (source : Expr) (span : Span)
    (v : Value) :
    ((h.assign c symbol v).mapError (Fault.binding · span)).fault? =
      (Event.assign symbol source span).fault? h c := by
  simp only [fault?]
  rw [Heap.assign_eq]
  match h.owner? c symbol with
  | none => rfl
  | some (o, b) =>
    dsimp only
    split <;> rfl

theorem Heap.heap_assign_of_fault {h : Heap} {c : Nat} {name : String} {v : Value}
    {wording : NameFault → Fault} {fault : Fault}
    (hfault : ((h.assign c name v).mapError wording).fault? = some fault) :
    (h.assign c name v).heap = h := by
  obtain ⟨e, hfail⟩ | ⟨hok, -⟩ := h.assign_cases c name v
  · rw [hfail]
    rfl
  · rw [Outcome.fault?_eq_some_iff, Outcome.mapError, hok] at hfault
    cases hfault

theorem Operator.fault?_combine (op : Operator) (left right : Value) (h : Heap) :
    (op.combine left right h).fault? = none := by
  unfold combine
  split <;> rfl

/-- The fault of an expression is that of its first event that is refused. -/
theorem Expr.fault?_eval (e : Expr) (c : Nat) (h : Heap) :
    (e.eval c h).fault? = e.events.findSome? (Event.fault? h c) := by
  fun_induction Expr.eval c e h with
  | case1 => rfl
  | case2 symbol span h => rw [events, List.findSome?_singleton, Event.fault?_lookup]
  | case3 left op right span h ihleft ihright =>
    -- the left side changes values only, so the right side is judged as at the start
    have hjudge := Event.fault?_eq_of_shape_eq (c := c) (left.shape_eval c h)
    rw [events, List.findSome?_append, ← ihleft, ← hjudge]
    refine Outcome.fault?_andThen fun a => ?_
    rw [Outcome.fault?_andThen fun b => op.fault?_combine a b _, ihright, Option.or_none]
  | case4 symbol _ value span h ih =>
    have hjudge := Event.fault?_of_shape_eq (c := c) (value.shape_eval c h)
    rw [events, List.findSome?_append, ← ih, List.findSome?_singleton, ← hjudge]
    exact Outcome.fault?_andThen fun v => Event.fault?_assign _ c symbol value span v
  | case5 target value span h hname =>
    rw [events]
    · rfl
    · exact hname

/-! ## Assignments in order -/

/-- An assignment that was made: the name, the right side and the value that this had. -/
structure Write where
  symbol : String
  source : Expr
  value : Value

/-- What a write assigns, without the value. -/
def Write.assignment (w : Write) : String × Expr := (w.symbol, w.source)

/-- The heap after some writes, one after the other. -/
def Heap.written (h : Heap) (c : Nat) (writes : List Write) : Heap :=
  writes.foldl (fun h w => (h.assign c w.symbol w.value).heap) h

theorem Heap.written_append (h : Heap) (c : Nat) (ws₁ ws₂ : List Write) :
    h.written c (ws₁ ++ ws₂) = (h.written c ws₁).written c ws₂ :=
  List.foldl_append

/-- Writes from scope `c` of a heap of which each has the value of its right side. That is evaluated
    after the `earlier` writes and makes the `inner` ones itself. -/
inductive Write.Made (c : Nat) (h : Heap) : List Write → Prop where
  | nil : Made c h []
  | snoc {earlier inner : List Write} {w : Write} (made : Made c h (earlier ++ inner))
      (own : inner.map Write.assignment = Event.assignments w.source.events)
      (value : (w.source.eval c (h.written c earlier)).result = .ok w.value) :
      Made c h (earlier ++ inner ++ [w])

/-- Writes that go on where others ended. -/
theorem Write.Made.append {c : Nat} {h : Heap} {ws₁ ws₂ : List Write} (hws₁ : Made c h ws₁)
    (hws₂ : Made c (h.written c ws₁) ws₂) : Made c h (ws₁ ++ ws₂) := by
  induction hws₂ with
  | nil =>
    rw [List.append_nil]
    exact hws₁
  | @snoc earlier inner w _ own value ih =>
    rw [← List.append_assoc] at ih
    rw [← Heap.written_append] at value
    rw [← List.append_assoc, ← List.append_assoc]
    exact .snoc ih own value

/-- The writes of an outcome are the assignments among its events before the first that is refused,
    and they are all that has changed. -/
structure Outcome.Wrote (o : Outcome Fault Value) (c : Nat) (h : Heap) (events : List Event)
    (writes : List Write) : Prop where
  made : Write.Made c h writes
  assignments_eq : writes.map Write.assignment = Event.assignments (Event.granted h c events)
  heap_eq : o.heap = h.written c writes

namespace Outcome.Wrote

variable {o : Outcome Fault Value} {c : Nat} {h : Heap} {events : List Event} {ws : List Write}

/-- Where no event is refused, all assignments have been made. -/
theorem assignments_of_ok (hwrote : o.Wrote c h events ws)
    (hfault : events.findSome? (Event.fault? h c) = none) :
    ws.map Write.assignment = Event.assignments events := by
  rw [hwrote.assignments_eq, Event.granted_eq_self hfault]

/-- After a failure nothing more is written. -/
theorem andThen_of_error (hwrote : o.Wrote c h events ws) {fault : Fault}
    (herror : o.result = .error fault) (hfault : events.findSome? (Event.fault? h c) = some fault)
    (f : Value → Heap → Outcome Fault Value) (more : List Event) :
    (o.andThen f).Wrote c h (events ++ more) ws := by
  refine ⟨hwrote.made, ?_, ?_⟩
  · rw [Event.granted_append_of_some hfault, hwrote.assignments_eq]
  · rw [Outcome.andThen_of_error _ _ herror, hwrote.heap_eq]

end Outcome.Wrote

/-- An expression makes the assignments before its first event that is refused. -/
theorem Expr.exists_wrote (e : Expr) (c : Nat) (h : Heap) :
    ∃ writes, (e.eval c h).Wrote c h e.events writes := by
  fun_induction Expr.eval c e h with
  | case1 => exact ⟨[], .nil, rfl, rfl⟩
  | case2 symbol span h =>
    refine ⟨[], .nil, ?_, rfl⟩
    rw [events]
    cases hev : (Event.lookup symbol span).fault? h c with
    | none =>
      rw [Event.granted_eq_self (by rw [List.findSome?_singleton, hev])]
      rfl
    | some fault =>
      rw [Event.granted_cons_of_some hev]
      rfl
  | case3 left op right span h ihleft ihright =>
    obtain ⟨ws₁, hwrote₁⟩ := ihleft
    have hfault := left.fault?_eval c h
    rw [events]
    cases hleft : (left.eval c h).result with
    | error fault =>
      rw [Outcome.fault?_eq_some_iff.mpr hleft] at hfault
      exact ⟨ws₁, hwrote₁.andThen_of_error hleft hfault.symm _ _⟩
    | ok a =>
      rw [Outcome.fault?_eq_none_iff.mpr ⟨a, hleft⟩] at hfault
      obtain ⟨ws₂, hmade₂, hmap₂, hheap₂⟩ := ihright (left.eval c h).heap
      rw [hwrote₁.heap_eq] at hmade₂ hheap₂
      -- the right side is judged as at the start
      rw [Event.granted_of_shape_eq (left.shape_eval c h)] at hmap₂
      refine ⟨ws₁ ++ ws₂, hwrote₁.made.append hmade₂, ?_, ?_⟩
      · rw [Event.granted_append_of_none hfault.symm, List.map_append,
          hwrote₁.assignments_of_ok hfault.symm, hmap₂, Event.assignments_append]
      · rw [Outcome.andThen_of_ok _ _ hleft]
        have hcombine : ∀ b h, (op.combine a b h).heap = h := fun b h => op.heap_combine a b h
        rw [Heap.written_append, ← hheap₂, ← hwrote₁.heap_eq]
        exact Outcome.view_andThen id hcombine
  | case4 symbol _ value span h ih =>
    obtain ⟨ws, hwrote⟩ := ih
    have hfault := value.fault?_eval c h
    rw [events]
    cases hvalue : (value.eval c h).result with
    | error fault =>
      rw [Outcome.fault?_eq_some_iff.mpr hvalue] at hfault
      exact ⟨ws, hwrote.andThen_of_error hvalue hfault.symm _ _⟩
    | ok v =>
      rw [Outcome.fault?_eq_none_iff.mpr ⟨v, hvalue⟩] at hfault
      have hmap := hwrote.assignments_of_ok hfault.symm
      rw [Outcome.andThen_of_ok _ _ hvalue]
      cases hev : (Event.assign symbol value span).fault? h c with
      | none =>
        -- the right side was evaluated before all of its writes
        have hsnoc : Write.Made c h ([] ++ ws ++ [⟨symbol, value, v⟩]) :=
          .snoc hwrote.made hmap hvalue
        refine ⟨ws ++ [⟨symbol, value, v⟩], hsnoc, ?_, ?_⟩
        · rw [Event.granted_append_of_none hfault.symm,
            Event.granted_eq_self (by rw [List.findSome?_singleton, hev]), List.map_append, hmap,
            Event.assignments_append]
          rfl
        · rw [Heap.written_append, ← hwrote.heap_eq]
          rfl
      | some fault =>
        refine ⟨ws, hwrote.made, ?_, ?_⟩
        · rw [Event.granted_append_of_none hfault.symm, Event.granted_cons_of_some hev,
            List.append_nil, hmap]
        · rw [← Event.fault?_of_shape_eq (value.shape_eval c h),
            ← Event.fault?_assign _ c symbol value span v] at hev
          exact (Heap.heap_assign_of_fault hev).trans hwrote.heap_eq
  | case5 target value span h hname =>
    refine ⟨[], .nil, ?_, rfl⟩
    rw [events]
    · rfl
    · exact hname

/-- An expression succeeds unless an event is refused in the heap that it starts in, and otherwise
    fails as the first such event does. In both cases it has made the assignments before, in order
    and each with the value of its right side, and has changed nothing else. -/
theorem first_refused_event_decides (e : Expr) (c : Nat) (h : Heap) :
    ((∃ v, (e.eval c h).result = .ok v) ↔ ∀ ev ∈ e.events, ev.fault? h c = none) ∧
      (∀ fault, (e.eval c h).result = .error fault ↔
        ∃ before ev after, e.events = before ++ ev :: after ∧ ev.fault? h c = some fault ∧
          ∀ other ∈ before, other.fault? h c = none) ∧
      (∀ (ev : Event) (fault : Fault), ev.fault? h c = some fault →
        fault.problem.category = ev.category ∧ fault.problem.span = ev.span) ∧
      ∃ writes, (e.eval c h).Wrote c h e.events writes := by
  refine ⟨?_, fun fault => ?_, fun ev fault => Event.problem_of_fault?, e.exists_wrote c h⟩
  · rw [← Outcome.fault?_eq_none_iff, e.fault?_eval, List.findSome?_eq_none_iff]
  · rw [← Outcome.fault?_eq_some_iff, e.fault?_eval, List.findSome?_eq_some_iff]

end Quill
