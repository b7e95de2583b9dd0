import Mathlib.Data.List.Nodup
import Quill.Proofs.Effects
import Quill.Session

/-!
# What stays

Over a whole session nothing that has been bound is lost. Scopes stay and keep their parents, names
stay bound in their scopes, constants keep their values. Parents are older than their children, so
the links from scope to scope end and pass through no scope twice.

* `Session.advance_step`: what one step can do to a heap.
* `Heap.Kept`: what a later heap has kept of an earlier one.
* `Heap.Resolves`: a chain of scopes, none of them twice, decides every use of a name.
* `Session.bindings_permanent`: the statements about every session.
-/

namespace Quill

open Relation (ReflTransGen)

/-! ## One heap and a later one -/

/-- A scope has kept its parent, its names with their constancy, and the values of constants. -/
structure Scope.Kept (s s' : Scope) : Prop where
  parent : s'.parent = s.parent
  binding : ∀ name b, s.find? name = some b →
    ∃ b', s'.find? name = some b' ∧ b'.constant = b.constant ∧
      (b.constant = true → b'.value = b.value)

theorem Scope.Kept.refl (s : Scope) : s.Kept s :=
  ⟨rfl, fun _ b hb => ⟨b, hb, rfl, fun _ => rfl⟩⟩

theorem Scope.Kept.trans {s₁ s₂ s₃ : Scope} (h : s₁.Kept s₂) (h' : s₂.Kept s₃) : s₁.Kept s₃ := by
  refine ⟨h'.parent.trans h.parent, ?_⟩
  intro name b₁ hb₁
  obtain ⟨b₂, hb₂, hconstant, hvalue⟩ := h.binding name b₁ hb₁
  obtain ⟨b₃, hb₃, hconstant', hvalue'⟩ := h'.binding name b₂ hb₂
  refine ⟨b₃, hb₃, hconstant'.trans hconstant, ?_⟩
  intro hk
  rw [hvalue' (hconstant.trans hk), hvalue hk]

/-- A variable may have another value. -/
theorem Scope.kept_rebind {s : Scope} {name : String} {b : Binding} (value : Value)
    (hfind : s.find? name = some b) (hvariable : b.constant = false) :
    s.Kept (s.rebind name value) := by
  refine ⟨s.parent_rebind name value, ?_⟩
  intro other b' hb'
  rw [Scope.find?_rebind]
  by_cases h : other = name
  · subst h
    obtain rfl : b = b' := Option.some.inj (hfind.symm.trans hb')
    rw [if_pos rfl, hfind]
    refine ⟨_, rfl, rfl, ?_⟩
    intro hk
    rw [hvariable] at hk
    cases hk
  · rw [if_neg h]
    exact ⟨b', hb', rfl, fun _ => rfl⟩

/-- A name that was not bound may be bound. -/
theorem Scope.kept_bind {s : Scope} {name : String} (b : Binding) (hfree : s.find? name = none) :
    s.Kept (s.bind name b) := by
  refine ⟨s.parent_bind name b, ?_⟩
  intro other b' hb'
  have hother : other ≠ name := by
    rintro rfl
    rw [hfree] at hb'
    cases hb'
  rw [Scope.find?_bind, if_neg hother]
  exact ⟨b', hb', rfl, fun _ => rfl⟩

/-- A heap has kept all scopes of an earlier one. -/
def Heap.Kept (h h' : Heap) : Prop :=
  ∀ (c : Nat) (s : Scope), h.scopes[c]? = some s →
    ∃ s' : Scope, h'.scopes[c]? = some s' ∧ s.Kept s'

namespace Heap

theorem Kept.refl (h : Heap) : h.Kept h :=
  fun _ s hs => ⟨s, hs, .refl s⟩

theorem Kept.trans {h₁ h₂ h₃ : Heap} (h : h₁.Kept h₂) (h' : h₂.Kept h₃) : h₁.Kept h₃ := by
  intro c s₁ hs₁
  obtain ⟨s₂, hs₂, hkept⟩ := h c s₁ hs₁
  obtain ⟨s₃, hs₃, hkept'⟩ := h' c s₂ hs₂
  exact ⟨s₃, hs₃, hkept.trans hkept'⟩

theorem kept_modify (h : Heap) (c : Nat) {f : Scope → Scope}
    (hf : ∀ s, h.scopes[c]? = some s → s.Kept (f s)) : h.Kept (h.modify c f) := by
  intro i s hs
  unfold modify
  rw [List.getElem?_modify, hs]
  by_cases hi : c = i
  · subst hi
    exact ⟨f s, by simp, hf s hs⟩
  · exact ⟨s, by simp [hi], .refl s⟩

theorem kept_add (h : Heap) (s : Scope) : h.Kept (h.add s) := by
  intro c s' hs'
  have hc := (List.getElem?_eq_some_iff.mp hs').1
  refine ⟨s', ?_, .refl s'⟩
  rw [add, List.getElem?_append_left hc, hs']

theorem Change.kept {h h' : Heap} {c : Nat} (hchange : h.Change c h') : h.Kept h' := by
  cases hchange with
  | @assigned name o b value hown hvariable =>
    refine h.kept_modify o fun s hs => ?_
    have hbinding := (h.owner?_eq_some hown).2
    rw [binding?, hs, Option.bind_some] at hbinding
    exact Scope.kept_rebind value hbinding hvariable
  | @declared name s b hscope hfree =>
    refine h.kept_modify c fun s' hs' => ?_
    obtain rfl : s = s' := Option.some.inj (hscope.symm.trans hs')
    exact Scope.kept_bind b hfree

/-- A constant is found later as it was. -/
theorem Kept.lookup_eq {h h' : Heap} (hkept : h.Kept h') {c : Nat} {name : String} {b : Binding}
    (hbinding : h.binding? c name = some b) (hconstant : b.constant = true) :
    h'.lookup c name = .ok b.value := by
  obtain ⟨s, hs, hfind⟩ := Option.bind_eq_some_iff.mp hbinding
  obtain ⟨s', hs', hscope⟩ := hkept c s hs
  obtain ⟨b', hfind', -, hvalue⟩ := hscope.binding name b hfind
  rw [lookup, hs']
  simp only [hfind', hvalue hconstant]

/-- The words for truth values and for null have their meaning in scope `c`. -/
structure KnowsWords (h : Heap) (c : Nat) : Prop where
  truth : h.lookup c "true" = .ok (.boolean true)
  falsehood : h.lookup c "false" = .ok (.boolean false)
  null : h.lookup c "null" = .ok .null

theorem Kept.knowsWords {h h' : Heap} (hkept : (h.add .globals).Kept h') :
    h'.KnowsWords h.scopes.length := by
  have hbinding (name : String) :
      (h.add .globals).binding? h.scopes.length name = Scope.globals.find? name := by
    rw [binding?, add, List.getElem?_concat_length, Option.bind_some]
  exact ⟨hkept.lookup_eq (hbinding "true") rfl, hkept.lookup_eq (hbinding "false") rfl,
    hkept.lookup_eq (hbinding "null") rfl⟩

/-! ## Chains of scopes -/

/-- Every parent is older than its children. -/
def Grounded (h : Heap) : Prop :=
  ∀ (c p : Nat) (s : Scope), h.scopes[c]? = some s → s.parent = some p → p < c

/-- The scopes to which the links lead from scope `c`, up to one without a parent. -/
inductive Chain (h : Heap) : Nat → List Nat → Prop
  | outermost {c : Nat} {s : Scope} (hscope : h.scopes[c]? = some s) (hparent : s.parent = none) :
      Chain h c [c]
  | within {c p : Nat} {s : Scope} {chain : List Nat} (hscope : h.scopes[c]? = some s)
      (hparent : s.parent = some p) (hchain : Chain h p chain) : Chain h c (c :: chain)

/-- The links from scope `c` end, pass through no scope twice, and every use of a name in `c` is
    decided by the first scope on the way that binds it. -/
structure Resolves (h : Heap) (c : Nat) (chain : List Nat) : Prop where
  links : h.Chain c chain
  nodup : chain.Nodup
  lookup : ∀ name, h.lookup c name =
    match h.search chain name with
    | some (_, b) => .ok b.value
    | none => .error (.undefined name)
  assign : ∀ name value, h.assign c name value =
    match h.search chain name with
    | some (o, b) =>
      if b.constant then .fail (.constant name) h
      else ⟨.ok value, h.modify o (·.rebind name value), [.assigned name value]⟩
    | none => .fail (.undefined name) h

theorem grounded_nil : (⟨[]⟩ : Heap).Grounded := by
  intro c p s hs
  simp at hs

theorem Grounded.modify {h : Heap} (hground : h.Grounded) (c : Nat) {f : Scope → Scope}
    (hf : ∀ s, (f s).parent = s.parent) : (h.modify c f).Grounded := by
  intro i p s hs hparent
  unfold Heap.modify at hs
  rw [List.getElem?_modify, Option.map_eq_map, Option.map_eq_some_iff] at hs
  obtain ⟨s', hs', rfl⟩ := hs
  refine hground i p s' hs' ?_
  by_cases hi : c = i
  · rw [if_pos hi, hf] at hparent
    exact hparent
  · rw [if_neg hi] at hparent
    exact hparent

theorem Grounded.add {h : Heap} (hground : h.Grounded) {s : Scope}
    (hs : ∀ p ∈ s.parent, p < h.scopes.length) : (h.add s).Grounded := by
  intro c p s' hs' hparent
  unfold Heap.add at hs'
  rcases Nat.lt_trichotomy c h.scopes.length with hc | rfl | hc
  · rw [List.getElem?_append_left hc] at hs'
    exact hground c p s' hs' hparent
  · rw [List.getElem?_concat_length] at hs'
    obtain rfl := Option.some.inj hs'
    exact hs p hparent
  · rw [List.getElem?_eq_none (by rw [List.length_append, List.length_singleton]; omega)] at hs'
    cases hs'

theorem Grounded.change {h h' : Heap} {c : Nat} (hground : h.Grounded) (hchange : h.Change c h') :
    h'.Grounded := by
  cases hchange with
  | assigned value => exact hground.modify _ fun s => s.parent_rebind _ value
  | declared b => exact hground.modify _ fun s => s.parent_bind _ b

/-- In a grounded heap the path along which a name is sought follows the links to the end. -/
theorem Grounded.chain_path {h : Heap} (hground : h.Grounded) {c : Nat}
    (hc : c < h.scopes.length) : h.Chain c (h.path c) := by
  induction c using Nat.strongRecOn with
  | _ c ih =>
    have hscope := List.getElem?_eq_getElem hc
    rw [path, hscope]
    dsimp only
    cases hparent : h.scopes[c].parent with
    | none => exact .outermost hscope hparent
    | some p =>
      have hp := hground c p _ hscope hparent
      dsimp only
      rw [if_pos hp]
      exact .within hscope hparent (ih p hp (by omega))

theorem le_of_mem_path {h : Heap} {c o : Nat} (ho : o ∈ h.path c) : o ≤ c := by
  fun_induction path h c with
  | case1 => cases ho
  | case2 c s hc hparent => exact Nat.le_of_eq (List.mem_singleton.mp ho)
  | case3 c s hc p hparent hp ih =>
    rcases List.mem_cons.mp ho with rfl | ho
    · omega
    · have hle := ih ho
      omega
  | case4 c s hc p hparent hp => exact Nat.le_of_eq (List.mem_singleton.mp ho)

theorem nodup_path (h : Heap) (c : Nat) : (h.path c).Nodup := by
  fun_induction path h c with
  | case1 => exact List.nodup_nil
  | case2 c s hc hparent => exact List.nodup_singleton c
  | case3 c s hc p hparent hp ih =>
    refine List.nodup_cons.mpr ⟨?_, ih⟩
    intro hmem
    have hle := le_of_mem_path hmem
    omega
  | case4 c s hc p hparent hp => exact List.nodup_singleton c

theorem Grounded.resolves {h : Heap} (hground : h.Grounded) {c : Nat}
    (hc : c < h.scopes.length) : h.Resolves c (h.path c) :=
  ⟨hground.chain_path hc, h.nodup_path c, h.lookup_eq c, h.assign_eq c⟩

/-! ## Steps -/

/-- What a step of a session can do to a heap. -/
inductive Advance (h : Heap) : Heap → Prop
  /-- Bindings have changed one after another. -/
  | changed {c : Nat} {h' : Heap} (hchanges : ReflTransGen (Heap.Change · c) h h') : Advance h h'
  /-- There is one more scope, and its parent, if any, was there before. -/
  | added {s : Scope} (hparent : ∀ p ∈ s.parent, p < h.scopes.length) : Advance h (h.add s)

theorem Advance.refl (h : Heap) : h.Advance h := @Advance.changed h 0 h .refl

theorem Advance.kept {h h' : Heap} (hadvance : h.Advance h') : h.Kept h' := by
  cases hadvance with
  | changed hchanges =>
    induction hchanges with
    | refl => exact .refl h
    | tail _ hchange ih => exact ih.trans hchange.kept
  | added => exact h.kept_add _

theorem Grounded.advance {h h' : Heap} (hground : h.Grounded) (hadvance : h.Advance h') :
    h'.Grounded := by
  cases hadvance with
  | changed hchanges =>
    induction hchanges with
    | refl => exact hground
    | tail _ hchange ih => exact ih.change hchange
  | added hparent => exact hground.add hparent

end Heap

namespace Session

/-- Whether the parent of a scope that a step makes is there. -/
def Step.Rooted (h : Heap) : Step → Prop
  | .newChild c => c < h.scopes.length
  | _ => True

/-- Whether every scope that some steps make has its parent there by then. -/
def Rooted (h : Heap) : List Step → Prop
  | [] => True
  | s :: rest => s.Rooted h ∧ Rooted (step h s).2 rest

/-- The heap at the start of a session and after each of its steps. -/
def heaps (h : Heap) (steps : List Step) : List Heap := h :: (run h steps).map Prod.snd

theorem heaps_cons (h : Heap) (s : Step) (rest : List Step) :
    heaps h (s :: rest) = h :: heaps (step h s).2 rest := rfl

/-- A step changes single bindings, or it adds a scope. -/
theorem advance_step {h : Heap} {s : Step} (hrooted : s.Rooted h) : h.Advance (step h s).2 := by
  match s with
  | .execute source c => exact .changed (Script.changes_execute _ source c h)
  | .program p c => exact .changed (p.changes .null h)
  | .statement st (.scope c) => exact .changed (st.changes h)
  | .statement st .fresh => exact .refl h
  | .expr e (.scope c) => exact .changed (e.changes h)
  | .expr e .fresh => exact .refl h
  | .declare name value constant c => exact .changed (h.changes_declare c name value constant)
  | .assign name value c => exact .changed (h.changes_assign c name value)
  | .lookup name c => exact .refl h
  | .newScope => exact .added fun p hp => nomatch hp
  | .newGlobals => exact .added fun p hp => nomatch hp
  | .newChild c =>
    refine .added fun p hp => ?_
    obtain rfl : c = p := Option.some.inj hp
    exact hrooted

/-! ## Sessions -/

/-- What holds at the start and is kept by every advance holds throughout a session. -/
theorem forall_mem_heaps {P : Heap → Prop} (hadvance : ∀ h h', P h → h.Advance h' → P h')
    {h : Heap} {steps : List Step} (hstart : P h) (hrooted : Rooted h steps) :
    ∀ h' ∈ heaps h steps, P h' := by
  induction steps generalizing h with
  | nil =>
    intro h' hmem
    rw [List.mem_singleton.mp hmem]
    exact hstart
  | cons s rest ih =>
    intro h' hmem
    rcases List.mem_cons.mp hmem with rfl | hmem
    · exact hstart
    · exact ih (hadvance h _ hstart (advance_step hrooted.1)) hrooted.2 h' hmem

theorem kept_of_mem_heaps {h : Heap} {steps : List Step} (hrooted : Rooted h steps) :
    ∀ h' ∈ heaps h steps, h.Kept h' :=
  forall_mem_heaps (fun _ _ hkept hadvance => hkept.trans hadvance.kept) (.refl h) hrooted

theorem pairwise_kept_heaps {h : Heap} {steps : List Step} (hrooted : Rooted h steps) :
    (heaps h steps).Pairwise Heap.Kept := by
  induction steps generalizing h with
  | nil => exact List.pairwise_singleton _ h
  | cons s rest ih =>
    rw [heaps_cons]
    refine List.pairwise_cons.mpr ⟨?_, ih hrooted.2⟩
    intro h' hmem
    exact kept_of_mem_heaps hrooted h' (List.mem_cons_of_mem _ hmem)

theorem grounded_of_mem_heaps {h : Heap} {steps : List Step} (hground : h.Grounded)
    (hrooted : Rooted h steps) : ∀ h' ∈ heaps h steps, h'.Grounded :=
  forall_mem_heaps (fun _ _ hground hadvance => hground.advance hadvance) hground hrooted

/-- In globals the words are known ever after. -/
theorem knowsWords_of_newGlobals {h : Heap} {steps : List Step} (hrooted : Rooted h steps) {i : Nat}
    (hi : steps[i]? = some .newGlobals) :
    ∃ before, (heaps h steps)[i]? = some before ∧
      ∀ h' ∈ (heaps h steps).drop (i + 1), h'.KnowsWords before.scopes.length := by
  induction steps generalizing h i with
  | nil => cases hi
  | cons s rest ih =>
    cases i with
    | zero =>
      obtain rfl : s = .newGlobals := Option.some.inj hi
      refine ⟨h, rfl, ?_⟩
      intro h' hmem
      have hkept : (h.add .globals).Kept h' := kept_of_mem_heaps hrooted.2 h' hmem
      exact hkept.knowsWords
    | succ i => exact ih hrooted.2 hi

/-- Whatever the steps of a session are, as long as the parents of new scopes are there: each heap
    has kept what all earlier ones held; every parent is older than its children, and a chain of
    links without repetition decides every use of a name; and the words for truth values and for
    null keep their meaning in all globals, from the step that makes them on. -/
theorem bindings_permanent (steps : List Step) (hrooted : Rooted ⟨[]⟩ steps) :
    (heaps ⟨[]⟩ steps).Pairwise Heap.Kept ∧
      (∀ h ∈ heaps ⟨[]⟩ steps,
        h.Grounded ∧ ∀ c < h.scopes.length, ∃ chain, h.Resolves c chain) ∧
      ∀ i, steps[i]? = some .newGlobals →
        ∃ before, (heaps ⟨[]⟩ steps)[i]? = some before ∧
          ∀ h ∈ (heaps ⟨[]⟩ steps).drop (i + 1), h.KnowsWords before.scopes.length := by
  refine ⟨pairwise_kept_heaps hrooted, ?_, fun i hi => knowsWords_of_newGlobals hrooted hi⟩
  intro h hmem
  have hground := grounded_of_mem_heaps Heap.grounded_nil hrooted h hmem
  exact ⟨hground, fun c hc => ⟨h.path c, hground.resolves hc⟩⟩

/-- A text declares a constant in a child of globals and then assigns to it in vain. -/
theorem bindings_permanent_in_child :
    Rooted ⟨[]⟩ [.newGlobals, .newChild 0, .execute "const x = 1; x = 2" 1] ∧
      (heaps ⟨[]⟩ [.newGlobals, .newChild 0, .execute "const x = 1; x = 2" 1]).Pairwise
        Heap.Kept ∧
      (∀ h ∈ heaps ⟨[]⟩ [.newGlobals, .newChild 0, .execute "const x = 1; x = 2" 1],
        h.Grounded ∧ ∀ c < h.scopes.length, ∃ chain, h.Resolves c chain) ∧
      ∀ h ∈ (heaps ⟨[]⟩ [.newGlobals, .newChild 0, .execute "const x = 1; x = 2" 1]).drop 1,
        h.KnowsWords 0 := by
  have hrooted : Rooted ⟨[]⟩ [.newGlobals, .newChild 0, .execute "const x = 1; x = 2" 1] :=
    ⟨trivial, Nat.zero_lt_one, trivial, trivial⟩
  obtain ⟨hkept, hchains, hwords⟩ := bindings_permanent _ hrooted
  obtain ⟨before, hbefore, hknows⟩ := hwords 0 rfl
  obtain rfl : (⟨[]⟩ : Heap) = before := Option.some.inj hbefore
  exact ⟨hrooted, hkept, hchains, hknows⟩

end Session

end Quill
