import Quill.Proofs.Permanence

/-!
# Visibility

Scopes are shared: several of them may have one parent, so that a change of one binding shows in
some scopes and is hidden in others by bindings that are nearer. A change of a name in a scope shows
exactly where a search for the name comes to that scope.

* `Heap.owns_iff`: the owner of a name is the first scope on the path that binds it.
* `Heap.showsOnly`: where a change of one binding shows.
* `Heap.updates_seen_through_owner`: which assignments and declarations are refused, and what all
  scopes see after those that are not.
-/

namespace Quill.Heap

/-! ## Where a search comes to -/

section Search

variable (h : Heap)

/-- A search for a name that starts in scope `s` comes to scope `o`: it is on the path, and no
    nearer scope binds the name. -/
def Reaches (s : Nat) (name : String) (o : Nat) : Prop :=
  ∃ nearer outer, h.path s = nearer ++ o :: outer ∧ ∀ p ∈ nearer, h.binding? p name = none

/-- Scope `o` is the first on the path of scope `s` that binds a name. -/
def Owns (s : Nat) (name : String) (o : Nat) : Prop :=
  h.Reaches s name o ∧ (h.binding? o name).isSome = true

variable {h} {s o : Nat} {name : String} {b : Binding}

theorem search_eq_some_iff {scopes : List Nat} :
    h.search scopes name = some (o, b) ↔
      (∃ nearer outer, scopes = nearer ++ o :: outer ∧ ∀ p ∈ nearer, h.binding? p name = none) ∧
        h.binding? o name = some b := by
  unfold search
  rw [List.findSome?_eq_some_iff]
  constructor
  · rintro ⟨nearer, p, outer, hscopes, hp, hnearer⟩
    obtain ⟨b', hb', heq⟩ := Option.map_eq_some_iff.mp hp
    obtain ⟨rfl, rfl⟩ := Prod.mk.inj heq
    exact ⟨⟨nearer, outer, hscopes, fun q hq => Option.map_eq_none_iff.mp (hnearer q hq)⟩, hb'⟩
  · rintro ⟨⟨nearer, outer, hscopes, hnearer⟩, hb⟩
    refine ⟨nearer, o, outer, hscopes, ?_, fun q hq => ?_⟩
    · rw [hb, Option.map_some]
    · rw [hnearer q hq, Option.map_none]

theorem search_eq_none_iff {scopes : List Nat} :
    h.search scopes name = none ↔ ∀ p ∈ scopes, h.binding? p name = none := by
  unfold search
  rw [List.findSome?_eq_none_iff]
  simp only [Option.map_eq_none_iff]

theorem owner?_eq_some_iff :
    h.owner? s name = some (o, b) ↔ h.Reaches s name o ∧ h.binding? o name = some b :=
  search_eq_some_iff

theorem owns_iff : h.Owns s name o ↔ ∃ b, h.owner? s name = some (o, b) := by
  unfold Owns
  rw [Option.isSome_iff_exists]
  simp only [owner?_eq_some_iff, exists_and_left]

theorem owner?_eq_none (hno : ∀ o, ¬h.Owns s name o) : h.owner? s name = none := by
  cases hown : h.owner? s name with
  | none => rfl
  | some own => exact absurd (owns_iff.mpr ⟨own.2, hown⟩) (hno own.1)

/-- A search comes to every scope that stands before those that bind the name. -/
theorem reaches_of_mem {nearer outer : List Nat} (hpath : h.path s = nearer ++ outer)
    (hnearer : ∀ p ∈ nearer, h.binding? p name = none) (ho : o ∈ nearer) :
    h.Reaches s name o := by
  obtain ⟨before, after, rfl⟩ := List.append_of_mem ho
  refine ⟨before, after ++ outer, ?_, fun p hp => hnearer p (List.mem_append_left _ hp)⟩
  rw [hpath, List.append_assoc, List.cons_append]

end Search

/-! ## Changing one scope -/

section Modify

variable (h : Heap) (c : Nat) (name : String)

theorem binding?_modify (f : Scope → Scope) (i : Nat) :
    (h.modify c f).binding? i name =
      if i = c then h.scopes[i]?.bind fun s => (f s).find? name else h.binding? i name := by
  unfold binding?
  rw [scopes_modify]
  by_cases hi : i = c
  · rw [if_pos hi, if_pos hi, Option.bind_map]
    rfl
  · rw [if_neg hi, if_neg hi]

theorem binding?_rebind (value : Value) (i : Nat) (m : String) :
    (h.modify c (·.rebind name value)).binding? i m =
      if i = c ∧ m = name then (h.binding? c name).map fun b => { b with value := value }
      else h.binding? i m := by
  rw [binding?_modify]
  by_cases hi : i = c
  · subst hi
    simp only [if_true, true_and, Scope.find?_rebind]
    unfold binding?
    cases h.scopes[i]? <;> simp
  · rw [if_neg hi, if_neg (fun hand => hi hand.1)]

theorem binding?_bind {s : Scope} (hscope : h.scopes[c]? = some s) (b : Binding) (i : Nat)
    (m : String) :
    (h.modify c (·.bind name b)).binding? i m =
      if i = c ∧ m = name then some b else h.binding? i m := by
  rw [binding?_modify]
  by_cases hi : i = c
  · subst hi
    simp only [if_true, true_and, Scope.find?_bind]
    unfold binding?
    rw [hscope, Option.bind_some, Option.bind_some]
  · rw [if_neg hi, if_neg (fun hand => hi hand.1)]

end Modify

/-! ## Where a change shows -/

/-- In a later heap a name has a value in the scopes of which `seen` holds. All other names, and
    this one in all other scopes, have what they had. -/
def ShowsOnly (h h' : Heap) (name : String) (value : Value) (seen : Nat → Prop) : Prop :=
  ∀ (s : Nat) (m : String),
    (m = name ∧ seen s → h'.lookup s m = .ok value) ∧
      (¬(m = name ∧ seen s) → h'.lookup s m = h.lookup s m)

section Change

variable {h h' : Heap} {o : Nat} {name : String} {b : Binding}

theorem lookup_of_reaches {s : Nat} (hreach : h.Reaches s name o)
    (hbinding : h.binding? o name = some b) : h.lookup s name = .ok b.value := by
  rw [lookup_eq, owner?_eq_some_iff.mpr ⟨hreach, hbinding⟩]

/-- A binding that a search does not come to does not change what the search finds. -/
theorem owner?_eq_of_not_reaches {s : Nat} (hpath : h'.path s = h.path s)
    (hsame : ∀ p, p ≠ o → h'.binding? p name = h.binding? p name)
    (hreach : ¬h.Reaches s name o) : h'.owner? s name = h.owner? s name := by
  match hown : h.owner? s name with
  | none =>
    -- the search goes through the whole path, so the binding is not on it
    have hfree := search_eq_none_iff.mp hown
    unfold owner?
    rw [search_eq_none_iff, hpath]
    intro p hp
    have hne : p ≠ o := by
      rintro rfl
      exact hreach (reaches_of_mem (List.append_nil _).symm hfree hp)
    rw [hsame p hne, hfree p hp]
  | some (o', b') =>
    -- the search ends before it gets to the binding
    obtain ⟨⟨nearer, outer, hsplit, hnearer⟩, hb'⟩ := owner?_eq_some_iff.mp hown
    have hne' : o' ≠ o := by
      rintro rfl
      exact hreach ⟨nearer, outer, hsplit, hnearer⟩
    refine owner?_eq_some_iff.mpr ⟨⟨nearer, outer, hpath.trans hsplit, ?_⟩, ?_⟩
    · intro p hp
      have hne : p ≠ o := by
        rintro rfl
        exact hreach (reaches_of_mem hsplit hnearer hp)
      rw [hsame p hne, hnearer p hp]
    · rw [hsame o' hne', hb']

/-- A change of the binding of a name in one scope shows in the scopes from which a search for the
    name comes there, and nowhere else. -/
theorem showsOnly (hpath : ∀ s, h'.path s = h.path s)
    (hsame : ∀ p m, ¬(p = o ∧ m = name) → h'.binding? p m = h.binding? p m)
    (hnew : h'.binding? o name = some b) :
    h.ShowsOnly h' name b.value (h.Reaches · name o) := by
  intro s m
  constructor
  · rintro ⟨rfl, nearer, outer, hsplit, hnearer⟩
    refine lookup_of_reaches ⟨nearer, outer, (hpath s).trans hsplit, fun p hp => ?_⟩ hnew
    -- no scope is on the path twice
    have hne : p ≠ o := by
      rintro rfl
      have hnodup := h.nodup_path s
      rw [hsplit] at hnodup
      exact (List.nodup_append.mp hnodup).2.2 p hp p List.mem_cons_self rfl
    rw [hsame p m (fun hand => hne hand.1), hnearer p hp]
  · intro hnot
    have hown : h'.owner? s m = h.owner? s m := by
      by_cases hm : m = name
      · subst hm
        exact owner?_eq_of_not_reaches (hpath s) (fun p hp => hsame p m fun hand => hp hand.1)
          fun hreach => hnot ⟨rfl, hreach⟩
      · unfold owner?
        rw [hpath s]
        exact search_congr fun p _ => hsame p m fun hand => hm hand.2
    rw [lookup_eq, lookup_eq, hown]

end Change

/-! ## Assignments and declarations -/

section Updates

variable {h : Heap} {c o : Nat} {name : String} {b : Binding}

theorem assign_of_owns (hown : h.Owns c name o) (hb : h.binding? o name = some b)
    (value : Value) :
    h.assign c name value =
      if b.constant then .fail (.constant name) h
      else ⟨.ok value, h.modify o (·.rebind name value), [.assigned name value]⟩ := by
  have howner : h.owner? c name = some (o, b) := owner?_eq_some_iff.mpr ⟨hown.1, hb⟩
  rw [assign_eq, howner]

/-- Another value of a binding shows where the binding is the nearest. -/
theorem showsOnly_rebind (hb : h.binding? o name = some b) (value : Value) :
    h.ShowsOnly (h.modify o (·.rebind name value)) name value (h.Owns · name o) := by
  have hpath := h.path_modify o fun s => s.parent_rebind name value
  have hnew : (h.modify o (·.rebind name value)).binding? o name =
      some { b with value := value } := by
    rw [binding?_rebind, if_pos ⟨rfl, rfl⟩, hb, Option.map_some]
  have hshows := showsOnly hpath (fun p m hnot => by rw [binding?_rebind, if_neg hnot]) hnew
  have hbound : (h.binding? o name).isSome = true := Option.isSome_of_eq_some hb
  have howns : (h.Owns · name o) = (h.Reaches · name o) := by
    funext s
    exact propext (and_iff_left hbound)
  rw [howns]
  exact hshows

theorem declare_of_binding?_eq_some (hb : h.binding? c name = some b) (value : Value)
    (constant : Bool) : h.declare c name value constant = .fail (.alreadyDeclared name) h := by
  obtain ⟨s, hs, hfind⟩ := Option.bind_eq_some_iff.mp hb
  unfold declare
  rw [hs]
  dsimp only
  rw [hfind]

theorem declare_of_binding?_eq_none (hc : c < h.scopes.length) (hfree : h.binding? c name = none)
    (value : Value) (constant : Bool) :
    h.declare c name value constant =
      ⟨.ok value, h.modify c (·.bind name ⟨value, constant⟩),
        [.declared name value constant]⟩ := by
  have hs := List.getElem?_eq_getElem hc
  unfold binding? at hfree
  rw [hs, Option.bind_some] at hfree
  unfold declare
  rw [hs]
  dsimp only
  rw [hfree]

/-- A new binding shows where a search for its name comes to its scope. -/
theorem showsOnly_bind (hc : c < h.scopes.length) (b : Binding) :
    h.ShowsOnly (h.modify c (·.bind name b)) name b.value (h.Reaches · name c) := by
  have hs := List.getElem?_eq_getElem hc
  have hpath := h.path_modify c fun s => s.parent_bind name b
  refine showsOnly hpath (fun p m hnot => ?_) ?_
  · rw [binding?_bind _ _ _ hs, if_neg hnot]
  · rw [binding?_bind _ _ _ hs, if_pos ⟨rfl, rfl⟩]

end Updates

/-- The path of a scope is its chain of links where parents are older than their children. An
    assignment is refused when the name has no owner or is constant there, whatever the scopes
    further out bind, and nothing changes then. Otherwise it gives the value, which all scopes see
    that have the same owner of the name. A declaration is refused just if the scope itself binds
    the name, and nothing changes then. Otherwise it gives the value, which all scopes see from
    which a search for the name comes to the scope. Whatever else is looked up anywhere is found as
    before. -/
theorem updates_seen_through_owner (h : Heap) (c : Nat) (name : String) (value : Value) :
    (h.Grounded → ∀ s < h.scopes.length, h.Chain s (h.path s)) ∧
      ((∀ o, ¬h.Owns c name o) → h.assign c name value = .fail (.undefined name) h) ∧
      (∀ o b, h.Owns c name o → h.binding? o name = some b →
        (b.constant = true → h.assign c name value = .fail (.constant name) h) ∧
          (b.constant = false → (h.assign c name value).result = .ok value ∧
            h.ShowsOnly (h.assign c name value).heap name value (h.Owns · name o))) ∧
      ∀ constant, c < h.scopes.length →
        ((h.binding? c name).isSome = true →
          h.declare c name value constant = .fail (.alreadyDeclared name) h) ∧
        (h.binding? c name = none → (h.declare c name value constant).result = .ok value ∧
          h.ShowsOnly (h.declare c name value constant).heap name value
            (h.Reaches · name c)) := by
  refine ⟨fun hground s hs => hground.chain_path hs, ?_, ?_, ?_⟩
  · intro hno
    rw [assign_eq, owner?_eq_none hno]
  · intro o b hown hb
    have hassign := assign_of_owns hown hb value
    constructor
    · intro hconstant
      rw [hassign, if_pos hconstant]
    · intro hvariable
      rw [hassign, hvariable]
      exact ⟨rfl, showsOnly_rebind hb value⟩
  · intro constant hc
    constructor
    · intro hbound
      obtain ⟨b, hb⟩ := Option.isSome_iff_exists.mp hbound
      exact declare_of_binding?_eq_some hb value constant
    · intro hfree
      rw [declare_of_binding?_eq_none hc hfree value constant]
      exact ⟨rfl, showsOnly_bind hc ⟨value, constant⟩⟩

/-- Globals with a variable, and two children of theirs, the second of which hides the variable
    behind a constant. -/
def siblings : Heap :=
  ⟨[Scope.globals.bind "x" ⟨.null, false⟩, .empty (some 0),
    (Scope.empty (some 0)).bind "x" ⟨.boolean true, true⟩]⟩

/-- What the first child assigns is seen in the globals, but not in the second child. What it then
    declares is seen in itself only. -/
theorem siblings_see_updates :
    siblings.Owns 1 "x" 0 ∧
      siblings.binding? 0 "x" = some ⟨.null, false⟩ ∧
      (siblings.assign 1 "x" (.boolean false)).result = .ok (.boolean false) ∧
      (siblings.assign 1 "x" (.boolean false)).heap.lookup 0 "x" = .ok (.boolean false) ∧
      (siblings.assign 1 "x" (.boolean false)).heap.lookup 2 "x" = siblings.lookup 2 "x" ∧
      siblings.binding? 1 "x" = none ∧
      (siblings.declare 1 "x" (.boolean false) true).heap.lookup 1 "x" = .ok (.boolean false) ∧
      (siblings.declare 1 "x" (.boolean false) true).heap.lookup 0 "x" =
        siblings.lookup 0 "x" := by
  have hpaths : siblings.path 0 = [0] ∧ siblings.path 1 = [1, 0] ∧ siblings.path 2 = [2, 0] := by
    decide +kernel
  obtain ⟨hpath₀, hpath₁, hpath₂⟩ := hpaths
  have hbinding : siblings.binding? 0 "x" = some ⟨.null, false⟩ := by decide
  have hfree : siblings.binding? 1 "x" = none := by decide
  have howns₀ : siblings.Owns 0 "x" 0 := ⟨⟨[], [], hpath₀, by simp⟩, by decide⟩
  have howns₁ : siblings.Owns 1 "x" 0 := ⟨⟨[1], [], hpath₁, by simpa using hfree⟩, by decide⟩
  have howns₂ : ¬siblings.Owns 2 "x" 0 := by
    intro howns
    obtain ⟨b, hb⟩ := owns_iff.mp howns
    unfold owner? at hb
    rw [hpath₂] at hb
    cases hb
  have hreach₁ : siblings.Reaches 1 "x" 1 := ⟨[], [0], hpath₁, by simp⟩
  have hreach₀ : ¬siblings.Reaches 0 "x" 1 := by
    rintro ⟨nearer, outer, hsplit, -⟩
    have hmem : 1 ∈ siblings.path 0 := by
      rw [hsplit]
      exact List.mem_append_right _ List.mem_cons_self
    rw [hpath₀] at hmem
    simp at hmem
  obtain ⟨-, -, hassign, hdeclare⟩ := updates_seen_through_owner siblings 1 "x" (.boolean false)
  obtain ⟨hresult, hseen⟩ := (hassign 0 _ howns₁ hbinding).2 rfl
  obtain ⟨-, hdeclared⟩ := (hdeclare true (by decide)).2 hfree
  exact ⟨howns₁, hbinding, hresult, (hseen 0 "x").1 ⟨rfl, howns₀⟩,
    (hseen 2 "x").2 (fun hand => howns₂ hand.2), hfree, (hdeclared 1 "x").1 ⟨rfl, hreach₁⟩,
    (hdeclared 0 "x").2 (fun hand => hreach₀ hand.2)⟩

end Quill.Heap
