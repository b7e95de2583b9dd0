import Quill.Heap

/-!
# Resolving names

A name that is used in a scope is sought on a path: the scope itself, its parent, the parent of
that, and so on. The first scope of the path that binds the name is its owner. What becomes of a use
depends on the owner alone.

* `Heap.lookup_eq`, `Heap.assign_eq`: using a name and assigning to it, in terms of its owner.
* `Heap.assign_cases`, `Heap.declare_cases`: a use that is refused changes nothing, and one that is
  not changes one binding.
-/

namespace Quill

/-! ## One scope -/

namespace Scope

theorem lookup_cons_ite (name key : String) (b : Binding) (rest : List (String × Binding)) :
    List.lookup name ((key, b) :: rest) = if name = key then some b else rest.lookup name := by
  rw [List.lookup_cons]
  split
  · rename_i h
    rw [if_pos (eq_of_beq h)]
  · rename_i h
    rw [if_neg (ne_of_beq_false h)]

variable (s : Scope) (name : String)

@[simp] theorem parent_bind (b : Binding) : (s.bind name b).parent = s.parent := rfl

@[simp] theorem parent_rebind (value : Value) : (s.rebind name value).parent = s.parent := rfl

theorem find?_bind (b : Binding) (other : String) :
    (s.bind name b).find? other = if other = name then some b else s.find? other :=
  lookup_cons_ite other name b s.bindings

theorem find?_rebind (value : Value) (other : String) :
    (s.rebind name value).find? other =
      if other = name then (s.find? name).map fun b => { b with value := value }
      else s.find? other := by
  unfold find? rebind
  dsimp only
  induction s.bindings with
  | nil => simp
  | cons entry rest ih =>
    obtain ⟨key, b⟩ := entry
    rw [List.map_cons, lookup_cons_ite, lookup_cons_ite]
    by_cases hkey : key = name
    · rw [if_pos hkey, lookup_cons_ite, ih, hkey]
      by_cases h : other = name
      · simp only [if_pos h, if_true, Option.map_some]
      · simp only [if_neg h]
    · rw [if_neg hkey, lookup_cons_ite, ih, if_neg (Ne.symm hkey)]
      by_cases h : other = name
      · rw [if_pos h, if_neg (h ▸ Ne.symm hkey), if_pos h]
      · rw [if_neg h, if_neg h]

end Scope

/-! ## The owner of a name -/

namespace Heap

variable (h : Heap)

/-- What a scope itself binds a name to. -/
def binding? (c : Nat) (name : String) : Option Binding := h.scopes[c]?.bind (·.find? name)

/-- The scopes in which a name is sought, from scope `c` outwards. -/
def path (c : Nat) : List Nat :=
  match h.scopes[c]? with
  | none => []
  | some s =>
    match s.parent with
    | none => [c]
    | some p => if p < c then c :: path p else [c]
termination_by c

/-- The first of some scopes that binds a name, and what it binds it to. -/
def search (scopes : List Nat) (name : String) : Option (Nat × Binding) :=
  scopes.findSome? fun o => (h.binding? o name).map fun b => (o, b)

/-- The nearest scope from `c` outwards that binds a name, and what it binds it to. -/
def owner? (c : Nat) (name : String) : Option (Nat × Binding) := h.search (h.path c) name

/-- A scope that binds a name owns it; otherwise its parent knows the owner. -/
theorem owner?_eq (c : Nat) (name : String) :
    h.owner? c name =
      match h.scopes[c]? with
      | none => none
      | some s =>
        match s.find? name with
        | some b => some (c, b)
        | none =>
          match s.parent with
          | none => none
          | some p => if p < c then h.owner? p name else none := by
  rw [owner?, search, path]
  cases hc : h.scopes[c]? with
  | none => rfl
  | some s =>
    have hown : h.binding? c name = s.find? name := by rw [binding?, hc, Option.bind_some]
    dsimp only
    cases s.parent with
    | none =>
      rw [List.findSome?_singleton, hown]
      cases s.find? name <;> rfl
    | some p =>
      dsimp only
      by_cases hp : p < c
      · rw [if_pos hp, if_pos hp, List.findSome?_cons, hown]
        cases s.find? name <;> rfl
      · rw [if_neg hp, if_neg hp, List.findSome?_singleton, hown]
        cases s.find? name <;> rfl

theorem lookup_eq (c : Nat) (name : String) :
    h.lookup c name =
      match h.owner? c name with
      | some (_, b) => .ok b.value
      | none => .error (.undefined name) := by
  fun_induction lookup h c name with
  | case1 c hc => rw [owner?_eq, hc]
  | case2 c s hc b hb => rw [owner?_eq, hc]; simp only [hb]
  | case3 c s hc hb hp => rw [owner?_eq, hc]; simp only [hb, hp]
  | case4 c s hc hb p hp hlt ih => rw [ih, owner?_eq h c, hc]; simp only [hb, hp, if_pos hlt]
  | case5 c s hc hb p hp hlt => rw [owner?_eq, hc]; simp only [hb, hp, if_neg hlt]

theorem assign_eq (c : Nat) (name : String) (value : Value) :
    h.assign c name value =
      match h.owner? c name with
      | some (o, b) =>
        if b.constant then .fail (.constant name) h
        else ⟨.ok value, h.modify o (·.rebind name value), [.assigned name value]⟩
      | none => .fail (.undefined name) h := by
  fun_induction assign h c name value with
  | case1 c hc => rw [owner?_eq, hc]
  | case2 c s hc b hb hk => rw [owner?_eq, hc]; simp only [hb, if_pos hk]
  | case3 c s hc b hb hk => rw [owner?_eq, hc]; simp only [hb, if_neg hk]
  | case4 c s hc hb hp => rw [owner?_eq, hc]; simp only [hb, hp]
  | case5 c s hc hb p hp hlt ih => rw [ih, owner?_eq h c, hc]; simp only [hb, hp, if_pos hlt]
  | case6 c s hc hb p hp hlt => rw [owner?_eq, hc]; simp only [hb, hp, if_neg hlt]

/-- The owner of a name is on the path, and binds it. -/
theorem owner?_eq_some {c o : Nat} {name : String} {b : Binding}
    (hown : h.owner? c name = some (o, b)) : o ∈ h.path c ∧ h.binding? o name = some b := by
  obtain ⟨p, hp, hbinding⟩ := List.exists_of_findSome?_eq_some hown
  obtain ⟨b', hb', heq⟩ := Option.map_eq_some_iff.mp hbinding
  obtain ⟨rfl, rfl⟩ := Prod.mk.inj heq
  exact ⟨hp, hb'⟩

/-! ## Links -/

theorem scopes_modify (c : Nat) (f : Scope → Scope) (i : Nat) :
    (h.modify c f).scopes[i]? = if i = c then h.scopes[i]?.map f else h.scopes[i]? := by
  unfold modify
  rw [List.getElem?_modify]
  by_cases hi : i = c
  · rw [if_pos hi, hi]
    simp
  · rw [if_neg hi]
    simp [Ne.symm hi]

/-- The path depends on the links alone. -/
theorem path_congr {h h' : Heap}
    (hparent : ∀ i : Nat, h'.scopes[i]?.map Scope.parent = h.scopes[i]?.map Scope.parent)
    (c : Nat) : h'.path c = h.path c := by
  induction c using Nat.strongRecOn with
  | _ c ih =>
    have hc := hparent c
    rw [path, path]
    cases hs : h.scopes[c]? with
    | none =>
      rw [hs, Option.map_none, Option.map_eq_none_iff] at hc
      rw [hc]
    | some s =>
      rw [hs, Option.map_some, Option.map_eq_some_iff] at hc
      obtain ⟨s', hs', hparent'⟩ := hc
      rw [hs']
      dsimp only
      rw [hparent']
      cases s.parent with
      | none => rfl
      | some p =>
        dsimp only
        by_cases hp : p < c
        · rw [if_pos hp, if_pos hp, ih p hp]
        · rw [if_neg hp, if_neg hp]

theorem parent_modify (c : Nat) {f : Scope → Scope} (hf : ∀ s, (f s).parent = s.parent) (i : Nat) :
    (h.modify c f).scopes[i]?.map Scope.parent = h.scopes[i]?.map Scope.parent := by
  rw [scopes_modify]
  split
  · cases h.scopes[i]? with
    | none => rfl
    | some scope => simp [hf]
  · rfl

theorem path_modify (c : Nat) {f : Scope → Scope} (hf : ∀ s, (f s).parent = s.parent) (s : Nat) :
    (h.modify c f).path s = h.path s :=
  path_congr (h.parent_modify c hf) s

/-- A search depends on what the scopes bind the name to. -/
theorem search_congr {h h' : Heap} {scopes : List Nat} {name : String}
    (hbinding : ∀ i ∈ scopes, h'.binding? i name = h.binding? i name) :
    h'.search scopes name = h.search scopes name := by
  unfold search
  induction scopes with
  | nil => rfl
  | cons i rest ih =>
    have hrest := ih fun j hj => hbinding j (List.mem_cons_of_mem i hj)
    rw [List.findSome?_cons, List.findSome?_cons, hbinding i List.mem_cons_self, hrest]

/-! ## Changes -/

/-- A change of one binding by a program that runs in scope `c`. -/
inductive Change (c : Nat) : Heap → Prop
  /-- A variable has another value in the scope that owns it. -/
  | assigned {name : String} {o : Nat} {b : Binding} (value : Value)
      (hown : h.owner? c name = some (o, b)) (hvariable : b.constant = false) :
      Change c (h.modify o (·.rebind name value))
  /-- The scope itself binds a name that it did not bind. -/
  | declared {name : String} {s : Scope} (b : Binding)
      (hscope : h.scopes[c]? = some s) (hfree : s.find? name = none) :
      Change c (h.modify c (·.bind name b))

/-- An assignment is refused and changes nothing, or it gives the value and changes one variable. -/
theorem assign_cases (c : Nat) (name : String) (value : Value) :
    (∃ e, h.assign c name value = .fail e h) ∨
      (h.assign c name value).result = .ok value ∧ h.Change c (h.assign c name value).heap := by
  rw [assign_eq]
  match hown : h.owner? c name with
  | none => exact .inl ⟨_, rfl⟩
  | some (o, b) =>
    dsimp only
    by_cases hk : b.constant = true
    · exact .inl ⟨_, if_pos hk⟩
    · rw [if_neg hk]
      exact .inr ⟨rfl, .assigned value hown (Bool.eq_false_iff.mpr hk)⟩

/-- A declaration is refused and changes nothing, or it gives the value and adds one binding. -/
theorem declare_cases (c : Nat) (name : String) (value : Value) (constant : Bool) :
    (∃ e, h.declare c name value constant = .fail e h) ∨
      (h.declare c name value constant).result = .ok value ∧
        h.Change c (h.declare c name value constant).heap := by
  unfold declare
  cases hscope : h.scopes[c]? with
  | none => exact .inl ⟨_, rfl⟩
  | some s =>
    dsimp only
    cases hfind : s.find? name with
    | none => exact .inr ⟨rfl, .declared _ hscope hfind⟩
    | some b => exact .inl ⟨_, rfl⟩

end Heap

end Quill
