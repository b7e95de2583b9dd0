import Quill.Proofs.Order
import Quill.Proofs.Visibility

/-!
# Footprints

What a run may have changed when it ends, or when it is stopped by a fault, can be told from the
program. It works on the path along which names are sought from its scope. Bindings are added to
that scope alone and are those that the program declares. Of the bindings that were there before,
those of variables that the program assigns to may have other values, and nothing else is lost or
altered.

* `Heap.Footprint`: what may differ between a heap and a later one.
* `Heap.footprint_assign`, `Heap.footprint_declare`: an assignment and a declaration.
* `Expr.footprint_eval`, `Statement.footprint_eval`: the parts of a program.
* `Program.changes_within_footprint`: every program in every heap.
-/

namespace Quill

/-! ## The names of a program -/

/-- An expression has, at any depth, an assignment to a name. -/
def Expr.Assigns (e : Expr) (name : String) : Prop :=
  ∃ place value span, Expr.assign (.name name place) value span ∈ e.nodes

/-- What is inside a part of an expression is inside the expression. -/
theorem Expr.mem_nodes_of_mem_parts {e part node : Expr} (hpart : part ∈ e.parts)
    (hnode : node ∈ part.nodes) : node ∈ e.nodes := by
  cases e with
  | assign target value span =>
    rcases List.mem_pair.mp hpart with rfl | rfl
    · exact List.mem_cons_of_mem _ (List.mem_append_left _ hnode)
    · exact List.mem_cons_of_mem _ (List.mem_append_right _ hnode)
  | binary left op right span =>
    rcases List.mem_pair.mp hpart with rfl | rfl
    · exact List.mem_cons_of_mem _ (List.mem_append_left _ hnode)
    · exact List.mem_cons_of_mem _ (List.mem_append_right _ hnode)
  | name => cases hpart
  | number => cases hpart

theorem Expr.Assigns.of_part {e part : Expr} {name : String} (h : part.Assigns name)
    (hpart : part ∈ e.parts) : e.Assigns name := by
  obtain ⟨place, value, span, hmem⟩ := h
  exact ⟨place, value, span, mem_nodes_of_mem_parts hpart hmem⟩

/-- A program has an assignment to a name in one of its statements. -/
def Program.Assigns (p : Program) (name : String) : Prop :=
  ∃ st ∈ p, ∃ e ∈ st.expression?, e.Assigns name

/-- A program has a declaration of a name, as a constant or as a variable. -/
def Program.Declares (p : Program) (name : String) (constant : Bool) : Prop :=
  ∃ value span, Statement.declare name constant value span ∈ p

/-! ## What may have changed -/

namespace Heap

/-- What a run in scope `c` makes of a heap, if it assigns to some names and declares others. -/
structure Footprint (c : Nat) (assigned : String → Prop) (declared : String → Bool → Prop)
    (h h' : Heap) : Prop where
  /-- There are as many scopes as before. -/
  length : h'.scopes.length = h.scopes.length
  /-- Every scope has the parent that it had. -/
  parent : ∀ i : Nat, h'.scopes[i]?.map Scope.parent = h.scopes[i]?.map Scope.parent
  /-- A scope in which no name is sought is the same. -/
  outside : ∀ i ∉ h.path c, h'.scopes[i]? = h.scopes[i]?
  /-- A binding that is new is one of the scope itself, and it is declared in this way. -/
  gained : ∀ i name b, h.binding? i name = none → h'.binding? i name = some b →
    i = c ∧ declared name b.constant
  /-- A binding that was there still is, and has its value unless it is that of a variable that is
      assigned to. -/
  kept : ∀ i name b, h.binding? i name = some b → ∃ b', h'.binding? i name = some b' ∧
    b'.constant = b.constant ∧ (b'.value = b.value ∨ b.constant = false ∧ assigned name)

variable {c : Nat} {assigned : String → Prop} {declared : String → Bool → Prop}

namespace Footprint

theorem refl (h : Heap) : h.Footprint c assigned declared h := by
  refine ⟨rfl, fun _ => rfl, fun _ _ => rfl, ?_, fun _ _ b hb => ⟨b, hb, rfl, .inl rfl⟩⟩
  intro i name b hfree hb
  rw [hfree] at hb
  cases hb

theorem trans {h₁ h₂ h₃ : Heap} (h : h₁.Footprint c assigned declared h₂)
    (h' : h₂.Footprint c assigned declared h₃) : h₁.Footprint c assigned declared h₃ := by
  refine ⟨h'.length.trans h.length, fun i => (h'.parent i).trans (h.parent i), ?_, ?_, ?_⟩
  · intro i hi
    have hi₂ : i ∉ h₂.path c := by
      rw [path_congr h.parent]
      exact hi
    exact (h'.outside i hi₂).trans (h.outside i hi)
  · intro i name b₃ hfree hb₃
    cases hb₂ : h₂.binding? i name with
    | none => exact h'.gained i name b₃ hb₂ hb₃
    | some b₂ =>
      -- the first part has made the binding, and the second has left it as it was declared
      obtain ⟨b, hb, hconstant, -⟩ := h'.kept i name b₂ hb₂
      obtain rfl : b₃ = b := Option.some.inj (hb₃.symm.trans hb)
      rw [hconstant]
      exact h.gained i name b₂ hfree hb₂
  · intro i name b₁ hb₁
    obtain ⟨b₂, hb₂, hconstant, hvalue⟩ := h.kept i name b₁ hb₁
    obtain ⟨b₃, hb₃, hconstant', hvalue'⟩ := h'.kept i name b₂ hb₂
    refine ⟨b₃, hb₃, hconstant'.trans hconstant, ?_⟩
    rcases hvalue' with hvalue' | ⟨hvariable, hassigned⟩
    · rw [hvalue']
      exact hvalue
    · exact .inr ⟨hconstant.symm.trans hvariable, hassigned⟩

end Footprint

/-! ## Single changes -/

variable (h : Heap)

theorem mem_path_self {s : Scope} (hscope : h.scopes[c]? = some s) : c ∈ h.path c := by
  rw [path, hscope]
  dsimp only
  split
  · exact List.mem_singleton_self c
  · split
    · exact List.mem_cons_self
    · exact List.mem_singleton_self c

theorem footprint_rebind {name : String} {o : Nat} {b : Binding}
    (hown : h.owner? c name = some (o, b)) (hvariable : b.constant = false)
    (hassigned : assigned name) (value : Value) :
    h.Footprint c assigned declared (h.modify o (·.rebind name value)) := by
  obtain ⟨ho, hb⟩ := h.owner?_eq_some hown
  have hparent := h.parent_modify o fun s => s.parent_rebind name value
  refine ⟨List.length_modify _ _ _, hparent, ?_, ?_, ?_⟩
  · intro i hi
    have hne : i ≠ o := by
      rintro rfl
      exact hi ho
    rw [scopes_modify, if_neg hne]
  · intro i other b' hfree hb'
    rw [binding?_rebind] at hb'
    split at hb'
    · next heq =>
      rw [heq.1, heq.2, hb] at hfree
      cases hfree
    · rw [hfree] at hb'
      cases hb'
  · intro i other b' hb'
    rw [binding?_rebind]
    split
    · next heq =>
      obtain ⟨rfl, rfl⟩ := heq
      obtain rfl : b = b' := Option.some.inj (hb.symm.trans hb')
      rw [hb]
      exact ⟨_, rfl, rfl, .inr ⟨hvariable, hassigned⟩⟩
    · exact ⟨b', hb', rfl, .inl rfl⟩

theorem footprint_bind {name : String} {s : Scope} {b : Binding} (hscope : h.scopes[c]? = some s)
    (hfree : s.find? name = none) (hdeclared : declared name b.constant) :
    h.Footprint c assigned declared (h.modify c (·.bind name b)) := by
  have hunbound : h.binding? c name = none := by
    rw [binding?, hscope, Option.bind_some, hfree]
  have hparent := h.parent_modify c fun s => s.parent_bind name b
  refine ⟨List.length_modify _ _ _, hparent, ?_, ?_, ?_⟩
  · intro i hi
    have hne : i ≠ c := by
      rintro rfl
      exact hi (h.mem_path_self hscope)
    rw [scopes_modify, if_neg hne]
  · intro i other b' hnone hb'
    rw [binding?_bind _ _ _ hscope] at hb'
    split at hb'
    · next heq =>
      obtain ⟨rfl, rfl⟩ := heq
      obtain rfl : b = b' := Option.some.inj hb'
      exact ⟨rfl, hdeclared⟩
    · rw [hnone] at hb'
      cases hb'
  · intro i other b' hb'
    rw [binding?_bind _ _ _ hscope]
    split
    · next heq =>
      rw [heq.1, heq.2, hunbound] at hb'
      cases hb'
    · exact ⟨b', hb', rfl, .inl rfl⟩

theorem footprint_assign {name : String} (hassigned : assigned name) (value : Value) :
    h.Footprint c assigned declared (h.assign c name value).heap := by
  rw [assign_eq]
  match hown : h.owner? c name with
  | none => exact .refl h
  | some (o, b) =>
    dsimp only
    by_cases hk : b.constant = true
    · rw [if_pos hk]
      exact .refl h
    · rw [if_neg hk]
      exact h.footprint_rebind hown (Bool.eq_false_iff.mpr hk) hassigned value

theorem footprint_declare {name : String} {constant : Bool} (hdeclared : declared name constant)
    (value : Value) :
    h.Footprint c assigned declared (h.declare c name value constant).heap := by
  unfold declare
  cases hscope : h.scopes[c]? with
  | none => exact .refl h
  | some s =>
    dsimp only
    cases hfind : s.find? name with
    | none => exact h.footprint_bind hscope hfind hdeclared
    | some b => exact .refl h

end Heap

/-! ## Runs -/

section Runs

variable {c : Nat} {assigned : String → Prop} {declared : String → Bool → Prop}

/-- Two parts stay within what each of them may change. -/
theorem Outcome.footprint_andThen {ε α β : Type} {o : Outcome ε α} {f : α → Heap → Outcome ε β}
    {h : Heap} (ho : h.Footprint c assigned declared o.heap)
    (hf : ∀ a (h : Heap), h.Footprint c assigned declared (f a h).heap) :
    h.Footprint c assigned declared (o.andThen f).heap :=
  related_andThen .trans ho hf

theorem Expr.footprint_eval (e : Expr) (h : Heap) (he : ∀ name, e.Assigns name → assigned name) :
    h.Footprint c assigned declared (e.eval c h).heap := by
  fun_induction Expr.eval c e h with
  | case1 => exact .refl _
  | case2 => exact .refl _
  | case3 left op right span h ihleft ihright =>
    have hleft := ihleft fun name hname => he name (hname.of_part List.mem_cons_self)
    refine Outcome.footprint_andThen hleft fun a h => ?_
    have hright := ihright h fun name hname =>
      he name (hname.of_part (List.mem_pair.mpr (.inr rfl)))
    refine Outcome.footprint_andThen hright fun b h => ?_
    rw [op.heap_combine]
    exact .refl h
  | case4 symbol place value span h ih =>
    have hvalue := ih fun name hname => he name (hname.of_part (List.mem_pair.mpr (.inr rfl)))
    refine Outcome.footprint_andThen hvalue fun v h => ?_
    exact h.footprint_assign (he symbol ⟨place, value, span, List.mem_cons_self⟩) v
  | case5 => exact .refl _

theorem Statement.footprint_eval (st : Statement) (h : Heap)
    (he : ∀ e ∈ st.expression?, ∀ name, e.Assigns name → assigned name)
    (hdeclared : ∀ name constant value span,
      st = .declare name constant value span → declared name constant) :
    h.Footprint c assigned declared (st.eval c h).heap := by
  match st with
  | .expression e _ => exact e.footprint_eval h (he e rfl)
  | .declare name constant (some e) span =>
    refine Outcome.footprint_andThen (e.footprint_eval h (he e rfl)) fun v h => ?_
    exact h.footprint_declare (hdeclared name constant _ _ rfl) v
  | .declare name constant none span =>
    exact h.footprint_declare (hdeclared name constant _ _ rfl) .null

theorem Program.footprint_evalFrom (p : Program) (last : Value) (h : Heap)
    (hassigned : ∀ name, p.Assigns name → assigned name)
    (hdeclared : ∀ name constant, p.Declares name constant → declared name constant) :
    h.Footprint c assigned declared (p.evalFrom c last h).heap := by
  induction p generalizing last h with
  | nil => exact .refl h
  | cons st p ih =>
    have hst : h.Footprint c assigned declared (st.eval c h).heap := by
      refine st.footprint_eval h ?_ ?_
      · intro e he name hname
        exact hassigned name ⟨st, List.mem_cons_self, e, he, hname⟩
      · rintro name constant value span rfl
        exact hdeclared name constant ⟨value, span, List.mem_cons_self⟩
    refine Outcome.footprint_andThen hst fun v h => ih v h ?_ ?_
    · rintro name ⟨st', hst', e, he, hname⟩
      exact hassigned name ⟨st', List.mem_cons_of_mem st hst', e, he, hname⟩
    · rintro name constant ⟨value, span, hmem⟩
      exact hdeclared name constant ⟨value, span, List.mem_cons_of_mem st hmem⟩

end Runs

/-- Whatever the program and the heap are, and whether the run fails or not, it has changed nothing
    but what its declarations add to its own scope and what its assignments give to variables on the
    path from there. -/
theorem Program.changes_within_footprint (p : Program) (c : Nat) (h : Heap) :
    h.Footprint c p.Assigns p.Declares (p.eval c h).heap :=
  p.footprint_evalFrom .null h (fun _ => id) (fun _ _ => id)

end Quill
