import Inlay.Template.Scopes

/-!
# `Proofs.Evaluation.Nesting` — scopes inside of scopes

Nested scopes are the global one alone, or a scope put inside of nested scopes (`Scopes.push`). Every operation follows
that structure: a name is looked up in the innermost scope and, if it is not bound there, in the others, and it is set
where it is found.

Setting a name changes no other one (`Scopes.get?_set_of_ne`), and it opens, closes and renames nothing: all that a
scope binds stays bound, and what it hides of the scopes outside of it stays as it is (`Kept`). A declaration adds a
name to the innermost scope (`Grown`), which goes when that scope is closed (`Grown.exit`).
-/

namespace Inlay

variable {x y : String} {v : Value}

/-! ## One scope -/

namespace Scope

variable {a : Scope}

@[simp] theorem get?_nil (x : String) : get? x [] = none := rfl

theorem get?_cons (x n : String) (w : Value) (a : Scope) :
    get? x ((n, w) :: a) = if n = x then some w else get? x a := by
  by_cases h : n = x
  · simp [get?, h]
  · have hbeq : (x == n) = false := beq_false_of_ne (Ne.symm h)
    simp [get?, List.lookup_cons, h, hbeq]

@[simp] theorem put_nil (x : String) (v : Value) : put x v [] = [(x, v)] := rfl

theorem put_cons (x n : String) (v w : Value) (a : Scope) :
    put x v ((n, w) :: a) = if n = x then (n, v) :: a else (n, w) :: put x v a := by
  by_cases h : n = x <;> simp [put, h]

@[simp] theorem names_cons (n : String) (w : Value) (a : Scope) : names ((n, w) :: a) = n :: names a := rfl

theorem get?_put_self (x : String) (v : Value) (a : Scope) : (a.put x v).get? x = some v := by
  induction a with
  | nil => simp [get?_cons]
  | cons entry a ih =>
      obtain ⟨n, w⟩ := entry
      by_cases h : n = x
      · simp [put_cons, get?_cons, h]
      · simp [put_cons, get?_cons, h, ih]

theorem get?_put_of_ne (h : y ≠ x) (v : Value) (a : Scope) : (a.put x v).get? y = a.get? y := by
  induction a with
  | nil => simp [get?_cons, Ne.symm h]
  | cons entry a ih =>
      obtain ⟨n, w⟩ := entry
      by_cases hn : n = x
      · subst hn
        simp [put_cons, get?_cons, Ne.symm h]
      · simp [put_cons, get?_cons, hn, ih]

theorem get?_eq_none_iff : a.get? x = none ↔ x ∉ a.names := by
  induction a with
  | nil => simp [names]
  | cons entry a ih =>
      obtain ⟨n, w⟩ := entry
      by_cases h : n = x
      · simp [get?_cons, h]
      · simp [get?_cons, h, Ne.symm h, ih]

/-- A name that is bound keeps its place. -/
theorem names_put_of_mem (h : x ∈ a.names) (v : Value) : (a.put x v).names = a.names := by
  induction a with
  | nil => simp [names] at h
  | cons entry a ih =>
      obtain ⟨n, w⟩ := entry
      by_cases hn : n = x
      · simp [put_cons, hn]
      · have hmem : x ∈ names a := by simpa [Ne.symm hn] using h
        simp [put_cons, hn, ih hmem]

theorem names_subset_put (x : String) (v : Value) (a : Scope) : a.names ⊆ (a.put x v).names := by
  induction a with
  | nil => simp [names]
  | cons entry a ih =>
      obtain ⟨n, w⟩ := entry
      by_cases hn : n = x
      · simp [put_cons, hn]
      · simpa [put_cons, hn] using List.cons_subset_cons n ih

theorem mem_names_put : y ∈ (a.put x v).names ↔ y = x ∨ y ∈ a.names := by
  induction a with
  | nil => simp [names]
  | cons entry a ih =>
      obtain ⟨n, w⟩ := entry
      by_cases hn : n = x
      · simp [put_cons, hn]
      · simp [put_cons, hn, ih, or_left_comm]

end Scope

/-! ## Nested scopes -/

namespace Scopes

variable {s s' s'' : Scopes} {a a' : Scope}

/-- Nested scopes with another scope inside all of them. -/
def push (a : Scope) (s : Scopes) : Scopes :=
  { s with inner := a :: s.inner }

/-- **Induction on nested scopes**: the global scope alone, or a scope inside of nested scopes. -/
theorem nested_induction {motive : Scopes → Prop} (global : ∀ g, motive ⟨[], g⟩)
    (push : ∀ a s, motive s → motive (push a s)) (s : Scopes) : motive s := by
  obtain ⟨inner, g⟩ := s
  induction inner with
  | nil => exact global g
  | cons a inner ih => exact push a ⟨inner, g⟩ ih

@[simp] theorem enter_eq (s : Scopes) : s.enter = s.push [] := rfl

@[simp] theorem exit_push (a : Scope) (s : Scopes) : (s.push a).exit = s := rfl

@[simp] theorem depth_push (a : Scope) (s : Scopes) : (s.push a).depth = s.depth + 1 := rfl

@[simp] theorem define_push (x : String) (v : Value) (a : Scope) (s : Scopes) :
    (s.push a).define x v = s.push (a.put x v) := rfl

theorem get?_push (x : String) (a : Scope) (s : Scopes) : (s.push a).get? x = (a.get? x).or (s.get? x) := by
  cases h : a.get? x <;> simp [get?, toList, push, h]

theorem get?_push_of_not_mem (h : x ∉ a.names) (s : Scopes) : (s.push a).get? x = s.get? x := by
  simp [get?_push, Scope.get?_eq_none_iff.mpr h]

@[simp] theorem get?_global (x : String) (g : Scope) : get? x ⟨[], g⟩ = g.get? x := by
  cases h : g.get? x <;> simp [get?, toList, h]

@[simp] theorem set_global (x : String) (v : Value) (g : Scope) : set x v ⟨[], g⟩ = ⟨[], g.put x v⟩ := rfl

theorem set_push_of_mem (h : x ∈ a.names) (v : Value) (s : Scopes) : (s.push a).set x v = s.push (a.put x v) := by
  have hsome : (a.get? x).isSome = true := by
    cases hget : a.get? x with
    | none => exact absurd h (Scope.get?_eq_none_iff.mp hget)
    | some w => rfl
  simp [set, push, setIn?, hsome]

theorem set_push_of_not_mem (h : x ∉ a.names) (v : Value) (s : Scopes) : (s.push a).set x v = (s.set x v).push a := by
  have hnone : (a.get? x).isSome = false := by simp [Scope.get?_eq_none_iff.mpr h]
  cases hset : setIn? x v s.inner <;> simp [set, push, setIn?, hnone, hset]

/-- **A name that is set has its new value.** -/
theorem get?_set_self (x : String) (v : Value) (s : Scopes) : (s.set x v).get? x = some v := by
  induction s using nested_induction with
  | global g => simp [Scope.get?_put_self]
  | push a s ih =>
      by_cases h : x ∈ a.names
      · simp [set_push_of_mem h, get?_push, Scope.get?_put_self]
      · rw [set_push_of_not_mem h, get?_push_of_not_mem h, ih]

/-- **A name that is set is the only one that changes.** -/
theorem get?_set_of_ne (h : y ≠ x) (v : Value) (s : Scopes) : (s.set x v).get? y = s.get? y := by
  induction s using nested_induction with
  | global g => simp [Scope.get?_put_of_ne h]
  | push a s ih =>
      by_cases hx : x ∈ a.names
      · rw [set_push_of_mem hx, get?_push, get?_push, Scope.get?_put_of_ne h]
      · rw [set_push_of_not_mem hx, get?_push, get?_push, ih]

theorem push_inj : s.push a = s'.push a' ↔ a = a' ∧ s = s' := by
  obtain ⟨inner, g⟩ := s
  obtain ⟨inner', g'⟩ := s'
  simp [push, and_assoc]

theorem push_ne_global (a g : Scope) (s : Scopes) : s.push a ≠ ⟨[], g⟩ := by
  simp [push]

/-! ## What stays -/

/-- **Scopes that are kept** while variables are set: there are as many as before, and each binds the names that it
    bound before. The global one may bind more. What a scope hides of those outside of it has not changed. -/
inductive Kept : Scopes → Scopes → Prop
  | global {g g' : Scope} (names : g.names ⊆ g'.names) : Kept ⟨[], g⟩ ⟨[], g'⟩
  | push {a a' : Scope} {s s' : Scopes} (names : a'.names = a.names) (hidden : ∀ x ∈ a.names, s'.get? x = s.get? x)
      (outer : Kept s s') : Kept (s.push a) (s'.push a')

/-- **Scopes that have grown** while statements were run: they are kept, but the innermost one may bind more names. -/
inductive Grown : Scopes → Scopes → Prop
  | global {g g' : Scope} (names : g.names ⊆ g'.names) : Grown ⟨[], g⟩ ⟨[], g'⟩
  | push {a a' : Scope} {s s' : Scopes} (names : a.names ⊆ a'.names) (hidden : ∀ x ∈ a.names, s'.get? x = s.get? x)
      (outer : Kept s s') : Grown (s.push a) (s'.push a')

namespace Kept

theorem exists_push (h : Kept (s.push a) s'') : ∃ a' s', s'' = s'.push a' ∧ a'.names = a.names ∧
    (∀ x ∈ a.names, s'.get? x = s.get? x) ∧ Kept s s' := by
  generalize ht : s.push a = t at h
  cases h with
  | global => exact absurd ht (push_ne_global a _ s)
  | push names hidden outer =>
      obtain ⟨rfl, rfl⟩ := push_inj.mp ht
      exact ⟨_, _, rfl, names, hidden, outer⟩

theorem refl (s : Scopes) : Kept s s := by
  induction s using nested_induction with
  | global g => exact .global (List.Subset.refl _)
  | push a s ih => exact .push rfl (fun x _ => rfl) ih

theorem trans (h : Kept s s') (h' : Kept s' s'') : Kept s s'' := by
  induction h generalizing s'' with
  | @global g g' names =>
      generalize ht : (⟨[], g'⟩ : Scopes) = t at h'
      cases h' with
      | global names' =>
          cases ht
          exact .global (List.Subset.trans names names')
      | push => exact absurd ht.symm (push_ne_global _ g' _)
  | @push a a' s s' names hidden _ ih =>
      obtain ⟨a'', s'', rfl, names', hidden', outer'⟩ := h'.exists_push
      refine .push (names'.trans names) (fun x hx => ?_) (ih outer')
      exact (hidden' x (names.symm ▸ hx)).trans (hidden x hx)

/-- **To set a variable keeps the scopes.** -/
theorem set (x : String) (v : Value) (s : Scopes) : Kept s (s.set x v) := by
  induction s using nested_induction with
  | global g => exact .global (Scope.names_subset_put x v g)
  | push a s ih =>
      by_cases h : x ∈ a.names
      · rw [set_push_of_mem h]
        exact .push (Scope.names_put_of_mem h v) (fun y _ => rfl) (refl s)
      · rw [set_push_of_not_mem h]
        refine .push rfl (fun y hy => ?_) ih
        have hne : y ≠ x := fun heq => h (heq ▸ hy)
        exact get?_set_of_ne hne v s

theorem depth_eq (h : Kept s s') : s'.depth = s.depth := by
  induction h with
  | global => rfl
  | push _ _ _ ih => simp [ih]

/-- The scopes inside of the global one bind what they bound. -/
theorem names_inner (h : Kept s s') : s'.inner.map Scope.names = s.inner.map Scope.names := by
  induction h with
  | global => rfl
  | push names _ _ ih => simp [Scopes.push, names, ih]

/-- The global scope binds what it bound. -/
theorem names_global (h : Kept s s') : s.global.names ⊆ s'.global.names := by
  induction h with
  | global names => exact names
  | push _ _ _ ih => exact ih

theorem grown (h : Kept s s') : Grown s s' := by
  cases h with
  | global names => exact .global names
  | push names hidden outer => exact .push (names ▸ List.Subset.refl _) hidden outer

end Kept

namespace Grown

theorem exists_push (h : Grown (s.push a) s'') : ∃ a' s', s'' = s'.push a' ∧ a.names ⊆ a'.names ∧
    (∀ x ∈ a.names, s'.get? x = s.get? x) ∧ Kept s s' := by
  generalize ht : s.push a = t at h
  cases h with
  | global => exact absurd ht (push_ne_global a _ s)
  | push names hidden outer =>
      obtain ⟨rfl, rfl⟩ := push_inj.mp ht
      exact ⟨_, _, rfl, names, hidden, outer⟩

/-- The global scope alone may grow while it is kept. -/
theorem kept_of_global {g : Scope} (h : Grown ⟨[], g⟩ s') : Kept ⟨[], g⟩ s' := by
  generalize ht : (⟨[], g⟩ : Scopes) = t at h
  cases h with
  | global names => exact .global names
  | push => exact absurd ht.symm (push_ne_global _ g _)

theorem trans (h : Grown s s') (h' : Grown s' s'') : Grown s s'' := by
  cases h with
  | global names => exact ((Kept.global names).trans h'.kept_of_global).grown
  | @push a a' s s' names hidden outer =>
      obtain ⟨a'', s'', rfl, names', hidden', outer'⟩ := h'.exists_push
      refine .push (List.Subset.trans names names') (fun x hx => ?_) (outer.trans outer')
      exact (hidden' x (names hx)).trans (hidden x hx)

/-- **A declaration** adds a name to the innermost scope. -/
theorem define (x : String) (v : Value) (s : Scopes) : Grown s (s.define x v) := by
  induction s using nested_induction with
  | global g => exact .global (Scope.names_subset_put x v g)
  | push a s _ => exact .push (Scope.names_subset_put x v a) (fun y _ => rfl) (Kept.refl s)

theorem depth_eq (h : Grown s s') : s'.depth = s.depth := by
  cases h with
  | global => rfl
  | push _ _ outer => simp [outer.depth_eq]

/-- **A scope that is closed** takes its names with it: the others are kept. -/
theorem exit (h : Grown s.enter s') : Kept s s'.exit := by
  obtain ⟨a', s', rfl, -, -, outer⟩ := h.exists_push
  exact outer

/-- **A name that the innermost scope binds** stands for what it stood for outside, once that scope is closed. -/
theorem get?_exit (h : Grown (s.push a) s') (hx : x ∈ a.names) : s'.exit.get? x = s.get? x := by
  obtain ⟨a', s', rfl, -, hidden, -⟩ := h.exists_push
  exact hidden x hx

end Grown

end Scopes

end Inlay
