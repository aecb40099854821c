import Mathlib.Data.List.Induction
import Mathlib.Data.List.Infix
import Inlay.Proofs.Evaluation.Nesting

/-!
# `Proofs.Evaluation.Shadowing` — what a scope hides, and what it lets through

Scopes are used through calls in any order (`Scopes.Call`). Take calls that are made inside of a new scope and that do
not close it. They work on the scopes opened since (`Scopes.pushAll`) and on those outside of them, and a name is set
outside only if nothing inside binds it. So the variable that the new scope declares hides the outer one from every
call, and any name that is not declared inside is the same variable inside and outside (`Above`).

One call keeps this picture (`Above.call`), hence any calls do (`above_after`). When the new scope is closed, the
hidden variable is what it was, and the others have the values that they were last set to
(`hidden_variable_is_back`).
-/

namespace Inlay

namespace Scopes

variable {x y z : String} {v : Value} {s outer now : Scopes} {frames : List Scope}

/-! ## Calls -/

/-- A call on nested scopes. -/
inductive Call where
  | enter
  | exit
  | define (name : String) (v : Value)
  | set (name : String) (v : Value)

namespace Call

/-- Whether a call opens a scope. -/
def isEnter : Call → Bool
  | enter => true
  | _ => false

/-- Whether a call closes a scope. -/
def isExit : Call → Bool
  | exit => true
  | _ => false

/-- The name that a call declares. -/
def declared? : Call → Option String
  | define name _ => some name
  | _ => none

/-- What a call sets a name to. -/
def valueFor? (x : String) : Call → Option Value
  | set name v => if name = x then some v else none
  | _ => none

end Call

/-- Nested scopes after a call. -/
def afterCall (s : Scopes) : Call → Scopes
  | .enter => s.enter
  | .exit => s.exit
  | .define x v => s.define x v
  | .set x v => s.set x v

/-- Nested scopes after calls. -/
def after (s : Scopes) (calls : List Call) : Scopes :=
  calls.foldl afterCall s

variable {calls : List Call}

/-- How many scopes calls open. -/
def opened (calls : List Call) : Nat :=
  calls.countP Call.isEnter

/-- How many scopes calls close. -/
def closed (calls : List Call) : Nat :=
  calls.countP Call.isExit

/-- The names that calls declare. -/
def declared (calls : List Call) : List String :=
  calls.filterMap Call.declared?

/-- The value that calls set a name to last. -/
def lastSet? (x : String) (calls : List Call) : Option Value :=
  (calls.filterMap (Call.valueFor? x)).getLast?

/-- **Calls that stay inside** of the scope that they are made in: they never close more scopes than they opened. -/
def StaysInside (calls : List Call) : Prop :=
  ∀ front, front <+: calls → closed front ≤ opened front

instance : Decidable (StaysInside calls) :=
  decidable_of_iff (∀ front ∈ calls.inits, closed front ≤ opened front) (by simp [StaysInside, List.mem_inits])

/-- Calls that close the scope that `calls` are made in, and those opened since. -/
def closings (calls : List Call) : List Call :=
  List.replicate (opened calls - closed calls + 1) .exit

theorem after_append (s : Scopes) (calls calls' : List Call) : s.after (calls ++ calls') = (s.after calls).after calls' :=
  List.foldl_append

theorem StaysInside.of_append {calls' : List Call} (h : StaysInside (calls ++ calls')) : StaysInside calls := by
  intro front hfront
  exact h front (hfront.trans (List.prefix_append calls calls'))

section

variable (calls : List Call) (call : Call)

theorem opened_concat : opened (calls ++ [call]) = opened calls + if call.isEnter then 1 else 0 := by
  simp [opened, List.countP_append, List.countP_singleton]

theorem closed_concat : closed (calls ++ [call]) = closed calls + if call.isExit then 1 else 0 := by
  simp [closed, List.countP_append, List.countP_singleton]

theorem mem_declared_concat : y ∈ declared (calls ++ [call]) ↔ y ∈ declared calls ∨ call.declared? = some y := by
  simp [declared]

theorem lastSet?_concat (x : String) :
    lastSet? x (calls ++ [call]) = (call.valueFor? x).or (lastSet? x calls) := by
  cases h : call.valueFor? x <;> simp [lastSet?, List.filterMap_append, h]

end

/-! ## Scopes inside of others -/

/-- Nested scopes with more scopes inside of them, innermost first. -/
def pushAll (frames : List Scope) (s : Scopes) : Scopes :=
  frames.foldr push s

@[simp] theorem pushAll_nil (s : Scopes) : pushAll [] s = s := rfl

@[simp] theorem pushAll_cons (a : Scope) (frames : List Scope) (s : Scopes) :
    pushAll (a :: frames) s = (pushAll frames s).push a := rfl

/-- **Where a name is set**: in one of the scopes inside, which all keep their names, or else outside of them. -/
theorem set_pushAll (x : String) (v : Value) (frames : List Scope) (outer : Scopes) :
    (∃ frames', (pushAll frames outer).set x v = pushAll frames' outer ∧
      frames'.map Scope.names = frames.map Scope.names ∧ ∃ a ∈ frames, x ∈ a.names) ∨
    ((∀ a ∈ frames, x ∉ a.names) ∧ (pushAll frames outer).set x v = pushAll frames (outer.set x v)) := by
  induction frames with
  | nil => simp
  | cons a frames ih =>
      by_cases hx : x ∈ a.names
      · refine Or.inl ⟨a.put x v :: frames, ?_, ?_, a, List.mem_cons_self, hx⟩
        · simp [set_push_of_mem hx]
        · simp [Scope.names_put_of_mem hx]
      · rcases ih with ⟨frames', hset, hnames, b, hb, hxb⟩ | ⟨hfree, hset⟩
        · refine Or.inl ⟨a :: frames', ?_, ?_, b, List.mem_cons_of_mem a hb, hxb⟩
          · simp [set_push_of_not_mem hx, hset]
          · simp [hnames]
        · refine Or.inr ⟨?_, ?_⟩
          · intro b hb
            rcases List.mem_cons.mp hb with rfl | hb
            · exact hx
            · exact hfree b hb
          · simp [set_push_of_not_mem hx, hset]

/-- To close all scopes inside leaves those outside. -/
theorem after_exits_pushAll (frames : List Scope) (outer : Scopes) :
    (pushAll frames outer).after (List.replicate frames.length .exit) = outer := by
  induction frames with
  | nil => rfl
  | cons a frames ih =>
      show (((pushAll frames outer).push a).exit).after (List.replicate frames.length .exit) = outer
      rw [exit_push, ih]

/-! ## Calls inside of a scope -/

/-- **The picture of calls inside of a scope** that declares `x`: the scopes `frames` are open, and `outer` has become
    of the scopes `s` outside of them. -/
structure Above (x : String) (s : Scopes) (calls : List Call) (frames : List Scope) (outer : Scopes) : Prop where
  /-- Open are the scope itself and those that were opened and not closed. -/
  depth : frames.length + closed calls = opened calls + 1
  /-- The outermost of them declares the name. -/
  hides : ∃ others own, frames = others ++ [own] ∧ x ∈ own.names
  /-- What they bind was declared by the calls. -/
  binds : ∀ a ∈ frames, ∀ y ∈ a.names, y = x ∨ y ∈ declared calls
  /-- The scopes outside are as many as before and bind what they bound. -/
  kept : Kept s outer
  /-- The hidden variable has not changed. -/
  hidden : outer.get? x = s.get? x
  /-- A name that was not declared inside has the value that it was set to last. -/
  visible : ∀ y, y ≠ x → y ∉ declared calls → outer.get? y = (lastSet? y calls).or (s.get? y)

namespace Above

variable {a : Scope} {c : Call}

/-- A new scope that declares the name. -/
theorem start (x : String) (v : Value) (s : Scopes) : Above x s [] [Scope.put x v []] s where
  depth := rfl
  hides := ⟨[], _, rfl, by simp⟩
  binds := by
    intro a ha y hy
    obtain rfl := List.mem_singleton.mp ha
    exact Or.inl (by simpa [Scope.names] using hy)
  kept := .refl s
  hidden := rfl
  visible := fun y _ _ => rfl

theorem binds_concat (h : Above x s calls frames outer) (call : Call) :
    ∀ a ∈ frames, ∀ y ∈ a.names, y = x ∨ y ∈ declared (calls ++ [call]) := by
  intro a ha y hy
  apply (h.binds a ha y hy).imp_right
  intro hmem
  exact (mem_declared_concat calls call).mpr (Or.inl hmem)

/-- A call that sets nothing changes no value outside. -/
theorem visible_concat (h : Above x s calls frames outer) (hc : ∀ y, c.valueFor? y = none) :
    ∀ y, y ≠ x → y ∉ declared (calls ++ [c]) → outer.get? y = (lastSet? y (calls ++ [c])).or (s.get? y) := by
  intro y hne hy
  rw [mem_declared_concat, not_or] at hy
  rw [lastSet?_concat, hc, Option.none_or]
  exact h.visible y hne hy.1

/-- **A scope is opened.** -/
theorem enter (h : Above x s calls frames outer) : Above x s (calls ++ [.enter]) ([] :: frames) outer := by
  have hdepth := h.depth
  refine ⟨?_, ?_, ?_, h.kept, h.hidden, h.visible_concat fun _ => rfl⟩
  · simp [opened_concat, closed_concat, Call.isEnter, Call.isExit]
    omega
  · obtain ⟨others, own, hframes, hx⟩ := h.hides
    exact ⟨[] :: others, own, by rw [hframes, List.cons_append], hx⟩
  · intro b hb y hy
    rcases List.mem_cons.mp hb with rfl | hb
    · cases hy
    · exact h.binds_concat _ b hb y hy

/-- **A scope is closed**, but not the one that declares the name. -/
theorem exit (h : Above x s calls (a :: frames) outer) (hstays : StaysInside (calls ++ [.exit])) :
    Above x s (calls ++ [.exit]) frames outer := by
  have hdepth := h.depth
  have hcount := hstays _ List.prefix_rfl
  simp [opened_concat, closed_concat, Call.isEnter, Call.isExit] at hdepth hcount
  refine ⟨?_, ?_, ?_, h.kept, h.hidden, h.visible_concat fun _ => rfl⟩
  · simp [opened_concat, closed_concat, Call.isEnter, Call.isExit]
    omega
  · obtain ⟨others, own, hframes, hx⟩ := h.hides
    cases others with
    | nil =>
        -- the scope that declares the name would be closed
        obtain ⟨-, rfl⟩ := List.cons.inj hframes
        simp at hdepth
        omega
    | cons b others => exact ⟨others, own, (List.cons.inj hframes).2, hx⟩
  · intro b hb
    exact h.binds_concat _ b (List.mem_cons_of_mem a hb)

/-- **A name is declared** in the innermost scope. -/
theorem define (h : Above x s calls (a :: frames) outer) (z : String) (v : Value) :
    Above x s (calls ++ [.define z v]) (a.put z v :: frames) outer := by
  refine ⟨?_, ?_, ?_, h.kept, h.hidden, h.visible_concat fun _ => rfl⟩
  · simpa [opened_concat, closed_concat, Call.isEnter, Call.isExit] using h.depth
  · obtain ⟨others, own, hframes, hx⟩ := h.hides
    cases others with
    | nil =>
        obtain ⟨rfl, rfl⟩ := List.cons.inj hframes
        exact ⟨[], _, rfl, Scope.names_subset_put z v a hx⟩
    | cons b others =>
        obtain ⟨rfl, rfl⟩ := List.cons.inj hframes
        exact ⟨a.put z v :: others, own, rfl, hx⟩
  · intro b hb y hy
    rcases List.mem_cons.mp hb with rfl | hb
    · rcases Scope.mem_names_put.mp hy with rfl | hy
      · exact Or.inr ((mem_declared_concat calls _).mpr (Or.inr rfl))
      · exact h.binds_concat _ a List.mem_cons_self y hy
    · exact h.binds_concat _ b (List.mem_cons_of_mem a hb) y hy

/-- **A name is set**, inside if something inside binds it, and else outside. -/
theorem set (h : Above x s calls frames outer) (z : String) (v : Value) : ∃ frames' outer',
    (pushAll frames outer).set z v = pushAll frames' outer' ∧ Above x s (calls ++ [.set z v]) frames' outer' := by
  have hdepth : ∀ {frames' : List Scope}, frames'.length = frames.length →
      frames'.length + closed (calls ++ [.set z v]) = opened (calls ++ [.set z v]) + 1 := by
    intro frames' hlength
    simpa [opened_concat, closed_concat, Call.isEnter, Call.isExit, hlength] using h.depth
  obtain ⟨others, own, hframes, hx⟩ := h.hides
  rcases set_pushAll z v frames outer with ⟨frames', hset, hnames, b, hb, hzb⟩ | ⟨hfree, hset⟩
  · refine ⟨frames', outer, hset, hdepth ?_, ?_, ?_, h.kept, h.hidden, ?_⟩
    · simpa using congrArg List.length hnames
    · -- the scopes bind the same names as before, the last one among them
      rw [hframes, List.map_append, List.map_singleton] at hnames
      obtain ⟨others', own', rfl, -, hown⟩ := List.map_eq_append_iff.mp hnames
      obtain ⟨own', rfl, hsame⟩ := List.map_eq_singleton_iff.mp hown
      exact ⟨others', own', rfl, hsame ▸ hx⟩
    · intro c hc y hy
      have hmem : c.names ∈ frames.map Scope.names := hnames ▸ List.mem_map_of_mem hc
      obtain ⟨d, hd, hdc⟩ := List.mem_map.mp hmem
      exact h.binds_concat _ d hd y (hdc ▸ hy)
    · intro y hne hy
      rw [mem_declared_concat, not_or] at hy
      -- what is bound inside is declared inside, so it is another name that was set
      have hyz : z ≠ y := by
        rintro rfl
        exact (h.binds b hb z hzb).elim hne hy.1
      rw [lastSet?_concat, Call.valueFor?, if_neg hyz, Option.none_or]
      exact h.visible y hne hy.1
  · have hzx : x ≠ z := by
      rintro rfl
      exact hfree own (by simp [hframes]) hx
    refine ⟨frames, outer.set z v, hset, hdepth rfl, ⟨others, own, hframes, hx⟩, h.binds_concat _,
      h.kept.trans (Kept.set z v outer), ?_, ?_⟩
    · rw [get?_set_of_ne hzx, h.hidden]
    · intro y hne hy
      rw [mem_declared_concat, not_or] at hy
      rw [lastSet?_concat, Call.valueFor?]
      by_cases hyz : z = y
      · subst hyz
        simp [get?_set_self]
      · rw [if_neg hyz, Option.none_or, get?_set_of_ne (Ne.symm hyz)]
        exact h.visible y hne hy.1

/-- **One call keeps the picture**, unless it closes the scope. -/
theorem call (h : Above x s calls frames outer) (call : Call) (hstays : StaysInside (calls ++ [call])) :
    ∃ frames' outer', (pushAll frames outer).afterCall call = pushAll frames' outer' ∧
      Above x s (calls ++ [call]) frames' outer' := by
  have hne : frames ≠ [] := by
    obtain ⟨others, own, hframes, -⟩ := h.hides
    simp [hframes]
  obtain ⟨a, frames, rfl⟩ := List.exists_cons_of_ne_nil hne
  cases call with
  | enter => exact ⟨_, outer, rfl, h.enter⟩
  | exit => exact ⟨frames, outer, rfl, h.exit hstays⟩
  | define z v => exact ⟨_, outer, rfl, h.define z v⟩
  | set z v => exact h.set z v

end Above

/-- **Any calls keep the picture** that stay inside. The induction is on the calls, the last one split off. -/
theorem above_after (x : String) (v : Value) (s : Scopes) (h : StaysInside calls) :
    ∃ frames outer, ((s.enter.define x v).after calls) = pushAll frames outer ∧ Above x s calls frames outer := by
  induction calls using List.reverseRecOn with
  | nil => exact ⟨[Scope.put x v []], s, rfl, .start x v s⟩
  | append_singleton calls call ih =>
      obtain ⟨frames, outer, hafter, habove⟩ := ih h.of_append
      rw [after_append, hafter]
      exact habove.call call h

/-! ## Closing scopes -/

theorem length_toList (s : Scopes) : s.toList.length = s.depth := by
  simp [toList, depth]

/-- **Scopes that are closed** go from the inside out, and the global one stays, however many there are to close. -/
theorem toList_after_exits (s : Scopes) (n : Nat) :
    (s.after (List.replicate n .exit)).toList = s.toList.drop (min n (s.depth - 1)) := by
  induction n generalizing s with
  | zero => simp [after]
  | succ n ih =>
      show (s.exit.after (List.replicate n .exit)).toList = _
      rw [ih]
      obtain ⟨inner, g⟩ := s
      cases inner with
      | nil => simp [Scopes.exit, toList, depth]
      | cons a inner =>
          have hmin : min (n + 1) (inner.length + 1) = min n inner.length + 1 := by omega
          simp [Scopes.exit, toList, depth, hmin]

/-- Names that are looked up alike have the same value or the same error. -/
theorem get_congr (h : s.get? x = now.get? x) : s.get x = now.get x := by
  rw [get, get, h]

/-- **What a scope hides comes back, and what it does not hide goes through.** Take any nested scopes, open a scope
    and declare `x` there, make any calls that do not close it, and then close it with all that was opened since. The
    outer `x` is what it was, with its value or without one. Any name that was not declared inside has the value that
    the calls set it to last, or what it had before if they did not set it. The scopes are as many as before and bind
    the names that they bound. And however many scopes are closed, after any calls, the outermost one stays. -/
theorem hidden_variable_is_back (s : Scopes) (x : String) (v : Value) (calls : List Call) (h : StaysInside calls) :
    (s.after (.enter :: .define x v :: calls ++ closings calls)).get x = s.get x ∧
      (∀ y, y ≠ x → y ∉ declared calls →
        (s.after (.enter :: .define x v :: calls ++ closings calls)).get y =
          match lastSet? y calls with
          | some w => .ok w
          | none => s.get y) ∧
      Kept s (s.after (.enter :: .define x v :: calls ++ closings calls)) ∧
      ∀ (calls' : List Call) (n : Nat), (s.after calls').toList ≠ [] ∧
        ((s.after calls').after (List.replicate n .exit)).toList =
          (s.after calls').toList.drop (min n ((s.after calls').toList.length - 1)) := by
  obtain ⟨frames, outer, hafter, habove⟩ := above_after x v s h
  have hclosings : closings calls = List.replicate frames.length .exit := by
    have hdepth := habove.depth
    have hlength : opened calls - closed calls + 1 = frames.length := by
      have hcount := h calls List.prefix_rfl
      omega
    rw [closings, hlength]
  have hback : s.after (.enter :: .define x v :: calls ++ closings calls) = outer := by
    show (s.enter.define x v).after (calls ++ closings calls) = outer
    rw [after_append, hafter, hclosings, after_exits_pushAll]
  rw [hback]
  refine ⟨get_congr habove.hidden, ?_, habove.kept, ?_⟩
  · intro y hne hy
    have hvalue := habove.visible y hne hy
    cases hset : lastSet? y calls with
    | some w =>
        rw [hset, Option.some_or] at hvalue
        simp [get, hvalue]
    | none =>
        rw [hset, Option.none_or] at hvalue
        exact get_congr hvalue
  · intro calls' n
    refine ⟨by simp [toList], ?_⟩
    rw [toList_after_exits, length_toList]

/-- **A loop variable of its own**: the outer `x` is 1 again, though 3 was assigned inside, and the undeclared `i` is
    5, though it was assigned two scopes further in and one of them was left open. -/
theorem assigned_variable_is_back :
    StaysInside [.set "x" (.int 3), .enter, .define "y" (.int 4), .set "i" (.int 5)] ∧
      ((empty.define "x" (.int 1)).after [.enter, .define "x" (.int 2), .set "x" (.int 3), .enter,
        .define "y" (.int 4), .set "i" (.int 5), .exit, .exit]).get "x" = .ok (.int 1) ∧
      ((empty.define "x" (.int 1)).after [.enter, .define "x" (.int 2), .set "x" (.int 3), .enter,
        .define "y" (.int 4), .set "i" (.int 5), .exit, .exit]).get "i" = .ok (.int 5) := by
  have h : StaysInside [.set "x" (.int 3), .enter, .define "y" (.int 4), .set "i" (.int 5)] := by decide
  obtain ⟨hx, hothers, -, -⟩ := hidden_variable_is_back (empty.define "x" (.int 1)) "x" (.int 2) _ h
  exact ⟨h, hx, hothers "i" (by decide) (by decide)⟩

end Scopes

end Inlay
