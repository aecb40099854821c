import Mathlib.Data.List.Basic
import Inlay.Compiler.Compilation

/-!
# `Proofs.Compiler.Workers` — what assembly gives, whoever takes the blocks

A pool takes the blocks in an order of its own, and what came of them is put back. So there is one output for each
block, in the order of the blocks (`map_block_assembleBlocks`), and each of them is what the assembler made of the lines
of its block in some state (`output_of_mem_assembleBlocks`). If the state makes no difference to the assembler, neither
does the order: every block gets the output that it would get alone (`Assembler.Stateless.assembleBlocks_eq`), and a
whole compilation is the same with any pool or none (`Compiler.compile_withWorkers`).
-/

namespace Inlay

variable {σ : Type}

/-! ## Putting back -/

theorem filterMap_getElem?_range {α : Type} (l : List α) : (List.range l.length).filterMap (l[·]?) = l := by
  induction l with
  | nil => rfl
  | cons a l ih =>
      rw [List.length_cons, List.range_succ_eq_map, List.filterMap_cons, List.getElem?_cons_zero, List.filterMap_map]
      exact congrArg (a :: ·) ih

theorem getElem?_filterMap_of_lt {α : Type} {l : List α} {order : List Nat} (horder : ∀ i ∈ order, i < l.length)
    (k : Nat) : (order.filterMap (l[·]?))[k]? = order[k]?.bind (l[·]?) := by
  induction order generalizing k with
  | nil => rfl
  | cons i order ih =>
      obtain ⟨hi, hothers⟩ := List.forall_mem_cons.mp horder
      rw [List.filterMap_cons, List.getElem?_eq_getElem hi]
      cases k with
      | zero => exact (List.getElem?_eq_getElem hi).symm
      | succ k => exact ih hothers k

/-- **What was taken in any order is put back**: if `taken` agrees with the elements in the order in which they were
    taken, then it agrees with them in their own order once it was put back. -/
theorem map_putBack {α β γ : Type} {l : List α} {order : List Nat} {taken : List β} {f : β → γ} {g : α → γ}
    (hperm : order.Perm (List.range l.length)) (h : taken.map f = (order.filterMap (l[·]?)).map g) :
    (putBack order taken).map f = l.map g := by
  have hlength : order.length = l.length := hperm.length_eq.trans List.length_range
  have hlt : ∀ i ∈ order, i < l.length := fun i hi => List.mem_range.mp (hperm.mem_iff.mp hi)
  -- what stands where the place `i` was taken is what belongs to the place `i`
  have hplace : ∀ i ∈ List.range l.length, (taken[order.idxOf i]?).map f = (l[i]?).map g := by
    intro i hi
    rw [← List.getElem?_map, h, List.getElem?_map, getElem?_filterMap_of_lt hlt,
      List.getElem?_idxOf (hperm.mem_iff.mpr hi), Option.bind_some]
  rw [putBack, hlength, List.map_filterMap, List.filterMap_congr hplace, ← List.map_filterMap,
    filterMap_getElem?_range]

example : putBack [2, 0, 1] ['c', 'a', 'b'] = ['a', 'b', 'c'] := rfl

theorem mem_of_mem_putBack {α : Type} {order : List Nat} {taken : List α} {a : α} (h : a ∈ putBack order taken) :
    a ∈ taken := by
  obtain ⟨i, -, ha⟩ := List.mem_filterMap.mp h
  exact List.mem_of_getElem? ha

/-! ## One output for each block -/

section

variable (pool : Pool σ) (parallel : Bool) (assemble : Assembler σ) (blocks : List Block) (s : σ)

/-- The two ways of assembling blocks. -/
theorem assembleBlocks_cases :
    assembleBlocks pool parallel assemble blocks s = assembleAll assemble blocks s ∨
      assembleBlocks pool parallel assemble blocks s =
        assembleInOrder (pool.order s blocks.length) assemble blocks s := by
  unfold assembleBlocks
  split
  · exact Or.inr rfl
  · exact Or.inl rfl

/-- **There is one output for each block**, in the order of the blocks. -/
theorem map_block_assembleBlocks :
    (assembleBlocks pool parallel assemble blocks s).1.map (·.block) = blocks := by
  rcases assembleBlocks_cases pool parallel assemble blocks s with h | h
  · rw [h]
    exact map_block_assembleAll assemble blocks s
  · have htaken := map_block_assembleAll assemble
      ((pool.order s blocks.length).filterMap (blocks[·]?)) s
    have hback := map_putBack (g := id) (pool.perm s blocks.length) (htaken.trans (List.map_id _).symm)
    rw [h]
    exact hback.trans (List.map_id _)

theorem length_assembleBlocks : (assembleBlocks pool parallel assemble blocks s).1.length = blocks.length := by
  have hlength := congrArg List.length (map_block_assembleBlocks pool parallel assemble blocks s)
  rwa [List.length_map] at hlength

variable {pool parallel assemble blocks s} {a : Assembled}

theorem block_mem_of_mem_assembleBlocks (ha : a ∈ (assembleBlocks pool parallel assemble blocks s).1) :
    a.block ∈ blocks := by
  have hmem := List.mem_map_of_mem (f := fun a : Assembled => a.block) ha
  rwa [map_block_assembleBlocks] at hmem

theorem output_of_mem_assembleAll (ha : a ∈ (assembleAll assemble blocks s).1) :
    ∃ s', a.output = (assemble a.block.bodyLines s').1 := by
  induction blocks generalizing s with
  | nil => cases ha
  | cons b blocks ih =>
      rcases List.mem_cons.mp ha with rfl | ha
      · exact ⟨s, rfl⟩
      · exact ih ha

/-- **What is known of a block** is what the assembler made of its lines. -/
theorem output_of_mem_assembleBlocks (ha : a ∈ (assembleBlocks pool parallel assemble blocks s).1) :
    ∃ s', a.output = (assemble a.block.bodyLines s').1 := by
  rcases assembleBlocks_cases pool parallel assemble blocks s with h | h
  · rw [h] at ha
    exact output_of_mem_assembleAll ha
  · rw [h, assembleInOrder] at ha
    exact output_of_mem_assembleAll (mem_of_mem_putBack ha)

end

/-! ## Assemblers without a state to speak of -/

/-- What the assembler makes of a body does not depend on its state. -/
def Assembler.Stateless (assemble : Assembler σ) : Prop :=
  ∀ lines s s', (assemble lines s).1 = (assemble lines s').1

namespace Assembler.Stateless

variable {assemble : Assembler σ}

theorem assembleAll_eq (h : assemble.Stateless) (blocks : List Block) (s s' : σ) :
    (assembleAll assemble blocks s).1 = blocks.map fun b => ⟨b, (assemble b.bodyLines s').1⟩ := by
  induction blocks generalizing s with
  | nil => rfl
  | cons b blocks ih =>
      rw [List.map_cons, ← ih (assemble b.bodyLines s).2, h b.bodyLines s' s]
      rfl

/-- **Every block gets the output that it would get alone**, in whatever order a pool takes them. -/
theorem assembleBlocks_eq (h : assemble.Stateless) (pool : Pool σ) (parallel : Bool) (blocks : List Block)
    (s s' : σ) : (assembleBlocks pool parallel assemble blocks s).1 =
      blocks.map fun b => ⟨b, (assemble b.bodyLines s').1⟩ := by
  rcases assembleBlocks_cases pool parallel assemble blocks s with hall | hordered
  · rw [hall]
    exact h.assembleAll_eq blocks s s'
  · have htaken := h.assembleAll_eq ((pool.order s blocks.length).filterMap (blocks[·]?)) s s'
    have hback := map_putBack (f := id) (pool.perm s blocks.length) ((List.map_id _).trans htaken)
    rw [hordered]
    exact (List.map_id _).symm.trans hback

/-- **A source is made ready in the same way** by any workers, in whatever state the assembler is. -/
theorem prepare_eq (h : assemble.Stateless) (pool pool' : Pool σ) (o : Options) (parallel : Bool) (source : String)
    (s s' : σ) :
    (Inlay.prepare pool' { o with parallel } assemble source s').1 = (Inlay.prepare pool o assemble source s).1 := by
  have hfront : frontEnd { o with parallel } source = frontEnd o source := rfl
  unfold Inlay.prepare
  rw [hfront]
  cases frontEnd o source with
  | error e => rfl
  | ok e =>
      dsimp only
      rw [h.assembleBlocks_eq pool' parallel e.blocks s' s, h.assembleBlocks_eq pool o.parallel e.blocks s s]
      split <;> rfl

end Assembler.Stateless

/-! ## Compilations -/

namespace Compiler

variable {δ P : Type} {t : Toolchain σ δ P} {c : Compiler σ δ P}

/-- A compiler with another say about workers, and with its assembler in another state. -/
def withWorkers (parallel : Bool) (s : σ) (c : Compiler σ δ P) : Compiler σ δ P :=
  { c with options := { c.options with parallel }, assembler := s }

variable (pool : Pool σ) (parallel : Bool) (s : σ)

theorem build_withWorkers (source : String) :
    (c.withWorkers parallel s).build { t with pool } source =
      ((c.build t source).1, (c.build t source).2.withWorkers parallel s) := by
  unfold Compiler.build withWorkers
  dsimp only
  split <;> rfl

theorem load_withWorkers (binary : Bytes) :
    (c.withWorkers parallel s).load { t with pool } binary =
      ((c.load t binary).1, (c.load t binary).2.withWorkers parallel s) := by
  unfold Compiler.load withWorkers
  dsimp only
  split <;> rfl

theorem patch_withWorkers (assembled : List Assembled) (program : P) (raw : Bytes) :
    (c.withWorkers parallel s).patch { t with pool } assembled program raw =
      ((c.patch t assembled program raw).1, (c.patch t assembled program raw).2.withWorkers parallel s) := by
  unfold Compiler.patch
  split
  · rfl
  · dsimp only
    have hload := load_withWorkers (t := t) (c := c) pool parallel s
      (c.options.anchor.patch raw (assembled.map Assembled.patch)).binary
    unfold withWorkers at hload ⊢
    rw [hload]
    generalize c.load t _ = loaded
    obtain ⟨result, d⟩ := loaded
    cases result <;> rfl

/-- **Workers have no part in what the device does.** -/
theorem runDevice_withWorkers (prepared : Prepared) :
    (c.withWorkers parallel s).runDevice { t with pool } prepared =
      ((c.runDevice t prepared).1, (c.runDevice t prepared).2.withWorkers parallel s) := by
  unfold Compiler.runDevice
  rw [build_withWorkers]
  generalize c.build t prepared.deviceSource = built
  obtain ⟨⟨log, result⟩, d⟩ := built
  cases result with
  | error e => rfl
  | ok program =>
      dsimp only [withWorkers]
      split
      · rfl
      · next raw _ =>
        have hpatch := patch_withWorkers (t := t) (c := d) pool parallel s prepared.assembled program raw
        unfold withWorkers at hpatch
        rw [hpatch]

/-- **Workers make no difference.** With an assembler whose state makes none, a compilation reports and makes the same
    with any pool, whether it may use it or not, and leaves the same device and the same cache. -/
theorem compile_withWorkers (ht : t.assembler.Stateless) (source : String) : ∃ s',
    (c.withWorkers parallel s).compile { t with pool } source =
      ((c.compile t source).1, (c.compile t source).2.withWorkers parallel s') := by
  have hrun : ∃ s', (c.withWorkers parallel s).run { t with pool } source =
      ((c.run t source).1, (c.run t source).2.withWorkers parallel s') := by
    -- only the preparation of a source asks the assembler
    have hprepare : ∃ s', (c.withWorkers parallel s).prepare { t with pool } source =
        ((c.prepare t source).1, (c.prepare t source).2.withWorkers parallel s') :=
      ⟨_, Prod.ext (ht.prepare_eq t.pool pool c.options parallel source c.assembler s) rfl⟩
    obtain ⟨s', hprepare⟩ := hprepare
    unfold Compiler.run
    rw [hprepare]
    generalize c.prepare t source = ready
    obtain ⟨⟨log, result⟩, d⟩ := ready
    cases result with
    | error e => exact ⟨s', rfl⟩
    | ok prepared =>
        dsimp only
        rw [runDevice_withWorkers]
        exact ⟨s', rfl⟩
  obtain ⟨s', hrun⟩ := hrun
  unfold Compiler.compile
  rw [hrun]
  generalize c.run t source = done
  obtain ⟨⟨log, result⟩, d⟩ := done
  cases result <;> exact ⟨s', rfl⟩

end Compiler

end Inlay
