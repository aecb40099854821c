import Inlay.Proofs.Evaluation.Effects
import Mathlib.Data.Int.ModEq

/-!
# `Proofs.Evaluation.WholeNumbers` — arithmetic of whole numbers

A whole number is a word of 64 bits, and it stands for all integers that differ from it by multiples of `2 ^ 64`
(`StandsFor`). The operators keep to what their operands stand for, so the word that they give is the only one that
stands for the exact result (`StandsFor.unique`). A division is exact itself, apart from one pair of operands: the
quotient of the least number and -1 is no word. What an assignment `x op= e` or a step `x++` gives is what the operator
gives (`whole_numbers_wrap`).
-/

namespace Inlay

open Machine

/-! ## Words and the integers that they stand for -/

/-- Whether a word differs from an integer by a multiple of `2 ^ 64`. -/
def StandsFor (n : Int64) (z : Int) : Prop :=
  n.toInt ≡ z [ZMOD 2 ^ 64]

instance (n : Int64) (z : Int) : Decidable (StandsFor n z) :=
  inferInstanceAs (Decidable (n.toInt % 2 ^ 64 = z % 2 ^ 64))

theorem standsFor_of_toInt_eq_bmod {n : Int64} {z : Int} (h : n.toInt = z.bmod (2 ^ 64)) : StandsFor n z := by
  show n.toInt % ((2 ^ 64 : Nat) : Int) = z % ((2 ^ 64 : Nat) : Int)
  rw [h, Int.bmod_emod]

namespace StandsFor

variable {n k : Int64} {y z : Int}

theorem self (n : Int64) : StandsFor n n.toInt :=
  Int.ModEq.refl _

/-- Only one word stands for an integer. -/
theorem unique (h : StandsFor n z) (h' : StandsFor k z) : n = k := by
  have hmod : n.toInt % ((2 ^ 64 : Nat) : Int) = k.toInt % ((2 ^ 64 : Nat) : Int) := h.trans h'.symm
  have hbmod : n.toInt.bmod (2 ^ 64) = k.toInt.bmod (2 ^ 64) := by
    rw [← Int.emod_bmod, hmod, Int.emod_bmod]
  rw [← Int64.toInt_inj, ← Int64.toInt_bmod n, ← Int64.toInt_bmod k]
  exact hbmod

theorem add (h : StandsFor n y) (h' : StandsFor k z) : StandsFor (n + k) (y + z) :=
  (standsFor_of_toInt_eq_bmod (Int64.toInt_add n k)).trans (Int.ModEq.add h h')

theorem sub (h : StandsFor n y) (h' : StandsFor k z) : StandsFor (n - k) (y - z) :=
  (standsFor_of_toInt_eq_bmod (Int64.toInt_sub n k)).trans (Int.ModEq.sub h h')

theorem mul (h : StandsFor n y) (h' : StandsFor k z) : StandsFor (n * k) (y * z) :=
  (standsFor_of_toInt_eq_bmod (Int64.toInt_mul n k)).trans (Int.ModEq.mul h h')

theorem neg (h : StandsFor n z) : StandsFor (-n) (-z) :=
  (standsFor_of_toInt_eq_bmod (Int64.toInt_neg n)).trans (Int.ModEq.neg h)

theorem abs (n : Int64) : StandsFor n.abs |n.toInt| := by
  have habs : n.abs = if n.toInt < 0 then -n else n := by
    apply Int64.toBitVec_inj.mp
    have hsign : n.toBitVec.msb = decide (n.toInt < 0) := BitVec.msb_eq_toInt
    rw [Int64.toBitVec_abs, BitVec.abs_eq, hsign, apply_ite Int64.toBitVec, Int64.toBitVec_neg]
    simp only [decide_eq_true_eq]
  by_cases h : n.toInt < 0
  · rw [habs, if_pos h, abs_of_neg h]
    exact (self n).neg
  · rw [habs, if_neg h, abs_of_nonneg (not_lt.mp h)]
    exact self n

end StandsFor

/-! ## Division -/

/-- The quotient is exact, unless it is the negative of the least number. -/
theorem toInt_quotient (l r : Int64) : (l / r).toInt =
    if l = Int64.minValue ∧ r = -1 then Int64.minValue.toInt else l.toInt.tdiv r.toInt := by
  split
  next h => rw [h.1, h.2, Int64.minValue_div_neg_one]
  next h =>
    by_cases hl : l = Int64.minValue
    · exact Int64.toInt_div_of_ne_right l r fun hr => h ⟨hl, hr⟩
    · exact Int64.toInt_div_of_ne_left l r hl

/-- **Quotient and remainder give the dividend again**, also where the quotient wraps around. -/
theorem quotient_mul_add_remainder (l r : Int64) : l / r * r + l % r = l := by
  have hquotient : StandsFor (l / r) (l.toInt.tdiv r.toInt) := standsFor_of_toInt_eq_bmod (Int64.toInt_div l r)
  have hremainder : StandsFor (l % r) (l.toInt.tmod r.toInt) := by
    rw [← Int64.toInt_mod]
    exact .self _
  have hsum := (hquotient.mul (.self r)).add hremainder
  rw [Int.mul_comm, Int.mul_tdiv_add_tmod] at hsum
  exact hsum.unique (.self l)

/-! ## Shifts -/

/-- How many places a shift by a word moves bits. Only the last six bits of the word count. -/
def places (r : Int64) : Nat :=
  (r.toInt % 64).toNat

theorem toNat_smod_eq_places (r : Int64) : (r.toBitVec.smod 64).toNat = places r := by
  have hint : (r.toBitVec.smod 64).toInt = r.toInt % 64 := by
    rw [BitVec.toInt_smod]
    exact Int.fmod_eq_emod_of_nonneg _ (by decide)
  have hnonneg : 0 ≤ r.toInt % 64 := Int.emod_nonneg _ (by decide)
  have hmsb : (r.toBitVec.smod 64).msb = false := by
    rw [BitVec.msb_eq_toInt, hint]
    exact decide_eq_false (not_lt.mpr hnonneg)
  unfold places
  rw [← hint, BitVec.toInt_eq_toNat_of_msb hmsb, Int.toNat_natCast]

theorem StandsFor.shl (l r : Int64) : StandsFor (l <<< r) (l.toInt * 2 ^ places r) := by
  have hint : (l <<< r).toInt = ((l.toBitVec.toNat * 2 ^ places r : Nat) : Int).bmod (2 ^ 64) := by
    show (l <<< r).toBitVec.toInt = _
    rw [Int64.toBitVec_shiftLeft, BitVec.shiftLeft_eq', toNat_smod_eq_places, BitVec.toInt_shiftLeft,
      Nat.shiftLeft_eq]
  have hbits : StandsFor l (l.toBitVec.toNat : Int) :=
    standsFor_of_toInt_eq_bmod (BitVec.toInt_eq_toNat_bmod l.toBitVec)
  refine (standsFor_of_toInt_eq_bmod hint).trans ?_
  push_cast
  exact (Int.ModEq.mul_right _ hbits).symm

theorem toInt_shr (l r : Int64) : (l >>> r).toInt = l.toInt / 2 ^ places r := by
  show (l >>> r).toBitVec.toInt = _
  rw [Int64.toBitVec_shiftRight, BitVec.sshiftRight_eq', toNat_smod_eq_places, BitVec.toInt_sshiftRight,
    Int.shiftRight_eq_div_pow]
  push_cast
  rfl

/-! ## Results of operators -/

/-- A result that is a whole number and stands for `z`. -/
def Wraps (result : Except Error Value) (z : Int) : Prop :=
  ∃ n, result = .ok (.int n) ∧ StandsFor n z

theorem StandsFor.wraps {n : Int64} {z : Int} (h : StandsFor n z) : Wraps (.ok (.int n)) z :=
  ⟨n, rfl, h⟩

/-- **The arithmetic operators, exact modulo `2 ^ 64`**: their results for the whole numbers `l` and `r`. -/
structure WrapsAround (l r : Int64) (result : CompoundOp → Except Error Value) : Prop where
  sum : Wraps (result .add) (l.toInt + r.toInt)
  difference : Wraps (result .sub) (l.toInt - r.toInt)
  product : Wraps (result .mul) (l.toInt * r.toInt)
  div_fails : result .div = .error .divisionByZero ↔ r = 0
  mod_fails : result .mod = .error .divisionByZero ↔ r = 0
  /-- The quotient is rounded toward zero. -/
  quotient : r ≠ 0 → ∃ q : Int64, result .div = .ok (.int q) ∧
    q.toInt = if l = Int64.minValue ∧ r = -1 then Int64.minValue.toInt else l.toInt.tdiv r.toInt
  remainder : r ≠ 0 → ∃ d : Int64, result .mod = .ok (.int d) ∧ d.toInt = l.toInt.tmod r.toInt

/-- **The shifts**: their results for the whole number `l` and the amount `r`. -/
structure Shifts (l r : Int64) (result : BinaryOp → Except Error Value) : Prop where
  left : Wraps (result .shl) (l.toInt * 2 ^ places r)
  /-- The shift to the right rounds down, so it keeps the sign. -/
  right : ∃ n : Int64, result .shr = .ok (.int n) ∧ n.toInt = l.toInt / 2 ^ places r ∧ (n.toInt < 0 ↔ l.toInt < 0)

/-- What a division by `r` gives if its result is `n`. -/
def divided (r n : Int64) : Except Error Value :=
  if r = 0 then .error .divisionByZero else .ok (.int n)

theorem divided_of_ne_zero {r : Int64} (h : r ≠ 0) (n : Int64) : divided r n = .ok (.int n) :=
  if_neg h

theorem divided_eq_error {r n : Int64} : divided r n = .error .divisionByZero ↔ r = 0 := by
  by_cases h : r = 0
  · exact iff_of_true (if_pos h) h
  · rw [divided_of_ne_zero h]
    exact iff_of_false nofun h

theorem apply_div (l r : Int64) : BinaryOp.div.apply (.int l) (.int r) = divided r (l / r) := by
  show Value.int <$> Value.wholeQuotient l r = _
  unfold Value.wholeQuotient divided
  split <;> rfl

theorem apply_mod (l r : Int64) : BinaryOp.mod.apply (.int l) (.int r) = divided r (l % r) := by
  show Value.int <$> Value.wholeRemainder l r = _
  unfold Value.wholeRemainder divided
  split <;> rfl

theorem wrapsAround_apply (l r : Int64) : WrapsAround l r fun op => op.toBinary.apply (.int l) (.int r) where
  sum := ((StandsFor.self l).add (.self r)).wraps
  difference := ((StandsFor.self l).sub (.self r)).wraps
  product := ((StandsFor.self l).mul (.self r)).wraps
  div_fails := by
    show BinaryOp.div.apply (.int l) (.int r) = _ ↔ _
    rw [apply_div]
    exact divided_eq_error
  mod_fails := by
    show BinaryOp.mod.apply (.int l) (.int r) = _ ↔ _
    rw [apply_mod]
    exact divided_eq_error
  quotient h := ⟨l / r, (apply_div l r).trans (divided_of_ne_zero h _), toInt_quotient l r⟩
  remainder h := ⟨l % r, (apply_mod l r).trans (divided_of_ne_zero h _), Int64.toInt_mod l r⟩

theorem shifts_apply (l r : Int64) : Shifts l r fun op => op.apply (.int l) (.int r) where
  left := (StandsFor.shl l r).wraps
  right := by
    refine ⟨l >>> r, rfl, toInt_shr l r, ?_⟩
    rw [toInt_shr]
    have hpos : (0 : Int) < 2 ^ places r := Int.pow_pos (by decide)
    rw [Int.ediv_lt_iff_lt_mul hpos, Int.zero_mul]

/-! ## Results of expressions -/

/-- The value of an expression. -/
def Expr.value (b : Budget) (e : Expr) (m : Machine) : Except Error Value :=
  Prod.fst <$> e.eval b m

section

variable {b : Budget} {e e' : Expr} {m m' m'' : Machine} {v w : Value} {x : String} {l r : Int64}

theorem map_fst_lift (y : Except Error Value) (m : Machine) : Prod.fst <$> lift y m = y := by
  cases y <;> rfl

theorem eval_binary_of_ok (op : BinaryOp) (hand : op ≠ .and) (hor : op ≠ .or) (hleft : e.eval b m = .ok (v, m'))
    (hright : e'.eval b m' = .ok (w, m'')) : Expr.eval b (.binary op e e') m = lift (op.apply v w) m'' := by
  have heval : Expr.eval b (.binary op e e') = (do
      let v ← e.eval b
      let w ← e'.eval b
      lift (op.apply v w)) := by
    cases op <;> first | contradiction | rfl
  rw [heval, run_bind_of_ok hleft, run_bind_of_ok hright]

/-- Where both operands have values, the operators that may skip the right one give the same. -/
theorem value_binary (op : BinaryOp) (hleft : e.eval b m = .ok (v, m')) (hright : e'.eval b m' = .ok (w, m'')) :
    (Expr.binary op e e').value b m = op.apply v w := by
  unfold Expr.value
  by_cases hand : op = .and
  · subst hand
    simp only [Expr.eval, run_bind_of_ok hleft, BinaryOp.apply]
    cases v.isTruthy with
    | false => rfl
    | true => exact congrArg (Prod.fst <$> ·) (run_bind_of_ok hright)
  by_cases hor : op = .or
  · subst hor
    simp only [Expr.eval, run_bind_of_ok hleft, BinaryOp.apply]
    cases v.isTruthy with
    | false => exact congrArg (Prod.fst <$> ·) (run_bind_of_ok hright)
    | true => rfl
  rw [eval_binary_of_ok op hand hor hleft hright]
  exact map_fst_lift _ _

theorem value_unary (op : UnaryOp) (h : e.eval b m = .ok (v, m')) : (Expr.unary op e).value b m = op.apply v := by
  unfold Expr.value
  exact (congrArg (Prod.fst <$> ·) (run_bind_of_ok h)).trans (map_fst_lift _ _)

theorem update_eq (op : CompoundOp) (v w : Value) (m : Machine) :
    update x op v w m = (fun new => (new, m.mapScopes (·.set x new))) <$> op.toBinary.apply v w := by
  unfold update
  cases op.toBinary.apply v w with
  | error cause => rfl
  | ok new => rfl

theorem read_of_some (h : m.scopes.get? x = some v) : read x m = .ok (v, m) := by
  apply read_of_ok
  unfold Scopes.get
  rw [h]

theorem eval_compound_of_ok (op : CompoundOp) (hright : e.eval b m = .ok (w, m')) (hx : m'.scopes.get? x = some v) :
    Expr.eval b (.assign x (some op) e) m =
      (fun new => (new, m'.mapScopes (·.set x new))) <$> op.toBinary.apply v w := by
  rw [eval_compound, run_bind_of_ok hright, run_bind_of_ok (read_of_some hx), update_eq]

theorem value_compound (op : CompoundOp) (hright : e.eval b m = .ok (w, m')) (hx : m'.scopes.get? x = some v) :
    (Expr.assign x (some op) e).value b m = op.toBinary.apply v w := by
  unfold Expr.value
  rw [eval_compound_of_ok op hright hx]
  cases op.toBinary.apply v w with
  | error cause => rfl
  | ok new => rfl

theorem value_abs (h : e.eval b m = .ok (.int l, m')) : (Expr.call "abs" [e]).value b m = .ok (.int l.abs) := by
  have hargs : Expr.evalAll b [e] m = .ok ([.int l], m') := run_bind_of_ok h
  have hcall : Expr.eval b (.call "abs" [e]) m = .ok (.int l.abs, { m' with output := m'.output ++ "" }) :=
    run_bind_of_ok hargs
  unfold Expr.value
  rw [hcall]
  rfl

theorem eval_increment_of_some (step : Increment) (inFront : Bool) (hx : m.scopes.get? x = some (.int l)) :
    Expr.eval b (.increment x step inFront) m =
      .ok (.int (if inFront then l + step.delta else l), m.mapScopes (·.set x (.int (l + step.delta)))) := by
  refine (run_bind_of_ok (read_of_some hx)).trans ?_
  cases inFront with
  | false => rfl
  | true => rfl

/-- The expression `e / e' * e' + e % e'`. -/
def Expr.recombined (e e' : Expr) : Expr :=
  .binary .add (.binary .mul (.binary .div e e') e') (.binary .mod e e')

theorem value_recombined (hleft : e.eval b m = .ok (.int l, m)) (hright : e'.eval b m = .ok (.int r, m)) (hr : r ≠ 0) :
    (Expr.recombined e e').value b m = .ok (.int l) := by
  have hdiv : (Expr.binary .div e e').eval b m = .ok (.int (l / r), m) := by
    rw [eval_binary_of_ok .div nofun nofun hleft hright]
    exact lift_of_ok ((apply_div l r).trans (divided_of_ne_zero hr _)) m
  have hmod : (Expr.binary .mod e e').eval b m = .ok (.int (l % r), m) := by
    rw [eval_binary_of_ok .mod nofun nofun hleft hright]
    exact lift_of_ok ((apply_mod l r).trans (divided_of_ne_zero hr _)) m
  have hmul : (Expr.binary .mul (.binary .div e e') e').eval b m = .ok (.int (l / r * r), m) :=
    eval_binary_of_ok .mul nofun nofun hdiv hright
  calc (Expr.recombined e e').value b m
    _ = .ok (.int (l / r * r + l % r)) := value_binary .add hmul hmod
    _ = .ok (.int l) := by rw [quotient_mul_add_remainder]

end

/-- **Arithmetic of whole numbers is exact modulo `2 ^ 64`**, and fails for a divisor of zero only. That holds of the
    operators between expressions, where quotient times divisor and remainder are the dividend again, and of the
    negative and the magnitude of an expression. A variable is stepped by it, and set by it in a compound assignment. -/
theorem whole_numbers_wrap (b : Budget) (l r : Int64) :
    (∀ e e' m m' m'', e.eval b m = .ok (.int l, m') → e'.eval b m' = .ok (.int r, m'') →
      WrapsAround l r (fun op => (Expr.binary op.toBinary e e').value b m) ∧
      Shifts l r (fun op => (Expr.binary op e e').value b m)) ∧
    (∀ e e' m, e.eval b m = .ok (.int l, m) → e'.eval b m = .ok (.int r, m) → r ≠ 0 →
      (Expr.recombined e e').value b m = .ok (.int l)) ∧
    (∀ e m m', e.eval b m = .ok (.int l, m') →
      Wraps ((Expr.unary .neg e).value b m) (-l.toInt) ∧ Wraps ((Expr.call "abs" [e]).value b m) |l.toInt|) ∧
    (∀ x m, m.scopes.get? x = some (.int l) → ∀ step inFront, ∃ n : Int64,
      Expr.eval b (.increment x step inFront) m =
        .ok (.int (if inFront then n else l), m.mapScopes (·.set x (.int n))) ∧
      StandsFor n (l.toInt + if step = .up then 1 else -1)) ∧
    (∀ x e m m', e.eval b m = .ok (.int r, m') → m'.scopes.get? x = some (.int l) →
      WrapsAround l r (fun op => (Expr.assign x (some op) e).value b m) ∧
      ∀ op v m'', Expr.eval b (.assign x (some op) e) m = .ok (v, m'') → m'' = m'.mapScopes (·.set x v)) := by
  refine ⟨?_, ?_, ?_, ?_, ?_⟩
  · intro e e' m m' m'' hleft hright
    have hvalue : ∀ op, (Expr.binary op e e').value b m = op.apply (.int l) (.int r) :=
      fun op => value_binary op hleft hright
    simp only [hvalue]
    exact ⟨wrapsAround_apply l r, shifts_apply l r⟩
  · intro e e' m hleft hright hr
    exact value_recombined hleft hright hr
  · intro e m m' h
    rw [value_unary .neg h, value_abs h]
    exact ⟨(StandsFor.self l).neg.wraps, (StandsFor.abs l).wraps⟩
  · intro x m hx step inFront
    refine ⟨l + step.delta, eval_increment_of_some step inFront hx, (StandsFor.self l).add ?_⟩
    cases step <;> exact .self _
  · intro x e m m' hright hx
    constructor
    · simp only [value_compound _ hright hx]
      exact wrapsAround_apply l r
    · intro op v m'' heval
      rw [eval_compound_of_ok op hright hx] at heval
      obtain ⟨new, -, heq⟩ := map_eq_ok.mp heval
      cases heq
      rfl

/-- Where `x` is the least number, `x / -1` is `x` again and nothing remains. So are `-x`, `abs(x)` and the sum of
    quotient times divisor and remainder, and `--x` is the greatest number. As an amount, -1 means 63 places. -/
theorem least_number_wraps :
    let b : Budget := ⟨[], 0⟩
    let m : Machine := ⟨⟨[], [("x", .int Int64.minValue)]⟩, "", 0⟩
    let x : Expr := .variable "x"
    let minusOne : Expr := .intLiteral (-1)
    (Expr.binary .div x minusOne).value b m = .ok (.int Int64.minValue) ∧
    (Expr.binary .mod x minusOne).value b m = .ok (.int 0) ∧
    (Expr.binary .shl x minusOne).value b m = .ok (.int 0) ∧
    (Expr.binary .shr x minusOne).value b m = .ok (.int (-1)) ∧
    (Expr.recombined x minusOne).value b m = .ok (.int Int64.minValue) ∧
    (Expr.unary .neg x).value b m = .ok (.int Int64.minValue) ∧
    (Expr.call "abs" [x]).value b m = .ok (.int Int64.minValue) ∧
    (Expr.increment "x" .down true).value b m = .ok (.int Int64.maxValue) ∧
    (Expr.assign "x" (some .div) minusOne).value b m = .ok (.int Int64.minValue) := by
  intro b m x minusOne
  obtain ⟨hoperators, hrecombined, hsigns, hsteps, hcompound⟩ := whole_numbers_wrap b Int64.minValue (-1)
  have hx : x.eval b m = .ok (.int Int64.minValue, m) := rfl
  have hminusOne : minusOne.eval b m = .ok (.int (-1), m) := rfl
  obtain ⟨harithmetic, hshifts⟩ := hoperators x minusOne m m m hx hminusOne
  obtain ⟨q, hdiv, hq⟩ := harithmetic.quotient (by decide)
  obtain ⟨d, hmod, hd⟩ := harithmetic.remainder (by decide)
  obtain ⟨n, hshl, hn⟩ := hshifts.left
  obtain ⟨k, hshr, hk, -⟩ := hshifts.right
  obtain ⟨⟨i, hneg, hi⟩, ⟨j, habs, hj⟩⟩ := hsigns x m m hx
  obtain ⟨p, hstep, hp⟩ := hsteps "x" m rfl .down true
  obtain ⟨q', hassign, hq'⟩ := (hcompound "x" minusOne m m hminusOne rfl).1.quotient (by decide)
  have hqeq : q = Int64.minValue := Int64.toInt_inj.mp (hq.trans (if_pos ⟨rfl, rfl⟩))
  have hdeq : d = 0 := Int64.toInt_inj.mp (hd.trans (by decide))
  have hneq : n = 0 := hn.unique (by decide)
  have hkeq : k = -1 := Int64.toInt_inj.mp (hk.trans (by decide))
  have hieq : i = Int64.minValue := hi.unique (by decide)
  have hjeq : j = Int64.minValue := hj.unique (by decide)
  have hpeq : p = Int64.maxValue := hp.unique (by decide)
  have hqeq' : q' = Int64.minValue := Int64.toInt_inj.mp (hq'.trans (if_pos ⟨rfl, rfl⟩))
  subst hqeq hdeq hneq hkeq hieq hjeq hpeq hqeq'
  have hrecombined := hrecombined x minusOne m hx hminusOne (by decide)
  exact ⟨hdiv, hmod, hshl, hshr, hrecombined, hneg, habs, congrArg (Prod.fst <$> ·) hstep, hassign⟩

end Inlay
