import Mathlib
import RatCalc.Evaluation.Basic
import RatCalc.Proofs.Fraction.Arithmetic

/-!
# Arithmetic is exact

An expression that is made of literals, identifiers and operators has a meaning in the rational
numbers, with nothing in it but their arithmetic. Each of its nodes may fail for a reason of its
own, told by the exact values of its operands. The nodes are taken in the order in which their
values are needed, operands before operators and left before right. If all of them are sound, the
evaluation gives the exact value, and else the error of the first one that fails.

## Main definitions

* `Expression.Arithmetic`: literals, identifiers and operators.
* `Expression.exact`: the value in the rational numbers.
* `Expression.postorder`: the nodes, operands first, each with its place in the operation above.
* `Node.failure?`: what goes wrong at a node; `Node.Sound`: nothing does.

## Main results

* `Node.failure?_eq_none_iff`: a node that is sound does not fail, and no other does not.
* `Expression.evaluate_arithmetic`: the exact value, or the error of the first node that fails.
-/

namespace RatCalc

/-- The rational number that an operator makes of two others. An exponent counts as an integer. -/
def Operator.exact (op : Operator) (x y : ℚ) : ℚ :=
  match op with
  | add => x + y
  | subtract => x - y
  | multiply => x * y
  | divide => x / y
  | exponent => x ^ y.num

/-- Why an operator makes nothing of two rational numbers, if it does not. -/
def Operator.failure? (op : Operator) (x y : ℚ) : Option EvalError :=
  match op with
  | divide => if y = 0 then some .divisionByZero else none
  | exponent =>
    if y.den ≠ 1 then some .unsupportedExponent
    else if y.num < -2 ^ 31 ∨ 2 ^ 31 ≤ y.num then some (.exponentOutOfRange y.num)
    else if x = 0 ∧ y.num < 0 then some .divisionByZero
    else none
  | _ => none

/-- A power fails unless its exponent is an integer of 32 bits and zero is not inverted. -/
theorem Operator.failure?_exponent_eq_none_iff {x y : ℚ} : exponent.failure? x y = none ↔
    ∃ n : ℤ, y = n ∧ -2 ^ 31 ≤ n ∧ n < 2 ^ 31 ∧ (x = 0 → 0 ≤ n) := by
  unfold failure?
  dsimp only
  constructor
  · intro h
    split_ifs at h with fractional large inverted
    rw [not_or, not_lt, not_le] at large
    refine ⟨y.num, ((Rat.den_eq_one_iff y).1 (not_not.1 fractional)).symm, large.1, large.2, ?_⟩
    exact fun zero => not_lt.1 fun negative => inverted ⟨zero, negative⟩
  · rintro ⟨n, rfl, low, high, natural⟩
    rw [Rat.num_intCast, Rat.den_intCast, if_neg (not_not.2 rfl),
      if_neg (not_or_intro low.not_gt high.not_ge),
      if_neg fun inverted => (natural inverted.1).not_gt inverted.2]

namespace Expression

/-- The expression is made of literals, identifiers and operations. -/
inductive Arithmetic : Expression → Prop
  | literal (q : Fraction) : Arithmetic (number q)
  | name (name : Name) : Arithmetic (identifier name)
  | node {x y : Expression} (op : Operator) (hx : Arithmetic x) (hy : Arithmetic y) :
      Arithmetic (operation x op y)

/-- The rational number that an arithmetic expression denotes. A name that is bound to no number
counts as zero. -/
def exact (env : Environment) : Expression → ℚ
  | number q => q.toRat
  | identifier name =>
    match env.lookup? name with
    | some (.number q) => q.toRat
    | _ => 0
  | operation x op y => op.exact (x.exact env) (y.exact env)
  | _ => 0

end Expression

/-- A node of an expression, with the operand of an operation that it is, if it is one. -/
structure Node where
  place : Option Context
  expression : Expression

namespace Node

variable {precision : ℕ} {env : Environment}

/-- Why a node fails, if it does, given that nothing below it fails. An operand has to be a
number. -/
def failure? (precision : ℕ) (env : Environment) (node : Node) : Option EvalError :=
  match node.expression with
  | .identifier name =>
    match env.lookup? name, node.place with
    | none, _ => some (.undefinedVariable name)
    | some (.sequence items), some context =>
      some (.typeMismatch context .number (items.render precision))
    | _, _ => none
  | .operation x op y => op.failure? (x.exact env) (y.exact env)
  | _ => none

/-- A name is bound, and to a number if it is an operand. No divisor is zero. Every exponent is an
integer of 32 bits, which is not negative if the base is zero. -/
def Sound (env : Environment) (node : Node) : Prop :=
  match node.expression with
  | .identifier name =>
    ∃ v, env.lookup? name = some v ∧ (node.place = none ∨ ∃ q, v = .number q)
  | .operation _ .divide y => y.exact env ≠ 0
  | .operation x .exponent y =>
    ∃ n : ℤ, y.exact env = n ∧ -2 ^ 31 ≤ n ∧ n < 2 ^ 31 ∧ (x.exact env = 0 → 0 ≤ n)
  | _ => True

/-- **A node fails exactly if it is not sound.** -/
theorem failure?_eq_none_iff {node : Node} :
    node.failure? precision env = none ↔ node.Sound env := by
  obtain ⟨place, e⟩ := node
  cases e with
  | identifier name =>
    cases h : env.lookup? name with
    | none => simp [failure?, Sound, h]
    | some v => cases v <;> cases place <;> simp [failure?, Sound, h]
  | operation x op y =>
    cases op with
    | divide => simp [failure?, Sound, Operator.failure?]
    | exponent => exact Operator.failure?_exponent_eq_none_iff
    | _ => simp [failure?, Sound, Operator.failure?]
  | _ => simp [failure?, Sound]

end Node

namespace Expression

/-- The nodes of an arithmetic expression, operands before operators and left before right. -/
def postorder (place : Option Context) : Expression → List Node
  | operation x op y => x.postorder (some .leftOperand) ++ y.postorder (some .rightOperand) ++
      [⟨place, operation x op y⟩]
  | e => [⟨place, e⟩]

end Expression

/-! ### Results that follow a list of failures -/

/-- A result is the error that was found, or else a fraction that denotes the exact value. -/
def Follows (found : Option EvalError) (exact : ℚ) (result : Except EvalError Fraction) : Prop :=
  match found with
  | some err => result = .error err
  | none => ∃ q, result = .ok q ∧ q.toRat = exact

/-- The first of two results decides if it is an error. -/
theorem Follows.bind {found found' : Option EvalError} {a b : ℚ} {x : Except EvalError Fraction}
    {f : Fraction → Except EvalError Fraction} (first : Follows found a x)
    (second : ∀ q, q.toRat = a → Follows found' b (f q)) :
    Follows (found.or found') b (x >>= f) := by
  cases found with
  | some err =>
    change x = .error err at first
    rw [first]
    rfl
  | none =>
    obtain ⟨q, rfl, same⟩ := first
    exact second q same

/-- An operation on fractions that fails on a condition follows its exact result. -/
theorem Follows.of_map {r : Except FractionError Fraction} {refused : Prop} [Decidable refused]
    {e : FractionError} {err : EvalError} {a : ℚ}
    (h : r.map Fraction.toRat = if refused then .error e else .ok a) :
    Follows (if refused then some err else none) a (r.mapError fun _ => err) := by
  cases r with
  | error e' =>
    split_ifs at h ⊢
    · rfl
    · cases h
  | ok q =>
    split_ifs at h ⊢
    · cases h
    · exact ⟨q, rfl, Except.ok.inj h⟩

/-- A power follows that of the rational numbers. -/
theorem follows_raise (x y : Fraction) :
    Follows (Operator.exponent.failure? x.toRat y.toRat)
      (Operator.exponent.exact x.toRat y.toRat) (raise x y) := by
  have below : y.toRat.den = y.denominator := rfl
  have above : y.toRat.num = y.numerator := rfl
  simp only [Operator.failure?, Operator.exact, below, above]
  by_cases whole : y.denominator = 1
  · have integer : y.toInt? = .ok y.numerator := if_pos (beq_iff_eq.2 whole)
    rw [if_neg (not_not.2 whole), raise, integer]
    by_cases large : y.numerator < -2 ^ 31 ∨ 2 ^ 31 ≤ y.numerator
    · have misfit : fitsExponent y.numerator = false := by
        simp only [fitsExponent, Bool.and_eq_false_iff, decide_eq_false_iff_not]
        omega
      simp only [if_pos large, misfit, Bool.false_eq_true, if_false]
      rfl
    · have fit : fitsExponent y.numerator = true := by
        simp only [fitsExponent, Bool.and_eq_true, decide_eq_true_eq]
        omega
      simp only [if_neg large, fit, if_true]
      exact .of_map (x.map_pow? y.numerator)
  · have fractional : y.toInt? = .error .notAnInteger := if_neg fun one => whole (beq_iff_eq.1 one)
    rw [if_pos whole, raise, fractional]
    rfl

/-- An operator follows its exact arithmetic. -/
theorem Operator.follows_apply (op : Operator) (x y : Fraction) :
    Follows (op.failure? x.toRat y.toRat) (op.exact x.toRat y.toRat) (op.apply x y) := by
  cases op with
  | add => exact ⟨x + y, rfl, Fraction.toRat_add x y⟩
  | subtract => exact ⟨x - y, rfl, Fraction.toRat_sub x y⟩
  | multiply => exact ⟨x * y, rfl, Fraction.toRat_mul x y⟩
  | divide => exact .of_map (x.map_divide? y)
  | exponent => exact follows_raise x y

namespace Expression

variable {config : Config} {env : Environment} {e x y : Expression}

/-- A name is evaluated to its value. -/
theorem evaluate_identifier_eq (name : Name) : (identifier name).evaluate config false env =
    match env.lookup? name with
    | some v => .ok v
    | none => .error (.undefinedVariable name) := by
  unfold evaluate
  exact if_neg Bool.false_ne_true

/-- The first failure among the nodes of an expression. -/
def firstFailure? (precision : ℕ) (env : Environment) (place : Option Context) (e : Expression) :
    Option EvalError :=
  (e.postorder place).findSome? (Node.failure? precision env)

/-- The number that an expression has as an operand. -/
def operandNumber (config : Config) (env : Environment) (context : Context) (e : Expression) :
    Except EvalError Fraction :=
  e.evaluate config false env >>= Value.expectNumber config.precision context

/-- What an operation makes of its operands. -/
def operationNumber (config : Config) (env : Environment) (x : Expression) (op : Operator)
    (y : Expression) : Except EvalError Fraction := do
  let a ← x.operandNumber config env .leftOperand
  let b ← y.operandNumber config env .rightOperand
  op.apply a b

/-- An operation is evaluated to the number that it makes of its operands. -/
theorem evaluate_operation_eq (op : Operator) : (operation x op y).evaluate config false env =
    Value.number <$> operationNumber config env x op y := by
  simp only [evaluate, operationNumber, operandNumber, Bool.false_eq_true, if_false, bind_assoc,
    ← bind_pure_comp]

/-- The result of an operation follows its nodes if its operands do. -/
theorem follows_operationNumber {op : Operator} {place : Option Context}
    (first : Follows (x.firstFailure? config.precision env (some .leftOperand)) (x.exact env)
      (x.operandNumber config env .leftOperand))
    (second : Follows (y.firstFailure? config.precision env (some .rightOperand)) (y.exact env)
      (y.operandNumber config env .rightOperand)) :
    Follows ((operation x op y).firstFailure? config.precision env place)
      ((operation x op y).exact env) (operationNumber config env x op y) := by
  have split : (operation x op y).firstFailure? config.precision env place =
      (x.firstFailure? config.precision env (some .leftOperand)).or
        ((y.firstFailure? config.precision env (some .rightOperand)).or
          (op.failure? (x.exact env) (y.exact env))) := by
    simp [firstFailure?, postorder, List.findSome?_append, Node.failure?]
  rw [split]
  refine first.bind fun a ha => second.bind fun b hb => ?_
  rw [← ha, ← hb, exact, ← ha, ← hb]
  exact op.follows_apply a b

/-- **An operand of an arithmetic expression follows its nodes.** -/
theorem Arithmetic.follows (h : Arithmetic e) (context : Context) :
    Follows (e.firstFailure? config.precision env (some context)) (e.exact env)
      (e.operandNumber config env context) := by
  induction h generalizing context with
  | literal q => exact ⟨q, rfl, rfl⟩
  | name name =>
    rw [operandNumber, evaluate_identifier_eq]
    simp only [firstFailure?, postorder, List.findSome?_singleton, Node.failure?, exact]
    cases env.lookup? name with
    | none => rfl
    | some v => cases v with
      | number q => exact ⟨q, rfl, rfl⟩
      | sequence items => rfl
  | node op _ _ ihx ihy =>
    have number (r : Except EvalError Fraction) :
        (Value.number <$> r) >>= Value.expectNumber config.precision context = r := by
      cases r <;> rfl
    rw [operandNumber, evaluate_operation_eq, number]
    exact follows_operationNumber (ihx .leftOperand) (ihy .rightOperand)

/-- A whole arithmetic expression follows its nodes, and need not be a number if it is a name. -/
theorem Arithmetic.evaluate_follows (h : Arithmetic e) (config : Config) (env : Environment) :
    match e.firstFailure? config.precision env none with
    | some err => e.evaluate config false env = .error err
    | none => ∃ v, e.evaluate config false env = .ok v ∧
        ((∃ q, v = .number q ∧ q.toRat = e.exact env) ∨
          ∃ name, e = identifier name ∧ env.lookup? name = some v) := by
  cases h with
  | literal q => exact ⟨.number q, rfl, .inl ⟨q, rfl, rfl⟩⟩
  | name name =>
    rw [evaluate_identifier_eq]
    simp only [firstFailure?, postorder, List.findSome?_singleton, Node.failure?]
    cases bound : env.lookup? name with
    | none => rfl
    | some v => cases v <;> exact ⟨_, rfl, .inr ⟨name, rfl, bound⟩⟩
  | @node x y op hx hy =>
    have numbers : Follows ((operation x op y).firstFailure? config.precision env none)
        ((operation x op y).exact env) (operationNumber config env x op y) :=
      follows_operationNumber (hx.follows .leftOperand) (hy.follows .rightOperand)
    rw [evaluate_operation_eq]
    cases first : (operation x op y).firstFailure? config.precision env none with
    | none =>
      rw [first] at numbers
      obtain ⟨q, value, same⟩ := numbers
      rw [value]
      exact ⟨.number q, rfl, .inl ⟨q, rfl, same⟩⟩
    | some err =>
      rw [first] at numbers
      change operationNumber config env x op y = .error err at numbers
      rw [numbers]
      rfl

/-- **Arithmetic is exact.** If every node of an arithmetic expression is sound, the expression is
evaluated to the number that is its exact value, or to the value of the name that it is. Else it is
evaluated to the error of the first node that is not sound. -/
theorem evaluate_arithmetic (arithmetic : Arithmetic e) (config : Config) (env : Environment) :
    ((∀ node ∈ e.postorder none, node.Sound env) →
      ∃ v, e.evaluate config false env = .ok v ∧
        ((∃ q, v = .number q ∧ q.toRat = e.exact env) ∨
          ∃ name, e = identifier name ∧ env.lookup? name = some v)) ∧
    ((∃ node ∈ e.postorder none, ¬ node.Sound env) →
      ∃ before node after err, e.postorder none = before ++ node :: after ∧
        (∀ n ∈ before, n.Sound env) ∧ node.failure? config.precision env = some err ∧
        e.evaluate config false env = .error err) := by
  have follows := arithmetic.evaluate_follows config env
  cases first : e.firstFailure? config.precision env none with
  | none =>
    rw [first] at follows
    refine ⟨fun _ => follows, fun ⟨node, inside, failing⟩ => absurd ?_ failing⟩
    exact Node.failure?_eq_none_iff.1 (List.findSome?_eq_none_iff.1 first node inside)
  | some err =>
    rw [first] at follows
    obtain ⟨before, node, after, split, fails, earlier⟩ := List.findSome?_eq_some_iff.1 first
    have sound : ∀ n ∈ before, n.Sound env := fun n h => Node.failure?_eq_none_iff.1 (earlier n h)
    refine ⟨fun all => ?_, fun _ => ⟨before, node, after, err, split, sound, fails, follows⟩⟩
    have inside : node ∈ e.postorder none := by simp [split]
    rw [Node.failure?_eq_none_iff.2 (all node inside)] at fails
    cases fails

/-- The inverse of a square, and a sum of a range and a ratio that is not looked at. -/
theorem evaluate_arithmetic_operands :
    let env := (Environment.empty.bind "x" (.number (.ofInt (-2)))).bind "s"
      (.sequence (.range 1 3))
    let power := operation (number (.ofInt 3)) .exponent (identifier "x")
    let sum := operation (identifier "s") .add (operation (number 1) .divide (number 0))
    (Arithmetic power ∧ (∀ node ∈ power.postorder none, node.Sound env) ∧
      ∃ q, power.evaluate {} false env = .ok (.number q) ∧ q.toRat = 1 / 9) ∧
    (Arithmetic sum ∧ (∃ node ∈ sum.postorder none, ¬ node.Sound env) ∧
      ∃ err, sum.evaluate {} false env = .error err) := by
  intro env power sum
  have isPower : Arithmetic power := .node .exponent (.literal _) (.name _)
  have isSum : Arithmetic sum := .node .add (.name _) (.node .divide (.literal _) (.literal _))
  have sound : ∀ node ∈ power.postorder none, node.Sound env := fun node h =>
    Node.failure?_eq_none_iff.1 (List.findSome?_eq_none_iff.1
      (by decide +kernel : power.firstFailure? 0 env none = none) node h)
  have fails : Node.failure? 0 env ⟨some .leftOperand, identifier "s"⟩ ≠ none := by decide +kernel
  have unsound : ∃ node ∈ sum.postorder none, ¬ node.Sound env :=
    ⟨_, List.mem_cons_self, fun sound => fails (Node.failure?_eq_none_iff.2 sound)⟩
  have exact : power.exact env = 1 / 9 := by decide +kernel
  refine ⟨⟨isPower, sound, ?_⟩, isSum, unsound, ?_⟩
  · obtain ⟨v, value, ⟨q, rfl, same⟩ | ⟨name, alone, -⟩⟩ :=
      (evaluate_arithmetic isPower {} env).1 sound
    · exact ⟨q, value, same.trans exact⟩
    · exact Expression.noConfusion alone
  · obtain ⟨-, -, -, err, -, -, -, value⟩ := (evaluate_arithmetic isSum {} env).2 unsound
    exact ⟨err, value⟩

end Expression

end RatCalc
