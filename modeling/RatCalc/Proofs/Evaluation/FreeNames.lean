import Mathlib
import RatCalc.Expression.Query
import RatCalc.Proofs.Evaluation.Success

/-!
# Free names

The body of a `map` or of a `reduce` sees its own parameters only, so an expression looks up the
names outside these bodies and no other. A free name that is not the whole expression stands where
a value of one certain kind is expected.

## Main definitions

* `Expression.free`: the names outside the bodies of `map` and `reduce`.

## Main results

* `Expression.evaluate_congr`: an evaluation depends on the values of the free names only.
* `Expression.exists_kind_of_mem_free`: all successful evaluations see a free name bound to values
  of the same kind.
* `Expression.evaluate_closed`: bodies see nothing of the environment.
-/

namespace RatCalc

namespace Expression

variable {config : Config} {canceled : Bool}

/-- The names that an expression looks up in its environment, from left to right. -/
def free : Expression → List Name
  | number _ => []
  | identifier name => [name]
  | sequence first last => first.free ++ last.free
  | operation left _ right => left.free ++ right.free
  | map input _ _ => input.free
  | reduce input initial _ _ _ => input.free ++ initial.free

/-- A free name is one of the leaves. -/
theorem mem_leaves_of_mem_free {e : Expression} {name : Name} (h : name ∈ e.free) :
    Leaf.identifier name ∈ e.leaves := by
  induction e with
  | number => exact absurd h List.not_mem_nil
  | identifier other =>
    rw [List.mem_singleton.1 h]
    exact List.mem_singleton_self _
  | sequence first last hf hl =>
    exact List.mem_append.2 ((List.mem_append.1 h).imp hf hl)
  | operation left op right hl hr =>
    exact List.mem_append.2 ((List.mem_append.1 h).imp hl hr)
  | map input parameter body hi _ =>
    exact List.mem_append_left _ (hi h)
  | reduce input initial left right body hi hs _ =>
    exact List.mem_append_left _ (List.mem_append.2 ((List.mem_append.1 h).imp hi hs))

/-- **An evaluation depends on the values of the free names only**, in its value as in its
error. -/
theorem evaluate_congr {e : Expression} {env env' : Environment}
    (same : ∀ name ∈ e.free, env.lookup? name = env'.lookup? name) :
    e.evaluate config canceled env = e.evaluate config canceled env' := by
  induction e with
  | number value => rfl
  | identifier name =>
    have value := same name (List.mem_singleton_self name)
    simp only [evaluate, value]
  | sequence first last hf hl =>
    have start := hf fun name h => same name (List.mem_append_left _ h)
    have stop := hl fun name h => same name (List.mem_append_right _ h)
    simp only [evaluate, start, stop]
  | operation left op right hl hr =>
    have first := hl fun name h => same name (List.mem_append_left _ h)
    have second := hr fun name h => same name (List.mem_append_right _ h)
    simp only [evaluate, first, second]
  | map input parameter body hi _ =>
    have items := hi same
    simp only [evaluate, items]
  | reduce input initial left right body hi hs _ =>
    have items := hi fun name h => same name (List.mem_append_left _ h)
    have start := hs fun name h => same name (List.mem_append_right _ h)
    simp only [evaluate, items, start]

/-- A name that is free in a part of an expression is bound to values of one kind wherever the
expression has a value, if the part has values of one kind there. -/
theorem exists_kind_of_part {e part : Expression} {name : Name} (kind : Kind)
    (inner : part ≠ identifier name → ∃ k, ∀ {env : Environment} {v : Value},
      part.evaluate config false env = .ok v → ∃ w, env.lookup? name = some w ∧ w.kind = k)
    (values : ∀ {env : Environment} {v : Value}, e.evaluate config false env = .ok v →
      ∃ w, part.evaluate config false env = .ok w ∧ w.kind = kind) :
    ∃ k, ∀ {env : Environment} {v : Value}, e.evaluate config false env = .ok v →
      ∃ w, env.lookup? name = some w ∧ w.kind = k := by
  by_cases whole : part = identifier name
  · subst whole
    refine ⟨kind, fun {env v} hv => ?_⟩
    obtain ⟨w, hw, hk⟩ := values hv
    exact ⟨w, evaluate_identifier_eq_ok_iff.1 hw, hk⟩
  · obtain ⟨k, hk⟩ := inner whole
    refine ⟨k, fun {env v} hv => ?_⟩
    obtain ⟨w, hw, -⟩ := values hv
    exact hk hw

/-- **A free name that is not the whole expression is bound to values of one kind** wherever the
expression has a value. -/
theorem exists_kind_of_mem_free {e : Expression} {name : Name} (h : name ∈ e.free)
    (part : e ≠ identifier name) :
    ∃ kind, ∀ {env : Environment} {v : Value}, e.evaluate config false env = .ok v →
      ∃ w, env.lookup? name = some w ∧ w.kind = kind := by
  induction e with
  | number => exact absurd h List.not_mem_nil
  | identifier other => exact absurd (congrArg identifier (List.mem_singleton.1 h).symm) part
  | sequence first last hf hl =>
    rcases List.mem_append.1 h with h | h
    · refine exists_kind_of_part .number (hf h) fun hv => ?_
      obtain ⟨start, stop, h₁, h₂, -, -⟩ := evaluate_sequence_eq_ok_iff.1 hv
      exact ⟨_, h₁, rfl⟩
    · refine exists_kind_of_part .number (hl h) fun hv => ?_
      obtain ⟨start, stop, h₁, h₂, -, -⟩ := evaluate_sequence_eq_ok_iff.1 hv
      exact ⟨_, h₂, rfl⟩
  | operation left op right hl hr =>
    rcases List.mem_append.1 h with h | h
    · refine exists_kind_of_part .number (hl h) fun hv => ?_
      obtain ⟨x, y, z, h₁, h₂, -, -⟩ := evaluate_operation_eq_ok_iff.1 hv
      exact ⟨_, h₁, rfl⟩
    · refine exists_kind_of_part .number (hr h) fun hv => ?_
      obtain ⟨x, y, z, h₁, h₂, -, -⟩ := evaluate_operation_eq_ok_iff.1 hv
      exact ⟨_, h₂, rfl⟩
  | map input parameter body hi _ =>
    refine exists_kind_of_part .sequence (hi h) fun hv => ?_
    obtain ⟨items, h₁, -⟩ := evaluate_map_eq_ok_iff.1 hv
    exact ⟨_, h₁, rfl⟩
  | reduce input initial left right body hi hs _ =>
    rcases List.mem_append.1 h with h | h
    · refine exists_kind_of_part .sequence (hi h) fun hv => ?_
      obtain ⟨items, start, h₁, h₂, -, -⟩ := evaluate_reduce_eq_ok_iff.1 hv
      exact ⟨_, h₁, rfl⟩
    · refine exists_kind_of_part .number (hs h) fun hv => ?_
      obtain ⟨items, start, h₁, h₂, -, -⟩ := evaluate_reduce_eq_ok_iff.1 hv
      exact ⟨_, h₂, rfl⟩

/-- Where an expression has a value, its free names have one. -/
theorem exists_lookup?_of_mem_free {e : Expression} {env : Environment} {v : Value} {name : Name}
    (h : e.evaluate config false env = .ok v) (free : name ∈ e.free) :
    ∃ w, env.lookup? name = some w := by
  by_cases whole : e = identifier name
  · subst whole
    exact ⟨v, evaluate_identifier_eq_ok_iff.1 h⟩
  · obtain ⟨kind, expects⟩ := exists_kind_of_mem_free free whole
    obtain ⟨w, found, -⟩ := expects h
    exact ⟨w, found⟩

/-- **Bodies are closed.** An evaluation is the same in any two environments that agree on the names
outside the bodies of `map` and `reduce`, in its value as in its error, and binding a name that
occurs only inside does nothing. The names outside are all needed: where there is a value, each of
them is bound. -/
theorem evaluate_closed {e : Expression} {env env' : Environment}
    (same : ∀ name ∈ e.free, env.lookup? name = env'.lookup? name) :
    e.evaluate config false env = e.evaluate config false env' ∧
      (∀ name ∉ e.free, ∀ v,
        e.evaluate config false (env.bind name v) = e.evaluate config false env') ∧
      ∀ v, e.evaluate config false env = .ok v → ∀ name ∈ e.free,
        ∃ w, env.lookup? name = some w := by
  refine ⟨evaluate_congr same, fun name inside v => evaluate_congr fun other free => ?_,
    fun v value name free => exists_lookup?_of_mem_free value free⟩
  have apart : other ≠ name := fun h => inside (h ▸ free)
  rw [Environment.lookup?_bind_of_ne _ _ apart]
  exact same other free

/-- The sum of the squares up to `n`, with parameters that the environments bind to other values. -/
theorem evaluate_closed_squares :
    let squares := reduce (map (sequence one (identifier "n")) "a"
      (operation (identifier "a") .multiply (identifier "a"))) zero "n" "b"
      (operation (identifier "n") .add (identifier "b"))
    let few := Environment.empty.bind "n" (.number (.ofInt 3))
    let many := (few.bind "a" (.sequence (.range 1 2))).bind "b" (.number (.ofInt 7))
    (∀ name ∈ squares.free, few.lookup? name = many.lookup? name) ∧
      squares.evaluate {} false few = .ok (.number (.ofInt 14)) ∧
      squares.evaluate {} false many = .ok (.number (.ofInt 14)) ∧
      (∀ v, squares.evaluate {} false (few.bind "a" v) = .ok (.number (.ofInt 14))) := by
  intro squares few many
  have same : ∀ name ∈ squares.free, few.lookup? name = many.lookup? name := by
    decide +kernel
  have value : squares.evaluate {} false few = .ok (.number (.ofInt 14)) := by
    decide +kernel
  have equal : squares.evaluate {} false few = squares.evaluate {} false many :=
    (evaluate_closed same).1
  have inside (v : Value) :
      squares.evaluate {} false (few.bind "a" v) = squares.evaluate {} false many :=
    (evaluate_closed same).2.1 "a" (by decide +kernel) v
  exact ⟨same, value, equal ▸ value, fun v => (inside v).trans (equal ▸ value)⟩

end Expression

end RatCalc
