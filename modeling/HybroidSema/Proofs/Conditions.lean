import HybroidSema.Tree
import Mathlib.Data.List.Nodup

/-!
# Entity tests in conditions

A condition is true or false, and what it tells about the values that it tests depends on where
the tests stand in it. A test that is a part of a conjunction holds whenever the conjunction does.
Below a negation it fails then, and beside a disjunction or inside a comparison nothing follows.

* `Expr.isPlain`: the expressions without statements inside, which conditions are made of.
* `Expr.tests`: the tests that bind a name and are not below an `or`.
* `Question`, `Evaluation` and `Evaluation.eval`: the truth value of a condition, given what each
  tested value is and the truth of everything that is no logical operation.
* `Expr.Entails`: whenever the condition has the truth value, the tested value is of the type.
* `Expr.Forces`: the positions of a test in which the condition decides it. If no question is
  asked twice, these are the only ones (`Expr.entails_iff_forces`).
* `Expr.Faithful`: every name of the condition is decided where it is declared.
-/

namespace HybroidSema

/-! ## Parts of a condition -/

mutual
/-- No function body and no match is in the expression. -/
def Expr.isPlain (e : Expr) : Bool :=
  match e with
  | .literal _ | .ident _ | .builtin _ | .envAccess _ _ _ | .self _ _ | .error _ => true
  | .function _ _ _ _ | .matching _ _ _ _ => false
  | .unary _ operand _ => operand.isPlain
  | .binary left _ right _ => left.isPlain && right.isPlain
  | .group inner _ => inner.isPlain
  | .list elems _ => Expr.allPlain elems
  | .map entries _ => MapEntry.allPlain entries
  | .call caller _ args _ _ => caller.isPlain && Expr.allPlain args
  | .methodCall receiver _ _ _ _ args _ _ => receiver.isPlain && Expr.allPlain args
  | .field target _ _ _ => target.isPlain
  | .member target index _ => target.isPlain && index.isPlain
  | .new _ _ args _ | .spawn _ _ args _ => Expr.allPlain args
  | .entityTest value _ _ _ _ _ => value.isPlain
  termination_by structural e

/-- No function body and no match is in the expressions. -/
def Expr.allPlain (es : List Expr) : Bool :=
  match es with
  | [] => true
  | e :: rest => e.isPlain && Expr.allPlain rest
  termination_by structural es

/-- No function body and no match is in the entries. -/
def MapEntry.allPlain (es : List MapEntry) : Bool :=
  match es with
  | [] => true
  | ⟨_, e⟩ :: rest => e.isPlain && MapEntry.allPlain rest
  termination_by structural es
end

/-- An entity test that binds a name. -/
structure EntityTest where
  value : Expr
  ty : TypeExpr
  name : Ident
  negated : Bool

mutual
/-- The tests of an expression that bind a name, in the order in which they are walked. Below an
`or` no name can be bound. -/
def Expr.tests (e : Expr) : List EntityTest :=
  match e with
  | .literal _ | .ident _ | .builtin _ | .envAccess _ _ _ | .self _ _ | .error _
  | .function _ _ _ _ | .matching _ _ _ _ => []
  | .unary _ operand _ => operand.tests
  | .binary left op right _ => if op = .or then [] else left.tests ++ right.tests
  | .group inner _ => inner.tests
  | .list elems _ => Expr.allTests elems
  | .map entries _ => MapEntry.allTests entries
  | .call caller _ args _ _ => caller.tests ++ Expr.allTests args
  | .methodCall receiver _ _ _ _ args _ _ => receiver.tests ++ Expr.allTests args
  | .field target _ _ _ => target.tests
  | .member target index _ => target.tests ++ index.tests
  | .new _ _ args _ | .spawn _ _ args _ => Expr.allTests args
  | .entityTest value ty binding negated _ _ =>
    value.tests ++ binding.toList.map (⟨value, ty, ·, negated⟩)
  termination_by structural e

/-- The tests of expressions in order. -/
def Expr.allTests (es : List Expr) : List EntityTest :=
  match es with
  | [] => []
  | e :: rest => e.tests ++ Expr.allTests rest
  termination_by structural es

/-- The tests of the values of entries in order. -/
def MapEntry.allTests (es : List MapEntry) : List EntityTest :=
  match es with
  | [] => []
  | ⟨_, e⟩ :: rest => e.tests ++ MapEntry.allTests rest
  termination_by structural es
end

/-! ## Truth values -/

/-- What is asked when a condition is evaluated: whether a tested value is an entity of the type,
and whether an expression that is neither a test nor a logical operation is true. -/
inductive Question where
  | isA (value : Expr) (ty : TypeExpr)
  | isTrue (e : Expr)

/-- The answers that one evaluation meets. -/
abbrev Evaluation := Question → Bool

/-- The truth value of a condition. -/
def Evaluation.eval (v : Evaluation) (e : Expr) : Bool :=
  match e with
  | .unary .not operand _ => !v.eval operand
  | .binary left .and right _ => v.eval left && v.eval right
  | .binary left .or right _ => v.eval left || v.eval right
  | .group inner _ => v.eval inner
  | .entityTest value ty _ negated _ _ => v (.isA value ty) != negated
  | e => v (.isTrue e)
  termination_by structural e

/-- Every test fails, and everything else has the truth value. -/
def Evaluation.failing (b : Bool) : Evaluation
  | .isA _ _ => false
  | .isTrue _ => b

/-- Whenever the condition has the truth value, the tested value is an entity of the type. -/
def Expr.Entails (e : Expr) (b : Bool) (value : Expr) (ty : TypeExpr) : Prop :=
  ∀ v : Evaluation, v.eval e = b → v (.isA value ty) = true

/-- The truth value of the condition decides a test in favour of its type. -/
inductive Expr.Forces (value : Expr) (ty : TypeExpr) : Expr → Bool → Prop
  | test (binding : Option Ident) (negated official : Bool) (span : Span) :
    Forces value ty (.entityTest value ty binding negated official span) (!negated)
  | not {operand : Expr} {b : Bool} (span : Span) (h : Forces value ty operand (!b)) :
    Forces value ty (.unary .not operand span) b
  | andLeft {left : Expr} (right : Expr) (span : Span) (h : Forces value ty left true) :
    Forces value ty (.binary left .and right span) true
  | andRight {right : Expr} (left : Expr) (span : Span) (h : Forces value ty right true) :
    Forces value ty (.binary left .and right span) true
  | orLeft {left : Expr} (right : Expr) (span : Span) (h : Forces value ty left false) :
    Forces value ty (.binary left .or right span) false
  | orRight {right : Expr} (left : Expr) (span : Span) (h : Forces value ty right false) :
    Forces value ty (.binary left .or right span) false
  | group {inner : Expr} {b : Bool} (span : Span) (h : Forces value ty inner b) :
    Forces value ty (.group inner span) b

namespace Expr

variable {e : Expr} {b : Bool} {value : Expr} {ty : TypeExpr}

/-- What is decided is entailed. -/
theorem Forces.entails (h : Forces value ty e b) : e.Entails b value ty := by
  induction h with
  | test binding negated =>
    intro v hv
    cases negated <;> simpa [Evaluation.eval] using hv
  | not span _ ih =>
    intro v hv
    exact ih v (by simpa [Evaluation.eval] using congrArg (!·) hv)
  | andLeft right span _ ih =>
    intro v hv
    rw [Evaluation.eval, Bool.and_eq_true] at hv
    exact ih v hv.1
  | andRight left span _ ih =>
    intro v hv
    rw [Evaluation.eval, Bool.and_eq_true] at hv
    exact ih v hv.2
  | orLeft right span _ ih =>
    intro v hv
    rw [Evaluation.eval, Bool.or_eq_false_iff] at hv
    exact ih v hv.1
  | orRight left span _ ih =>
    intro v hv
    rw [Evaluation.eval, Bool.or_eq_false_iff] at hv
    exact ih v hv.2
  | group span _ ih =>
    intro v hv
    exact ih v hv

/-- Every name that the condition binds is decided where it is declared: the name of an `is` where
the condition is true, that of an `isnt` where it is false. -/
def Faithful (e : Expr) : Prop := ∀ t ∈ e.tests, Forces t.value t.ty e (!t.negated)

/-! ## Conditions that ask nothing twice -/

/-- The questions that a condition asks, in order. -/
def questions (e : Expr) : List Question :=
  match e with
  | .unary .not operand _ => operand.questions
  | .binary left .and right _ | .binary left .or right _ => left.questions ++ right.questions
  | .group inner _ => inner.questions
  | .entityTest value ty _ _ _ _ => [.isA value ty]
  | e => [.isTrue e]
  termination_by structural e

/-- A condition depends on the answers to its questions only. -/
theorem eval_congr {v w : Evaluation} (h : ∀ q ∈ e.questions, v q = w q) :
    v.eval e = w.eval e := by
  fun_induction questions e with
  | case1 operand span ih => rw [Evaluation.eval, Evaluation.eval, ih h]
  | case2 left right span hleft hright =>
    rw [Evaluation.eval, Evaluation.eval, hleft fun q hq => h q (by simp [hq]),
      hright fun q hq => h q (by simp [hq])]
  | case3 left right span hleft hright =>
    rw [Evaluation.eval, Evaluation.eval, hleft fun q hq => h q (by simp [hq]),
      hright fun q hq => h q (by simp [hq])]
  | case4 inner span ih => rw [Evaluation.eval, Evaluation.eval, ih h]
  | case5 value ty => rw [Evaluation.eval, Evaluation.eval, h _ (by simp)]
  | case6 e =>
    rw [Evaluation.eval, Evaluation.eval, h _ (by simp)] <;> assumption

theorem Forces.mem_questions (h : Forces value ty e b) : .isA value ty ∈ e.questions := by
  induction h with
  | test => simp [questions]
  | _ => simp_all [questions]

/-- Two conditions without a common question can each have its truth value. -/
theorem exists_eval_both {left right : Expr} {q : Question}
    (hdisjoint : left.questions.Disjoint right.questions)
    (hleft : ∃ v : Evaluation, v.eval left = b ∧ v q = false)
    (hright : ∃ v : Evaluation, v.eval right = b ∧ v q = false) :
    ∃ v : Evaluation, v.eval left = b ∧ v.eval right = b ∧ v q = false := by
  classical
  obtain ⟨v, hv, hvq⟩ := hleft
  obtain ⟨w, hw, hwq⟩ := hright
  refine ⟨fun q => if q ∈ left.questions then v q else w q, ?_, ?_, ?_⟩
  · exact (eval_congr fun q hq => if_pos hq).trans hv
  · exact (eval_congr fun q hq => if_neg fun hleft => hdisjoint hleft hq).trans hw
  · simp [hvq, hwq]

/-- Where a test is not decided there is an evaluation in which it fails. -/
theorem exists_eval_of_not_forces (hnodup : e.questions.Nodup) (h : ¬Forces value ty e b) :
    ∃ v : Evaluation, v.eval e = b ∧ v (.isA value ty) = false := by
  fun_induction questions e generalizing b with
  | case1 operand span ih =>
    obtain ⟨v, hv, hfails⟩ := ih hnodup (b := !b) fun hforces => h (.not span hforces)
    exact ⟨v, by rw [Evaluation.eval, hv, Bool.not_not], hfails⟩
  | case2 left right span hleft hright =>
    obtain ⟨hnodupLeft, hnodupRight, hdisjoint⟩ := List.nodup_append'.1 hnodup
    cases b with
    | true =>
      obtain ⟨v, hvl, hvr, hfails⟩ := exists_eval_both hdisjoint
        (hleft hnodupLeft fun hforces => h (.andLeft right span hforces))
        (hright hnodupRight fun hforces => h (.andRight left span hforces))
      exact ⟨v, by rw [Evaluation.eval, hvl, hvr, Bool.and_self], hfails⟩
    | false =>
      -- Both sides cannot decide the same question, and one of them being false is enough.
      by_cases hforced : Forces value ty left false
      · obtain ⟨v, hv, hfails⟩ := hright hnodupRight fun hforces =>
          hdisjoint hforced.mem_questions hforces.mem_questions
        exact ⟨v, by rw [Evaluation.eval, hv, Bool.and_false], hfails⟩
      · obtain ⟨v, hv, hfails⟩ := hleft hnodupLeft hforced
        exact ⟨v, by rw [Evaluation.eval, hv, Bool.false_and], hfails⟩
  | case3 left right span hleft hright =>
    obtain ⟨hnodupLeft, hnodupRight, hdisjoint⟩ := List.nodup_append'.1 hnodup
    cases b with
    | false =>
      obtain ⟨v, hvl, hvr, hfails⟩ := exists_eval_both hdisjoint
        (hleft hnodupLeft fun hforces => h (.orLeft right span hforces))
        (hright hnodupRight fun hforces => h (.orRight left span hforces))
      exact ⟨v, by rw [Evaluation.eval, hvl, hvr, Bool.or_self], hfails⟩
    | true =>
      by_cases hforced : Forces value ty left true
      · obtain ⟨v, hv, hfails⟩ := hright hnodupRight fun hforces =>
          hdisjoint hforced.mem_questions hforces.mem_questions
        exact ⟨v, by rw [Evaluation.eval, hv, Bool.or_true], hfails⟩
      · obtain ⟨v, hv, hfails⟩ := hleft hnodupLeft hforced
        exact ⟨v, by rw [Evaluation.eval, hv, Bool.true_or], hfails⟩
  | case4 inner span ih =>
    obtain ⟨v, hv, hfails⟩ := ih hnodup fun hforces => h (.group span hforces)
    exact ⟨v, hv, hfails⟩
  | case5 tested ty' binding negated official span =>
    classical
    by_cases hsame : tested = value ∧ ty' = ty
    · obtain ⟨rfl, rfl⟩ := hsame
      have hb : b = negated := by
        by_contra hne
        obtain rfl : b = !negated := by cases b <;> cases negated <;> simp_all
        exact h (.test binding negated official span)
      exact ⟨fun _ => false, by simp [Evaluation.eval, hb], rfl⟩
    · refine ⟨fun q => decide (q = .isA tested ty') && (b != negated), ?_, ?_⟩
      · cases b <;> cases negated <;> simp [Evaluation.eval]
      · have hne : Question.isA value ty ≠ .isA tested ty' := by
          intro heq
          cases heq
          exact hsame ⟨rfl, rfl⟩
        simp [hne]
  | case6 e => exact ⟨.failing b, by rw [Evaluation.eval] <;> first | rfl | assumption, rfl⟩

/-- If a condition asks nothing twice, nothing is entailed but what is decided. -/
theorem entails_iff_forces (hnodup : e.questions.Nodup) :
    e.Entails b value ty ↔ Forces value ty e b := by
  refine ⟨fun hentails => ?_, Forces.entails⟩
  by_contra hforces
  obtain ⟨v, hv, hfails⟩ := exists_eval_of_not_forces hnodup hforces
  rw [hentails v hv] at hfails
  cases hfails

end Expr

end HybroidSema
