import Abacus.Expr.Walk
import Mathlib.Logic.Function.Basic

/-!
# Sameness of expressions

Expressions are compared by walking both side by side. Such walks agree exactly when they visit the same nodes in the
same order, and from the visits of a walk its expression can be built again. Nothing of an expression is lost on a
walk, and expressions that are the same are equal.
-/

namespace Abacus

namespace Walk

theorem visits_of_next?_eq_none {walk : Walk} (h : walk.next? = none) : walk.visits = [] := by
  rw [eq_nil_of_next?_eq_none h, visits]

theorem agree_iff (left right : Walk) : left.agree right = true ↔ left.visits = right.visits := by
  fun_induction agree left right with
  | case1 left right hleft hright =>
    rw [visits_of_next?_eq_none hleft, visits_of_next?_eq_none hright]
    exact iff_of_true rfl rfl
  | case2 left right leftRest visit rightRest hright hleft ih =>
    rw [visits_next? hleft, visits_next? hright, List.cons_inj_right]
    exact ih
  | case3 left right leftVisit leftRest rightVisit rightRest hleft hright hne =>
    rw [visits_next? hleft, visits_next? hright]
    exact iff_of_false Bool.false_ne_true fun h => hne (List.cons.inj h).1
  | case4 left right hends hvisits =>
    -- one walk has come to its end before the other
    cases hleft : left.next? with
    | none =>
      cases hright : right.next? with
      | none => exact absurd hright (hends hleft)
      | some step =>
        rw [visits_of_next?_eq_none hleft, visits_next? hright]
        exact iff_of_false Bool.false_ne_true (List.cons_ne_nil _ _).symm
    | some step =>
      cases hright : right.next? with
      | none =>
        rw [visits_next? hleft, visits_of_next?_eq_none hright]
        exact iff_of_false Bool.false_ne_true (List.cons_ne_nil _ _)
      | some other => exact absurd hright (hvisits _ _ _ _ hleft)

end Walk

namespace Expr

theorem buildAll_postOrder_append (expr : Expr) (rest : List Visit) (built : List Expr) :
    buildAll (expr.postOrder ++ rest) built = buildAll rest (expr :: built) := by
  induction expr generalizing rest built with
  | literal token => rfl
  | chain token signs => rfl
  | binary operator left right ihleft ihright =>
    rw [postOrder, List.append_assoc, List.append_assoc, ihleft, ihright]
    rfl

/-- An expression is built again from its visits. -/
theorem ofVisits?_postOrder (expr : Expr) : ofVisits? expr.postOrder = some expr := by
  have hbuilt := buildAll_postOrder_append expr [] []
  rw [List.append_nil] at hbuilt
  rw [ofVisits?, hbuilt]
  rfl

theorem postOrder_injective : Function.Injective postOrder := by
  intro left right h
  have hbuilt := ofVisits?_postOrder left
  rw [h, ofVisits?_postOrder] at hbuilt
  exact (Option.some.inj hbuilt).symm

theorem same_iff_eq (left right : Expr) : left.same right = true ↔ left = right := by
  have hvisits : ∀ expr : Expr, (Walk.ofExpr expr).visits = expr.postOrder := by
    intro expr
    exact List.append_nil _
  rw [same, Walk.agree_iff, hvisits, hvisits]
  exact postOrder_injective.eq_iff

end Expr

end Abacus
