import Abacus.Proofs.Expr.Sameness
import Abacus.Proofs.Program.Agreement

/-!
# Walks are read from their end

The last visit of a walk is that of the whole expression. It tells how many operands come before it, and the walk of the
last operand ends right there. A walk can therefore be taken apart from its end, whatever has been visited before, and
no walk ends with the walk of another expression. At its beginning this is different: the walk of an expression starts
with that of its left operand, and side by side the two agree up to the end of the shorter one. No other expressions can
stand at its beginning, since on a walk something is left over to be joined until the last visit.
-/

namespace Abacus.Expr

/-- The visits of the operands of an expression. -/
def operandVisits : Expr → List Visit
  | literal _ => []
  | chain _ _ => []
  | binary _ left right => left.postOrder ++ right.postOrder

theorem postOrder_eq_append (expr : Expr) : expr.postOrder = expr.operandVisits ++ [expr.visit] := by
  cases expr <;> rfl

theorem visit_eq_of_append {left right : Expr} {before behind : List Visit}
    (h : before ++ left.postOrder = behind ++ right.postOrder) :
    before ++ left.operandVisits = behind ++ right.operandVisits ∧ left.visit = right.visit := by
  rw [postOrder_eq_append left, postOrder_eq_append right, ← List.append_assoc, ← List.append_assoc] at h
  obtain ⟨hfront, hvisit⟩ := List.append_inj' h rfl
  exact ⟨hfront, List.singleton_inj.mp hvisit⟩

/-- Where two lists of visits are equal and both end with a walk, it is the walk of one expression. -/
theorem postOrder_append_inj {left right : Expr} {before behind : List Visit}
    (h : before ++ left.postOrder = behind ++ right.postOrder) : before = behind ∧ left = right := by
  induction left generalizing right before behind with
  | literal token =>
    obtain ⟨hfront, hvisit⟩ := visit_eq_of_append h
    cases right with
    | literal other => exact ⟨by simpa [operandVisits] using hfront, by rw [Visit.literal.inj hvisit]⟩
    | chain | binary => simp [visit] at hvisit
  | chain token signs =>
    obtain ⟨hfront, hvisit⟩ := visit_eq_of_append h
    cases right with
    | chain other others =>
      obtain ⟨rfl, rfl⟩ := Visit.chain.inj hvisit
      exact ⟨by simpa [operandVisits] using hfront, rfl⟩
    | literal | binary => simp [visit] at hvisit
  | binary operator first second ihfirst ihsecond =>
    obtain ⟨hfront, hvisit⟩ := visit_eq_of_append h
    cases right with
    | literal | chain => simp [visit] at hvisit
    | binary other left right =>
      obtain rfl := Visit.binary.inj hvisit
      rw [operandVisits, operandVisits, ← List.append_assoc, ← List.append_assoc] at hfront
      obtain ⟨hrest, rfl⟩ := ihsecond hfront
      obtain ⟨hbefore, rfl⟩ := ihfirst hrest
      exact ⟨hbefore, rfl⟩

/-- A walk ends with no walk but its own. -/
theorem visits_suffix_iff (left right : Expr) : left.visits <:+ right.visits ↔ left = right := by
  constructor
  · rintro ⟨before, hvisits⟩
    rw [visits_eq_postOrder, visits_eq_postOrder] at hvisits
    exact (postOrder_append_inj (hvisits.trans (List.nil_append _).symm)).2
  · rintro rfl
    exact List.suffix_rfl

/-! ### Beginnings of a walk -/

/-- An expression and what its left operands lead down to. -/
def leftSpine : Expr → List Expr
  | literal token => [literal token]
  | chain token signs => [chain token signs]
  | binary operator left right => binary operator left right :: left.leftSpine

/-- How many expressions a visit adds to those that are waiting to be joined. -/
def visitGain : Visit → Int
  | .literal _ => 1
  | .chain _ _ => 1
  | .binary _ => -1

def visitsGain : List Visit → Int
  | [] => 0
  | visit :: visits => visitGain visit + visitsGain visits

theorem visitsGain_append (visits others : List Visit) :
    visitsGain (visits ++ others) = visitsGain visits + visitsGain others := by
  induction visits with
  | nil => rw [List.nil_append, visitsGain, Int.zero_add]
  | cons visit visits ih => rw [List.cons_append, visitsGain, visitsGain, ih, Int.add_assoc]

@[simp] theorem visitsGain_postOrder (expr : Expr) : visitsGain expr.postOrder = 1 := by
  induction expr with
  | literal token => rfl
  | chain token signs => rfl
  | binary operator left right ihleft ihright =>
    rw [postOrder, visitsGain_append, visitsGain_append, ihleft, ihright]
    rfl

theorem postOrder_ne_nil (expr : Expr) : expr.postOrder ≠ [] := by
  rw [postOrder_eq_append]
  exact List.append_ne_nil_of_right_ne_nil _ (List.cons_ne_nil _ _)

/-- Where a walk of two operands is cut: behind its last visit, within the left operand, or within the right one. -/
theorem postOrder_binary_cut {operator : Token} {left right : Expr} {seen rest : List Visit}
    (h : seen ++ rest = (binary operator left right).postOrder) :
    rest = [] ∨ (∃ more, seen ++ more = left.postOrder) ∨
      ∃ more others, seen = left.postOrder ++ more ∧ more ++ others = right.postOrder := by
  obtain rfl | ⟨others, visit, rfl⟩ := List.eq_nil_or_concat rest
  · exact Or.inl rfl
  · rw [postOrder, List.concat_eq_append, ← List.append_assoc] at h
    obtain ⟨more, hleft, -⟩ | ⟨more, hseen, hright⟩ := List.append_eq_append_iff.mp (List.append_inj' h rfl).1
    · exact Or.inr (Or.inl ⟨more, hleft.symm⟩)
    · exact Or.inr (Or.inr ⟨more, others, hseen, hright.symm⟩)

/-- On a walk something is waiting to be joined from the first visit on. -/
theorem visitsGain_pos_of_append {expr : Expr} {seen rest : List Visit} (h : seen ++ rest = expr.postOrder) :
    seen = [] ∨ 0 < visitsGain seen := by
  induction expr generalizing seen rest with
  | literal | chain =>
    obtain ⟨rfl, -⟩ | ⟨rfl, -⟩ := List.append_eq_singleton_iff.mp h
    · exact Or.inl rfl
    · exact Or.inr Int.zero_lt_one
  | binary operator left right ihleft ihright =>
    obtain rfl | ⟨more, hleft⟩ | ⟨more, others, rfl, hright⟩ := postOrder_binary_cut h
    · rw [List.append_nil] at h
      exact Or.inr (by simp [h])
    · exact ihleft hleft
    · right
      rw [visitsGain_append, visitsGain_postOrder]
      rcases ihright hright with rfl | hmore
      · exact Int.zero_lt_one
      · omega

theorem mem_leftSpine_self (expr : Expr) : expr ∈ expr.leftSpine := by
  cases expr <;> exact List.mem_cons_self

theorem mem_leftSpine_of_postOrder_eq {left right : Expr} (h : left.postOrder = right.postOrder) :
    left ∈ right.leftSpine := by
  rw [postOrder_injective h]
  exact mem_leftSpine_self right

theorem mem_leftSpine_of_append {left right : Expr} {rest : List Visit}
    (h : left.postOrder ++ rest = right.postOrder) : left ∈ right.leftSpine := by
  induction right generalizing rest with
  | literal | chain =>
    obtain ⟨hnil, -⟩ | ⟨hwalk, -⟩ := List.append_eq_singleton_iff.mp h
    · exact absurd hnil (postOrder_ne_nil left)
    · exact mem_leftSpine_of_postOrder_eq hwalk
  | binary operator first second ihfirst _ =>
    obtain rfl | ⟨more, hfirst⟩ | ⟨more, others, hleft, hsecond⟩ := postOrder_binary_cut h
    · rw [List.append_nil] at h
      exact mem_leftSpine_of_postOrder_eq h
    · exact List.mem_cons_of_mem _ (ihfirst hfirst)
    · -- beyond the left operand more than one expression is waiting, until its operator is visited
      have hgain := congrArg visitsGain hleft
      rw [visitsGain_append, visitsGain_postOrder, visitsGain_postOrder] at hgain
      obtain rfl : more = [] := (visitsGain_pos_of_append hsecond).resolve_right (by omega)
      rw [List.append_nil] at hleft
      exact List.mem_cons_of_mem _ (mem_leftSpine_of_postOrder_eq hleft)

theorem postOrder_prefix_of_mem_leftSpine {left right : Expr} (h : left ∈ right.leftSpine) :
    left.postOrder <+: right.postOrder := by
  induction right with
  | literal | chain =>
    obtain rfl := List.mem_singleton.mp h
    exact List.prefix_rfl
  | binary operator first second ihfirst _ =>
    rcases List.mem_cons.mp h with rfl | hfirst
    · exact List.prefix_rfl
    · rw [postOrder, List.append_assoc]
      exact (ihfirst hfirst).trans (List.prefix_append _ _)

/-- A walk begins with those of the left operands that its expression leads down to, and with no others. -/
theorem visits_prefix_iff (left right : Expr) : left.visits <+: right.visits ↔ left ∈ right.leftSpine := by
  rw [visits_eq_postOrder, visits_eq_postOrder]
  exact ⟨fun ⟨_, h⟩ => mem_leftSpine_of_append h, postOrder_prefix_of_mem_leftSpine⟩

/-! ### Building an expression again -/

theorem buildWith_of_build {built next : List Expr} {visit : Visit} (h : build built visit = some next)
    (standIn : Expr) : buildWith standIn built visit = next := by
  cases visit with
  | literal token => exact Option.some.inj h
  | chain token signs => exact Option.some.inj h
  | binary operator =>
    match built with
    | [] => simp [build] at h
    | [second] => simp [build] at h
    | second :: first :: others => exact Option.some.inj h

theorem foldl_buildWith_of_buildAll {visits : List Visit} {built final : List Expr}
    (h : buildAll visits built = some final) (standIn : Expr) :
    visits.foldl (buildWith standIn) built = final := by
  induction visits generalizing built with
  | nil => exact Option.some.inj h
  | cons visit visits ih =>
    rw [buildAll] at h
    cases hnext : build built visit with
    | none => simp [hnext] at h
    | some next =>
      rw [hnext] at h
      rw [List.foldl_cons, buildWith_of_build hnext]
      exact ih h

/-- Where no operand is lacking, what would take its place does not matter. -/
theorem rebuild_of_ofVisits? {visits : List Visit} {expr : Expr} (h : ofVisits? visits = some expr) (standIn : Expr) :
    rebuild standIn visits = expr := by
  rw [ofVisits?] at h
  split at h
  · rename_i first others hbuilt
    rw [rebuild, foldl_buildWith_of_buildAll hbuilt]
    exact Option.some.inj h
  · simp at h

theorem ofVisits?_visits (expr : Expr) : ofVisits? expr.visits = some expr := by
  rw [visits_eq_postOrder, ofVisits?_postOrder]

/-- **Walks tell expressions apart.** Walking two expressions side by side finds them the same exactly when they are
equal, so an integer is never found the same as a chain without signs. A walk ends with the walk of no other expression,
and it begins with those of the left operands that its expression leads down to and no others. Built from its walk an
expression is itself: no operator lacks an operand, and nothing takes the place of one. -/
theorem same_iff_eq_and_rebuild (left right : Expr) :
    (left.same right = true ↔ left = right) ∧
    (∀ token other, (literal token).same (chain other []) = false ∧ (chain other []).same (literal token) = false) ∧
    (left.visits <:+ right.visits ↔ left = right) ∧
    (left.visits <+: right.visits ↔ left ∈ right.leftSpine) ∧
    ofVisits? left.visits = some left ∧
    (∀ standIn, rebuild standIn left.visits = left) ∧ left.copy = left := by
  have hdifferent : ∀ {first second : Expr}, first ≠ second → first.same second = false := by
    intro first second hne
    exact Bool.eq_false_iff.mpr fun hsame => hne ((same_iff_eq first second).mp hsame)
  have hrebuild := rebuild_of_ofVisits? (ofVisits?_visits left)
  refine ⟨same_iff_eq left right, ?_, visits_suffix_iff left right, visits_prefix_iff left right,
    ofVisits?_visits left, hrebuild, hrebuild detached⟩
  intro token other
  exact ⟨hdifferent Expr.noConfusion, hdifferent Expr.noConfusion⟩

def firstTerm : Expr :=
  literal ⟨.integer, "1", .ofOffset 0 1⟩

def twoTerms : Expr :=
  binary ⟨.plus, "+", .ofOffset 1 1⟩ firstTerm (literal ⟨.integer, "2", .ofOffset 2 1⟩)

/-- A walk may be the beginning of another one and not the whole of it. -/
theorem visits_prefix_twoTerms : firstTerm.visits <+: twoTerms.visits ∧ firstTerm.visits ≠ twoTerms.visits := by
  constructor
  · rw [visits_prefix_iff]
    exact List.mem_cons_of_mem _ (mem_leftSpine_self firstTerm)
  · rw [visits_eq_postOrder, visits_eq_postOrder]
    exact postOrder_injective.ne Expr.noConfusion

end Abacus.Expr
