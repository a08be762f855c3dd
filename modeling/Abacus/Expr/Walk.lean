import Abacus.Expr.Basic

/-!
# Walking an expression

A walk visits the nodes of an expression bottom-up, the left operand before the right one and both before
their operator. It keeps the work still to do in a list, so that the depth of the expression does not matter.
`Expr.visits` lists the visits of a walk and `Expr.postOrder` says what that list is. Two expressions are
compared by walking both side by side, and an expression can be rebuilt from its visits.
-/

namespace Abacus

inductive Visit where
  | literal (token : Token)
  | chain (token : Token) (signs : List Token)
  | binary (operator : Token)
  deriving DecidableEq, Inhabited

/-- The visits of an expression: both operands, then their operator. -/
def Expr.postOrder : Expr → List Visit
  | literal token => [.literal token]
  | chain token signs => [.chain token signs]
  | binary operator left right => left.postOrder ++ right.postOrder ++ [.binary operator]

/-- Work that a walk has put off: an expression to enter, or an operator whose operands come first. -/
inductive Walk.Task where
  | enter (expr : Expr)
  | leave (operator : Token)

/-- A walk is the work still to do, the nearest first. -/
abbrev Walk := List Walk.Task

namespace Walk

def ofExpr (expr : Expr) : Walk := [.enter expr]

/-- Goes down the left operands to the first node to visit, putting off what is passed. -/
def descend : Expr → Walk → Visit × Walk
  | .literal token, walk => (.literal token, walk)
  | .chain token signs, walk => (.chain token signs, walk)
  | .binary operator left right, walk => descend left (.enter right :: .leave operator :: walk)

def next? : Walk → Option (Visit × Walk)
  | [] => none
  | .enter expr :: walk => some (descend expr walk)
  | .leave operator :: walk => some (.binary operator, walk)

def Task.visitCount : Task → Nat
  | enter expr => expr.nodeCount
  | leave _ => 1

def visitCount : Walk → Nat
  | [] => 0
  | task :: walk => task.visitCount + visitCount walk

theorem visitCount_descend (expr : Expr) (walk : Walk) :
    visitCount (descend expr walk).2 + 1 = expr.nodeCount + visitCount walk := by
  induction expr generalizing walk with
  | literal token => simp [descend, Expr.nodeCount, Nat.add_comm]
  | chain token signs => simp [descend, Expr.nodeCount, Nat.add_comm]
  | binary operator left right ihleft ihright =>
    simp only [descend, ihleft, visitCount, Task.visitCount, Expr.nodeCount]
    omega

theorem visitCount_next? {walk rest : Walk} {visit : Visit} (h : walk.next? = some (visit, rest)) :
    rest.visitCount + 1 = walk.visitCount := by
  cases walk with
  | nil => simp [next?] at h
  | cons task walk =>
    cases task with
    | enter expr =>
      have hvisits := visitCount_descend expr walk
      simp only [next?, Option.some.injEq] at h
      rw [h] at hvisits
      simpa [visitCount, Task.visitCount] using hvisits
    | leave operator =>
      simp only [next?, Option.some.injEq, Prod.mk.injEq] at h
      simp [visitCount, Task.visitCount, h.2, Nat.add_comm]

/-- Lists the visits of a walk behind those `seen` before, which are held backwards. -/
def collect (walk : Walk) (seen : List Visit) : List Visit :=
  match _h : walk.next? with
  | none => seen.reverse
  | some (visit, rest) => collect rest (visit :: seen)
termination_by walk.visitCount
decreasing_by
  have := visitCount_next? _h
  omega

def visits : Walk → List Visit
  | [] => []
  | .enter expr :: walk => expr.postOrder ++ visits walk
  | .leave operator :: walk => .binary operator :: visits walk

theorem visits_descend (expr : Expr) (walk : Walk) :
    (descend expr walk).1 :: visits (descend expr walk).2 = expr.postOrder ++ visits walk := by
  induction expr generalizing walk with
  | literal token => rfl
  | chain token signs => rfl
  | binary operator left right ihleft ihright =>
    rw [descend, ihleft]
    simp [visits, Expr.postOrder]

theorem visits_next? {walk rest : Walk} {visit : Visit} (h : walk.next? = some (visit, rest)) :
    walk.visits = visit :: rest.visits := by
  cases walk with
  | nil => simp [next?] at h
  | cons task walk =>
    cases task with
    | enter expr =>
      have hvisits := visits_descend expr walk
      simp only [next?, Option.some.injEq] at h
      rw [h] at hvisits
      exact hvisits.symm
    | leave operator =>
      simp only [next?, Option.some.injEq, Prod.mk.injEq] at h
      simp [visits, h.1, h.2]

theorem eq_nil_of_next?_eq_none {walk : Walk} (h : walk.next? = none) : walk = [] := by
  cases walk with
  | nil => rfl
  | cons task walk => cases task <;> simp [next?] at h

theorem collect_eq (walk : Walk) (seen : List Visit) :
    walk.collect seen = seen.reverse ++ walk.visits := by
  fun_induction collect walk seen with
  | case1 walk seen hnext =>
    rw [eq_nil_of_next?_eq_none hnext]
    simp [visits]
  | case2 walk seen visit rest hnext ih =>
    rw [ih, visits_next? hnext]
    simp

def agree (left right : Walk) : Bool :=
  match _hl : left.next?, right.next? with
  | none, none => true
  | some (leftVisit, leftRest), some (rightVisit, rightRest) =>
    if leftVisit = rightVisit then agree leftRest rightRest else false
  | _, _ => false
termination_by left.visitCount
decreasing_by
  have := visitCount_next? _hl
  omega

end Walk

namespace Expr

def visits (expr : Expr) : List Visit :=
  (Walk.ofExpr expr).collect []

theorem visits_eq_postOrder (expr : Expr) : expr.visits = expr.postOrder := by
  simp [visits, Walk.collect_eq, Walk.visits, Walk.ofExpr]

/-- Whether two expressions are the same node for node, with the same tokens. -/
def same (left right : Expr) : Bool :=
  Walk.agree (.ofExpr left) (.ofExpr right)

/-- Puts a visited node on the expressions built so far; an operator takes the two built last. -/
def build (built : List Expr) : Visit → Option (List Expr)
  | .literal token => some (literal token :: built)
  | .chain token signs => some (chain token signs :: built)
  | .binary operator =>
    match built with
    | right :: left :: built => some (binary operator left right :: built)
    | _ => none

/-- The expressions built from a list of visits on top of those built before. -/
def buildAll : List Visit → List Expr → Option (List Expr)
  | [], built => some built
  | visit :: visits, built =>
    match build built visit with
    | some built => buildAll visits built
    | none => none

/-- The expression that a list of visits describes: the one built last, if no operator lacks an operand. -/
def ofVisits? (visits : List Visit) : Option Expr :=
  match buildAll visits [] with
  | some (expr :: _) => some expr
  | _ => none

/-- The leaf that takes the place of an expression that is lacking. -/
def detached : Expr :=
  literal (.endOfInput .start)

/-- Puts a visited node on the expressions built so far, where `standIn` takes the place of a lacking operand. -/
def buildWith (standIn : Expr) (built : List Expr) : Visit → List Expr
  | .literal token => literal token :: built
  | .chain token signs => chain token signs :: built
  | .binary operator =>
    binary operator (built.tail.headD standIn) (built.headD standIn) :: built.drop 2

/-- The expression built last from a list of visits. -/
def rebuild (standIn : Expr) (visits : List Visit) : Expr :=
  (visits.foldl (buildWith standIn) []).headD standIn

/-- A copy of an expression, built from its visits. -/
def copy (expr : Expr) : Expr :=
  rebuild detached expr.visits

end Expr

end Abacus
