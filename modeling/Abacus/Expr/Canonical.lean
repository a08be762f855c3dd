import Abacus.Expr.Basic

/-!
# The canonical form

An expression is written in brackets with its head first: `{1}`, `{+,{1},{2}}`, and `{1,{-,{+}}}` for an
integer behind the signs `-+`, where each sign is inside the one before it. `Expr.bracketed` is the form and
`Expr.render` writes it.
-/

namespace Abacus.Expr

/-- The signs of a chain, each one inside the one before it. -/
def bracketedSigns : List Token → String
  | [] => ""
  | sign :: signs => ",\x7b" ++ sign.literal ++ bracketedSigns signs ++ "\x7d"

def bracketed : Expr → String
  | literal token => "\x7b" ++ token.literal ++ "\x7d"
  | chain token signs => "\x7b" ++ token.literal ++ bracketedSigns signs ++ "\x7d"
  | binary operator left right =>
    "\x7b" ++ operator.literal ++ "," ++ left.bracketed ++ "," ++ right.bracketed ++ "\x7d"

/-- Work that a writer has put off: an expression to write, or a character. -/
inductive Piece where
  | expr (expr : Expr)
  | char (c : Char)

def closing (count : Nat) : String :=
  String.ofList (List.replicate count '}')

theorem closing_succ (count : Nat) : closing (count + 1) = closing count ++ "\x7d" := by
  rw [closing, List.replicate_succ', String.ofList_append]
  rfl

/-- Writes an integer behind signs: all brackets are opened in turn and closed together. -/
def writeChain (token : Token) (signs : List Token) (written : String) : String :=
  let opened := signs.foldl (fun written sign => written ++ ",\x7b" ++ sign.literal)
    (written ++ "\x7b" ++ token.literal)
  opened ++ closing (signs.length + 1)

theorem foldl_append_closing (signs : List Token) (written : String) :
    signs.foldl (fun written sign => written ++ ",\x7b" ++ sign.literal) written
        ++ closing (signs.length + 1) =
      written ++ bracketedSigns signs ++ "\x7d" := by
  induction signs generalizing written with
  | nil => simp [bracketedSigns, closing]
  | cons sign signs ih =>
    rw [List.foldl_cons, List.length_cons, closing_succ, ← String.append_assoc, ih]
    simp [bracketedSigns, String.append_assoc]

theorem writeChain_eq (token : Token) (signs : List Token) (written : String) :
    writeChain token signs written = written ++ (chain token signs).bracketed := by
  rw [writeChain, foldl_append_closing]
  simp [bracketed, String.append_assoc]

def pieceCount : Expr → Nat
  | literal _ => 1
  | chain _ _ => 1
  | binary _ left right => left.pieceCount + right.pieceCount + 3

def Piece.count : List Piece → Nat
  | [] => 0
  | expr e :: pieces => e.pieceCount + count pieces
  | char _ :: pieces => 1 + count pieces

/-- Writes pieces behind what has been `written`. -/
def write (pieces : List Piece) (written : String) : String :=
  match pieces with
  | [] => written
  | .char c :: pieces => write pieces (written.push c)
  | .expr (literal token) :: pieces => write pieces (written ++ "\x7b" ++ token.literal ++ "\x7d")
  | .expr (chain token signs) :: pieces => write pieces (writeChain token signs written)
  | .expr (binary operator left right) :: pieces =>
    write (.expr left :: .char ',' :: .expr right :: .char '}' :: pieces)
      (written ++ "\x7b" ++ operator.literal ++ ",")
termination_by Piece.count pieces
decreasing_by all_goals simp only [Piece.count, pieceCount]; omega

def Piece.text : List Piece → String
  | [] => ""
  | expr e :: pieces => e.bracketed ++ text pieces
  | char c :: pieces => String.singleton c ++ text pieces

theorem write_eq (pieces : List Piece) (written : String) :
    write pieces written = written ++ Piece.text pieces := by
  fun_induction write pieces written with
  | case1 written => simp [Piece.text]
  | case2 written c pieces ih => rw [ih, Piece.text, String.push_eq_append, String.append_assoc]
  | case3 written token pieces ih =>
    rw [ih]
    simp [Piece.text, bracketed, String.append_assoc]
  | case4 written token signs pieces ih => rw [ih, writeChain_eq, Piece.text, String.append_assoc]
  | case5 written operator left right pieces ih =>
    have hcomma : String.singleton ',' = "," := rfl
    have hclose : String.singleton '}' = "\x7d" := rfl
    rw [ih]
    simp [Piece.text, bracketed, hcomma, hclose, String.append_assoc]

def render (expr : Expr) : String :=
  write [.expr expr] ""

theorem render_eq_bracketed (expr : Expr) : expr.render = expr.bracketed := by
  simp [render, write_eq, Piece.text]

end Abacus.Expr
