import Abacus.Proofs.Program.Parallel
import Abacus.Proofs.Source.Layout

/-!
# Answers and values

A line has an answer exactly when its expression has a value: an expression that can be worked out can also be made into
a program, so asking for the listing never turns an answer into a fault. A line without an answer is answered with the
diagnostic of its fault.
-/

namespace Abacus

namespace Expr

theorem exists_compile_of_evaluate {expr : Expr} {value : Int64} (h : expr.evaluate = .ok value) :
    ∃ program, expr.compile = .ok program := by
  apply exists_eq_ok_of_faultOf
  have hfault : faultOf expr.value = none := by
    rw [← evaluate_eq_value, h]
    rfl
  rw [faultOf_value, List.findSome?_eq_none_iff] at hfault
  rw [faultOf_compile, List.findSome?_eq_none_iff]
  intro node hmem
  exact (Option.or_eq_none_iff.mp (hfault node hmem)).1

end Expr

/-- A line with a value is answered with it, and on request with the listing of its program. -/
theorem runLine_of_interpret {line : String} {evaluation : Evaluation} (h : interpret line = .ok evaluation) :
    ∃ program, evaluation.expr.compile = .ok program ∧ runLine ⟨false⟩ line = .ok evaluation.text ∧
      runLine ⟨true⟩ line = .ok (evaluation.text ++ "\n" ++ program.listing) := by
  obtain ⟨hparse, hevaluate⟩ := Expr.parse_of_interpret h
  obtain ⟨program, hcompile⟩ := Expr.exists_compile_of_evaluate hevaluate
  refine ⟨program, hcompile, ?_, ?_⟩
  · simp [runLine_eq_bind, hparse, hevaluate, Except.bind, Evaluation.report]
  · simp [runLine_eq_bind, hparse, hevaluate, Except.bind, Evaluation.report, hcompile]

theorem exists_runLine_of_interpret {line : String} {evaluation : Evaluation} (options : Options)
    (h : interpret line = .ok evaluation) : ∃ text, runLine options line = .ok text := by
  obtain ⟨program, -, hplain, hstack⟩ := runLine_of_interpret h
  rcases options with ⟨_ | _⟩
  · exact ⟨_, hplain⟩
  · exact ⟨_, hstack⟩

theorem runLine_of_interpret_error {line : String} {fault : Fault} (options : Options)
    (h : interpret line = .error fault) : runLine options line = .error fault := by
  rw [interpret] at h
  rw [runLine_eq_bind]
  cases hparse : Expr.parse (tokenize line) with
  | error other =>
    rw [hparse] at h
    exact congrArg Except.error (Except.error.inj h)
  | ok expr =>
    rw [hparse] at h
    dsimp only [Expr.evaluation] at h
    cases hevaluate : expr.evaluate with
    | error other =>
      rw [hevaluate] at h
      simp only [Except.bind, hevaluate]
      exact congrArg Except.error (Except.error.inj h)
    | ok value => simp [hevaluate] at h

theorem text?_renderLine_of_ok {options : Options} {line text : String} (h : runLine options line = .ok text) :
    (renderLine options line).text? = some text := by
  rw [runLine] at h
  rw [renderLine, h]

theorem text?_renderLine_of_error {options : Options} {line : String} {fault : Fault}
    (h : runLine options line = .error fault) :
    (renderLine options line).text? = Diagnostic.render? fault line := by
  rw [runLine] at h
  rw [renderLine, h]

/-- **A listing is a complete record.** It tells its program up to positions. A line that has a value is answered with
it in both settings, and with the listing the answer goes on after a line feed; every program with this listing comes to
the value in the answer. A line with a fault has the same fault in both settings. -/
theorem listing_eq_iff_and_runLine :
    (∀ left right : Program,
      left.listing = right.listing ↔ List.Forall₂ Instruction.Alike left.instructions right.instructions) ∧
    (∀ line evaluation, interpret line = .ok evaluation →
      ∃ (text : String) (program : Program),
        text = evaluation.expr.render ++ " = " ++ toString evaluation.value.toInt ∧
        runLine ⟨false⟩ line = .ok text ∧ runLine ⟨true⟩ line = .ok (text ++ "\n" ++ program.listing) ∧
        ∀ other : Program, other.listing = program.listing → other.run = .ok evaluation.value) ∧
    ∀ line fault, interpret line = .error fault → ∀ options, runLine options line = .error fault := by
  refine ⟨Program.listing_eq_iff, ?_, fun line fault h options => runLine_of_interpret_error options h⟩
  intro line evaluation h
  obtain ⟨-, hevaluate⟩ := Expr.parse_of_interpret h
  obtain ⟨program, hcompile, hplain, hstack⟩ := runLine_of_interpret h
  have hrun : program.run = .ok evaluation.value := by
    rw [Expr.run_of_compile_eq_ok hcompile, hevaluate]
  refine ⟨evaluation.text, program, rfl, hplain, hstack, ?_⟩
  intro other hlisting
  exact Program.run_eq_ok_of_listing_eq hlisting.symm hrun

/-- The listing of `2*-3` leads back to its value, and a division by zero is a fault with and without a listing. -/
theorem listing_eq_iff_and_runLine_product :
    runLine ⟨true⟩ "2*-3" =
        .ok "\x7b*,\x7b2\x7d,\x7b3,\x7b-\x7d\x7d\x7d = -6\ni64.const 2\ni64.const 3\ni64.neg\ni64.mul" ∧
      (∀ program : Program, program.listing = "i64.const 2\ni64.const 3\ni64.neg\ni64.mul" →
        program.run = .ok (-6)) ∧
      ∀ options, runLine options "1/0" = .error ⟨.divisionByZero, .ofOffset 1⟩ := by
  have hproduct : interpret "2*-3" =
      .ok ⟨.binary ⟨.asterisk, "*", .ofOffset 1 1⟩ (.literal ⟨.integer, "2", .ofOffset 0 1⟩)
        (.chain ⟨.integer, "3", .ofOffset 3 1⟩ [⟨.minus, "-", .ofOffset 2 1⟩]), -6⟩ := by decide +kernel
  have hanswer : runLine ⟨true⟩ "2*-3" =
      .ok ("\x7b*,\x7b2\x7d,\x7b3,\x7b-\x7d\x7d\x7d = -6" ++ "\n" ++
        "i64.const 2\ni64.const 3\ni64.neg\ni64.mul") := by decide +kernel
  have hquotient : interpret "1/0" = .error ⟨.divisionByZero, .ofOffset 1⟩ := by decide +kernel
  obtain ⟨-, hvalues, hfaults⟩ := listing_eq_iff_and_runLine
  obtain ⟨text, program, htext, -, hstack, hrun⟩ := hvalues _ _ hproduct
  have hlisting : program.listing = "i64.const 2\ni64.const 3\ni64.neg\ni64.mul" := by
    have hshown : text = "\x7b*,\x7b2\x7d,\x7b3,\x7b-\x7d\x7d\x7d = -6" := by
      rw [htext]
      decide +kernel
    rw [hstack, hshown] at hanswer
    exact (String.append_right_inj _).mp (Except.ok.inj hanswer)
  refine ⟨hanswer, ?_, hfaults _ _ hquotient⟩
  intro other hother
  exact hrun other (hother.trans hlisting.symm)

end Abacus
