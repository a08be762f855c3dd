import Abacus.Command
import Abacus.Proofs.Session.Answer
import Abacus.Proofs.Session.Script
import Abacus.Proofs.Text.Encoded

/-!
# The command and the session

A command with a line answers it by itself, and a session answers it as one of its lines, without its line end and
unless it is blank. Both look for the answer in the same place, so on a line that a session does not change they write
the same text; the command alone tells by its exit, and by where it writes, whether that text is an answer or a
diagnostic. Of the words that ask for listings only their presence counts.
-/

namespace Abacus

namespace Session

/-- A line that a session answers as it stands: it is one line, has no end to be taken off, and is not blank. -/
structure Keeps (line : String) : Prop where
  feed_notMem : '\n' ∉ line.toList
  getLast?_ne_return : line.toList.getLast? ≠ some '\r'
  isBlankText_eq_false : Text.isBlankText line.toList = false

section Line

variable {options : Options} {line feed : String}

theorem Keeps.ne_empty (h : Keeps line) : line ≠ "" := by
  rintro rfl
  exact absurd h.isBlankText_eq_false (by decide)

theorem Keeps.isLineEnd_getLast (h : Keeps line) : ∀ c ∈ line.toList.getLast?, Text.isLineEnd c = false := by
  intro c hlast
  have hfeed : c ≠ '\n' := by
    rintro rfl
    exact h.feed_notMem (List.mem_of_getLast? hlast)
  have hreturn : c ≠ '\r' := by
    rintro rfl
    exact h.getLast?_ne_return hlast
  simp [Text.isLineEnd, hfeed, hreturn]

theorem Keeps.dropLineEnd_append (h : Keeps line) (hfeed : feed = "" ∨ feed = "\n") :
    Text.dropLineEnd (line ++ feed).toList = line.toList := by
  have hcut : ∀ c ∈ feed.toList, Text.isLineEnd c = true := by
    rcases hfeed with rfl | rfl <;> simp [Text.isLineEnd]
  rw [String.toList_append, Text.dropLineEnd, Text.dropTrailing_append hcut]
  apply List.rdropWhile_eq_self_iff.mpr
  intro hne
  rw [h.isLineEnd_getLast _ (List.getLast?_eq_some_getLast hne)]
  exact Bool.false_ne_true

/-- The bytes of such a line are one line of input, with and without a line feed behind them. -/
theorem Keeps.segments_bytes (h : Keeps line) (hfeed : feed = "" ∨ feed = "\n") :
    Text.segments (· == 10) (Text.bytes (line ++ feed)) = [Text.bytes (line ++ feed)] := by
  have hbody : ∀ byte ∈ Text.bytes line, (byte == 10) = false := by
    intro byte hmem
    apply beq_false_of_ne
    rintro rfl
    exact Text.feed_notMem_bytes h.feed_notMem hmem
  rcases hfeed with rfl | rfl
  · rw [String.append_empty]
    exact Text.segments_singleton hbody (Text.bytes_ne_nil h.ne_empty)
  · rw [Text.bytes_append, Text.bytes_feed]
    exact Text.segments_cons hbody rfl []

/-- A session on such a line writes its answer between two prompts. -/
theorem Keeps.run_eq (h : Keeps line) {answer : String} (hfeed : feed = "" ∨ feed = "\n")
    (hanswer : (renderLine options line).text? = some answer) :
    (run options (Text.bytes (line ++ feed)) (.empty none)).output =
        (prompt ++ (answer ++ "\n") ++ prompt).toUTF8 ∧
      (run options (Text.bytes (line ++ feed)) (.empty none)).ending = .finished := by
  have hdrop := h.dropLineEnd_append hfeed
  have hblank : Text.isBlankText (line ++ feed).toList = false := by
    rw [← Text.isBlankText_dropLineEnd, hdrop, h.isBlankText_eq_false]
  have hkept : String.ofList (Text.dropLineEnd (line ++ feed).toList) = line := by
    rw [hdrop, String.ofList_toList]
  obtain ⟨hwritten, hgoes⟩ :=
    reply_of_text? (Text.fromUTF8?_bytes (line ++ feed)) hblank (by rw [hkept, hanswer])
  obtain ⟨houtput, hending⟩ := run_eq_script options (Text.bytes (line ++ feed))
  rw [h.segments_bytes hfeed, script_cons_of_none hgoes, hwritten] at houtput hending
  rw [houtput, hending]
  simp [Script.after, Script.text, script, ByteArray.append_assoc]

end Line

end Session

namespace Command

/-- The words that make up the line of a command, joined by spaces. -/
def sourceOf (words : List String) : String :=
  " ".intercalate (words.filter (· != stackWord))

section Words

variable {words : List String}

theorem request_of_line (h : ∃ word ∈ words, word ≠ stackWord) :
    request words = .line ⟨words.contains stackWord⟩ (sourceOf words) := by
  have hne : words.filter (· != stackWord) ≠ [] := by
    intro hnil
    obtain ⟨word, hmem, hword⟩ := h
    exact List.filter_eq_nil_iff.mp hnil word hmem (by simpa using hword)
  rw [request, sourceOf]
  split
  · contradiction
  · rfl

theorem run_of_line (h : ∃ word ∈ words, word ≠ stackWord) (user? : Option String) (input : List UInt8) :
    run words user? input = answer ⟨words.contains stackWord⟩ (sourceOf words) := by
  rw [run, request_of_line h]

end Words

section Answer

variable {options : Options} {source text : String}

theorem answer_of_ok (h : runLine options source = .ok text) :
    answer options source = ⟨(text ++ "\n").toUTF8, "", .success⟩ := by
  rw [answer, h]

theorem answer_of_error {fault : Fault} (h : runLine options source = .error fault)
    (htext : Diagnostic.render? fault source = some text) :
    answer options source = ⟨.empty, text ++ "\n", .failure⟩ := by
  simp only [answer, h, htext]

end Answer

/-- **A command answers a line as a session does.** What a command with a line comes to depends on the words of the line
and on whether there is a word that asks for listings, not on how often or where. If a session answers the line as it
stands and the answer can be shown, the command writes what a session with the same options writes between its two
prompts: as output, with the exit code 0, if the line has a value, and as errors, with the exit code 1, if not. -/
theorem run_line_eq_session :
    (∀ (words others : List String) (user? other? : Option String) (input more : List UInt8),
      (∃ word ∈ words, word ≠ stackWord) → others.filter (· != stackWord) = words.filter (· != stackWord) →
        (stackWord ∈ others ↔ stackWord ∈ words) → run others other? more = run words user? input) ∧
    ∀ (words : List String) (user? : Option String) (input : List UInt8) (options : Options) (feed : String),
      (∃ word ∈ words, word ≠ stackWord) → (options.showStack = true ↔ stackWord ∈ words) →
        Session.Keeps (sourceOf words) → (feed = "" ∨ feed = "\n") →
          (renderLine options (sourceOf words)).text?.isSome = true →
            ∃ printed : String,
              (Session.run options (Text.bytes (sourceOf words ++ feed)) (.empty none)).output =
                  (Session.prompt ++ printed ++ Session.prompt).toUTF8 ∧
                (Session.run options (Text.bytes (sourceOf words ++ feed)) (.empty none)).ending = .finished ∧
                (∀ evaluation, interpret (sourceOf words) = .ok evaluation →
                  (run words user? input).output = printed.toUTF8 ∧ (run words user? input).errors = "" ∧
                    (run words user? input).exit.code = 0) ∧
                ∀ fault, interpret (sourceOf words) = .error fault →
                  (run words user? input).output = .empty ∧ (run words user? input).errors = printed ∧
                    (run words user? input).exit.code = 1 := by
  constructor
  · intro words others user? other? input more hline hwords hstack
    have hcontains : others.contains stackWord = words.contains stackWord := by
      rw [Bool.eq_iff_iff, List.contains_iff_mem, List.contains_iff_mem, hstack]
    have hother : ∃ word ∈ others, word ≠ stackWord := by
      obtain ⟨word, hmem, hword⟩ := hline
      have hkept : word ∈ others.filter (· != stackWord) := by
        rw [hwords]
        exact List.mem_filter.mpr ⟨hmem, by simpa using hword⟩
      exact ⟨word, (List.mem_filter.mp hkept).1, hword⟩
    rw [run_of_line hother, run_of_line hline, hcontains, sourceOf, hwords, sourceOf]
  · intro words user? input options feed hline hstack hkeeps hfeed hshown
    have hoptions : options = ⟨words.contains stackWord⟩ := by
      rw [Options.mk.injEq, Bool.eq_iff_iff, List.contains_iff_mem, hstack]
    obtain ⟨text, htext⟩ := Option.isSome_iff_exists.mp hshown
    obtain ⟨houtput, hending⟩ := hkeeps.run_eq hfeed htext
    refine ⟨text ++ "\n", houtput, hending, ?_, ?_⟩
    · intro evaluation hinterpret
      obtain ⟨answer, hanswer⟩ := exists_runLine_of_interpret options hinterpret
      rw [text?_renderLine_of_ok hanswer] at htext
      obtain rfl := Option.some.inj htext
      rw [run_of_line hline, ← hoptions, answer_of_ok hanswer]
      exact ⟨rfl, rfl, rfl⟩
    · intro fault hinterpret
      have hfault := runLine_of_interpret_error options hinterpret
      rw [text?_renderLine_of_error hfault] at htext
      rw [run_of_line hline, ← hoptions, answer_of_error hfault htext]
      exact ⟨rfl, rfl, rfl⟩

/-- The words of a quotient by zero, with the word for listings before, between and behind them. -/
theorem run_line_eq_session_of_quotient :
    run ["--stack", "1/", "--stack", "0"] none [] = run ["1/", "0", "--stack"] (some "ada") [49] ∧
      ∃ printed : String,
        (Session.run ⟨true⟩ (Text.bytes ("1/ 0" ++ "\n")) (.empty none)).output =
            (Session.prompt ++ printed ++ Session.prompt).toUTF8 ∧
          (run ["1/", "0", "--stack"] none []).output = .empty ∧
          (run ["1/", "0", "--stack"] none []).errors = printed ∧
          (run ["1/", "0", "--stack"] none []).exit.code = 1 := by
  have hsource : sourceOf ["1/", "0", "--stack"] = "1/ 0" := by decide
  have hline : ∃ word ∈ ["1/", "0", "--stack"], word ≠ stackWord := ⟨"1/", by simp, by decide⟩
  have hkeeps : Session.Keeps (sourceOf ["1/", "0", "--stack"]) := by
    rw [hsource]
    exact ⟨by decide, by decide, by decide⟩
  have hinterpret : interpret (sourceOf ["1/", "0", "--stack"]) = .error ⟨.divisionByZero, .ofOffset 1⟩ := by
    rw [hsource]
    decide +kernel
  have hshown : (renderLine ⟨true⟩ (sourceOf ["1/", "0", "--stack"])).text?.isSome = true := by
    rw [text?_renderLine_of_error (runLine_of_interpret_error ⟨true⟩ hinterpret), hsource]
    decide
  constructor
  · exact run_line_eq_session.1 _ _ _ _ _ _ hline (by decide) (by decide)
  · obtain ⟨printed, houtput, -, -, hfault⟩ :=
      run_line_eq_session.2 ["1/", "0", "--stack"] none [] ⟨true⟩ "\n" hline (by decide) hkeeps (Or.inr rfl) hshown
    rw [hsource] at houtput
    exact ⟨printed, houtput, hfault _ hinterpret⟩

end Command

end Abacus
