import Abacus.Proofs.Text.Lines
import Abacus.Session.Basic

/-!
# The script of a session

What a session writes and how it ends is settled by its lines alone, one line after the other. Its script lists the
texts that it writes in order. A sink that always has room takes them all; any other sink takes them up to the byte
where its room ends, and the session ends with it. A line leaves nothing behind for the next one, so the script of two
inputs, the first of which ends with a line, is the script of the first without the last prompt and then that of the
second.
-/

namespace Abacus

namespace Sink

theorem write_of_unlimited (written : ByteArray) (text : String) :
    write ⟨written, none⟩ text = (true, ⟨written ++ text.toUTF8, none⟩) := rfl

theorem write_of_fits {room : Nat} {text : String} (h : text.toUTF8.size ≤ room) (written : ByteArray) :
    write ⟨written, some room⟩ text = (true, ⟨written ++ text.toUTF8, some (room - text.toUTF8.size)⟩) :=
  if_pos h

theorem write_of_overflows {room : Nat} {text : String} (h : room < text.toUTF8.size) (written : ByteArray) :
    write ⟨written, some room⟩ text = (false, ⟨written ++ text.toUTF8.extract 0 room, some 0⟩) :=
  if_neg (Nat.not_le.mpr h)

/-- Writes a second text behind a first one, unless the sink was full before. -/
def thenWrite (result : Bool × Sink) (text : String) : Bool × Sink :=
  match result with
  | (true, sink) => sink.write text
  | (false, sink) => (false, sink)

theorem extract_append_of_size_le {first second : ByteArray} {room : Nat} (h : first.size ≤ room) :
    (first ++ second).extract 0 room = first ++ second.extract 0 (room - first.size) := by
  have hfirst : first.extract 0 room = first := by
    rw [← Nat.max_eq_left h, ByteArray.extract_zero_max_size]
  rw [ByteArray.extract_append, hfirst, Nat.zero_sub]

theorem extract_append_of_lt_size {first second : ByteArray} {room : Nat} (h : room < first.size) :
    (first ++ second).extract 0 room = first.extract 0 room := by
  rw [ByteArray.extract_append, Nat.zero_sub, Nat.sub_eq_zero_of_le (Nat.le_of_lt h), ByteArray.extract_same,
    ByteArray.append_empty]

/-- Two texts one after the other leave a sink as the joined text does, wherever the room ends. -/
theorem write_append (sink : Sink) (first second : String) :
    sink.write (first ++ second) = thenWrite (sink.write first) second := by
  have hbytes : (first ++ second).toUTF8 = first.toUTF8 ++ second.toUTF8 := by simp
  have hsize : (first ++ second).toUTF8.size = first.toUTF8.size + second.toUTF8.size := by
    rw [hbytes, ByteArray.size_append]
  rcases sink with ⟨written, _ | room⟩
  · rw [write_of_unlimited, write_of_unlimited, thenWrite, write_of_unlimited, hbytes, ByteArray.append_assoc]
  · by_cases hfirst : first.toUTF8.size ≤ room
    · rw [write_of_fits hfirst, thenWrite]
      by_cases hsecond : second.toUTF8.size ≤ room - first.toUTF8.size
      · rw [write_of_fits hsecond, write_of_fits (by omega), hbytes, ByteArray.append_assoc, ByteArray.size_append,
          Nat.sub_sub]
      · rw [write_of_overflows (by omega), write_of_overflows (by omega), hbytes, ByteArray.append_assoc,
          extract_append_of_size_le hfirst]
    · rw [write_of_overflows (by omega), write_of_overflows (by omega), thenWrite, hbytes,
        extract_append_of_lt_size (by omega)]

end Sink

namespace Session

structure Script where
  texts : List String
  ending : Ending

namespace Script

/-- The script that goes on after some texts. -/
def after (texts : List String) (script : Script) : Script :=
  ⟨texts ++ script.texts, script.ending⟩

theorem after_after (texts more : List String) (script : Script) :
    after texts (after more script) = after (texts ++ more) script := by
  simp [after]

def text (script : Script) : String :=
  String.join script.texts

theorem text_after (texts : List String) (script : Script) :
    (after texts script).text = String.join texts ++ script.text :=
  String.join_append

end Script

def script (options : Options) : List (List UInt8) → Script
  | [] => ⟨[prompt], .finished⟩
  | line :: lines =>
    let reply := reply options line
    match reply.ending? with
    | some ending => ⟨[prompt, reply.output], ending⟩
    | none => .after [prompt, reply.output] (script options lines)

section Script

variable {options : Options} {line : List UInt8}

theorem script_cons_of_none (h : (reply options line).ending? = none) (lines : List (List UInt8)) :
    script options (line :: lines) = .after [prompt, (reply options line).output] (script options lines) := by
  simp only [script, h]

theorem script_cons_of_some {ending : Ending} (h : (reply options line).ending? = some ending)
    (lines : List (List UInt8)) :
    script options (line :: lines) = ⟨[prompt, (reply options line).output], ending⟩ := by
  simp only [script, h]

/-- A line that ends a session is no text, or its answer cannot be shown. -/
theorem ending_of_some {ending : Ending} (h : (reply options line).ending? = some ending) :
    ending = .invalidText ∨ ending = .unshowable := by
  unfold reply at h
  split at h
  · exact Or.inl (Option.some.inj h).symm
  · dsimp only at h
    split at h
    · exact absurd h (Option.some_ne_none ending).symm
    · split at h
      · exact absurd h (Option.some_ne_none ending).symm
      · exact Or.inr (Option.some.inj h).symm

end Script

/-- A round leaves any sink as its prompt and its text together do, and ends early only if the sink is full. -/
theorem round_eq_write (options : Options) (sink : Sink) (records : List Record) (line? : Option (List UInt8)) :
    (round options sink records line?).sink = (sink.write (prompt ++ (respond options line?).output)).2 ∧
      (round options sink records line?).ending? =
        if (sink.write (prompt ++ (respond options line?).output)).1 then (respond options line?).ending?
        else some .sinkFull := by
  rw [Sink.write_append, round]
  rcases sink.write prompt with ⟨_ | _, next⟩
  · exact ⟨rfl, rfl⟩
  · rw [Sink.thenWrite]
    dsimp only
    rcases next.write (respond options line?).output with ⟨_ | _, last⟩ <;> exact ⟨rfl, rfl⟩

/-- A session leaves any sink as the text of its script does, and ends early only if the sink is full. -/
theorem converse_eq_write (options : Options) (lines : List (List UInt8)) (sink : Sink) (records : List Record) :
    (converse options sink records lines).output = (sink.write (script options lines).text).2.written ∧
      (converse options sink records lines).ending =
        if (sink.write (script options lines).text).1 then (script options lines).ending else .sinkFull := by
  induction lines generalizing sink records with
  | nil =>
    obtain ⟨hsink, hending⟩ := round_eq_write options sink records none
    have htext : prompt ++ (respond options none).output = (script options []).text := by
      simp [respond, Reply.output, script, Script.text]
    rw [htext] at hsink hending
    rw [converse, hsink, hending]
    split <;> exact ⟨rfl, rfl⟩
  | cons line lines ih =>
    obtain ⟨hsink, hending⟩ := round_eq_write options sink records (some line)
    rw [show respond options (some line) = reply options line from rfl] at hsink hending
    rw [converse]
    cases hreply : (reply options line).ending? with
    | some ending =>
      have htext : (script options (line :: lines)).text = prompt ++ (reply options line).output := by
        simp [script_cons_of_some hreply, Script.text]
      rw [hreply] at hending
      rw [htext, script_cons_of_some hreply]
      rcases hwritten : sink.write (prompt ++ (reply options line).output) with ⟨_ | _, next⟩
      all_goals
        rw [hwritten] at hsink hending
        simp only [hsink, hending]
        exact ⟨rfl, rfl⟩
    | none =>
      have htext : (script options (line :: lines)).text =
          prompt ++ (reply options line).output ++ (script options lines).text := by
        simp [script_cons_of_none hreply, Script.text_after]
      rw [hreply] at hending
      rw [htext, script_cons_of_none hreply, Sink.write_append sink (prompt ++ (reply options line).output)]
      rcases hwritten : sink.write (prompt ++ (reply options line).output) with ⟨_ | _, next⟩
      · rw [hwritten] at hsink hending
        simp only [hsink, hending]
        exact ⟨rfl, rfl⟩
      · rw [hwritten] at hsink hending
        simp only [hsink, hending]
        exact ih next _

theorem run_eq_script (options : Options) (input : List UInt8) :
    (run options input (.empty none)).output =
        (script options (Text.segments (· == 10) input)).text.toUTF8 ∧
      (run options input (.empty none)).ending = (script options (Text.segments (· == 10) input)).ending := by
  have hconverse := converse_eq_write options (Text.segments (· == 10) input) (.empty none) []
  rwa [Sink.empty, Sink.write_of_unlimited, ByteArray.empty_append] at hconverse

/-- A session that comes to the end of its lines goes on with more of them in place of its last prompt. -/
theorem exists_script_append {options : Options} {lines : List (List UInt8)}
    (h : (script options lines).ending = .finished) :
    ∃ front, (script options lines).texts = front ++ [prompt] ∧
      ∀ more, script options (lines ++ more) = .after front (script options more) := by
  induction lines with
  | nil => exact ⟨[], rfl, fun _ => rfl⟩
  | cons line lines ih =>
    cases hreply : (reply options line).ending? with
    | none =>
      rw [script_cons_of_none hreply] at h ⊢
      obtain ⟨front, hfront, hmore⟩ := ih h
      refine ⟨[prompt, (reply options line).output] ++ front, ?_, ?_⟩
      · rw [Script.after, hfront, List.append_assoc]
      · intro more
        rw [List.cons_append, script_cons_of_none hreply, hmore, Script.after_after]
    | some ending =>
      rw [script_cons_of_some hreply] at h
      rcases ending_of_some hreply with rfl | rfl <;> exact Ending.noConfusion h

section Line

variable {options : Options} {line : List UInt8} {text : String}

theorem reply_of_blank (htext : String.fromUTF8? line.toByteArray = some text)
    (hblank : Text.isBlankText text.toList = true) :
    (reply options line).output = "" ∧ (reply options line).ending? = none := by
  rw [← Text.isBlankText_dropLineEnd] at hblank
  simp [reply, htext, hblank, Reply.output, Reply.ending?]

theorem reply_of_text? {answer : String} (htext : String.fromUTF8? line.toByteArray = some text)
    (hblank : Text.isBlankText text.toList = false)
    (hanswer : (renderLine options (String.ofList (Text.dropLineEnd text.toList))).text? = some answer) :
    (reply options line).output = answer ++ "\n" ∧ (reply options line).ending? = none := by
  rw [← Text.isBlankText_dropLineEnd] at hblank
  simp [reply, htext, hblank, hanswer, Reply.output, Reply.ending?]

end Line

/-- **Sessions compose.** A session on an input that ends with a line, if it comes to its end, and a session on more
input make up the session on both: only the prompt between them is written once. A session on one line prompts,
answers the line unless it is blank, and prompts again. -/
theorem run_append_and_line (options : Options) :
    (∀ first second : List UInt8, (first = [] ∨ first.getLast? = some 10) →
      (run options first (.empty none)).ending = .finished →
        ∃ body, (run options first (.empty none)).output = body ++ prompt.toUTF8 ∧
          (run options (first ++ second) (.empty none)).output =
            body ++ (run options second (.empty none)).output ∧
          (run options (first ++ second) (.empty none)).ending = (run options second (.empty none)).ending) ∧
      ∀ (line : List UInt8) (text : String), line ≠ [] → (∀ byte ∈ line.dropLast, byte ≠ 10) →
        String.fromUTF8? line.toByteArray = some text →
          (Text.isBlankText text.toList = true →
            (run options line (.empty none)).output = (prompt ++ prompt).toUTF8 ∧
              (run options line (.empty none)).ending = .finished) ∧
          ∀ answer, Text.isBlankText text.toList = false →
            (renderLine options (String.ofList (Text.dropLineEnd text.toList))).text? = some answer →
              (run options line (.empty none)).output = (prompt ++ answer ++ "\n" ++ prompt).toUTF8 ∧
                (run options line (.empty none)).ending = .finished := by
  constructor
  · intro first second hfirst hfinished
    have hends : ∀ last ∈ first.getLast?, (last == 10) = true := by
      intro last hlast
      rcases hfirst with rfl | hten
      · simp at hlast
      · rw [hten] at hlast
        simp [Option.mem_some.mp hlast]
    rw [(run_eq_script options first).2] at hfinished
    obtain ⟨front, hfront, hmore⟩ := exists_script_append hfinished
    have hboth := hmore (Text.segments (· == 10) second)
    rw [← Text.segments_append hends] at hboth
    refine ⟨(String.join front).toUTF8, ?_, ?_, ?_⟩
    · rw [(run_eq_script options first).1, Script.text, hfront, String.join_append]
      simp
    · rw [(run_eq_script options (first ++ second)).1, (run_eq_script options second).1, hboth, Script.text_after]
      simp
    · rw [(run_eq_script options (first ++ second)).2, (run_eq_script options second).2, hboth]
      rfl
  · intro line text hne hline htext
    have hsegments : Text.segments (· == 10) line = [line] := by
      apply Text.segments_line hne
      intro byte hmem
      simpa using hline byte hmem
    obtain ⟨houtput, hending⟩ := run_eq_script options line
    rw [hsegments] at houtput hending
    rw [houtput, hending]
    constructor
    · intro hblank
      obtain ⟨hsilent, hgoes⟩ := reply_of_blank htext hblank
      rw [script_cons_of_none hgoes, hsilent]
      simp [Script.after, Script.text, script]
    · intro answer hblank hanswer
      obtain ⟨hwritten, hgoes⟩ := reply_of_text? htext hblank hanswer
      rw [script_cons_of_none hgoes, hwritten]
      simp [Script.after, Script.text, script, ByteArray.append_assoc]

/-- A session on the line `1` and one on a byte that is no text, one after the other. -/
theorem run_append_invalid :
    (run ⟨false⟩ [49, 10] (.empty none)).output = (prompt ++ "{1} = 1" ++ "\n" ++ prompt).toUTF8 ∧
      ∃ body, (run ⟨false⟩ [49, 10] (.empty none)).output = body ++ prompt.toUTF8 ∧
        (run ⟨false⟩ ([49, 10] ++ [255]) (.empty none)).output = body ++ prompt.toUTF8 ∧
        (run ⟨false⟩ ([49, 10] ++ [255]) (.empty none)).ending = .invalidText := by
  have htext : String.fromUTF8? [49, 10].toByteArray = some "1\n" := by decide
  have hblank : Text.isBlankText "1\n".toList = false := by decide
  have hanswer : (renderLine ⟨false⟩ (String.ofList (Text.dropLineEnd "1\n".toList))).text? = some "{1} = 1" := by
    decide +kernel
  have hinvalid : (run ⟨false⟩ [255] (.empty none)).output = prompt.toUTF8 ∧
      (run ⟨false⟩ [255] (.empty none)).ending = .invalidText := by
    constructor <;> decide
  obtain ⟨hcompose, hline⟩ := run_append_and_line ⟨false⟩
  obtain ⟨houtput, hending⟩ := (hline [49, 10] "1\n" (by simp) (by simp) htext).2 _ hblank hanswer
  obtain ⟨body, hfirst, hboth, hsame⟩ := hcompose [49, 10] [255] (Or.inr rfl) hending
  rw [hinvalid.1] at hboth
  rw [hinvalid.2] at hsame
  exact ⟨houtput, body, hfirst, hboth, hsame⟩

theorem ending_script_ne_sinkFull (options : Options) (lines : List (List UInt8)) :
    (script options lines).ending ≠ .sinkFull := by
  induction lines with
  | nil => exact Ending.noConfusion
  | cons line lines ih =>
    cases hreply : (reply options line).ending? with
    | none =>
      rw [script_cons_of_none hreply]
      exact ih
    | some ending =>
      rw [script_cons_of_some hreply]
      rcases ending_of_some hreply with rfl | rfl <;> exact Ending.noConfusion

/-- **A full sink cuts a session.** With room for everything a session never ends because of its sink. With room for
all it writes there, it writes the same and ends the same; with less room it writes as many bytes as there is room for,
which are the first ones of those, and ends because the sink is full. -/
theorem run_with_room (options : Options) (input : List UInt8) (room : Nat) :
    (run options input (.empty none)).ending ≠ .sinkFull ∧
      ((run options input (.empty none)).output.size ≤ room →
        (run options input (.empty (some room))).output = (run options input (.empty none)).output ∧
          (run options input (.empty (some room))).ending = (run options input (.empty none)).ending) ∧
      (room < (run options input (.empty none)).output.size →
        (run options input (.empty (some room))).output = (run options input (.empty none)).output.extract 0 room ∧
          (run options input (.empty (some room))).ending = .sinkFull) := by
  obtain ⟨houtput, hending⟩ := run_eq_script options input
  obtain ⟨hcut, hcutEnding⟩ := converse_eq_write options (Text.segments (· == 10) input) (.empty (some room)) []
  rw [houtput, hending]
  refine ⟨ending_script_ne_sinkFull options _, ?_, ?_⟩
  · intro hfits
    have hwrite := Sink.write_of_fits hfits .empty
    rw [Sink.empty, hwrite, ByteArray.empty_append] at hcut
    rw [Sink.empty, hwrite] at hcutEnding
    exact ⟨hcut, hcutEnding⟩
  · intro hoverflows
    have hwrite := Sink.write_of_overflows hoverflows .empty
    rw [Sink.empty, hwrite, ByteArray.empty_append] at hcut
    rw [Sink.empty, hwrite] at hcutEnding
    exact ⟨hcut, hcutEnding⟩

/-- With room for five bytes, a session on the line `1` writes the prompt and the first byte of its answer. -/
theorem run_with_room_of_five :
    5 < (run ⟨false⟩ [49, 10] (.empty none)).output.size ∧
      (run ⟨false⟩ [49, 10] (.empty (some 5))).output = (prompt ++ "\x7b").toUTF8 ∧
      (run ⟨false⟩ [49, 10] (.empty (some 5))).ending = .sinkFull := by
  have houtput : (run ⟨false⟩ [49, 10] (.empty none)).output = (prompt ++ "\x7b1\x7d = 1\n" ++ prompt).toUTF8 := by
    decide +kernel
  have hsize : 5 < (run ⟨false⟩ [49, 10] (.empty none)).output.size := by
    rw [houtput]
    decide
  obtain ⟨hcut, hending⟩ := (run_with_room ⟨false⟩ [49, 10] 5).2.2 hsize
  rw [houtput] at hcut
  exact ⟨hsize, hcut, hending⟩

end Session

end Abacus
