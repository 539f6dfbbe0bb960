import Mathlib
import SampleSchema.CommandLine.Run
import SampleSchema.Proofs.Attempts

/-!
# Lines in Several Files

Values on lines may be read piece by piece.

A newline belongs to no line, so the lines of two texts with a newline between
them are the lines of the first, and then those of the second. A line is read
for itself, whatever stands before it. What the lines before it have an
influence on is its number, and whether it is read at all. So the values of the
two texts are those of the first and then those of the second, and the first
failure is the same, except that its line is further down if it is in the second
text. `decodeLinesOf_append` says all of this in one equation.

This is why it does not matter how lines are distributed over files. A file may
or may not end with a newline, and it may begin with one, as blank lines are
passed over. What a single line holds is up to the reader of values, and all of
this is true of any.

## Main definitions

* `readLine`: The values on one line, of which there is at most one.
* `DecodeError.later`: The same failure, so many lines further down.
* `CutAtNewlines`: Pieces of a text.
* `Surroundings.Provide`: A text is what a command is given to read.

## Theorems

* `decodeLines_cons`: What the first line contributes.
* `decodeLines_append`: Lines can be read in two goes.
* `decodeLines_later`: Where lines begin matters for where they fail, only.
* `decodeLinesOf_append`: The values in a text are those in its pieces.
* `CutAtNewlines.decodeLinesOf_eq_ok_iff`: The same for any number of pieces.
* `Surroundings.Provide.readSamples_eq_ok_iff`: The same for files.
* `decodeLinesOf_join`: What joined texts lead to, and files in their place.
-/

namespace SampleSchema

/-! ### Lines -/

/-- The same failure, so many lines further down. -/
def DecodeError.later (n : Nat) : DecodeError → DecodeError
  | line number reason => line (number + n) reason
  | e => e

variable {parse : String → Except Json.Error Json} {e : DecodeError} {a b whole : String}
  {pieces : List String} {js : List Json}

/-- The values on one line, of which there is at most one. -/
def readLine (parse : String → Except Json.Error Json) (cs : List Char) :
    Except Json.Error (List Json) :=
  if (Text.trim cs).isEmpty then .ok []
  else List.singleton <$> parse (String.ofList (Text.trim cs))

/-- The first line is read for itself, and the others as if it were not there. -/
theorem decodeLines_cons (parse : String → Except Json.Error Json) (number : Nat)
    (cs : List Char) (lines : List (List Char)) :
    decodeLines parse number (cs :: lines) = (do
      let js ← (readLine parse cs).mapError (DecodeError.line number)
      let ks ← decodeLines parse (number + 1) lines
      pure (js ++ ks)) := by
  rw [decodeLines, readLine]
  by_cases hblank : (Text.trim cs).isEmpty
  · simp only [if_pos hblank]
    cases decodeLines parse (number + 1) lines <;> rfl
  · simp only [if_neg hblank]
    cases parse (String.ofList (Text.trim cs)) with
    | error reason => rfl
    | ok j => cases decodeLines parse (number + 1) lines <;> rfl

theorem decodeLines_append (parse : String → Except Json.Error Json)
    (xs ys : List (List Char)) : ∀ number : Nat,
    decodeLines parse number (xs ++ ys) = (do
      let js ← decodeLines parse number xs
      let ks ← decodeLines parse (number + xs.length) ys
      pure (js ++ ks)) := by
  induction xs with
  | nil =>
      intro number
      rw [List.nil_append, List.length_nil, Nat.add_zero]
      cases decodeLines parse number ys <;> rfl
  | cons cs xs ih =>
      intro number
      have hnumber : number + 1 + xs.length = number + (xs.length + 1) := by omega
      rw [List.cons_append, decodeLines_cons, decodeLines_cons, ih, List.length_cons, hnumber]
      simp only [bind_assoc, pure_bind, List.append_assoc]

/-- Lines that begin further down fail further down, and are read alike. -/
theorem decodeLines_later (parse : String → Except Json.Error Json) (n : Nat)
    (lines : List (List Char)) : ∀ number : Nat,
    decodeLines parse (number + n) lines =
      (decodeLines parse number lines).mapError (DecodeError.later n) := by
  induction lines with
  | nil =>
      intro number
      rfl
  | cons cs lines ih =>
      intro number
      have hnumber : number + n + 1 = number + 1 + n := by omega
      rw [decodeLines_cons, decodeLines_cons, hnumber, ih]
      cases readLine parse cs with
      | error reason => rfl
      | ok js => cases decodeLines parse (number + 1) lines <;> rfl

/-- If lines cannot be read, then because of one of them. -/
theorem exists_line_of_decodeLines (lines : List (List Char)) : ∀ number : Nat,
    decodeLines parse number lines = .error e → ∃ k reason, e = .line k reason := by
  induction lines with
  | nil =>
      intro number h
      cases h
  | cons cs lines ih =>
      intro number h
      rw [decodeLines_cons] at h
      rcases bind_eq_error h with h | ⟨js, _, h⟩
      · cases hread : readLine parse cs with
        | error reason =>
            rw [hread] at h
            cases h
            exact ⟨number, reason, rfl⟩
        | ok js =>
            rw [hread] at h
            cases h
      · rcases bind_eq_error h with h | ⟨ks, _, h⟩
        · exact ih (number + 1) h
        · cases h

/-! ### Joined texts -/

/-- The values in two texts with a newline between them. Lines of the second
    come after those of the first, of which there is one more than newlines. -/
theorem decodeLinesOf_append (parse : String → Except Json.Error Json) (a b : String) :
    decodeLinesOf parse (a ++ "\n" ++ b) = (do
      let js ← decodeLinesOf parse a
      let ks ← (decodeLinesOf parse b).mapError (.later (a.toList.count '\n' + 1))
      pure (js ++ ks)) := by
  have hchars : (a ++ "\n" ++ b).toList = a.toList ++ '\n' :: b.toList := by
    rw [String.toList_append, String.toList_append, List.append_assoc]
    rfl
  -- The lines of the second text begin at one more than there are newlines in the first.
  unfold decodeLinesOf
  rw [hchars, RecordPath.splitAt_append, decodeLines_append, RecordPath.length_splitAt,
    decodeLines_later]

theorem decodeLinesOf_empty (parse : String → Except Json.Error Json) :
    decodeLinesOf parse "" = .ok [] := rfl

/-- Joined texts can be read just when each of them can be. -/
theorem decodeLinesOf_append_eq_ok_iff :
    decodeLinesOf parse (a ++ "\n" ++ b) = .ok js ↔
      ∃ xs, decodeLinesOf parse a = .ok xs ∧ ∃ ys, decodeLinesOf parse b = .ok ys ∧
        js = xs ++ ys := by
  rw [decodeLinesOf_append, bind_eq_ok_iff]
  refine exists_congr fun xs => and_congr_right fun _ => ?_
  rw [bind_eq_ok_iff]
  refine exists_congr fun ys => and_congr mapError_eq_ok_iff ?_
  exact ⟨fun h => (Except.ok.inj h).symm, fun h => congrArg Except.ok h.symm⟩

/-! ### Pieces -/

/-- A text in pieces, cut at newlines. The newline at a cut ends the piece before
    it, or begins the one after it, or is in neither. -/
inductive CutAtNewlines : String → List String → Prop
  | whole (a : String) : CutAtNewlines a [a]
  | between (a : String) {b : String} {pieces : List String} (h : CutAtNewlines b pieces) :
      CutAtNewlines (a ++ "\n" ++ b) (a :: pieces)
  | after (a : String) {b : String} {pieces : List String} (h : CutAtNewlines b pieces) :
      CutAtNewlines (a ++ "\n" ++ b) ((a ++ "\n") :: pieces)
  | before (a : String) {b : String} {pieces : List String}
      (h : CutAtNewlines ("\n" ++ b) pieces) : CutAtNewlines (a ++ "\n" ++ b) (a :: pieces)

/-- A newline at the end changes nothing. -/
theorem decodeLinesOf_newline (parse : String → Except Json.Error Json) (a : String) :
    decodeLinesOf parse (a ++ "\n") = decodeLinesOf parse a := by
  -- An empty text stands after it.
  have happend := decodeLinesOf_append parse a ""
  rw [String.append_empty, decodeLinesOf_empty] at happend
  rw [happend]
  cases decodeLinesOf parse a with
  | error e => rfl
  | ok js =>
      change Except.ok (js ++ []) = _
      rw [List.append_nil]

/-- A newline at the start changes only where a failure is. -/
theorem decodeLinesOf_newline_append_eq_ok_iff :
    decodeLinesOf parse ("\n" ++ b) = .ok js ↔ decodeLinesOf parse b = .ok js := by
  have hempty : "\n" ++ b = "" ++ "\n" ++ b := by
    rw [String.empty_append]
  rw [hempty, decodeLinesOf_append_eq_ok_iff, decodeLinesOf_empty]
  simp

/-- A text can be read just when all its pieces can be, and leads to the same
    values in the same order. -/
theorem CutAtNewlines.decodeLinesOf_eq_ok_iff (h : CutAtNewlines whole pieces) :
    ∀ {js : List Json}, List.flatten <$> pieces.mapM (decodeLinesOf parse) = .ok js ↔
      decodeLinesOf parse whole = .ok js := by
  induction h with
  | whole a =>
      intro js
      rw [flatten_mapM_cons_eq_ok_iff]
      simp only [flatten_mapM_nil_eq_ok_iff, exists_eq_left, List.append_nil, exists_eq_right']
  | between a h ih =>
      intro js
      rw [flatten_mapM_cons_eq_ok_iff, decodeLinesOf_append_eq_ok_iff]
      simp only [ih]
  | after a h ih =>
      intro js
      rw [flatten_mapM_cons_eq_ok_iff, decodeLinesOf_newline, decodeLinesOf_append_eq_ok_iff]
      simp only [ih]
  | before a h ih =>
      -- The rest is cut with the newline in front, where it has no value.
      intro js
      rw [flatten_mapM_cons_eq_ok_iff, decodeLinesOf_append_eq_ok_iff]
      simp only [ih, decodeLinesOf_newline_append_eq_ok_iff]

/-! ### Files -/

variable {settings : Settings} {r : Readers} {s : Surroundings} {paths : List String}
  {samples : List Sample}

theorem decode_of_jsonl {i : InputSettings} (hformat : i.format = .jsonl) (text : String) :
    i.decode text r = decodeLinesOf r.json text := by
  rw [InputSettings.decode, hformat]

theorem read_eq_ok_iff {path text : String} (hformat : settings.input.format = .jsonl)
    (hfile : s.file path = .ok text) :
    settings.input.read r s path = .ok js ↔ decodeLinesOf r.json text = .ok js := by
  rw [InputSettings.read, hfile, ← decode_of_jsonl hformat]
  exact mapError_eq_ok_iff

theorem readInput_eq_ok_iff {text : String} (hformat : settings.input.format = .jsonl)
    (hinput : s.standardInput = .ok text) :
    settings.input.readInput r s = .ok js ↔ decodeLinesOf r.json text = .ok js := by
  rw [InputSettings.readInput, hinput, ← decode_of_jsonl hformat]
  exact mapError_eq_ok_iff

theorem flatten_mapM_read_eq_ok_iff (hformat : settings.input.format = .jsonl) :
    ∀ {paths pieces : List String}, paths.map s.file = pieces.map .ok → ∀ {js : List Json},
      List.flatten <$> paths.mapM (settings.input.read r s) = .ok js ↔
        List.flatten <$> pieces.mapM (decodeLinesOf r.json) = .ok js
  | [], [], _, js => flatten_mapM_nil_eq_ok_iff.trans flatten_mapM_nil_eq_ok_iff.symm
  | path :: paths, piece :: pieces, hfiles, js => by
      rw [List.map_cons, List.map_cons, List.cons.injEq] at hfiles
      simp only [flatten_mapM_cons_eq_ok_iff, read_eq_ok_iff hformat hfiles.1,
        flatten_mapM_read_eq_ok_iff hformat hfiles.2]

/-- A command takes the values in its input for samples, if there are any. -/
theorem readSamples_eq_ok_iff :
    readSamples settings r s paths = .ok samples ↔
      ∃ js, (if paths.isEmpty then settings.input.readInput r s
          else List.flatten <$> paths.mapM (settings.input.read r s)) = .ok js ∧
        js ≠ [] ∧ samples = js.map settings.designation.convert := by
  -- Wherever the values come from, they are put to the same test.
  have hend : ∀ js : List Json,
      (if js.isEmpty then throw DecodeError.noSamples.error
        else pure (js.map settings.designation.convert) : Except Error (List Sample)) =
          .ok samples ↔
        js ≠ [] ∧ samples = js.map settings.designation.convert := by
    intro js
    cases js with
    | nil => exact iff_of_false nofun fun h => h.1 rfl
    | cons j js =>
        exact ⟨fun h => ⟨List.cons_ne_nil j js, (Except.ok.inj h).symm⟩,
          fun h => congrArg Except.ok h.2.symm⟩
  cases paths with
  | nil =>
      refine bind_eq_ok_iff.trans ?_
      exact exists_congr fun js => and_congr_right fun _ => hend js
  | cons path paths =>
      refine bind_eq_ok_iff.trans ?_
      exact exists_congr fun js => and_congr_right fun _ => hend js

/-- A text is what a command is given to read: it is in the files, cut at
    newlines, or without files it is typed in. -/
def Surroundings.Provide (s : Surroundings) (paths : List String) (whole : String) : Prop :=
  (∃ pieces, CutAtNewlines whole pieces ∧ paths.map s.file = pieces.map .ok) ∨
    (paths = [] ∧ s.standardInput = .ok whole)

/-- The samples are those in the text, however it is given. -/
theorem Surroundings.Provide.readSamples_eq_ok_iff (h : s.Provide paths whole)
    (hformat : settings.input.format = .jsonl) :
    readSamples settings r s paths = .ok samples ↔
      ∃ js, decodeLinesOf r.json whole = .ok js ∧ js ≠ [] ∧
        samples = js.map settings.designation.convert := by
  rw [SampleSchema.readSamples_eq_ok_iff]
  rcases h with ⟨pieces, hcut, hfiles⟩ | ⟨rfl, hinput⟩
  · have hpaths : ¬ paths.isEmpty := by
      intro hempty
      rw [List.isEmpty_iff.1 hempty] at hfiles
      rw [List.map_eq_nil_iff.1 hfiles.symm] at hcut
      cases hcut
    rw [if_neg hpaths]
    simp only [flatten_mapM_read_eq_ok_iff hformat hfiles, hcut.decodeLinesOf_eq_ok_iff]
  · simp only [List.isEmpty_nil, if_pos, readInput_eq_ok_iff hformat hinput]

/-- Joined texts lead to the values of the first and then of the second. If the
    first fails, so do they, and if only the second does, they fail at the same
    line with the same reason, counted from the start of the first. So it makes
    no difference to the samples how lines are cut into files. -/
theorem decodeLinesOf_join :
    (∀ parse a b,
        (∀ xs ys, decodeLinesOf parse a = .ok xs → decodeLinesOf parse b = .ok ys →
          decodeLinesOf parse (a ++ "\n" ++ b) = .ok (xs ++ ys)) ∧
        (∀ e, decodeLinesOf parse a = .error e →
          decodeLinesOf parse (a ++ "\n" ++ b) = .error e) ∧
        ∀ xs e, decodeLinesOf parse a = .ok xs → decodeLinesOf parse b = .error e →
          ∃ k reason, e = .line k reason ∧
            decodeLinesOf parse (a ++ "\n" ++ b) =
              .error (.line (k + 1 + a.toList.count '\n') reason)) ∧
      ∀ settings r s s' paths paths' whole samples, settings.input.format = .jsonl →
        Surroundings.Provide s paths whole → Surroundings.Provide s' paths' whole →
        (readSamples settings r s paths = .ok samples ↔
          readSamples settings r s' paths' = .ok samples) := by
  refine ⟨fun parse a b => ⟨?_, ?_, ?_⟩, ?_⟩
  · intro xs ys ha hb
    rw [decodeLinesOf_append, ha, hb]
    rfl
  · intro e ha
    rw [decodeLinesOf_append, ha]
    rfl
  · intro xs e ha hb
    rcases exists_line_of_decodeLines _ _ hb with ⟨k, reason, rfl⟩
    have hnumber : k + 1 + a.toList.count '\n' = k + (a.toList.count '\n' + 1) := by omega
    refine ⟨k, reason, rfl, ?_⟩
    rw [decodeLinesOf_append, ha, hb, hnumber]
    rfl
  · intro settings r s s' paths paths' whole samples hformat h h'
    exact (h.readSamples_eq_ok_iff hformat).trans (h'.readSamples_eq_ok_iff hformat).symm

/-- Blank lines count, and hold nothing. A file ends with a newline, the next one
    does not. -/
theorem decodeLinesOf_join_blank :
    decodeLinesOf Json.parse ("null\r\n\r" ++ "\n" ++ " \ntrue") = .ok [.null, .bool true] ∧
      decodeLinesOf Json.parse ("null\r\n\n[]" ++ "\n" ++ "\n [] \nnope") =
        .error (.line 6 (.malformed .expectedWord ⟨1, 2⟩)) ∧
      (DecodeError.line 6 (.malformed .expectedWord ⟨1, 2⟩)).error.message =
        "Failed to decode input: Failed to parse JSONL at line 6: " ++
          "expected ident at line 1 column 2" ∧
      readSamples { input := { format := .jsonl } } {}
          ⟨fun path => .ok (if path = "1.jsonl" then "null\n" else "true"), .error .missing⟩
          ["1.jsonl", "2.jsonl"] =
        .ok [.null, .bool true] := by
  refine ⟨?_, ?_, by decide +kernel, ?_⟩
  · exact (decodeLinesOf_join.1 _ _ _).1 [.null] [.bool true] (by cbv) (by cbv)
  · rcases (decodeLinesOf_join.1 Json.parse "null\r\n\n[]" "\n [] \nnope").2.2
      [.null, .array []] (.line 3 (.malformed .expectedWord ⟨1, 2⟩)) (by cbv) (by cbv) with
      ⟨k, reason, hk, hwhole⟩
    cases hk
    exact hwhole
  · have hpieces : CutAtNewlines ("null" ++ "\n" ++ "true") ["null\n", "true"] :=
      .after "null" (.whole "true")
    refine (decodeLinesOf_join.2 _ _ _ ⟨fun _ => .error .missing, .ok "null\ntrue"⟩ _ [] _ _ rfl
      (Or.inl ⟨_, hpieces, rfl⟩) (Or.inr ⟨rfl, rfl⟩)).2 ?_
    cbv

end SampleSchema
