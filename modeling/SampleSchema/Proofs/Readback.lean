import Mathlib
import SampleSchema.CommandLine.Run
import SampleSchema.Proofs.Nesting
import SampleSchema.Proofs.Spelling

/-!
# Reading Back What Is Printed

What the program prints about a schema, it can read.

What is printed is JSON, on one line or on several, and it is read by the
readers of `Spelling`. They get it right unless brackets nest more than 127
deep, where they give up. A schema is no value to begin with, but is read from
the text directly; there `FromText.faithful` says that JSON texts are a source
like JSON values, with the same limit.

So what is printed about a schema can be read exactly up to that depth. Samples
are under the same limit, but their schemas nest more deeply than they do. What
is inferred from samples that nest at most 31 deep can always be read, and
objects around each other show that twice that depth is already too much.

## Main definitions

* `FromText.Reads`: What is printed of a value is read as something.
* `Command.findsSchema`: A command prints a schema.

## Theorems

* `Json.parse_text`: A value of strings, lists and objects is read back.
* `FromText.faithful`: JSON texts are a faithful source.
* `Schema.parse_text`: A schema is read back, or nests too deeply.
* `Schema.parse_inferred`: What is inferred from samples that nest at most 31
  deep is read back.
* `Invocation.read_printed`: What a run prints about a schema is read back, or
  nests too deeply.
-/

namespace SampleSchema

/-! ### Printed values -/

namespace Json

theorem render_array (style : Style) (level : Nat) (js : List Json) :
    (array js).written.render style level =
      enclose style level '[' ']' (js.map fun j => j.written.render style (level + 1)) := by
  rw [written, Written.render, List.map_map]
  rfl

theorem render_object (style : Style) (level : Nat) (members : Keyed Json) :
    (object members).written.render style level =
      enclose style level '\x7b' '\x7d' (members.toList.map fun e =>
        quote e.1 ++ (style.colon ++ e.2.written.render style (level + 1))) := by
  rw [written_object, Written.render, Keyed.toList_map, List.map_map]
  simp only [Function.comp_def, List.append_assoc]

theorem render_string (style : Style) (level : Nat) (s : String) :
    (string s).written.render style level = quote s := by
  rw [written, Written.render]

/-- What begins with a mark of its own begins with no other. -/
theorem begins_render {j : Json} (h : j.IsTextual) {avoided : Char}
    (havoided : avoided ∉ ['"', '[', '\x7b']) (style : Style) (level : Nat) :
    Begins avoided (j.written.render style level) := by
  simp only [List.mem_cons, List.not_mem_nil, or_false, not_or] at havoided
  rcases havoided with ⟨hquote, hlist, hobject⟩
  cases h with
  | string s =>
      rw [render_string]
      exact ⟨'"', _, rfl, rfl, Ne.symm hquote⟩
  | array =>
      rw [render_array, enclose_eq]
      exact ⟨'[', _, rfl, rfl, Ne.symm hlist⟩
  | object =>
      rw [render_object, enclose_eq]
      exact ⟨'\x7b', _, rfl, rfl, Ne.symm hobject⟩

section Opening

variable {blanks : List Char}

theorem writtenWithin_opening (hblanks : ∀ c ∈ blanks, isBlank c) {c : Char}
    (hc : c = '[' ∨ c = '\x7b') (cs : List Char) :
    writtenWithin 0 (blanks ++ c :: cs) = stopAt .tooDeep (c :: cs) := by
  rcases hc with rfl | rfl <;> exact peek_bind hblanks rfl _ cs

theorem writtenWithin_array (hblanks : ∀ c ∈ blanks, isBlank c) (d : Nat) (cs : List Char) :
    writtenWithin (d + 1) (blanks ++ '[' :: cs) =
      (listOf (writtenWithin d) cs >>= fun p => pure (.array p.1, p.2)) :=
  peek_bind hblanks rfl _ cs

theorem writtenWithin_object (hblanks : ∀ c ∈ blanks, isBlank c) (d : Nat) (cs : List Char) :
    writtenWithin (d + 1) (blanks ++ '\x7b' :: cs) =
      (foldMembers (takeEntry (writtenWithin d)) [] cs >>=
        fun p => pure (.object p.1.reverse, p.2)) :=
  peek_bind hblanks rfl _ cs

end Opening

/-- What is printed is read as it was written. -/
theorem writtenWithin_render {j : Json} (h : j.IsTextual) (style : Style) (d level : Nat)
    {blanks : List Char} (hblanks : ∀ c ∈ blanks, isBlank c) (rest : List Char) :
    EndsWith (j.depth ≤ d) (writtenWithin d (blanks ++ (j.written.render style level ++ rest)))
      j.written rest := by
  induction h generalizing d level blanks rest with
  | string s =>
      rw [render_string, written]
      exact .of_ok (by simp [depth]) (writtenWithin_quote hblanks d s rest)
  | @array js hjs ih =>
      rw [render_array, enclose_eq, List.cons_append, written]
      cases d with
      | zero => exact .of_tooDeep (by simp [depth]) (writtenWithin_opening hblanks (Or.inl rfl) _)
      | succ d =>
          have hitem : ∀ j ∈ js, ∀ rest, EndsWith (j.depth ≤ d)
              (writtenWithin d (j.written.render style (level + 1) ++ rest)) j.written rest :=
            fun j hj => ih j hj d (level + 1) (List.forall_mem_nil _)
          have hlist := listOf_interior style level
            (fun j hj => begins_render (hjs j hj) (by decide) style (level + 1)) hitem rest
          rw [writtenWithin_array hblanks]
          exact (hlist.map rfl).congr depth_array_le_iff.symm
  | @object members _ ih =>
      rw [render_object, enclose_eq, List.cons_append, written_object, Keyed.toList_map]
      cases d with
      | zero => exact .of_tooDeep (by simp [depth]) (writtenWithin_opening hblanks (Or.inr rfl) _)
      | succ d =>
          have hmember : ∀ name j, (name, j) ∈ members.toList → ∀ rest, EndsWith (j.depth ≤ d)
              (member (writtenWithin d) (style.colon ++ j.written.render style (level + 1) ++ rest))
              j.written rest := by
            intro name j hj rest
            rw [List.append_assoc]
            exact EndsWith.member style fun _ hblanks => ih _ hj d (level + 1) hblanks rest
          have hobject := foldMembers_entries style level hmember rest
          rw [writtenWithin_object hblanks]
          exact (hobject.map (by rw [List.reverse_reverse])).congr depth_object_le_iff.symm

end Json

/-! ### JSON texts -/

namespace FromText

open Json

/-- What is printed of a value is read, unless the value nests more deeply than
    there is room for. -/
def Reads {α : Type} (n : Nat) (x : FromText α) (j : Json) (a : α) : Prop :=
  ∀ d < n, ∀ style level blanks rest, (∀ c ∈ blanks, isBlank c) →
    EndsWith (j.depth ≤ d) (x d (blanks ++ (j.written.render style level ++ rest))) a rest

theorem stringOf_quote (wanted : Wanted) {blanks : List Char} (hblanks : ∀ c ∈ blanks, isBlank c)
    (s : String) (rest : List Char) :
    stringOf wanted (blanks ++ (quote s ++ rest)) = .ok (s, rest) := by
  have hscalar := scalar_quote s rest
  rw [quote_append] at hscalar ⊢
  refine (peek_bind hblanks rfl _ _).trans ?_
  change (scalar _ >>= fun p => _) = _
  rw [hscalar]
  rfl

/-- A member's value is read after the colon. -/
theorem member_reads {α : Type} {n d : Nat} {x : FromText α} {j : Json} {a : α}
    (h : Reads n x j a) (hd : d < n) (style : Style) (level : Nat) (rest : List Char) :
    EndsWith (j.depth ≤ d)
      (member (x d) (style.colon ++ j.written.render style level ++ rest)) a rest := by
  rw [List.append_assoc]
  exact EndsWith.member style fun blanks => h d hd style level blanks rest

/-- The members of a record are taken in one by one. -/
theorem takesText_of_takesIn {σ : Type} {fields : List (Field FromText σ)} {n : Nat}
    {es : List (String × Json)} {given : List String} {state last : σ}
    (h : Source.TakesIn fields (Reads n) es given state last) (style : Style) (level : Nat) :
    ∃ given', ∀ d < n, TakesText (takeMember fields d)
      (fun j => style.colon ++ j.written.render style level) (fun j => j.depth ≤ d) es
      (state, given) (last, given') := by
  induction h with
  | @nil given state => exact ⟨given, fun _ _ => .nil⟩
  | @cons name j es given state last f change hfield hnew hread _ ih =>
      rcases ih with ⟨given', hrest⟩
      refine ⟨given', fun d hd => .cons (fun rest => ?_) (hrest d hd)⟩
      rw [takeMember, hfield]
      simp only [if_neg hnew]
      exact (member_reads hread hd style level rest).map rfl

section Opening

variable {α σ : Type} {blanks : List Char}

theorem optional_value (hblanks : ∀ c ∈ blanks, isBlank c) {c : Char} (hc : isBlank c = false)
    (hn : c ≠ 'n') (x : FromText α) (d : Nat) (cs : List Char) :
    (Source.optional x : FromText (Option α)) d (blanks ++ c :: cs) =
      (x d (c :: cs) >>= fun p => pure (some p.1, p.2)) := by
  refine (peek_bind hblanks hc _ cs).trans ?_
  -- The value does not begin as the mark for none does, so the second branch is taken.
  simp only [Option.some.injEq, hn, imp_self]
  rfl

theorem list_opening (hblanks : ∀ c ∈ blanks, isBlank c) (x : FromText α) (d : Nat)
    (cs : List Char) :
    (Source.list x : FromText (List α)) d (blanks ++ '[' :: cs) =
      within (fun d => listOf (x d)) d ('[' :: cs) :=
  peek_bind hblanks rfl _ cs

theorem keyed_opening (hblanks : ∀ c ∈ blanks, isBlank c) (x : FromText α) (d : Nat)
    (cs : List Char) :
    (Source.keyed x : FromText (Keyed α)) d (blanks ++ '\x7b' :: cs) =
      (within (fun d => foldMembers (takeEntry (x d)) []) d ('\x7b' :: cs) >>=
        fun p => pure (Keyed.ofList p.1.reverse, p.2)) :=
  peek_bind hblanks rfl _ cs

theorem record_opening (hblanks : ∀ c ∈ blanks, isBlank c) (kind : String)
    (fields : List (Field FromText σ)) (start : σ) (d : Nat) (cs : List Char) :
    (Source.record kind fields start : FromText σ) d (blanks ++ '\x7b' :: cs) =
      (within (fun d => foldMembers (takeMember fields d) (start, [])) d ('\x7b' :: cs) >>=
        fun p => pure (p.1.1, p.2)) :=
  peek_bind hblanks rfl _ cs

end Opening

/-- JSON texts are a source from which everything is read back that does not
    nest too deeply. A record needs a pair of brackets, which is what its level
    allows for. -/
theorem faithful : Source.Faithful (r := FromText) Reads where
  noRoom _ _ _ d hd := absurd hd (Nat.not_lt_zero d)
  map {_ _ _ x j a} f h d hd style level blanks rest hblanks :=
    (h d hd style level blanks rest hblanks).map rfl
  string n s d hd style level blanks rest hblanks := by
    rw [render_string]
    exact .of_ok (by simp [depth]) (stringOf_quote .string hblanks s rest)
  optional {_ n x j a} hj h d hd style level blanks rest hblanks := by
    have hread := h d hd style level [] rest (List.forall_mem_nil _)
    rcases begins_render hj (show 'n' ∉ ['"', '[', '\x7b'] by decide) style level with
      ⟨c, cs, hrender, hc, hn⟩
    rw [hrender, List.nil_append] at hread
    rw [hrender, List.cons_append, optional_value hblanks hc hn]
    exact hread.map rfl
  list {_ n x write as} hwrite h d hd style level blanks rest hblanks := by
    rw [render_array, enclose_eq, List.cons_append, List.map_map, list_opening hblanks]
    refine EndsWith.within '[' (depth_pos_array _) fun d' hd' => ?_
    have hitem : ∀ a ∈ as, ∀ rest, EndsWith ((write a).depth ≤ d')
        (x d' ((write a).written.render style (level + 1) ++ rest)) a rest :=
      fun a ha rest => h a ha d' (by omega) style (level + 1) [] rest (List.forall_mem_nil _)
    have hread := listOf_interior style level
      (fun a ha => begins_render (hwrite a ha) (by decide) style (level + 1)) hitem rest
    rw [List.map_id'] at hread
    exact hread.congr (depth_array_le_iff.trans List.forall_mem_map).symm
  keyed {_ n x write entries} h d hd style level blanks rest hblanks := by
    rw [render_object, enclose_eq, List.cons_append, keyed_opening hblanks]
    -- The entries are taken in front of each other, and turned round at the end.
    have hentries : Keyed.ofList entries.toList.reverse.reverse = entries := by
      rw [List.reverse_reverse, Keyed.ofList_toList]
    refine EndsWith.map (a := entries.toList.reverse) ?_ (by rw [hentries])
    refine EndsWith.within '\x7b' (depth_pos_object _) fun d' hd' => ?_
    have hmember : ∀ k a, (k, a) ∈ entries.toList → ∀ rest, EndsWith ((write a).depth ≤ d')
        (member (x d') (style.colon ++ (write a).written.render style (level + 1) ++ rest))
        a rest :=
      fun k a ha => member_reads (h k a (Keyed.mem_toList_iff.1 ha)) (by omega) style (level + 1)
    have hread := foldMembers_entries style level hmember rest
    rw [List.map_id'] at hread
    rw [Keyed.toList_map, List.map_map]
    refine hread.congr ?_
    rw [depth_object_le_iff, Keyed.toList_map, List.forall_mem_map]
  record {_ n fields members start last} kind h d hd style level blanks rest hblanks := by
    rw [render_object, enclose_eq, List.cons_append, record_opening hblanks]
    rcases takesText_of_takesIn h style (level + 1) with ⟨given, htakes⟩
    refine EndsWith.map (a := (last, given)) ?_ rfl
    refine EndsWith.within '\x7b' (depth_pos_object _) fun d' hd' => ?_
    have hread := foldMembers_interior style level (htakes d' (by omega)) rest
    exact hread.congr depth_object_le_iff.symm
  anything {_ j sense a} n kind hj h d hd style level blanks rest hblanks := by
    -- Making sense of what is read takes nothing more from the text.
    have hread := writtenWithin_render hj style d level hblanks rest
    refine EndsWith.congr (hread.bind fun _ => ?_) (iff_of_eq (and_true _))
    simp only [h]
    exact .of_ok trivial rfl

end FromText

/-! ### Whole texts -/

namespace Json

theorem toList_text (style : Style) (j : Json) :
    (j.text style ++ "\n").toList = j.written.render style 0 ++ ['\n'] := by
  rw [text, Written.text, String.toList_append, String.toList_ofList]
  rfl

/-- A printed value is read back from its text. -/
theorem parse_text {j : Json} (h : j.IsTextual) (hdepth : j.depth ≤ depthLimit) (style : Style) :
    parse (j.text style ++ "\n") = .ok j := by
  have hread := writtenWithin_render h style depthLimit 0 (List.forall_mem_nil _) ['\n']
  have hwhole := (wholeText_of_endsWith hread (List.forall_mem_singleton.2 rfl)).1 hdepth
  rw [List.nil_append, ← toList_text] at hwhole
  rw [parse, parseWritten, hwhole]
  change Except.ok j.written.value = _
  rw [value_written]

end Json

namespace Schema

/-- A printed schema is read back from its text, unless its brackets nest more
    than 127 deep. -/
theorem parse_text (s : Schema) (style : Json.Style) :
    (s.json.depth ≤ 127 → parse (s.json.text style ++ "\n") = .ok s) ∧
      (127 < s.json.depth →
        ∃ p, parse (s.json.text style ++ "\n") = .error (.malformed .tooDeep p)) := by
  have hread := reads_reader FromText.faithful (Json.depthLimit + 1) s Json.depthLimit
    (Nat.lt_succ_self _) style 0 [] ['\n'] (List.forall_mem_nil _)
  have hwhole := Json.wholeText_of_endsWith hread (List.forall_mem_singleton.2 rfl)
  rw [List.nil_append, ← Json.toList_text] at hwhole
  exact ⟨hwhole.1, fun h => hwhole.2 (Nat.not_le.2 h)⟩

/-- What is inferred from samples that nest at most 31 deep is read back. -/
theorem parse_inferred {o : MergeOptions} {vs : List Sample} {m : Schema}
    (h : inferAll o vs = .ok m) (hvs : ∀ v ∈ vs, v.NestsWithin 31) (style : Json.Style) :
    parse (m.json.text style ++ "\n") = .ok m := by
  refine (m.parse_text style).1 ?_
  rw [(inferAll_eq_ok_iff.1 h).2.2]
  exact depth_survey_le o hvs

end Schema

/-! ### Runs -/

theorem not_hasExtension_yaml {path : String} (h : hasExtension path ["json"]) :
    hasExtension path ["yaml", "yml"] = false := by
  unfold hasExtension at h ⊢
  cases hextension : extension? path with
  | none => rfl
  | some extension =>
      rw [hextension] at h
      have hjson : extension.toLower = "json" := by simpa using h
      simp only [Option.any_some, hjson]
      decide

/-- A file with the extension for JSON is read as JSON. -/
theorem Schema.read_json (r : Readers) {files : Surroundings} {path text : String}
    (hname : hasExtension path ["json"]) (hfile : files.file path = .ok text) :
    Schema.read r files path = (Schema.parse text).mapError .json := by
  rw [Schema.read, hfile]
  change (if hasExtension path ["yaml", "yml"] then _ else _) = _
  rw [not_hasExtension_yaml hname]
  rfl

/-- The command finds a schema, which is what is printed. -/
def Command.findsSchema : Command → Bool
  | infer _ | merge _ | extend .. => true
  | compare .. | superset .. => false

namespace Invocation

/-- What is found by a command that finds a schema is a schema's wire form. -/
theorem exists_schema_of_answer {settings : Settings} {r : Readers} {s : Surroundings}
    {command : Command} {j : Json} (h : answer settings r s command = .ok j)
    (hcommand : command.findsSchema) :
    ∃ found : Schema, found.json = j := by
  cases command with
  | infer o =>
      rcases bind_eq_ok_iff.1 h with ⟨samples, -, h⟩
      rcases bind_eq_ok_iff.1 h with ⟨found, -, h⟩
      exact ⟨found, Except.ok.inj h⟩
  | merge paths =>
      rcases bind_eq_ok_iff.1 h with ⟨schemas, -, h⟩
      rcases bind_eq_ok_iff.1 h with ⟨found, -, h⟩
      exact ⟨found, Except.ok.inj h⟩
  | extend path o =>
      rcases bind_eq_ok_iff.1 h with ⟨schema, -, h⟩
      rcases bind_eq_ok_iff.1 h with ⟨samples, -, h⟩
      rcases bind_eq_ok_iff.1 h with ⟨found, -, h⟩
      exact ⟨found, Except.ok.inj h⟩
  | compare | superset => cases hcommand

/-- Infer from standard input. -/
def inferTyped : Invocation := { command := .infer {} }

/-- All that can be read is a text on standard input. -/
def typed (text : String) : Surroundings := ⟨fun _ => .error .missing, .ok text⟩

/-- All that can be read is a text, whatever the file is called. -/
def stored (text : String) : Surroundings := ⟨fun _ => .ok text, .error .missing⟩

theorem answer_inferTyped {text : String} {j : Json} (hparse : Json.parse text = .ok j)
    (hfinite : (Sample.ofJson j).isFinite) :
    answer {} {} (typed text) inferTyped.command =
      .ok (Schema.survey {} [Sample.ofJson j]).json := by
  have hdecode : ({} : InputSettings).decode text = .ok [j] := by
    unfold InputSettings.decode
    simp only [hparse]
    cases j <;> rfl
  have hsamples : readSamples {} {} (typed text) [] = .ok [Sample.ofJson j] := by
    change (({} : InputSettings).decode text).mapError DecodeError.error >>= _ = _
    rw [hdecode]
    rfl
  have hinfer := Schema.inferAll_eq_survey {} [Sample.ofJson j] (List.cons_ne_nil _ _)
    (List.forall_mem_singleton.2 hfinite)
  change readSamples _ _ (typed text) [] >>= _ = _
  rw [hsamples]
  change (Schema.inferAll {} [Sample.ofJson j]).mapError InferError.error >>= _ = _
  rw [hinfer]
  rfl

theorem run_inferTyped {text : String} {j : Json} (hparse : Json.parse text = .ok j)
    (hfinite : (Sample.ofJson j).isFinite) :
    inferTyped.run {} (typed text) =
      .ok ((Schema.survey {} [Sample.ofJson j]).json.compact ++ "\n") := by
  change answer {} {} (typed text) inferTyped.command >>= _ = _
  rw [answer_inferTyped hparse hfinite]
  rfl

/-- What is printed of a schema, on a line or several, is read back from a JSON
    file if its brackets nest at most 127 deep. Otherwise it is refused for its
    nesting. How other formats are read has no part in this. -/
theorem read_printed {i : Invocation} {r r' : Readers} {s files : Surroundings} {text path : String}
    (hcommand : i.command.findsSchema) (hrun : i.run r s = .ok text)
    (hname : hasExtension path ["json"]) (hfile : files.file path = .ok text) :
    ∃ settings j, i.settingsFor r s = .ok settings ∧ answer settings r s i.command = .ok j ∧
      text = (if settings.pretty then j.pretty else j.compact) ++ "\n" ∧
      (j.depth ≤ 127 → ∃ found, Schema.read r' files path = .ok found ∧ found.json = j) ∧
      (127 < j.depth →
        ∃ p, Schema.read r' files path = .error (.json (.malformed .tooDeep p))) := by
  rcases bind_eq_ok_iff.1 hrun with ⟨settings, hsettings, h⟩
  rcases bind_eq_ok_iff.1 h with ⟨j, hanswer, htext⟩
  rcases exists_schema_of_answer hanswer hcommand with ⟨found, rfl⟩
  have hprinted := (Except.ok.inj htext).symm
  -- Whichever way it is spread over lines, it is the text of the same value.
  have hstyle : ∃ style, text = found.json.text style ++ "\n" := by
    rw [hprinted]
    cases settings.pretty with
    | false => exact ⟨.compact, rfl⟩
    | true => exact ⟨.pretty, rfl⟩
  rcases hstyle with ⟨style, rfl⟩
  have hparse := found.parse_text style
  refine ⟨settings, found.json, hsettings, hanswer, hprinted, fun hdepth => ?_, fun hdepth => ?_⟩
  · refine ⟨found, ?_, rfl⟩
    rw [Schema.read_json r' hname hfile, hparse.1 hdepth]
    rfl
  · rcases hparse.2 hdepth with ⟨p, hp⟩
    refine ⟨p, ?_⟩
    rw [Schema.read_json r' hname hfile, hp]
    rfl

/-- What is printed about an object in an object is read back. -/
theorem read_printed_nested :
    ∃ text, inferTyped.run {} (typed ((nested 2).compact ++ "\n")) = .ok text ∧
      ∃ found, Schema.read {} (stored text) "schema.json" = .ok found ∧
        found.json = (Schema.survey {} [Sample.ofJson (nested 2)]).json := by
  have hparse := Json.parse_text (isTextual_nested 2)
    (Nat.le_trans (depth_nested_le 2) (by decide)) .compact
  have hanswer := answer_inferTyped hparse (isFinite_nested 2)
  have hrun := run_inferTyped hparse (isFinite_nested 2)
  have hdepth := Schema.depth_survey_le {} (List.forall_mem_singleton.2
    (Designation.nestsWithin_convert {} (depth_nested_le 2)))
  have hfile : (stored ((Schema.survey {} [Sample.ofJson (nested 2)]).json.compact ++ "\n")).file
      "schema.json" = .ok _ := rfl
  rcases read_printed rfl hrun (by cbv) hfile with ⟨settings, j, hsettings, hfound, -, hread, -⟩
  cases hsettings
  cases hanswer.symm.trans hfound
  exact ⟨_, hrun, hread (Nat.le_trans hdepth (by decide))⟩

/-- Objects may nest so deep that they are read, but what is printed about them
    is not: half as many levels of brackets are enough. -/
theorem not_read_printed_deep :
    ∃ text, inferTyped.run {} (typed ((nested 64).compact ++ "\n")) = .ok text ∧
      hasExtension "schema.json" ["json"] ∧ (stored text).file "schema.json" = .ok text ∧
      ∃ p, Schema.read {} (stored text) "schema.json" = .error (.json (.malformed .tooDeep p)) := by
  have hparse := Json.parse_text (isTextual_nested 64)
    (Nat.le_trans (depth_nested_le 64) (by decide)) .compact
  have hrun := run_inferTyped hparse (isFinite_nested 64)
  have hdepth := Schema.depth_survey_nested {} 64
  rcases ((Schema.survey {} _).parse_text .compact).2 (Nat.lt_of_lt_of_le (by omega) hdepth) with
    ⟨p, hp⟩
  refine ⟨_, hrun, by cbv, rfl, p, ?_⟩
  rw [Schema.read_json {} (by cbv) rfl]
  exact congrArg (Except.mapError Error.json) hp

end Invocation

end SampleSchema
