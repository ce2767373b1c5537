import FilterLang.Session
import Mathlib.Algebra.Ring.Parity

/-! What a session prints, line by line: `interactive_eq_join_outputs`. A line is answered as the
same text is answered when it is given as an argument, but for the further forms of an accepted
filter, which hang on how often they were switched. Nothing else of the lines before it counts. -/

namespace FilterLang

namespace Session

/-- The lines up to the one that ends the session. -/
def heard (lines : List String) : List String :=
  lines.takeWhile fun line => Whitespace.trim line ∉ [":quit", ":q"]

def times (command : String) (lines : List String) : Nat :=
  lines.countP fun line => Whitespace.trim line = command

/-- The further forms of an accepted filter that are on after these lines. -/
def furtherForms (c : Config) (earlier : List String) (text : String) : List String :=
  match Filter.ofText c text with
  | .ok (some q) =>
    (if Odd (times ":tree" earlier) then [q.outline.lines ""] else []) ++
      (if Odd (times ":json" earlier) then [q.toJson.indented ""] else [])
  | _ => []

/-- What is printed for a line that stands after these. -/
def answer (c : Config) (earlier : List String) (line : String) : String :=
  match Whitespace.trim line with
  | "" => ""
  | ":help" => help
  | ":tree" => switchText "tree" (Even (times ":tree" earlier))
  | ":json" => switchText "json" (Even (times ":json" earlier))
  | text => batch c [text] ++ joinLines (furtherForms c earlier text)

/-- What is printed for each line, where `earlier` stands before them all. -/
def outputs (c : Config) (earlier lines : List String) : List String :=
  (heard lines).mapIdx fun i line => answer c (earlier ++ lines.take i) line

def shownAfter (earlier : List String) : Shown where
  outline := Odd (times ":tree" earlier)
  json := Odd (times ":json" earlier)

variable {c : Config} {earlier : List String} {line : String}

theorem times_concat (command : String) : times command (earlier ++ [line]) =
    times command earlier + if Whitespace.trim line = command then 1 else 0 := by
  simp [times, List.countP_append, List.countP_singleton]

theorem decide_even (n : Nat) : decide (Even n) = !decide (Odd n) := by
  simp [← Nat.not_odd_iff_even]

theorem shownAfter_concat_tree (h : Whitespace.trim line = ":tree") :
    shownAfter (earlier ++ [line]) =
      { shownAfter earlier with outline := !(shownAfter earlier).outline } := by
  simp [shownAfter, times_concat, h, Nat.odd_add_one, decide_even]

theorem shownAfter_concat_json (h : Whitespace.trim line = ":json") :
    shownAfter (earlier ++ [line]) =
      { shownAfter earlier with json := !(shownAfter earlier).json } := by
  simp [shownAfter, times_concat, h, Nat.odd_add_one, decide_even]

theorem shownAfter_concat (htree : Whitespace.trim line ≠ ":tree")
    (hjson : Whitespace.trim line ≠ ":json") :
    shownAfter (earlier ++ [line]) = shownAfter earlier := by
  simp [shownAfter, times_concat, htree, hjson]

theorem joinLines_append (ls ks : List String) :
    joinLines (ls ++ ks) = joinLines ls ++ joinLines ks := by
  induction ls with
  | nil => simp [joinLines]
  | cons l ls ih => simp_all [joinLines, String.append_assoc]

theorem batch_singleton (text : String) : batch c [text] = report c {} text :=
  String.append_empty

/-- A filter is answered as it is as an argument, and then in the forms that are on. -/
theorem report_shownAfter (text : String) : report c (shownAfter earlier) text =
    batch c [text] ++ joinLines (furtherForms c earlier text) := by
  rw [batch_singleton, report, report, ← joinLines_append, furtherForms]
  rcases Filter.ofText c text with e | _ | q
  · rw [List.append_nil]
  · rfl
  · simp [queryLines, shownAfter]

theorem heard_cons (h : Whitespace.trim line ∉ [":quit", ":q"]) (lines : List String) :
    heard (line :: lines) = line :: heard lines :=
  List.takeWhile_cons_of_pos (decide_eq_true h)

theorem outputs_cons (h : Whitespace.trim line ∉ [":quit", ":q"]) (lines : List String) :
    outputs c earlier (line :: lines) =
      answer c earlier line :: outputs c (earlier ++ [line]) lines := by
  simp [outputs, heard_cons h, List.mapIdx_cons]

theorem command?_of_filter (hempty : Whitespace.trim line ≠ "")
    (h : Whitespace.trim line ∉ [":quit", ":q", ":help", ":tree", ":json"]) :
    command? line = some (.filter (Whitespace.trim line)) := by
  simp only [List.mem_cons, List.not_mem_nil, or_false, not_or] at h
  simp [command?, Command.ofText, hempty, h]

theorem step_of_command {command : Command} (h : command? line = some command) (shown : Shown) :
    step c shown line = obey c shown command := by
  rw [step, h]

/-- What one line does: it is answered, and the switches stand as the lines up to it have set
them. -/
theorem step_shownAfter (h : Whitespace.trim line ∉ [":quit", ":q"]) :
    step c (shownAfter earlier) line =
      some (answer c earlier line, shownAfter (earlier ++ [line])) := by
  unfold answer
  split
  case h_1 htext => simp [step, command?, htext, shownAfter_concat]
  case h_2 htext =>
    have hcommand : command? line = some .help := by simp [command?, Command.ofText, htext]
    have hshown : shownAfter (earlier ++ [line]) = shownAfter earlier :=
      shownAfter_concat (by simp [htext]) (by simp [htext])
    rw [step_of_command hcommand, hshown, obey]
  case h_3 htext =>
    have hcommand : command? line = some .toggleOutline := by
      simp [command?, Command.ofText, htext]
    rw [step_of_command hcommand, shownAfter_concat_tree htext, decide_even, obey, shownAfter]
  case h_4 htext =>
    have hcommand : command? line = some .toggleJson := by simp [command?, Command.ofText, htext]
    rw [step_of_command hcommand, shownAfter_concat_json htext, decide_even, obey, shownAfter]
  -- a filter, which is no command since the line does not end the session either
  case h_5 hempty hhelp htree hjson =>
    have hcommand : command? line = some (.filter (Whitespace.trim line)) :=
      command?_of_filter hempty fun hmem => by simp_all
    rw [step_of_command hcommand, shownAfter_concat htree hjson, ← report_shownAfter, obey]

theorem step_of_quit (h : Whitespace.trim line ∈ [":quit", ":q"]) (shown : Shown) :
    step c shown line = none := by
  have hcommand : command? line = some .quit := by
    simp only [List.mem_cons, List.not_mem_nil, or_false] at h
    rcases h with h | h <;> simp [command?, Command.ofText, h]
  rw [step_of_command hcommand, obey]

theorem outputs_cons_of_quit (h : Whitespace.trim line ∈ [":quit", ":q"]) (lines : List String) :
    outputs c earlier (line :: lines) = [] := by
  have hheard : heard (line :: lines) = [] :=
    List.takeWhile_cons_of_neg fun hnot => of_decide_eq_true hnot h
  simp [outputs, hheard]

/-- The switches hang on nothing but the lines heard so far, by induction on those to come. -/
theorem answers_eq_join_outputs (c : Config) (earlier lines : List String) :
    answers c (shownAfter earlier) lines = String.join (outputs c earlier lines) := by
  induction lines generalizing earlier with
  | nil => rfl
  | cons line lines ih =>
    by_cases h : Whitespace.trim line ∈ [":quit", ":q"]
    · rw [answers, step_of_quit h, outputs_cons_of_quit h]
      rfl
    · rw [answers, step_shownAfter h, outputs_cons h, String.join_cons, ← ih]

variable {earlier' : List String}

theorem answer_congr (htree : times ":tree" earlier = times ":tree" earlier')
    (hjson : times ":json" earlier = times ":json" earlier') (line : String) :
    answer c earlier line = answer c earlier' line := by
  simp only [answer, furtherForms, htree, hjson]

theorem outputs_congr (htree : times ":tree" earlier = times ":tree" earlier')
    (hjson : times ":json" earlier = times ":json" earlier') (lines : List String) :
    outputs c earlier lines = outputs c earlier' lines := by
  have htimes (command : String) (ls ks : List String) :
      times command (ls ++ ks) = times command ls + times command ks := List.countP_append ..
  have hanswer (i : Nat) (line : String) :
      answer c (earlier ++ lines.take i) line = answer c (earlier' ++ lines.take i) line :=
    answer_congr (by simp only [htimes, htree]) (by simp only [htimes, hjson]) line
  simp only [outputs, hanswer]

theorem eraseIdx_outputs (h : Whitespace.trim line ∉ [":tree", ":json", ":quit", ":q"])
    (earlier before after : List String) :
    (outputs c earlier (before ++ line :: after)).eraseIdx before.length =
      outputs c earlier (before ++ after) := by
  simp only [List.mem_cons, List.not_mem_nil, or_false, not_or] at h
  obtain ⟨htree, hjson, hquit, hq⟩ := h
  induction before generalizing earlier with
  | nil =>
    -- the lines behind it are left, and it counts for neither switch
    rw [List.nil_append, outputs_cons (by simp [hquit, hq])]
    exact outputs_congr (by simp [times_concat, htree]) (by simp [times_concat, hjson]) after
  | cons l before ih =>
    by_cases hl : Whitespace.trim l ∈ [":quit", ":q"]
    · rw [List.cons_append, List.cons_append, outputs_cons_of_quit hl, outputs_cons_of_quit hl]
      rfl
    · rw [List.cons_append, List.cons_append, outputs_cons hl, outputs_cons hl, List.length_cons,
        List.eraseIdx_cons_succ, ih]

/-- A session prints the help and then what each line of it prints, and a line that switches nothing
leaves what the others print as it is. -/
theorem interactive_eq_join_outputs (c : Config) (lines : List String) :
    interactive c lines = help ++ String.join (outputs c [] lines) ∧
      ∀ before line after, lines = before ++ line :: after →
        Whitespace.trim line ∉ [":tree", ":json", ":quit", ":q"] →
        (outputs c [] lines).eraseIdx before.length = outputs c [] (before ++ after) := by
  refine ⟨congrArg (help ++ ·) (answers_eq_join_outputs c [] lines), ?_⟩
  rintro before line after rfl h
  exact eraseIdx_outputs h [] before after

/-- A filter between two lines that switch the outline on and off. -/
theorem interactive_eq_join_outputs_switched :
    let lines := [" :tree", "a = b", "\t", ":tree", ":q", "c"]
    Whitespace.trim "a = b" ∉ [":tree", ":json", ":quit", ":q"] ∧
      interactive {} lines = help ++ String.join (outputs {} [] lines) ∧
      (outputs {} [] lines).eraseIdx 1 = ["tree output on\n", "", "tree output off\n"] := by
  intro lines
  have hfilter : Whitespace.trim "a = b" ∉ [":tree", ":json", ":quit", ":q"] := by decide
  obtain ⟨hjoin, herase⟩ := interactive_eq_join_outputs {} lines
  have hothers := herase [" :tree"] "a = b" ["\t", ":tree", ":q", "c"] rfl hfilter
  exact ⟨hfilter, hjoin, hothers.trans (by decide)⟩

theorem mem_of_mem_splitLines {cs l : List Char} (hl : l ∈ splitLines cs) {ch : Char}
    (hch : ch ∈ l) : ch ∈ cs := by
  induction cs generalizing l with
  | nil => cases hl
  | cons d cs ih =>
    rw [splitLines] at hl
    split_ifs at hl
    · rcases List.mem_cons.mp hl with rfl | hl
      · cases hch
      · exact List.mem_cons_of_mem _ (ih hl hch)
    · -- the character goes in front of the first line of the others
      rcases hlines : splitLines cs with _ | ⟨m, ms⟩
      · rw [hlines] at hl
        obtain rfl := List.mem_singleton.mp hl
        exact List.mem_cons.mpr (.inl (List.mem_singleton.mp hch))
      · rw [hlines] at hl ih
        rcases List.mem_cons.mp hl with rfl | hl
        · rcases List.mem_cons.mp hch with rfl | hch
          · exact List.mem_cons_self
          · exact List.mem_cons_of_mem _ (ih List.mem_cons_self hch)
        · exact List.mem_cons_of_mem _ (ih (List.mem_cons_of_mem _ hl) hch)

theorem readLines_eq_map {typed : List (List Char)} (h : ∀ l ∈ typed, '\x08' ∉ l) :
    readLines typed = typed.map String.ofList := by
  induction typed with
  | nil => rfl
  | cons l typed ih =>
    obtain ⟨hl, htyped⟩ := List.forall_mem_cons.mp h
    rw [readLines, TypedLine.read?_eq_some hl, List.map_cons, ← ih htyped]

theorem breaksOff_eq_false {typed : List (List Char)} (h : ∀ l ∈ typed, '\x08' ∉ l) :
    breaksOff typed = false := by
  induction typed with
  | nil => rfl
  | cons l typed ih =>
    obtain ⟨hl, htyped⟩ := List.forall_mem_cons.mp h
    simp [breaksOff, TypedLine.read?_eq_some hl, ih htyped]

/-- A session on an input without backspaces hears the lines of the input as they are. -/
theorem run_eq_interactive {input : String} (h : '\x08' ∉ input.toList) :
    run c [] input = ⟨interactive c ((splitLines input.toList).map String.ofList), 0⟩ := by
  have hlines : ∀ l ∈ splitLines input.toList, '\x08' ∉ l :=
    fun l hl hmem => h (mem_of_mem_splitLines hl hmem)
  simp [run, readLines_eq_map hlines, breaksOff_eq_false hlines]

end Session

end FilterLang
