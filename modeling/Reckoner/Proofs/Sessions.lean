/-
  Reckoner/Proofs/Sessions.lean
  =============================
  **What a session keeps and shows.**  What becomes of a session is told by its lines
  alone, without its history: behind any of them it keeps the newest of the results
  that came since the last clearing (`newest`), and what it shows for the next one
  follows from these (`Reply`).

  One line does this from any earlier ones (`respond_line`), and so does a row of them
  by induction (`converse_append`).  The console may be any that shows proper items, so
  the step is as much about what reaches it.  Two facts about other stages carry this:

    * a value that has been calculated is finite, and the text it was calculated from is
      not blank, so no history refuses it and it can always be shown
      (`push_calculated`);
    * an expression that is kept holds characters of the alphabet only
      (`inAlphabet_of_calculate`), so none that a console would take for markup.
-/
import Mathlib.Data.List.DropRight
import Reckoner.CommandLine.Terminal
import Reckoner.Proofs.Groups
import Reckoner.Proofs.Interchange
import Reckoner.Proofs.Items
import Reckoner.Proofs.Retention
import Reckoner.Session

namespace Reckoner

open Reckoner.Number Reckoner.Text

/-! ### What a calculation gives -/

theorem isFinite_of_calculate {text : String} {x : Float} (h : calculate text = .ok x) :
    x.isFinite = true :=
  isFinite_of_inSafeRange (inSafeRange_of_calculate h)

theorem inAlphabet_of_calculate {text : String} {x : Float}
    (h : calculate (strip text) = .ok x) : ∀ c ∈ (strip text).toList, inAlphabet c = true := by
  have hlast : (strip text).toList.getLast? ≠ some '\n' := by
    intro hline
    rw [strip, String.toList_ofList] at hline
    have hblank : isBlank '\n' = false := not_blank_of_getLast?_trim hline
    exact absurd hblank (by decide)
  have hall := (checkAlphabet_eq_ok.mp (passed_of_calculate h).1).2
  rw [withoutLineEnd_eq_self hlast] at hall
  exact List.all_eq_true.mp hall

/-- **No result is refused** by a history. -/
theorem History.push_calculated (history : History) {text : String} {x : Float}
    (h : calculate (strip text) = .ok x) (time : String) :
    history.push (.string (strip text)) (.double x) time =
      (history.add ⟨strip text, x, time⟩, .outcome (.ok ())) := by
  have hshown := (checkAlphabet_eq_ok.mp (passed_of_calculate h).1).1
  rw [push, accept, hshown, if_neg (by simp), accept.keep, if_pos (isFinite_of_calculate h),
    strip_strip]

namespace Session

/-! ### Lines -/

/-- What a line says, the blanks around it left out. -/
def Line.content (line : Line) : String := strip line.text

def commands : List String := [":quit", ":q", ":history", ":clear"]

def Line.leaves (line : Line) : Bool := line.content == ":quit" || line.content == ":q"

def Line.clears (line : Line) : Bool := line.content == ":clear"

/-- A line that is to be calculated. -/
def Line.IsExpression (line : Line) : Prop := line.content ≠ "" ∧ line.content ∉ commands

instance (line : Line) : Decidable line.IsExpression :=
  inferInstanceAs (Decidable (_ ∧ _))

/-- The lines that a session hears: those in front of the first one that leaves. -/
def heard (lines : List Line) : List Line := lines.takeWhile (! ·.leaves)

/-- The entry that a line gives, if it is an expression with a value. -/
def Line.result? (line : Line) : Option Entry :=
  if line.IsExpression then
    (calculate line.content).toOption.map fun x => ⟨line.content, x, line.time⟩
  else none

/-- The results of lines since the last one that clears. -/
def results (lines : List Line) : List Entry :=
  (lines.rtakeWhile (! ·.clears)).filterMap Line.result?

/-- The newest results, as many as there is room for. -/
def newest (capacity : Nat) (lines : List Line) : List Entry := (results lines).rtake capacity

/-! ### What is shown -/

/-- What is shown for a line where entries are kept. -/
inductive Reply (entries : List Entry) (line : Line) : List Item → Prop where
  | blank : line.content = "" → Reply entries line []
  | noHistory : line.content = ":history" → entries = [] →
      Reply entries line [.line (tagged "yellow" "No calculations yet.") true]
  | history {table : Table} : line.content = ":history" → entries ≠ [] →
      Report.Tabulates entries table → Reply entries line [.table table]
  | cleared : line.content = ":clear" → Reply entries line [.line "History cleared" true]
  | value {x : Float} {shown : String} : line.IsExpression → calculate line.content = .ok x →
      Value.displayed (.double x) = .ok shown →
      Reply entries line [.line (tagged "bold green" shown) true]
  | failure {kind : FailureKind} : line.IsExpression →
      calculate line.content = .error (.of kind) →
      Reply entries line [.line (tagged "red" "Error" ++ ": " ++ kind.message ++ " " ++
        tagged "dim" ("(" ++ kind.name ++ ")")) true]

/-- What is shown for a row of lines behind others: a prompt before each of them, and
    the reply to it. -/
inductive Dialogue (capacity : Nat) : List Line → List Line → List Item → Prop where
  | silence (before : List Line) : Dialogue capacity before [] []
  | line {before rest : List Line} {line : Line} {reply further : List Item} :
      Reply (newest capacity before) line reply →
      Dialogue capacity (before ++ [line]) rest further →
      Dialogue capacity before (line :: rest) (prompt :: reply ++ further)

/-- What is shown at the end of a session, where entries are kept. -/
inductive Closing (entries : List Entry) : List Item → Prop where
  | silence : entries = [] → Closing entries []
  | summary {entry : Entry} {shown : String} : entries.getLast? = some entry →
      Value.displayed (.double entry.result) = .ok shown →
      Closing entries [.line (tagged "dim" (writtenInt entries.length ++
        " calculation(s), last: " ++ entry.expression ++ " = " ++ shown)) true]

/-! ### What is kept -/

section Newest

variable {capacity : Nat} {line : Line} {entry : Entry} {lines : List Line}

theorem newest_nil (capacity : Nat) : newest capacity [] = [] := List.rtake_nil capacity

theorem newest_concat_of_clears (h : line.clears = true) (capacity : Nat) :
    newest capacity (lines ++ [line]) = [] := by
  rw [newest, results, List.rtakeWhile_concat_neg _ _ _ (by simp [h])]
  exact List.rtake_nil capacity

/-- What has gone for want of room is not missed when a result comes. -/
theorem newest_concat_of_not_clears (h : line.clears = false) (capacity : Nat) :
    newest capacity (lines ++ [line]) =
      History.latest capacity (newest capacity lines ++ line.result?.toList) := by
  have hresults : results (lines ++ [line]) = results lines ++ line.result?.toList := by
    rw [results, List.rtakeWhile_concat_pos _ _ _ (by simp [h]), List.filterMap_append, results,
      List.filterMap_cons]
    cases line.result? <;> rfl
  rw [newest, hresults]
  exact (History.latest_latest_append capacity (results lines) _).symm

theorem newest_concat_of_none (hclears : line.clears = false) (hnone : line.result? = none)
    (capacity : Nat) : newest capacity (lines ++ [line]) = newest capacity lines := by
  have hlength : (newest capacity lines).length ≤ capacity :=
    (History.length_latest capacity (results lines)).trans_le (Nat.min_le_right _ _)
  rw [newest_concat_of_not_clears hclears, hnone, Option.toList_none, List.append_nil,
    History.latest_of_length_le hlength]

theorem result?_of_ok {x : Float} (hexpression : line.IsExpression)
    (hvalue : calculate line.content = .ok x) :
    line.result? = some ⟨line.content, x, line.time⟩ := by
  rw [Line.result?, if_pos hexpression, hvalue]
  rfl

theorem result?_of_error {failure : Failure} (hfails : calculate line.content = .error failure) :
    line.result? = none := by
  rw [Line.result?, hfails]
  split <;> rfl

theorem result?_eq_some (h : line.result? = some entry) :
    entry = ⟨line.content, entry.result, line.time⟩ ∧
      calculate line.content = .ok entry.result := by
  cases hvalue : calculate line.content with
  | error failure =>
    rw [result?_of_error hvalue] at h
    cases h
  | ok x =>
    rw [Line.result?, hvalue] at h
    split at h
    · cases h
      exact ⟨rfl, rfl⟩
    · cases h

/-- Whatever is kept has been calculated. -/
theorem exists_line_of_mem_newest (h : entry ∈ newest capacity lines) :
    ∃ line ∈ lines, entry = ⟨line.content, entry.result, line.time⟩ ∧
      calculate line.content = .ok entry.result := by
  have hmem : entry ∈ results lines := List.mem_of_mem_drop h
  obtain ⟨line, hline, hresult⟩ := List.mem_filterMap.mp hmem
  exact ⟨line, (List.rtakeWhile_suffix _ lines).mem hline, result?_eq_some hresult⟩

theorem isFinite_of_mem_newest (h : entry ∈ newest capacity lines) :
    entry.result.isFinite = true := by
  obtain ⟨line, -, -, hvalue⟩ := exists_line_of_mem_newest h
  exact isFinite_of_calculate hvalue

theorem inAlphabet_of_mem_newest (h : entry ∈ newest capacity lines) :
    ∀ c ∈ entry.expression.toList, inAlphabet c = true := by
  obtain ⟨line, -, hentry, hvalue⟩ := exists_line_of_mem_newest h
  rw [hentry]
  exact inAlphabet_of_calculate hvalue

/-- Whatever is kept can be shown. -/
theorem showable_of_mem_newest (htimes : ∀ line ∈ lines, Plain line.time) :
    ∀ entry ∈ newest capacity lines, entry.Showable := by
  intro entry hentry
  obtain ⟨line, hline, heq, -⟩ := exists_line_of_mem_newest hentry
  refine ⟨isFinite_of_mem_newest hentry, plain_of_inAlphabet (inAlphabet_of_mem_newest hentry), ?_⟩
  rw [heq]
  exact htimes line hline

end Newest

/-! ### One line -/

theorem proper_greeting : greeting.Proper := .line (.tagged (by decide) (.plain (by decide)))

theorem proper_prompt : prompt.Proper := .prompt (.tagged (by decide) (.plain (by decide)))

section Step

variable {line : Line}

/-- What a line that does not leave asks for. -/
theorem ofLine_cases (hstays : line.leaves = false) :
    (line.content = "" ∧ Request.ofLine line.text = .nothing) ∨
    (line.content = ":history" ∧ Request.ofLine line.text = .showHistory) ∨
    (line.content = ":clear" ∧ Request.ofLine line.text = .clearHistory) ∨
    (line.IsExpression ∧ Request.ofLine line.text = .calculate line.content) := by
  have hquit : (line.content == ":quit" || line.content == ":q") = false := hstays
  have hofLine : Request.ofLine line.text =
      if line.content.isEmpty then .nothing
      else if line.content == ":quit" || line.content == ":q" then .leave
      else if line.content == ":history" then .showHistory
      else if line.content == ":clear" then .clearHistory
      else .calculate line.content := rfl
  rw [hofLine, hquit]
  by_cases hblank : line.content = ""
  · exact Or.inl ⟨hblank, by simp [hblank]⟩
  by_cases hhistory : line.content = ":history"
  · exact Or.inr (Or.inl ⟨hhistory, by simp [hhistory]⟩)
  by_cases hclear : line.content = ":clear"
  · exact Or.inr (Or.inr (Or.inl ⟨hclear, by simp [hclear]⟩))
  · refine Or.inr (Or.inr (Or.inr ⟨⟨hblank, ?_⟩, by simp [hblank, hhistory, hclear]⟩))
    have hnot : line.content ≠ ":quit" ∧ line.content ≠ ":q" := by simpa using hquit
    simp [commands, hnot, hhistory, hclear]

theorem exists_history (capacity : Nat) {entries : List Entry} (h : line.content = ":history")
    (hentries : ∀ entry ∈ entries, entry.Showable) :
    ∃ item, Report.history ⟨capacity, entries⟩ = .ok item ∧ item.Proper ∧
      Reply entries line [item] := by
  by_cases hnil : entries = []
  · subst hnil
    exact ⟨_, rfl, .line (.tagged (by decide) (.plain (by decide))), .noHistory h rfl⟩
  · obtain ⟨table, htable, htabulates, hproper⟩ := Report.exists_table capacity hnil hentries
    exact ⟨.table table, htable, .table hproper, .history h hnil htabulates⟩

theorem exists_outcome (entries : List Entry) (h : line.IsExpression) :
    ∃ item, Report.outcome (calculate line.content) = .ok item ∧ item.Proper ∧
      Reply entries line [item] := by
  cases hvalue : calculate line.content with
  | ok x =>
    have hfinite := isFinite_of_calculate hvalue
    exact ⟨_, Report.number_of_isFinite hfinite _, Report.proper_value x,
      .value h hvalue (displayed_of_isFinite hfinite)⟩
  | error failure =>
    obtain ⟨kind, -, rfl⟩ := calculate_failsOnly line.content failure hvalue
    exact ⟨_, rfl, Report.proper_failureLine kind, .failure h hvalue⟩

theorem clears_of_isExpression (h : line.IsExpression) : line.clears = false := by
  rw [Line.clears, beq_eq_false_iff_ne]
  intro hclear
  exact h.2 (by simp [hclear, commands])

/-- Pushing the value of an expression makes it the newest result. -/
theorem push_newest (h : line.IsExpression) {x : Float} (hvalue : calculate line.content = .ok x)
    (capacity : Nat) (before : List Line) :
    History.push ⟨capacity, newest capacity before⟩ (.string line.content) (.double x) line.time =
      (⟨capacity, newest capacity (before ++ [line])⟩, .outcome (.ok ())) := by
  rw [newest_concat_of_not_clears (clears_of_isExpression h), result?_of_ok h hvalue]
  exact History.push_calculated _ hvalue line.time

/-- The history behind an expression holds its value, if it has one. -/
theorem keep_newest (h : line.IsExpression) (capacity : Nat) (before : List Line) :
    keep ⟨capacity, newest capacity before⟩ line.content line.time (calculate line.content) =
      ⟨capacity, newest capacity (before ++ [line])⟩ := by
  cases hvalue : calculate line.content with
  | ok x => rw [keep, push_newest h hvalue]
  | error failure =>
    rw [keep, newest_concat_of_none (clears_of_isExpression h) (result?_of_error hvalue)]

variable {ε : Type} {console : Console ε}

/-- **What a line does**: it gets its reply, and the newest results are kept. -/
theorem respond_line (hconsole : console.ShowsProper) (hstays : line.leaves = false)
    (capacity : Nat) (before : List Line) (htimes : ∀ line ∈ before, Plain line.time) :
    ∃ reply shown, Reply (newest capacity before) line reply ∧ console.Shows reply shown ∧
      respond console ⟨capacity, newest capacity before⟩ line.time (Request.ofLine line.text) =
        .ok (shown, ⟨capacity, newest capacity (before ++ [line])⟩) := by
  have hsame : line.clears = false → ¬ line.IsExpression →
      newest capacity (before ++ [line]) = newest capacity before := fun hclears hnone =>
    newest_concat_of_none hclears (if_neg hnone) capacity
  -- A blank line, a look at the history, its clearing, and an expression.
  rcases ofLine_cases hstays with ⟨hline, hrequest⟩ | ⟨hline, hrequest⟩ | ⟨hline, hrequest⟩ |
    ⟨hexpression, hrequest⟩
  · have hclears : line.clears = false := by simp [Line.clears, hline]
    refine ⟨[], [], .blank hline, .nil, ?_⟩
    rw [hrequest, hsame hclears fun h => h.1 hline]
    rfl
  · have hclears : line.clears = false := by simp [Line.clears, hline]
    obtain ⟨item, hitem, hproper, hreply⟩ :=
      exists_history capacity hline (showable_of_mem_newest htimes)
    obtain ⟨one, hprint, hshows⟩ := hconsole.print hproper
    refine ⟨[item], [one], hreply, hshows, ?_⟩
    rw [hrequest, hsame hclears fun h => h.2 (by simp [hline, commands]), respond, hitem, hprint]
    rfl
  · have hclears : line.clears = true := by simp [Line.clears, hline]
    have hproper : (Report.line "History cleared").Proper := .line (.plain (by decide))
    obtain ⟨one, hprint, hshows⟩ := hconsole.print hproper
    refine ⟨_, [one], .cleared hline, hshows, ?_⟩
    rw [hrequest, newest_concat_of_clears hclears, respond, hprint]
    rfl
  · obtain ⟨item, hitem, hproper, hreply⟩ :=
      exists_outcome (newest capacity before) hexpression
    obtain ⟨one, hprint, hshows⟩ := hconsole.print hproper
    refine ⟨[item], [one], hreply, hshows, ?_⟩
    rw [hrequest, respond, hitem, hprint, ← keep_newest hexpression]
    rfl

end Step

/-! ### A row of lines -/

section Run

variable {ε : Type} {console : Console ε} {capacity : Nat} {lines rest : List Line}

theorem converse_cons {line : Line} (hstays : line.leaves = false) {asked : Shown}
    (hasked : console.print (.ok prompt) = .ok asked) {history after : History}
    {shown : List Shown}
    (hrespond : respond console history line.time (Request.ofLine line.text) = .ok (shown, after))
    (rest : List Line) :
    converse console history (line :: rest) =
      (converse console after rest).map fun (further, final) =>
        (asked :: shown ++ further, final) := by
  have hleave : Request.ofLine line.text ≠ .leave := by
    rcases ofLine_cases hstays with ⟨-, h⟩ | ⟨-, h⟩ | ⟨-, h⟩ | ⟨-, h⟩ <;> simp [h]
  rw [converse, hasked, Interruption.ok_bind]
  split
  · next hrequest => exact absurd hrequest hleave
  · rw [hrespond, Interruption.ok_bind]
    dsimp only
    cases converse console after rest <;> rfl

/-- **What a session does while nobody leaves**: every line gets its reply, and the
    session goes on with the newest results. -/
theorem converse_append (hconsole : console.ShowsProper)
    (hstay : ∀ line ∈ lines, line.leaves = false) (before : List Line)
    (htimes : ∀ line ∈ before ++ lines, Plain line.time) :
    ∃ items shown, Dialogue capacity before lines items ∧ console.Shows items shown ∧
      ∀ rest, converse console ⟨capacity, newest capacity before⟩ (lines ++ rest) =
        (converse console ⟨capacity, newest capacity (before ++ lines)⟩ rest).map
          fun (further, final) => (shown ++ further, final) := by
  -- The earlier lines stand for the history, so they grow with each line that is heard.
  induction lines generalizing before with
  | nil =>
    refine ⟨[], [], .silence before, .nil, fun rest => ?_⟩
    rw [List.append_nil, List.nil_append]
    cases converse console ⟨capacity, newest capacity before⟩ rest <;> rfl
  | cons line lines ih =>
    have hstays := hstay line (by simp)
    obtain ⟨asked, hasked, hprompt⟩ := hconsole.print proper_prompt
    obtain ⟨reply, shown, hreply, hshows, hrespond⟩ := respond_line hconsole hstays capacity
      before fun line hline => htimes line (by simp [hline])
    obtain ⟨items, further, hdialogue, hfurther, hconverse⟩ :=
      ih (fun line hline => hstay line (by simp [hline])) (before ++ [line])
        (by simpa using htimes)
    refine ⟨prompt :: reply ++ items, asked :: shown ++ further, .line hreply hdialogue,
      (hprompt.append hshows).append hfurther, fun rest => ?_⟩
    rw [List.cons_append, converse_cons hstays hasked hrespond, hconverse]
    simp only [List.append_assoc, List.singleton_append]
    cases converse console ⟨capacity, newest capacity (before ++ line :: lines)⟩ rest with
    | ok final => simp [Except.map]
    | error interruption => rfl

/-- Whoever leaves is heard no more. -/
theorem converse_of_leaves (hleaves : ∀ line ∈ rest.head?, line.leaves = true)
    (history : History) :
    converse console history rest =
      (console.print (.ok prompt)).map fun asked => ([asked], history) := by
  cases rest with
  | nil =>
    rw [converse]
    cases console.print (.ok prompt) <;> rfl
  | cons line rest =>
    have hleave : Request.ofLine line.text = .leave := by
      have hline : (strip line.text == ":quit" || strip line.text == ":q") = true :=
        hleaves line rfl
      have hne : strip line.text ≠ "" := by
        intro hblank
        rw [hblank] at hline
        cases hline
      simp [Request.ofLine, hline, hne]
    rw [converse, hleave]
    cases console.print (.ok prompt) <;> rfl

end Run

/-! ### Sessions -/

/-- The history at the end of a session of some lines. -/
def historyAfter {ε : Type} (console : Console ε) (capacity : Nat) (lines : List Line) :
    Except (Interruption ε) History :=
  (converse console (.empty capacity) lines).map Prod.snd

section Sessions

variable {ε : Type} {console : Console ε} {before lines : List Line}

theorem converse_empty (hconsole : console.ShowsProper)
    (hstay : ∀ line ∈ before, line.leaves = false) (htimes : ∀ line ∈ before, Plain line.time)
    (capacity : Nat) :
    ∃ items shown, Dialogue capacity [] before items ∧ console.Shows items shown ∧
      ∀ rest, converse console (.empty capacity) (before ++ rest) =
        (converse console ⟨capacity, newest capacity before⟩ rest).map
          fun (further, final) => (shown ++ further, final) := by
  have hempty : History.empty capacity = ⟨capacity, newest capacity []⟩ := by
    rw [newest_nil]
    rfl
  rw [hempty]
  exact converse_append hconsole hstay [] htimes

/-- A session goes on with the newest results of the lines that it has heard. -/
theorem historyAfter_append (hconsole : console.ShowsProper)
    (hstay : ∀ line ∈ before, line.leaves = false) (htimes : ∀ line ∈ before, Plain line.time)
    (capacity : Nat) (rest : List Line) :
    historyAfter console capacity (before ++ rest) =
      (converse console ⟨capacity, newest capacity before⟩ rest).map Prod.snd := by
  obtain ⟨items, shown, -, -, hconverse⟩ := converse_empty hconsole hstay htimes capacity
  rw [historyAfter, hconverse]
  cases converse console ⟨capacity, newest capacity before⟩ rest <;> rfl

theorem historyAfter_eq (hconsole : console.ShowsProper)
    (hstay : ∀ line ∈ before, line.leaves = false) (htimes : ∀ line ∈ before, Plain line.time)
    (capacity : Nat) :
    historyAfter console capacity before = .ok ⟨capacity, newest capacity before⟩ := by
  obtain ⟨asked, hasked, -⟩ := hconsole.print proper_prompt
  have hend := historyAfter_append hconsole hstay htimes capacity []
  rw [List.append_nil, converse, hasked] at hend
  exact hend

theorem leaves_of_prefix_heard (h : before <+: heard lines) :
    ∀ line ∈ before, line.leaves = false := by
  intro line hline
  simpa using List.mem_takeWhile_imp (h.mem hline)

theorem times_of_prefix_heard (htimes : ∀ line ∈ lines, Plain line.time)
    (h : before <+: heard lines) : ∀ line ∈ before, Plain line.time := by
  intro line hline
  exact htimes line ((List.takeWhile_prefix _).mem (h.mem hline))

theorem exists_summary (capacity : Nat) {entries : List Entry} {entry : Entry}
    (hlast : entries.getLast? = some entry) (h : entry.Showable) :
    ∃ item, Report.summary? ⟨capacity, entries⟩ = some (.ok item) ∧ item.Proper ∧
      Closing entries [item] := by
  refine ⟨_, ?_, .line (.tagged (by decide) (.plain ?_)),
    .summary hlast (displayed_of_isFinite h.finite)⟩
  · rw [Report.summary?, History.last?, hlast, Option.map_some,
      Report.number_of_isFinite h.finite]
    rfl
  · simp only [plain_append]
    exact ⟨⟨⟨⟨plain_writtenInt _, by decide⟩, h.expression⟩, by decide⟩, plain_displayed _⟩

theorem exists_conclude (hconsole : console.ShowsProper) (capacity : Nat) {entries : List Entry}
    (hentries : ∀ entry ∈ entries, entry.Showable) :
    ∃ closing shown, Closing entries closing ∧ console.Shows closing shown ∧
      conclude console ⟨capacity, entries⟩ = .ok shown := by
  cases hlast : entries.getLast? with
  | none =>
    obtain rfl := List.getLast?_eq_none_iff.mp hlast
    exact ⟨[], [], .silence rfl, .nil, rfl⟩
  | some entry =>
    obtain ⟨item, hitem, hproper, hclosing⟩ :=
      exists_summary capacity hlast (hentries entry (List.mem_of_getLast? hlast))
    obtain ⟨one, hprint, hshows⟩ := hconsole.print hproper
    refine ⟨[item], [one], hclosing, hshows, ?_⟩
    rw [conclude, hitem]
    simp only [hprint, Interruption.ok_bind]
    rfl

theorem exists_hold (hconsole : console.ShowsProper) (capacity : Nat)
    (htimes : ∀ line ∈ lines, Plain line.time) :
    ∃ items closing shown, Dialogue capacity [] (heard lines) items ∧
      Closing (newest capacity (heard lines)) closing ∧
      console.Shows (greeting :: items ++ [prompt] ++ closing) shown ∧
      hold console capacity lines = .ok (shown, ⟨capacity, newest capacity (heard lines)⟩) := by
  have hleft : ∀ line ∈ (lines.dropWhile (! ·.leaves)).head?, line.leaves = true := by
    intro line hline
    have hfirst := List.head?_dropWhile_not (! ·.leaves) lines
    rw [Option.mem_def.mp hline] at hfirst
    simpa using hfirst
  have hheard := times_of_prefix_heard htimes (List.prefix_refl (heard lines))
  obtain ⟨items, shown, hdialogue, hshows, hconverse⟩ := converse_empty hconsole
    (leaves_of_prefix_heard (List.prefix_refl (heard lines))) hheard capacity
  obtain ⟨greeted, hgreeted, hgreeting⟩ := hconsole.print proper_greeting
  obtain ⟨asked, hasked, hprompt⟩ := hconsole.print proper_prompt
  obtain ⟨closing, last, hclosing, hlast, hconclude⟩ :=
    exists_conclude hconsole capacity (showable_of_mem_newest hheard)
  have hsplit : heard lines ++ lines.dropWhile (! ·.leaves) = lines :=
    List.takeWhile_append_dropWhile
  have hall := hconverse (lines.dropWhile (! ·.leaves))
  rw [hsplit, converse_of_leaves hleft, hasked] at hall
  refine ⟨items, closing, greeted :: (shown ++ [asked]) ++ last, hdialogue, hclosing,
    ((hgreeting.append hshows).append hprompt).append hlast, ?_⟩
  rw [hold, hgreeted, hall]
  simp only [Except.map, Interruption.ok_bind, hconclude]
  rfl

/-- **What a session keeps and shows** on a console that shows proper items.  Behind any
    lines that it has heard its history holds the newest of the results that came since the
    last clearing, as many as there is room for, and it goes on from this history.  No
    result is refused, and a line without one changes nothing unless it is there to clear.
    Nothing interrupts it: a greeting, a dialogue of replies and a closing reach the
    console, and all of it is shown. -/
theorem keeps_newest_results (hconsole : console.ShowsProper) (capacity : Nat)
    (lines : List Line) (htimes : ∀ line ∈ lines, Plain line.time) :
    (∀ before rest, lines = before ++ rest → before <+: heard lines →
      historyAfter console capacity before = .ok ⟨capacity, newest capacity before⟩ ∧
      historyAfter console capacity lines =
        (converse console ⟨capacity, newest capacity before⟩ rest).map Prod.snd) ∧
    (∀ before line, before ++ [line] <+: heard lines →
      (∀ x, calculate line.content = .ok x →
        (History.push ⟨capacity, newest capacity before⟩ (.string line.content) (.double x)
          line.time).2 = .outcome (.ok ())) ∧
      (∀ failure, calculate line.content = .error failure → line.clears = false →
        historyAfter console capacity (before ++ [line]) =
          historyAfter console capacity before)) ∧
    (∀ before, before <+: heard lines → ∀ entry ∈ newest capacity before,
      entry.result.isFinite = true ∧ ∀ c ∈ entry.expression.toList, inAlphabet c = true) ∧
    ∃ items closing shown, Dialogue capacity [] (heard lines) items ∧
      Closing (newest capacity (heard lines)) closing ∧
      console.Shows (greeting :: items ++ [prompt] ++ closing) shown ∧
      hold console capacity lines = .ok (shown, ⟨capacity, newest capacity (heard lines)⟩) := by
  refine ⟨?_, ?_, ?_, exists_hold hconsole capacity htimes⟩
  · intro before rest hlines hbefore
    have hstay := leaves_of_prefix_heard hbefore
    have hplain := times_of_prefix_heard htimes hbefore
    refine ⟨historyAfter_eq hconsole hstay hplain capacity, ?_⟩
    rw [hlines]
    exact historyAfter_append hconsole hstay hplain capacity rest
  · intro before line hbefore
    have hstay := leaves_of_prefix_heard hbefore
    have hplain := times_of_prefix_heard htimes hbefore
    refine ⟨?_, ?_⟩
    · intro x hvalue
      exact congrArg Prod.snd (History.push_calculated _ hvalue line.time)
    · intro failure hfails hclears
      rw [historyAfter_eq hconsole hstay hplain,
        historyAfter_eq hconsole (fun line hline => hstay line (by simp [hline]))
          (fun line hline => hplain line (by simp [hline])),
        newest_concat_of_none hclears (result?_of_error hfails)]
  · intro before hbefore entry hentry
    exact ⟨isFinite_of_mem_newest hentry, inAlphabet_of_mem_newest hentry⟩

end Sessions

theorem showsProper_terminal : Terminal.console.ShowsProper :=
  fun item _ => ⟨Terminal.render item, rfl⟩

/-- A session with a value that is forgotten, a failure, a blank line and one value more
    than there is room for; nobody hears the last line. -/
def lively : List Line :=
  ["6/4", ":clear", "1+1", "4/0", "  ", "2*3 ", ":history", " (7)", ":q", "9"].map
    fun text => ⟨text, "2024-01-02T03:04:05.678901+00:00"⟩

theorem keeps_newest_results_lively :
    (historyAfter Terminal.console 2 (lively.take 7)).toOption.map
      (fun history => history.entries.map Entry.expression) = some ["1+1", "2*3"] ∧
    ∃ shown history, hold Terminal.console 2 lively = .ok (shown, history) ∧
      history.entries.map Entry.expression = ["2*3", "(7)"] := by
  obtain ⟨hkept, -, -, items, closing, shown, -, -, -, hhold⟩ :=
    keeps_newest_results showsProper_terminal 2 lively (by decide +kernel)
  obtain ⟨hhistory, -⟩ := hkept (lively.take 7) (lively.drop 7) rfl
    ⟨[⟨" (7)", "2024-01-02T03:04:05.678901+00:00"⟩], by decide +kernel⟩
  refine ⟨?_, shown, _, hhold, by decide +kernel⟩
  rw [hhistory]
  decide +kernel

end Session

end Reckoner
