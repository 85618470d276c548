/-
  Reckoner/Proofs/Items.lean
  ==========================
  **What a console can show.**  A console reads markup, and fails where a style is
  ended that has not begun.  Whoever puts a text between two tags must therefore know
  that the text holds no bracket of its own.  A line whose tags pair up and a table of
  plain texts are proper items (`Item.Proper`), and all that is asked of a console is
  that it shows these (`Console.ShowsProper`).

  The texts of numbers are plain, and so is all that a failure says.  An expression is
  plain if it is of the alphabet, and the time of an entry is the clock's affair.  From
  entries of this sort (`Entry.Showable`) comes a proper table, with one row for each of
  them in order (`Report.exists_table`).
-/
import Reckoner.Proofs.Alphabet
import Reckoner.Proofs.Printing
import Reckoner.Report

namespace Reckoner

open Reckoner.Number

/-! ### Plain texts -/

/-- A printable character of ASCII that is no bracket and no backslash, so that it stands
    for itself in markup. -/
def isPlain (c : Char) : Bool :=
  ' ' ≤ c && c ≤ '~' && c != '[' && c != '\\' && c != ']'

def Plain (text : String) : Prop := text.toList.all isPlain = true

instance (text : String) : Decidable (Plain text) :=
  inferInstanceAs (Decidable (_ = true))

theorem plain_append {a b : String} : Plain (a ++ b) ↔ Plain a ∧ Plain b := by
  simp only [Plain, String.toList_append, List.all_append, Bool.and_eq_true]

theorem plain_ofList {cs : List Char} : Plain (String.ofList cs) ↔ cs.all isPlain = true := by
  rw [Plain, String.toList_ofList]

theorem isPlain_of_inAlphabet {c : Char} (h : inAlphabet c = true) : isPlain c = true := by
  have hall : alphabet.all isPlain = true := by decide
  exact List.all_eq_true.mp hall c (mem_alphabet.mpr h)

theorem plain_of_inAlphabet {text : String} (h : ∀ c ∈ text.toList, inAlphabet c = true) :
    Plain text :=
  List.all_eq_true.mpr fun c hc => isPlain_of_inAlphabet (h c hc)

theorem all_isPlain_of_isDigit {cs : List Char} (h : ∀ c ∈ cs, c.isDigit = true) :
    cs.all isPlain = true :=
  List.all_eq_true.mpr fun c hc =>
    isPlain_of_inAlphabet (mem_alphabet.mp (mem_alphabet_of_isDigit (h c hc)))

theorem FailureKind.plain_name (kind : FailureKind) : Plain kind.name := by
  cases kind <;> decide

theorem FailureKind.plain_message (kind : FailureKind) : Plain kind.message := by
  cases kind <;> decide

/-! ### Numbers as plain texts -/

namespace Number

variable {digits : List Char}

theorem all_isPlain_zeros (n : Nat) : (zeros n).all isPlain = true :=
  all_isPlain_of_isDigit fun _ => isDigit_zeros

theorem all_isPlain_digitsOf (n : Nat) : (digitsOf n).all isPlain = true :=
  all_isPlain_of_isDigit fun _ => isDigit_digitsOf

theorem all_isPlain_writePositional (h : digits.all isPlain = true) (point : Int) :
    (writePositional digits point).all isPlain = true := by
  have hmarks : isPlain '0' = true ∧ isPlain '.' = true := by decide
  rw [writePositional]
  split
  · simp [hmarks, all_isPlain_zeros, h]
  · dsimp only
    split
    · simp [hmarks, all_isPlain_zeros, h]
    · rw [← List.take_append_drop point.toNat digits, List.all_append, Bool.and_eq_true] at h
      simp [hmarks, h]

theorem all_isPlain_writeScientific (h : digits.all isPlain = true) (power : Int) :
    (writeScientific digits power).all isPlain = true := by
  have hmarks : isPlain '.' = true ∧ isPlain 'e' = true ∧ isPlain '-' = true ∧
      isPlain '+' = true := by decide
  have hsign : isPlain (if power < 0 then '-' else '+') = true := by
    split <;> simp [hmarks]
  have hplaces : (zeros (2 - (digitsOf power.natAbs).length) ++ digitsOf power.natAbs).all
      isPlain = true := by
    simp [all_isPlain_zeros, all_isPlain_digitsOf]
  rcases digits with _ | ⟨c, _ | ⟨c', cs⟩⟩
  · simp [writeScientific, hmarks, hsign, hplaces]
  · simpa [writeScientific, hmarks, hsign, hplaces] using h
  · simpa [writeScientific, hmarks, hsign, hplaces] using h

theorem Decimal.all_isPlain_write (d : Decimal) : d.write.all isPlain = true := by
  have hdigits : d.digits.all isPlain = true := all_isPlain_of_isDigit Decimal.isDigit_digits
  rw [d.write_eq]
  split
  · exact all_isPlain_writePositional hdigits _
  · exact all_isPlain_writeScientific hdigits _

theorem plain_writtenInt (i : Int) : Plain (writtenInt i) := by
  rw [writtenInt, plain_append, plain_ofList]
  refine ⟨?_, all_isPlain_digitsOf _⟩
  split <;> decide

theorem plain_written (x : Float) : Plain (written x) := by
  have hsign : ∀ s, Plain (signText s) := by
    intro s
    cases s <;> decide
  rw [written]
  split
  · decide
  · exact plain_append.mpr ⟨hsign _, by decide⟩
  · exact plain_append.mpr ⟨hsign _, by decide⟩
  · exact plain_append.mpr ⟨hsign _, plain_ofList.mpr (Decimal.all_isPlain_write _)⟩

theorem plain_displayed (x : Float) : Plain (displayed x) := by
  rw [displayed]
  split
  · exact plain_writtenInt _
  · exact plain_written x

end Number

/-- **A finite number can be shown.** -/
theorem displayed_of_isFinite {x : Float} (h : x.isFinite = true) :
    Value.displayed (.double x) = .ok (displayed x) := by
  rw [Value.displayed, not_isNaN (Or.inl h), not_isInf h]
  rfl

/-! ### Proper items -/

/-- The styles that the calculator names. -/
def styles : List String := ["bold", "bold green", "dim", "green", "red", "yellow"]

/-- Markup in which every style that is begun is ended, and no other. -/
inductive WellTagged : String → Prop where
  | plain {text : String} : Plain text → WellTagged text
  | tagged {style text : String} : style ∈ styles → WellTagged text →
      WellTagged (tagged style text)
  | append {first second : String} : WellTagged first → WellTagged second →
      WellTagged (first ++ second)

/-- A table of plain texts, with a cell for each column in every row. -/
structure Table.Proper (table : Table) : Prop where
  title : Plain table.title
  headingStyle : table.headingStyle ∈ styles
  columns : ∀ column ∈ table.columns,
    Plain column.heading ∧ ∀ style ∈ column.style, style ∈ styles
  rows : ∀ row ∈ table.rows, row.length = table.columns.length ∧ ∀ cell ∈ row, Plain cell

inductive Item.Proper : Item → Prop where
  | line {markup : String} {coloured : Bool} : WellTagged markup →
      Item.Proper (.line markup coloured)
  | prompt {markup : String} : WellTagged markup → Item.Proper (.prompt markup)
  | table {table : Table} : table.Proper → Item.Proper (.table table)

/-- A console that understands markup and whose stream takes every character shows all
    proper items. -/
def Console.ShowsProper {ε : Type} (console : Console ε) : Prop :=
  ∀ item, item.Proper → ∃ text, console.render item = .ok text

/-- A console was given items in order, and these are the texts that it made of them. -/
structure Console.Shows {ε : Type} (console : Console ε) (items : List Item)
    (shown : List Shown) : Prop where
  items_eq : shown.map Shown.item = items
  rendered : ∀ one ∈ shown, console.render one.item = .ok one.text

@[simp] theorem Interruption.ok_bind {ε α β : Type} (a : α)
    (f : α → Except (Interruption ε) β) :
    ((.ok a : Except (Interruption ε) α) >>= f) = f a := rfl

namespace Console

variable {ε : Type} {console : Console ε} {items further : List Item} {shown next : List Shown}

theorem Shows.nil : console.Shows [] [] := ⟨rfl, nofun⟩

theorem Shows.append (h : console.Shows items shown) (h' : console.Shows further next) :
    console.Shows (items ++ further) (shown ++ next) := by
  refine ⟨?_, ?_⟩
  · rw [List.map_append, h.items_eq, h'.items_eq]
  · intro one hone
    rcases List.mem_append.mp hone with hone | hone
    · exact h.rendered one hone
    · exact h'.rendered one hone

/-- **A proper item is shown.** -/
theorem ShowsProper.print (h : console.ShowsProper) {item : Item} (hitem : item.Proper) :
    ∃ one, console.print (.ok item) = .ok one ∧ console.Shows [item] [one] := by
  obtain ⟨text, htext⟩ := h item hitem
  refine ⟨⟨item, text⟩, ?_, rfl, ?_⟩
  · rw [Console.print, htext]
  · intro one hone
    rw [List.mem_singleton.mp hone]
    exact htext

end Console

/-! ### Entries -/

/-- An entry that can be shown in a table. -/
structure Entry.Showable (entry : Entry) : Prop where
  finite : entry.result.isFinite = true
  expression : Plain entry.expression
  time : Plain entry.time

namespace Report

variable {entry : Entry} {entries : List Entry}

/-- A table that shows entries: one row for each of them, numbered from one, and no other
    rows.  The cells are the number, the expression, the result and the time. -/
structure Tabulates (entries : List Entry) (table : Table) : Prop where
  headings : table.columns.map Column.heading = ["#", "Expression", "Result", "Time"]
  length_eq : table.rows.length = entries.length
  row : ∀ index entry, entries[index]? = some entry →
    ∃ shown, Value.displayed (.double entry.result) = .ok shown ∧ table.rows[index]? =
      some [writtenInt (index + 1 : Nat), entry.expression, shown, entry.time]

theorem number_of_isFinite {x : Float} (h : x.isFinite = true) (markup : String → String) :
    number x markup = .ok (line (markup (displayed x))) := by
  rw [number, displayed_of_isFinite h]
  rfl

theorem rowsFrom_eq (h : ∀ entry ∈ entries, entry.result.isFinite = true) (number : Nat) :
    rowsFrom number entries = .ok (entries.mapIdx fun index entry =>
      [writtenInt (number + index : Nat), entry.expression, displayed entry.result,
        entry.time]) := by
  induction entries generalizing number with
  | nil => rfl
  | cons entry entries ih =>
    have hcells : cells number entry =
        .ok [writtenInt number, entry.expression, displayed entry.result, entry.time] := by
      rw [cells, displayed_of_isFinite (h entry (by simp))]
      rfl
    rw [rowsFrom, hcells, ih fun entry hentry => h entry (by simp [hentry])]
    simp only [List.mapIdx_cons, Nat.add_zero, Nat.add_assoc, Nat.add_comm 1]
    rfl

/-- **A history of entries that can be shown is a proper table of them.** -/
theorem exists_table (capacity : Nat) (hne : entries ≠ [])
    (h : ∀ entry ∈ entries, entry.Showable) :
    ∃ table, history ⟨capacity, entries⟩ = .ok (.table table) ∧ Tabulates entries table ∧
      table.Proper := by
  have hfinite : ∀ entry ∈ entries, entry.result.isFinite = true :=
    fun entry hentry => (h entry hentry).finite
  refine ⟨⟨"History", "bold", columns, entries.mapIdx fun index entry =>
    [writtenInt (1 + index : Nat), entry.expression, displayed entry.result, entry.time]⟩,
    ?_, ?_, ?_⟩
  · rw [history]
    split
    · next hnil => exact absurd hnil hne
    · rw [rowsFrom_eq hfinite]
      rfl
  · refine ⟨rfl, List.length_mapIdx, ?_⟩
    intro index entry hentry
    refine ⟨displayed entry.result,
      displayed_of_isFinite (hfinite entry (List.mem_of_getElem? hentry)), ?_⟩
    simp [hentry, Nat.add_comm]
  · have hcolumns : ∀ column ∈ columns,
        Plain column.heading ∧ ∀ style ∈ column.style, style ∈ styles := by decide
    refine ⟨(by decide : Plain "History"), (by decide : "bold" ∈ styles), hcolumns, ?_⟩
    intro row hrow
    obtain ⟨index, hindex, rfl⟩ := List.mem_mapIdx.mp hrow
    have hentry := h entries[index] (List.getElem_mem hindex)
    refine ⟨rfl, ?_⟩
    simp [plain_writtenInt, plain_displayed, hentry.expression, hentry.time]

/-! ### Lines -/

theorem proper_value (x : Float) : (line (tagged "bold green" (displayed x))).Proper :=
  .line (.tagged (by decide) (.plain (plain_displayed x)))

theorem proper_failureLine (kind : FailureKind) : (failureLine (.of kind)).Proper := by
  have hmark : WellTagged (tagged "red" "Error") := .tagged (by decide) (.plain (by decide))
  have hkind : WellTagged (tagged "dim" ("(" ++ kind.name ++ ")")) := by
    refine .tagged (by decide) (.plain ?_)
    rw [plain_append, plain_append]
    exact ⟨⟨by decide, kind.plain_name⟩, by decide⟩
  exact .line ((((hmark.append (.plain (by decide))).append (.plain kind.plain_message)).append
    (.plain (by decide))).append hkind)

end Report

end Reckoner
