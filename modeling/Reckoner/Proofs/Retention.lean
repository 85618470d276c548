/-
  Reckoner/Proofs/Retention.lean
  ==============================
  **What a history keeps.**  A history is used through operations of every kind, in
  any order and with any arguments.  What one of them can do is said once, as a
  relation (`Effect`): an accepted push adds its entry at the end and takes the oldest
  one away if there was no room, a removal takes one entry out, a clearing takes all,
  and nothing else changes anything.

  From this follows by induction what a whole row of operations leaves
  (`retention`):

    * never more entries than the capacity;
    * only entries of accepted pushes, in the order of these and none twice;
    * only expressions with something in them and no blanks around it, and only finite
      results, of an integer the double nearest to it;
    * where nothing has been removed since the last clearing, exactly the newest of the
      entries accepted since, as many as there is room for.
-/
import Mathlib.Data.List.DropRight
import Reckoner.History.Operation
import Reckoner.Proofs.Nearest

namespace Reckoner

open Reckoner.Number Reckoner.Text

/-! ### Blanks around a text -/

namespace Text

variable {blank : Char → Bool} {cs : List Char}

theorem trim_eq_nil_iff : trim blank cs = [] ↔ ∀ c ∈ cs, blank c = true := by
  show List.rdropWhile blank (cs.dropWhile blank) = [] ↔ _
  rw [List.rdropWhile_eq_nil_iff, ← List.dropWhile_eq_nil_iff, List.dropWhile_idempotent,
    List.dropWhile_eq_nil_iff]

/-- What is trimmed begins with no blank, so it has none to lose. -/
theorem dropWhile_trim (blank : Char → Bool) (cs : List Char) :
    (trim blank cs).dropWhile blank = trim blank cs := by
  have hprefix : trim blank cs <+: cs.dropWhile blank := List.rdropWhile_prefix blank _
  cases htrim : trim blank cs with
  | nil => rfl
  | cons c rest =>
    rw [htrim] at hprefix
    obtain ⟨lost, hlost⟩ := hprefix
    have hfirst := List.head?_dropWhile_not blank cs
    rw [← hlost] at hfirst
    have hc : blank c = false := by simpa using hfirst
    exact List.dropWhile_cons_of_neg (by simp [hc])

/-- What is trimmed does not end in a blank. -/
theorem not_blank_of_getLast?_trim {c : Char} (h : (trim blank cs).getLast? = some c) :
    blank c = false := by
  have hne : trim blank cs ≠ [] := by
    intro hnil
    rw [hnil] at h
    cases h
  have hlast : (trim blank cs).getLast hne = c := List.getLast_of_getLast?_eq_some h
  have hnot : ¬ blank ((trim blank cs).getLast hne) = true :=
    List.rdropWhile_last_not blank (cs.dropWhile blank) hne
  rw [hlast] at hnot
  exact Bool.eq_false_iff.mpr hnot

theorem trim_trim (blank : Char → Bool) (cs : List Char) :
    trim blank (trim blank cs) = trim blank cs := by
  show List.rdropWhile blank ((trim blank cs).dropWhile blank) = trim blank cs
  rw [dropWhile_trim]
  exact List.rdropWhile_idempotent blank (cs.dropWhile blank)

theorem strip_strip (text : String) : strip (strip text) = strip text := by
  rw [strip, strip, String.toList_ofList, trim_trim]

theorem allBlank_iff {text : String} : allBlank text = true ↔ strip text = "" := by
  rw [allBlank, List.all_eq_true, ← trim_eq_nil_iff, strip, ← String.toList_inj]
  simp

theorem allBlank_strip (text : String) : allBlank (strip text) = allBlank text := by
  rw [Bool.eq_iff_iff, allBlank_iff, allBlank_iff, strip_strip]

end Text

namespace History

/-! ### The newest of a list -/

section Latest

variable {α : Type} {n : Nat} {xs ys : List α}

theorem latest_of_length_le (h : xs.length ≤ n) : latest n xs = xs := by
  rw [latest, Nat.sub_eq_zero_of_le h, List.drop_zero]

theorem length_latest (n : Nat) (xs : List α) : (latest n xs).length = min xs.length n := by
  rw [latest, List.length_drop]
  omega

theorem latest_suffix (n : Nat) (xs : List α) : latest n xs <:+ xs :=
  List.drop_suffix _ xs

/-- With room for one at least, one more makes the oldest go where there is no room. -/
theorem latest_concat (hn : 0 < n) (hle : xs.length ≤ n) (x : α) :
    latest n (xs ++ [x]) = (if xs.length = n then xs.tail else xs) ++ [x] := by
  rw [latest, List.length_append, List.length_singleton]
  split
  · next hfull =>
    obtain ⟨y, ys, rfl⟩ := List.exists_cons_of_length_pos (by omega : 0 < xs.length)
    have hone : (y :: ys).length + 1 - n = 1 := by omega
    rw [hone]
    rfl
  · have hzero : xs.length + 1 - n = 0 := by omega
    rw [hzero, List.drop_zero]

/-- What has gone is not missed when more come. -/
theorem latest_latest_append (n : Nat) (xs ys : List α) :
    latest n (latest n xs ++ ys) = latest n (xs ++ ys) := by
  have hlength := length_latest n xs
  have hdrop : latest n xs ++ ys = (xs ++ ys).drop (xs.length - n) :=
    (List.drop_append_of_le_length (by omega)).symm
  rw [latest, hdrop, List.drop_drop, latest]
  congr 1
  simp only [List.length_drop, List.length_append]
  omega

end Latest

/-! ### Exchanges -/

/-- An operation and the reply to it. -/
structure Exchange where
  operation : Operation
  reply : Reply

/-- Whether a reply grants what an operation asked for. -/
def Reply.granted : Reply → Bool
  | .outcome (.ok ()) => true
  | _ => false

/-- The entry of a push that was accepted: the expression without the blanks around it,
    and the result as a double. -/
def Exchange.accepted? : Exchange → Option Entry
  | ⟨.push (.string text) (.integer i) time, .outcome (.ok ())⟩ =>
    some ⟨strip text, ofInt i, time⟩
  | ⟨.push (.string text) (.double x) time, .outcome (.ok ())⟩ => some ⟨strip text, x, time⟩
  | _ => none

/-- A row of operations, each with the reply that it gets. -/
def exchanges (history : History) : List Operation → List Exchange
  | [] => []
  | operation :: rest =>
    ⟨operation, (history.perform operation).2⟩ ::
      exchanges (history.perform operation).1 rest

/-- The entries of all pushes that are accepted, in order. -/
def accepted (history : History) (operations : List Operation) : List Entry :=
  (history.exchanges operations).filterMap Exchange.accepted?

/-- No removal is granted. -/
def NothingRemoved (history : History) (operations : List Operation) : Prop :=
  ∀ exchange ∈ history.exchanges operations,
    ∀ index, exchange.operation = .remove index → exchange.reply.granted = false

/-! ### One operation -/

/-- An entry whose expression has something in it and no blanks around that, and whose
    result is finite. -/
structure Proper (entry : Entry) : Prop where
  shown : allBlank entry.expression = false
  stripped : strip entry.expression = entry.expression
  finite : entry.result.isFinite = true

/-- What an exchange makes of the entries of a history. -/
inductive Effect (history : History) : Exchange → List Entry → Prop where
  | accepted {expression result : Value} {time : String} {entry : Entry} :
      Exchange.accepted? ⟨.push expression result time, .outcome (.ok ())⟩ = some entry →
      Proper entry →
      Effect history ⟨.push expression result time, .outcome (.ok ())⟩
        ((if history.count = history.capacity then history.entries.tail else history.entries) ++
          [entry])
  | refusedPush {expression result : Value} {time : String} {reply : Reply} :
      reply.granted = false →
      Effect history ⟨.push expression result time, reply⟩ history.entries
  | removed {i : Nat} : i < history.count →
      Effect history ⟨.remove (.integer i), .outcome (.ok ())⟩ (history.entries.eraseIdx i)
  | refusedRemoval {index : Value} {reply : Reply} :
      (∀ i : Nat, i < history.count → index ≠ .integer i) → reply.granted = false →
      Effect history ⟨.remove index, reply⟩ history.entries
  | cleared : Effect history ⟨.clear, .cleared⟩ []
  | got {i : Nat} : i < history.count →
      Effect history ⟨.get (.integer i), .entry history.entries[i]?⟩ history.entries
  | gotNothing {index : Value} : (∀ i : Nat, i < history.count → index ≠ .integer i) →
      Effect history ⟨.get index, .entry none⟩ history.entries
  | all : Effect history ⟨.all, .entries history.entries⟩ history.entries
  | last : Effect history ⟨.last, .entry history.entries.getLast?⟩ history.entries
  | counted : Effect history ⟨.count, .number history.entries.length⟩ history.entries

theorem keep_eq_ok {typed text : String} {x y : Float}
    (h : accept.keep typed y = .ok (text, x)) :
    text = strip typed ∧ x = y ∧ x.isFinite = true := by
  rw [accept.keep] at h
  split at h
  · next hfinite =>
    cases h
    exact ⟨rfl, rfl, hfinite⟩
  · cases h

theorem nearestDouble_map {α : Type} {i : Int} {f : Float → α} {a : α}
    (h : (nearestDouble i).map f = .ok a) : f (ofInt i) = a := by
  by_cases hfinite : (ofInt i).isFinite = true
  · have hnearest : nearestDouble i = .ok (ofInt i) := if_pos hfinite
    rw [hnearest] at h
    exact Except.ok.inj h
  · have hnearest : nearestDouble i = .error .integerTooLarge := if_neg hfinite
    rw [hnearest] at h
    cases h

/-- **Which pushes are accepted**: those of a text with something in it, whose result
    is an integer or a double, and finite as a double. -/
theorem accept_eq_ok {expression result : Value} {text : String} {x : Float}
    (h : accept expression result = .ok (.ok (text, x))) :
    ∃ typed, expression = .string typed ∧ text = strip typed ∧ allBlank typed = false ∧
      x.isFinite = true ∧ (result = .double x ∨ ∃ i, result = .integer i ∧ x = ofInt i) := by
  unfold accept at h
  split at h
  · next typed =>
    split at h
    · cases h
    · next hblank =>
      have hshown : allBlank typed = false := by simpa using hblank
      refine ⟨typed, rfl, ?_⟩
      split at h
      · cases h
      · next i =>
        obtain ⟨rfl, rfl, hfinite⟩ := keep_eq_ok (nearestDouble_map h)
        exact ⟨rfl, hshown, hfinite, Or.inr ⟨i, rfl, rfl⟩⟩
      · next y =>
        obtain ⟨rfl, rfl, hfinite⟩ := keep_eq_ok (Except.ok.inj h)
        exact ⟨rfl, hshown, hfinite, Or.inl rfl⟩
      · cases h
  · cases h

theorem accepted?_of_accept {expression result : Value} {text : String} {x : Float}
    (h : accept expression result = .ok (.ok (text, x))) (time : String) :
    Exchange.accepted? ⟨.push expression result time, .outcome (.ok ())⟩ =
      some ⟨text, x, time⟩ ∧ Proper ⟨text, x, time⟩ := by
  obtain ⟨typed, rfl, rfl, hshown, hfinite, hresult⟩ := accept_eq_ok h
  have hproper : Proper ⟨strip typed, x, time⟩ :=
    ⟨by rw [allBlank_strip, hshown], strip_strip typed, hfinite⟩
  rcases hresult with rfl | ⟨i, rfl, rfl⟩
  · exact ⟨rfl, hproper⟩
  · exact ⟨rfl, hproper⟩

theorem position?_cases (history : History) (index : Value) :
    (∃ i : Nat, i < history.count ∧ index = .integer i ∧ history.position? index = some i) ∨
      ((∀ i : Nat, i < history.count → index ≠ .integer i) ∧ history.position? index = none) := by
  cases index with
  | integer i =>
    rw [position?]
    by_cases hvalid : 0 ≤ i ∧ i < history.count
    · refine Or.inl ⟨i.toNat, by omega, ?_, ?_⟩
      · rw [Int.toNat_of_nonneg hvalid.1]
      · rw [if_pos (by simpa using hvalid)]
    · refine Or.inr ⟨?_, ?_⟩
      · rintro j hj heq
        cases heq
        exact hvalid ⟨by omega, by omega⟩
      · rw [if_neg (by simpa using hvalid)]
  | nothing => exact Or.inr ⟨nofun, rfl⟩
  | truth b => exact Or.inr ⟨nofun, rfl⟩
  | double x => exact Or.inr ⟨nofun, rfl⟩
  | string text => exact Or.inr ⟨nofun, rfl⟩
  | list items => exact Or.inr ⟨nofun, rfl⟩

/-- No operation touches the capacity. -/
theorem capacity_perform (history : History) (operation : Operation) :
    (history.perform operation).1.capacity = history.capacity := by
  cases operation with
  | push expression result time =>
    rw [perform, push]
    split <;> rfl
  | remove index =>
    rw [perform, remove, erase]
    cases history.position? index <;> rfl
  | get index => rfl
  | clear => rfl
  | all => rfl
  | last => rfl
  | count => rfl

/-- What is true of every history that is used through operations alone: it has room
    for one entry at least and not more entries than room, and all of them are proper. -/
structure Sound (history : History) : Prop where
  room : 0 < history.capacity
  count_le : history.count ≤ history.capacity
  proper : ∀ entry ∈ history.entries, Proper entry

variable {history : History}

/-- **What an operation does.** -/
theorem Sound.effect (hsound : history.Sound) (operation : Operation) :
    Effect history ⟨operation, (history.perform operation).2⟩
      (history.perform operation).1.entries := by
  cases operation with
  | push expression result time =>
    rw [perform, push]
    split
    · next text x haccept =>
      obtain ⟨hentry, hproper⟩ := accepted?_of_accept haccept time
      have hadded : (history.add ⟨text, x, time⟩).entries =
          (if history.count = history.capacity then history.entries.tail else history.entries) ++
            [⟨text, x, time⟩] := latest_concat hsound.room hsound.count_le _
      rw [hadded]
      exact .accepted hentry hproper
    · exact .refusedPush rfl
    · exact .refusedPush rfl
  | remove index =>
    rw [perform, remove, erase]
    rcases history.position?_cases index with ⟨i, hi, rfl, hposition⟩ | ⟨hnone, hposition⟩
    · rw [hposition]
      exact .removed hi
    · rw [hposition]
      exact .refusedRemoval hnone rfl
  | get index =>
    rw [perform, get?]
    rcases history.position?_cases index with ⟨i, hi, rfl, hposition⟩ | ⟨hnone, hposition⟩
    · rw [hposition]
      exact .got hi
    · rw [hposition]
      exact .gotNothing hnone
  | clear => exact .cleared
  | all => exact .all
  | last => exact .last
  | count => exact .counted

theorem accepted?_of_refused {operation : Operation} {reply : Reply}
    (h : reply.granted = false) : Exchange.accepted? ⟨operation, reply⟩ = none := by
  unfold Exchange.accepted?
  split
  · next heq => cases heq; cases h
  · next heq => cases heq; cases h
  · rfl

/-- The four things that can become of the entries. -/
inductive Change (history : History) (exchange : Exchange) : List Entry → Prop where
  | added {entry : Entry} : exchange.accepted? = some entry → Proper entry →
      Change history exchange (latest history.capacity (history.entries ++ [entry]))
  | removed {index : Value} (i : Nat) : exchange.accepted? = none →
      exchange.operation = .remove index → exchange.reply.granted = true →
      Change history exchange (history.entries.eraseIdx i)
  | cleared : exchange.accepted? = none → exchange.operation = .clear →
      Change history exchange []
  | nothing : exchange.accepted? = none → Change history exchange history.entries

theorem Sound.change (hsound : history.Sound) {exchange : Exchange} {entries : List Entry}
    (h : Effect history exchange entries) : Change history exchange entries := by
  cases h with
  | @accepted expression result time entry hentry hproper =>
    have hadded := latest_concat hsound.room hsound.count_le entry
    have hchange : Change history _ (latest history.capacity (history.entries ++ [entry])) :=
      .added hentry hproper
    rw [hadded] at hchange
    exact hchange
  | removed hi => exact .removed _ rfl rfl rfl
  | cleared => exact .cleared rfl rfl
  | refusedPush hrefused => exact .nothing (accepted?_of_refused hrefused)
  | refusedRemoval hnone hrefused => exact .nothing rfl
  | got hi => exact .nothing rfl
  | gotNothing hnone => exact .nothing rfl
  | all => exact .nothing rfl
  | last => exact .nothing rfl
  | counted => exact .nothing rfl

section Change

variable {exchange : Exchange} {entries : List Entry}

/-- What an accepted push adds comes last, and beside it an operation only takes away. -/
theorem Change.sublist (h : Change history exchange entries) :
    entries.Sublist (history.entries ++ exchange.accepted?.toList) := by
  have hself : ∀ {added : List Entry}, history.entries.Sublist (history.entries ++ added) :=
    List.sublist_append_left _ _
  cases h with
  | added hentry hproper =>
    rw [hentry]
    exact (latest_suffix _ _).sublist
  | removed i hnone hremove hgranted => exact (List.eraseIdx_sublist _ i).trans hself
  | cleared hnone hclear => exact List.nil_sublist _
  | nothing hnone => exact hself

theorem Change.proper_of_accepted? (h : Change history exchange entries) :
    ∀ entry ∈ exchange.accepted?, Proper entry := by
  intro entry hentry
  cases h with
  | added hadded hproper =>
    rw [hadded] at hentry
    cases hentry
    exact hproper
  | removed i hnone hremove hgranted => rw [hnone] at hentry; cases hentry
  | cleared hnone hclear => rw [hnone] at hentry; cases hentry
  | nothing hnone => rw [hnone] at hentry; cases hentry

theorem Change.length_le (h : Change history exchange entries)
    (hcount : history.count ≤ history.capacity) : entries.length ≤ history.capacity := by
  cases h with
  | added hentry hproper =>
    rw [length_latest]
    exact Nat.min_le_right _ _
  | removed i hnone hremove hgranted => exact (List.length_eraseIdx_le _ i).trans hcount
  | cleared hnone hclear => exact Nat.zero_le _
  | nothing hnone => exact hcount

/-- Without a removal or a clearing the newest stay. -/
theorem Change.eq_latest (h : Change history exchange entries)
    (hcount : history.count ≤ history.capacity) (hclear : exchange.operation ≠ .clear)
    (hremove : ∀ index, exchange.operation = .remove index → exchange.reply.granted = false) :
    entries = latest history.capacity (history.entries ++ exchange.accepted?.toList) := by
  cases h with
  | added hentry hproper =>
    rw [hentry]
    rfl
  | removed i hnone hindex hgranted =>
    rw [hremove _ hindex] at hgranted
    cases hgranted
  | cleared hnone hcleared => exact absurd hcleared hclear
  | nothing hnone =>
    rw [hnone, Option.toList_none, List.append_nil, latest_of_length_le hcount]

end Change

/-- **One operation keeps a history sound.** -/
theorem Sound.perform (hsound : history.Sound) (operation : Operation) :
    (history.perform operation).1.Sound := by
  have hchange := hsound.change (hsound.effect operation)
  refine ⟨?_, ?_, ?_⟩
  · rw [capacity_perform]
    exact hsound.room
  · rw [capacity_perform]
    exact hchange.length_le hsound.count_le
  · intro entry hentry
    rcases List.mem_append.mp (hchange.sublist.mem hentry) with hold | hnew
    · exact hsound.proper entry hold
    · exact hchange.proper_of_accepted? entry (by simpa using hnew)

/-! ### A row of operations -/

theorem performAll_append (history : History) (before since : List Operation) :
    history.performAll (before ++ since) = (history.performAll before).performAll since :=
  List.foldl_append

theorem accepted_cons (history : History) (operation : Operation) (rest : List Operation) :
    history.accepted (operation :: rest) =
      (Exchange.accepted? ⟨operation, (history.perform operation).2⟩).toList ++
        (history.perform operation).1.accepted rest := by
  rw [accepted, exchanges, List.filterMap_cons]
  cases Exchange.accepted? ⟨operation, (history.perform operation).2⟩ <;> rfl

theorem capacity_performAll (history : History) (operations : List Operation) :
    (history.performAll operations).capacity = history.capacity := by
  induction operations generalizing history with
  | nil => rfl
  | cons operation rest ih => exact (ih _).trans (history.capacity_perform operation)

theorem Sound.performAll (hsound : history.Sound) (operations : List Operation) :
    (history.performAll operations).Sound := by
  induction operations generalizing history with
  | nil => exact hsound
  | cons operation rest ih => exact ih (hsound.perform operation)

/-- **Only what was accepted is kept**, in the order in which it was, and only once. -/
theorem Sound.sublist_accepted (hsound : history.Sound) (operations : List Operation) :
    (history.performAll operations).entries.Sublist
      (history.entries ++ history.accepted operations) := by
  induction operations generalizing history with
  | nil => exact List.sublist_append_left _ _
  | cons operation rest ih =>
    have hchange := hsound.change (hsound.effect operation)
    rw [accepted_cons, ← List.append_assoc]
    exact (ih (hsound.perform operation)).trans
      (hchange.sublist.append (List.Sublist.refl _))

/-- Whatever is accepted is proper. -/
theorem Sound.proper_of_accepted? (hsound : history.Sound) {operations : List Operation}
    {exchange : Exchange} (hexchange : exchange ∈ history.exchanges operations) {entry : Entry}
    (hentry : exchange.accepted? = some entry) : Proper entry := by
  induction operations generalizing history with
  | nil => cases hexchange
  | cons operation rest ih =>
    rcases List.mem_cons.mp hexchange with rfl | hlater
    · exact (hsound.change (hsound.effect operation)).proper_of_accepted? entry hentry
    · exact ih (hsound.perform operation) hlater

/-- **The newest are kept** for as long as nothing is removed or cleared. -/
theorem Sound.eq_latest (hsound : history.Sound) {operations : List Operation}
    (hclear : Operation.clear ∉ operations) (hremoved : history.NothingRemoved operations) :
    (history.performAll operations).entries =
      latest history.capacity (history.entries ++ history.accepted operations) := by
  -- The newest of what one operation leaves and of what comes later are the newest of all.
  induction operations generalizing history with
  | nil =>
    have hnone : history.accepted [] = [] := rfl
    rw [hnone, List.append_nil, latest_of_length_le hsound.count_le]
    rfl
  | cons operation rest ih =>
    have hfirst := (hsound.change (hsound.effect operation)).eq_latest hsound.count_le
      (fun heq => hclear (by simp [← heq])) (hremoved _ (List.mem_cons_self ..))
    have hrest := ih (hsound.perform operation) (fun hmem => hclear (by simp [hmem]))
      fun exchange hexchange => hremoved exchange (List.mem_cons_of_mem _ hexchange)
    rw [capacity_perform, hfirst, latest_latest_append] at hrest
    rw [accepted_cons, ← List.append_assoc]
    exact hrest

/-! ### From an empty history on -/

/-- The history that a row of operations makes of an empty one. -/
def after (capacity : Nat) (operations : List Operation) : History :=
  (empty capacity).performAll operations

section After

variable {capacity : Nat}

theorem sound_empty (hroom : 0 < capacity) : (empty capacity).Sound :=
  ⟨hroom, Nat.zero_le _, nofun⟩

theorem sound_after (hroom : 0 < capacity) (operations : List Operation) :
    (after capacity operations).Sound :=
  (sound_empty hroom).performAll operations

theorem capacity_after (capacity : Nat) (operations : List Operation) :
    (after capacity operations).capacity = capacity :=
  capacity_performAll (empty capacity) operations

theorem after_append (before since : List Operation) :
    after capacity (before ++ since) = (after capacity before).performAll since :=
  performAll_append (empty capacity) before since

/-- At the start and behind a clearing there is nothing. -/
theorem entries_after_eq_nil {before : List Operation}
    (h : before = [] ∨ ∃ earlier, before = earlier ++ [.clear]) :
    (after capacity before).entries = [] := by
  rcases h with rfl | ⟨earlier, rfl⟩
  · rfl
  · rw [after_append]
    rfl

/-- The result of an integer that is accepted. -/
theorem nearest_of_accepted? {expression : Value} {i : Int} {time : String} {reply : Reply}
    {entry : Entry} (hentry : Exchange.accepted? ⟨.push expression (.integer i) time, reply⟩ =
      some entry) (hproper : Proper entry) : Nearest i entry.result := by
  unfold Exchange.accepted? at hentry
  split at hentry
  · next heq =>
    cases heq
    cases hentry
    exact nearest_ofInt hproper.finite
  · next heq => cases heq
  · cases hentry

/-- **What a history keeps**, whatever operations it has been used through: no more than
    it may, only what was accepted, and only proper entries.  Of an integer the nearest
    double is accepted.  The next operation changes the history in one of the ways of
    `Effect`.  Where no removal has been granted since the last clearing, or since the
    start, it holds the newest of what was accepted since. -/
theorem retention (hroom : 0 < capacity) (operations : List Operation) :
    (after capacity operations).capacity = capacity ∧
    (after capacity operations).count ≤ capacity ∧
    (after capacity operations).entries.Sublist ((empty capacity).accepted operations) ∧
    (∀ entry ∈ (after capacity operations).entries, Proper entry) ∧
    (∀ expression i time reply entry,
      ⟨.push expression (.integer i) time, reply⟩ ∈ (empty capacity).exchanges operations →
      Exchange.accepted? ⟨.push expression (.integer i) time, reply⟩ = some entry →
      Nearest i entry.result) ∧
    (∀ operation, Effect (after capacity operations)
      ⟨operation, ((after capacity operations).perform operation).2⟩
      (after capacity (operations ++ [operation])).entries) ∧
    ∀ before since, operations = before ++ since →
      (before = [] ∨ ∃ earlier, before = earlier ++ [.clear]) → Operation.clear ∉ since →
      (after capacity before).NothingRemoved since →
      (after capacity operations).entries <:+ (after capacity before).accepted since ∧
        (after capacity operations).count =
          min ((after capacity before).accepted since).length capacity := by
  have hsound := sound_after hroom operations
  have hcapacity := capacity_after capacity operations
  have hcount := hsound.count_le
  rw [hcapacity] at hcount
  have hempty := sound_empty hroom
  refine ⟨hcapacity, hcount, hempty.sublist_accepted operations, hsound.proper, ?_, ?_, ?_⟩
  · intro expression i time reply entry hexchange hentry
    exact nearest_of_accepted? hentry (hempty.proper_of_accepted? hexchange hentry)
  · intro operation
    rw [after_append]
    exact hsound.effect operation
  · rintro before since rfl hbefore hclear hremoved
    have hentries := (sound_after hroom before).eq_latest hclear hremoved
    rw [← after_append, entries_after_eq_nil hbefore, List.nil_append, capacity_after] at hentries
    refine ⟨?_, ?_⟩
    · rw [hentries]
      exact latest_suffix _ _
    · rw [count, hentries, length_latest]

/-- Two of the three entries that are accepted behind a clearing are left: a blank
    expression and a position without an entry are refused.  The last result lies halfway
    between two doubles. -/
def crowded : List Operation :=
  [.push (.string "1") (.integer 1) "1st", .clear, .push (.string "2+2 ") (.integer 4) "2nd",
    .push (.string " ") (.integer 5) "3rd", .push (.string "3*2") (.double 6) "4th",
    .remove (.integer 7), .push (.string " 2^53+1") (.integer 9007199254740993) "5th"]

theorem retention_crowded :
    (after 2 crowded).entries.map (fun entry => (entry.expression, toInt? entry.result)) =
      [("3*2", some 6), ("2^53+1", some 9007199254740992)] := by
  have hrefused : ((after 2 (crowded.take 2)).exchanges (crowded.drop 2)).all (fun exchange =>
      match exchange.operation with
      | .remove _ => !exchange.reply.granted
      | _ => true) = true := by decide +kernel
  have hremoved : (after 2 (crowded.take 2)).NothingRemoved (crowded.drop 2) := by
    intro exchange hexchange index hindex
    have := List.all_eq_true.mp hrefused exchange hexchange
    simpa [hindex] using this
  obtain ⟨-, -, -, -, -, -, hnewest⟩ := retention (by decide : 0 < 2) crowded
  obtain ⟨hsuffix, hcount⟩ := hnewest (crowded.take 2) (crowded.drop 2) rfl
    (Or.inr ⟨[.push (.string "1") (.integer 1) "1st"], rfl⟩) (by simp [crowded]) hremoved
  rw [count] at hcount
  rw [List.suffix_iff_eq_drop.mp hsuffix, hcount]
  decide +kernel

end After

end History

end Reckoner
