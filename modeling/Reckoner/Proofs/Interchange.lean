/-
  Reckoner/Proofs/Interchange.lean
  ================================
  **The text between converter and evaluator.**  The converter knows of every token
  what it is, writes down the texts of its tokens only, and the evaluator tells from
  each text alone what it was.  Nothing is lost on the way:

    * the items of the text are the texts of the tokens, one by one;
    * each is taken for what its token was (`TakenFor`), so the evaluator never meets
      an item that it cannot place nor an operand that it has to refuse, and a number
      that it finds out of range is one that it has computed (`RefusesResult`);
    * every failure is one of the eight kinds with the message of its kind, as the
      more telling message about an item that cannot be placed is never given.

  Together with `Guarded`, where no bare operation is ever used in vain, this says
  that what the stages guard against among themselves happens for no text
  (`interchange_faithful`).
-/
import Reckoner.Proofs.Guards
import Reckoner.Proofs.Rejection

namespace Reckoner

open Reckoner.Number Reckoner.Text ReversePolish Outcome

variable {text polish : String} {m out : List Token}

/-! ### Items -/

theorem parseNumber_of_checkOperand {item : String} {x : Float}
    (h : checkOperand item = .ok x) : parseNumber item = .ok x := by
  rw [checkOperand] at h
  split at h
  · next hparse =>
    rw [hparse]
    exact h
  · cases h

/-- What the evaluator takes the text of a token for is what the token is. -/
inductive TakenFor : Token → Prop where
  | operand {t : Token} {x : Float} :
      t.kind = .number → parseNumber t.text = .ok x →
      (∀ stack, step stack t.text = .ok (x :: stack)) → TakenFor t
  | operator {t : Token} {op : Operator} :
      t.kind = .operator → t.text = op.symbol →
      (∀ stack, step stack t.text = reduce op stack) → TakenFor t

theorem Order.takenFor (horder : Order m out) : ∀ t ∈ out, TakenFor t := by
  intro t ht
  have hspelled := horder.spelled t ht
  rcases kind_of_ordered (horder.kinds t ht) with hk | hk
  · obtain ⟨x, hx⟩ := horder.operands t ht hk
    exact .operand hk (parseNumber_of_checkOperand hx) (step_number hspelled hk hx)
  · obtain ⟨op, rfl⟩ := hspelled.operator_of_kind hk
    refine .operator hk rfl fun stack => ?_
    rw [step, Leaf.token, Operator.ofText?_symbol]

theorem TakenFor.item {t : Token} (h : TakenFor t) :
    (∃ op : Operator, t.text = op.symbol) ∨ ∃ x, parseNumber t.text = .ok x := by
  rcases h with ⟨-, hx, -⟩ | ⟨-, hop, -⟩
  · exact Or.inr ⟨_, hx⟩
  · exact Or.inl ⟨_, hop⟩

/-! ### From tokens to items -/

/-- A text that the converter has written, and the tokens that it was written from. -/
structure Written (text polish : String) (tokens m out : List Token) : Prop where
  tokenized : tokenize text = .ok tokens
  fused : fuseSigns tokens = .ok m
  ordered : ofTokens m = .ok out
  order : Order m out
  rendered : polish = render out
  words_eq : words polish = out.map Token.text

theorem exists_written (h : toReversePolish text = .ok polish) :
    ∃ tokens m out, Written text polish tokens m out := by
  obtain ⟨-, -, tokens, m, htokens, hfused, htext⟩ := toReversePolish_eq_ok.mp h
  obtain ⟨out, hout, rfl⟩ := Outcome.map_eq_ok.mp htext
  have hspelled := spelled_of_fuseSigns htokens hfused
  have horder := Order.of_reorder hspelled (ofTokens_eq_ok.mp hout).1
  exact ⟨tokens, m, out, htokens, hfused, hout, horder, rfl, words_render horder.spelled⟩

/-! ### Failures -/

theorem Failure.of_ne_invalidToken (kind : FailureKind) (item : String) :
    Failure.of kind ≠ .invalidToken item := by
  intro h
  rw [Failure.invalidToken_eq] at h
  have hmessage : kind.message = "invalid token: " ++ item := congrArg Failure.message h
  have hfirst := congrArg (fun message : String => message.toList.head?) hmessage
  cases kind <;> simp [FailureKind.message] at hfirst

/-- The evaluator has computed a number and refuses it as out of range. -/
def RefusesResult (items : List String) : Prop :=
  ∃ before op after a b below x, items = before ++ Operator.symbol op :: after ∧
    run [] before = .ok (b :: a :: below) ∧ op.apply a b = .ok x ∧ x.isFinite = true ∧
    inSafeRange x = false

theorem Operator.result_of_refused {op : Operator} {a b : Float}
    (h : op.outcome a b = fail .numberOutOfRange) :
    ∃ x, op.apply a b = .ok x ∧ x.isFinite = true ∧ inSafeRange x = false := by
  rw [← combine_eq_outcome, combine] at h
  cases hx : op.apply a b with
  | error failure =>
    rw [hx] at h
    cases op with
    | divide =>
      rw [apply] at hx
      split at hx
      · cases hx
        cases h
      · cases hx
    | _ => cases hx
  | ok x =>
    rw [hx, Outcome.ok_bind, checkResult] at h
    refine ⟨x, rfl, ?_⟩
    cases hfinite : x.isFinite with
    | false =>
      rw [hfinite] at h
      cases h
    | true =>
      cases hsafe : inSafeRange x with
      | false => exact ⟨rfl, rfl⟩
      | true =>
        rw [hfinite, hsafe] at h
        cases h

theorem Order.refusesResult (horder : Order m out) {failure : Failure}
    (h : evaluateItems (out.map Token.text) = .error failure)
    (hkind : failure.kind = .numberOutOfRange) : RefusesResult (out.map Token.text) := by
  rcases horder.failure_cases h with
    ⟨rfl, -⟩ | rfl | ⟨before, op, after, kind, rfl, ⟨a, b, below, hrun, hfails, -⟩, rfl⟩
  · cases hkind
  · cases hkind
  · obtain rfl : kind = .numberOutOfRange := hkind
    obtain ⟨x, hx, hfinite, houtside⟩ := Operator.result_of_refused hfails
    refine ⟨before.map Token.text, op, after.map Token.text, a, b, below, x, ?_, hrun, hx,
      hfinite, houtside⟩
    rw [List.map_append, List.map_cons]
    rfl

theorem Order.failsOnly (horder : Order m out) :
    FailsOnly [.invalidExpression, .missingOperand, .divisionByZero, .calculationError,
      .numberOutOfRange] (evaluateItems (out.map Token.text)) := by
  intro failure h
  rcases horder.failure_cases h with
    ⟨rfl, -⟩ | rfl | ⟨before, op, after, kind, -, ⟨a, b, below, -, -, harithmetic⟩, rfl⟩
  · exact ⟨_, by decide, rfl⟩
  · exact ⟨_, by decide, rfl⟩
  · refine ⟨kind, ?_, rfl⟩
    rcases harithmetic with rfl | rfl | rfl <;> decide

theorem textOf_failsOnly (hspelled : ∀ t ∈ m, t.Spelled) :
    FailsOnly [.mismatchedParentheses, .numberOutOfRange, .emptyExpression] (textOf m) := by
  rw [textOf, ofTokens]
  refine ((reorder_failsOnly hspelled []).bind fun out _ => ?_).map _
  cases out with
  | nil => exact .fail (by decide)
  | cons t out => exact .ok _ _

/-- A text may be refused for five reasons before its evaluation begins. -/
theorem toReversePolish_failsOnly (text : String) :
    FailsOnly [.emptyExpression, .invalidExpression, .mismatchedParentheses, .invalidNumber,
      .numberOutOfRange] (toReversePolish text) := by
  rw [toReversePolish]
  refine ((checkAlphabet_failsOnly text).bind fun _ _ =>
    (checkParentheses_failsOnly text).bind fun _ _ =>
    (tokenize_failsOnly text).bind fun tokens htokens =>
    (fuseFrom_failsOnly true tokens).bind fun m hfused =>
    textOf_failsOnly (spelled_of_fuseSigns htokens hfused)).mono ?_
  decide

/-- What the converter has written can be refused for five reasons. -/
theorem evaluate_failsOnly (h : toReversePolish text = .ok polish) :
    FailsOnly [.invalidExpression, .missingOperand, .divisionByZero, .calculationError,
      .numberOutOfRange] (evaluate polish) := by
  obtain ⟨tokens, m, out, hwritten⟩ := exists_written h
  rw [evaluate, hwritten.words_eq]
  exact hwritten.order.failsOnly

theorem calculate_failsOnly (text : String) :
    FailsOnly [.emptyExpression, .invalidExpression, .mismatchedParentheses, .invalidNumber,
      .numberOutOfRange, .missingOperand, .divisionByZero, .calculationError]
      (calculate text) := by
  refine ((toReversePolish_failsOnly text).bind fun _ => evaluate_failsOnly).mono ?_
  decide

/-! ### The stages together -/

/-- **What the stages guard against among themselves never happens.**  No operation is
    used where it has no answer.  The items that the evaluator reads are the texts
    that the converter wrote, each taken for what its token was, and every operand
    among them is in range; so what the evaluator refuses as out of range it has
    computed.  Whatever fails says no more than the message of its kind. -/
theorem interchange_faithful (text : String) :
    Guarded.toReversePolish text = .reached (toReversePolish text) ∧
    Guarded.calculate text = .reached (calculate text) ∧
    (∀ polish, toReversePolish text = .ok polish →
      Guarded.evaluate polish = .reached (evaluate polish) ∧
      (∃ tokens m out, tokenize text = .ok tokens ∧ fuseSigns tokens = .ok m ∧
        ofTokens m = .ok out ∧ polish = render out ∧ words polish = out.map Token.text ∧
        ∀ t ∈ out, TakenFor t) ∧
      (∀ item ∈ words polish,
        (∃ op : Operator, item = op.symbol) ∨ ∃ x, parseNumber item = .ok x) ∧
      ∀ failure, evaluate polish = .error failure → failure.kind = .numberOutOfRange →
        RefusesResult (words polish)) ∧
    ∀ failure, toReversePolish text = .error failure ∨ calculate text = .error failure →
      failure.message = failure.kind.message ∧ ∀ item, failure ≠ .invalidToken item := by
  refine ⟨Guarded.toReversePolish_eq text, Guarded.calculate_eq text, ?_, ?_⟩
  · intro polish hpolish
    obtain ⟨tokens, m, out, hwritten⟩ := exists_written hpolish
    have htaken := hwritten.order.takenFor
    refine ⟨Guarded.evaluate_eq polish, ?_, ?_, ?_⟩
    · exact ⟨tokens, m, out, hwritten.tokenized, hwritten.fused, hwritten.ordered,
        hwritten.rendered, hwritten.words_eq, htaken⟩
    · intro item hitem
      rw [hwritten.words_eq] at hitem
      obtain ⟨t, ht, rfl⟩ := List.mem_map.mp hitem
      exact (htaken t ht).item
    · intro failure hfailure hkind
      rw [evaluate, hwritten.words_eq] at hfailure
      rw [hwritten.words_eq]
      exact hwritten.order.refusesResult hfailure hkind
  · intro failure hfailure
    have hkind : ∃ kind, failure = .of kind := by
      rcases hfailure with h | h
      · obtain ⟨kind, -, hkind⟩ := toReversePolish_failsOnly text failure h
        exact ⟨kind, hkind⟩
      · obtain ⟨kind, -, hkind⟩ := calculate_failsOnly text failure h
        exact ⟨kind, hkind⟩
    obtain ⟨kind, rfl⟩ := hkind
    exact ⟨rfl, Failure.of_ne_invalidToken kind⟩

/-- Both operands are in range, and their sum is not. -/
theorem interchange_faithful_overflow : RefusesResult (words "9007199254740991 1 +") := by
  obtain ⟨-, -, hpolish, -⟩ := interchange_faithful "9007199254740991+1"
  obtain ⟨-, -, -, hrefused⟩ := hpolish "9007199254740991 1 +" (by decide +kernel)
  exact hrefused (.of .numberOutOfRange) (by decide +kernel) rfl

end Reckoner
