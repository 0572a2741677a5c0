import CredBroker.Demo
import CredBroker.Interaction.Logic
import CredBroker.Invocation.Ops
import CredBroker.Redaction

/-!
# The redaction filter

`SecretRedactionFilter.filter` rewrites a record before the handler formats it. A
record that cannot be formatted passes as it is, and `Handler.handleError` then prints
its message and arguments: `filter_covers_iff` says that this is the one gap.
-/

namespace CredBroker

open Python Interaction

/-! ## Records -/

/-- What `logging` asks of the objects in a record: `str`, `repr`, truth, `%` and
`Formatter().formatException`, each of which may run code of theirs. -/
structure Formatting (Obj : Type) where
  str : Obj → Except PyExn Str
  repr : Obj → Except PyExn Str
  truth : Obj → Except PyExn Bool
  percent : Str → Obj → Except PyExn Str
  formatException : Obj → Except PyExn Str
  ofStr : Str → Obj
  emptyTuple : Obj
  pyNone : Obj
  str_ofStr : ∀ s, str (ofStr s) = .ok s
  truth_emptyTuple : truth emptyTuple = .ok false
  truth_pyNone : truth pyNone = .ok false

/-- A `logging.LogRecord`. -/
structure LogRecord (Obj : Type) where
  msg : Obj
  args : Obj
  excInfo : Obj
  excText : Option Str
  stackInfo : Option Str

/-- The text, where it is there and not empty. -/
def given (text : Option Str) : Option Str := text.filter (· ≠ [])

section Record

variable {Obj : Type} (py : Formatting Obj) (record : LogRecord Obj)

/-- `record.getMessage()`. -/
def getMessage : Except PyExn Str := do
  let msg ← py.str record.msg
  if ← py.truth record.args then py.percent msg record.args else return msg

/-- The message and the arguments, where the scrubbed message differs. -/
def withMessage (message scrubbed : Str) : LogRecord Obj :=
  if scrubbed ≠ message then { record with msg := py.ofStr scrubbed, args := py.emptyTuple }
  else record

/-- `exc_text` is filled in from `exc_info`, or scrubbed as it is. -/
def scrubTraceback : BrokerProg (LogRecord Obj) := do
  let raised ← .ofExcept (py.truth record.excInfo)
  match given record.excText with
  | none =>
    if raised then do
      let formatted : BrokerProg Str := do
        let text ← .ofExcept (py.formatException record.excInfo)
        scrub text
      match ← formatted.attempt with
      | .ok text => return { record with excText := some text }
      | .error exc =>
        if exc.isException then return { record with excInfo := py.pyNone } else .throw exc
    else return record
  | some text => do
    let text ← scrub text
    return { record with excText := some text }

def scrubStack : BrokerProg (LogRecord Obj) :=
  match given record.stackInfo with
  | none => return record
  | some text => do
    let text ← scrub text
    return { record with stackInfo := some text }

/-- `SecretRedactionFilter.filter(record)`, with the record as it leaves it. -/
def SecretRedactionFilter.filter : BrokerProg (Bool × LogRecord Obj) := do
  match getMessage py record with
  | .error exc => if exc.isException then return (true, record) else .throw exc
  | .ok message => do
    let scrubbed ← scrub message
    let record ← scrubTraceback py (withMessage py record message scrubbed)
    let record ← scrubStack record
    return (true, record)

/-! ## What a handler may emit -/

/-- The formatted message; where it cannot be formatted, what `Handler.handleError`
prints of the message and the arguments. -/
def messageTexts : List Str :=
  match getMessage py record with
  | .ok message => [message]
  | .error _ =>
    match py.repr record.msg, py.str record.args with
    | .ok msg, .ok args => [msg, args]
    | _, _ => []

/-- The traceback that `Formatter.format` adds. -/
def tracebackTexts : List Str :=
  match given record.excText with
  | some text => [text]
  | none =>
    match py.truth record.excInfo, py.formatException record.excInfo with
    | .ok true, .ok text => [text]
    | _, _ => []

def emitted : List Str :=
  messageTexts py record ++ (tracebackTexts py record ++ (given record.stackInfo).toList)

/-- No secret of the registry is in anything that may be emitted. -/
def Unrevealing (registry : List Str) : Prop :=
  ∀ text ∈ emitted py record, ∀ s ∈ registry, ¬ s <:+: text

end Record

/-- The registry was listed in some order each time. -/
def Listed (registry : List Str) (tr : Trace BrokerSig) : Prop :=
  ∀ order : List Str, (⟨.secretRegistry, .ok order⟩ : Event BrokerSig) ∈ tr → order.Perm registry

theorem Listed.of_prefix {registry : List Str} {tr tr' : Trace BrokerSig}
    (listed : Listed registry tr') (grown : tr <+: tr') : Listed registry tr :=
  fun order member => listed order (grown.subset member)

/-! ## What the filter covers -/

theorem given_eq_some {text : Option Str} {s : Str} :
    given text = some s ↔ text = some s ∧ s ≠ [] := by
  rw [given, Option.filter_eq_some_iff, decide_eq_true_eq]

theorem given_some {s : Str} (nonempty : s ≠ []) : given (some s) = some s :=
  given_eq_some.mpr ⟨rfl, nonempty⟩

/-- A text that is not there, or empty. -/
theorem given_eq_none {text : Option Str} : given text = none ↔ text = none ∨ text = some [] := by
  cases text with
  | none => simp [given]
  | some s => simp [given, Option.filter]

section Filter

variable {lib : Lib} {svc : Services} {lossy : Bool} {Obj : Type} {py : Formatting Obj}
  {registry : List Str} {tr tr' : Trace BrokerSig}

/-- A run of `scrub` leaves no secret. -/
theorem scrub_runs (maskable : Maskable registry) {text : Str} {r : Except PyExn Str}
    (runs : (broker lib svc lossy).Runs (scrub text) tr tr' r) (listed : Listed registry tr') :
    ∃ out, r = .ok out ∧ (out = [] → text = []) ∧ ∀ s ∈ registry, ¬ s <:+: out := by
  cases runs with
  | call a may rest =>
    obtain ⟨order, rfl⟩ := may_sync rfl may
    cases rest with
    | ret _ _ =>
      have perm := listed order (by simp)
      have maskable' : Maskable order := fun s member => maskable s (perm.mem_iff.mp member)
      refine ⟨_, rfl, fun empty => ?_, fun s member => ?_⟩
      · by_contra some_
        exact scrubWith_ne_nil maskable'.nonempty some_ empty
      · exact scrubWith_clean maskable' text s (perm.mem_iff.mpr member)

theorem ofExcept_runs {α : Type} {value : Except PyExn α} {r : Except PyExn α}
    (runs : (broker lib svc lossy).Runs (.ofExcept value) tr tr' r) : tr' = tr ∧ r = value := by
  cases value with
  | ok a =>
    cases runs with
    | ret _ _ => exact ⟨rfl, rfl⟩
  | error x =>
    cases runs with
    | throw _ _ => exact ⟨rfl, rfl⟩

/-- The scrubbed message is what is formatted later. -/
theorem withMessage_texts {record : LogRecord Obj} {message scrubbed : Str}
    (formats : getMessage py record = .ok message) :
    messageTexts py (withMessage py record message scrubbed) = [scrubbed] := by
  unfold messageTexts withMessage
  split_ifs with differs
  · simp [getMessage, py.str_ofStr, py.truth_emptyTuple, Bind.bind, Except.bind, Pure.pure,
      Except.pure]
  · rw [formats, Decidable.not_not.mp differs]

theorem not_infix_nil (maskable : Maskable registry) : ∀ s ∈ registry, ¬ s <:+: ([] : Str) :=
  fun s member occurs => maskable.nonempty s member (List.infix_nil.mp occurs)

/-- A scrubbed traceback is what a formatter uses, unless both are empty. -/
theorem tracebackTexts_scrubbed (maskable : Maskable registry) {record : LogRecord Obj} {out : Str}
    (clean : ∀ s ∈ registry, ¬ s <:+: out) (empty : out = [] → ∀ text,
      py.truth record.excInfo = .ok true → py.formatException record.excInfo = .ok text →
      text = []) :
    ∀ text ∈ tracebackTexts py { record with excText := some out }, ∀ s ∈ registry,
      ¬ s <:+: text := by
  intro text member
  unfold tracebackTexts at member
  by_cases is : out = []
  · rw [given_eq_none.mpr (.inr (congrArg some is))] at member
    dsimp only at member
    split at member
    · rename_i raised formats
      rw [List.mem_singleton.mp member, empty is _ raised formats]
      exact not_infix_nil maskable
    · cases member
  · rw [given_some is] at member
    rw [List.mem_singleton.mp member]
    exact clean

/-- What the traceback part leaves: the message as it was, and no secret. -/
theorem scrubTraceback_runs (maskable : Maskable registry) {record record' : LogRecord Obj}
    (runs : (broker lib svc lossy).Runs (scrubTraceback py record) tr tr' (.ok record'))
    (listed : Listed registry tr') :
    record'.msg = record.msg ∧ record'.args = record.args ∧
      record'.stackInfo = record.stackInfo ∧
      ∀ text ∈ tracebackTexts py record', ∀ s ∈ registry, ¬ s <:+: text := by
  rcases runs.bind with ⟨raised, mid, first, last⟩ | ⟨x, -, same⟩
  swap
  · cases same
  obtain ⟨rfl, is⟩ := ofExcept_runs first
  cases cached : given record.excText with
  | some text =>
    rw [cached] at last
    rcases last.bind with ⟨out, mid, inner, rest⟩ | ⟨x, -, same⟩
    swap
    · cases same
    obtain ⟨out', same, empty, clean⟩ :=
      scrub_runs maskable inner (listed.of_prefix rest.prefix_trace)
    obtain rfl := Except.ok.inj same
    cases rest with
    | ret _ _ =>
      refine ⟨rfl, rfl, rfl, tracebackTexts_scrubbed maskable clean fun none_ => ?_⟩
      exact ((given_eq_some.mp cached).2 (empty none_)).elim
  | none =>
    rw [cached] at last
    dsimp only at last
    split at last
    · obtain ⟨ended, mid, inner, rest⟩ := last.attempt_bind
      cases ended with
      | ok out =>
        rcases inner.bind with ⟨text, mid', formats, scrubs⟩ | ⟨x, -, same⟩
        swap
        · cases same
        obtain ⟨-, formats⟩ := ofExcept_runs formats
        obtain ⟨out', same, empty, clean⟩ :=
          scrub_runs maskable scrubs (listed.of_prefix rest.prefix_trace)
        obtain rfl := Except.ok.inj same
        cases rest with
        | ret _ _ =>
          refine ⟨rfl, rfl, rfl, tracebackTexts_scrubbed maskable clean
            fun none_ text' _ formats' => ?_⟩
          rw [← formats] at formats'
          rw [← Except.ok.inj formats', empty none_]
      | error exc =>
        dsimp only at rest
        split at rest
        · cases rest with
          | ret _ _ =>
            refine ⟨rfl, rfl, rfl, fun text member => ?_⟩
            simp [tracebackTexts, cached, py.truth_pyNone] at member
        · cases rest
    · rename_i quiet
      cases last with
      | ret _ _ =>
        refine ⟨rfl, rfl, rfl, fun text member => ?_⟩
        have truth : py.truth record.excInfo = .ok false :=
          is.symm.trans (congrArg _ (Bool.eq_false_iff.mpr quiet))
        simp [tracebackTexts, cached, truth] at member

/-- What the stack part leaves: the rest as it was, and no secret. -/
theorem scrubStack_runs (maskable : Maskable registry) {record record' : LogRecord Obj}
    (runs : (broker lib svc lossy).Runs (scrubStack record) tr tr' (.ok record'))
    (listed : Listed registry tr') :
    (∃ stackInfo, record' = { record with stackInfo := stackInfo }) ∧
      ∀ text ∈ given record'.stackInfo, ∀ s ∈ registry, ¬ s <:+: text := by
  unfold scrubStack at runs
  cases stack : given record.stackInfo with
  | none =>
    rw [stack] at runs
    cases runs with
    | ret _ _ => exact ⟨⟨record.stackInfo, rfl⟩, by simp [stack]⟩
  | some text =>
    rw [stack] at runs
    rcases runs.bind with ⟨out, mid, inner, rest⟩ | ⟨x, -, same⟩
    swap
    · cases same
    obtain ⟨out', same, empty, clean⟩ :=
      scrub_runs maskable inner (listed.of_prefix rest.prefix_trace)
    obtain rfl := Except.ok.inj same
    cases rest with
    | ret _ _ =>
      refine ⟨⟨_, rfl⟩, fun text member => ?_⟩
      obtain ⟨same, -⟩ := given_eq_some.mp member
      rw [← Option.some.inj same]
      exact clean

/-- A record that can be formatted shows no secret once it has passed. -/
theorem filter_unrevealing (maskable : Maskable registry) {record record' : LogRecord Obj}
    {message : Str} (formats : getMessage py record = .ok message)
    (runs : (broker lib svc lossy).Runs (SecretRedactionFilter.filter py record) tr tr'
      (.ok (true, record'))) (listed : Listed registry tr') :
    Unrevealing py record' registry := by
  unfold SecretRedactionFilter.filter at runs
  rw [formats] at runs
  rcases runs.bind with ⟨scrubbed, mid, first, runs⟩ | ⟨x, -, same⟩
  swap
  · cases same
  rcases runs.bind with ⟨record₁, mid₁, second, runs⟩ | ⟨x, -, same⟩
  swap
  · cases same
  rcases runs.bind with ⟨record₂, mid₂, third, last⟩ | ⟨x, -, same⟩
  swap
  · cases same
  cases last with
  | ret _ _ =>
    have listed₁ := listed.of_prefix third.prefix_trace
    obtain ⟨out, same, -, clean⟩ :=
      scrub_runs maskable first (listed₁.of_prefix second.prefix_trace)
    obtain rfl := Except.ok.inj same
    obtain ⟨msg, args, -, traceback⟩ := scrubTraceback_runs maskable second listed₁
    obtain ⟨⟨stackInfo, rfl⟩, stack⟩ := scrubStack_runs maskable third listed
    have texts : messageTexts py { record₁ with stackInfo := stackInfo } = [scrubbed] := by
      rw [← withMessage_texts formats]
      unfold messageTexts getMessage
      rw [msg, args]
    unfold Unrevealing emitted
    rw [texts]
    refine List.forall_mem_append.mpr ⟨by simpa using clean,
      List.forall_mem_append.mpr ⟨traceback, by simpa using stack⟩⟩

variable (lib svc lossy py) in
/-- A record that has passed the filter shows no secret, exactly if it could be formatted
or showed none before. -/
theorem filter_covers_iff (maskable : Maskable registry) (record : LogRecord Obj) :
    (∀ tr record', (broker lib svc lossy).Runs (SecretRedactionFilter.filter py record) [] tr
        (.ok (true, record')) → Listed registry tr → Unrevealing py record' registry) ↔
      ∀ x, getMessage py record = .error x → x.isException = true →
        Unrevealing py record registry := by
  constructor
  · intro covers x raises is
    refine covers [] record ?_ nofun
    unfold SecretRedactionFilter.filter
    rw [raises]
    dsimp only
    rw [if_pos is]
    exact .ret _ _
  · intro plain tr record' runs listed
    cases formats : getMessage py record with
    | ok message => exact filter_unrevealing maskable formats runs listed
    | error x =>
      unfold SecretRedactionFilter.filter at runs
      rw [formats] at runs
      dsimp only at runs
      split at runs
      · rename_i is
        cases runs with
        | ret _ _ => exact plain x formats is
      · cases runs

end Filter

/-! ## A record that cannot be formatted -/

namespace Demo

/-- Strings, tuples of strings, and what a traceback is made of. -/
inductive LogObject
  | text (s : Str)
  | tuple (items : List Str)
  | exception (traceback : Str)
  | pyNone
  deriving DecidableEq

/-- `text % items`, for the directives `%s` and `%%`. -/
def percent : Str → List Str → Except PyExn Str
  | [], [] => .ok []
  | [], _ :: _ => .error (.typeError "not all arguments converted during string formatting")
  | '%' :: 's' :: _, [] => .error (.typeError "not enough arguments for format string")
  | '%' :: 's' :: text, item :: items => (percent text items).map (item ++ ·)
  | '%' :: '%' :: text, items => (percent text items).map ('%' :: ·)
  | '%' :: _, _ => .error (.valueError "unsupported format character")
  | c :: text, items => (percent text items).map (c :: ·)

/-- `str(items)`. -/
def tupleText (items : List Str) : Str :=
  let shown := items.map (Str.repr fun _ => true)
  "(" ++ (", " : Str).intercalate shown ++ (if items.length = 1 then ",)" else ")")

def logging : Formatting LogObject where
  str
    | .text s => .ok s
    | .tuple items => .ok (tupleText items)
    | .exception _ => .ok "exception"
    | .pyNone => .ok "None"
  repr
    | .text s => .ok (Str.repr (fun _ => true) s)
    | .tuple items => .ok (tupleText items)
    | .exception _ => .ok "exception"
    | .pyNone => .ok "None"
  truth
    | .text s => .ok (s ≠ [])
    | .tuple items => .ok (items ≠ [])
    | .exception _ => .ok true
    | .pyNone => .ok false
  percent text
    | .tuple items => percent text items
    | _ => .error (.typeError "not all arguments converted during string formatting")
  formatException
    | .exception traceback => .ok traceback
    | _ => .error (.typeError "object is not subscriptable")
  ofStr := .text
  emptyTuple := .tuple []
  pyNone := .pyNone
  str_ofStr _ := rfl
  truth_emptyTuple := rfl
  truth_pyNone := rfl

/-- `logger.error(msg, secret)` in an exception handler. -/
def record (msg secret : Str) : LogRecord LogObject where
  msg := .text msg
  args := .tuple [secret]
  excInfo := .exception ("ValueError: " ++ secret)
  excText := none
  stackInfo := none

end Demo

/-- With the directive for its argument, the record shows no secret. -/
theorem filter_covers_iff_demo : Maskable ["ya29.token"] ∧ ∀ tr record',
    (broker Demo.lib Demo.services false).Runs
      (SecretRedactionFilter.filter Demo.logging (Demo.record "token %s" "ya29.token")) [] tr
        (.ok (true, record')) → Listed ["ya29.token"] tr →
      Unrevealing Demo.logging record' ["ya29.token"] := by
  have maskable : Maskable ["ya29.token"] := by
    unfold Maskable
    decide
  have formats : getMessage Demo.logging (Demo.record "token %s" "ya29.token") =
      .ok ("token ya29.token" : Str) := by decide
  refine ⟨maskable, (filter_covers_iff Demo.lib Demo.services false Demo.logging maskable _).mpr ?_⟩
  intro x raises
  rw [formats] at raises
  cases raises

/-- Without it the record passes as it is, and the token is printed. -/
theorem filter_reveals : ∃ tr record',
    (broker Demo.lib Demo.services false).Runs
      (SecretRedactionFilter.filter Demo.logging (Demo.record "token" "ya29.token")) [] tr
        (.ok (true, record')) ∧ Listed ["ya29.token"] tr ∧ Maskable ["ya29.token"] ∧
      emitted Demo.logging record' = ["'token'", "('ya29.token',)", "ValueError: ya29.token"] ∧
      ¬ Unrevealing Demo.logging record' ["ya29.token"] := by
  have shown : emitted Demo.logging (Demo.record "token" "ya29.token") =
      ["'token'", "('ya29.token',)", "ValueError: ya29.token"] := by decide
  refine ⟨[], Demo.record "token" "ya29.token", .ret _ _, nofun, by unfold Maskable; decide, shown,
    ?_⟩
  intro unrevealing
  have hidden := unrevealing "('ya29.token',)" (by rw [shown]; simp) "ya29.token" (by simp)
  exact hidden (by decide)

end CredBroker
