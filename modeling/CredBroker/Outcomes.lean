import CredBroker.Invocation.Shown
import CredBroker.Redaction
import CredBroker.Runs
import CredBroker.Demo

/-!
# What leaves through an outcome

Every secret that an invocation handles is registered before it goes anywhere, and a
message is scrubbed against the registry. A result is not looked at: the outcome, and what
is stored under the key, carry a secret exactly where the document of the provider, or the
stored one that is replayed, does (`outcome_sealed_iff`).
-/

namespace Python.Json

mutual

/-- All strings in a document, the keys of its objects among them. -/
def texts : Json → List Str
  | .str s => [s]
  | .arr items => textsItems items
  | .obj members => textsMembers members
  | _ => []

def textsItems : List Json → List Str
  | [] => []
  | value :: items => texts value ++ textsItems items

def textsMembers : List (Str × Json) → List Str
  | [] => []
  | (key, value) :: members => key :: (texts value ++ textsMembers members)

end

end Python.Json

namespace CredBroker

open Python Interaction

variable {lib : Lib} {svc : Services} {lossy : Bool}

/-! ## The registry -/

/-- An event registers what it learns, and no other event touches the registry. -/
theorem World.after_secrets (w : World) (tr : Trace BrokerSig) (e : Event BrokerSig) :
    (w.after tr e).secrets = ((learned e).foldl World.addSecret w).secrets := by
  have mapped (surface : Surface) (provider : Str) (f : CircuitBreaker → CircuitBreaker) :
      (w.mapCircuit surface provider f).secrets = w.secrets := by
    unfold World.mapCircuit
    split <;> rfl
  obtain ⟨e, a⟩ := e
  cases e with
  | encrypt plaintext => cases plaintext <;> rfl
  | decrypt blob => cases a <;> rfl
  | redis cmd =>
    simp only [World.after]
    split <;> rfl
  | query q =>
    cases q with
    | agentForUpdate id => rcases a with x | _ | agent <;> rfl
    | _ => rfl
  | tokenHex => cases a <;> rfl
  | commit =>
    simp only [World.after]
    split <;> rfl
  | circuitFor surface provider failureThreshold resetSeconds =>
    cases a with
    | error x => rfl
    | ok _ =>
      simp only [World.after]
      split <;> rfl
  | circuitAllow surface provider | circuitSuccess surface provider
  | circuitFailure surface provider =>
    cases a with
    | error x => rfl
    | ok _ => exact mapped surface provider _
  | _ => rfl

theorem World.addSecret_spec (w : World) (value : Str) :
    w.secrets ⊆ (w.addSecret value).secrets ∧
      (8 ≤ value.length → value ∈ (w.addSecret value).secrets) ∧
      ∀ s ∈ (w.addSecret value).secrets, s ∈ w.secrets ∨ 8 ≤ s.length := by
  unfold World.addSecret
  split
  · rename_i skipped
    refine ⟨fun s member => member, fun long => ?_, fun s member => .inl member⟩
    exact skipped.resolve_left (Nat.not_lt.mpr long)
  · rename_i fresh
    refine ⟨List.subset_append_left _ _, fun _ => by simp, fun s member => ?_⟩
    rcases List.mem_append.mp member with old | new
    · exact .inl old
    · rw [List.mem_singleton.mp new]
      exact .inr (Nat.not_lt.mp fun short => fresh (.inl short))

theorem learned_cases (e : Event BrokerSig) : learned e = [] ∨ ∃ s, learned e = [s] := by
  unfold learned
  split
  · exact .inr ⟨_, rfl⟩
  · exact .inr ⟨_, rfl⟩
  · exact .inr ⟨_, rfl⟩
  · exact .inl rfl

/-- What one operation does to the registry. -/
theorem World.after_registers (w : World) (tr : Trace BrokerSig) (e : Event BrokerSig) :
    w.secrets ⊆ (w.after tr e).secrets ∧
      (∀ s ∈ learned e, 8 ≤ s.length → s ∈ (w.after tr e).secrets) ∧
      ∀ s ∈ (w.after tr e).secrets, s ∈ w.secrets ∨ 8 ≤ s.length := by
  rw [w.after_secrets]
  rcases learned_cases e with none | ⟨value, one⟩
  · rw [none]
    exact ⟨fun s member => member, by simp, fun s member => .inl member⟩
  · rw [one]
    obtain ⟨grows, registers, long⟩ := w.addSecret_spec value
    refine ⟨grows, fun s member => ?_, long⟩
    rw [List.mem_singleton.mp member]
    exact registers

theorem World.nudge_secrets {n : World.Nudge} {w w' : World}
    (moved : World.nudge lossy n w = some w') : w'.secrets = w.secrets := by
  cases n with
  | tick elapsed =>
    obtain rfl := Option.some.inj moved
    rfl
  | evict keep =>
    rw [World.nudge] at moved
    split at moved
    · obtain rfl := Option.some.inj moved
      rfl
    · cases moved

theorem step_secrets {c c' : Broker} (step : (broker lib svc lossy).Step c c') :
    c.world.secrets ⊆ c'.world.secrets ∧
      ∀ s ∈ c'.world.secrets, s ∈ c.world.secrets ∨ 8 ≤ s.length := by
  cases step with
  | spawn r => exact ⟨fun s member => member, fun s member => .inl member⟩
  | nudge n moved =>
    rw [show _ = c.world.secrets from World.nudge_secrets moved]
    exact ⟨fun s member => member, fun s member => .inl member⟩
  | answer thread pending permits =>
    obtain ⟨grows, -, long⟩ := c.world.after_registers _ _
    exact ⟨grows, long⟩

/-- Nothing is ever taken out of the registry. -/
theorem run_secrets {c c' : Broker} (run : (broker lib svc lossy).Reaches c c') :
    c.world.secrets ⊆ c'.world.secrets ∧
      ∀ s ∈ c'.world.secrets, s ∈ c.world.secrets ∨ 8 ≤ s.length := by
  induction run with
  | refl => exact ⟨fun s member => member, fun s member => .inl member⟩
  | tail before step ih =>
    obtain ⟨grows, long⟩ := step_secrets step
    refine ⟨List.Subset.trans ih.1 grows, fun s member => ?_⟩
    rcases long s member with old | long
    · exact ih.2 s old
    · exact .inr long

section Registered

variable {w : World} {c : Broker} (run : (broker lib svc lossy).Reaches (.start w) c)

include run

/-- What an entry learns is registered from then on. -/
theorem learned_registered {e : Entry BrokerSig World} (member : e ∈ c.hist) {s : Str}
    (learns : s ∈ learned e.event) (long : 8 ≤ s.length) : s ∈ c.world.secrets := by
  obtain ⟨h₁, h₂, split⟩ := List.append_of_mem member
  obtain ⟨before⟩ := run.before (by simpa [Config.start] using split)
  apply (run_secrets before.rest).1
  show s ∈ (before.mid.world.after before.thread.trace e.event).secrets
  exact (World.after_registers _ _ _).2.1 s learns long

/-- So is what a program knows. -/
theorem known_registered {i : Nat} {t : Thread BrokerSig Request Response}
    (thread : c.threads[i]? = some t) {s : Str} (known : Known s t.trace) (long : 8 ≤ s.length) :
    s ∈ c.world.secrets := by
  obtain ⟨e, member, learns⟩ := known
  obtain ⟨pre, v, -, entry⟩ := entry_of_event run thread member
  exact learned_registered run entry learns long

/-- What a program knows when it reads the registry is listed there. -/
theorem known_listed {i : Nat} {t : Thread BrokerSig Request Response}
    (thread : c.threads[i]? = some t) {pre : Trace BrokerSig} {order : List Str}
    (sub : pre ++ [⟨.secretRegistry, .ok order⟩] <+: t.trace) {s : Str} (known : Known s pre)
    (long : 8 ≤ s.length) : s ∈ order := by
  obtain ⟨v, member⟩ := entry_at run thread sub
  obtain ⟨h₁, h₂, split⟩ := List.append_of_mem member
  obtain ⟨before⟩ := run.before (by simpa [Config.start] using split)
  have registered : s ∈ before.mid.world.secrets := by
    refine known_registered before.reached before.running ?_ long
    rwa [before.trace_eq]
  have lists : order.Perm v.secrets := List.isPerm_iff.mp (entry_permitted run member)
  rw [before.world_eq] at registered
  exact lists.mem_iff.mpr registered

/-- An access token is known when it is sent. -/
theorem sent_known {i : Nat} {t : Thread BrokerSig Request Response}
    (thread : c.threads[i]? = some t) {req : InvokeRequest} (request : t.req = .invoke req)
    {pre : Trace BrokerSig} {tool : ToolAdapter} {accessToken : Str} {arguments : Arguments}
    {a : BrokerSig.Ans (.toolCall tool accessToken arguments)}
    (sub : pre ++ [⟨.toolCall tool accessToken arguments, a⟩] <+: t.trace) :
    Known accessToken pre := by
  have entry : wp (broker lib svc lossy) sentRole (serve lib svc (.invoke req))
      (fun _ _ => True) [] :=
    wp_map (wp_mono (wp_invoke_shown lib svc lossy req) fun _ _ _ _ => trivial)
  exact Machine.Reaches.kept run thread (request ▸ entry) (Role.met_guarding _ _) sub

/-- What an invocation returns is shown along its trace. -/
theorem shown_of_over {i : Nat} {t : Thread BrokerSig Request Response}
    (thread : c.threads[i]? = some t) {req : InvokeRequest} (request : t.req = .invoke req)
    {o : InvokeOutcome} (finished : t.prog = .ret (.outcome o)) :
    Shown lib svc lossy req t.trace o := by
  have entry : wp (broker lib svc lossy) sentRole (serve lib svc (.invoke req))
      (fun r tr => ∃ r', r = r'.map .outcome ∧ returnedPost lib svc lossy req r' tr) [] :=
    wp_map (wp_mono (wp_invoke_shown lib svc lossy req) fun r tr _ ended => ⟨r, rfl, ended⟩)
  have under := Machine.Reaches.under_start run thread (request ▸ entry) (Role.met_guarding _ _)
  rw [finished] at under
  obtain ⟨r, same, ended⟩ := under
  cases r with
  | error x => cases same
  | ok o' =>
    cases same
    exact ended o rfl

end Registered

/-! ## Outcomes without a secret -/

/-- None of the secrets occurs in any of the texts. -/
def Free (secrets texts : List Str) : Prop := ∀ s ∈ secrets, ∀ text ∈ texts, ¬ s <:+: text

instance (secrets texts : List Str) : Decidable (Free secrets texts) :=
  decidable_of_iff (∀ s ∈ secrets, ∀ text ∈ texts, ¬ text.contains s = true) (by
    unfold Free
    simp only [contains_iff])

/-- The registry as the trace last read it. -/
def lastRegistry (tr : Trace BrokerSig) : List Str :=
  tr.foldl (fun found e =>
    match e with
    | ⟨.secretRegistry, .ok order⟩ => order
    | _ => found) []

/-- The credentials that a trace has: what it decrypted, received and encrypted, and the
access tokens that it sent. -/
def credentials (tr : Trace BrokerSig) : List Str :=
  tr.flatMap fun e =>
    match e with
    | ⟨.toolCall _ accessToken _, _⟩ => [accessToken]
    | e => learned e

variable (lib svc lossy) in
/-- No registered secret is in the outcome, nor in what is handed to `complete`. An error
is held against the registry as it was when the message was scrubbed. -/
structure Sealed (secrets : List Str) (req : InvokeRequest) (tr : Trace BrokerSig)
    (o : InvokeOutcome) : Prop where
  error : ∀ message, o.error = some message → Free (lastRegistry tr) [message]
  result : Free secrets o.result.texts
  handed : ∀ value, Handed lib svc lossy req tr value → Free secrets value.texts

variable (lib) in
/-- No registered secret is in the document that the provider answered with, nor in the
stored one that the look at the key found. -/
structure Untainted (secrets : List Str) (tr : Trace BrokerSig) : Prop where
  answered : ∀ body ∈ bodies tr, Free secrets body.texts
  stored : ∀ document, Hit lib tr document → Free secrets document.texts

theorem lastRegistry_append (tr ext : Trace BrokerSig)
    (quiet : ∀ e ∈ ext, e.op.handles = false) : lastRegistry (tr ++ ext) = lastRegistry tr := by
  unfold lastRegistry
  rw [List.foldl_append]
  generalize tr.foldl _ [] = found
  induction ext with
  | nil => rfl
  | cons e ext ih =>
    obtain ⟨silent, quiet⟩ := List.forall_mem_cons.mp quiet
    rw [List.foldl_cons]
    split
    · cases silent
    · exact ih quiet

theorem lastRegistry_read (tr : Trace BrokerSig) (order : List Str) :
    lastRegistry (tr ++ [⟨.secretRegistry, .ok order⟩]) = order := by
  unfold lastRegistry
  rw [List.foldl_append]
  rfl

theorem Refused.read {tr : Trace BrokerSig} {o : InvokeOutcome} (refused : Refused tr o) :
    ∃ message before after, tr = before ++ [⟨.secretRegistry, .ok (lastRegistry tr)⟩] ++ after ∧
      (∀ e ∈ after, e.op.handles = false) ∧
      o.error = some (scrubWith message (lastRegistry tr)) := by
  obtain ⟨-, -, message, order, before, after, rfl, quiet, error⟩ := refused
  have last : lastRegistry (before ++ ⟨.secretRegistry, .ok order⟩ :: after) = order := by
    rw [List.append_cons, lastRegistry_append _ _ quiet, lastRegistry_read]
  rw [last]
  exact ⟨message, before, after, List.append_cons .., quiet, error⟩

/-- `outcome.result or {}` neither hides a secret nor adds one. -/
theorem free_storedResult {secrets : List Str} (nonempty : ∀ s ∈ secrets, s ≠ []) {result : Json} :
    Free secrets (storedResult result).texts ↔ Free secrets result.texts := by
  unfold storedResult
  split
  · exact Iff.rfl
  · rename_i falsy
    have empty : ∀ text ∈ result.texts, text = [] := by
      intro text member
      cases result with
      | str s =>
        rw [List.mem_singleton.mp member]
        simpa [Json.truthy] using falsy
      | arr items =>
        obtain rfl : items = [] := by simpa [Json.truthy] using falsy
        cases member
      | obj members =>
        obtain rfl : members = [] := by simpa [Json.truthy] using falsy
        cases member
      | _ => cases member
    refine iff_of_true (fun s _ text member => by cases member)
      fun s member text inside occurs => ?_
    rw [empty text inside] at occurs
    exact nonempty s member (List.infix_nil.mp occurs)

/-- What is handed over is what the provider answered with. -/
theorem Handed.answered {req : InvokeRequest} {tr : Trace BrokerSig} {value : Json}
    (handed : Handed lib svc lossy req tr value) :
    ∃ body ∈ bodies tr, value = storedResult body := by
  obtain ⟨-, -, grant, tokenHash, tool, start, pre, mid, o, runs, sub, status, same⟩ := handed
  have post : calledPost (bodies pre) _ _ := runs.post (wp_executeCall_called rfl)
  obtain ⟨called, -⟩ := post
  rcases called o rfl with ⟨refused, -⟩ | ⟨-, gained⟩
  · exact (refused.status status).elim
  · obtain ⟨more, rfl⟩ := sub
    refine ⟨o.result, ?_, same⟩
    rw [bodies_append, gained]
    simp

theorem credentials_append (tr ext : Trace BrokerSig) :
    credentials (tr ++ ext) = credentials tr ++ credentials ext := List.flatMap_append

@[simp] theorem credentials_read (a : BrokerSig.Ans .secretRegistry) :
    credentials [⟨.secretRegistry, a⟩] = [] := rfl

theorem credentials_quiet {tr : Trace BrokerSig} (quiet : ∀ e ∈ tr, e.op.handles = false) :
    credentials tr = [] := by
  refine List.flatMap_eq_nil_iff.mpr fun e member => ?_
  have silent := quiet e member
  split
  · cases silent
  · unfold learned
    split <;> first | rfl | cases silent

/-- Every credential that an invocation has handled is known by then. -/
theorem known_of_credential {w : World} {c : Broker}
    (run : (broker lib svc lossy).Reaches (.start w) c) {i : Nat}
    {t : Thread BrokerSig Request Response} (thread : c.threads[i]? = some t) {req : InvokeRequest}
    (request : t.req = .invoke req) {tr : Trace BrokerSig} (sub : tr <+: t.trace) {s : Str}
    (handled : s ∈ credentials tr) : Known s tr := by
  obtain ⟨e, member, here⟩ := List.mem_flatMap.mp handled
  split at here
  · rename_i tool accessToken arguments a
    obtain ⟨pre, post, rfl⟩ := List.append_of_mem member
    rw [List.mem_singleton.mp here]
    have sent : pre ++ [⟨.toolCall tool accessToken arguments, a⟩] <+: t.trace :=
      (show _ <+: pre ++ _ :: post from ⟨post, (List.append_cons ..).symm⟩).trans sub
    exact (sent_known run thread request sent).append _
  · exact ⟨e, member, here⟩

section Sealing

variable {secrets : List Str} {req : InvokeRequest} {tr : Trace BrokerSig} {o : InvokeOutcome}
  (nonempty : ∀ s ∈ secrets, s ≠ []) (shown : Shown lib svc lossy req tr o)

include nonempty shown

theorem Sealed.untainted (whole : Sealed lib svc lossy secrets req tr o) :
    Untainted lib secrets tr := by
  have nothing : Free secrets (Json.texts .null) := fun s _ text member => by cases member
  cases shown with
  | refused refused missed handed =>
    refine ⟨fun body member => ?_, fun document hit => ?_⟩
    · exact (free_storedResult nonempty).mp (whole.handed _ (handed body member))
    · rw [missed document hit]
      exact nothing
  | performed given one missed =>
    refine ⟨fun body member => ?_, fun document hit => ?_⟩
    · rw [one, List.mem_singleton] at member
      rw [member]
      exact whole.result
    · rw [missed document hit]
      exact nothing
  | replayed given none hit =>
    refine ⟨fun body member => ?_, fun document hit' => ?_⟩
    · rw [none] at member
      cases member
    · rw [hit'.unique hit]
      exact whole.result

theorem Untainted.sealed (untainted : Untainted lib secrets tr)
    (maskable : Maskable (lastRegistry tr)) : Sealed lib svc lossy secrets req tr o := by
  have stored : ∀ value, Handed lib svc lossy req tr value → Free secrets value.texts := by
    intro value handed
    obtain ⟨body, member, rfl⟩ := handed.answered
    exact (free_storedResult nonempty).mpr (untainted.answered body member)
  have unsaid (given : Given o) : ∀ message, o.error = some message →
      Free (lastRegistry tr) [message] := by
    intro message some_
    rw [given.2] at some_
    cases some_
  cases shown with
  | refused refused missed handed =>
    refine ⟨fun message some_ s member text inside => ?_, ?_, stored⟩
    · obtain ⟨original, -, -, -, -, error⟩ := refused.read
      rw [error] at some_
      rw [List.mem_singleton.mp inside, ← Option.some.inj some_]
      exact scrubWith_clean maskable original s member
    · rw [refused.result]
      intro s _ text member
      cases member
  | performed given one missed =>
    exact ⟨unsaid given, untainted.answered _ (by simp [one]), stored⟩
  | replayed given none hit => exact ⟨unsaid given, untainted.stored _ hit, stored⟩

end Sealing

/-- An invocation lets out a secret exactly where a document does that it returns: every
credential it handles is registered, and listed when its message is scrubbed; and where
the registry then has none that `scrub` cannot mask, no registered secret is in the
outcome, nor in what is handed to the store, exactly if none is in the document that the
provider answered with, or in the stored one that is replayed. -/
theorem outcome_sealed_iff {start : Time} {c : Broker}
    (run : (broker lib svc lossy).Reaches (.start (World.fresh start)) c) {i : Nat}
    {t : Thread BrokerSig Request Response} (thread : c.threads[i]? = some t)
    {req : InvokeRequest} (request : t.req = .invoke req) {o : InvokeOutcome}
    (finished : t.prog = .ret (.outcome o)) :
    (Maskable (lastRegistry t.trace) →
        (Sealed lib svc lossy c.world.secrets req t.trace o ↔
          Untainted lib c.world.secrets t.trace)) ∧
      (Sealed lib svc lossy c.world.secrets req t.trace o →
        Untainted lib c.world.secrets t.trace) ∧
      (∀ s ∈ credentials t.trace, 8 ≤ s.length →
        s ∈ c.world.secrets ∧ (o.error ≠ none → s ∈ lastRegistry t.trace)) ∧
      (o.error ≠ none → ∃ e ∈ c.hist, e.tid = i ∧
        e.event = ⟨.secretRegistry, .ok (lastRegistry t.trace)⟩ ∧
          (lastRegistry t.trace).Perm e.pre.secrets) := by
  have shown := shown_of_over run thread request finished
  have nonempty : ∀ s ∈ c.world.secrets, s ≠ [] := by
    rintro s member rfl
    rcases (run_secrets run).2 [] member with old | long
    · cases old
    · cases long
  -- where there is a message, the registry was read
  have read : o.error ≠ none → ∃ before after,
      t.trace = before ++ [⟨.secretRegistry, .ok (lastRegistry t.trace)⟩] ++ after ∧
        ∀ e ∈ after, e.op.handles = false := by
    intro raised
    cases shown with
    | refused refused _ _ =>
      obtain ⟨message, before, after, split, quiet, -⟩ := refused.read
      exact ⟨before, after, split, quiet⟩
    | performed given _ _ | replayed given _ _ => exact (raised given.2).elim
  refine ⟨fun maskable => ⟨Sealed.untainted nonempty shown, fun untainted =>
    untainted.sealed nonempty shown maskable⟩, Sealed.untainted nonempty shown, ?_, ?_⟩
  · intro s handled long
    refine ⟨known_registered run thread
      (known_of_credential run thread request List.prefix_rfl handled) long, fun raised => ?_⟩
    obtain ⟨before, after, split, quiet⟩ := read raised
    -- what it handles at all, it handles before it reads the registry
    have earlier : s ∈ credentials before := by
      rw [split, credentials_append, credentials_append, credentials_quiet quiet] at handled
      simpa using handled
    have sub : before ++ [⟨.secretRegistry, .ok (lastRegistry t.trace)⟩] <+: t.trace :=
      ⟨after, split.symm⟩
    refine known_listed run thread sub ?_ long
    exact known_of_credential run thread request ((List.prefix_append _ _).trans sub) earlier
  · intro raised
    obtain ⟨before, after, split, -⟩ := read raised
    obtain ⟨v, member⟩ := entry_at run thread ⟨after, split.symm⟩
    exact ⟨_, member, rfl, rfl, List.isPerm_iff.mp (entry_permitted run member)⟩

/-- No look found a completed result. -/
def Demo.unanswered (e : Event BrokerSig) : Bool :=
  match e with
  | ⟨.redis (.get _), .ok (some value)⟩ => IdempotencyStore.isPending value
  | _ => true

theorem Demo.not_hit {tr : Trace BrokerSig} (unanswered : tr.all Demo.unanswered = true)
    (document : Json) : ¬ Hit Demo.lib tr document := by
  intro ⟨name, value, found, complete, _⟩
  have pending := List.all_eq_true.mp unanswered _ (List.mem_of_find?_eq_some found)
  rw [Demo.unanswered, complete] at pending
  cases pending

/-- A listing has no secret. -/
theorem outcome_sealed_iff_demo : ∃ (c : Broker) (t : Thread BrokerSig Request Response)
    (req : InvokeRequest) (o : InvokeOutcome),
    (broker Demo.lib Demo.services false).Reaches (.start (World.fresh Demo.midnight)) c ∧
      c.threads[2]? = some t ∧ t.req = .invoke req ∧ t.prog = .ret (.outcome o) ∧
      demoAccessToken ∈ credentials t.trace ∧ demoAccessToken ∈ c.world.secrets ∧
      bodies t.trace ≠ [] ∧ Sealed Demo.lib Demo.services false c.world.secrets req t.trace o := by
  have computed : (Demo.played false
      (Demo.issued ++ Demo.invocation [] (some "k") :: Demo.run 2 26)).any (fun c =>
        c.threads[2]?.any fun t => (Demo.outcome t).isSome && t.trace.all Demo.unanswered &&
          decide (lastRegistry t.trace = []) && !(bodies t.trace).isEmpty &&
          (bodies t.trace).all (fun body => decide (Free c.world.secrets body.texts)) &&
          decide (demoAccessToken ∈ credentials t.trace)) = true := by decide +kernel
  obtain ⟨c, run, computed⟩ := Demo.reached computed
  obtain ⟨t, thread, computed⟩ := (Option.any_eq_true _ _).mp computed
  simp only [Bool.and_eq_true, decide_eq_true_eq] at computed
  obtain ⟨⟨⟨⟨⟨finished, unanswered⟩, unread⟩, some_⟩, free⟩, handled⟩ := computed
  obtain ⟨⟨req, o⟩, finished⟩ := Option.isSome_iff_exists.mp finished
  obtain ⟨request, finished⟩ := Demo.of_outcome finished
  obtain ⟨iff, -, registered, -⟩ := outcome_sealed_iff run thread request finished
  refine ⟨c, t, req, o, run, thread, request, finished, handled,
    (registered demoAccessToken handled (by decide)).1, by simpa using some_, (iff ?_).mpr ⟨?_, ?_⟩⟩
  · rw [unread]
    intro s member
    cases member
  · intro body member
    exact of_decide_eq_true (List.all_eq_true.mp free body member)
  · intro document hit
    exact (Demo.not_hit unanswered document hit).elim

/-- The name under which an event stores a result. -/
def Demo.storedUnder (e : Event BrokerSig) : Option Str :=
  match e.op with
  | .redis (.set name _ false _) => some name
  | _ => none

/-- The provider echoes the access token that it was sent: the caller is given it, and it is
stored in Redis. -/
theorem outcome_leaks : ∃ (c : Broker) (t : Thread BrokerSig Request Response)
    (req : InvokeRequest) (o : InvokeOutcome) (name : Str) (entry : Redis.Entry),
    (broker Demo.lib Demo.services false).Reaches (.start (World.fresh Demo.midnight)) c ∧
      c.threads[2]? = some t ∧ t.req = .invoke req ∧ t.prog = .ret (.outcome o) ∧
      demoAccessToken ∈ credentials t.trace ∧ 8 ≤ demoAccessToken.length ∧
      demoAccessToken ∈ c.world.secrets ∧ demoAccessToken ∈ o.result.texts ∧
      c.world.redis.table name = some entry ∧ demoAccessToken <:+: entry.value ∧
      ¬ Sealed Demo.lib Demo.services false c.world.secrets req t.trace o := by
  have computed : (Demo.played false
      (Demo.issued ++ Demo.invocation [] (some "k") :: Demo.call 2 26
        (.obj [("files", .arr []), ("authorization", .str demoAccessToken)]))).any (fun c =>
          decide (demoAccessToken ∈ c.world.secrets) && c.threads[2]?.any fun t =>
            decide (demoAccessToken ∈ credentials t.trace) &&
            (Demo.outcome t).any (fun ended => decide (demoAccessToken ∈ ended.2.result.texts)) &&
            t.trace.any fun e => (Demo.storedUnder e).any fun name =>
              (c.world.redis.table name).any fun entry => entry.value.contains demoAccessToken) =
      true := by decide +kernel
  obtain ⟨c, run, computed⟩ := Demo.reached computed
  simp only [Bool.and_eq_true, decide_eq_true_eq] at computed
  obtain ⟨registered, computed⟩ := computed
  obtain ⟨t, thread, computed⟩ := (Option.any_eq_true _ _).mp computed
  simp only [Bool.and_eq_true, decide_eq_true_eq, List.any_eq_true] at computed
  obtain ⟨⟨handled, shown⟩, e, -, stored⟩ := computed
  obtain ⟨⟨req, o⟩, finished, shows⟩ := (Option.any_eq_true _ _).mp shown
  obtain ⟨request, finished⟩ := Demo.of_outcome finished
  obtain ⟨name, -, stored⟩ := (Option.any_eq_true _ _).mp stored
  obtain ⟨entry, found, holds⟩ := (Option.any_eq_true _ _).mp stored
  have shows : demoAccessToken ∈ o.result.texts := of_decide_eq_true shows
  exact ⟨c, t, req, o, name, entry, run, thread, request, finished, handled, by decide, registered,
    shows, found, contains_iff.mp holds, fun whole =>
      whole.result demoAccessToken registered demoAccessToken shows List.infix_rfl⟩

end CredBroker
