import CredBroker.Acknowledged
import CredBroker.Demo
import CredBroker.Gateway

/-!
# The served API is a front

`gateway` is the broker behind a front: each of its runs is a run of the broker in which
the calls that were passed on have requests of their own. What a client is told of a
success is in the tables.
-/

namespace CredBroker

open Python Interaction

/-! ## The front -/

section Front

variable (lib : Lib) (svc : Services) (wire : Wire) (consoleToken : Str)

/-- What a call is handled by, whatever its method does. -/
def handled : Call wire → BrokerProg (Reply wire) → BrokerProg (Reply wire)
  | .requestGrant _ | .invokeTool _ | .revokeGrant _ => rpcErrorGuard wire
  | .console .. | .authorize .. | .callback _ => httpHandled wire

/-- The request that an endpoint of the console makes. -/
def Endpoint.request : Endpoint → Request
  | .createAgent body => .createAgent body
  | .createGrant body => .requestGrant body.agentId body.toolName body.requestedScope
  | .revokeGrant grantId => .revokeGrant grantId
  | .invokeTool body => .invoke body.request
  | .demoSeed => .seedDemo

/-- The request that a call makes, or what its method does without one. -/
def callRequest : Call wire → Except (BrokerProg (Reply wire)) Request
  | .requestGrant request =>
    match parseUuid lib wire request.agentId "agent_id" with
    | .error aborted => .error (return aborted)
    | .ok agentId => .ok (.requestGrant agentId request.toolName request.requestedScope)
  | .invokeTool request =>
    match wire.messageToDict request.arguments with
    | .error exc => .error (.throw exc)
    | .ok arguments => .ok (.invoke (invokeRequest wire request arguments))
  | .revokeGrant request =>
    match parseUuid lib wire request.grantId "grant_id" with
    | .error aborted => .error (return aborted)
    | .ok grantId => .ok (.revokeGrant grantId)
  | .console token endpoint =>
    match requireConsoleAuth consoleToken token with
    | .error exc => .error (.throw exc)
    | .ok () => .ok endpoint.request
  | .authorize provider userId => .ok (.authorize provider userId)
  | .callback request => .ok (.callback request)

/-- What the method of a call makes of the end of its request, which ends in no other way. -/
def methodReply : Call wire → Except PyExn Response → BrokerProg (Reply wire)
  | .requestGrant _, .ok (.issued issued) => grantReply wire (.ok issued)
  | .requestGrant _, .error exc => grantReply wire (.error exc)
  | .invokeTool _, .ok (.outcome outcome) => invokeReply wire (.ok outcome)
  | .revokeGrant _, .ok (.revoked grant) => revokeReply wire (.ok grant)
  | .revokeGrant _, .error exc => revokeReply wire (.error exc)
  | .console _ (.createAgent _), .ok (.agent agent) => return agentDict wire agent
  | .console _ (.createGrant _), .ok (.issued issued) => createGrantReply wire (.ok issued)
  | .console _ (.createGrant _), .error exc => createGrantReply wire (.error exc)
  | .console _ (.revokeGrant _), .ok (.revoked grant) => revokedReply wire (.ok grant)
  | .console _ (.revokeGrant _), .error exc => revokedReply wire (.error exc)
  | .console _ (.invokeTool _), .ok (.outcome outcome) => return .outcome outcome
  | .console _ .demoSeed, .ok (.seeded report) => return seedDict wire report
  | .authorize .., .ok (.state state) => return .redirect (buildAuthorizeUrl svc.settings state)
  | .callback _, .ok (.connected accountId) => return .connected accountId.str oauthProvider
  | _, .error exc => .throw exc
  | _, .ok _ => .throw (.assertionError [])

/-- The served API, as a front of the broker. -/
def apiFront : Front BrokerSig (Call wire) (Reply wire) Request Response where
  route call := (callRequest lib wire consoleToken call).mapError (handled wire call)
  finish call ended := handled wire call (methodReply svc wire call ended)

variable {svc wire}

/-- A handler is left to itself from the end of the request on. -/
theorem handled_attempt {α : Type} (call : Call wire) (p : BrokerProg α)
    (f : Except PyExn α → BrokerProg (Reply wire)) :
    handled wire call (p.attempt >>= f) =
      p.attempt >>= fun ended => handled wire call (f ended) := by
  cases call <;> exact Prog.attempt_bind_attempt p f _

/-- The same where the method only renders the value of the request. -/
theorem handled_map {α : Type} (call : Call wire) (p : BrokerProg α) (f : α → Reply wire) :
    handled wire call (f <$> p) =
      p.attempt >>= fun ended => handled wire call (.ofExcept (ended.map f)) := by
  have unchanged : ∀ h : Except PyExn (Reply wire) → BrokerProg (Reply wire),
      ((f <$> p).attempt >>= h) =
        p.attempt >>= fun ended =>
          (Prog.ofExcept (ended.map f) : BrokerProg (Reply wire)).attempt >>= h := by
    intro h
    rw [Prog.map_attempt_bind]
    exact congrArg _ (funext fun ended => by cases ended <;> rfl)
  cases call <;> exact unchanged _

/-- The reply that a request's program is rendered to. -/
theorem served_eq {α : Type} {call : Call wire} {p : BrokerProg α} {g : α → Response}
    {f : Except PyExn α → BrokerProg (Reply wire)}
    (renders : ∀ ended : Except PyExn α, methodReply svc wire call (ended.map g) = f ended) :
    ((g <$> p).attempt >>= fun ended => handled wire call (methodReply svc wire call ended)) =
      p.attempt >>= fun ended => handled wire call (f ended) := by
  rw [Prog.map_attempt_bind]
  exact congrArg _ (funext fun ended => congrArg _ (renders ended))

theorem answerCall_eq (lossy : Bool) (call : Call wire) :
    answerCall lib svc wire consoleToken call =
      (apiFront lib svc wire consoleToken).entry (broker lib svc lossy) call := by
  unfold Front.entry apiFront
  cases call with
  | requestGrant request =>
    show rpcErrorGuard wire _ = _
    simp only [callRequest]
    cases parseUuid lib wire request.agentId "agent_id" with
    | error aborted => rfl
    | ok agentId =>
      refine (handled_attempt (.requestGrant request) _ _).trans (served_eq fun ended => ?_).symm
      cases ended <;> rfl
  | invokeTool request =>
    show rpcErrorGuard wire _ = _
    simp only [callRequest]
    cases wire.messageToDict request.arguments with
    | error exc => rfl
    | ok arguments =>
      refine (handled_attempt (.invokeTool request) _ _).trans (served_eq fun ended => ?_).symm
      cases ended <;> rfl
  | revokeGrant request =>
    show rpcErrorGuard wire _ = _
    simp only [callRequest]
    cases parseUuid lib wire request.grantId "grant_id" with
    | error aborted => rfl
    | ok grantId =>
      refine (handled_attempt (.revokeGrant request) _ _).trans (served_eq fun ended => ?_).symm
      cases ended <;> rfl
  | console token endpoint =>
    show httpHandled wire _ = _
    simp only [callRequest]
    cases requireConsoleAuth consoleToken token with
    | error exc => rfl
    | ok _ =>
      cases endpoint with
      | createGrant body =>
        refine (handled_attempt (.console token (.createGrant body)) _ _).trans
          (served_eq fun ended => ?_).symm
        cases ended <;> rfl
      | revokeGrant grantId =>
        refine (handled_attempt (.console token (.revokeGrant grantId)) _ _).trans
          (served_eq fun ended => ?_).symm
        cases ended <;> rfl
      | createAgent body =>
        refine (handled_map (.console token (.createAgent body)) _ _).trans
          (served_eq fun ended => ?_).symm
        cases ended <;> rfl
      | invokeTool body =>
        refine (handled_map (.console token (.invokeTool body)) _ _).trans
          (served_eq fun ended => ?_).symm
        cases ended <;> rfl
      | demoSeed =>
        refine (handled_map (.console token .demoSeed) _ _).trans (served_eq fun ended => ?_).symm
        cases ended <;> rfl
  | authorize provider userId =>
    refine (handled_map (.authorize provider userId) _ _).trans (served_eq fun ended => ?_).symm
    cases ended <;> rfl
  | callback request =>
    refine (handled_map (.callback request) _ _).trans (served_eq fun ended => ?_).symm
    cases ended <;> rfl

theorem gateway_eq (lossy : Bool) : gateway lib svc wire consoleToken lossy =
    (apiFront lib svc wire consoleToken).machine (broker lib svc lossy) := by
  have entries : answerCall lib svc wire consoleToken =
      (apiFront lib svc wire consoleToken).entry (broker lib svc lossy) :=
    funext (answerCall_eq lib consoleToken lossy)
  unfold gateway Front.machine
  rw [entries]
  rfl

/-! ## What the front does by itself -/

/-- Listing the secrets, to scrub a text. -/
def Op.isScrub : Op → Bool
  | .secretRegistry => true
  | _ => false

theorem handled_uses {call : Call wire} {p : BrokerProg (Reply wire)} (uses : Within p Op.isScrub) :
    Within (handled wire call p) Op.isScrub := by
  have guarded : Within (rpcErrorGuard wire p) Op.isScrub := by
    refine .bind (.attempt uses) fun ended => ?_
    split
    · trivial
    · exact .ite (fun _ => .bind (.bind (within_op rfl) fun _ => trivial) fun _ => trivial)
        fun _ => trivial
  have answered : Within (httpHandled wire p) Op.isScrub := by
    refine .bind (.attempt uses) fun ended => ?_
    split
    · trivial
    · trivial
    · exact .ite (fun _ => trivial) fun _ => trivial
  cases call <;> first | exact guarded | exact answered

theorem callRequest_refuses {call : Call wire} {p : BrokerProg (Reply wire)}
    (refused : callRequest lib wire consoleToken call = .error p) :
    (∃ details, p = .ret (.abort .invalidArgument details)) ∨ ∃ x, p = .throw x := by
  have aborts : ∀ {raw field : Str} {reply : Reply wire},
      parseUuid lib wire raw field = .error reply →
      ∃ details, Prog.ret reply =
        (Prog.ret (.abort .invalidArgument details) : BrokerProg (Reply wire)) := by
    intro raw field reply failed
    unfold parseUuid at failed
    split at failed
    · cases failed
    · exact ⟨_, congrArg Prog.ret (Except.error.inj failed).symm⟩
  cases call with
  | requestGrant request =>
    simp only [callRequest] at refused
    split at refused
    · rename_i reply failed
      exact .inl (Except.error.inj refused ▸ aborts failed)
    · cases refused
  | invokeTool request =>
    simp only [callRequest] at refused
    split at refused
    · exact .inr ⟨_, (Except.error.inj refused).symm⟩
    · cases refused
  | revokeGrant request =>
    simp only [callRequest] at refused
    split at refused
    · rename_i reply failed
      exact .inl (Except.error.inj refused ▸ aborts failed)
    · cases refused
  | console token endpoint =>
    simp only [callRequest] at refused
    split at refused
    · exact .inr ⟨_, (Except.error.inj refused).symm⟩
    · cases refused
  | authorize provider userId => cases refused
  | callback request => cases refused

/-- No method performs anything after its request is over. -/
theorem methodReply_uses {P : Op → Prop} (call : Call wire) (ended : Except PyExn Response) :
    (methodReply svc wire call ended).Uses P := by
  have grants : ∀ ended, (grantReply wire ended).Uses P := by
    intro ended
    unfold grantReply
    split
    · trivial
    · split <;> trivial
  have invokes : ∀ ended, (invokeReply wire ended).Uses P := by
    intro ended
    unfold invokeReply
    split
    · trivial
    · split
      · trivial
      · trivial
      · exact .bind (Prog.uses_ofExcept _) fun _ => trivial
  have revokes : ∀ ended, (revokeReply wire ended).Uses P := by
    intro ended
    unfold revokeReply
    split <;> trivial
  unfold methodReply
  split <;> first | trivial | apply grants | apply invokes | apply revokes

theorem apiFront_silent (lossy : Bool) :
    (apiFront lib svc wire consoleToken).Silent (broker lib svc lossy) (·.isScrub = true) where
  route call p turned := by
    simp only [apiFront] at turned
    cases refused : callRequest lib wire consoleToken call with
    | ok r =>
      rw [refused] at turned
      cases turned
    | error q =>
      rw [refused] at turned
      obtain rfl := Except.error.inj turned
      apply handled_uses
      rcases callRequest_refuses lib consoleToken refused with ⟨details, rfl⟩ | ⟨x, rfl⟩ <;> trivial
  finish call ended := handled_uses (methodReply_uses call ended)
  still w tr e a is := by
    cases e with
    | secretRegistry => rfl
    | _ => cases is

/-- Every run of the served API is a run of the broker behind its front. -/
theorem served_behind {lossy : Bool} {w : World}
    {g : Config BrokerSig (Call wire) (Reply wire) World}
    (run : (gateway lib svc wire consoleToken lossy).Reaches (.start w) g) :
    ∃ b place, (broker lib svc lossy).Reaches (.start w) b ∧
      (apiFront lib svc wire consoleToken).Behind g b place := by
  rw [gateway_eq] at run
  exact Front.behind (apiFront_silent lib consoleToken lossy) run

theorem handled_returns {R : Reply wire → Prop} {call : Call wire} {p : BrokerProg (Reply wire)}
    (returns : p.Returns R) (internal : R (.abort .internal "internal error"))
    (errors : ∀ statusCode detail, R (.httpError statusCode detail)) :
    (handled wire call p).Returns R := by
  have guarded : (rpcErrorGuard wire p).Returns R := by
    refine .bind_of returns.attempt fun ended is => ?_
    split
    · exact is _ rfl
    · split
      · exact .bind fun _ => internal
      · trivial
  have answered : (httpHandled wire p).Returns R := by
    refine .bind_of returns.attempt fun ended is => ?_
    split
    · exact is _ rfl
    · exact errors _ _
    · split
      · exact errors _ _
      · trivial
  cases call <;> first | exact guarded | exact answered

/-- Who gets past `require_console_auth`. -/
theorem requireConsoleAuth_ok {token : Option Str}
    (passed : requireConsoleAuth consoleToken token = .ok ()) :
    consoleToken = [] ∨ token = some consoleToken := by
  simp only [requireConsoleAuth] at passed
  split at passed
  · exact .inl (by assumption)
  · cases token with
    | none => cases passed
    | some token =>
      dsimp only at passed
      cases compared : compareDigest token consoleToken with
      | error x =>
        rw [compared] at passed
        cases passed
      | ok same =>
        rw [compared] at passed
        cases same with
        | false => cases passed
        | true =>
          unfold compareDigest at compared
          split at compared
          · exact .inr (congrArg some (eq_of_beq (Except.ok.inj compared)))
          · cases compared

/-- An error, of gRPC or of HTTP. -/
def Reply.isRefusal : Reply wire → Bool
  | .abort .. | .httpError .. => true
  | _ => false

variable {lib consoleToken} {lossy : Bool} {w : World}
  {g : Config BrokerSig (Call wire) (Reply wire) World} {b : Broker} {place : Nat → Option Nat}

/-- The request of a call that was passed on. -/
theorem served_request {t : Thread BrokerSig (Call wire) (Reply wire)}
    {u : Thread BrokerSig Request Response}
    (served : (apiFront lib svc wire consoleToken).Served t u) :
    callRequest lib wire consoleToken t.req = .ok u.req := by
  have routed : (callRequest lib wire consoleToken t.req).mapError (handled wire t.req) =
      .ok u.req := by
    cases served with
    | running route _ _ => exact route
    | finishing _ route _ _ _ => exact route
  cases refused : callRequest lib wire consoleToken t.req with
  | ok r =>
    rw [refused] at routed
    exact congrArg Except.ok (Except.ok.inj routed)
  | error q =>
    rw [refused] at routed
    cases routed

/-- The reply to a call that was passed on is what its method makes of the end of its request,
or an error. -/
theorem served_returns {t : Thread BrokerSig (Call wire) (Reply wire)}
    {u : Thread BrokerSig Request Response}
    (served : (apiFront lib svc wire consoleToken).Served t u)
    {reply : Reply wire} (returned : t.prog = .ret reply) : ∃ ended, u.prog = .ofExcept ended ∧
      ∀ R : Reply wire → Prop, (methodReply svc wire t.req ended).Returns R →
        R (.abort .internal "internal error") →
        (∀ statusCode detail, R (.httpError statusCode detail)) → R reply := by
  obtain ⟨ended, halted, left⟩ := served.reply returned
  exact ⟨ended, halted, fun R returns internal errors =>
    left.returns (handled_returns returns internal errors)⟩

/-- A call without a request of its own performs nothing, and is refused. -/
theorem turned_away (run : (gateway lib svc wire consoleToken lossy).Reaches (.start w) g)
    (behind : (apiFront lib svc wire consoleToken).Behind g b place) {i : Nat}
    {t : Thread BrokerSig (Call wire) (Reply wire)} (thread : g.threads[i]? = some t)
    (without : place i = none) :
    (∀ e ∈ t.trace, e.op = .secretRegistry) ∧
      ∀ reply, t.prog = .ret reply → reply.isRefusal = true := by
  rcases behind.threads i t thread with ⟨-, p, route, left⟩ | ⟨j, -, at_, -⟩
  · have entry : (gateway lib svc wire consoleToken lossy).entry t.req = p := by
      rw [gateway_eq]
      show Front.entry _ _ _ = p
      rw [Front.entry, route]
    have uses := (apiFront_silent lib consoleToken lossy).route t.req p route
    refine ⟨fun e member => ?_, fun reply halted => ?_⟩
    · obtain ⟨pre, post, cut⟩ := List.append_of_mem member
      have under : wp (gateway lib svc wire consoleToken lossy)
        (.guarding fun _ e => e.isScrub = true)
          ((gateway lib svc wire consoleToken lossy).entry t.req) (fun _ _ => True) [] := by
        rw [entry]
        exact wp_guarded uses fun _ _ is => is
      have sub : pre ++ [e] <+: t.trace :=
        ⟨post, by rw [cut, List.append_assoc, List.singleton_append]⟩
      have scrubs : e.op.isScrub = true :=
        Machine.Reaches.kept run thread under (Role.met_guarding _ _) sub
      obtain ⟨op, ans⟩ := e
      cases op with
      | secretRegistry => rfl
      | _ => cases scrubs
    · have refuses : p.Returns (·.isRefusal = true) := by
        simp only [apiFront] at route
        cases refused : callRequest lib wire consoleToken t.req with
        | ok r =>
          rw [refused] at route
          cases route
        | error q =>
          rw [refused] at route
          obtain rfl := Except.error.inj route
          refine handled_returns ?_ rfl fun _ _ => rfl
          rcases callRequest_refuses lib consoleToken refused with ⟨details, rfl⟩ | ⟨x, rfl⟩
          · exact rfl
          · trivial
      rw [halted] at left
      exact left.returns refuses
  · rw [without] at at_
    cases at_

/-- The served API is the broker to those it lets in: the calls that were passed on have
requests of their own in a run of the broker over the same world; any other call does no more
than list the secrets, and is refused; and a console call is passed on with the token only. -/
theorem gateway_refined (run : (gateway lib svc wire consoleToken lossy).Reaches (.start w) g) :
    ∃ b place, (broker lib svc lossy).Reaches (.start w) b ∧
      (apiFront lib svc wire consoleToken).Behind g b place ∧
      (∀ i t, g.threads[i]? = some t → place i = none → (∀ e ∈ t.trace, e.op = .secretRegistry) ∧
        ∀ reply, t.prog = .ret reply → reply.isRefusal = true) ∧
      ∀ i t token endpoint, g.threads[i]? = some t → t.req = .console token endpoint →
        (place i).isSome = true → consoleToken ≠ [] → token = some consoleToken := by
  obtain ⟨b, place, reached, behind⟩ := served_behind lib consoleToken run
  refine ⟨b, place, reached, behind,
    fun i t thread without => turned_away run behind thread without,
    fun i t token endpoint thread call passed guarded => ?_⟩
  rcases behind.threads i t thread with ⟨without, -⟩ | ⟨j, u, -, -, served⟩
  · rw [without] at passed
    cases passed
  · have route := served_request served
    rw [call] at route
    simp only [callRequest] at route
    cases auth : requireConsoleAuth consoleToken token with
    | error x =>
      rw [auth] at route
      cases route
    | ok _ => exact (requireConsoleAuth_ok consoleToken auth).resolve_left guarded

end Front

namespace Demo

/-- Messages whose `Struct`s are JSON objects. -/
def wire : Wire where
  Struct := Arguments
  messageToDict := .ok
  parseDict
    | .obj members => .ok members
    | _ => .error (.other "ParseError" "Struct must be in a dict")

def consoleToken : Str := "console-token"

def apiRun (i n : Nat) : List (Act BrokerSig (Call wire) World World.Nudge) :=
  List.replicate n (.answer i healthy)

/-- A seed without the console token, one with it, and a grant for the demo agent. -/
def apiCalls : List (Act BrokerSig (Call wire) World World.Nudge) :=
  .spawn (.console none .demoSeed) :: .spawn (.console (some consoleToken) .demoSeed) ::
    apiRun 1 14 ++ .spawn (.requestGrant ⟨agentId.str, "drive.read", "read"⟩) :: apiRun 2 12

/-- What can be computed of the end of a script holds of a reachable configuration. -/
theorem api_reached {P : Config BrokerSig (Call wire) (Reply wire) World → Bool}
    (holds : (Config.play (gateway lib services wire consoleToken false)
      (.start (World.fresh midnight)) apiCalls).any P = true) :
    ∃ g, (gateway lib services wire consoleToken false).Reaches (.start (World.fresh midnight)) g ∧
      P g = true := by
  obtain ⟨g, at_, there⟩ := (Option.any_eq_true _ _).mp holds
  exact ⟨g, Config.play_reaches at_, there⟩

/-- The reply to a call that is over. -/
def reply (t : Thread BrokerSig (Call wire) (Reply wire)) : Option (Reply wire) :=
  match t.prog with
  | .ret reply => some reply
  | _ => none

/-- A seed without the console token. -/
def isSeedCall (t : Thread BrokerSig (Call wire) (Reply wire)) : Bool :=
  match t.req with
  | .console none .demoSeed => true
  | _ => false

theorem of_isSeedCall {t : Thread BrokerSig (Call wire) (Reply wire)} (is : isSeedCall t = true) :
    t.req = .console none .demoSeed := by
  unfold isSeedCall at is
  split at is
  · assumption
  · cases is

theorem of_reply {t : Thread BrokerSig (Call wire) (Reply wire)} {r : Reply wire}
    (is : reply t = some r) : t.prog = .ret r := by
  unfold reply at is
  split at is
  · rename_i halted
    rw [halted, Option.some.inj is]
  · cases is

end Demo

/-- The demo deployment: the seed without the token is refused, and the grant is the broker's. -/
theorem gateway_refined_demo :
    ∃ g, (gateway Demo.lib Demo.services Demo.wire Demo.consoleToken false).Reaches
        (.start (World.fresh Demo.midnight)) g ∧
      g.threads.length = 3 ∧ ∃ b place,
        (broker Demo.lib Demo.services false).Reaches (.start (World.fresh Demo.midnight)) b ∧
        (apiFront Demo.lib Demo.services Demo.wire Demo.consoleToken).Behind g b place ∧
        b.world.db.grants ≠ [] := by
  have computed : (Config.play (gateway Demo.lib Demo.services Demo.wire Demo.consoleToken false)
      (.start (World.fresh Demo.midnight)) Demo.apiCalls).any
        (fun g => g.threads.length = 3 && !g.world.db.grants.isEmpty) = true := by
    decide +kernel
  obtain ⟨g, run, computed⟩ := Demo.api_reached computed
  simp only [Bool.and_eq_true, decide_eq_true_eq, Bool.not_eq_true',
    List.isEmpty_eq_false_iff] at computed
  obtain ⟨b, place, reached, behind, -⟩ := gateway_refined run
  exact ⟨g, run, computed.1, b, place, reached, behind, behind.world ▸ computed.2⟩

/-! ## What a client is told of a success -/

section Affirmed

variable (lib : Lib) (wire : Wire) (db : Database)

/-- A tool call is in the log, of the grant whose token came with it. -/
def Logged (token toolName : Str) (arguments : Arguments) (status : Status) : Prop :=
  ∃ grant ∈ db.grants, grant.grantTokenHash = hashToken lib token ∧ ∃ row ∈ db.audit,
    row.grantId = grant.id ∧ row.toolName = toolName ∧
      row.argumentsHash = hashArguments lib arguments ∧ row.status = status

/-- A grant is in the table, with the token and the expiry that a reply gave. -/
def Granted (agentId : Uuid) (toolName scope token : Str) (expiresAt : Time)
    (grantId : Str) : Prop :=
  ∃ grant ∈ db.grants, grant.id.str = grantId ∧ grant.agentId = agentId ∧
    grant.toolName = toolName ∧ grant.scope = scope ∧ grant.expiresAt = expiresAt ∧
    grant.grantTokenHash = hashToken lib token

def Withdrawn (grantId : Uuid) : Prop :=
  ∃ grant ∈ db.grants, grant.id = grantId ∧ grant.revokedAt.isSome = true

/-- What the tables have to say of a reply. -/
def Affirms : Call wire → Reply wire → Prop
  | .requestGrant request, .grantResponse token expiresAt grantId => ∃ agentId,
      Uuid.parse lib.decimal request.agentId = .ok agentId ∧
        Granted lib db agentId request.toolName request.requestedScope token expiresAt grantId
  | .invokeTool request, .invokeResponse _ status => status = .success ∧ ∃ arguments,
      wire.messageToDict request.arguments = .ok arguments ∧
        Logged lib db request.grantToken request.toolName arguments .success
  | .invokeTool request, .abort .unavailable _ => ∃ arguments,
      wire.messageToDict request.arguments = .ok arguments ∧
        Logged lib db request.grantToken request.toolName arguments .failed
  | .revokeGrant request, .revokeResponse revoked => revoked = true ∧ ∃ grantId,
      Uuid.parse lib.decimal request.grantId = .ok grantId ∧ Withdrawn db grantId
  | .console _ (.createAgent body), .agent id userId name allowedScopes => ∃ agent ∈ db.agents,
      agentDict wire agent = .agent id userId name allowedScopes ∧ name = body.name ∧
        allowedScopes = body.allowedScopes
  | .console _ (.createGrant body), .issued grantId token expiresAt =>
      Granted lib db body.agentId body.toolName body.requestedScope token expiresAt grantId
  | .console _ (.revokeGrant grantId), .revoked => Withdrawn db grantId
  | .console _ (.invokeTool body), .outcome outcome => outcome.status ≠ .denied →
      Logged lib db body.grantToken body.toolName body.arguments outcome.status
  | .console _ .demoSeed, .seeded userId agentId accountId _ => ∃ agent ∈ db.agents,
      ∃ account ∈ db.accounts, agent.id.str = agentId ∧ agent.userId.str = userId ∧
        agent.name = demoAgentName ∧ account.id.str = accountId ∧ account.userId = agent.userId ∧
        account.provider = demoProvider
  | .authorize .., .redirect _ => True
  | .callback _, .connected accountId provider => ∃ account ∈ db.accounts,
      account.id.str = accountId ∧ account.provider = provider
  | _, .abort .. | _, .httpError .. => True
  | _, _ => False

variable {lib wire db} {svc : Services} {tr : Trace BrokerSig}

theorem Affirms.httpError (call : Call wire) (statusCode : Nat) (detail : Str) :
    Affirms lib wire db call (.httpError statusCode detail) := by
  cases call with
  | console token endpoint => cases endpoint <;> trivial
  | _ => trivial

/-- An abort says nothing of the tables, unless an invocation is unavailable. -/
theorem Affirms.abort (call : Call wire) {code : StatusCode} (other : code ≠ .unavailable)
    (details : Str) : Affirms lib wire db call (.abort code details) := by
  cases call with
  | invokeTool request => cases code <;> trivial
  | console token endpoint => cases endpoint <;> trivial
  | _ => trivial

theorem grantErrorCode_ne {x : PyExn} {code : StatusCode} (is : grantErrorCode x = some code) :
    code ≠ .unavailable := by
  rintro rfl
  cases x <;> cases is

theorem Granted.of_confirms {agentId : Uuid} {toolName scope : Str} {issued : IssuedGrant}
    (confirms : Confirms lib db tr (.requestGrant agentId toolName scope) (.issued issued)) :
    Granted lib db agentId toolName scope issued.token issued.grant.expiresAt
    issued.grant.id.str := by
  obtain ⟨grant, member, same, agent, tool, scope, hash⟩ := confirms
  have named : grant.issued.id.str = issued.grant.id.str := by rw [same]
  have expires : grant.issued.expiresAt = issued.grant.expiresAt := by rw [same]
  exact ⟨grant, member, named, agent, tool, scope, expires, hash⟩

theorem Withdrawn.of_confirms {grantId : Uuid} {grant : Grant}
    (confirms : Confirms lib db tr (.revokeGrant grantId) (.revoked grant)) :
    Withdrawn db grantId := by
  obtain ⟨row, member, named, -, revoked⟩ := confirms
  exact ⟨row, member, named, revoked⟩

theorem Logged.of_confirms {req : InvokeRequest} {outcome : InvokeOutcome}
    (confirms : Confirms lib db tr (.invoke req) (.outcome outcome))
    (served : outcome.status ≠ .denied) :
    Logged lib db req.grantToken req.toolName req.arguments outcome.status := by
  rcases confirms with
    ⟨grant, there, hash, row, member, named, tool, arguments, status, -⟩ | ⟨-, denied⟩
  · exact ⟨grant, there, hash, row, member, named, tool, arguments, status⟩
  · exact absurd denied served

theorem parseUuid_ok {raw field : Str} {id : Uuid}
    (parsed : parseUuid lib wire raw field = .ok id) : Uuid.parse lib.decimal raw = .ok id := by
  unfold parseUuid at parsed
  split at parsed
  · rename_i parsed'
    obtain rfl := Except.ok.inj parsed
    exact parsed'
  · cases parsed

/-- A grant that is refused is told with a code, or as an internal error. -/
theorem grantReply_affirmed (call : Call wire) (x : PyExn) :
    (grantReply wire (.error x)).Returns (Affirms lib wire db call) := by
  unfold grantReply
  dsimp only
  split
  · rename_i code is
    exact Affirms.abort _ (grantErrorCode_ne is) _
  · trivial

/-- What `InvokeTool` says of an outcome that was not denied is in the log. -/
theorem invokeReply_affirmed {request : InvokeMessage wire} {arguments : Arguments}
    (read : wire.messageToDict request.arguments = .ok arguments) {outcome : InvokeOutcome}
    (logged : outcome.status ≠ .denied →
      Logged lib db request.grantToken request.toolName arguments outcome.status) :
    (invokeReply wire (.ok outcome)).Returns (Affirms lib wire db (.invokeTool request)) := by
  unfold invokeReply
  dsimp only
  split
  · exact Affirms.abort _ (by split <;> simp) _
  · rename_i status
    rw [status] at logged
    exact ⟨arguments, read, logged (by simp)⟩
  · rename_i status
    rw [status] at logged
    exact .bind fun result => ⟨status, arguments, read, logged (by simp)⟩

/-- What an endpoint of the console makes of the end of its request. -/
theorem endpointReply_affirmed {token : Option Str} {endpoint : Endpoint}
    {ended : Except PyExn Response}
    (confirms : ∀ v, ended = .ok v → Confirms lib db tr endpoint.request v) :
    (methodReply svc wire (.console token endpoint) ended).Returns
      (Affirms lib wire db (.console token endpoint)) := by
  cases endpoint with
  | createAgent body =>
    rcases ended with x | v
    · trivial
    · cases v with
      | agent agent =>
        obtain ⟨member, name, scopes, -⟩ := confirms _ rfl
        exact ⟨agent, member, rfl, name, scopes⟩
      | _ => trivial
  | createGrant body =>
    rcases ended with x | v
    · trivial
    · cases v with
      | issued issued => exact Granted.of_confirms (confirms _ rfl)
      | _ => trivial
  | revokeGrant grantId =>
    rcases ended with x | v
    · trivial
    · cases v with
      | revoked grant => exact Withdrawn.of_confirms (confirms _ rfl)
      | _ => trivial
  | invokeTool body =>
    rcases ended with x | v
    · trivial
    · cases v with
      | outcome outcome => exact Logged.of_confirms (confirms _ rfl)
      | _ => trivial
  | demoSeed =>
    rcases ended with x | v
    · trivial
    · cases v with
      | seeded report =>
        obtain ⟨agent, member, account, member', id, user, name, id', user', provider⟩ :=
          confirms _ rfl
        exact ⟨agent, member, account, member', congrArg Uuid.str id, congrArg Uuid.str user,
          name, congrArg Uuid.str id', user'.trans user.symm, provider⟩
      | _ => trivial

/-- What a method makes of the end of its request, the tables affirm. -/
theorem methodReply_affirmed {consoleToken : Str} {call : Call wire} {r : Request}
    (route : callRequest lib wire consoleToken call = .ok r) {ended : Except PyExn Response}
    (confirms : ∀ v, ended = .ok v → Confirms lib db tr r v) :
    (methodReply svc wire call ended).Returns (Affirms lib wire db call) := by
  cases call with
  | requestGrant request =>
    simp only [callRequest] at route
    split at route
    · cases route
    · rename_i agentId parsed
      obtain rfl := Except.ok.inj route
      rcases ended with x | v
      · exact grantReply_affirmed _ x
      · cases v with
        | issued issued => exact ⟨agentId, parseUuid_ok parsed, .of_confirms (confirms _ rfl)⟩
        | _ => trivial
  | invokeTool request =>
    simp only [callRequest] at route
    split at route
    · cases route
    · rename_i arguments read
      obtain rfl := Except.ok.inj route
      rcases ended with x | v
      · trivial
      · cases v with
        | outcome outcome => exact invokeReply_affirmed read (Logged.of_confirms (confirms _ rfl))
        | _ => trivial
  | revokeGrant request =>
    simp only [callRequest] at route
    split at route
    · cases route
    · rename_i grantId parsed
      obtain rfl := Except.ok.inj route
      rcases ended with x | v
      · show (revokeReply wire (.error x)).Returns _
        unfold revokeReply
        split <;> trivial
      · cases v with
        | revoked grant =>
          exact ⟨rfl, grantId, parseUuid_ok parsed, .of_confirms (confirms _ rfl)⟩
        | _ => trivial
  | console token endpoint =>
    simp only [callRequest] at route
    split at route
    · cases route
    · obtain rfl := Except.ok.inj route
      exact endpointReply_affirmed confirms
  | authorize provider userId =>
    rcases ended with x | v
    · trivial
    · cases v <;> trivial
  | callback request =>
    obtain rfl := Except.ok.inj route
    rcases ended with x | v
    · trivial
    · cases v with
      | connected id =>
        obtain ⟨account, member, named, provider⟩ := confirms _ rfl
        exact ⟨account, member, congrArg Uuid.str named, provider⟩
      | _ => trivial

variable {consoleToken : Str} {lossy : Bool} {now : Time}
  {g g' : Config BrokerSig (Call wire) (Reply wire) World}

/-- A call that was not let in is told so. -/
theorem refusal_told
    (run : (gateway lib svc wire consoleToken lossy).Reaches (.start (World.fresh now)) g)
    {i : Nat} {t : Thread BrokerSig (Call wire) (Reply wire)} (thread : g.threads[i]? = some t)
    {reply : Reply wire} (returned : t.prog = .ret reply) {p : BrokerProg (Reply wire)}
    (refused : callRequest lib wire consoleToken t.req = .error p) : reply.isRefusal = true := by
  obtain ⟨b, place, -, behind⟩ := served_behind lib consoleToken run
  rcases behind.threads i t thread with ⟨without, -⟩ | ⟨j, u, -, -, served⟩
  · exact (turned_away run behind thread without).2 reply returned
  · cases refused.symm.trans (served_request served)

/-- No console call is let in without the token. -/
theorem callRequest_unauthorized (guarded : consoleToken ≠ []) {token : Option Str}
    (without : token ≠ some consoleToken) (endpoint : Endpoint) :
    ∃ p, callRequest lib wire consoleToken (.console token endpoint) = .error p := by
  simp only [callRequest]
  cases auth : requireConsoleAuth consoleToken token with
  | error x => exact ⟨_, rfl⟩
  | ok _ => exact absurd ((requireConsoleAuth_ok consoleToken auth).resolve_left guarded) without

/-- What the tables have to say of a reply, they say when it is given. -/
theorem Affirms.of_returned
    (run : (gateway lib svc wire consoleToken lossy).Reaches (.start (World.fresh now)) g) {i : Nat}
    {t : Thread BrokerSig (Call wire) (Reply wire)} (thread : g.threads[i]? = some t)
    {reply : Reply wire} (returned : t.prog = .ret reply) :
    Affirms lib wire g.world.db t.req reply := by
  obtain ⟨b, place, reached, behind⟩ := served_behind lib consoleToken run
  rcases behind.threads i t thread with ⟨-, p, route, left⟩ | ⟨j, u, at_, thread', served⟩
  · simp only [apiFront] at route
    cases refused : callRequest lib wire consoleToken t.req with
    | ok r =>
      rw [refused] at route
      cases route
    | error q =>
      rw [refused] at route
      obtain rfl := Except.error.inj route
      rw [returned] at left
      refine left.returns (handled_returns ?_ (Affirms.abort _ (by simp) _) (Affirms.httpError _))
      rcases callRequest_refuses lib consoleToken refused with ⟨details, rfl⟩ | ⟨x, rfl⟩
      · exact Affirms.abort _ (by simp) _
      · trivial
  · obtain ⟨ended, halted, renders⟩ := served_returns served returned
    have confirms : ∀ v, ended = .ok v → Confirms lib b.world.db u.trace u.req v := by
      rintro v rfl
      exact Confirms.of_returned reached thread' halted
    rw [← behind.world]
    exact renders _ (methodReply_affirmed (served_request served) confirms)
      (Affirms.abort _ (by simp) _) (Affirms.httpError _)

/-- Whatever a client is told has been done is in the tables when it is told so, and ever
after. A call that was not let in is told an error, and no console call is let in without the
token. -/
theorem reply_affirmed
    (run : (gateway lib svc wire consoleToken lossy).Reaches (.start (World.fresh now)) g) {i : Nat}
    {t : Thread BrokerSig (Call wire) (Reply wire)} (thread : g.threads[i]? = some t)
    {reply : Reply wire} (returned : t.prog = .ret reply)
    (rest : (gateway lib svc wire consoleToken lossy).Reaches g g') :
    Affirms lib wire g'.world.db t.req reply ∧
      (∀ p, callRequest lib wire consoleToken t.req = .error p → reply.isRefusal = true) ∧
      ∀ token endpoint, t.req = .console token endpoint → consoleToken ≠ [] →
        token ≠ some consoleToken → reply.isRefusal = true := by
  have later : g'.threads[i]? = some t :=
    Machine.Reaches.over_mono rest thread (e := .ok reply) returned
  have told : ∀ p, callRequest lib wire consoleToken t.req = .error p → reply.isRefusal = true :=
    fun p refused => refusal_told run thread returned refused
  refine ⟨.of_returned (run.trans rest) later returned, told, ?_⟩
  intro token endpoint call guarded without
  have refused : ∃ p, callRequest lib wire consoleToken (.console token endpoint) = .error p :=
    callRequest_unauthorized guarded without endpoint
  obtain ⟨p, refused⟩ := refused
  exact told p (call ▸ refused)

end Affirmed

/-- The demo agent's grant, and the seed without the token. -/
theorem reply_affirmed_demo : ∃ (g : Config BrokerSig (Call Demo.wire) (Reply Demo.wire) World)
    (t u : Thread BrokerSig (Call Demo.wire) (Reply Demo.wire)) (reply refusal : Reply Demo.wire),
    (gateway Demo.lib Demo.services Demo.wire Demo.consoleToken false).Reaches
        (.start (World.fresh Demo.midnight)) g ∧
      g.threads[2]? = some t ∧ t.prog = .ret reply ∧ reply.isRefusal = false ∧
      Affirms Demo.lib Demo.wire g.world.db t.req reply ∧
      g.threads[0]? = some u ∧ u.prog = .ret refusal ∧ u.req = .console none .demoSeed ∧
      refusal.isRefusal = true := by
  have computed : (Config.play (gateway Demo.lib Demo.services Demo.wire Demo.consoleToken false)
      (.start (World.fresh Demo.midnight)) Demo.apiCalls).any (fun g =>
        (g.threads[2]?.any fun t => (Demo.reply t).any fun reply => !reply.isRefusal) &&
          g.threads[0]?.any fun u => Demo.isSeedCall u && (Demo.reply u).isSome) = true := by
    decide +kernel
  obtain ⟨g, run, computed⟩ := Demo.api_reached computed
  obtain ⟨granting, seeding⟩ := Bool.and_eq_true_iff.mp computed
  obtain ⟨t, thread, granting⟩ := (Option.any_eq_true _ _).mp granting
  obtain ⟨reply, is, granted⟩ := (Option.any_eq_true _ _).mp granting
  obtain ⟨u, thread', seeding⟩ := (Option.any_eq_true _ _).mp seeding
  obtain ⟨seed, answered⟩ := Bool.and_eq_true_iff.mp seeding
  obtain ⟨refusal, is'⟩ := Option.isSome_iff_exists.mp answered
  have halted := Demo.of_reply is
  have halted' := Demo.of_reply is'
  have call := Demo.of_isSeedCall seed
  exact ⟨g, t, u, reply, refusal, run, thread, halted, by simpa using granted,
    (reply_affirmed run thread halted .refl).1, thread', halted', call,
    (reply_affirmed run thread' halted' .refl).2.2 none .demoSeed call nofun nofun⟩

end CredBroker
