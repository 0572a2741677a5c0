import CredBroker.OAuthState
import CredBroker.Served
import CredBroker.Tokens

/-!
# The connect flow from end to end

The consent URL carries a state that was minted for the user of the call, and nothing
that adds a parameter to it. A callback that presents the state connects an account for
that user, whoever makes it and whenever.
-/

namespace CredBroker

open Python Interaction

variable {lib : Lib} {svc : Services} {lossy : Bool}

/-! ## The state of a redirect -/

/-- A state that `authorize` has made for a user. -/
def StateOf (lib : Lib) (svc : Services) (userId : Uuid) (state : Str) : Prop :=
  '|' ∉ userId.str ∧ ∃ expiryEpoch nonce, '|' ∉ nonce ∧
    state = stateOf lib svc (statePayload userId.str expiryEpoch nonce)

theorem authorize_mints (provider : Str) (userId : Uuid) :
    wp (broker lib svc lossy) freeRole (serve lib svc (.authorize provider userId))
      (Post.onOk fun v _ => provider = oauthProvider ∧ ∃ state, v = .state state ∧
        StateOf lib svc userId state) [] := by
  apply wp_onOk_map
  show wp _ _ (requireGoogle provider >>= _) _ _
  unfold requireGoogle
  split
  · exact nofun
  · rename_i google
    rw [show (pure () : BrokerProg Unit) = .ret () from rfl, Prog.ret_bind]
    refine wp_mono (wp_makeState userId.str []) fun ended tr _ mints state same => ?_
    rcases mints with ⟨-, msg, failed⟩ | ⟨plain, now, nonce, bare, -, is⟩
    · rw [same] at failed
      cases failed
    · obtain rfl := Except.ok.inj (same.symm.trans is)
      exact ⟨not_not.mp google, _, rfl, plain, _, nonce, bare, rfl⟩

/-! ## A callback that presents it -/

section Presented

variable (hexdigest : ∀ secret payload, '|' ∉ lib.hmacSha256 secret payload) {userId : Uuid}
  {state : Str} (made : StateOf lib svc userId state)

include hexdigest made

/-- The state verifies for its user only. -/
theorem verifyState_user (tr : Trace BrokerSig) :
    wp (broker lib svc lossy) freeRole (verifyState lib svc.settings state)
      (Post.onOk fun user _ => user = userId.str) tr := by
  obtain ⟨plain, expiryEpoch, nonce, bare, rfl⟩ := made
  refine wp_mono (wp_verifyState _ tr) fun ended _ _ verified user same => ?_
  rcases verified with
    ⟨msg, failed⟩ | ⟨user', expiryStr, nonce', signature, _, _, carried, -, -, -, -, is⟩
  · rw [same] at failed
    cases failed
  · obtain rfl := Except.ok.inj (same.symm.trans is)
    rw [decodedState_stateOf, Option.map_some,
      splitOn_payload plain bare (hexdigest _ _)] at carried
    exact (List.cons.inj (Option.some.inj carried)).1.symm

theorem callbackTokens_user (code : Str) (tr : Trace BrokerSig) :
    wp (broker lib svc lossy) freeRole (callbackTokens lib svc.settings code state)
      (Post.onOk fun tokens _ => tokens.1 = userId) tr := by
  have redeems : wp (broker lib svc lossy) freeRole (redeemCallback lib svc.settings code state)
      (Post.onOk fun tokens _ => tokens.1 = userId) tr := by
    unfold redeemCallback
    rw [wp_bind]
    refine wp_mono (verifyState_user hexdigest made tr) fun ended tr _ is => ?_
    cases ended with
    | error x => exact nofun
    | ok user =>
      obtain rfl := is user rfl
      show wp _ _ ((Prog.ofExcept (Uuid.parse lib.decimal userId.str) : BrokerProg Uuid) >>= _) _ _
      rw [Uuid.parse_str]
      show wp _ _ (exchangeCode lib svc.settings code >>= _) _ _
      rw [wp_bind]
      refine wp_mono (wp_free fun _ _ => trivial) fun ended tr _ _ => ?_
      cases ended with
      | error x => exact nofun
      | ok token =>
        rintro tokens same
        obtain rfl := Except.ok.inj same
        rfl
  unfold callbackTokens
  rw [wp_bind, wp_attempt]
  refine wp_mono redeems fun ended tr _ redeemed => ?_
  rw [Post.next_ok]
  split
  · exact redeemed
  · exact nofun
  · exact nofun
  · exact nofun

theorem callback_connects_user {request : CallbackRequest}
    (presented : request.state = some state) :
    wp (broker lib svc lossy) freeRole (serve lib svc (.callback request))
      (Post.onOk fun v tr => ∃ id, v = .connected id ∧ Connected userId id tr) [] := by
  apply wp_onOk_map
  refine wp_mono (callback_connects (· = userId) fun code state' tr presented' => ?_) ?_
  · obtain rfl := Option.some.inj (presented.symm.trans presented')
    exact callbackTokens_user hexdigest made code tr
  · rintro ended tr - connects id same
    obtain ⟨_, rfl, connected⟩ := connects id same
    exact ⟨id, rfl, connected⟩

end Presented

/-! ## The flow -/

section Flow

variable {wire : Wire} {consoleToken : Str}

/-- What a redirect is made of. -/
theorem methodReply_redirect {provider : Str} {userId : Uuid} (ended : Except PyExn Response) :
    (methodReply svc wire (.authorize provider userId) ended).Returns fun reply =>
      ∀ url, reply = .redirect url → ∃ state, ended = .ok (.state state) ∧
        url = buildAuthorizeUrl svc.settings state := by
  rcases ended with x | v
  · trivial
  · cases v with
    | state state =>
      intro url is
      exact ⟨state, rfl, (Reply.redirect.inj is).symm⟩
    | _ => trivial

theorem methodReply_connected {request : CallbackRequest} (ended : Except PyExn Response) :
    (methodReply svc wire (.callback request) ended).Returns fun reply =>
      ∀ accountId provider, reply = .connected accountId provider → ∃ id,
        ended = .ok (.connected id) ∧ accountId = id.str ∧ provider = oauthProvider := by
  rcases ended with x | v
  · trivial
  · cases v with
    | connected id =>
      intro accountId provider is
      obtain ⟨rfl, rfl⟩ := Reply.connected.inj is
      exact ⟨id, rfl, rfl, rfl⟩
    | _ => trivial

variable {w : World} {g : Config BrokerSig (Call wire) (Reply wire) World}

/-- A call that got a reply which is no error has a request that is over. -/
theorem request_of_reply {b : Broker} {place : Nat → Option Nat}
    (run : (gateway lib svc wire consoleToken lossy).Reaches (.start w) g)
    (behind : (apiFront lib svc wire consoleToken).Behind g b place) {i : Nat}
    {t : Thread BrokerSig (Call wire) (Reply wire)} (thread : g.threads[i]? = some t)
    {reply : Reply wire} (halted : t.prog = .ret reply) (success : reply.isRefusal = false) :
    ∃ (j : Nat) (u : Thread BrokerSig Request Response), b.threads[j]? = some u ∧
      (apiFront lib svc wire consoleToken).Served t u := by
  rcases behind.threads i t thread with ⟨without, -⟩ | ⟨j, u, -, thread', served⟩
  · have refused := (turned_away run behind thread without).2 reply halted
    rw [success] at refused
    cases refused
  · exact ⟨j, u, thread', served⟩

/-- The query of a consent URL reads back as its seven parameters, with a state that was signed
for the user of the call. A callback that presents this state, by whomever it is made, connects an
account for that user, and every row of the account that it names is that user's. -/
theorem connect_flow (hexdigest : ∀ secret payload, '|' ∉ lib.hmacSha256 secret payload)
    (keyed : w.db.Keyed)
    (run : (gateway lib svc wire consoleToken lossy).Reaches (.start w) g) {i : Nat}
    {t : Thread BrokerSig (Call wire) (Reply wire)} (thread : g.threads[i]? = some t)
    {provider : Str} {userId : Uuid} (call : t.req = .authorize provider userId) {url : Str}
    (redirects : t.prog = .ret (.redirect url)) :
    ∃ query state, url = googleAuthUrl ++ '?' :: query ∧
      Bytes.parseQsl query = some (authorizeParams svc.settings state) ∧
      StateOf lib svc userId state ∧
      ∀ (j : Nat) (u : Thread BrokerSig (Call wire) (Reply wire)) (request : CallbackRequest)
        (accountId provider' : Str), g.threads[j]? = some u → u.req = .callback request →
        request.state = some state → u.prog = .ret (.connected accountId provider') →
        (∃ account ∈ g.world.db.accounts, account.id.str = accountId) ∧
        ∀ account ∈ g.world.db.accounts, account.id.str = accountId →
          account.userId = userId ∧ account.provider = provider' := by
  obtain ⟨b, place, reached, behind⟩ := served_behind lib consoleToken run
  obtain ⟨j, u, thread', served⟩ := request_of_reply run behind thread redirects rfl
  obtain ⟨ended, halted, renders⟩ := served_returns served redirects
  have request := served_request served
  rw [call] at request
  rw [call] at renders
  obtain ⟨state, rfl, url_eq⟩ :=
    renders _ (methodReply_redirect ended) nofun (fun _ _ => nofun) url rfl
  have under := Machine.Reaches.under_start reached thread'
    (Except.ok.inj request ▸ authorize_mints provider userId) (Role.met_guarding _ _)
  rw [halted] at under
  obtain ⟨-, state', same, made⟩ := under _ rfl
  obtain rfl := Response.state.inj same
  refine ⟨_, state, url_eq, Bytes.parseQsl_urlencode _, made, ?_⟩
  intro j u request accountId provider' thread call presented connects
  obtain ⟨j', u', thread', served⟩ := request_of_reply run behind thread connects rfl
  obtain ⟨ended, halted, renders⟩ := served_returns served connects
  have request_eq := served_request served
  rw [call] at request_eq
  rw [call] at renders
  obtain ⟨id, rfl, rfl, rfl⟩ :=
    renders _ (methodReply_connected ended) nofun (fun _ _ => nofun) accountId provider' rfl
  have under := Machine.Reaches.under_start reached thread'
    (Except.ok.inj request_eq ▸ callback_connects_user hexdigest made presented)
    (Role.met_guarding _ _)
  rw [halted] at under
  obtain ⟨id', same, account, wrote, named, user, provider_eq⟩ := under _ rfl
  obtain rfl := Response.connected.inj same
  obtain ⟨row, member, owned⟩ := wrote.has reached thread'
  obtain ⟨row_id, row_user, row_provider⟩ : row.id = account.id ∧ row.userId = account.userId ∧
      row.provider = account.provider := by simpa [ConnectedAccount.owned] using owned
  have keyed : b.world.db.Keyed := (run_grows .refl reached).2 keyed
  rw [← behind.world]
  refine ⟨⟨row, member, congrArg Uuid.str (row_id.trans named)⟩, fun other there same => ?_⟩
  have ids : other.id = row.id := (Uuid.str_inj same).trans (row_id.trans named).symm
  obtain rfl := Database.eq_of_key keyed.accounts there member ids
  exact ⟨row_user.trans user, row_provider.trans provider_eq⟩

end Flow

/-- An authorize call that was redirected: its provider, its user and the URL. -/
def Demo.redirected {wire : Wire} (t : Thread BrokerSig (Call wire) (Reply wire)) :
    Option (Str × Uuid × Str) :=
  match t.req, t.prog with
  | .authorize provider userId, .ret (.redirect url) => some (provider, userId, url)
  | _, _ => none

theorem Demo.of_redirected {wire : Wire} {t : Thread BrokerSig (Call wire) (Reply wire)}
    {provider : Str}
    {userId : Uuid} {url : Str} (is : redirected t = some (provider, userId, url)) :
    t.req = .authorize provider userId ∧ t.prog = .ret (.redirect url) := by
  unfold redirected at is
  split at is
  · rename_i call redirects
    obtain ⟨rfl, rfl, rfl⟩ := Prod.mk.injEq .. ▸ Option.some.inj is
    exact ⟨call, redirects⟩
  · cases is

/-- The consent URL of a demo user, whose callback then comes with its state. -/
theorem connect_flow_demo : ∃ (g : Config BrokerSig (Call Demo.wire) (Reply Demo.wire) World)
    (t : Thread BrokerSig (Call Demo.wire) (Reply Demo.wire)) (url query state : Str),
    (gateway Demo.signing Demo.services Demo.wire Demo.consoleToken false).Reaches
        (.start (World.fresh Demo.midnight)) g ∧
      g.threads[0]? = some t ∧ t.prog = .ret (.redirect url) ∧ g.world.db.accounts ≠ [] ∧
      url = googleAuthUrl ++ '?' :: query ∧
      Bytes.parseQsl query = some (authorizeParams Demo.settings state) ∧
      StateOf Demo.signing Demo.services Demo.staleAccount.userId state ∧
      ∀ (j : Nat) (u : Thread BrokerSig (Call Demo.wire) (Reply Demo.wire))
      (request : CallbackRequest)
        (accountId provider' : Str), g.threads[j]? = some u → u.req = .callback request →
        request.state = some state → u.prog = .ret (.connected accountId provider') →
        (∃ account ∈ g.world.db.accounts, account.id.str = accountId) ∧
        ∀ account ∈ g.world.db.accounts, account.id.str = accountId →
          account.userId = Demo.staleAccount.userId ∧ account.provider = provider' := by
  have hexdigest : ∀ secret payload, '|' ∉ Demo.signing.hmacSha256 secret payload := by
    intro secret payload
    show '|' ∉ (if _ then _ else _ : Str)
    split <;> decide
  have computed : (Config.play
      (gateway Demo.signing Demo.services Demo.wire Demo.consoleToken false)
      (.start (World.fresh Demo.midnight))
      (.spawn (.authorize "google" Demo.staleAccount.userId) :: Demo.apiRun 0 2 ++
        .spawn (.callback ⟨"google", some "code", some (stateOf Demo.signing Demo.services
          (statePayload Demo.staleAccount.userId.str (timestamp Demo.midnight + 600)
            (Str.hex 32 0))),
          none⟩) :: Demo.apiRun 1 10)).any (fun g => !g.world.db.accounts.isEmpty &&
            g.threads[0]?.any fun t => (Demo.redirected t).any fun r =>
              r.2.1 = Demo.staleAccount.userId) = true := by
    decide +kernel
  obtain ⟨g, played, computed⟩ := (Option.any_eq_true _ _).mp computed
  have run := Config.play_reaches played
  simp only [Bool.and_eq_true, Bool.not_eq_true', List.isEmpty_eq_false_iff] at computed
  obtain ⟨connected, computed⟩ := computed
  obtain ⟨t, thread, computed⟩ := (Option.any_eq_true _ _).mp computed
  obtain ⟨⟨provider, userId, url⟩, is, same⟩ := (Option.any_eq_true _ _).mp computed
  obtain ⟨call, redirects⟩ := Demo.of_redirected is
  obtain rfl : userId = Demo.staleAccount.userId := of_decide_eq_true same
  obtain ⟨query, state, url_eq, params, made, connects⟩ :=
    connect_flow hexdigest Database.keyed_empty run thread call redirects
  exact ⟨g, t, url, query, state, run, thread, redirects, connected, url_eq, params, made, connects⟩

end CredBroker
