import CredBroker.Crypto.Faithful
import CredBroker.Crypto.Genuine
import CredBroker.Vault

/-!
# Where a credential is from

The columns of an account are traced back to the program that worked on it, and what is
decrypted from them to what was encrypted, by the token cipher that all programs call.
-/

namespace CredBroker

open Python Interaction

variable {lib : Lib} {svc : Services} {lossy : Bool}

/-! ## Columns -/

namespace Database

variable {P Q : Uuid → Attr → Prop} {db db' : Database} {account : ConnectedAccount}

/-- Both credential columns of an account are as they should be. -/
structure Housing (P : Uuid → Attr → Prop) (account : ConnectedAccount) : Prop where
  access : P account.id (.encryptedAccessToken account.encryptedAccessToken)
  refresh : P account.id (.encryptedRefreshToken account.encryptedRefreshToken)

/-- Those of every account are. -/
def Housed (P : Uuid → Attr → Prop) (db : Database) : Prop :=
  ∀ account ∈ db.accounts, Housing P account

theorem Housed.mono (housed : db.Housed P) (imp : ∀ id attr, P id attr → Q id attr) :
    db.Housed Q := fun account member =>
  ⟨imp _ _ (housed account member).access, imp _ _ (housed account member).refresh⟩

theorem Housing.set (housing : Housing P account) {attr : Attr} (holds : P account.id attr) :
    Housing P (account.set attr) := by
  cases attr with
  | encryptedAccessToken blob => exact ⟨holds, housing.refresh⟩
  | encryptedRefreshToken value => exact ⟨housing.access, holds⟩
  | expiresAt time => exact ⟨housing.access, housing.refresh⟩
  | revokedAt time => exact housing

theorem Housed.update (housed : db.Housed P) {id : Uuid} {attr : Attr} (holds : P id attr) :
    (db.update id attr).Housed P := by
  intro account' member
  obtain ⟨account, old, rfl⟩ := List.mem_map.mp member
  split
  · rename_i same
    apply (housed account old).set
    rwa [same]
  · exact housed account old

theorem Housed.updates {updates : List (Uuid × Attr)} (housed : db.Housed P)
    (holds : ∀ u ∈ updates, P u.1 u.2) :
    (updates.foldl (fun db u => db.update u.1 u.2) db).Housed P := by
  induction updates generalizing db with
  | nil => exact housed
  | cons u updates ih =>
    obtain ⟨first, rest⟩ := List.forall_mem_cons.mp holds
    exact ih (housed.update first) rest

theorem Housed.insertAll {rows : List Row} (housed : db.Housed P)
    (holds : ∀ account, .account account ∈ rows → Housing P account)
    (inserted : db.insertAll? rows = some db') : db'.Housed P := by
  induction rows generalizing db with
  | nil =>
    obtain rfl := Option.some.inj inserted
    exact housed
  | cons row rows ih =>
    rw [insertAll?] at inserted
    split at inserted
    · refine ih ?_ (fun account member => holds account (List.mem_cons_of_mem _ member)) inserted
      cases row with
      | account account =>
        intro account' member
        rcases List.mem_append.mp member with old | new
        · exact housed account' old
        · rw [List.mem_singleton.mp new]
          exact holds account List.mem_cons_self
      | _ => exact housed
    · cases inserted

end Database

/-- An event keeps the columns as they should be, if what its session writes is. -/
theorem World.after_housed {P : Uuid → Attr → Prop} {w : World} {past : Trace BrokerSig}
    {e : Event BrokerSig} (housed : w.db.Housed P) (permits : w.permits past e = true)
    (updates : ∀ u ∈ (Session.replay past).updates, P u.1 u.2)
    (added : ∀ account, .account account ∈ (Session.replay past).added →
      Database.Housing P account) : (w.after past e).db.Housed P := by
  by_cases commit : e.op = .commit
  · obtain ⟨e, a⟩ := e
    obtain rfl : e = .commit := commit
    cases applied : Applied a with
    | false =>
      have unchanged : (w.after past ⟨.commit, a⟩).db = w.db := by simp [World.after, applied]
      rwa [unchanged]
    | true =>
      simp only [World.permits, applied, Bool.not_true, Bool.false_or, Bool.and_eq_true] at permits
      obtain ⟨db', written⟩ := Option.isSome_iff_exists.mp permits.2
      have changed : (w.after past ⟨.commit, a⟩).db = db' := by simp [World.after, applied, written]
      rw [changed]
      exact (housed.updates updates).insertAll added written
  · rwa [(w.after_framed past e).db commit]

/-! ## Programs that work on an account -/

/-- A program that works on an account received this credential: it added the account, or
it looked up a grant for it. -/
inductive Works (lib : Lib) (id : Uuid) (field token : Str) (tr : Trace BrokerSig) : Request → Prop
  | seeded (account : ConnectedAccount) (a : BrokerSig.Ans (.add (.account account)))
      (added : ⟨.add (.account account), a⟩ ∈ tr) (named : account.id = id)
      (access : field = "access_token") (demo : token = demoAccessToken) :
      Works lib id field token tr .seedDemo
  | connected (request : CallbackRequest) (account : ConnectedAccount)
      (a : BrokerSig.Ans (.add (.account account))) (added : ⟨.add (.account account), a⟩ ∈ tr)
      (named : account.id = id) (received : Received field token tr) :
      Works lib id field token tr (.callback request)
  | renewed (req : InvokeRequest) (grant : Grant) (found : looked lib req grant ∈ tr)
      (named : grant.connectedAccountId = id) (received : Received field token tr) :
      Works lib id field token tr (.invoke req)

/-- A credential that a program received for an account. -/
def ReceivedFor (lib : Lib) (c : Broker) (id : Uuid) (field token : Str) : Prop :=
  ∃ (i : Nat) (t : Thread BrokerSig Request Response), c.threads[i]? = some t ∧
    Works lib id field token t.trace t.req

/-- That program encrypted it. -/
def Stems (lib : Lib) (c : Broker) (id : Uuid) (field : Str) (blob : Bytes) : Prop :=
  ∃ (i : Nat) (t : Thread BrokerSig Request Response) (token : Str), c.threads[i]? = some t ∧
    Works lib id field token t.trace t.req ∧ ⟨.encrypt (.str token), .ok blob⟩ ∈ t.trace

/-- A value of a credential column of an account stems from a program for it. -/
def Sourced (lib : Lib) (c : Broker) (id : Uuid) : Attr → Prop
  | .encryptedAccessToken blob => Stems lib c id "access_token" blob
  | .encryptedRefreshToken value => ∀ blob, value = some blob → Stems lib c id "refresh_token" blob
  | _ => True

section Along

variable {id : Uuid} {field token : Str} {blob : Bytes} {tr tr' : Trace BrokerSig}

theorem Received.mono (received : Received field token tr) (grown : tr <+: tr') :
    Received field token tr' := by
  obtain ⟨form, response, answered, holds⟩ := received
  exact ⟨form, response, grown.subset answered, holds⟩

theorem Works.mono {r : Request} (works : Works lib id field token tr r) (grown : tr <+: tr') :
    Works lib id field token tr' r := by
  cases works with
  | seeded account a added named access demo =>
    exact .seeded account a (grown.subset added) named access demo
  | connected request account a added named received =>
    exact .connected _ account a (grown.subset added) named (received.mono grown)
  | renewed req grant found named received =>
    exact .renewed _ grant (grown.subset found) named (received.mono grown)

theorem Stems.mono {b c : Broker} (stems : Stems lib b id field blob)
    (rest : (broker lib svc lossy).Reaches b c) : Stems lib c id field blob := by
  obtain ⟨i, t, token, thread, works, encrypted⟩ := stems
  obtain ⟨t', thread', request, grown⟩ := Machine.Reaches.thread_mono rest thread
  exact ⟨i, t', token, thread', by rw [request]; exact works.mono grown, grown.subset encrypted⟩

theorem Sourced.mono {b c : Broker} {attr : Attr} (sourced : Sourced lib b id attr)
    (rest : (broker lib svc lossy).Reaches b c) : Sourced lib c id attr := by
  cases attr with
  | encryptedAccessToken blob => exact Stems.mono sourced rest
  | encryptedRefreshToken value => exact fun blob is => (sourced blob is).mono rest
  | _ => trivial

end Along

/-! ## Columns of a run -/

section Run

variable {c : Broker}

variable {now : Time} (run : (broker lib svc lossy).Reaches (.start (World.fresh now)) c)
  {i : Nat} {t : Thread BrokerSig Request Response} (thread : c.threads[i]? = some t)

include run thread

/-- What was added to a session stems from its program. -/
theorem added_sourced {account : ConnectedAccount}
    (added : .account account ∈ (Session.replay t.trace).added) :
    Database.Housing (Sourced lib c) account := by
  obtain ⟨pre, a, sub⟩ := Session.mem_replay_added added
  have inside := sub.subset (List.mem_append_right _ List.mem_cons_self)
  have grown := (List.prefix_append _ _).trans sub
  rcases run.keeps thread (guards_serve lib svc lossy t.req) sub with
    ⟨seeds, encrypted, none⟩ | ⟨⟨request, is⟩, stocked⟩
  · refine ⟨⟨i, t, demoAccessToken, thread, ?_, grown.subset encrypted⟩, fun blob some_ => ?_⟩
    · rw [seeds]
      exact .seeded account a inside rfl rfl rfl
    · rw [none] at some_
      cases some_
  · have works {field token : Str} (received : Received field token pre) :
        Works lib account.id field token t.trace t.req := by
      rw [is]
      exact .connected request account a inside rfl (received.mono grown)
    obtain ⟨token, received, encrypted⟩ := stocked.access
    refine ⟨⟨i, t, token, thread, works received, grown.subset encrypted⟩, fun blob some_ => ?_⟩
    obtain ⟨token, received, encrypted⟩ := stocked.refresh blob some_
    exact ⟨i, t, token, thread, works received, grown.subset encrypted⟩

/-- What is updated by a session stems from its program. -/
theorem updates_sourced : ∀ u ∈ (Session.replay t.trace).updates, Sourced lib c u.1 u.2 := by
  rintro ⟨id, attr⟩ update
  cases credential : attr.isCredential with
  | false => cases attr <;> trivial
  | true =>
    obtain ⟨⟨id', account, loaded, rfl⟩, a, assigns⟩ :=
      Session.mem_updates_credential credential update
    obtain ⟨pre, v, sub, -⟩ := entry_of_event run thread assigns
    have grown := (List.prefix_append _ _).trans sub
    cases request : t.req with
    | invoke req =>
      obtain ⟨grant, found, same⟩ := invocation_loads run thread request loaded
      have named := (ledger_loaded run thread loaded).1
      have vaulted := run.keeps thread (guards_serve lib svc lossy t.req) sub
      have stems {field : Str} {blob : Bytes} (vaulted : Vaulted field blob pre) :
          Stems lib c account.id field blob := by
        obtain ⟨token, received, encrypted⟩ := vaulted
        refine ⟨i, t, token, thread, ?_, grown.subset encrypted⟩
        rw [request]
        exact .renewed req grant found (named.trans same).symm (received.mono grown)
      cases attr with
      | encryptedAccessToken blob => exact stems vaulted
      | encryptedRefreshToken value => exact fun blob is => stems (vaulted blob is)
      | _ => trivial
    | _ =>
      have guard := kept run thread sub
      rw [request] at guard
      first | exact guard.elim | exact guard.1.elim

omit thread in
/-- Every column stems from a program for its account. -/
theorem run_housed : c.world.db.Housed (Sourced lib c) := by
  induction run with
  | refl => exact fun account member => absurd member List.not_mem_nil
  | @tail b c reach step ih =>
    have forward {id : Uuid} {attr : Attr} : Sourced lib b id attr → Sourced lib c id attr :=
      fun sourced => sourced.mono (.single step)
    have later := ih.mono fun _ _ => forward
    cases step with
    | spawn r => exact later
    | nudge n moved =>
      rw [World.nudge_db moved]
      exact later
    | @answer i t e k a thread pending permits =>
      apply World.after_housed later permits
      · exact fun u update => forward (updates_sourced reach thread u update)
      · intro account added
        have housing := added_sourced reach thread added
        exact ⟨forward housing.access, forward housing.refresh⟩

omit thread in
/-- What a program loaded is housed. -/
theorem loaded_housed {i : Nat} {t : Thread BrokerSig Request Response}
    (thread : c.threads[i]? = some t) {id : Uuid} {account : ConnectedAccount}
    (loaded : ⟨.query (.accountById id), .ok (some account)⟩ ∈ t.trace) :
    account.id = id ∧ Database.Housing (Sourced lib c) account := by
  obtain ⟨pre, v, -, entry⟩ := entry_of_event run thread loaded
  obtain ⟨h, ⟨before⟩⟩ := run.before_entry entry
  have answered := World.permits_query (entry_permitted run entry)
  have found : v.db.accounts.find? (·.id = id) = some account := (of_decide_eq_true answered).symm
  have housing := run_housed before.reached account
    (by rw [before.world_eq]; exact List.mem_of_find?_eq_some found)
  exact ⟨by simpa using List.find?_some found, housing.access.mono before.toEnd,
    housing.refresh.mono before.toEnd⟩

end Run

/-! ## What is decrypted -/

/-- The encryptions and decryptions of a history are calls of a token cipher. -/
structure Ciphered (d : Config CipherSig CipherRequest CipherResponse CipherWorld)
    (hist : List (Entry BrokerSig World)) : Prop where
  encrypted : ∀ e ∈ hist, ∀ token blob, e.event = ⟨.encrypt (.str token), .ok blob⟩ →
    CipherReturns d (.encrypt token) (.blob blob)
  decrypted : ∀ e ∈ hist, ∀ blob plaintext, e.event = ⟨.decrypt blob, .ok plaintext⟩ →
    CipherReturns d (.decrypt blob) (.plaintext plaintext)

section Credentials

variable {c : Broker} {now : Time}
  (run : (broker lib svc lossy).Reaches (.start (World.fresh now)) c) {master : MasterKey}
  {d : Config CipherSig CipherRequest CipherResponse CipherWorld}
  (cipher : (tokenCipher (localKeyManager master)).Reaches (.start master.world) d)
  (ciphered : Ciphered d c.hist)

include run cipher ciphered

/-- What is decrypted from a column was received for its account. -/
theorem Stems.decrypted {i : Nat} {t : Thread BrokerSig Request Response}
    (thread : c.threads[i]? = some t) {id : Uuid} {field plaintext : Str} {blob : Bytes}
    (stems : Stems lib c id field blob) (opened : ⟨.decrypt blob, .ok plaintext⟩ ∈ t.trace) :
    ReceivedFor lib c id field plaintext := by
  obtain ⟨j, u, token, thread', works, sealed⟩ := stems
  obtain ⟨pre, v, -, entry⟩ := entry_of_event run thread opened
  obtain ⟨pre', v', -, entry'⟩ := entry_of_event run thread' sealed
  obtain rfl := decrypted_encrypted cipher (ciphered.encrypted _ entry' token blob rfl)
    (ciphered.decrypted _ entry blob plaintext rfl)
  exact ⟨j, u, thread', works⟩

/-- Every access token that is about to be sent, and every refresh token that is about to be
redeemed, was received for the account of the grant that the invocation looked up. -/
theorem credentials_own {i : Nat} {t : Thread BrokerSig Request Response}
    (thread : c.threads[i]? = some t) {req : InvokeRequest} (request : t.req = .invoke req) {e : Op}
    (next : t.prog.next = some e) :
    (∀ tool accessToken arguments, e = .toolCall tool accessToken arguments →
      ∃ grant, looked lib req grant ∈ t.trace ∧
        ReceivedFor lib c grant.connectedAccountId "access_token" accessToken) ∧
    ∀ form, e = .tokenEndpoint form → ∃ grant refreshToken, looked lib req grant ∈ t.trace ∧
      form = refreshForm svc.settings refreshToken ∧
      ReceivedFor lib c grant.connectedAccountId "refresh_token" refreshToken := by
  constructor
  · rintro tool accessToken arguments rfl
    obtain ⟨req', request', -, -, -, grant, mediated⟩ :=
      mediated_of_guard (next_kept run thread next)
    obtain rfl : req = req' := Request.invoke.inj (request.symm.trans request')
    have found := mediated.admitted.live.found
    refine ⟨grant, found, ?_⟩
    obtain ⟨account, loaded, obtained⟩ := mediated.credential
    obtain ⟨named, housing⟩ := loaded_housed run thread loaded
    cases obtained with
    | stored decrypted =>
      rw [← named]
      exact Stems.decrypted run cipher ciphered thread housing.access decrypted
    | refreshed blob refreshToken response blob_eq decrypted redeemed token_eq =>
      obtain ⟨payload, json, present⟩ := token_eq
      refine ⟨i, t, thread, ?_⟩
      rw [request]
      exact .renewed req grant found rfl
        ⟨_, response, redeemed, (HttpResponse.field_of_json json _).trans present⟩
  · rintro form rfl
    have guard := run.keeps_next thread (guards_serve lib svc lossy t.req) next
    obtain ⟨refreshToken, rfl, id, account, blob, loaded, stored, decrypted⟩ := guard req request
    obtain ⟨grant, found, rfl⟩ := invocation_loads run thread request loaded
    obtain ⟨named, housing⟩ := loaded_housed run thread loaded
    refine ⟨grant, refreshToken, found, rfl, ?_⟩
    rw [← named]
    exact Stems.decrypted run cipher ciphered thread (housing.refresh blob stored) decrypted

end Credentials

namespace Demo

/-- The demo credential, encrypted. -/
def sealedToken : Bytes :=
  cipherBlob (nonce ++ sealing dataKey) nonce (sealing (Bytes.encode demoAccessToken))

/-- It is encrypted once and decrypted once. -/
def ciphering : List (Act CipherSig CipherRequest CipherWorld Empty) :=
  .spawn (.encrypt demoAccessToken) :: List.replicate 6 (.answer 0 opening) ++
    .spawn (.decrypt sealedToken) :: List.replicate 3 (.answer 1 opening)

/-- An event that the cipher stands behind. -/
def isCiphered (e : Event BrokerSig) : Bool :=
  match e with
  | ⟨.encrypt (.str token), .ok blob⟩ => token = demoAccessToken && blob = sealedToken
  | ⟨.decrypt blob, .ok plaintext⟩ => plaintext = demoAccessToken && blob = sealedToken
  | _ => true

theorem ciphered : ∃ d, (tokenCipher (localKeyManager master)).Reaches (.start master.world) d ∧
    ∀ hist : List (Entry BrokerSig World), hist.all (isCiphered ·.event) = true →
      Ciphered d hist := by
  have computed : (Config.play (tokenCipher (localKeyManager master)) (.start master.world)
      ciphering).map (fun d => d.threads.map fun t => (t.req, t.prog)) = some
      [(.encrypt demoAccessToken, .ret (.blob sealedToken)),
        (.decrypt sealedToken, .ret (.plaintext demoAccessToken))] := by rfl
  obtain ⟨d, played, threads⟩ := Option.map_eq_some_iff.mp computed
  have returns (i : Nat) {req : CipherRequest} {res : CipherResponse}
      (there : (d.threads.map fun t => (t.req, t.prog))[i]? = some (req, .ret res)) :
      CipherReturns d req res := by
    rw [List.getElem?_map] at there
    obtain ⟨t, thread, is⟩ := Option.map_eq_some_iff.mp there
    exact ⟨i, t, thread, congrArg Prod.fst is, congrArg Prod.snd is⟩
  refine ⟨d, Config.play_reaches played, fun hist checked => ?_⟩
  have checked := List.all_eq_true.mp checked
  constructor
  · intro e member token blob is
    have check := checked e member
    rw [is, isCiphered, Bool.and_eq_true] at check
    rw [of_decide_eq_true check.1, of_decide_eq_true check.2]
    exact returns 0 (congrArg (·[0]?) threads)
  · intro e member blob plaintext is
    have check := checked e member
    rw [is, isCiphered, Bool.and_eq_true] at check
    rw [of_decide_eq_true check.1, of_decide_eq_true check.2]
    exact returns 1 (congrArg (·[1]?) threads)

end Demo

/-- The demo credential is about to be sent for the account that was seeded with it. -/
theorem credentials_own_demo : ∃ (c : Broker) (i : Nat) (t : Thread BrokerSig Request Response)
    (req : InvokeRequest) (tool : ToolAdapter) (accessToken : Str) (arguments : Arguments),
    (broker Demo.lib Demo.services false).Reaches (.start (World.fresh Demo.midnight)) c ∧
      c.threads[i]? = some t ∧ t.req = .invoke req ∧
      t.prog.next = some (.toolCall tool accessToken arguments) ∧
      ∃ grant, looked Demo.lib req grant ∈ t.trace ∧
        ReceivedFor Demo.lib c grant.connectedAccountId "access_token" accessToken := by
  have computed : (Demo.played false (.spawn .seedDemo :: Demo.refresh 0 14 [] Demo.sealedToken ++
      .spawn (.requestGrant Demo.agentId "drive.read" "read") :: Demo.run 1 12 ++
      Demo.invocation [] none :: Demo.run 2 15)).any (fun c =>
        c.hist.all (Demo.isCiphered ·.event) &&
          c.threads[2]?.any fun t => Demo.isInvocation t &&
          t.prog.next.any Op.isToolCall) = true := by
    decide +kernel
  obtain ⟨c, run, computed⟩ := Demo.reached computed
  obtain ⟨checked, calling⟩ := Bool.and_eq_true_iff.mp computed
  obtain ⟨t, thread, calling⟩ := (Option.any_eq_true _ _).mp calling
  obtain ⟨call, calling⟩ := Bool.and_eq_true_iff.mp calling
  obtain ⟨req, request⟩ := Demo.of_isInvocation call
  obtain ⟨e, next, isCall⟩ := (Option.any_eq_true _ _).mp calling
  obtain ⟨d, cipher, ciphered⟩ := Demo.ciphered
  cases e with
  | toolCall tool accessToken arguments =>
    exact ⟨c, 2, t, req, tool, accessToken, arguments, run, thread, request, next,
      (credentials_own run cipher (ciphered c.hist checked) thread request next).1 _ _ _ rfl⟩
  | _ => cases isCall

end CredBroker
