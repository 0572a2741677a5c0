import CredBroker.Demo
import CredBroker.Invocation.Ops
import CredBroker.Python.Codecs
import CredBroker.Python.RoundTrip

/-!
# The state parameter of the connect flow

`verify_state` accepts a text for the users whose states the broker minted and
for no others, until those states expire; any other text it refuses with the
declared error. What a text carries is read back from the bars that join it.
-/

namespace CredBroker

open Python Interaction

variable {lib : Lib} {svc : Services} {lossy : Bool}

/-! ## Minting -/

/-- `f"{user_id}|{expiry_epoch}|{nonce}"`. -/
def statePayload (userId : Str) (expiryEpoch : Int) (nonce : Str) : Str :=
  userId ++ "|" ++ Str.ofInt expiryEpoch ++ "|" ++ nonce

/-- A state that `make_state` has minted. -/
structure Mint (lib : Lib) (svc : Services) (lossy : Bool) where
  userId : Str
  now : Time
  nonce : Str
  state : Str
  past : Trace BrokerSig
  minted : (broker lib svc lossy).Runs (makeState lib svc.settings userId) past
    (past ++ [⟨.clock, .ok now⟩, ⟨.tokenHex, .ok nonce⟩]) (.ok state)

namespace Mint

variable (mint : Mint lib svc lossy)

def expiryEpoch : Int := timestamp mint.now + svc.settings.oauthStateTtlSeconds

def payload : Str := statePayload mint.userId mint.expiryEpoch mint.nonce

end Mint

/-- The state that carries a payload and its signature. -/
def stateOf (lib : Lib) (svc : Services) (payload : Str) : Str :=
  Bytes.urlsafeB64Encode (Bytes.encode
    (payload ++ "|" ++ lib.hmacSha256 svc.settings.oauthStateSecret payload))

/-- What `make_state` does. -/
theorem wp_makeState (userId : Str) (past : Trace BrokerSig) :
    wp (broker lib svc lossy) freeRole (makeState lib svc.settings userId) (fun r tr =>
      ('|' ∈ userId ∧ ∃ msg, r = .error (.valueError msg)) ∨
        '|' ∉ userId ∧ ∃ now nonce, '|' ∉ nonce ∧
          tr = past ++ [⟨.clock, .ok now⟩, ⟨.tokenHex, .ok nonce⟩] ∧
          r = .ok (stateOf lib svc
            (statePayload userId (timestamp now + svc.settings.oauthStateTtlSeconds) nonce)))
      past := by
  unfold makeState
  split
  · rename_i bar
    exact .inl ⟨bar, _, rfl⟩
  · rename_i plain
    refine ⟨trivial, fun a may _ => ?_⟩
    obtain ⟨now, rfl⟩ := may_sync rfl may
    refine ⟨trivial, fun a may _ => ?_⟩
    obtain ⟨nonce, rfl⟩ := may_sync rfl may
    refine .inr ⟨plain, now, nonce, fun bar => ?_, List.append_assoc _ _ _, rfl⟩
    -- a nonce is made of hexadecimal digits
    obtain ⟨w, permits⟩ := may
    have digits : nonce.all World.isHexDigit = true := by
      change w.permits _ ⟨.tokenHex, .ok nonce⟩ = true at permits
      simp only [World.permits, Bool.and_eq_true] at permits
      exact permits.1.2
    exact absurd (List.all_eq_true.mp digits '|' bar) (by decide)

/-- A mint's user has no bar, its nonce neither, and its state is that of its payload. -/
theorem Mint.spec (mint : Mint lib svc lossy) :
    '|' ∉ mint.userId ∧ '|' ∉ mint.nonce ∧ mint.state = stateOf lib svc mint.payload := by
  rcases mint.minted.post (wp_makeState mint.userId mint.past) with
    ⟨-, msg, is⟩ | ⟨plain, now, nonce, bare, tr, is⟩
  · cases is
  · have same := List.append_cancel_left tr
    injection same with clock same
    injection same with token
    injection clock with _ now_eq
    injection token with _ nonce_eq
    obtain rfl : mint.now = now := by simpa using now_eq
    obtain rfl : mint.nonce = nonce := by simpa using nonce_eq
    exact ⟨plain, bare, Except.ok.inj is⟩

/-! ## Reading back -/

/-- What a state carries, once decoded. -/
def decodedState (s : Str) : Option Str := (Bytes.urlsafeB64Decode s).bind Bytes.decode

theorem decodedState_stateOf (payload : Str) : decodedState (stateOf lib svc payload) =
    some (payload ++ "|" ++ lib.hmacSha256 svc.settings.oauthStateSecret payload) := by
  rw [decodedState, stateOf, Bytes.urlsafeB64Decode_encode]
  exact Bytes.decode_encode _

theorem bar_ofInt (n : Int) : '|' ∉ Str.ofInt n := Json.not_mem_ofInt (by decide) (by decide) n

/-- A payload is joined so that its parts can be told apart. -/
theorem splitOn_payload {userId nonce digest : Str} (user : '|' ∉ userId) (bare : '|' ∉ nonce)
    (hex : '|' ∉ digest) (expiryEpoch : Int) :
    Str.splitOn (statePayload userId expiryEpoch nonce ++ "|" ++ digest) '|' =
      [userId, Str.ofInt expiryEpoch, nonce, digest] := by
  have whole : statePayload userId expiryEpoch nonce ++ "|" ++ digest =
      userId ++ '|' :: (Str.ofInt expiryEpoch ++ '|' :: (nonce ++ '|' :: digest)) := by
    simp only [statePayload, List.append_assoc]
    rfl
  rw [whole, Str.splitOn_append user, Str.splitOn_append (bar_ofInt _), Str.splitOn_append bare,
    Str.splitOn_plain hex]

/-- A text that splits into four parts is their join. -/
theorem of_splitOn {text userId expiryStr nonce signature : Str}
    (split : text.splitOn '|' = [userId, expiryStr, nonce, signature]) :
    ('|' ∉ userId ∧ '|' ∉ expiryStr ∧ '|' ∉ nonce ∧ '|' ∉ signature) ∧
      text = userId ++ "|" ++ expiryStr ++ "|" ++ nonce ++ '|' :: signature := by
  obtain ⟨user, afterUser, rfl, split₁⟩ := Str.splitOn_next split
  obtain ⟨expiry, afterExpiry, rfl, split₂⟩ := Str.splitOn_next split₁
  obtain ⟨bare, afterNonce, rfl, split₃⟩ := Str.splitOn_next split₂
  obtain ⟨hex, rfl⟩ := Str.splitOn_last split₃
  refine ⟨⟨user, expiry, bare, hex⟩, ?_⟩
  simp only [List.append_assoc]
  rfl

/-- Two joins of three parts without bars are equal only part by part. -/
theorem payload_inj {userId expiryStr nonce userId' expiryStr' nonce' : Str}
    (user : '|' ∉ userId) (expiry : '|' ∉ expiryStr) (user' : '|' ∉ userId')
    (expiry' : '|' ∉ expiryStr')
    (same : userId ++ "|" ++ expiryStr ++ "|" ++ nonce =
      userId' ++ "|" ++ expiryStr' ++ "|" ++ nonce') :
    userId = userId' ∧ expiryStr = expiryStr' ∧ nonce = nonce' := by
  simp only [List.append_assoc] at same
  have joined : userId ++ '|' :: (expiryStr ++ '|' :: nonce) =
      userId' ++ '|' :: (expiryStr' ++ '|' :: nonce') := same
  have split := congrArg (Str.splitOn · '|') joined
  rw [Str.splitOn_append user, Str.splitOn_append expiry, Str.splitOn_append user',
    Str.splitOn_append expiry'] at split
  obtain ⟨rfl, others⟩ := List.cons.inj split
  obtain ⟨rfl, -⟩ := List.cons.inj others
  have tail := List.cons.inj (List.append_cancel_left joined)
  exact ⟨rfl, rfl, (List.cons.inj (List.append_cancel_left tail.2)).2⟩

/-! ## Verifying -/

/-- The signature that a text presents verifies only where its payload was signed. -/
def Unforged (mints : Set (Mint lib svc lossy)) (s : Str) : Prop :=
  ∀ payload digest, '|' ∉ digest → decodedState s = some (payload ++ '|' :: digest) →
    digest = lib.hmacSha256 svc.settings.oauthStateSecret payload →
    ∃ mint ∈ mints, mint.payload = payload

/-- How the verification of any text ends. -/
theorem wp_verifyState (s : Str) (past : Trace BrokerSig) :
    wp (broker lib svc lossy) freeRole (verifyState lib svc.settings s) (fun r tr =>
      (∃ msg, r = .error (.oauthFlowError msg)) ∨
        ∃ userId expiryStr nonce signature expiryEpoch now,
          (decodedState s).map (Str.splitOn · '|') = some [userId, expiryStr, nonce, signature] ∧
          signature = lib.hmacSha256 svc.settings.oauthStateSecret
            (userId ++ "|" ++ expiryStr ++ "|" ++ nonce) ∧
          Str.int lib.decimal expiryStr = some expiryEpoch ∧ now ≤ seconds expiryEpoch ∧
          tr = past ++ [⟨.clock, .ok now⟩] ∧ r = .ok userId) past := by
  unfold verifyState
  rw [← decodedState]
  split
  · exact .inl ⟨_, rfl⟩
  · rename_i decoded carried
    split
    · rename_i userId expiryStr nonce signature parts
      dsimp only
      split
      · exact .inl ⟨_, rfl⟩
      · rename_i signed
        split
        · exact .inl ⟨_, rfl⟩
        · rename_i expiryEpoch numeral
          refine ⟨trivial, fun a may _ => ?_⟩
          obtain ⟨now, rfl⟩ := may_sync rfl may
          show wp _ _ (if _ then _ else _) _ _
          split
          · exact .inl ⟨_, rfl⟩
          · rename_i fresh
            refine .inr ⟨userId, expiryStr, nonce, signature, expiryEpoch, now, ?_,
              not_not.mp signed, numeral, Int.not_lt.mp fresh, rfl, rfl⟩
            rw [carried, Option.map_some, parts]
    · exact .inl ⟨_, rfl⟩

/-- On a minted state only the clock is left to ask. -/
theorem verifyState_stateOf
    {userId nonce : Str} (user : '|' ∉ userId) (bare : '|' ∉ nonce) (expiryEpoch : Int)
    (hex : '|' ∉ lib.hmacSha256 svc.settings.oauthStateSecret
      (statePayload userId expiryEpoch nonce)) :
    verifyState lib svc.settings (stateOf lib svc (statePayload userId expiryEpoch nonce)) = (do
      let now ← op .clock
      if now > seconds expiryEpoch then .throw (.oauthFlowError "oauth state expired")
      else return userId) := by
  unfold verifyState
  rw [← decodedState, decodedState_stateOf]
  dsimp only
  rw [splitOn_payload user bare hex]
  dsimp only
  split
  · rename_i changed
    exact absurd rfl changed
  · rw [Json.int_ofInt]

theorem Mint.verified (hexdigest : ∀ secret payload, '|' ∉ lib.hmacSha256 secret payload)
    (mint : Mint lib svc lossy) {now : Time} (fresh : now ≤ seconds mint.expiryEpoch)
    (past : Trace BrokerSig) (r : Except PyExn Str) :
    (broker lib svc lossy).Runs (verifyState lib svc.settings mint.state) past
      (past ++ [⟨.clock, .ok now⟩]) r ↔ r = .ok mint.userId := by
  obtain ⟨user, bare, state⟩ := mint.spec
  rw [state, Mint.payload, verifyState_stateOf user bare _ (hexdigest _ _)]
  have asked : ¬ now > seconds mint.expiryEpoch := Int.not_lt.mpr fresh
  constructor
  · intro runs
    cases runs with
    | call a may rest =>
      obtain ⟨now', rfl⟩ := may_sync rfl may
      have same := List.append_cancel_left (rest.prefix_trace.eq_of_length (by simp))
      injection same with same
      obtain rfl : now' = now := by simpa using same
      change (broker lib svc lossy).Runs (if _ then _ else _) _ _ _ at rest
      rw [if_neg asked] at rest
      cases rest
      rfl
  · rintro rfl
    refine .call (.ok now) ⟨World.fresh now, decide_eq_true rfl⟩ ?_
    show (broker lib svc lossy).Runs (if _ then _ else _) _ _ _
    rw [if_neg asked]
    exact .ret _ _

/-- What is presented of a minted state was signed. -/
theorem unforged_of_mem (hexdigest : ∀ secret payload, '|' ∉ lib.hmacSha256 secret payload)
    {mints : Set (Mint lib svc lossy)} {mint : Mint lib svc lossy} (member : mint ∈ mints) :
    Unforged mints mint.state := by
  intro payload digest hex carried signed
  refine ⟨mint, member, ?_⟩
  rw [mint.spec.2.2, decodedState_stateOf, List.append_assoc] at carried
  -- neither digest has a bar, so both texts end in it after the same bar
  exact (Str.append_last_inj (hexdigest _ _) hex (Option.some.inj carried)).1

/-- A text is accepted only for the user of a minted state that has not expired; every
other text gets the declared error, and what is minted for a user is accepted for that
user until it expires. -/
theorem state_unforgeable
    (hexdigest : ∀ secret payload, '|' ∉ lib.hmacSha256 secret payload) :
    (∀ (mints : Set (Mint lib svc lossy)) (s : Str), Unforged mints s → ∀ past tr r,
      (broker lib svc lossy).Runs (verifyState lib svc.settings s) past tr r →
        (∃ mint ∈ mints, ∃ now ≤ seconds mint.expiryEpoch, tr = past ++ [⟨.clock, .ok now⟩] ∧
          r = .ok mint.userId) ∨
        ∃ msg, r = .error (.oauthFlowError msg)) ∧
      (∀ userId, '|' ∉ userId → ∀ past tr r,
        (broker lib svc lossy).Runs (makeState lib svc.settings userId) past tr r →
          ∃ mint : Mint lib svc lossy, mint.userId = userId ∧ r = .ok mint.state) ∧
      ∀ (mint : Mint lib svc lossy) (now : Time), now ≤ seconds mint.expiryEpoch → ∀ past r,
        (broker lib svc lossy).Runs (verifyState lib svc.settings mint.state) past
          (past ++ [⟨.clock, .ok now⟩]) r ↔ r = .ok mint.userId := by
  refine ⟨fun mints s unforged past tr r runs => ?_, fun userId user past tr r runs => ?_,
    fun mint now fresh past r => mint.verified hexdigest fresh past r⟩
  · rcases runs.post (wp_verifyState s past) with refused |
      ⟨userId, expiryStr, nonce, signature, expiryEpoch, now, carried, signed, numeral, fresh,
        tr_eq, r_eq⟩
    · exact .inr refused
    · obtain ⟨decoded, decodes, split⟩ := Option.map_eq_some_iff.mp carried
      obtain ⟨⟨user, expiry, -, hex⟩, joined⟩ := of_splitOn split
      obtain ⟨mint, member, same⟩ := unforged _ signature hex (joined ▸ decodes) signed
      obtain ⟨user', -, -⟩ := mint.spec
      obtain ⟨rfl, rfl, -⟩ := payload_inj user' (bar_ofInt _) user expiry same
      have epoch : mint.expiryEpoch = expiryEpoch :=
        Option.some.inj ((Json.int_ofInt _ _).symm.trans numeral)
      exact .inl ⟨mint, member, now, epoch ▸ fresh, tr_eq, r_eq⟩
  · rcases runs.post (wp_makeState userId past) with ⟨bar, -⟩ | ⟨-, now, nonce, -, rfl, rfl⟩
    · exact absurd bar user
    · exact ⟨⟨userId, now, nonce, _, past, runs⟩, rfl, rfl⟩

/-- HMAC-SHA256 on the payload of the demo. -/
def Demo.signing : Lib :=
  { Demo.lib with
    hmacSha256 := fun _ payload =>
      if payload =
          "00000000-0000-0000-0000-000000000004|1767226200|00000000000000000000000000000000"
      then "019dc83fbdd3974584c8cf976dabef87dd9a30f0029e875610bc3863347a2b7c"
      else "b613679a0814d9ec772f95d778c35fc5ff1697c493715653c6c712144292c5ad" }

/-- A state that is minted at midnight is accepted for its user then, and for no other. -/
theorem state_unforgeable_demo : ∃ mint : Mint Demo.signing Demo.services false,
    mint.userId = "00000000-0000-0000-0000-000000000004" ∧ Unforged {mint} mint.state ∧
      (broker Demo.signing Demo.services false).Runs
        (verifyState Demo.signing Demo.settings mint.state) [] [⟨.clock, .ok Demo.midnight⟩]
        (.ok mint.userId) ∧
      ∀ past tr userId, (broker Demo.signing Demo.services false).Runs
        (verifyState Demo.signing Demo.settings mint.state) past tr (.ok userId) →
          userId = mint.userId := by
  have hexdigest : ∀ secret payload, '|' ∉ Demo.signing.hmacSha256 secret payload := by
    intro secret payload
    show '|' ∉ (if _ then _ else _ : Str)
    split <;> decide
  have runs : (broker Demo.signing Demo.services false).Runs
      (makeState Demo.signing Demo.settings "00000000-0000-0000-0000-000000000004") []
      [⟨.clock, .ok Demo.midnight⟩, ⟨.tokenHex, .ok (Str.hex 32 0)⟩]
      (.ok (stateOf Demo.signing Demo.services
        (statePayload "00000000-0000-0000-0000-000000000004" 1767226200 (Str.hex 32 0)))) := by
    rw [makeState, if_neg (by decide)]
    exact .call (.ok Demo.midnight) ⟨World.fresh Demo.midnight, by decide⟩
      (.call (.ok (Str.hex 32 0)) ⟨World.fresh Demo.midnight, by decide⟩ (.ret _ _))
  obtain ⟨sound, -, accepted⟩ :=
    @state_unforgeable Demo.signing Demo.services false hexdigest
  let mint : Mint Demo.signing Demo.services false := ⟨_, _, _, _, [], runs⟩
  have unforged : Unforged {mint} mint.state := unforged_of_mem hexdigest rfl
  have fresh : Demo.midnight ≤ seconds (timestamp Demo.midnight + 600) := by decide
  refine ⟨mint, rfl, unforged, (accepted mint Demo.midnight fresh [] _).mpr rfl,
    fun past tr userId runs => ?_⟩
  rcases sound _ _ unforged _ _ _ runs with ⟨other, rfl, now, -, -, same⟩ | ⟨msg, failed⟩
  · exact Except.ok.inj same
  · cases failed

end CredBroker
