import CredBroker.GrantRows
import CredBroker.Python.Hex
import CredBroker.Python.RoundTrip
import CredBroker.Stored

/-!
# Grant tokens and their rows

Every `grants` row was committed with the hash of a token that says the row's own id,
agent, tool and scope, and whose `exp` is no later than the row's. `token_row_agree`
draws from this that a token that verifies agrees with its row.
-/

namespace CredBroker

open Python Interaction

variable {lib : Lib} {svc : Services} {lossy : Bool}

/-! ## Identifiers -/

/-- An identifier is printed in hexadecimal digits and hyphens. -/
theorem Uuid.mem_str {u : Uuid} {c : Char} (member : c ∈ u.str) :
    c = '-' ∨ c ∈ Str.hex 32 u.bits.val := by
  rw [Uuid.str] at member
  simp only [List.mem_append, List.mem_cons] at member
  rcases member with (((first | rfl | second) | rfl | third) | rfl | fourth) | rfl | fifth
  · exact .inr (List.mem_of_mem_take first)
  · exact .inl rfl
  · exact .inr (List.mem_of_mem_drop (List.mem_of_mem_take second))
  · exact .inl rfl
  · exact .inr (List.mem_of_mem_drop (List.mem_of_mem_take third))
  · exact .inl rfl
  · exact .inr (List.mem_of_mem_drop (List.mem_of_mem_take fourth))
  · exact .inl rfl
  · exact .inr (List.mem_of_mem_drop fifth)

/-- So none of it is what `uuid.UUID` takes away but the hyphens. -/
theorem Uuid.ne_of_mem_str {u : Uuid} {c d : Char} (member : c ∈ u.str)
    (other : d ∈ ['{', '}', 'u']) : c ≠ d := by
  rcases Uuid.mem_str member with rfl | digit
  · rintro rfl
    exact absurd other (by decide)
  · exact (Str.hex_isHex c digit).ne
      (List.mem_append_right ['-', '+', '_'] (List.mem_append_left ['x', 'X'] other))

/-- Without its hyphens it is the numeral. -/
theorem Uuid.filter_str (u : Uuid) : u.str.filter (· != '-') = Str.hex 32 u.bits.val := by
  have isHex := @Str.hex_isHex 32 u.bits.val
  rw [Uuid.str]
  generalize Str.hex 32 u.bits.val = a at isHex
  have keep : ∀ text : Str, (∀ c ∈ text, c ∈ a) → text.filter (· != '-') = text := by
    intro text sub
    refine List.filter_eq_self.mpr fun c member => ?_
    simpa using (isHex c (sub c member)).ne (by simp)
  simp only [List.filter_append, List.filter_cons, bne_self_eq_false, Bool.false_eq_true, if_false]
  rw [keep _ fun c => List.mem_of_mem_take,
    keep _ fun c m => List.mem_of_mem_drop (List.mem_of_mem_take m),
    keep _ fun c m => List.mem_of_mem_drop (List.mem_of_mem_take m),
    keep _ fun c m => List.mem_of_mem_drop (List.mem_of_mem_take m),
    keep _ fun c => List.mem_of_mem_drop]
  simpa using Uuid.regroup a

/-- `uuid.UUID(str(u)) == u`. -/
theorem Uuid.parse_str (decimal : Char → Option Nat) (u : Uuid) :
    Uuid.parse decimal u.str = .ok u := by
  have unreplaced : ∀ more : Str, u.str.replace ('u' :: more) "" = u.str := fun more =>
    Str.replace_of_not_mem fun member => Uuid.ne_of_mem_str member (by simp) rfl
  have urn : u.str.replace "urn:" "" = u.str := unreplaced "rn:"
  have uuid : u.str.replace "uuid:" "" = u.str := unreplaced "uid:"
  have unbraced : u.str.strip (· ∈ ['{', '}']) = u.str := by
    refine Json.strip_eq fun c member => ?_
    simpa using ⟨Uuid.ne_of_mem_str (d := '{') member (by simp),
      Uuid.ne_of_mem_str (d := '}') member (by simp)⟩
  have read : Str.intHex decimal (Str.hex 32 u.bits.val) = some (u.bits.val : Int) :=
    Str.intHex_hex decimal (by decide) u.bits.isLt
  have fits : 0 ≤ (u.bits.val : Int) ∧ (u.bits.val : Int) < 2 ^ 128 :=
    ⟨Int.natCast_nonneg _, by exact_mod_cast u.bits.isLt⟩
  unfold Uuid.parse
  simp only [urn, uuid, unbraced, Uuid.filter_str, Str.length_hex, ne_eq, not_true_eq_false,
    if_false, read, fits, and_self, dif_pos, Int.toNat_natCast]

/-! ## Issued rows -/

variable (lib svc) in
/-- A row with the hash of the token that was signed for it. -/
def Signed (token : Str) (grant : Grant) : Prop :=
  signGrantToken lib svc grant.id grant.agentId grant.toolName grant.scope grant.issuedAt
    grant.expiresAt = .ok token ∧ grant.grantTokenHash = hashToken lib token

variable (lib svc) in
/-- An insertion of a grant is that of a signed row. -/
def AddsSigned (e : Op) : Prop :=
  ∀ grant, e = .add (.grant grant) → ∃ token, Signed lib svc token grant

theorem addsSigned_of_ne {e : Op} (other : e.isAddGrant = false) : AddsSigned lib svc e := by
  rintro grant rfl
  cases other

theorem addsSigned_op {e : Op} (other : e.isAddGrant = false) :
    (op e).Uses (AddsSigned lib svc) :=
  (Prog.uses_perform _).mpr (addsSigned_of_ne other)

theorem recordIssued_addsSigned (tokenHash : Str) (ttlSeconds : Int) :
    (GrantCache.recordIssued tokenHash ttlSeconds).Uses (AddsSigned lib svc) :=
  .bind (addsSigned_op rfl) fun _ => trivial

variable (lib svc) in
/-- A grant that was issued for such a request, with the token that was signed for it. -/
def SignedFor (agentId : Uuid) (toolName scope : Str) (issued : IssuedGrant) : Prop :=
  Signed lib svc issued.token issued.grant ∧ issued.grant.agentId = agentId ∧
    issued.grant.toolName = toolName ∧ issued.grant.scope = scope

section Issue

variable (agentId : Uuid) (toolName scope : Str)

/-- `request_grant` inserts a signed row. -/
theorem requestGrant_uses :
    (requestGrant lib svc agentId toolName scope).Uses (AddsSigned lib svc) := by
  have pacing : (checkGrantRate svc agentId).Uses (AddsSigned lib svc) := by
    apply Prog.Uses.mono (checkGrantRate_uses agentId)
    intro e paces
    apply addsSigned_of_ne
    cases e <;> first | rfl | cases paces
  refine .bind pacing fun _ => .bind (addsSigned_op rfl) fun found => ?_
  split
  · trivial
  · refine .bind (Prog.uses_ofExcept _) fun tool => .bind (addsSigned_op rfl) fun account => ?_
    split
    · trivial
    · refine .bind (addsSigned_op rfl) fun now => .bind (addsSigned_op rfl) fun activeCount =>
        .ite (fun _ => trivial) fun _ => ?_
      refine .bind (addsSigned_op rfl) fun grantId => .bind (Prog.uses_ofExcept _)
        fun expiresAt => ?_
      refine .bind_of (Prog.uses_ofExcept _) (Prog.returns_ofExcept fun _ signed => signed)
        fun token signed => ?_
      refine .bind ((Prog.uses_perform _).mpr ?_) fun _ => .bind (addsSigned_op rfl) fun _ => ?_
      · rintro grant ⟨⟩
        exact ⟨token, signed, rfl⟩
      · exact .ite (fun _ => .bind (recordIssued_addsSigned _ _) fun _ => trivial) fun _ => trivial

/-- And returns it with its token. -/
theorem requestGrant_returns :
    (requestGrant lib svc agentId toolName scope).Returns
    (SignedFor lib svc agentId toolName scope) := by
  refine .bind fun _ => .bind fun found => ?_
  split
  · trivial
  · refine .bind fun tool => .bind fun account => ?_
    split
    · trivial
    · refine .bind fun now => .bind fun activeCount => ?_
      split
      · trivial
      · refine .bind fun grantId => .bind fun expiresAt => ?_
        refine .bind_of (Prog.returns_ofExcept fun _ signed => signed) fun token signed => ?_
        refine .bind fun _ => .bind fun _ => ?_
        split
        · exact .bind fun _ => ⟨⟨signed, rfl⟩, rfl, rfl, rfl⟩
        · exact ⟨⟨signed, rfl⟩, rfl, rfl, rfl⟩

end Issue

/-! ## Every row is signed -/

variable (lib svc) in
/-- What `request_grant` inserts. -/
def signGuard : Request → Op → Prop
  | .requestGrant .. => AddsSigned lib svc
  | _ => fun _ => True

variable (lib svc) in
/-- What `request_grant` returns. -/
def signPost : Request → Post BrokerSig Response
  | .requestGrant agentId toolName scope => fun r _ => ∀ issued, r = .ok (.issued issued) →
      SignedFor lib svc agentId toolName scope issued
  | _ => fun _ _ => True

variable (lib svc) in
theorem wp_serve_signing (r : Request) :
    wp (broker lib svc lossy) (.guarding fun _ => signGuard lib svc r) (serve lib svc r)
      (signPost lib svc r) [] := by
  cases r with
  | requestGrant agentId toolName scope =>
    apply wp_map
    apply wp_withSession fun _ => addsSigned_of_ne rfl
    apply wp_within (requestGrant_uses agentId toolName scope)
      (requestGrant_returns agentId toolName scope) fun _ _ adds => adds
    intro r ext _ signed closed _ issued is
    cases closed with
    | error x => cases is
    | ok _ =>
      cases r with
      | error x => cases is
      | ok issued' =>
        cases is
        exact signed issued rfl
  | _ => exact wp_free fun _ _ => trivial

section Run

variable {w : World} {c : Broker} (run : (broker lib svc lossy).Reaches (.start w) c)

include run

theorem Issues.signed {grant : Grant} {g : Entry BrokerSig World} (issues : Issues svc c grant g) :
    ∃ token, Signed lib svc token grant := by
  obtain ⟨t, agentId, toolName, scope, pre, thread, request, sub⟩ := issues.added run
  have guard := run.kept thread (wp_serve_signing lib svc t.req) (Role.met_guarding _ _) sub
  rw [request] at guard
  exact guard grant rfl

/-- A revocation leaves the signed columns alone. -/
theorem rows_signed (empty : w.db.grants = []) :
    ∀ row ∈ c.world.db.grants, ∃ token, Signed lib svc token row := by
  induction run with
  | refl =>
    intro row member
    rw [show (Config.start w : Broker).world.db.grants = [] from empty] at member
    cases member
  | @tail b c before step ih =>
    intro row member
    cases step_grants before step with
    | same grants => exact ih row (grants ▸ member)
    | issued hist pre issues grants =>
      rw [grants] at member
      rcases List.mem_append.mp member with old | new
      · exact ih row old
      · rw [List.mem_singleton.mp new]
        exact issues.signed (before.tail step)
    | revoked hist pre marks grants =>
      rw [grants] at member
      obtain ⟨old, there, rfl⟩ := List.mem_map.mp member
      obtain ⟨token, signed⟩ := ih old there
      refine ⟨token, ?_⟩
      split <;> exact signed

/-- What an issuance returns was signed for its request. -/
theorem issued_signed {i : Nat} {t : Thread BrokerSig Request Response}
    (thread : c.threads[i]? = some t) {agentId : Uuid} {toolName scope : Str}
    (request : t.req = .requestGrant agentId toolName scope) {issued : IssuedGrant}
    (finished : t.prog = .ret (.issued issued)) :
    SignedFor lib svc agentId toolName scope issued := by
  have under := run.under_start thread (wp_serve_signing lib svc t.req) (Role.met_guarding _ _)
  rw [finished, request] at under
  exact under issued rfl

end Run

/-! ## What a token says -/

variable (lib svc) in
/-- What PyJWT documents, of tokens under the broker's pair of keys. -/
structure JwtLaws : Prop where
  /-- A payload is decoded as it was encoded. -/
  decoded : ∀ payload token now payload', Json.WellFormed lib.floatRepr (.obj payload) →
    lib.jwtEncode payload svc.settings.jwtPrivateKeyPem = .ok token →
    lib.jwtDecode token svc.settings.jwtPublicKeyPem svc.settings.jwtIssuer now = .ok payload' →
    payload' = payload
  /-- A token is rejected once its `exp` is reached. -/
  unexpired : ∀ token now payload exp,
    lib.jwtDecode token svc.settings.jwtPublicKeyPem svc.settings.jwtIssuer now = .ok payload →
    claim payload "exp" = .ok (.int exp) → now < seconds exp
  /-- One with the required claims is accepted from its `iat` on and before its `exp`, if it
  has no `nbf` to wait for and no audience, where none is expected. -/
  accepted : ∀ payload token now sub jti iat exp, Json.WellFormed lib.floatRepr (.obj payload) →
    lib.jwtEncode payload svc.settings.jwtPrivateKeyPem = .ok token →
    claim payload "iss" = .ok (.str svc.settings.jwtIssuer) →
    claim payload "sub" = .ok (.str sub) → claim payload "jti" = .ok (.str jti) →
    claim payload "iat" = .ok (.int iat) → seconds iat ≤ now →
    claim payload "exp" = .ok (.int exp) → now < seconds exp →
    List.lookup ("nbf" : Str) payload = none → List.lookup ("aud" : Str) payload = none →
    ∃ payload', lib.jwtDecode token svc.settings.jwtPublicKeyPem svc.settings.jwtIssuer now =
      .ok payload'

section Payload

variable {grantId agentId : Uuid} {toolName scope : Str} {issuedAt expiresAt : Time}

theorem wellFormed_grantPayload (floatRepr : Str → FloatText) : Json.WellFormed floatRepr
    (.obj (grantPayload svc grantId agentId toolName scope issuedAt expiresAt)) := by
  refine ⟨?_, trivial, trivial, trivial, trivial, trivial, trivial, trivial, trivial⟩
  show (["iss", "sub", "jti", "tool", "scope", "iat", "exp"] : List Str).Nodup
  decide

theorem grantClaims_grantPayload :
    grantClaims lib (grantPayload svc grantId agentId toolName scope issuedAt expiresAt) =
      .ok ⟨grantId, agentId, toolName, scope⟩ := by
  show (do
    let grantId ← Uuid.parse lib.decimal grantId.str
    let agentId ← Uuid.parse lib.decimal agentId.str
    .ok ⟨grantId, agentId, toolName, scope⟩ : Except PyExn GrantClaims) = _
  rw [Uuid.parse_str, Uuid.parse_str]
  rfl

end Payload

/-- From the epoch on, what is before a truncated instant is before the instant. -/
theorem lt_of_lt_truncated {time now : Int} (epoch : 0 ≤ now)
    (before : now < time.tdiv 1000000 * 1000000) : now < time := by
  rcases Int.le_total 0 time with nonneg | nonpos
  · rw [Int.tdiv_eq_ediv_of_nonneg nonneg] at before
    omega
  · have truncated := Int.tdiv_nonneg (Int.neg_nonneg_of_nonpos nonpos)
      (show (0 : Int) ≤ 1000000 by decide)
    rw [Int.neg_tdiv] at truncated
    omega

/-- A truncated instant is past once the instant is. -/
theorem truncated_le_of_le {time now : Int} (epoch : 0 ≤ now) (past : time ≤ now) :
    time.tdiv 1000000 * 1000000 ≤ now := by
  rcases Int.le_total 0 time with nonneg | nonpos
  · rw [Int.tdiv_eq_ediv_of_nonneg nonneg]
    omega
  · have truncated := Int.tdiv_nonneg (Int.neg_nonneg_of_nonpos nonpos)
      (show (0 : Int) ≤ 1000000 by decide)
    rw [Int.neg_tdiv] at truncated
    omega

section Laws

variable (laws : JwtLaws lib svc) {token : Str} {row : Grant}

include laws

/-- A token that verifies says what it was signed for, and has not outlived its row. -/
theorem JwtLaws.verified {now : Time} {claims : GrantClaims} (epoch : 0 ≤ now)
    (signed : Signed lib svc token row) (verified : verifiedClaims lib svc token now = .ok claims) :
    claims = ⟨row.id, row.agentId, row.toolName, row.scope⟩ ∧ now < row.expiresAt := by
  unfold verifiedClaims at verified
  split at verified
  · cases verified
  · cases verified
  · cases verified
  · cases verified
  · rename_i payload decodes
    obtain rfl := laws.decoded _ _ _ _ (wellFormed_grantPayload lib.floatRepr) signed.1 decodes
    rw [grantClaims_grantPayload] at verified
    refine ⟨(Except.ok.inj verified).symm, lt_of_lt_truncated epoch ?_⟩
    exact laws.unexpired _ _ _ (timestamp row.expiresAt) decodes rfl

/-- From its issuance on and before its `exp` a signed token verifies. -/
theorem JwtLaws.verifies {now : Time} (epoch : 0 ≤ now) (signed : Signed lib svc token row)
    (issued : row.issuedAt ≤ now) (unexpired : now < seconds (timestamp row.expiresAt)) :
    verifiedClaims lib svc token now = .ok ⟨row.id, row.agentId, row.toolName, row.scope⟩ := by
  obtain ⟨payload, decodes⟩ := laws.accepted _ _ now row.agentId.str row.id.str
    (timestamp row.issuedAt) (timestamp row.expiresAt) (wellFormed_grantPayload lib.floatRepr)
    signed.1 rfl rfl rfl rfl (truncated_le_of_le epoch issued) rfl unexpired rfl rfl
  obtain rfl := laws.decoded _ _ _ _ (wellFormed_grantPayload lib.floatRepr) signed.1 decodes
  rw [verifiedClaims, decodes]
  dsimp only
  rw [grantClaims_grantPayload]

end Laws

/-- A token that verifies agrees with its row and does not outlive it, and one that was
just issued verifies until its `exp`. -/
theorem token_row_agree (laws : JwtLaws lib svc) (collisionFree : Function.Injective lib.sha256)
    {w : World} {c : Broker} (empty : w.db.grants = [])
    (run : (broker lib svc lossy).Reaches (.start w) c) :
    (∀ (token : Str) (now : Time) (claims : GrantClaims) (row : Grant), 0 ≤ now →
      verifiedClaims lib svc token now = .ok claims → row ∈ c.world.db.grants →
      row.grantTokenHash = hashToken lib token →
        claims = ⟨row.id, row.agentId, row.toolName, row.scope⟩ ∧ now < row.expiresAt) ∧
    ∀ (i : Nat) (t : Thread BrokerSig Request Response) (agentId : Uuid) (toolName scope : Str)
      (issued : IssuedGrant) (now : Time), c.threads[i]? = some t →
      t.req = .requestGrant agentId toolName scope → t.prog = .ret (.issued issued) →
      issued.grant.issuedAt ≤ now → 0 ≤ now → now < seconds (timestamp issued.grant.expiresAt) →
        verifiedClaims lib svc issued.token now =
          .ok ⟨issued.grant.id, agentId, toolName, scope⟩ := by
  constructor
  · intro token now claims row epoch verified member hash
    obtain ⟨token', signed⟩ := rows_signed run empty row member
    obtain rfl : token' = token := collisionFree (signed.2.symm.trans hash)
    exact laws.verified epoch signed verified
  · intro i t agentId toolName scope issued now thread request finished past epoch unexpired
    obtain ⟨signed, rfl, rfl, rfl⟩ := issued_signed run thread request finished
    exact laws.verifies epoch signed past unexpired

namespace Demo

/-- Tokens that are their payload, checked for the issuer and the times. -/
def accept (payload : List (Str × Json)) (issuer : Str) (now : Time) :
    Except PyExn (List (Str × Json)) :=
  match claim payload "iss", claim payload "iat", claim payload "exp" with
  | .ok (.str iss), .ok (.int iat), .ok (.int exp) =>
    if iss ≠ issuer then .error (.pyJWTError "Invalid issuer")
    else if now < seconds iat then .error (.pyJWTError "The token is not yet valid (iat)")
    else if seconds exp ≤ now then .error (.expiredSignatureError "Signature has expired")
    else .ok payload
  | _, _, _ => .error (.pyJWTError "Token is missing a required claim")

theorem accept_ok {payload payload' : List (Str × Json)} {issuer : Str} {now : Time}
    (accepted : accept payload issuer now = .ok payload') : payload' = payload ∧
      ∀ exp, claim payload "exp" = .ok (.int exp) → now < seconds exp := by
  unfold accept at accepted
  split at accepted
  · rename_i exp _ _ expires
    split_ifs at accepted with issued early late
    cases accepted
    refine ⟨rfl, fun exp' same => ?_⟩
    rw [expires] at same
    cases same
    exact Int.not_le.mp late
  · cases accepted

theorem accept_of {payload : List (Str × Json)} {issuer : Str} {now : Time} {iat exp : Int}
    (iss : claim payload "iss" = .ok (.str issuer)) (issued : claim payload "iat" = .ok (.int iat))
    (past : seconds iat ≤ now) (expires : claim payload "exp" = .ok (.int exp))
    (unexpired : now < seconds exp) : accept payload issuer now = .ok payload := by
  rw [accept, iss, issued, expires]
  dsimp only
  rw [if_neg (not_not.mpr rfl), if_neg (Int.not_lt.mpr past), if_neg (Int.not_le.mpr unexpired)]

theorem accept_raises {payload : List (Str × Json)} {issuer : Str} {now : Time} {x : PyExn}
    (raised : accept payload issuer now = .error x) : x.isException = true := by
  unfold accept at raised
  split at raised
  · split_ifs at raised <;> cases raised <;> rfl
  · cases raised
    rfl

/-- The demo with tokens that can be read back. -/
def jwt : Lib :=
  { Demo.lib with
    sha256 := id
    jwtEncode := fun payload _ => .ok (Json.dumps .default (.obj payload))
    jwtDecode := fun token _ issuer now =>
      match Json.loads Demo.lib.floatRepr token with
      | some (.obj payload) => accept payload issuer now
      | _ => .error (.pyJWTError "Not enough segments")
    jwtDecode_raises := by
      intro token key issuer now x raised
      split at raised
      · exact accept_raises raised
      · cases raised
        rfl }

theorem jwt_decode {payload : List (Str × Json)} {token : Str} (key issuer : Str) (now : Time)
    (is : Json.WellFormed Demo.lib.floatRepr (.obj payload))
    (encoded : Json.dumps .default (.obj payload) = token) :
    jwt.jwtDecode token key issuer now = accept payload issuer now := by
  subst encoded
  show (match Json.loads Demo.lib.floatRepr _ with | some (.obj payload) => _ | _ => _) = _
  rw [Json.loads_dumps is]

theorem jwt_laws : JwtLaws jwt services where
  decoded payload token now payload' is encoded decodes := by
    rw [jwt_decode _ _ now is (Except.ok.inj encoded)] at decodes
    exact (accept_ok decodes).1
  unexpired token now payload exp decodes expires := by
    simp only [jwt] at decodes
    split at decodes
    · obtain ⟨rfl, unexpired⟩ := accept_ok decodes
      exact unexpired exp expires
    · cases decodes
  accepted payload token now sub jti iat exp is encoded iss _ _ issued past expires unexpired
      _ _ := by
    rw [jwt_decode _ _ now is (Except.ok.inj encoded)]
    exact ⟨payload, accept_of iss issued past expires unexpired⟩

/-- A grant that was issued to the demo agent. -/
def issuance (t : Thread BrokerSig Request Response) : Option IssuedGrant :=
  match t.prog with
  | .ret (.issued issued) => if isIssue t then some issued else none
  | _ => none

theorem of_issuance {t : Thread BrokerSig Request Response} {issued : IssuedGrant}
    (is : issuance t = some issued) : t.req = .requestGrant agentId "drive.read" "read" ∧
      t.prog = .ret (.issued issued) := by
  unfold issuance at is
  split at is
  · rename_i finished
    split_ifs at is with issue
    obtain rfl := Option.some.inj is
    exact ⟨of_isIssue issue, finished⟩
  · cases is

end Demo

/-- The token of the demo verifies when it is issued, and says what its row says. -/
theorem token_row_agree_demo : ∃ (c : Broker) (issued : IssuedGrant) (claims : GrantClaims),
    (broker Demo.jwt Demo.services false).Reaches (.start (World.fresh Demo.midnight)) c ∧
      issued.grant ∈ c.world.db.grants ∧
      verifiedClaims Demo.jwt Demo.services issued.token Demo.midnight = .ok claims ∧
      claims = ⟨issued.grant.id, Demo.agentId, "drive.read", "read"⟩ ∧
      claims = ⟨issued.grant.id, issued.grant.agentId, issued.grant.toolName, issued.grant.scope⟩ ∧
      Demo.midnight < issued.grant.expiresAt := by
  have computed : (Config.play (broker Demo.jwt Demo.services false)
      (.start (World.fresh Demo.midnight)) Demo.issued).any (fun c => c.threads[1]?.any fun t =>
        (Demo.issuance t).any fun issued => c.world.db.grants.contains issued.grant &&
          issued.grant.grantTokenHash = issued.token &&
          issued.grant.issuedAt = Demo.midnight &&
          timestamp issued.grant.expiresAt = 1767225900) = true := by decide +kernel
  obtain ⟨c, at_, computed⟩ := (Option.any_eq_true _ _).mp computed
  obtain ⟨t, thread, computed⟩ := (Option.any_eq_true _ _).mp computed
  obtain ⟨issued, is, computed⟩ := (Option.any_eq_true _ _).mp computed
  simp only [Bool.and_eq_true, decide_eq_true_eq, List.contains_eq_mem] at computed
  obtain ⟨⟨⟨member, hash⟩, issuedAt⟩, expires⟩ := computed
  obtain ⟨request, finished⟩ := Demo.of_issuance is
  have run := Config.play_reaches at_
  obtain ⟨agree, verifies⟩ := token_row_agree Demo.jwt_laws (fun _ _ same => same)
    (w := World.fresh Demo.midnight) rfl run
  have verified := verifies 1 t Demo.agentId "drive.read" "read" issued Demo.midnight thread request
    finished (Int.le_of_eq issuedAt) (by decide) (by rw [expires]; decide)
  obtain ⟨same, unexpired⟩ := agree issued.token Demo.midnight _ issued.grant (by decide) verified
    member hash
  exact ⟨c, issued, _, run, member, verified, rfl, same, unexpired⟩

end CredBroker
