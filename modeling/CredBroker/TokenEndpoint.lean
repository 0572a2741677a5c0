import CredBroker.Demo
import CredBroker.Invocation.Ops

/-!
# What the token endpoint may answer

`_parse_token_response` against any response: which responses it turns into a
`TokenResponse` or an `OAuthFlowError`, and which ones make it raise something
that its callers take for something else.
-/

namespace CredBroker

open Python Interaction

variable {lib : Lib} {svc : Services} {lossy : Bool}

/-! ## Outcomes -/

/-- What the annotations of `TokenResponse` say, or the declared error. -/
def WellParsed : Except PyExn TokenResponse → Prop
  | .ok token => token.accessToken ≠ [] ∧
    (token.refreshToken = .null ∨ ∃ s, token.refreshToken = .str s)
  | .error x => ∃ msg, x = .oauthFlowError msg

/-- The registration of a secret does not fail. -/
def registering (_ : Trace BrokerSig) : (e : Op) → BrokerSig.Ans e
  | .registerSecret _ => .ok ()
  | _ => .error (.assertionError "not asked for")

theorem may_registering (past : Trace BrokerSig) (e : Op) (register : e.isRegister = true) :
    (broker lib svc lossy).May past ⟨e, registering past e⟩ := by
  cases e with
  | registerSecret value => exact ⟨World.fresh 0, rfl⟩
  | _ => cases register

theorem only_registering (past : Trace BrokerSig) (e : Op) (a : BrokerSig.Ans e)
    (register : e.isRegister = true) (may : (broker lib svc lossy).May past ⟨e, a⟩) :
    a = registering past e := by
  cases e with
  | registerSecret value =>
    obtain ⟨⟨⟩, rfl⟩ := may_sync rfl may
    rfl
  | _ => cases register

/-- How the parser ends. -/
def parsedToken (lib : Lib) (response : HttpResponse) : Except PyExn TokenResponse :=
  ((parseTokenResponse lib response).play registering []).2

theorem parseTokenResponse_ends (response : HttpResponse) (P : Except PyExn TokenResponse → Prop) :
    (∀ tr r, (broker lib svc lossy).Runs (parseTokenResponse lib response) [] tr r → P r) ↔
      P (parsedToken lib response) := by
  constructor
  · intro all
    exact all _ _ (Machine.runs_play may_registering (parseTokenResponse_uses response))
  · intro holds tr r runs
    have same := runs.eq_play only_registering (parseTokenResponse_uses response)
    rw [parsedToken, same] at holds
    exact holds

/-- A value is registered, or it is truthy and no string. -/
theorem play_registerSecret (value : Json) (past : Trace BrokerSig) :
    ∃ tr r, (registerSecret value).play registering past = (tr, r) ∧
      (r = .ok () ∨ (value.truthy = true ∧ ∀ s, value ≠ .str s) ∧
        ∃ msg, r = .error (.typeError msg)) := by
  unfold registerSecret
  split
  · exact ⟨_, _, rfl, .inl rfl⟩
  · rename_i truthy
    have truthy : value.truthy = true := by simpa using truthy
    split
    · split <;> exact ⟨_, _, rfl, .inl rfl⟩
    · split
      · exact ⟨_, _, rfl, .inl rfl⟩
      · exact ⟨_, _, rfl, .inr ⟨⟨truthy, by simp⟩, _, rfl⟩⟩
    · split
      · exact ⟨_, _, rfl, .inl rfl⟩
      · exact ⟨_, _, rfl, .inr ⟨⟨truthy, by simp⟩, _, rfl⟩⟩
    · rename_i value other _ _
      exact ⟨_, _, rfl, .inr ⟨⟨truthy, other⟩, _, rfl⟩⟩

/-- `payload.get("refresh_token") or None`. -/
def refreshOrNone (payload : List (Str × Json)) : Json :=
  if (Json.getItem payload "refresh_token").truthy then Json.getItem payload "refresh_token"
  else .null

/-- How the parser ends on a document with an access token. -/
theorem parsedToken_payload {response : HttpResponse} {payload : List (Str × Json)} {c : Char}
    {accessToken : Str} (granted : ¬ (response.statusCode < 200 ∨ response.statusCode ≥ 300))
    (json : response.json = .ok (.obj payload))
    (access : Json.getItem payload "access_token" = .str (c :: accessToken)) :
    (((refreshOrNone payload).truthy = true ∧ ∀ s, refreshOrNone payload ≠ .str s) ∧
        ∃ msg, parsedToken lib response = .error (.typeError msg)) ∨
      ∃ scopes, parsedToken lib response =
        (parseExpiresIn lib (Json.getItem payload "expires_in")).map fun expiresIn =>
          ⟨c :: accessToken, refreshOrNone payload, expiresIn, scopes⟩ := by
  obtain ⟨tr, r, first, stored⟩ := play_registerSecret (.str (c :: accessToken)) []
  obtain rfl := stored.resolve_right fun other => other.1.2 _ rfl
  obtain ⟨tr', r', second, stored'⟩ := play_registerSecret (refreshOrNone payload) tr
  rw [parsedToken, parseTokenResponse, if_neg granted, json]
  dsimp only
  rw [access]
  dsimp only
  rw [Prog.play_bind, first]
  dsimp only
  rw [← refreshOrNone, Prog.play_bind, second]
  rcases stored' with rfl | ⟨other, msg, rfl⟩
  · refine .inr ⟨((Json.getItemD payload "scope" (.str [])).toStr lib.isPrintable).split, ?_⟩
    dsimp only
    rw [Prog.play_bind, Prog.play_ofExcept]
    cases parseExpiresIn lib (Json.getItem payload "expires_in") <;> rfl
  · exact .inl ⟨other, msg, rfl⟩

/-! ## Which responses are parsed as declared -/

/-- A value that `int()` takes, or `None`. -/
def Countable (lib : Lib) : Json → Prop
  | .null | .int _ | .bool _ => True
  | .float printed => printed.val ∉ floatWords
  | .str s => (Str.int lib.decimal s).isSome = true ∧
      (s.map (Str.toAscii lib.decimal)).countP Char.isDigit ≤ maxStrDigits
  | .arr _ | .obj _ => False

theorem parseExpiresIn_countable (value : Json) :
    (Countable lib value ∧ ∃ n, parseExpiresIn lib value = .ok n) ∨
      ¬ Countable lib value ∧ ∃ x, parseExpiresIn lib value = .error x ∧
        ∀ msg, x ≠ .oauthFlowError msg := by
  cases value with
  | null => exact .inl ⟨trivial, _, rfl⟩
  | int n => exact .inl ⟨trivial, _, rfl⟩
  | bool b => exact .inl ⟨trivial, _, rfl⟩
  | float printed =>
    show (printed.val ∉ floatWords ∧ ∃ n, (intOfFloat lib printed).map some = .ok n) ∨
      ¬ printed.val ∉ floatWords ∧ ∃ x, (intOfFloat lib printed).map some = .error x ∧ _
    unfold intOfFloat
    by_cases nan : printed.val = "NaN"
    · rw [if_pos nan]
      exact .inr ⟨not_not.mpr (nan ▸ List.mem_cons_self), _, rfl, by simp⟩
    · rw [if_neg nan]
      by_cases infinite : printed.val = "Infinity" ∨ printed.val = "-Infinity"
      · rw [if_pos infinite]
        refine .inr ⟨not_not.mpr (List.mem_cons_of_mem _ ?_), _, rfl, by simp⟩
        rcases infinite with is | is
        · exact is ▸ List.mem_cons_self
        · exact is ▸ List.mem_cons_of_mem _ List.mem_cons_self
      · rw [if_neg infinite]
        refine .inl ⟨fun word => ?_, _, rfl⟩
        rcases List.mem_cons.mp word with is | word
        · exact nan is
        · rcases List.mem_cons.mp word with is | word
          · exact infinite (.inl is)
          · exact infinite (.inr (List.mem_singleton.mp word))
  | str s =>
    show (((Str.int lib.decimal s).isSome = true ∧ _) ∧
      ∃ n, (jsonInt lib (.str s)).map some = .ok n) ∨
        ¬ ((Str.int lib.decimal s).isSome = true ∧ _) ∧
        ∃ x, (jsonInt lib (.str s)).map some = .error x ∧ _
    rw [jsonInt]
    generalize Str.int lib.decimal s = parsed
    cases parsed with
    | none =>
      exact .inr ⟨fun countable => Bool.noConfusion countable.1, .valueError _, rfl, by simp⟩
    | some n =>
      dsimp only
      by_cases long : maxStrDigits < (s.map (Str.toAscii lib.decimal)).countP Char.isDigit
      · rw [if_pos long]
        exact .inr ⟨fun countable => absurd countable.2 (Nat.not_le.mpr long), .valueError _, rfl,
          by simp⟩
      · rw [if_neg long]
        exact .inl ⟨⟨rfl, Nat.not_lt.mp long⟩, _, rfl⟩
  | arr items => exact .inr ⟨id, _, rfl, by simp⟩
  | obj members => exact .inr ⟨id, _, rfl, by simp⟩

/-- A response that the parser handles as it is declared to. -/
def Parsable (lib : Lib) (response : HttpResponse) : Prop :=
  (response.statusCode < 200 ∨ response.statusCode ≥ 300) ∨
    match response.json with
    | .error x => ∃ msg, x = .valueError msg ∨ x = .oauthFlowError msg
    | .ok (.obj payload) =>
      (∀ c accessToken, Json.getItem payload "access_token" ≠ .str (c :: accessToken)) ∨
        (refreshOrNone payload = .null ∨ ∃ s, refreshOrNone payload = .str s) ∧
          Countable lib (Json.getItem payload "expires_in")
    | .ok _ => False

/-- A document is parsed as declared, or where a value of it is not what the parser
takes it for. -/
theorem parsedToken_obj {response : HttpResponse} {payload : List (Str × Json)}
    (granted : ¬ (response.statusCode < 200 ∨ response.statusCode ≥ 300))
    (json : response.json = .ok (.obj payload)) :
    WellParsed (parsedToken lib response) ↔
      (∀ c accessToken, Json.getItem payload "access_token" ≠ .str (c :: accessToken)) ∨
        (refreshOrNone payload = .null ∨ ∃ s, refreshOrNone payload = .str s) ∧
          Countable lib (Json.getItem payload "expires_in") := by
  by_cases access : ∃ c accessToken, Json.getItem payload "access_token" = .str (c :: accessToken)
  · obtain ⟨c, accessToken, access⟩ := access
    have present : ¬ ∀ c accessToken,
        Json.getItem payload "access_token" ≠ .str (c :: accessToken) :=
      fun absent => absent c accessToken access
    rw [or_iff_right present]
    rcases @parsedToken_payload lib _ _ _ _ granted json access with
      ⟨⟨truthy, other⟩, msg, ends⟩ | ⟨scopes, ends⟩
    · rw [ends]
      refine iff_of_false (fun ⟨msg, is⟩ => by cases is) ?_
      rintro ⟨none | ⟨s, is⟩, -⟩
      · rw [none] at truthy
        cases truthy
      · exact other s is
    · rw [ends]
      rcases @parseExpiresIn_countable lib (Json.getItem payload "expires_in") with
        ⟨countable, n, is⟩ | ⟨not, x, is, undeclared⟩
      · rw [is]
        exact ⟨fun parsed => ⟨parsed.2, countable⟩, fun fits => ⟨nofun, fits.1⟩⟩
      · rw [is]
        exact iff_of_false (fun ⟨msg, is⟩ => undeclared msg is) (fun fits => not fits.2)
  · have absent : ∀ c accessToken,
        Json.getItem payload "access_token" ≠ .str (c :: accessToken) :=
      fun c accessToken is => access ⟨c, accessToken, is⟩
    refine iff_of_true ?_ (.inl absent)
    rw [parsedToken, parseTokenResponse, if_neg granted, json]
    dsimp only
    generalize Json.getItem payload "access_token" = value at absent
    cases value with
    | str s =>
      cases s with
      | nil => exact ⟨_, rfl⟩
      | cons c accessToken => exact absurd rfl (absent c accessToken)
    | _ => exact ⟨_, rfl⟩

/-- The parser is total as declared exactly on those responses: everywhere else it
raises an exception that is no `OAuthFlowError`, or returns a refresh token that is
no string. -/
theorem parseTokenResponse_total_iff (response : HttpResponse) :
    (∀ tr r, (broker lib svc lossy).Runs (parseTokenResponse lib response) [] tr r → WellParsed r) ↔
      Parsable lib response := by
  rw [parseTokenResponse_ends]
  unfold Parsable
  by_cases refused : response.statusCode < 200 ∨ response.statusCode ≥ 300
  · have ends : parsedToken lib response = .error (.oauthFlowError
        ("google token endpoint returned HTTP " ++ Str.ofInt response.statusCode)) := by
      rw [parsedToken, parseTokenResponse, if_pos refused]
      rfl
    rw [ends]
    exact iff_of_true ⟨_, rfl⟩ (.inl refused)
  · rw [or_iff_right refused]
    cases json : response.json with
    | error x =>
      have ends : (∀ msg, x ≠ .valueError msg) ∧ parsedToken lib response = .error x ∨
          (∃ msg, x = .valueError msg) ∧
            ∃ msg, parsedToken lib response = .error (.oauthFlowError msg) := by
        rw [parsedToken, parseTokenResponse, if_neg refused, json]
        cases x with
        | valueError msg => exact .inr ⟨⟨msg, rfl⟩, _, rfl⟩
        | _ => exact .inl ⟨nofun, rfl⟩
      rcases ends with ⟨uncaught, ends⟩ | ⟨⟨msg, rfl⟩, caught, ends⟩
      · rw [ends]
        exact ⟨fun ⟨msg, is⟩ => ⟨msg, .inr is⟩,
          fun ⟨msg, is⟩ => ⟨msg, is.resolve_left (uncaught msg)⟩⟩
      · rw [ends]
        exact iff_of_true ⟨_, rfl⟩ ⟨msg, .inl rfl⟩
    | ok value =>
      cases value with
      | obj payload => exact parsedToken_obj refused json
      | _ =>
        refine iff_of_false ?_ id
        rw [parsedToken, parseTokenResponse, if_neg refused, json]
        rintro ⟨msg, is⟩
        cases is

/-- A grant of an access token whose lifetime is no numeral, and a document that is no
object: the parser raises a `ValueError` and an `AttributeError`. -/
theorem parseTokenResponse_partial_demo :
    (∃ tr msg, (broker Demo.lib Demo.services false).Runs (parseTokenResponse Demo.lib
        ⟨200, .ok (.obj [("access_token", .str "refreshed-access-token"),
          ("expires_in", .str "soon")]), nofun⟩) [] tr (.error (.valueError msg))) ∧
      (∃ tr msg, (broker Demo.lib Demo.services false).Runs (parseTokenResponse Demo.lib
        ⟨200, .ok (.arr []), nofun⟩) [] tr (.error (.attributeError msg))) ∧
      ¬ ∀ (lib : Lib) (svc : Services) (lossy : Bool) (response : HttpResponse)
        (tr : Trace BrokerSig) (r : Except PyExn TokenResponse),
        (broker lib svc lossy).Runs (parseTokenResponse lib response) [] tr r → WellParsed r := by
  have runs (response : HttpResponse) :
      (broker Demo.lib Demo.services false).Runs (parseTokenResponse Demo.lib response) [] _
        (parsedToken Demo.lib response) :=
    Machine.runs_play may_registering (parseTokenResponse_uses response)
  have soon := runs ⟨200, .ok (.obj [("access_token", .str "refreshed-access-token"),
    ("expires_in", .str "soon")]), nofun⟩
  have list := runs ⟨200, .ok (.arr []), nofun⟩
  refine ⟨⟨_, _, soon⟩, ⟨_, _, list⟩, fun total => ?_⟩
  obtain ⟨msg, is⟩ := total _ _ _ _ _ _ list
  cases is

end CredBroker
