import CredBroker.Crypto.TokenCipher
import CredBroker.Interaction.Exec
import CredBroker.Python.Codecs

/-!
# The envelope round trip

Whatever a key manager wraps its data keys in, what `TokenCipher.encrypt`
returns is decrypted to its plaintext at any later time; a wrapped key that the
length field has no room for is refused.
-/

namespace CredBroker

open Python Interaction

/-! ## The layout -/

theorem unpackKeyLen_pack {n : Nat} (fits : n ≤ 0xFFFF) (rest : Bytes) :
    unpackKeyLen (cipherMagic ++ packKeyLen n ++ rest) = n := by
  have high : (UInt8.ofNat (n / 256)).toNat = n / 256 :=
    UInt8.toNat_ofNat_of_lt (show _ < 256 by omega)
  have low : (UInt8.ofNat (n % 256)).toNat = n % 256 :=
    UInt8.toNat_ofNat_of_lt (show _ < 256 by omega)
  show (UInt8.ofNat (n / 256)).toNat * 256 + (UInt8.ofNat (n % 256)).toNat = n
  rw [high, low]
  omega

section Layout

variable {encryptedKey nonce ciphertext : Bytes}

theorem cipherBlob_eq : cipherBlob encryptedKey nonce ciphertext =
    cipherMagic ++ packKeyLen encryptedKey.length ++ (encryptedKey ++ (nonce ++ ciphertext)) := by
  simp only [cipherBlob, List.append_assoc]

theorem length_cipherBlob : (cipherBlob encryptedKey nonce ciphertext).length =
    headerSize + encryptedKey.length + nonce.length + ciphertext.length := by
  rw [cipherBlob, List.length_append, List.length_append, List.length_append]
  rfl

/-- The parts of a blob are found where `decrypt` looks for them. -/
theorem decrypt_cipherBlob (keyManager : KeyManager) (fits : encryptedKey.length ≤ 0xFFFF)
    (size : nonce.length = nonceSize) (tagged : gcmTagSize ≤ ciphertext.length) :
    TokenCipher.decrypt keyManager (cipherBlob encryptedKey nonce ciphertext) = (do
      let dataKey ← keyManager.decryptDataKey encryptedKey
      openCiphertext dataKey nonce ciphertext) := by
  have keyLen := unpackKeyLen_pack fits (encryptedKey ++ (nonce ++ ciphertext))
  have length := @length_cipherBlob encryptedKey nonce ciphertext
  have magic : (cipherBlob encryptedKey nonce ciphertext).take cipherMagic.length =
      cipherMagic := rfl
  have body : (cipherBlob encryptedKey nonce ciphertext).drop headerSize =
      encryptedKey ++ (nonce ++ ciphertext) := by
    rw [cipherBlob_eq]
    rfl
  rw [← cipherBlob_eq] at keyLen
  rw [TokenCipher.decrypt, if_neg (by omega), if_neg (not_not.mpr magic), keyLen]
  dsimp only
  rw [if_neg (by omega), ← List.drop_drop, ← List.drop_drop, ← List.drop_drop, body,
    List.take_left, List.drop_left, ← size, List.take_left, List.drop_left]

end Layout

/-! ## What stays sealed -/

namespace CipherWorld

theorem opensTo_append {w : CipherWorld} {key nonce ciphertext data : Bytes}
    (opens : w.opensTo key nonce ciphertext = some data) (more : List Sealing) (keys : List Bytes)
    (secrets : List Str) :
    opensTo ⟨w.sealings ++ more, keys, secrets⟩ key nonce ciphertext = some data := by
  unfold opensTo at opens ⊢
  obtain ⟨s, found, is⟩ := Option.map_eq_some_iff.mp opens
  rw [List.find?_append, found]
  exact congrArg some is

/-- An answered operation undoes no sealing. -/
theorem opensTo_after {w : CipherWorld} {key nonce ciphertext data : Bytes}
    (opens : w.opensTo key nonce ciphertext = some data) (e : Event CipherSig) :
    (w.after e).opensTo key nonce ciphertext = some data := by
  unfold after
  split
  · split <;> exact opens
  · split <;> exact opens
  · exact opensTo_append opens _ _ _
  · exact opens

/-- What has just been sealed is opened. -/
theorem opensTo_sealed {w : CipherWorld} {key nonce data ciphertext : Bytes}
    (permits : w.permits ⟨.aesEncrypt key nonce data, .ok ciphertext⟩ = true) :
    (w.after ⟨.aesEncrypt key nonce data, .ok ciphertext⟩).opensTo key nonce ciphertext =
      some data := by
  simp only [CipherWorld.permits, Bool.and_eq_true] at permits
  cases found : w.opensTo key nonce ciphertext with
  | some other =>
    rw [found] at permits
    rw [opensTo_after found]
    exact congrArg some (of_decide_eq_true permits.2)
  | none =>
    have unsealed := Option.map_eq_none_iff.mp found
    show (List.find? _ (w.sealings ++ [_])).map _ = some data
    rw [List.find?_append, unsealed, List.find?_singleton]
    simp

end CipherWorld

section RoundTrip

variable {keyManager : KeyManager}

/-- The world of a token cipher some time later. -/
abbrev CipherLater (keyManager : KeyManager) : CipherWorld → CipherWorld → Prop :=
  (tokenCipher keyManager).Later

theorem opensTo_later {w w' : CipherWorld} (later : CipherLater keyManager w w')
    {key nonce ciphertext data : Bytes} (opens : w.opensTo key nonce ciphertext = some data) :
    w'.opensTo key nonce ciphertext = some data := by
  induction later with
  | refl => exact opens
  | tail _ move ih =>
    cases move with
    | answer permits => exact CipherWorld.opensTo_after ih _
    | nudge n moved => exact n.elim

/-- `decrypt_data_key` gives back what `generate_data_key` wrapped, at any later time. -/
def KeyManager.Inverts (keyManager : KeyManager) : Prop :=
  ∀ w past w₁ tr dataKey encryptedKey,
    (tokenCipher keyManager).Exec w keyManager.generateDataKey past w₁ tr
      (.ok (dataKey, encryptedKey)) →
    ∀ w₂, CipherLater keyManager w₁ w₂ → ∀ past' w₃ tr' r,
      (tokenCipher keyManager).Exec w₂ (keyManager.decryptDataKey encryptedKey) past' w₃ tr' r →
        r = .ok dataKey

variable {w w' : CipherWorld} {tr tr' : Trace CipherSig}

theorem exec_registerPlaintext {plaintext : Str} {r : Except PyExn Unit}
    (exec : (tokenCipher keyManager).Exec w (registerPlaintext plaintext) tr w' tr' r) :
    r = .ok () := by
  unfold registerPlaintext at exec
  split at exec
  · cases exec
    rfl
  · obtain ⟨w₁, -, permits, -, -⟩ := exec.perform
    cases r with
    | ok v => rfl
    | error x => cases permits

/-- What was sealed is opened. -/
theorem exec_aesDecrypt {key nonce ciphertext data : Bytes} (size : key.length ∈ aesKeySizes)
    (opens : w.opensTo key nonce ciphertext = some data) {ended : Except PyExn Bytes}
    (exec : (tokenCipher keyManager).Exec w (cipherOp (.aesDecrypt key nonce ciphertext)) tr w' tr'
      ended) : ended = .ok data := by
  obtain ⟨v, later, permits, -, -⟩ := exec.perform
  have opens := opensTo_later later opens
  change v.permits _ = true at permits
  cases ended with
  | ok opened =>
    simp only [CipherWorld.permits, opens, Bool.and_eq_true, decide_eq_true_eq] at permits
    rw [Option.some.inj permits.2]
  | error x => simp [CipherWorld.permits, opens, size] at permits

/-- A ciphertext that was sealed is opened to its plaintext. -/
theorem exec_openCiphertext {dataKey nonce ciphertext : Bytes} {plaintext : Str}
    {r : Except PyExn Str} (size : dataKey.length ∈ aesKeySizes)
    (opens : w.opensTo dataKey nonce ciphertext = some (Bytes.encode plaintext))
    (exec : (tokenCipher keyManager).Exec w (openCiphertext dataKey nonce ciphertext) tr w' tr' r) :
    r = .ok plaintext := by
  rcases exec.bind with ⟨ended, w₁, tr₁, first, last⟩ | ⟨x, first, -⟩
  · obtain ⟨answer, inner, same⟩ := first.attempt
    obtain rfl := Except.ok.inj same
    obtain rfl := exec_aesDecrypt size opens inner
    change (tokenCipher keyManager).Exec w₁ (openedPlaintext _) tr₁ w' tr' r at last
    rw [openedPlaintext, Bytes.decode_encode] at last
    rcases last.bind with ⟨_, _, _, -, returns⟩ | ⟨x, raised, -⟩
    · cases returns
      rfl
    · cases exec_registerPlaintext raised
  · obtain ⟨_, _, same⟩ := first.attempt
    cases same

/-- The local key manager inverts itself. -/
theorem localKeyManager_inverts (master : MasterKey) : (localKeyManager master).Inverts := by
  intro w past w₁ tr dataKey encryptedKey exec w₂ later past' w₃ tr' r exec'
  have masterSize : master.key.length ∈ aesKeySizes := by
    rw [master.size]
    decide
  rcases exec.bind with ⟨_, v₁, tr₁, -, exec⟩ | ⟨x, -, same⟩
  swap
  · cases same
  rcases exec.bind with ⟨nonce, v₂, tr₂, drawn, exec⟩ | ⟨x, -, same⟩
  swap
  · cases same
  rcases exec.bind with ⟨ciphertext, v₃, tr₃, sealing, exec⟩ | ⟨x, -, same⟩
  swap
  · cases same
  cases exec with
  | ret _ _ last =>
    obtain ⟨v, -, permits, -, -⟩ := drawn.perform
    change v.permits _ = true at permits
    simp only [CipherWorld.permits, Bool.and_eq_true, decide_eq_true_eq] at permits
    have size := permits.1
    obtain ⟨v, -, permits, after, -⟩ := sealing.perform
    have opens := opensTo_later ((after.trans last).trans later)
      (CipherWorld.opensTo_sealed permits)
    change v.permits _ = true at permits
    simp only [CipherWorld.permits, Bool.and_eq_true, decide_eq_true_eq] at permits
    have length : (nonce ++ ciphertext).length = nonceSize + (dataKey.length + gcmTagSize) := by
      rw [List.length_append, size, permits.1.2]
    change (tokenCipher _).Exec w₂ (if _ then _ else _) past' w₃ tr' r at exec'
    rw [if_neg (by omega), ← size, List.take_left, List.drop_left] at exec'
    rcases exec'.bind with ⟨ended, v₅, tr₅, first, exec'⟩ | ⟨x, first, -⟩
    · obtain ⟨answer, inner, same⟩ := first.attempt
      obtain rfl := Except.ok.inj same
      obtain rfl := exec_aesDecrypt masterSize opens inner
      cases exec'
      rfl
    · obtain ⟨_, _, same⟩ := first.attempt
      cases same

/-- How `encrypt` ends: with what the key manager raised; with a `ValueError`, where the
length field has no room for the wrapped key; or with a blob. -/
theorem exec_encrypt {plaintext : Str} {r : Except PyExn Bytes}
    (exec : (tokenCipher keyManager).Exec w (TokenCipher.encrypt keyManager plaintext) tr w' tr'
      r) :
    (∃ v past v' past' x, (tokenCipher keyManager).Exec v keyManager.generateDataKey past v' past'
      (.error x) ∧ r = .error x) ∨
    ∃ v past v' past' dataKey encryptedKey,
      (tokenCipher keyManager).Exec v keyManager.generateDataKey past v' past'
        (.ok (dataKey, encryptedKey)) ∧ CipherLater keyManager v' w' ∧
      ((0xFFFF < encryptedKey.length ∧ ∃ msg, r = .error (.valueError msg)) ∨
        encryptedKey.length ≤ 0xFFFF ∧ dataKey.length ∉ aesKeySizes ∧
          (∃ msg, r = .error (.valueError msg)) ∨
        encryptedKey.length ≤ 0xFFFF ∧ dataKey.length ∈ aesKeySizes ∧ ∃ nonce ciphertext,
          nonce.length = nonceSize ∧ gcmTagSize ≤ ciphertext.length ∧
          w'.opensTo dataKey nonce ciphertext = some (Bytes.encode plaintext) ∧
          r = .ok (cipherBlob encryptedKey nonce ciphertext)) := by
  rcases exec.bind with ⟨_, w₁, tr₁, -, exec⟩ | ⟨x, raised, -⟩
  · rcases exec.bind with ⟨⟨dataKey, encryptedKey⟩, w₂, tr₂, generated, exec⟩ | ⟨x, raised, same⟩
    · refine .inr ⟨_, _, _, _, dataKey, encryptedKey, generated, exec.later, ?_⟩
      change (tokenCipher keyManager).Exec w₂ (if _ then _ else _) tr₂ w' tr' r at exec
      split at exec
      · rename_i long
        cases exec
        exact .inl ⟨long, _, rfl⟩
      · rename_i fits
        have fits := Nat.not_lt.mp fits
        refine .inr ?_
        rcases exec.bind with ⟨nonce, w₃, tr₃, drawn, exec⟩ | ⟨x, raised, -⟩
        · obtain ⟨v, -, permits, -, -⟩ := drawn.perform
          change v.permits _ = true at permits
          simp only [CipherWorld.permits, Bool.and_eq_true, decide_eq_true_eq] at permits
          have size := permits.1
          rcases exec.bind with ⟨ciphertext, w₄, tr₄, sealing, exec⟩ | ⟨x, raised, same⟩
          · obtain ⟨v, -, permits, after, -⟩ := sealing.perform
            cases exec with
            | ret _ _ later =>
              have opens := opensTo_later (after.trans later) (CipherWorld.opensTo_sealed permits)
              change v.permits _ = true at permits
              simp only [CipherWorld.permits, Bool.and_eq_true, decide_eq_true_eq] at permits
              exact .inr ⟨fits, permits.1.1, nonce, ciphertext, size,
                permits.1.2 ▸ Nat.le_add_left _ _, opens, rfl⟩
          · obtain ⟨v, -, permits, -, -⟩ := raised.perform
            change v.permits _ = true at permits
            cases x with
            | valueError msg =>
              simp only [CipherWorld.permits, decide_eq_true_eq] at permits
              exact .inl ⟨fits, permits, msg, same⟩
            | _ => cases permits
        · obtain ⟨v, -, permits, -, -⟩ := raised.perform
          cases permits
    · exact .inl ⟨_, _, _, _, x, raised, same⟩
  · cases exec_registerPlaintext raised

/-- A blob opens to its plaintext unless its data key is unwrapped to anything else. -/
theorem exec_decrypt {encryptedKey dataKey nonce ciphertext : Bytes} {plaintext : Str}
    {r : Except PyExn Str} (fits : encryptedKey.length ≤ 0xFFFF)
    (valid : dataKey.length ∈ aesKeySizes) (size : nonce.length = nonceSize)
    (tagged : gcmTagSize ≤ ciphertext.length)
    (opens : w.opensTo dataKey nonce ciphertext = some (Bytes.encode plaintext))
    (exec : (tokenCipher keyManager).Exec w
      (TokenCipher.decrypt keyManager (cipherBlob encryptedKey nonce ciphertext)) tr w' tr' r) :
    ∃ w₁ tr₁ key, (tokenCipher keyManager).Exec w (keyManager.decryptDataKey encryptedKey) tr w₁ tr₁
        key ∧ tr₁ <+: tr' ∧ (key = .ok dataKey → r = .ok plaintext) := by
  rw [decrypt_cipherBlob keyManager fits size tagged] at exec
  rcases exec.bind with ⟨key, w₁, tr₁, unwrapped, last⟩ | ⟨x, raised, -⟩
  · refine ⟨w₁, tr₁, .ok key, unwrapped, last.grows, fun same => ?_⟩
    obtain rfl := Except.ok.inj same
    exact exec_openCiphertext valid (opensTo_later unwrapped.later opens) last
  · exact ⟨w', tr', .error x, raised, List.prefix_rfl, nofun⟩

/-- A key manager that inverts itself makes the envelope a round trip for every length of
the wrapped key up to the limit of the length field, and beyond it nothing is encrypted. -/
theorem envelope_round_trip (inverts : keyManager.Inverts) {plaintext : Str}
    {r : Except PyExn Bytes}
    (exec : (tokenCipher keyManager).Exec w (TokenCipher.encrypt keyManager plaintext) tr w' tr'
      r) :
    (∃ v past v' past' x, (tokenCipher keyManager).Exec v keyManager.generateDataKey past v' past'
      (.error x) ∧ r = .error x) ∨
    ∃ v past v' past' dataKey encryptedKey,
      (tokenCipher keyManager).Exec v keyManager.generateDataKey past v' past'
        (.ok (dataKey, encryptedKey)) ∧
      (0xFFFF < encryptedKey.length → ∃ msg, r = .error (.valueError msg)) ∧
      (encryptedKey.length ≤ 0xFFFF → dataKey.length = dataKeySize → ∃ blob, r = .ok blob) ∧
      ∀ blob, r = .ok blob → ∀ w₂, CipherLater keyManager w' w₂ → ∀ past₂ w₃ tr₃ r₃,
        (tokenCipher keyManager).Exec w₂ (TokenCipher.decrypt keyManager blob) past₂ w₃ tr₃ r₃ →
          r₃ = .ok plaintext := by
  rcases exec_encrypt exec with raised | ⟨v, past, v', past', dataKey, encryptedKey, generated,
    later, ended⟩
  · exact .inl raised
  refine .inr ⟨v, past, v', past', dataKey, encryptedKey, generated, ?_⟩
  rcases ended with ⟨long, msg, rfl⟩ | ⟨fits, invalid, msg, rfl⟩ |
    ⟨fits, valid, nonce, ciphertext, size, tagged, opens, rfl⟩
  · exact ⟨fun _ => ⟨msg, rfl⟩, fun short => absurd long (Nat.not_lt.mpr short), nofun⟩
  · refine ⟨fun long => absurd long (Nat.not_lt.mpr fits), fun _ is => ?_, nofun⟩
    rw [is] at invalid
    exact absurd (by decide) invalid
  · refine ⟨fun long => absurd long (Nat.not_lt.mpr fits), fun _ _ => ⟨_, rfl⟩, ?_⟩
    rintro blob ⟨⟩ w₂ later₂ past₂ w₃ tr₃ r₃ exec₃
    obtain ⟨w₄, tr₄, key, unwrapped, -, back⟩ :=
      exec_decrypt fits valid size tagged (opensTo_later later₂ opens) exec₃
    exact back (inverts _ _ _ _ _ _ generated _ (later.trans later₂) _ _ _ _ unwrapped)

/-- Under AWS KMS, an encrypted credential is decrypted whenever KMS answers the wrapped
key with the data key that it came with. -/
theorem awsKms_round_trip {keyId plaintext : Str} {blob : Bytes}
    (exec : (tokenCipher (awsKmsKeyManager keyId)).Exec w
      (TokenCipher.encrypt (awsKmsKeyManager keyId) plaintext) tr w' tr' (.ok blob)) :
    ∃ v past v' past' dataKey encryptedKey,
      (tokenCipher (awsKmsKeyManager keyId)).Exec v (awsKmsKeyManager keyId).generateDataKey past v'
        past' (.ok (dataKey, encryptedKey)) ∧
      ∀ w₂, CipherLater (awsKmsKeyManager keyId) w' w₂ → ∀ past₂ w₃ tr₃ r,
        (tokenCipher (awsKmsKeyManager keyId)).Exec w₂
          (TokenCipher.decrypt (awsKmsKeyManager keyId) blob) past₂ w₃ tr₃ r →
        ∃ answer, past₂ ++ [⟨.kmsDecrypt keyId encryptedKey, answer⟩] <+: tr₃ ∧
          (answer = .ok dataKey → r = .ok plaintext) := by
  rcases exec_encrypt exec with ⟨_, _, _, _, x, -, same⟩ |
    ⟨v, past, v', past', dataKey, encryptedKey, generated, -, ended⟩
  · cases same
  refine ⟨v, past, v', past', dataKey, encryptedKey, generated, ?_⟩
  rcases ended with ⟨-, msg, same⟩ | ⟨-, -, msg, same⟩ |
    ⟨fits, valid, nonce, ciphertext, size, tagged, opens, same⟩
  · cases same
  · cases same
  obtain rfl := Except.ok.inj same
  intro w₂ later past₂ w₃ tr₃ r exec₃
  obtain ⟨w₄, tr₄, answer, unwrapped, grows, back⟩ :=
    exec_decrypt fits valid size tagged (opensTo_later later opens) exec₃
  obtain ⟨-, -, -, -, rfl⟩ := unwrapped.perform
  exact ⟨answer, grows, back⟩

end RoundTrip

namespace Demo

/-- A master key of 32 bytes. -/
def master : MasterKey := ⟨List.replicate 32 7, rfl⟩

/-- What the demo encrypts. -/
def plaintext : Str := "1//refresh-token"

def dataKey : Bytes := List.replicate 32 9

def nonce : Bytes := List.replicate 12 1

/-- A ciphertext of the right length. -/
def sealing (data : Bytes) : Bytes := data ++ List.replicate 16 0

/-- A call of `encrypt`, answered step by step. -/
theorem encrypts : ∃ w tr, (tokenCipher (localKeyManager master)).Exec master.world
    (TokenCipher.encrypt (localKeyManager master) plaintext) [] w tr
    (.ok (cipherBlob (nonce ++ sealing dataKey) nonce (sealing (Bytes.encode plaintext)))) :=
  ⟨_, _, .call (.ok ()) .refl (by decide) (.call (.ok dataKey) .refl (by decide)
    (.call (.ok nonce) .refl (by decide) (.call (.ok (sealing dataKey)) .refl (by decide)
      (.call (.ok nonce) .refl (by decide)
        (.call (.ok (sealing (Bytes.encode plaintext))) .refl (by decide) (.ret _ _ .refl))))))⟩

end Demo

/-- A refresh token is encrypted under a local master key, and decrypted later. -/
theorem envelope_round_trip_demo : ∃ w tr blob,
    (tokenCipher (localKeyManager Demo.master)).Exec Demo.master.world
        (TokenCipher.encrypt (localKeyManager Demo.master) Demo.plaintext) [] w tr (.ok blob) ∧
      ∀ w₂, CipherLater (localKeyManager Demo.master) w w₂ → ∀ past w₃ tr₃ r,
        (tokenCipher (localKeyManager Demo.master)).Exec w₂
          (TokenCipher.decrypt (localKeyManager Demo.master) blob) past w₃ tr₃ r →
            r = .ok Demo.plaintext := by
  obtain ⟨w, tr, exec⟩ := Demo.encrypts
  refine ⟨w, tr, _, exec, ?_⟩
  rcases envelope_round_trip (localKeyManager_inverts Demo.master) exec with
    ⟨v, past, v', past', x, -, raised⟩ | ⟨v, past, v', past', dataKey, encryptedKey, -, -, -, back⟩
  · cases raised
  · exact back _ rfl

end CredBroker
