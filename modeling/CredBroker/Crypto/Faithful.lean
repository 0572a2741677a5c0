import CredBroker.Crypto.Envelope
import CredBroker.Interaction.Exec

/-!
# Calls of one token cipher

Any number of threads call the token cipher. What one of them decrypts from a blob is
what another encrypted to it, for at the end both have left the same sealings behind.
-/

namespace CredBroker

open Python Interaction

variable {master : MasterKey} {w w' : CipherWorld} {tr tr' : Trace CipherSig}

/-! ## What a call leaves behind -/

/-- What was opened still opens. -/
theorem exec_opened {keyManager : KeyManager} {key nonce ciphertext data : Bytes}
    (exec : (tokenCipher keyManager).Exec w (cipherOp (.aesDecrypt key nonce ciphertext)) tr w' tr'
      (.ok data)) : w'.opensTo key nonce ciphertext = some data := by
  obtain ⟨v, -, permits, after, -⟩ := exec.perform
  change v.permits _ = true at permits
  simp only [CipherWorld.permits, Bool.and_eq_true, decide_eq_true_eq] at permits
  exact opensTo_later after (CipherWorld.opensTo_after permits.2 _)

theorem exec_opened_attempt {keyManager : KeyManager} {key nonce ciphertext : Bytes}
    {ended : Except PyExn Bytes} (exec : (tokenCipher keyManager).Exec w
      (cipherOp (.aesDecrypt key nonce ciphertext)).attempt tr w' tr' (.ok ended)) {data : Bytes}
    (opened : ended = .ok data) : w'.opensTo key nonce ciphertext = some data := by
  obtain ⟨answer, inner, same⟩ := exec.attempt
  obtain rfl := Except.ok.inj same
  subst opened
  exact exec_opened inner

/-- The local key manager wraps a data key under the master key. -/
theorem exec_generated {dataKey encryptedKey : Bytes}
    (exec : (tokenCipher (localKeyManager master)).Exec w (localKeyManager master).generateDataKey
      tr w' tr' (.ok (dataKey, encryptedKey))) :
    ∃ nonce wrapped, encryptedKey = nonce ++ wrapped ∧ nonce.length = nonceSize ∧
      w'.opensTo master.key nonce wrapped = some dataKey := by
  rcases exec.bind with ⟨_, v₁, tr₁, -, exec⟩ | ⟨x, -, same⟩
  swap
  · cases same
  rcases exec.bind with ⟨nonce, v₂, tr₂, drawn, exec⟩ | ⟨x, -, same⟩
  swap
  · cases same
  rcases exec.bind with ⟨ciphertext, v₃, tr₃, sealing, exec⟩ | ⟨x, -, same⟩
  swap
  · cases same
  cases exec with
  | ret _ _ last =>
    obtain ⟨v, -, permits, -, -⟩ := drawn.perform
    change v.permits _ = true at permits
    simp only [CipherWorld.permits, Bool.and_eq_true, decide_eq_true_eq] at permits
    have size := permits.1
    obtain ⟨v, -, permits, after, -⟩ := sealing.perform
    exact ⟨nonce, ciphertext, rfl, size,
      opensTo_later (after.trans last) (CipherWorld.opensTo_sealed permits)⟩

/-- And opens a wrapped key under it. -/
theorem exec_unwrapped {nonce wrapped dataKey : Bytes} (size : nonce.length = nonceSize)
    (exec : (tokenCipher (localKeyManager master)).Exec w
      ((localKeyManager master).decryptDataKey (nonce ++ wrapped)) tr w' tr' (.ok dataKey)) :
    w'.opensTo master.key nonce wrapped = some dataKey := by
  change (tokenCipher _).Exec w (if _ then _ else _) tr w' tr' _ at exec
  split at exec
  · cases exec
  rw [← size, List.take_left, List.drop_left] at exec
  rcases exec.bind with ⟨ended, v, tr₁, first, exec⟩ | ⟨x, -, same⟩
  swap
  · cases same
  cases ended with
  | error x =>
    change (tokenCipher _).Exec v (if _ then _ else _) tr₁ w' tr' _ at exec
    split at exec <;> cases exec
  | ok opened =>
    have opens := exec_opened_attempt first rfl
    cases exec with
    | ret _ _ later => exact opensTo_later later opens

/-- A ciphertext is opened to the bytes of its plaintext. -/
theorem exec_openedCiphertext {keyManager : KeyManager} {dataKey nonce ciphertext : Bytes}
    {plaintext : Str} (exec : (tokenCipher keyManager).Exec w
      (openCiphertext dataKey nonce ciphertext) tr w' tr' (.ok plaintext)) :
    ∃ data, w'.opensTo dataKey nonce ciphertext = some data ∧
    Bytes.decode data = some plaintext := by
  rcases exec.bind with ⟨ended, v, tr₁, first, exec⟩ | ⟨x, -, same⟩
  swap
  · cases same
  cases ended with
  | error x =>
    change (tokenCipher _).Exec v (if _ then _ else _) tr₁ w' tr' _ at exec
    split at exec <;> cases exec
  | ok data =>
    refine ⟨data, opensTo_later exec.later (exec_opened_attempt first rfl), ?_⟩
    change (tokenCipher _).Exec v (openedPlaintext data) tr₁ w' tr' _ at exec
    unfold openedPlaintext at exec
    split at exec
    · cases exec
    · rename_i decoded
      rw [decoded]
      rcases exec.bind with ⟨_, _, _, -, returns⟩ | ⟨x, -, same⟩
      · cases returns
        rfl
      · cases same

/-! ## Encryptions and decryptions of a run -/

/-- A call of the cipher returned. -/
def CipherReturns (c : Config CipherSig CipherRequest CipherResponse CipherWorld)
    (req : CipherRequest) (res : CipherResponse) : Prop :=
  ∃ (i : Nat) (t : Thread CipherSig CipherRequest CipherResponse),
    c.threads[i]? = some t ∧ t.req = req ∧ t.prog = .ofExcept (.ok res)

variable {c : Config CipherSig CipherRequest CipherResponse CipherWorld}

/-- A call that returned was run amid the others. -/
theorem CipherReturns.exec {keyManager : KeyManager}
    (run : (tokenCipher keyManager).Reaches (.start w) c) {req : CipherRequest}
    {res : CipherResponse} (returns : CipherReturns c req res) :
    ∃ v tr, (tokenCipher keyManager).Exec v ((tokenCipher keyManager).entry req) [] c.world tr
      (.ok res) := by
  obtain ⟨i, t, thread, rfl, ended⟩ := returns
  obtain ⟨mid, -, last, fresh⟩ := run.spawned (Nat.zero_le i) thread
  exact ⟨mid.world, t.trace, last.exec fresh thread ended⟩

/-- What is decrypted from a blob is what was encrypted to it. -/
theorem decrypted_encrypted
    (run : (tokenCipher (localKeyManager master)).Reaches (.start w) c) {plaintext plaintext' : Str}
    {blob : Bytes} (encrypted : CipherReturns c (.encrypt plaintext) (.blob blob))
    (decrypted : CipherReturns c (.decrypt blob) (.plaintext plaintext')) :
    plaintext' = plaintext := by
  obtain ⟨v, tr, exec⟩ := encrypted.exec run
  obtain ⟨v', tr', exec'⟩ := decrypted.exec run
  -- the encryption has sealed the data key and the plaintext
  rcases exec.bind with ⟨_, v₁, tr₁, exec, returns⟩ | ⟨x, -, same⟩
  swap
  · cases same
  cases returns with
  | ret _ _ later =>
  rcases exec_encrypt exec with ⟨_, _, _, _, _, -, same⟩ |
    ⟨_, _, v₂, _, dataKey, encryptedKey, generated, last, ended⟩
  · cases same
  rcases ended with ⟨-, msg, same⟩ | ⟨-, -, msg, same⟩ |
    ⟨fits, -, nonce, ciphertext, size, tagged, sealed, same⟩
  · cases same
  · cases same
  obtain rfl := Except.ok.inj same
  obtain ⟨nonce', wrapped, rfl, size', wraps⟩ := exec_generated generated
  -- the decryption has opened the same
  rcases exec'.bind with ⟨_, v₃, tr₃, exec', returns⟩ | ⟨x, -, same⟩
  swap
  · cases same
  cases returns with
  | ret _ _ later' =>
  rw [decrypt_cipherBlob _ fits size tagged] at exec'
  rcases exec'.bind with ⟨opened, v₄, tr₄, unwrapped, exec'⟩ | ⟨x, -, same⟩
  swap
  · cases same
  obtain ⟨data, opens, decoded⟩ := exec_openedCiphertext exec'
  have key := opensTo_later (exec'.later.trans later') (exec_unwrapped size' unwrapped)
  obtain rfl : dataKey = opened :=
    Option.some.inj ((opensTo_later (last.trans later) wraps).symm.trans key)
  obtain rfl : Bytes.encode plaintext = data :=
    Option.some.inj ((opensTo_later later sealed).symm.trans (opensTo_later later' opens))
  exact Option.some.inj (decoded.symm.trans (Bytes.decode_encode _))

end CredBroker
