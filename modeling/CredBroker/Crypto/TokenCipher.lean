import CredBroker.Interaction.Pool
import CredBroker.Python.Bytes
import CredBroker.Reliability.Retry

/-!
# Envelope encryption

`TokenCipher` with its two key managers, over operations for the random
numbers, AES-GCM, AWS KMS and the redaction registry. The broker's `encrypt` and
`decrypt` operations run these programs in a thread.

`tokenCipher` serves any number of such calls over one world, in which AES-GCM
opens what was sealed and nothing else, and no random key is drawn twice.
-/

namespace CredBroker

open Python Interaction

/-! ## Operations -/

inductive CipherOp
  /-- `_SECRET_REGISTRY.add(value)`. -/
  | registerSecret (value : Str)
  /-- `os.urandom(size)`. -/
  | urandom (size : Nat)
  /-- `AESGCM(key).encrypt(nonce, data, None)`. -/
  | aesEncrypt (key nonce data : Bytes)
  /-- `AESGCM(key).decrypt(nonce, data, None)`. -/
  | aesDecrypt (key nonce data : Bytes)
  /-- `client.generate_data_key(KeyId=key_id, KeySpec="AES_256")`. -/
  | kmsGenerate (keyId : Str)
  /-- `client.decrypt(KeyId=key_id, CiphertextBlob=blob)`. -/
  | kmsDecrypt (keyId : Str) (blob : Bytes)

abbrev CipherOp.Val : CipherOp → Type
  | .registerSecret _ => Unit
  | .kmsGenerate _ => Bytes × Bytes
  | _ => Bytes

abbrev CipherSig : Sig := PySig CipherOp CipherOp.Val

abbrev CipherProg (α : Type) : Type := Prog CipherSig α

abbrev cipherOp (e : CipherOp) : CipherProg e.Val := @Prog.perform CipherSig e

/-- `isinstance(exc, InvalidTag)`. -/
def PyExn.isInvalidTag : PyExn → Bool
  | .other name _ => name = "InvalidTag"
  | _ => false

/-! ## The layout of a blob -/

/-- `_MAGIC`. -/
def cipherMagic : Bytes := [67, 66, 49]

/-- `_NONCE_SIZE`. -/
def nonceSize : Nat := 12

/-- `_GCM_TAG_SIZE`. -/
def gcmTagSize : Nat := 16

/-- `_DATA_KEY_SIZE`. -/
def dataKeySize : Nat := 32

/-- `_HEADER_SIZE`. -/
def headerSize : Nat := 5

/-- `_KEY_LEN_STRUCT.pack(n)`: two bytes, the high one first. -/
def packKeyLen (n : Nat) : Bytes := [UInt8.ofNat (n / 256), UInt8.ofNat (n % 256)]

/-- `_KEY_LEN_STRUCT.unpack_from(blob, len(_MAGIC))`, of a blob with a header. -/
def unpackKeyLen (blob : Bytes) : Nat :=
  match blob.drop cipherMagic.length with
  | high :: low :: _ => high.toNat * 256 + low.toNat
  | _ => 0

/-! ## Key managers -/

/-- Wraps and unwraps data keys. -/
structure KeyManager where
  /-- The data key and its wrapped form. -/
  generateDataKey : CipherProg (Bytes × Bytes)
  decryptDataKey : (encryptedKeyBlob : Bytes) → CipherProg Bytes

/-- A key manager backed by AWS KMS. -/
def awsKmsKeyManager (keyId : Str) : KeyManager where
  generateDataKey := cipherOp (.kmsGenerate keyId)
  decryptDataKey encryptedKeyBlob := cipherOp (.kmsDecrypt keyId encryptedKeyBlob)

/-- A master key of the size that `LocalKeyManager.__init__` insists on. -/
structure MasterKey where
  key : Bytes
  size : key.length = dataKeySize

/-- `LocalKeyManager(master_key)`. -/
def localKeyManager (master : MasterKey) : KeyManager where
  generateDataKey := do
    let plaintextKey ← cipherOp (.urandom dataKeySize)
    let nonce ← cipherOp (.urandom nonceSize)
    let ciphertext ← cipherOp (.aesEncrypt master.key nonce plaintextKey)
    return (plaintextKey, nonce ++ ciphertext)
  decryptDataKey encryptedKeyBlob :=
    if encryptedKeyBlob.length < nonceSize + gcmTagSize then
      .throw (.valueError "encrypted data key is truncated")
    else do
      let nonce := encryptedKeyBlob.take nonceSize
      let wrapped := encryptedKeyBlob.drop nonceSize
      match ← (cipherOp (.aesDecrypt master.key nonce wrapped)).attempt with
      | .ok plaintextKey => return plaintextKey
      | .error exc =>
        if exc.isInvalidTag then
          .throw (.valueError "failed to unwrap data key (corrupt blob or wrong master key)")
        else .throw exc

/-! ## The cipher -/

/-- `register_secret(value)`, of a `str`. -/
def registerPlaintext (value : Str) : CipherProg Unit :=
  if value.length < 8 then return () else cipherOp (.registerSecret value)

/-- The blob of a wrapped key, a nonce and a ciphertext. -/
def cipherBlob (encryptedKey nonce ciphertext : Bytes) : Bytes :=
  cipherMagic ++ packKeyLen encryptedKey.length ++ encryptedKey ++ nonce ++ ciphertext

/-- `TokenCipher.encrypt(plaintext)`. -/
def TokenCipher.encrypt (keyManager : KeyManager) (plaintext : Str) : CipherProg Bytes := do
  registerPlaintext plaintext
  let (dataKey, encryptedKey) ← keyManager.generateDataKey
  if 0xFFFF < encryptedKey.length then
    .throw (.valueError "encrypted data key too large for blob format")
  else
    let nonce ← cipherOp (.urandom nonceSize)
    let ciphertext ← cipherOp (.aesEncrypt dataKey nonce (Bytes.encode plaintext))
    return cipherBlob encryptedKey nonce ciphertext

/-- The plaintext of an opened blob. -/
def openedPlaintext (plaintextBytes : Bytes) : CipherProg Str :=
  match Bytes.decode plaintextBytes with
  | none => .throw (.valueError "'utf-8' codec can't decode the plaintext")
  | some plaintext => do
    registerPlaintext plaintext
    return plaintext

/-- The end of `TokenCipher.decrypt`: the ciphertext is opened under its data key. -/
def openCiphertext (dataKey nonce ciphertext : Bytes) : CipherProg Str := do
  match ← (cipherOp (.aesDecrypt dataKey nonce ciphertext)).attempt with
  | .ok plaintextBytes => openedPlaintext plaintextBytes
  | .error exc =>
    if exc.isInvalidTag then
      .throw (.valueError "credential blob failed authentication (corrupt)")
    else .throw exc

/-- `TokenCipher.decrypt(blob)`. -/
def TokenCipher.decrypt (keyManager : KeyManager) (blob : Bytes) : CipherProg Str :=
  if blob.length < headerSize then .throw (.valueError "credential blob is truncated")
  else if blob.take cipherMagic.length ≠ cipherMagic then
    .throw (.valueError "unknown credential blob version")
  else
    let bodyStart := headerSize + unpackKeyLen blob
    if blob.length < bodyStart + nonceSize + gcmTagSize then
      .throw (.valueError "credential blob is truncated")
    else do
      let encryptedKey := (blob.drop headerSize).take (unpackKeyLen blob)
      let nonce := (blob.drop bodyStart).take nonceSize
      let ciphertext := blob.drop (bodyStart + nonceSize)
      let dataKey ← keyManager.decryptDataKey encryptedKey
      openCiphertext dataKey nonce ciphertext

/-! ## The service -/

/-- What was sealed to which ciphertext. -/
structure Sealing where
  key : Bytes
  nonce : Bytes
  data : Bytes
  ciphertext : Bytes
  deriving DecidableEq

/-- The key sizes of AES. -/
def aesKeySizes : List Nat := [16, 24, 32]

structure CipherWorld where
  sealings : List Sealing
  /-- The keys in use: the master key and the data keys that were drawn. -/
  keys : List Bytes
  secrets : List Str

namespace CipherWorld

/-- What a ciphertext opens to. -/
def opensTo (w : CipherWorld) (key nonce ciphertext : Bytes) : Option Bytes :=
  (w.sealings.find? fun s => s.key = key ∧ s.nonce = nonce ∧ s.ciphertext = ciphertext).map
    Sealing.data

/-- Whether the environment may answer so. A ciphertext is as long as its data and a
tag, and opens to one text; without a sealing, AES-GCM raises `InvalidTag`. AWS KMS
may answer anything. -/
def permits (w : CipherWorld) : Event CipherSig → Bool
  | ⟨.registerSecret _, .ok _⟩ => true
  | ⟨.urandom size, .ok bytes⟩ => bytes.length = size && (size ≠ dataKeySize || bytes ∉ w.keys)
  | ⟨.aesEncrypt key nonce data, .ok ciphertext⟩ =>
    key.length ∈ aesKeySizes && ciphertext.length = data.length + gcmTagSize &&
      (w.opensTo key nonce ciphertext).all (· = data)
  | ⟨.aesEncrypt key _ _, .error (.valueError _)⟩ => key.length ∉ aesKeySizes
  | ⟨.aesDecrypt key nonce ciphertext, .ok data⟩ =>
    key.length ∈ aesKeySizes && w.opensTo key nonce ciphertext = some data
  | ⟨.aesDecrypt key nonce ciphertext, .error exc⟩ =>
    if key.length ∈ aesKeySizes then exc.isInvalidTag && w.opensTo key nonce ciphertext = none
    else
      match exc with
      | .valueError _ => true
      | _ => false
  | ⟨.kmsGenerate _, _⟩ => true
  | ⟨.kmsDecrypt _ _, _⟩ => true
  | _ => false

/-- The world after an answered operation. -/
def after (w : CipherWorld) : Event CipherSig → CipherWorld
  | ⟨.registerSecret value, .ok _⟩ =>
    if value ∈ w.secrets then w else { w with secrets := w.secrets ++ [value] }
  | ⟨.urandom size, .ok bytes⟩ =>
    if size = dataKeySize then { w with keys := w.keys ++ [bytes] } else w
  | ⟨.aesEncrypt key nonce data, .ok ciphertext⟩ =>
    { w with sealings := w.sealings ++ [⟨key, nonce, data, ciphertext⟩] }
  | _ => w

end CipherWorld

inductive CipherRequest
  | encrypt (plaintext : Str)
  | decrypt (blob : Bytes)

inductive CipherResponse
  | blob (blob : Bytes)
  | plaintext (plaintext : Str)
  deriving DecidableEq

/-- One `TokenCipher`, called from any number of threads. -/
def tokenCipher (keyManager : KeyManager) :
    Machine CipherSig CipherRequest CipherResponse CipherWorld Empty where
  entry
    | .encrypt plaintext => .blob <$> TokenCipher.encrypt keyManager plaintext
    | .decrypt blob => .plaintext <$> TokenCipher.decrypt keyManager blob
  Permits w _ e := w.permits e = true
  after w _ e := w.after e
  nudge n _ := n.elim

instance (keyManager : KeyManager) (w : CipherWorld) (tr : Trace CipherSig) (e : Event CipherSig) :
    Decidable ((tokenCipher keyManager).Permits w tr e) :=
  inferInstanceAs (Decidable (w.permits e = true))

/-- Nothing sealed yet. -/
def MasterKey.world (master : MasterKey) : CipherWorld := ⟨[], [master.key], []⟩

end CredBroker
