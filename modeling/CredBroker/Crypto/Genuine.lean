import CredBroker.Crypto.Envelope
import CredBroker.Interaction.History

/-!
# Genuine blobs

Under a local master key, `TokenCipher.decrypt` returns a plaintext only for the
very bytes that an encryption of it returned, and raises `ValueError` for all
others: the data key that the wrapped key opens to was drawn by one encryption
only, which sealed one wrapped key and one ciphertext with it.
-/

namespace CredBroker

open Python Interaction

/-! ## Reading a blob -/

theorem packKeyLen_unpack (high low : UInt8) :
    packKeyLen (high.toNat * 256 + low.toNat) = [high, low] := by
  have bound := low.toNat_lt
  have first : (high.toNat * 256 + low.toNat) / 256 = high.toNat := by omega
  have second : (high.toNat * 256 + low.toNat) % 256 = low.toNat := by omega
  rw [packKeyLen, first, second, UInt8.ofNat_toNat, UInt8.ofNat_toNat]

/-- A blob is refused for its shape, or it is made of three parts of the right sizes. -/
theorem decrypt_shape (keyManager : KeyManager) (blob : Bytes) :
    (∃ msg, TokenCipher.decrypt keyManager blob = .throw (.valueError msg)) ∨
      ∃ encryptedKey nonce ciphertext, encryptedKey.length ≤ 0xFFFF ∧ nonce.length = nonceSize ∧
        gcmTagSize ≤ ciphertext.length ∧ blob = cipherBlob encryptedKey nonce ciphertext := by
  by_cases headed : blob.length < headerSize
  · exact .inl ⟨_, by rw [TokenCipher.decrypt, if_pos headed]⟩
  by_cases magic : blob.take cipherMagic.length = cipherMagic
  swap
  · exact .inl ⟨_, by rw [TokenCipher.decrypt, if_neg headed, if_pos magic]⟩
  by_cases short : blob.length < headerSize + unpackKeyLen blob + nonceSize + gcmTagSize
  · exact .inl ⟨_, by
      rw [TokenCipher.decrypt, if_neg headed, if_neg (not_not.mpr magic)]
      exact if_pos short⟩
  refine .inr ?_
  rcases blob with _ | ⟨m₀, _ | ⟨m₁, _ | ⟨m₂, _ | ⟨high, _ | ⟨low, body⟩⟩⟩⟩⟩
  case nil | cons.nil | cons.cons.nil | cons.cons.cons.nil | cons.cons.cons.cons.nil =>
    exact absurd (by simp [headerSize]) headed
  case cons.cons.cons.cons.cons =>
    have keyLen : unpackKeyLen (m₀ :: m₁ :: m₂ :: high :: low :: body) =
        high.toNat * 256 + low.toNat := rfl
    rw [keyLen] at short
    generalize is : high.toNat * 256 + low.toNat = n at short
    have bound := low.toNat_lt
    have bound' := high.toNat_lt
    have room : n + nonceSize + gcmTagSize ≤ body.length := by
      simp only [List.length_cons, headerSize, nonceSize, gcmTagSize] at short ⊢
      omega
    refine ⟨body.take n, (body.drop n).take nonceSize, body.drop (n + nonceSize), ?_, ?_, ?_, ?_⟩
    · rw [List.length_take]
      omega
    · rw [List.length_take, List.length_drop]
      simp only [nonceSize, gcmTagSize] at room ⊢
      omega
    · rw [List.length_drop]
      simp only [nonceSize, gcmTagSize] at room ⊢
      omega
    · have size : (body.take n).length = n := by
        rw [List.length_take]
        simp only [nonceSize, gcmTagSize] at room
        omega
      have parts : body = body.take n ++ ((body.drop n).take nonceSize ++
          body.drop (n + nonceSize)) := by
        rw [← List.drop_drop, List.take_append_drop, List.take_append_drop]
      rw [cipherBlob_eq, size, ← parts, ← is, packKeyLen_unpack]
      have same : [m₀, m₁, m₂] = cipherMagic := magic
      rw [← same]
      rfl

/-! ## What one encryption does -/

variable {master : MasterKey}

/-- How an encryption begins. -/
def registers (plaintext : Str) : Trace CipherSig :=
  if plaintext.length < 8 then [] else [⟨.registerSecret plaintext, .ok ()⟩]

/-- A data key is drawn and wrapped. -/
def wraps (master : MasterKey) (dataKey nonce ciphertext : Bytes) : Trace CipherSig :=
  [⟨.urandom dataKeySize, .ok dataKey⟩, ⟨.urandom nonceSize, .ok nonce⟩,
    ⟨.aesEncrypt master.key nonce dataKey, .ok ciphertext⟩]

/-- The plaintext is sealed under the data key. -/
def seals (dataKey nonce : Bytes) (plaintext : Str) (ciphertext : Bytes) : Trace CipherSig :=
  [⟨.urandom nonceSize, .ok nonce⟩,
    ⟨.aesEncrypt dataKey nonce (Bytes.encode plaintext), .ok ciphertext⟩]

/-- Before its operations an encryption has drawn what they seal with, and it performs
five at most after the plaintext is registered. -/
def encryptGuard (master : MasterKey) (plaintext : Str) (past : Trace CipherSig) :
    CipherOp → Prop
  | .urandom size => past.length < (registers plaintext).length + 5 ∧
      (size = dataKeySize → past = registers plaintext)
  | .aesEncrypt key nonce data => past.length < (registers plaintext).length + 5 ∧
      ((key = master.key ∧ past = registers plaintext ++
          [⟨.urandom dataKeySize, .ok data⟩, ⟨.urandom nonceSize, .ok nonce⟩]) ∨
        data = Bytes.encode plaintext ∧ ∃ nonce' wrapped, past = registers plaintext ++
          wraps master key nonce' wrapped ++ [⟨.urandom nonceSize, .ok nonce⟩])
  | .registerSecret _ => past.length < (registers plaintext).length + 5
  | _ => False

/-- What an encryption that has sealed its plaintext returns. -/
def encryptPost (master : MasterKey) (plaintext : Str) (r : Except PyExn CipherResponse)
    (tr : Trace CipherSig) : Prop :=
  ∀ dataKey nonce' wrapped nonce ciphertext, tr = registers plaintext ++
      wraps master dataKey nonce' wrapped ++ seals dataKey nonce plaintext ciphertext →
    r = .ok (.blob (cipherBlob (nonce' ++ wrapped) nonce ciphertext))

/-- The answers that the environment may give to a request for random bytes. -/
theorem may_urandom {keyManager : KeyManager} {tr : Trace CipherSig} {size : Nat}
    {a : CipherSig.Ans (.urandom size)}
    (may : (tokenCipher keyManager).May tr ⟨.urandom size, a⟩) :
    ∃ bytes, a = .ok bytes ∧ bytes.length = size := by
  obtain ⟨w, permits⟩ := may
  change w.permits _ = true at permits
  cases a with
  | ok bytes =>
    simp only [CipherWorld.permits, Bool.and_eq_true, decide_eq_true_eq] at permits
    exact ⟨bytes, rfl, permits.1⟩
  | error x => cases permits

theorem may_registerSecret {keyManager : KeyManager} {tr : Trace CipherSig} {value : Str}
    {a : CipherSig.Ans (.registerSecret value)}
    (may : (tokenCipher keyManager).May tr ⟨.registerSecret value, a⟩) : a = .ok () := by
  obtain ⟨w, permits⟩ := may
  change w.permits _ = true at permits
  cases a with
  | ok v => rfl
  | error x => cases permits

theorem wp_registerPlaintext {keyManager : KeyManager} (plaintext : Str) :
    wp (tokenCipher keyManager) (.guarding (encryptGuard master plaintext))
      (registerPlaintext plaintext) (fun r tr => r = .ok () ∧ tr = registers plaintext) [] := by
  unfold registerPlaintext registers
  split
  · exact ⟨rfl, rfl⟩
  · refine ⟨Nat.succ_pos _, fun a may _ => ?_⟩
    obtain rfl := may_registerSecret may
    exact ⟨rfl, rfl⟩

/-- A shorter trace has not sealed the plaintext. -/
theorem encryptPost_short {plaintext : Str} {r : Except PyExn CipherResponse}
    {more : Trace CipherSig} (few : more.length < 5) :
    encryptPost master plaintext r (registers plaintext ++ more) := by
  intro dataKey nonce' wrapped nonce ciphertext same
  rw [List.append_assoc] at same
  rw [List.append_cancel_left same] at few
  exact absurd few (Nat.lt_irrefl 5)

theorem wp_encrypt (plaintext : Str) :
    wp (tokenCipher (localKeyManager master)) (.guarding (encryptGuard master plaintext))
      ((tokenCipher (localKeyManager master)).entry (.encrypt plaintext))
      (encryptPost master plaintext) [] := by
  refine wp_map ?_
  rw [TokenCipher.encrypt, wp_bind]
  refine wp_mono (wp_registerPlaintext plaintext) ?_
  rintro _ _ - ⟨rfl, rfl⟩
  have before (n : Nat) {more : Trace CipherSig} (few : more.length = n) (small : n < 5) :
      (registers plaintext ++ more).length < (registers plaintext).length + 5 := by
    rw [List.length_append]
    omega
  -- the data key is drawn, and wrapped under a nonce
  refine ⟨⟨Nat.lt_add_of_pos_right (by decide), fun _ => rfl⟩, fun a may _ => ?_⟩
  obtain ⟨dataKey, rfl, -⟩ := may_urandom may
  refine ⟨⟨before 1 rfl (by decide), fun other => absurd other (by decide)⟩, fun a may _ => ?_⟩
  obtain ⟨nonce', rfl, -⟩ := may_urandom may
  rw [List.append_assoc]
  refine ⟨⟨before 2 rfl (by decide), .inl ⟨rfl, rfl⟩⟩, fun a _ _ => ?_⟩
  rw [List.append_assoc]
  cases a with
  | error x => exact encryptPost_short (show 3 < 5 by decide)
  | ok wrapped =>
    show wp _ _ (if _ then _ else _) _ _
    split
    · exact encryptPost_short (show 3 < 5 by decide)
    · -- the plaintext is sealed under the data key and another nonce
      refine ⟨⟨before 3 rfl (by decide), fun other => absurd other (by decide)⟩,
        fun a may _ => ?_⟩
      obtain ⟨nonce, rfl, -⟩ := may_urandom may
      rw [List.append_assoc]
      refine ⟨⟨before 4 rfl (by decide), .inr ⟨rfl, nonce', wrapped,
        (List.append_assoc (registers plaintext) _ _).symm⟩⟩, fun a _ _ => ?_⟩
      rw [List.append_assoc]
      cases a with
      | error x =>
        intro dataKey₁ nonce₁ wrapped₁ nonce₂ ciphertext₁ same
        rw [List.append_assoc (registers plaintext) (wraps ..)] at same
        cases List.append_cancel_left same
      | ok ciphertext =>
        intro dataKey₁ nonce₁ wrapped₁ nonce₂ ciphertext₁ same
        rw [List.append_assoc (registers plaintext) (wraps ..)] at same
        cases List.append_cancel_left same
        rfl

/-! ## What one decryption does -/

/-- A decryption draws nothing and seals nothing. -/
def decryptGuard (_ : Trace CipherSig) : CipherOp → Prop
  | .registerSecret _ | .aesDecrypt .. => True
  | _ => False

/-- How a decryption ends: a plaintext was opened under a data key that the wrapped key
was opened to. -/
def decryptPost (master : MasterKey) (blob : Bytes) (r : Except PyExn CipherResponse)
    (tr : Trace CipherSig) : Prop :=
  (∃ msg, r = .error (.valueError msg)) ∨
    ∃ nonce' wrapped nonce ciphertext dataKey data plaintext,
      blob = cipherBlob (nonce' ++ wrapped) nonce ciphertext ∧
      (⟨.aesDecrypt master.key nonce' wrapped, .ok dataKey⟩ : Event CipherSig) ∈ tr ∧
      (⟨.aesDecrypt dataKey nonce ciphertext, .ok data⟩ : Event CipherSig) ∈ tr ∧
      Bytes.decode data = some plaintext ∧ r = .ok (.plaintext plaintext)

/-- AES-GCM opens a ciphertext, or raises `InvalidTag` or a `ValueError`. -/
theorem may_aesDecrypt {keyManager : KeyManager} {tr : Trace CipherSig}
    {key nonce ciphertext : Bytes} {x : PyExn}
    (may : (tokenCipher keyManager).May tr ⟨.aesDecrypt key nonce ciphertext, .error x⟩)
    (other : x.isInvalidTag = false) : ∃ msg, x = .valueError msg := by
  obtain ⟨w, permits⟩ := may
  change w.permits _ = true at permits
  cases x with
  | valueError msg => exact ⟨msg, rfl⟩
  | _ => simp [CipherWorld.permits, other] at permits

theorem wp_decrypt (blob : Bytes) :
    wp (tokenCipher (localKeyManager master)) (.guarding decryptGuard)
      ((tokenCipher (localKeyManager master)).entry (.decrypt blob))
      (decryptPost master blob) [] := by
  refine wp_map ?_
  rcases decrypt_shape (localKeyManager master) blob with ⟨msg, refused⟩ |
    ⟨encryptedKey, nonce, ciphertext, fits, size, tagged, rfl⟩
  · rw [refused]
    exact .inl ⟨msg, rfl⟩
  rw [decrypt_cipherBlob _ fits size tagged, wp_bind]
  show wp _ _ (if _ then _ else _) _ _
  split
  · exact .inl ⟨_, rfl⟩
  -- the wrapped key is opened under the master key
  rw [wp_bind, wp_attempt, cipherOp, wp_perform]
  refine ⟨trivial, fun a may _ => ?_⟩
  cases a with
  | error x =>
    show wp _ _ (if _ then _ else _) _ _
    split
    · exact .inl ⟨_, rfl⟩
    · rename_i other
      obtain ⟨msg, rfl⟩ := may_aesDecrypt may (eq_false_of_ne_true other)
      exact .inl ⟨msg, rfl⟩
  | ok dataKey =>
    show wp _ _ (openCiphertext _ _ _) _ _
    rw [openCiphertext, wp_bind, wp_attempt, cipherOp, wp_perform]
    refine ⟨trivial, fun a may _ => ?_⟩
    cases a with
    | error x =>
      show wp _ _ (if _ then _ else _) _ _
      split
      · exact .inl ⟨_, rfl⟩
      · rename_i other
        obtain ⟨msg, rfl⟩ := may_aesDecrypt may (eq_false_of_ne_true other)
        exact .inl ⟨msg, rfl⟩
    | ok data =>
      show wp _ _ (openedPlaintext data) _ _
      unfold openedPlaintext
      split
      · exact .inl ⟨_, rfl⟩
      · rename_i plaintext decoded
        have opened (more : Trace CipherSig) : decryptPost master
            (cipherBlob encryptedKey nonce ciphertext) (.ok (.plaintext plaintext))
            ([⟨.aesDecrypt master.key (encryptedKey.take nonceSize)
              (encryptedKey.drop nonceSize), .ok dataKey⟩,
              ⟨.aesDecrypt dataKey nonce ciphertext, .ok data⟩] ++ more) :=
          .inr ⟨_, _, nonce, ciphertext, dataKey, data, plaintext,
            by rw [List.take_append_drop], List.mem_cons_self,
            List.mem_cons_of_mem _ List.mem_cons_self, decoded, rfl⟩
        rw [wp_bind]
        unfold registerPlaintext
        split
        · exact opened []
        · refine ⟨trivial, fun a may _ => ?_⟩
          obtain rfl := may_registerSecret may
          exact opened [_]

/-! ## What the world keeps of the history -/

/-- The configurations of a token cipher. -/
abbrev CipherConfig : Type := Config CipherSig CipherRequest CipherResponse CipherWorld

/-- A data key that was drawn. -/
def DrewKey (e : Entry CipherSig CipherWorld) (dataKey : Bytes) : Prop :=
  e.event = ⟨.urandom dataKeySize, .ok dataKey⟩

/-- The world remembers the keys that were drawn, and knows no other sealings than
those of the history. -/
structure CipherKept (master : MasterKey) (c : CipherConfig) : Prop where
  master : master.key ∈ c.world.keys
  drawn : ∀ e ∈ c.hist, ∀ dataKey, DrewKey e dataKey → dataKey ∈ c.world.keys
  sealed : ∀ s ∈ c.world.sealings, ∃ e ∈ c.hist,
    e.event = ⟨.aesEncrypt s.key s.nonce s.data, .ok s.ciphertext⟩

theorem keys_after (w : CipherWorld) (e : Event CipherSig) : w.keys <+: (w.after e).keys := by
  unfold CipherWorld.after
  split
  · split <;> exact List.prefix_rfl
  · split
    · exact List.prefix_append _ _
    · exact List.prefix_rfl
  · exact List.prefix_rfl
  · exact List.prefix_rfl

/-- Only a sealing adds a sealing. -/
theorem mem_sealings_after {w : CipherWorld} {e : Event CipherSig} {s : Sealing}
    (member : s ∈ (w.after e).sealings) : s ∈ w.sealings ∨
      e = ⟨.aesEncrypt s.key s.nonce s.data, .ok s.ciphertext⟩ := by
  unfold CipherWorld.after at member
  split at member
  · split at member <;> exact .inl member
  · split at member <;> exact .inl member
  · rcases List.mem_append.mp member with old | new
    · exact .inl old
    · obtain rfl := List.mem_singleton.mp new
      exact .inr rfl
  · exact .inl member

section Kept

variable {c : CipherConfig}
  (run : (tokenCipher (localKeyManager master)).Reaches (.start master.world) c)

include run

theorem cipherKept : CipherKept master c := by
  induction run with
  | refl => exact ⟨List.mem_singleton_self _, nofun, nofun⟩
  | @tail b c before step ih =>
    cases step with
    | spawn r => exact ⟨ih.master, ih.drawn, ih.sealed⟩
    | nudge n moved => exact n.elim
    | @answer i t e k a running pending permits =>
      have grown := keys_after b.world ⟨e, a⟩
      refine ⟨grown.subset ih.master, fun e' member dataKey drew => ?_, fun s member => ?_⟩
      · rcases List.mem_append.mp member with old | new
        · exact grown.subset (ih.drawn e' old dataKey drew)
        · obtain rfl := List.mem_singleton.mp new
          change (⟨e, a⟩ : Event CipherSig) = _ at drew
          rw [drew]
          exact List.mem_append_right _ (List.mem_singleton_self _)
      · rcases mem_sealings_after member with old | new
        · obtain ⟨e', there, is⟩ := ih.sealed s old
          exact ⟨e', List.mem_append_left _ there, is⟩
        · exact ⟨_, List.mem_append_right _ (List.mem_singleton_self _), new⟩

/-- A data key is drawn that is not in use. -/
theorem drew_unused {h rest : List (Entry CipherSig CipherWorld)}
    {e : Entry CipherSig CipherWorld} (cut : c.hist = h ++ e :: rest) {dataKey : Bytes}
    (drew : DrewKey e dataKey) : dataKey ≠ master.key ∧ ∀ e' ∈ h, ¬ DrewKey e' dataKey := by
  have cut' : c.hist = (Config.start master.world : CipherConfig).hist ++ (h ++ e :: rest) := cut
  obtain ⟨before⟩ := run.before cut'
  have kept := cipherKept before.reached
  have permits := before.permits
  rw [drew] at permits
  change e.pre.permits _ = true at permits
  simp only [CipherWorld.permits, Bool.and_eq_true, Bool.or_eq_true, decide_eq_true_eq] at permits
  have unused := permits.2.resolve_left fun other => other rfl
  rw [← before.world_eq] at unused
  refine ⟨fun is => unused (is ▸ kept.master), fun e' member drew' => ?_⟩
  refine unused (kept.drawn e' ?_ dataKey drew')
  rw [before.hist_eq]
  exact member

/-- It is drawn once. -/
theorem drew_once {e e' : Entry CipherSig CipherWorld} (member : e ∈ c.hist)
    (member' : e' ∈ c.hist) {dataKey : Bytes} (drew : DrewKey e dataKey)
    (drew' : DrewKey e' dataKey) :
    e = e' := by
  rcases Precedes.total member member' with same | ⟨h, rest, cut, first⟩ | ⟨h, rest, cut, first⟩
  · exact same
  · exact absurd drew ((drew_unused run cut drew').2 e first)
  · exact absurd drew' ((drew_unused run cut drew).2 e' first)

/-- What an encryption performs meets its guard. -/
theorem encryption_kept {e : Entry CipherSig CipherWorld} (member : e ∈ c.hist)
    (generates : ∀ past, ¬ decryptGuard past e.event.op) :
    ∃ t plaintext, c.threads[e.tid]? = some t ∧ e.past ++ [e.event] <+: t.trace ∧
      t.req = .encrypt plaintext ∧ encryptGuard master plaintext e.past e.event.op := by
  obtain ⟨t, thread, sub⟩ := run.owned member
  cases request : t.req with
  | encrypt plaintext =>
    have entry := @wp_encrypt master plaintext
    rw [← request] at entry
    exact ⟨t, plaintext, thread, sub, request,
      run.guarded member thread entry (Role.met_guarding _ _)⟩
  | decrypt blob =>
    have entry := @wp_decrypt master blob
    rw [← request] at entry
    exact absurd (run.guarded member thread entry (Role.met_guarding _ _)) (generates e.past)

/-- An encryption that has sealed its plaintext has returned the blob of what it sealed. -/
theorem encryption_ended {i : Nat} {t : Thread CipherSig CipherRequest CipherResponse}
    (thread : c.threads[i]? = some t) {plaintext : Str} (request : t.req = .encrypt plaintext)
    {dataKey nonce' wrapped nonce ciphertext : Bytes}
    (sub : registers plaintext ++ wraps master dataKey nonce' wrapped ++
      seals dataKey nonce plaintext ciphertext <+: t.trace) :
    t.prog = .ofExcept (.ok (.blob (cipherBlob (nonce' ++ wrapped) nonce ciphertext))) := by
  have entry := @wp_encrypt master plaintext
  rw [← request] at entry
  have bound {past : Trace CipherSig} {e : CipherOp}
      (guard : encryptGuard master plaintext past e) :
      past.length < (registers plaintext).length + 5 := by
    cases e with
    | registerSecret value => exact guard
    | urandom size => exact guard.1
    | aesEncrypt key nonce data => exact guard.1
    | _ => exact guard.elim
  have length : (registers plaintext ++ wraps master dataKey nonce' wrapped ++
      seals dataKey nonce plaintext ciphertext).length = (registers plaintext).length + 5 := by
    rw [List.length_append, List.length_append]
    rfl
  obtain ⟨more, whole⟩ := sub
  obtain rfl : more = [] := by
    cases more with
    | nil => rfl
    | cons e more =>
      have kept := bound (run.kept thread entry (Role.met_guarding _ _)
        ⟨more, (List.append_assoc _ _ _).trans whole⟩)
      omega
  rw [List.append_nil] at whole
  have under := Machine.Reaches.under_start run thread entry (Role.met_guarding _ _)
  cases prog : t.prog with
  | call e k =>
    rw [prog, ← whole] at under
    have kept := bound under.1
    omega
  | ret a =>
    rw [prog] at under
    have returned := under dataKey nonce' wrapped nonce ciphertext whole.symm
    cases returned
    rfl
  | throw x =>
    rw [prog] at under
    cases under dataKey nonce' wrapped nonce ciphertext whole.symm

/-- A key that an encryption uses was drawn by it, as its first random number. -/
theorem drew_of_wraps {i : Nat} {t : Thread CipherSig CipherRequest CipherResponse}
    (thread : c.threads[i]? = some t) {plaintext : Str} {dataKey nonce' wrapped : Bytes}
    (sub : registers plaintext ++ wraps master dataKey nonce' wrapped <+: t.trace) :
    ∃ v, (⟨i, v, registers plaintext, ⟨.urandom dataKeySize, .ok dataKey⟩⟩ :
      Entry CipherSig CipherWorld) ∈ c.hist := by
  obtain ⟨more, whole⟩ := sub
  refine run.entry_at thread ⟨[⟨.urandom nonceSize, .ok nonce'⟩,
    ⟨.aesEncrypt master.key nonce' dataKey, .ok wrapped⟩] ++ more, ?_⟩
  rw [← whole, List.append_assoc, List.append_assoc]
  rfl

theorem dataKey_ne_master {e : Entry CipherSig CipherWorld} (member : e ∈ c.hist)
    {dataKey : Bytes} (drew : DrewKey e dataKey) : dataKey ≠ master.key := by
  obtain ⟨h, rest, cut⟩ := List.append_of_mem member
  exact (drew_unused run cut drew).1

/-- What was sealed under the master key is the data key of one encryption. -/
theorem wraps_of_sealed {e : Entry CipherSig CipherWorld} (member : e ∈ c.hist)
    {nonce' dataKey wrapped : Bytes}
    (event : e.event = ⟨.aesEncrypt master.key nonce' dataKey, .ok wrapped⟩) :
    ∃ (i : Nat) (t : Thread CipherSig CipherRequest CipherResponse) (plaintext : Str),
      c.threads[i]? = some t ∧ t.req = .encrypt plaintext ∧
        registers plaintext ++ wraps master dataKey nonce' wrapped <+: t.trace := by
  obtain ⟨t, plaintext, thread, sub, request, guard⟩ :=
    encryption_kept run member fun past kept => by
    rw [event] at kept
    exact kept
  rw [event] at guard sub
  refine ⟨e.tid, t, plaintext, thread, request, ?_⟩
  rcases guard.2 with ⟨-, past⟩ | ⟨-, nonce₁, wrapped₁, past⟩
  · rw [past, List.append_assoc] at sub
    exact sub
  · -- the master key would have been drawn
    rw [past, List.append_assoc] at sub
    obtain ⟨v, drawn⟩ := drew_of_wraps run thread ((List.prefix_append _ _).trans sub)
    exact absurd rfl (dataKey_ne_master run drawn rfl)

/-- What was sealed under another key is the plaintext of an encryption. -/
theorem seals_of_sealed {e : Entry CipherSig CipherWorld} (member : e ∈ c.hist)
    {dataKey nonce data ciphertext : Bytes} (other : dataKey ≠ master.key)
    (event : e.event = ⟨.aesEncrypt dataKey nonce data, .ok ciphertext⟩) :
    ∃ (i : Nat) (t : Thread CipherSig CipherRequest CipherResponse) (plaintext : Str)
      (nonce' wrapped : Bytes), c.threads[i]? = some t ∧ t.req = .encrypt plaintext ∧
        data = Bytes.encode plaintext ∧
          registers plaintext ++ wraps master dataKey nonce' wrapped ++
          seals dataKey nonce plaintext ciphertext <+: t.trace := by
  obtain ⟨t, plaintext, thread, sub, request, guard⟩ :=
    encryption_kept run member fun past kept => by
    rw [event] at kept
    exact kept
  rw [event] at guard sub
  rcases guard.2 with ⟨is, -⟩ | ⟨rfl, nonce', wrapped, past⟩
  · exact absurd is other
  · refine ⟨e.tid, t, plaintext, nonce', wrapped, thread, request, rfl, ?_⟩
    rw [past, List.append_assoc] at sub
    exact sub

/-- What AES-GCM opens was sealed on the run. -/
theorem sealed_of_opened {i : Nat} {t : Thread CipherSig CipherRequest CipherResponse}
    (thread : c.threads[i]? = some t) {key nonce ciphertext data : Bytes}
    (opened : (⟨.aesDecrypt key nonce ciphertext, .ok data⟩ : Event CipherSig) ∈ t.trace) :
    ∃ e ∈ c.hist, e.event = ⟨.aesEncrypt key nonce data, .ok ciphertext⟩ := by
  obtain ⟨pre, post, whole⟩ := List.append_of_mem opened
  have sub : pre ++ [(⟨.aesDecrypt key nonce ciphertext, .ok data⟩ : Event CipherSig)] <+:
      t.trace :=
    ⟨post, (List.append_assoc _ _ _).trans whole.symm⟩
  obtain ⟨v, member⟩ := run.entry_at thread sub
  obtain ⟨h, ⟨before⟩⟩ := run.before_entry member
  have permits : v.permits ⟨.aesDecrypt key nonce ciphertext, .ok data⟩ = true := before.permits
  simp only [CipherWorld.permits, Bool.and_eq_true, decide_eq_true_eq] at permits
  obtain ⟨s, found, rfl⟩ := Option.map_eq_some_iff.mp permits.2
  have matched := List.find?_some found
  obtain ⟨rfl, rfl, rfl⟩ := of_decide_eq_true matched
  have there : s ∈ before.mid.world.sealings := by
    rw [before.world_eq]
    exact List.mem_of_find?_eq_some found
  obtain ⟨e, member, event⟩ := (cipherKept before.reached).sealed s there
  exact ⟨e, (Machine.Reaches.hist_mono before.toEnd).subset member, event⟩

end Kept

/-- A decryption returns a plaintext only for the very bytes that an encryption of it has
returned; for any other bytes it raises `ValueError`. -/
theorem decrypt_genuine {c : CipherConfig}
    (run : (tokenCipher (localKeyManager master)).Reaches (.start master.world) c) {j : Nat}
    {t : Thread CipherSig CipherRequest CipherResponse} (thread : c.threads[j]? = some t)
    {blob : Bytes} (request : t.req = .decrypt blob) {r : Except PyExn CipherResponse}
    (ended : t.prog = .ofExcept r) :
    (∃ msg, r = .error (.valueError msg)) ∨
      ∃ plaintext, r = .ok (.plaintext plaintext) ∧
        ∃ (i : Nat) (t' : Thread CipherSig CipherRequest CipherResponse), c.threads[i]? = some t' ∧
          t'.req = .encrypt plaintext ∧ t'.prog = .ofExcept (.ok (.blob blob)) := by
  have entry := @wp_decrypt master blob
  rw [← request] at entry
  have post := Machine.Reaches.under_start run thread entry (Role.met_guarding _ _)
  rw [ended, wp_ofExcept] at post
  rcases post with refused | ⟨nonce', wrapped, nonce, ciphertext, dataKey, data, plaintext, rfl,
    unwrapped, opened, decoded, rfl⟩
  · exact .inl refused
  -- one encryption wrapped the data key, and one sealed the plaintext under it
  obtain ⟨e, member, event⟩ := sealed_of_opened run thread unwrapped
  obtain ⟨i, t₁, plaintext₁, thread₁, request₁, sub₁⟩ := wraps_of_sealed run member event
  obtain ⟨v₁, drawn₁⟩ := drew_of_wraps run thread₁ sub₁
  obtain ⟨e', member', event'⟩ := sealed_of_opened run thread opened
  obtain ⟨i₂, t₂, plaintext₂, nonce₂, wrapped₂, thread₂, request₂, rfl, sub₂⟩ :=
    seals_of_sealed run member' (dataKey_ne_master run drawn₁ rfl) event'
  have sub₂' := (List.prefix_append _ _).trans sub₂
  obtain ⟨v₂, drawn₂⟩ := drew_of_wraps run thread₂ sub₂'
  -- they are the same, for its data key was drawn once
  obtain rfl : i = i₂ := congrArg Entry.tid (drew_once run drawn₁ drawn₂ rfl rfl)
  obtain rfl := Option.some.inj (thread₁.symm.trans thread₂)
  obtain rfl : plaintext₁ = plaintext₂ := by
    rw [request₁] at request₂
    cases request₂
    rfl
  have same := List.append_cancel_left
    ((List.prefix_of_prefix_length_le sub₁ sub₂' (by simp [wraps])).eq_of_length (by simp [wraps]))
  obtain ⟨rfl, rfl⟩ : nonce' = nonce₂ ∧ wrapped = wrapped₂ := by
    cases same
    exact ⟨rfl, rfl⟩
  obtain rfl := Option.some.inj ((Bytes.decode_encode _).symm.trans decoded)
  exact .inr ⟨plaintext₁, rfl, i, t₁, thread₁, request₁, encryption_ended run thread₁ request₁ sub₂⟩

namespace Demo

/-- The answers of an environment in which nothing fails. -/
def opening (w : CipherWorld) (_ : Trace CipherSig) : (e : CipherOp) → CipherSig.Ans e
  | .registerSecret _ => .ok ()
  | .urandom size => .ok (if size = dataKeySize then dataKey else nonce)
  | .aesEncrypt _ _ data => .ok (sealing data)
  | .aesDecrypt key nonce ciphertext =>
    match w.opensTo key nonce ciphertext with
    | some data => .ok data
    | none => .error (.other "InvalidTag" "")
  | .kmsGenerate _ | .kmsDecrypt .. => .error (.clientError "")

/-- What `encrypts` returns. -/
def blob : Bytes :=
  cipherBlob (nonce ++ sealing dataKey) nonce (sealing (Bytes.encode plaintext))

/-- The plaintext is encrypted, and its blob and a prefix of it are decrypted. -/
def decryptions : List (Act CipherSig CipherRequest CipherWorld Empty) :=
  .spawn (.encrypt plaintext) :: List.replicate 6 (.answer 0 opening) ++
    .spawn (.decrypt blob) :: List.replicate 3 (.answer 1 opening) ++
      .spawn (.decrypt (blob.take 108)) :: List.replicate 2 (.answer 2 opening)

end Demo

/-- A blob is decrypted that was just made, and refused without its last byte. -/
theorem decrypt_genuine_demo : ∃ c, (tokenCipher (localKeyManager Demo.master)).Reaches
    (.start Demo.master.world) c ∧ ∃ t₁ t₂ : Thread CipherSig CipherRequest CipherResponse,
      c.threads[1]? = some t₁ ∧ t₁.req = .decrypt Demo.blob ∧
      t₁.prog = .ofExcept (.ok (.plaintext Demo.plaintext)) ∧
      c.threads[2]? = some t₂ ∧ t₂.req = .decrypt (Demo.blob.take 108) ∧
      (∃ msg, t₂.prog = .ofExcept (.error (.valueError msg))) ∧
      ∃ (i : Nat) (t' : Thread CipherSig CipherRequest CipherResponse), c.threads[i]? = some t' ∧
        t'.req = .encrypt Demo.plaintext ∧ t'.prog = .ofExcept (.ok (.blob Demo.blob)) := by
  have computed : (Config.play (tokenCipher (localKeyManager Demo.master))
      (.start Demo.master.world) Demo.decryptions).map (fun c => c.threads.map fun t =>
        (t.req, t.prog)) = some
      [(.encrypt Demo.plaintext, .ret (.blob Demo.blob)),
        (.decrypt Demo.blob, .ret (.plaintext Demo.plaintext)),
        (.decrypt (Demo.blob.take 108), .throw (.valueError
          "credential blob failed authentication (corrupt)"))] := by rfl
  obtain ⟨c, played, threads⟩ := Option.map_eq_some_iff.mp computed
  have thread (i : Nat) {req : CipherRequest} {prog : Prog CipherSig CipherResponse}
      (there : (c.threads.map fun t => (t.req, t.prog))[i]? = some (req, prog)) :
      ∃ t, c.threads[i]? = some t ∧ t.req = req ∧ t.prog = prog := by
    rw [List.getElem?_map] at there
    obtain ⟨t, thread, is⟩ := Option.map_eq_some_iff.mp there
    exact ⟨t, thread, congrArg Prod.fst is, congrArg Prod.snd is⟩
  obtain ⟨t₁, thread₁, request₁, ended₁⟩ := thread 1 (congrArg (·[1]?) threads)
  obtain ⟨t₂, thread₂, request₂, ended₂⟩ := thread 2 (congrArg (·[2]?) threads)
  have run := Config.play_reaches played
  refine ⟨c, run, t₁, t₂, thread₁, request₁, ended₁, thread₂, request₂, ⟨_, ended₂⟩, ?_⟩
  rcases decrypt_genuine run thread₁ request₁ (r := .ok (.plaintext Demo.plaintext)) ended₁ with
    ⟨msg, refused⟩ | ⟨plaintext, returned, genuine⟩
  · cases refused
  · cases returned
    exact genuine

end CredBroker
