import CredBroker.Accounts

/-!
# Rotated refresh tokens

Which refresh token an account is left with, where several invocations refresh it
at a time: each reads the row, asks the token endpoint and commits, and nothing
keeps another one from doing so in between.
-/

namespace CredBroker

open Python Interaction

variable {lib : Lib} {svc : Services} {lossy : Bool}

namespace Op

/-- A request to the token endpoint. -/
def isExchange : Op → Bool
  | .tokenEndpoint _ => true
  | _ => false

theorem isExchange_of_isRegister {e : Op} (h : e.isRegister = true) : e.isExchange = false := by
  cases e <;> first | rfl | cases h

end Op

/-- The token endpoint issues a refresh token for an account that the program has loaded. -/
structure Issued (id : Uuid) (token : Json) (g : Entry BrokerSig World) : Prop where
  exchange : ∃ form response, g.event = ⟨.tokenEndpoint form, .ok response⟩ ∧
    200 ≤ response.statusCode ∧ response.statusCode < 300 ∧ response.field "refresh_token" = token
  truthy : token.truthy = true
  loaded : ∃ id' account, ⟨.query (.accountById id'), .ok (some account)⟩ ∈ g.past ∧ account.id = id

/-- A commit writes the refresh token of an account. -/
def Stores (id : Uuid) (blob : Bytes) (f : Entry BrokerSig World) : Prop :=
  (id, .encryptedRefreshToken (some blob)) ∈ updated f.past f.event

/-- The commit `f` writes the token that was issued by `g`, the last exchange before it. -/
structure Rotates (id : Uuid) (token : Json) (blob : Bytes)
    (g f : Entry BrokerSig World) : Prop where
  issued : Issued id token g
  tid : g.tid = f.tid
  exchanged : ∃ mid, f.past = g.past ++ g.event :: mid ∧ ∀ e ∈ mid, e.op.isExchange = false
  encrypted : ⟨.encrypt token, .ok blob⟩ ∈ f.past
  stored : Stores id blob f

/-- Refresh tokens are stored in the order in which they were issued. -/
def InOrder (id : Uuid) (hist : List (Entry BrokerSig World)) : Prop :=
  ∀ g₁ ∈ hist, ∀ f₁ token₁ blob₁, Rotates id token₁ blob₁ g₁ f₁ →
    ∀ g₂ ∈ hist, ∀ f₂ token₂ blob₂, Rotates id token₂ blob₂ g₂ f₂ →
      Precedes hist f₁ f₂ → Precedes hist g₁ g₂

/-- The account has the refresh token that was issued last. -/
def Latest (id : Uuid) (c : Broker) : Prop :=
  ∀ g ∈ c.hist, ∀ token, Issued id token g →
    (∀ g' token', Issued id token' g' → ¬ Precedes c.hist g g') →
    ∃ f ∈ c.hist, ∃ blob, Rotates id token blob g f ∧
      ∀ row ∈ c.world.db.accounts, row.id = id → row.encryptedRefreshToken = some blob

/-- When a refresh is committed, no refresh token was stored since its exchange. -/
def Alone (id : Uuid) (hist : List (Entry BrokerSig World)) : Prop :=
  ∀ g ∈ hist, ∀ f token blob, Rotates id token blob g f →
    ∀ f' blob', Stores id blob' f' → Precedes hist g f' → ¬ Precedes hist f' f

/-- Every refresh token that was issued is stored by the program it was issued to. -/
def Kept (id : Uuid) (hist : List (Entry BrokerSig World)) : Prop :=
  ∀ g ∈ hist, ∀ token, Issued id token g → ∃ f ∈ hist, ∃ blob, Rotates id token blob g f

/-! ## What a commit stores -/

namespace Session

variable {tr : Trace BrokerSig} {s : Session} {id : Uuid} {value : Option Bytes}

theorem mem_changes_refresh {stored assigned : ConnectedAccount}
    (member : (id, .encryptedRefreshToken value) ∈ changes stored assigned) :
    stored.id = id ∧ assigned.encryptedRefreshToken = value ∧
      value ≠ stored.encryptedRefreshToken := by
  obtain ⟨attr, inside, same⟩ := List.mem_map.mp member
  obtain ⟨rfl, rfl⟩ := Prod.mk.injEq .. ▸ same
  simp only [accountChanges, List.mem_append] at inside
  rcases inside with (access | refresh) | expires
  · split at access <;> simp at access
  · split at refresh
    · simp at refresh
    · rename_i other
      obtain rfl : value = assigned.encryptedRefreshToken := by simpa using refresh
      exact ⟨rfl, rfl, other⟩
  · split at expires <;> simp at expires

/-- A refresh token is written where one was assigned. -/
theorem mem_updates_refresh (member : (id, .encryptedRefreshToken value) ∈ s.updates) :
    ∃ stored assigned, s.account = some (stored, assigned) ∧ stored.id = id ∧
      assigned.encryptedRefreshToken = value ∧ value ≠ stored.encryptedRefreshToken := by
  rcases List.mem_append.mp member with account | grant
  · cases held : s.account with
    | none => simp [held] at account
    | some row =>
      obtain ⟨stored, assigned⟩ := row
      rw [held] at account
      exact ⟨stored, assigned, rfl, mem_changes_refresh account⟩
  · cases held : s.grant with
    | none => simp [held] at grant
    | some row =>
      obtain ⟨stored, assigned⟩ := row
      simp only [held, grantChanges, List.mem_map, Prod.mk.injEq] at grant
      obtain ⟨attr, inside, -, rfl⟩ := grant
      split at inside <;> simp at inside

/-- Without an assignment to an account a session has no change of one. -/
theorem unassigned (unset : ∀ e ∈ tr, ∀ attr, e.op ≠ .setAccount attr)
    {stored assigned : ConnectedAccount} (held : (replay tr).account = some (stored, assigned)) :
    assigned = stored := by
  induction tr using List.reverseRecOn generalizing stored assigned with
  | nil => simp [new] at held
  | append_singleton tr e ih =>
    obtain ⟨before, last⟩ := List.forall_mem_append.mp unset
    have last := last e (List.mem_singleton.mpr rfl)
    have ih : ∀ {stored assigned : ConnectedAccount},
        (replay tr).account = some (stored, assigned) → assigned = stored := ih before
    rw [replay_append_singleton] at held
    obtain ⟨e, a⟩ := e
    cases e with
    | setAccount attr => exact (last attr rfl).elim
    | query q =>
      cases q with
      | accountById id =>
        rcases a with x | _ | account
        · exact ih held
        · simp [note] at held
        · simp only [note, Option.map_some, Option.some.injEq, Prod.mk.injEq] at held
          exact held.2.symm.trans held.1
      | _ => exact ih ((note_idle _ rfl).1.symm.trans held)
    | commit =>
      cases a with
      | error x => exact ih held
      | ok _ =>
        cases before : (replay tr).account with
        | none => simp [note, before] at held
        | some row =>
          simp only [note, before, Option.map_some, Option.some.injEq, Prod.mk.injEq] at held
          exact held.2.symm.trans held.1
    | rollback => cases a <;> first | exact ih held | simp [note, new] at held
    | close => simp [note, new] at held
    | add row => exact ih held
    | _ => exact ih ((note_idle _ rfl).1.symm.trans held)

end Session

/-! ## The column -/

/-- The rows of an account have this refresh token, and there is one. -/
structure Database.Column (db : Database) (id : Uuid) (value : Option Bytes) : Prop where
  present : ∃ row ∈ db.accounts, row.id = id
  holds : ∀ row ∈ db.accounts, row.id = id → row.encryptedRefreshToken = value

namespace Database

variable {db db' : Database} {id : Uuid} {value : Option Bytes}

theorem update_present (present : ∃ row ∈ db.accounts, row.id = id) (id' : Uuid) (attr : Attr) :
    ∃ row ∈ (db.update id' attr).accounts, row.id = id := by
  obtain ⟨row, member, rfl⟩ := present
  refine ⟨_, List.mem_map_of_mem member, ?_⟩
  split
  · exact row.set_id attr
  · rfl

/-- The last update of a refresh token decides. -/
theorem fold_column (updates : List (Uuid × Attr)) (present : ∃ row ∈ db.accounts, row.id = id)
    (agree : ∀ value', (id, .encryptedRefreshToken value') ∈ updates → value' = value)
    (holds : (id, .encryptedRefreshToken value) ∈ updates ∨
      ∀ row ∈ db.accounts, row.id = id → row.encryptedRefreshToken = value) :
    (updates.foldl (fun db u => db.update u.1 u.2) db).Column id value := by
  induction updates generalizing db with
  | nil => exact ⟨present, holds.resolve_left (List.not_mem_nil)⟩
  | cons u updates ih =>
    obtain ⟨id', attr⟩ := u
    refine ih (update_present present id' attr)
      (fun value' member => agree value' (List.mem_cons_of_mem _ member)) ?_
    by_cases later : (id, Attr.encryptedRefreshToken value) ∈ updates
    · exact .inl later
    · refine .inr fun row' inside own => ?_
      obtain ⟨row, member, rfl⟩ := List.mem_map.mp inside
      have holds : (id, Attr.encryptedRefreshToken value) = (id', attr) ∨
          ∀ row ∈ db.accounts, row.id = id → row.encryptedRefreshToken = value := by
        rcases holds with first | holds
        · rcases List.mem_cons.mp first with same | after
          · exact .inl same
          · exact (later after).elim
        · exact .inr holds
      split at own
      · rename_i matches_
        rw [ConnectedAccount.set_id] at own
        rw [if_pos matches_]
        obtain rfl : id' = id := matches_.symm.trans own
        cases attr with
        | encryptedRefreshToken value' => exact agree value' (List.mem_cons_self ..)
        | _ =>
          rcases holds with same | holds
          · cases same
          · exact holds row member own
      · rename_i differs
        rw [if_neg differs]
        rcases holds with same | holds
        · cases same
          exact (differs own).elim
        · exact holds row member own

/-- Inserted rows are other accounts. -/
theorem insertAll_column {rows : List Row} (column : db.Column id value)
    (inserted : db.insertAll? rows = some db') : db'.Column id value := by
  induction rows generalizing db with
  | nil =>
    obtain rfl := Option.some.inj inserted
    exact column
  | cons row rows ih =>
    rw [insertAll?] at inserted
    split at inserted
    · rename_i accepted
      refine ih ?_ inserted
      cases row with
      | account row =>
        obtain ⟨present, member, same⟩ := column.present
        refine ⟨⟨present, List.mem_append_left _ member, same⟩, fun other inside own => ?_⟩
        rcases List.mem_append.mp inside with old | new
        · exact column.holds other old own
        · obtain rfl := List.mem_singleton.mp new
          have fresh := List.all_eq_true.mp accepted present member
          simp [same, own] at fresh
      | _ => exact ⟨column.present, column.holds⟩
    · cases inserted

end Database

section Run

variable {w : World} {c : Broker} (run : (broker lib svc lossy).Reaches (.start w) c)

include run

/-- A refresh token is written by the refresh of an invocation only. -/
theorem stores_renewed {f : Entry BrokerSig World} (member : f ∈ c.hist) {id : Uuid}
    {value : Option Bytes} (stored : (id, .encryptedRefreshToken value) ∈ updated f.past f.event) :
    ∃ account account' response, Renewed lib svc account account' response f.past ∧
      account.id = id ∧ account'.encryptedRefreshToken = value ∧
      value ≠ account.encryptedRefreshToken ∧
      updated f.past f.event = changes account account' := by
  obtain ⟨t, thread, sub, -⟩ := entry_kept run member
  obtain ⟨i, v, past, e, a⟩ := f
  cases e with
  | commit =>
    have flushed : (id, Attr.encryptedRefreshToken value) ∈ (Session.replay past).updates := by
      by_contra other
      simp only [updated] at stored
      split at stored
      · exact other stored
      · cases stored
    obtain ⟨old, new, held, rfl, rfl, other⟩ := Session.mem_updates_refresh flushed
    cases request : t.req with
    | invoke req =>
      rcases updated_cases run thread request sub with
        ⟨account, account', response, renewed, written⟩ | ⟨-, nothing | ⟨blob, head, torn⟩⟩
      · obtain ⟨base, events, rfl, ready, renewal⟩ := id renewed
        rw [renewal.session ready] at held
        obtain ⟨rfl, rfl⟩ : account = old ∧ account' = new := by simpa using held
        refine ⟨account, account', response, renewed, rfl, rfl, other, ?_⟩
        rw [written] at stored ⊢
        split at stored
        · rw [if_pos (by assumption)]
        · cases stored
      · rw [nothing] at stored
        cases stored
      · obtain ⟨account, id', loaded, session⟩ := torn_session run thread request torn
          ((List.prefix_append _ _).trans sub)
        rw [session] at held
        obtain ⟨rfl, rfl⟩ : account = old ∧
            { account with encryptedAccessToken := blob } = new := by
          simpa using held
        exact (other rfl).elim
    | _ =>
      refine (other ?_).elim
      rw [Session.unassigned (fun e member attr assigns => ?_) held]
      obtain ⟨pre, v', sub', -⟩ := entry_of_event run thread
        (((List.prefix_append _ _).trans sub).subset member)
      have guard := kept run thread sub'
      rw [request, assigns] at guard
      first | exact guard | exact guard.1
  | _ => cases stored

/-- And what is written was issued to that invocation, and encrypted. -/
theorem stores_rotates {f : Entry BrokerSig World} (member : f ∈ c.hist) {id : Uuid}
    {value : Option Bytes} (stored : (id, .encryptedRefreshToken value) ∈ updated f.past f.event) :
    ∃ g ∈ c.hist, ∃ token blob, value = some blob ∧ Rotates id token blob g f := by
  obtain ⟨account, account', response, ⟨base, events, split, ready, renewal⟩, rfl, same,
    other, -⟩ := stores_renewed run member stored
  obtain ⟨cipher, refreshToken, registers, accessToken, rotation, reading, -, -, registering,
    rotated, expiring, rfl⟩ := renewal.performed
  cases rotated with
  | kept absent kept => exact (other (same.symm.trans kept)).elim
  | rotated blob present assigned =>
    obtain ⟨id, loaded⟩ := ready.loaded
    have cut : f.past = base ++ [⟨.decrypt cipher, .ok refreshToken⟩] ++
        ⟨.tokenEndpoint (refreshForm svc.settings refreshToken), .ok response⟩ :: (registers ++
          [⟨.encrypt (.str accessToken), .ok account'.encryptedAccessToken⟩,
            ⟨.setAccount (.encryptedAccessToken account'.encryptedAccessToken), .ok ()⟩] ++
          [⟨.encrypt (response.field "refresh_token"), .ok blob⟩,
            ⟨.setAccount (.encryptedRefreshToken (some blob)), .ok ()⟩] ++ reading ++
          [⟨.setAccount (.expiresAt account'.expiresAt), .ok ()⟩]) := by
      rw [split]
      simp only [List.append_assoc, List.cons_append, List.nil_append]
    have sub : base ++ [⟨.decrypt cipher, .ok refreshToken⟩] ++
        [⟨.tokenEndpoint (refreshForm svc.settings refreshToken), .ok response⟩] <+: f.past :=
      ⟨_, by rw [cut, List.append_assoc]; rfl⟩
    obtain ⟨h, rest, hist⟩ := List.append_of_mem member
    obtain ⟨v, earlier⟩ := run.precedes hist sub
    have issued : (⟨f.tid, v, base ++ [⟨.decrypt cipher, .ok refreshToken⟩],
        ⟨.tokenEndpoint (refreshForm svc.settings refreshToken), .ok response⟩⟩ :
          Entry BrokerSig World) ∈ c.hist := by
      rw [hist]
      exact List.mem_append_left _ earlier
    refine ⟨_, issued, response.field "refresh_token", blob, same.symm.trans assigned,
        ⟨⟨_, response, rfl, renewal.granted.1, renewal.granted.2, rfl⟩, present, id, account,
          List.mem_append_left _ loaded, rfl⟩, rfl, ⟨_, cut, ?_⟩, ?_, ?_⟩
    · simp only [List.forall_mem_append]
      refine ⟨⟨⟨⟨fun e member => Op.isExchange_of_isRegister (registering e member), ?_⟩, ?_⟩, ?_⟩,
        ?_⟩
      · simp [Op.isExchange]
      · simp [Op.isExchange]
      · cases expiring <;> simp [Op.isExchange]
      · simp [Op.isExchange]
    · rw [cut]
      simp
    · rw [Stores, ← assigned, same]
      exact stored

/-- A commit comes after the exchange of its token. -/
theorem Rotates.precedes {id : Uuid} {token : Json} {blob : Bytes} {g f : Entry BrokerSig World}
    (rotates : Rotates id token blob g f) (issued : g ∈ c.hist) (stored : f ∈ c.hist) :
    Precedes c.hist g f := by
  obtain ⟨mid, split, -⟩ := rotates.exchanged
  exact run.precedes_of_past issued stored rotates.tid ⟨mid, by rw [split, List.append_assoc]; rfl⟩

/-- Commits that find no newer token stored keep the order of the exchanges. -/
theorem Alone.inOrder {id : Uuid} (alone : Alone id c.hist) : InOrder id c.hist := by
  intro g₁ issued₁ f₁ token₁ blob₁ rotates₁ g₂ issued₂ f₂ token₂ blob₂ rotates₂ before
  have first := rotates₁.precedes run issued₁ before.mem_left
  rcases Precedes.total issued₂ before.mem_left with rfl | earlier | later
  · obtain ⟨form, response, exchange, -⟩ := rotates₂.issued.exchange
    have stored := rotates₁.stored
    rw [Stores, exchange] at stored
    cases stored
  · exact (alone g₂ issued₂ f₂ token₂ blob₂ rotates₂ f₁ blob₁ rotates₁.stored earlier before).elim
  · exact first.trans run.hist_nodup later

omit run in
/-- The column after an event: what it wrote, or what it was. -/
theorem World.after_column {v : World} {past : Trace BrokerSig} {e : Event BrokerSig} {id : Uuid}
    {value : Option Bytes} (permits : v.permits past e = true)
    (present : ∃ row ∈ v.db.accounts, row.id = id)
    (agree : ∀ value', (id, .encryptedRefreshToken value') ∈ updated past e → value' = value)
    (holds : (id, .encryptedRefreshToken value) ∈ updated past e ∨ v.db.Column id value) :
    (v.after past e).db.Column id value := by
  by_cases commit : e.op = .commit
  · obtain ⟨e, a⟩ := e
    obtain rfl : e = .commit := commit
    cases applied : Applied a with
    | false =>
      have unchanged : (v.after past ⟨.commit, a⟩).db = v.db := by simp [World.after, applied]
      simp only [updated, applied, Bool.false_eq_true, if_false] at holds
      rw [unchanged]
      exact holds.resolve_left List.not_mem_nil
    | true =>
      simp only [updated, applied, if_true] at agree holds
      simp only [World.permits, applied, Bool.not_true, Bool.false_or, Bool.and_eq_true] at permits
      obtain ⟨db', written⟩ := Option.isSome_iff_exists.mp permits.2
      have changed : (v.after past ⟨.commit, a⟩).db = db' := by
        simp [World.after, applied, written]
      rw [changed]
      exact Database.insertAll_column
        (Database.fold_column _ present agree (holds.imp_right (·.holds))) written
  · rw [(v.after_framed past e).db commit]
    refine holds.resolve_left fun member => ?_
    obtain ⟨e, a⟩ := e
    cases e <;> first | exact commit rfl | cases member

omit run in
/-- The column stays, as long as no event writes it. -/
theorem run_column {c c' : Broker} (rest : (broker lib svc lossy).Reaches c c') {id : Uuid}
    {value : Option Bytes} (column : c.world.db.Column id value)
    {added : List (Entry BrokerSig World)}
    (grown : c'.hist = c.hist ++ added)
    (unwritten : ∀ e ∈ added, ∀ value',
      (id, .encryptedRefreshToken value') ∉ updated e.past e.event) :
    c'.world.db.Column id value := by
  induction rest generalizing added with
  | refl => exact column
  | @tail b c' reach step ih =>
    cases step with
    | spawn r => exact ih grown unwritten
    | nudge n moved =>
      have same := World.nudge_db moved
      rw [same]
      exact ih grown unwritten
    | @answer i t e k a thread pending permits =>
      obtain ⟨before, split⟩ := Machine.Reaches.hist_mono reach
      have added_eq : added = before ++ [⟨i, b.world, t.trace, ⟨e, a⟩⟩] := by
        have same : c.hist ++ added = c.hist ++ (before ++ [⟨i, b.world, t.trace, ⟨e, a⟩⟩]) := by
          rw [← grown, ← List.append_assoc, split]
          rfl
        exact List.append_cancel_left same
      subst added_eq
      obtain ⟨early, last⟩ := List.forall_mem_append.mp unwritten
      have column := ih split.symm early
      refine World.after_column permits column.present (fun value' member => ?_) (.inr column)
      exact (last _ (List.mem_singleton.mpr rfl) value' member).elim

/-- What the last store wrote is what the account is left with. -/
theorem latest_stored {id : Uuid} {blob : Bytes} {f : Entry BrokerSig World} (member : f ∈ c.hist)
    (stored : Stores id blob f)
    (last : ∀ f' value, (id, .encryptedRefreshToken value) ∈ updated f'.past f'.event →
      ¬ Precedes c.hist f f') :
    c.world.db.Column id (some blob) := by
  obtain ⟨account, account', response, renewed, same, value_eq, -, written⟩ :=
    stores_renewed run member stored
  obtain ⟨base, events, split, ready, -⟩ := renewed
  obtain ⟨id', loaded⟩ := ready.loaded
  obtain ⟨h, rest, cut⟩ := List.append_of_mem member
  obtain ⟨before⟩ := run.before (by simpa [Config.start] using cut)
  have present : ∃ row ∈ f.pre.db.accounts, row.id = id := by
    have there : ⟨.query (.accountById id'), .ok (some account)⟩ ∈ before.thread.trace := by
      rw [before.trace_eq, split]
      exact List.mem_append_left _ loaded
    obtain ⟨v, answered, grows⟩ := read_truthful before.reached before.running there
    have found : some account = v.db.accounts.find? (·.id = id') := of_decide_eq_true answered
    obtain ⟨row, inside, owned⟩ := grows.accounts account (List.mem_of_find?_eq_some found.symm)
    rw [before.world_eq] at inside
    simp only [ConnectedAccount.owned, Prod.mk.injEq] at owned
    exact ⟨row, inside, owned.1.trans same⟩
  have after : (f.pre.after f.past f.event).db.Column id (some blob) := by
    refine World.after_column (entry_permitted run member) present (fun value' again => ?_)
      (.inl stored)
    rw [written] at again
    exact (Session.mem_changes_refresh again).2.1.symm.trans value_eq
  have unwritten : ∀ e ∈ rest, ∀ value',
      (id, Attr.encryptedRefreshToken value') ∉ updated e.past e.event := by
    intro e later value' wrote
    obtain ⟨k, k', rfl⟩ := List.append_of_mem later
    exact last e value' wrote ⟨h ++ f :: k, k', by simp [cut], by simp⟩
  have grown : c.hist = (before.mid.answer (broker lib svc lossy) f.tid before.thread f.event
      (before.next f.event.ans)).hist ++ rest := by
    have hist : before.mid.hist = h := by simpa [Config.start] using before.hist_eq
    simp only [Config.answer, hist, before.world_eq, before.trace_eq, cut, List.append_assoc,
      List.cons_append, List.nil_append]
  refine run_column before.rest ?_ grown unwritten
  have world : (before.mid.answer (broker lib svc lossy) f.tid before.thread f.event
      (before.next f.event.ans)).world = f.pre.after f.past f.event := by
    rw [← before.world_eq, ← before.trace_eq]
    rfl
  rw [world]
  exact after

/-- No store follows that of the token issued last, and the account keeps it. -/
theorem Alone.latest {id : Uuid} (alone : Alone id c.hist) (kept : Kept id c.hist) :
    Latest id c := by
  intro g issued token issue last
  obtain ⟨f, member, blob, rotates⟩ := kept g issued token issue
  refine ⟨f, member, blob, rotates, (latest_stored run member rotates.stored ?_).holds⟩
  intro f' value wrote later
  obtain ⟨g', issued', token', blob', rfl, rotates'⟩ := stores_rotates run later.mem_right wrote
  exact last g' token' rotates'.issued
    (alone.inOrder run g issued f token blob rotates g' issued' f' token' blob' rotates' later)

end Run

/-! ## No lost rotation -/

/-- Where no refresh token is stored between the exchange of a refresh and its commit,
tokens are stored in the order of their issue, however the invocations interleave;
and once every issued token is stored, the account has the last one. -/
theorem rotations_kept {w : World} {c : Broker} (run : (broker lib svc lossy).Reaches (.start w) c)
    {id : Uuid} (alone : Alone id c.hist) : InOrder id c.hist ∧ (Kept id c.hist → Latest id c) :=
  ⟨alone.inOrder run, alone.latest run⟩

namespace Demo

/-- The entry writes a refresh token of the account of the demo. -/
def storing (e : Entry BrokerSig World) : Bool :=
  (updated e.past e.event).any fun u => u.1 == staleAccount.id &&
    match u.2 with
    | .encryptedRefreshToken (some _) => true
    | _ => false

theorem storing_of_stores {f : Entry BrokerSig World} {blob : Bytes}
    (stored : Stores staleAccount.id blob f) : storing f = true :=
  List.any_eq_true.mpr ⟨_, stored, by simp⟩

theorem exchange_of_issued {id : Uuid} {token : Json} {g : Entry BrokerSig World}
    (issued : Issued id token g) : g.event.op.isExchange = true := by
  obtain ⟨form, response, exchange, -⟩ := issued.exchange
  rw [exchange]
  rfl

theorem issued_unique {id : Uuid} {token token' : Json} {g : Entry BrokerSig World}
    (issued : Issued id token g) (issued' : Issued id token' g) : token = token' := by
  obtain ⟨form, response, exchange, -, -, rfl⟩ := issued.exchange
  obtain ⟨form', response', exchange', -, -, rfl⟩ := issued'.exchange
  rw [exchange] at exchange'
  cases exchange'
  rfl

section Labels

variable {β : Type} {hist : List (Entry BrokerSig World)} {p : Entry BrokerSig World → Bool}
  {label : Entry BrokerSig World → β} {labels : List β}
  (labelled : (hist.filter p).map label = labels) {e e' : Entry BrokerSig World}
  (holds : p e = true) (holds' : p e' = true)

include labelled holds holds'

/-- Entries of a kind are labelled in their order. -/
theorem labels_of_precedes (before : Precedes hist e e') : [label e, label e'].Sublist labels := by
  obtain ⟨h, rest, rfl, earlier⟩ := before
  have pair : [e, e'].Sublist (h ++ e' :: rest) :=
    (List.singleton_sublist.mpr earlier).append (List.singleton_sublist.mpr List.mem_cons_self)
  have kind := (pair.filter p).map label
  rw [List.filter_cons_of_pos holds, List.filter_cons_of_pos holds', labelled] at kind
  exact kind

theorem precedes_of_labels (member : e ∈ hist) (member' : e' ∈ hist) (other : label e ≠ label e')
    (ordered : ¬ [label e', label e].Sublist labels) : Precedes hist e e' := by
  rcases Precedes.total member member' with rfl | before | after
  · exact (other rfl).elim
  · exact before
  · exact (ordered (labels_of_precedes labelled holds' holds after)).elim

/-- Where labels are distinct they name their entries. -/
theorem eq_of_label (distinct : labels.Nodup) (member : e ∈ hist) (member' : e' ∈ hist)
    (same : label e = label e') : e = e' :=
  List.inj_on_of_nodup_map (labelled ▸ distinct) (List.mem_filter.mpr ⟨member, holds⟩)
    (List.mem_filter.mpr ⟨member', holds'⟩) same

end Labels

/-- The exchanges with the token endpoint and the stores of refresh tokens. -/
def isTurn (e : Entry BrokerSig World) : Bool := e.event.op.isExchange || storing e

def turn (e : Entry BrokerSig World) : Nat × Bool := (e.tid, e.event.op.isExchange)

theorem isTurn_of_issued {id : Uuid} {token : Json} {g : Entry BrokerSig World}
    (issued : Issued id token g) : isTurn g = true ∧ turn g = (g.tid, true) := by
  rw [isTurn, turn, exchange_of_issued issued]
  exact ⟨rfl, rfl⟩

theorem isTurn_of_stores {f : Entry BrokerSig World} {blob : Bytes}
    (stored : Stores staleAccount.id blob f) : isTurn f = true ∧ turn f = (f.tid, false) := by
  have plain : f.event.op.isExchange = false := by
    unfold Stores updated at stored
    split at stored
    · rename_i commit
      rw [commit]
      rfl
    · cases stored
  rw [isTurn, turn, plain, storing_of_stores stored]
  exact ⟨rfl, rfl⟩

end Demo

/-- Two refreshes, one after the other: the account has the token that was issued last. -/
theorem rotations_kept_demo : ∃ (c : Broker) (g₁ g₂ : Entry BrokerSig World) (token₁ token₂ : Json),
    (broker Demo.lib Demo.services false).Reaches (.start Demo.connected) c ∧
      Issued Demo.staleAccount.id token₁ g₁ ∧ Issued Demo.staleAccount.id token₂ g₂ ∧
      Precedes c.hist g₁ g₂ ∧
      Alone Demo.staleAccount.id c.hist ∧ Kept Demo.staleAccount.id c.hist ∧
      InOrder Demo.staleAccount.id c.hist ∧ Latest Demo.staleAccount.id c ∧
      c.world.db.accounts.map (·.encryptedRefreshToken) = [some [2]] := by
  -- the second invocation finds its access token rejected
  have computed : (Config.play (broker Demo.lib Demo.services false) (.start Demo.connected)
      (Demo.invocation [] none :: Demo.refresh 0 31 "older-token" [1] ++
        Demo.invocation [] none :: Demo.refresh 1 14 "newer-token" [2] ++
        Demo.raise 1 (.providerCallError "" (some 401)) ++
        Demo.refresh 1 21 "newer-token" [2])).any (fun c =>
          (c.hist.filter Demo.isTurn).map Demo.turn == [(0, true), (0, false), (1, true),
            (1, false)] &&
          (c.hist.any fun e => e.tid == 0 && (updated e.past e.event).any fun u =>
            u = (Demo.staleAccount.id, .encryptedRefreshToken (some [1]))) &&
          (c.hist.any fun e => e.tid == 1 && (updated e.past e.event).any fun u =>
            u = (Demo.staleAccount.id, .encryptedRefreshToken (some [2]))) &&
          c.world.db.accounts.map (·.encryptedRefreshToken) == [some [2]]) = true := by
    decide +kernel
  obtain ⟨c, run, computed⟩ := Demo.reached_connected computed
  simp only [Bool.and_eq_true, beq_iff_eq, List.any_eq_true, decide_eq_true_eq] at computed
  obtain ⟨⟨⟨turns, f₁, member₁, tid₁, u₁, stored₁, rfl⟩, f₂, member₂, tid₂, u₂, stored₂, rfl⟩,
    left⟩ := computed
  obtain ⟨g₁, issued₁, token₁, blob₁, same₁, rotates₁⟩ := stores_rotates run member₁ stored₁
  obtain ⟨g₂, issued₂, token₂, blob₂, same₂, rotates₂⟩ := stores_rotates run member₂ stored₂
  have issue₁ := Demo.isTurn_of_issued rotates₁.issued
  have issue₂ := Demo.isTurn_of_issued rotates₂.issued
  rw [rotates₁.tid, tid₁] at issue₁
  rw [rotates₂.tid, tid₂] at issue₂
  have programs : ∀ e ∈ c.hist, Demo.isTurn e = true → e.tid = 0 ∨ e.tid = 1 := by
    intro e member turn
    have inside : Demo.turn e ∈ [(0, true), (0, false), (1, true), (1, false)] :=
      turns ▸ List.mem_map_of_mem (List.mem_filter.mpr ⟨member, turn⟩)
    simp only [Demo.turn, List.mem_cons, Prod.mk.injEq, List.not_mem_nil, or_false] at inside
    omega
  have alone : Alone Demo.staleAccount.id c.hist := by
    intro g member f token blob rotates f' blob' stored' after before
    have issue := Demo.isTurn_of_issued rotates.issued
    have store := Demo.isTurn_of_stores rotates.stored
    have store' := Demo.isTurn_of_stores stored'
    have first := Demo.labels_of_precedes turns issue.1 store'.1 after
    have second := Demo.labels_of_precedes turns store'.1 store.1 before
    rw [issue.2, store'.2, rotates.tid] at first
    rw [store'.2, store.2] at second
    -- only the first store has another one after it, and it is before that one's exchange
    rcases programs f before.mem_right store.1 with is | is <;>
      rcases programs f' before.mem_left store'.1 with is' | is' <;> rw [is, is'] at first second
    · exact absurd second (by decide)
    · exact absurd second (by decide)
    · exact absurd first (by decide)
    · exact absurd second (by decide)
  have kept : Kept Demo.staleAccount.id c.hist := by
    intro g member token issued
    have issue := Demo.isTurn_of_issued issued
    rcases programs g member issue.1 with is | is <;> rw [is] at issue
    · obtain rfl := Demo.eq_of_label turns issue.1 issue₁.1 (by decide) member issued₁
        (issue.2.trans issue₁.2.symm)
      obtain rfl := Demo.issued_unique issued rotates₁.issued
      exact ⟨f₁, member₁, blob₁, rotates₁⟩
    · obtain rfl := Demo.eq_of_label turns issue.1 issue₂.1 (by decide) member issued₂
        (issue.2.trans issue₂.2.symm)
      obtain rfl := Demo.issued_unique issued rotates₂.issued
      exact ⟨f₂, member₂, blob₂, rotates₂⟩
  obtain ⟨ordered, latest⟩ := rotations_kept run alone
  refine ⟨c, g₁, g₂, token₁, token₂, run, rotates₁.issued, rotates₂.issued, ?_, alone, kept,
    ordered, latest kept, left⟩
  exact Demo.precedes_of_labels turns issue₁.1 issue₂.1 issued₁ issued₂
    (by rw [issue₁.2, issue₂.2]; decide) (by rw [issue₁.2, issue₂.2]; decide)

/-- Two invocations refresh at a time: the first to ask is the last to commit, and
the account is left with the token that was issued first. -/
theorem rotation_lost_demo :
    ∃ (c : Broker) (g₁ f₁ g₂ f₂ : Entry BrokerSig World) (token₁ token₂ : Json),
    (broker Demo.lib Demo.services false).Reaches (.start Demo.connected) c ∧
      (∀ t ∈ c.threads, ∃ r, t.prog = .ofExcept r) ∧
      Rotates Demo.staleAccount.id token₁ [1] g₁ f₁ ∧
      Rotates Demo.staleAccount.id token₂ [2] g₂ f₂ ∧ Precedes c.hist g₁ g₂ ∧
      Precedes c.hist f₂ f₁ ∧ ¬ InOrder Demo.staleAccount.id c.hist ∧
      c.world.db.accounts.map (·.encryptedRefreshToken) = [some [1]] := by
  have computed : (Config.play (broker Demo.lib Demo.services false) (.start Demo.connected)
      (Demo.invocation [] none :: Demo.refresh 0 12 "older-token" [1] ++
        Demo.invocation [] none :: Demo.refresh 1 30 "newer-token" [2] ++
        Demo.refresh 0 19 "older-token" [1])).any (fun c =>
          c.threads.all Demo.ended &&
          (c.hist.filter fun e => e.event.op.isExchange).map (·.tid) == [0, 1] &&
          (c.hist.filter Demo.storing).map (·.tid) == [1, 0] &&
          (c.hist.any fun e => e.tid == 0 && (updated e.past e.event).any fun u =>
            u = (Demo.staleAccount.id, .encryptedRefreshToken (some [1]))) &&
          (c.hist.any fun e => e.tid == 1 && (updated e.past e.event).any fun u =>
            u = (Demo.staleAccount.id, .encryptedRefreshToken (some [2]))) &&
          c.world.db.accounts.map (·.encryptedRefreshToken) == [some [1]]) = true := by
    decide +kernel
  obtain ⟨c, run, computed⟩ := Demo.reached_connected computed
  simp only [Bool.and_eq_true, beq_iff_eq, List.any_eq_true, List.all_eq_true, decide_eq_true_eq]
    at computed
  obtain ⟨⟨⟨⟨⟨ended, exchanges⟩, stores⟩, f₁, member₁, tid₁, u₁, stored₁, rfl⟩, f₂, member₂,
    tid₂, u₂, stored₂, rfl⟩, left⟩ := computed
  obtain ⟨g₁, issued₁, token₁, blob₁, same₁, rotates₁⟩ := stores_rotates run member₁ stored₁
  obtain ⟨g₂, issued₂, token₂, blob₂, same₂, rotates₂⟩ := stores_rotates run member₂ stored₂
  obtain rfl := Option.some.inj same₁
  obtain rfl := Option.some.inj same₂
  have tids : g₁.tid = 0 ∧ g₂.tid = 1 := ⟨rotates₁.tid.trans tid₁, rotates₂.tid.trans tid₂⟩
  have issue : Precedes c.hist g₁ g₂ := Demo.precedes_of_labels exchanges
    (Demo.exchange_of_issued rotates₁.issued) (Demo.exchange_of_issued rotates₂.issued)
    issued₁ issued₂
    (by rw [tids.1, tids.2]; decide) (by rw [tids.1, tids.2]; decide)
  have store : Precedes c.hist f₂ f₁ := Demo.precedes_of_labels stores
    (Demo.storing_of_stores rotates₂.stored) (Demo.storing_of_stores rotates₁.stored)
    member₂ member₁
    (by rw [tid₁, tid₂]; decide) (by rw [tid₁, tid₂]; decide)
  refine ⟨c, g₁, f₁, g₂, f₂, token₁, token₂, run, fun t member => Demo.finished (ended t member),
    rotates₁, rotates₂, issue, store, fun ordered => ?_, left⟩
  exact Precedes.irrefl run.hist_nodup (issue.trans run.hist_nodup
    (ordered g₂ issued₂ f₂ token₂ [2] rotates₂ g₁ issued₁ f₁ token₁ [1] rotates₁ store))

end CredBroker
