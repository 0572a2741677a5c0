import CredBroker.Accounts
import CredBroker.Ledger

/-!
# The tables as a ledger

What PostgreSQL does with a row or an update is a change of the ledger, and a commit is a
series of such changes, all of which the ledger accepts.
-/

namespace CredBroker

open Python Interaction

/-! ## The tables as a ledger -/

/-- The change that an inserted row is. -/
def Row.change : Row → Change
  | .agent row => .enrol row
  | .account row => .connect row
  | .grant row => .issue row
  | .audit row => .record row

/-- The change that an `UPDATE` is. -/
def updateChange : Uuid × Attr → Change
  | (id, .revokedAt (some time)) => .revoke id time
  | (id, attr) => .renew id attr

def Session.ledgerChanges (s : Session) : List Change :=
  s.updates.map updateChange ++ s.added.map Row.change

namespace Database

def ledger (db : Database) : Ledger where
  agents id := db.agents.find? (·.id = id)
  accounts id := db.accounts.find? (·.id = id)
  grants id := db.grants.find? (·.id = id)
  log := db.audit

variable {db db' : Database}

theorem find_append {α : Type} {rows : List α} {key : α → Uuid} {row : α}
    (free : ∀ other ∈ rows, key other ≠ key row) :
    (fun id => (rows ++ [row]).find? fun r => key r = id) =
      Function.update (fun id => rows.find? fun r => key r = id) (key row) (some row) := by
  funext id
  by_cases same : id = key row
  · subst same
    have none : (rows.find? fun r => key r = key row) = none :=
      List.find?_eq_none.mpr fun other member => by simpa using free other member
    simp [none]
  · have other : key row ≠ id := Ne.symm same
    simp [Function.update_of_ne same, other]

theorem find_map {α : Type} (rows : List α) (key : α → Uuid) (f : α → α)
    (keeps : ∀ r, key (f r) = key r) (id : Uuid) :
        (fun other => (rows.map fun r => if key r = id then f r else r).find? fun r =>
          key r = other) =
      Function.update (fun other => rows.find? fun r => key r = other) id
        ((rows.find? fun r => key r = id).map f) := by
  funext other
  have keys : ∀ r, key (if key r = id then f r else r) = key r := by
    intro r
    split
    · exact keeps r
    · rfl
  rw [List.find?_map]
  have same : ((fun r => decide (key r = other)) ∘ fun r => if key r = id then f r else r) =
      fun r => decide (key r = other) := by
    funext r
    simp [keys]
  rw [same]
  by_cases at_ : other = id
  · subst at_
    rw [Function.update_self]
    cases found : rows.find? fun r => key r = other with
    | none => rfl
    | some r =>
      have named : key r = other := by simpa using List.find?_some found
      simp [named]
  · rw [Function.update_of_ne at_]
    cases found : rows.find? fun r => key r = other with
    | none => rfl
    | some r =>
      have named : key r = other := by simpa using List.find?_some found
      simp [named, at_]

/-- An accepted row is entered under its identifier. -/
theorem ledger_insert {row : Row} (accepted : db.accepts row = true) :
    (db.insert row).ledger = db.ledger.apply row.change := by
  cases row with
  | agent row =>
    have free : ∀ other ∈ db.agents, other.id ≠ row.id := by simpa [accepts] using accepted
    simp only [ledger, insert, Row.change, Ledger.apply, find_append free]
  | account row =>
    have free : ∀ other ∈ db.accounts, other.id ≠ row.id := by simpa [accepts] using accepted
    simp only [ledger, insert, Row.change, Ledger.apply, find_append free]
  | grant row =>
    have free : ∀ other ∈ db.grants, other.id ≠ row.id := by
      simp only [accepts, Bool.and_eq_true, List.all_eq_true, bne_iff_ne] at accepted
      exact fun other member => (accepted.1.1 other member).1
    simp only [ledger, insert, Row.change, Ledger.apply, find_append free]
  | audit row => rfl

/-- An update changes the row with its identifier, in the table that has the column. -/
theorem ledger_update (db : Database) {u : Uuid × Attr} (mild : u.2.Mild) :
    (db.update u.1 u.2).ledger = db.ledger.apply (updateChange u) := by
  obtain ⟨id, attr⟩ := u
  have accounts := find_map db.accounts (·.id) (·.set attr) (fun a => a.set_id attr) id
  have grants := find_map db.grants (·.id) (·.set attr) (fun g => g.set_id attr) id
  cases attr with
  | revokedAt value =>
    cases value with
    | none => exact (mild rfl).elim
    | some time =>
      have kept : (db.accounts.map fun a =>
          if a.id = id then a.set (.revokedAt (some time)) else a) =
            db.accounts := by simp [ConnectedAccount.set]
      simp only [ledger, update, updateChange, Ledger.apply, kept, grants]
  | encryptedAccessToken value | encryptedRefreshToken value | expiresAt value =>
    simp only [ledger, update, updateChange, Ledger.apply, accounts, Grant.set, ite_self,
      List.map_id']

/-- A table without duplicates has each of its rows under its identifier. -/
theorem find_of_mem {α : Type} {rows : List α} {key : α → Uuid}
    (unique : (rows.map key).Nodup) {row : α}
    (member : row ∈ rows) : (rows.find? fun r => key r = key row) = some row := by
  obtain ⟨found, there⟩ := Option.isSome_iff_exists.mp (List.find?_isSome.mpr
    ⟨row, member, decide_eq_true rfl⟩ : (rows.find? fun r => key r = key row).isSome = true)
  have same : key found = key row := by simpa using List.find?_some there
  rw [there, eq_of_key unique (List.mem_of_find?_eq_some there) member same]

/-- A row that the constraints let in is one that the ledger admits. -/
theorem ledger_accepts {row : Row} (accepted : db.accepts row = true)
    (issued : ∀ grant, row = .grant grant → grant.revokedAt = none ∧ db.ledger.Backed grant) :
    db.ledger.Accepts row.change := by
  cases row with
  | agent row => exact List.find?_eq_none.mpr (by simpa [accepts] using accepted)
  | account row => exact List.find?_eq_none.mpr (by simpa [accepts] using accepted)
  | grant row =>
    obtain ⟨unrevoked, backed⟩ := issued row rfl
    simp only [accepts, Bool.and_eq_true, List.all_eq_true, bne_iff_ne] at accepted
    refine ⟨List.find?_eq_none.mpr fun g member => by simpa using (accepted.1.1 g member).1,
      fun id g there => ?_, backed, unrevoked⟩
    exact (accepted.1.1 g (List.mem_of_find?_eq_some there)).2
  | audit row =>
    simp only [accepts, List.any_eq_true, beq_iff_eq] at accepted
    obtain ⟨g, member, named⟩ := accepted
    exact List.find?_isSome.mpr ⟨g, member, decide_eq_true named⟩

end Database

/-! ## Commits -/

section Commits

variable {db db' : Database}

theorem commits_of_insertAll {rows : List Row} (inserted : db.insertAll? rows = some db')
    (issued : ∀ grant, .grant grant ∈ rows → grant.revokedAt = none ∧ db.ledger.Backed grant) :
    Ledger.Commits db.ledger (rows.map Row.change) db'.ledger := by
  induction rows generalizing db with
  | nil =>
    obtain rfl := Option.some.inj inserted
    exact .nil _
  | cons row rows ih =>
    rw [Database.insertAll?] at inserted
    split at inserted
    · rename_i accepted
      have accepts := Database.ledger_accepts accepted fun grant same =>
        issued grant (by rw [same]; exact List.mem_cons_self)
      apply Ledger.Commits.cons accepts
      rw [← Database.ledger_insert accepted]
      apply ih inserted
      intro grant member
      obtain ⟨unrevoked, backed⟩ := issued grant (List.mem_cons_of_mem _ member)
      rw [Database.ledger_insert accepted]
      exact ⟨unrevoked, backed.mono (.apply accepts) rfl⟩
    · cases inserted

/-- What there is to update stays there. -/
theorem accepts_update_mono {l l' : Ledger} {u : Uuid × Attr} (mild : u.2.Mild)
    (accepts : l.Accepts (updateChange u)) (extends_ : l.Extends l') :
    l'.Accepts (updateChange u) := by
  obtain ⟨id, attr⟩ := u
  have account : (l.accounts id).isSome = true → (l'.accounts id).isSome = true := by
    intro there
    obtain ⟨account, there⟩ := Option.isSome_iff_exists.mp there
    obtain ⟨account', there', -⟩ := extends_.accounts id account there
    rw [there']
    rfl
  cases attr with
  | revokedAt value =>
    cases value with
    | none => exact (mild rfl).elim
    | some time =>
      obtain ⟨grant, there⟩ := Option.isSome_iff_exists.mp accepts
      obtain ⟨grant', there', -⟩ := extends_.grants id grant there
      exact Option.isSome_iff_exists.mpr ⟨grant', there'⟩
  | _ => exact ⟨account accepts.1, rfl⟩

theorem commits_of_updates {updates : List (Uuid × Attr)} (mild : ∀ u ∈ updates, u.2.Mild)
    (present : ∀ u ∈ updates, db.ledger.Accepts (updateChange u)) :
    Ledger.Commits db.ledger (updates.map updateChange)
      (updates.foldl (fun db u => db.update u.1 u.2) db).ledger := by
  induction updates generalizing db with
  | nil => exact .nil _
  | cons u updates ih =>
    have accepts := present u List.mem_cons_self
    apply Ledger.Commits.cons accepts
    rw [← Database.ledger_update db (mild u List.mem_cons_self)]
    apply ih fun v member => mild v (List.mem_cons_of_mem _ member)
    intro v member
    rw [Database.ledger_update db (mild u List.mem_cons_self)]
    exact accepts_update_mono (mild v (List.mem_cons_of_mem _ member))
      (present v (List.mem_cons_of_mem _ member)) (.apply accepts)

/-- What a session commits, as changes of the ledger. -/
theorem commits_of_apply {s : Session} (mild : s.Mild) (applied : s.apply db = some db')
    (present : ∀ u ∈ s.updates, db.ledger.Accepts (updateChange u))
    (issued : ∀ grant, .grant grant ∈ s.added → grant.revokedAt = none ∧ db.ledger.Backed grant) :
    Ledger.Commits db.ledger s.ledgerChanges db'.ledger := by
  have updated := commits_of_updates (Session.updates_mild mild) present
  apply updated.append
  apply commits_of_insertAll applied
  intro grant member
  obtain ⟨unrevoked, backed⟩ := issued grant member
  exact ⟨unrevoked, backed.mono updated.extends rfl⟩

end Commits

/-! ## Where a session's updates come from -/

namespace Session

variable {tr : Trace BrokerSig}

/-- What an assignment adds to the changes of an account. -/
theorem mem_changes_set {stored assigned : ConnectedAccount} {attr attr' : Attr}
    (changed : attr ∈ accountChanges stored (assigned.set attr')) :
    attr = attr' ∨ attr ∈ accountChanges stored assigned := by
  simp only [accountChanges, List.mem_append] at changed ⊢
  cases attr' with
  | revokedAt time => exact .inr changed
  | encryptedAccessToken blob =>
    rcases changed with (inside | inside) | inside
    · split at inside
      · cases inside
      · exact .inl (List.mem_singleton.mp inside)
    · exact .inr (.inl (.inr inside))
    · exact .inr (.inr inside)
  | encryptedRefreshToken value =>
    rcases changed with (inside | inside) | inside
    · exact .inr (.inl (.inl inside))
    · split at inside
      · cases inside
      · exact .inl (List.mem_singleton.mp inside)
    · exact .inr (.inr inside)
  | expiresAt time =>
    rcases changed with inside | inside
    · exact .inr (.inl inside)
    · split at inside
      · cases inside
      · exact .inl (List.mem_singleton.mp inside)

/-- The account of a session was loaded, and its changes were assigned. -/
theorem replay_account_spec {stored assigned : ConnectedAccount}
    (held : (replay tr).account = some (stored, assigned)) :
    (∃ id account, ⟨.query (.accountById id), .ok (some account)⟩ ∈ tr ∧ stored.id = account.id ∧
      assigned.id = account.id) ∧
      ∀ attr ∈ accountChanges stored assigned,
        ∃ a, (⟨.setAccount attr, a⟩ : Event BrokerSig) ∈ tr := by
  have unchanged (account : ConnectedAccount) : accountChanges account account = [] :=
    accountChanges_eq_nil.mpr ⟨rfl, rfl, rfl⟩
  induction tr using List.reverseRecOn generalizing stored assigned with
  | nil => simp [new] at held
  | append_singleton tr e ih =>
    have old : ∀ {stored assigned : ConnectedAccount},
        (replay tr).account = some (stored, assigned) →
        (∃ id account, ⟨.query (.accountById id), .ok (some account)⟩ ∈ tr ++ [e] ∧
          stored.id = account.id ∧ assigned.id = account.id) ∧
          ∀ attr ∈ accountChanges stored assigned,
            ∃ a, (⟨.setAccount attr, a⟩ : Event BrokerSig) ∈ tr ++ [e] := by
      intro stored assigned held
      obtain ⟨⟨id, account, loaded, named⟩, assigns⟩ := ih held
      refine ⟨⟨id, account, List.mem_append_left _ loaded, named⟩, fun attr changed => ?_⟩
      obtain ⟨a, member⟩ := assigns attr changed
      exact ⟨a, List.mem_append_left _ member⟩
    rw [replay_append_singleton] at held
    obtain ⟨e, a⟩ := e
    cases e with
    | setAccount attr =>
      obtain ⟨⟨stored', assigned'⟩, before, same⟩ := Option.map_eq_some_iff.mp held
      obtain ⟨rfl, rfl⟩ := Prod.mk.inj same
      obtain ⟨⟨id, account, loaded, stored_id, assigned_id⟩, assigns⟩ := old before
      refine ⟨⟨id, account, loaded, stored_id, (assigned'.set_id attr).trans assigned_id⟩,
        fun attr' changed => ?_⟩
      rcases mem_changes_set changed with rfl | before
      · exact ⟨a, List.mem_append_right _ List.mem_cons_self⟩
      · exact assigns attr' before
    | query q =>
      cases q with
      | accountById id =>
        rcases a with x | _ | account
        · exact old held
        · simp [note] at held
        · simp only [note, Option.map_some, Option.some.injEq, Prod.mk.injEq] at held
          obtain ⟨rfl, rfl⟩ := held
          refine ⟨⟨id, account, List.mem_append_right _ List.mem_cons_self, rfl, rfl⟩, ?_⟩
          rw [unchanged]
          exact fun attr changed => absurd changed List.not_mem_nil
      | _ => exact old ((note_idle _ rfl).1.symm.trans held)
    | commit =>
      cases a with
      | error x => exact old held
      | ok _ =>
        obtain ⟨⟨stored', assigned'⟩, before, same⟩ := Option.map_eq_some_iff.mp held
        obtain ⟨rfl, rfl⟩ := Prod.mk.inj same
        obtain ⟨⟨id, account, loaded, -, assigned_id⟩, -⟩ := old before
        refine ⟨⟨id, account, loaded, assigned_id, assigned_id⟩, ?_⟩
        rw [unchanged]
        exact fun attr changed => absurd changed List.not_mem_nil
    | rollback => cases a <;> first | exact old held | simp [note, new] at held
    | close => simp [note, new] at held
    | add row => exact old held
    | _ => exact old ((note_idle _ rfl).1.symm.trans held)

/-- An update of an account is of a credential column. -/
theorem credential_of_change {stored assigned : ConnectedAccount} {attr : Attr}
    (changed : attr ∈ accountChanges stored assigned) : attr.isCredential = true := by
  simp only [accountChanges, List.mem_append] at changed
  rcases changed with (inside | inside) | inside
  all_goals
    split at inside
    · cases inside
    · rw [List.mem_singleton.mp inside]
      rfl

/-- An update of a credential is of the account that was loaded, and was assigned. -/
theorem mem_updates_credential {u : Uuid × Attr} (credential : u.2.isCredential = true)
    (member : u ∈ (replay tr).updates) :
    (∃ id account, ⟨.query (.accountById id), .ok (some account)⟩ ∈ tr ∧ u.1 = account.id) ∧
      ∃ a, (⟨.setAccount u.2, a⟩ : Event BrokerSig) ∈ tr := by
  rcases List.mem_append.mp member with account | grant
  · cases held : (replay tr).account with
    | none =>
      rw [held] at account
      cases account
    | some row =>
      rw [held] at account
      obtain ⟨attr, changed, rfl⟩ := List.mem_map.mp account
      obtain ⟨⟨id, account, loaded, named, -⟩, assigns⟩ := replay_account_spec held
      exact ⟨⟨id, account, loaded, named⟩, assigns attr changed⟩
  · cases held : (replay tr).grant with
    | none =>
      rw [held] at grant
      cases grant
    | some row =>
      rw [held] at grant
      obtain ⟨attr, inside, rfl⟩ := List.mem_map.mp grant
      simp only [grantChanges] at inside
      split at inside
      · cases inside
      · rw [List.mem_singleton.mp inside] at credential
        cases credential

/-- Where no grant is assigned to, an update is of a credential. -/
theorem credential_of_updates (unset : ∀ e ∈ tr, ∀ attr, e.op ≠ .setGrant attr) {u : Uuid × Attr}
    (member : u ∈ (replay tr).updates) : u.2.isCredential = true := by
  rw [updates_of_grants unset] at member
  cases held : (replay tr).account with
  | none =>
    rw [held] at member
    cases member
  | some row =>
    rw [held] at member
    obtain ⟨attr, changed, rfl⟩ := List.mem_map.mp member
    exact credential_of_change changed

end Session

end CredBroker
