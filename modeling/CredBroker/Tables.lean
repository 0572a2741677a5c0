import Mathlib.Data.List.Nodup
import CredBroker.Effects

/-!
# What commits do to the tables

A commit only adds rows and updates the mutable columns. `Database.Grows` says
what is never lost, `Database.Keyed` which columns stay unique, and the lemmas
about `Session.apply` what one commit adds.
-/

namespace CredBroker

open Python Interaction

/-! ## Growth -/

/-- The columns of a grant that no statement updates. -/
def Grant.issued (g : Grant) : Grant := { g with revokedAt := none }

/-- The columns of an account that no statement updates and the tenancy rests on. -/
def ConnectedAccount.owned (a : ConnectedAccount) : Uuid × Uuid × Str :=
  (a.id, a.userId, a.provider)

namespace Database

/-- Every row of `db` is still in `db'`, and revoked where it was. -/
structure Grows (db db' : Database) : Prop where
  agents : db.agents <+: db'.agents
  accounts : ∀ a ∈ db.accounts, ∃ a' ∈ db'.accounts, a'.owned = a.owned
  grants : ∀ g ∈ db.grants, ∃ g' ∈ db'.grants, g'.issued = g.issued ∧
    (g.revokedAt.isSome = true → g'.revokedAt.isSome = true)
  audit : db.audit <+: db'.audit

theorem Grows.refl (db : Database) : db.Grows db :=
  ⟨List.prefix_rfl, fun a member => ⟨a, member, rfl⟩, fun g member => ⟨g, member, rfl, id⟩,
    List.prefix_rfl⟩

theorem Grows.trans {db db' db'' : Database} (h : db.Grows db') (h' : db'.Grows db'') :
    db.Grows db'' where
  agents := h.agents.trans h'.agents
  accounts a member := by
    obtain ⟨a', member', same⟩ := h.accounts a member
    obtain ⟨a'', member'', same'⟩ := h'.accounts a' member'
    exact ⟨a'', member'', same'.trans same⟩
  grants g member := by
    obtain ⟨g', member', same, stays⟩ := h.grants g member
    obtain ⟨g'', member'', same', stays'⟩ := h'.grants g' member'
    exact ⟨g'', member'', same'.trans same, stays' ∘ stays⟩
  audit := h.audit.trans h'.audit

/-- Primary keys and token hashes are unique. -/
structure Keyed (db : Database) : Prop where
  agents : (db.agents.map (·.id)).Nodup
  accounts : (db.accounts.map (·.id)).Nodup
  grants : (db.grants.map (·.id)).Nodup
  tokens : (db.grants.map (·.grantTokenHash)).Nodup

theorem keyed_empty : empty.Keyed := ⟨.nil, .nil, .nil, .nil⟩

/-- Two rows with one key are one row. -/
theorem eq_of_key {α β : Type} {rows : List α} {key : α → β} (unique : (rows.map key).Nodup)
    {a b : α} (ha : a ∈ rows) (hb : b ∈ rows) (same : key a = key b) : a = b :=
  List.inj_on_of_nodup_map unique ha hb same

/-! ## Updates -/

end Database

/-- An assignment that does not take a revocation back. -/
def Attr.Mild (attr : Attr) : Prop := attr ≠ .revokedAt none

theorem Grant.set_issued (g : Grant) (attr : Attr) : (g.set attr).issued = g.issued := by
  cases attr <;> rfl

theorem Grant.set_id (g : Grant) (attr : Attr) : (g.set attr).id = g.id := by
  cases attr <;> rfl

theorem Grant.set_revoked {g : Grant} {attr : Attr} (mild : attr.Mild)
    (revoked : g.revokedAt.isSome = true) : (g.set attr).revokedAt.isSome = true := by
  cases attr with
  | revokedAt value =>
    cases value with
    | none => exact (mild rfl).elim
    | some time => rfl
  | _ => exact revoked

theorem ConnectedAccount.set_owned (a : ConnectedAccount) (attr : Attr) :
    (a.set attr).owned = a.owned := by
  cases attr <;> rfl

theorem ConnectedAccount.set_id (a : ConnectedAccount) (attr : Attr) : (a.set attr).id = a.id := by
  cases attr <;> rfl

namespace Database

variable {db db' : Database}

/-- An update loses no row. -/
theorem update_grows (db : Database) (id : Uuid) {attr : Attr} (mild : attr.Mild) :
    db.Grows (db.update id attr) where
  agents := List.prefix_rfl
  accounts a member := by
    refine ⟨_, List.mem_map_of_mem member, ?_⟩
    split
    · exact a.set_owned attr
    · rfl
  grants g member := by
    refine ⟨_, List.mem_map_of_mem member, ?_⟩
    split
    · exact ⟨g.set_issued attr, Grant.set_revoked mild⟩
    · exact ⟨rfl, fun revoked => revoked⟩
  audit := List.prefix_rfl

/-- An update leaves every key as it is. -/
theorem update_keys (db : Database) (id : Uuid) (attr : Attr) :
    (db.update id attr).accounts.map (·.id) = db.accounts.map (·.id) ∧
      (db.update id attr).grants.map (·.id) = db.grants.map (·.id) ∧
      (db.update id attr).grants.map (·.grantTokenHash) = db.grants.map (·.grantTokenHash) := by
  refine ⟨?_, ?_, ?_⟩
  all_goals
    simp only [update, List.map_map]
    refine List.map_congr_left fun row _ => ?_
    simp only [Function.comp]
    split
    · cases attr <;> rfl
    · rfl

theorem Keyed.update (keyed : db.Keyed) (id : Uuid) (attr : Attr) : (db.update id attr).Keyed := by
  obtain ⟨accounts, grants, tokens⟩ := db.update_keys id attr
  exact ⟨keyed.agents, accounts ▸ keyed.accounts, grants ▸ keyed.grants, tokens ▸ keyed.tokens⟩

/-- An update writes no new grant. -/
theorem mem_update_grants {id : Uuid} {attr : Attr} {g' : Grant}
    (member : g' ∈ (db.update id attr).grants) : ∃ g ∈ db.grants, g'.issued = g.issued := by
  obtain ⟨g, old, rfl⟩ := List.mem_map.mp member
  refine ⟨g, old, ?_⟩
  split
  · exact g.set_issued attr
  · rfl

/-! ## Insertions -/

/-- Nor does an insert. -/
theorem insert_grows (db : Database) (row : Row) : db.Grows (db.insert row) := by
  have h := Grows.refl db
  cases row with
  | agent row => exact { h with agents := List.prefix_append _ _ }
  | account row =>
    exact { h with accounts := fun a member => ⟨a, List.mem_append_left _ member, rfl⟩ }
  | grant row =>
    exact { h with grants := fun g member => ⟨g, List.mem_append_left _ member, rfl, id⟩ }
  | audit row => exact { h with audit := List.prefix_append _ _ }

/-- A new key is not among the old ones. -/
theorem nodup_append_key {α β : Type} {rows : List α} {key : α → β} {row : α}
    (unique : (rows.map key).Nodup) (new : ∀ other ∈ rows, key other ≠ key row) :
    ((rows ++ [row]).map key).Nodup := by
  rw [List.map_append, List.map_singleton, List.nodup_append]
  refine ⟨unique, List.nodup_singleton _, ?_⟩
  rintro a old b single rfl
  obtain ⟨other, member, rfl⟩ := List.mem_map.mp old
  exact new other member (List.mem_singleton.mp single)

theorem Keyed.insert (keyed : db.Keyed) {row : Row} (accepted : db.accepts row = true) :
    (db.insert row).Keyed := by
  cases row with
  | agent row =>
    exact { keyed with agents := nodup_append_key keyed.agents (by simpa [accepts] using accepted) }
  | account row =>
    exact { keyed with
      accounts := nodup_append_key keyed.accounts (by simpa [accepts] using accepted) }
  | grant row =>
    simp only [accepts, Bool.and_eq_true, List.all_eq_true, bne_iff_ne] at accepted
    exact { keyed with
      grants := nodup_append_key keyed.grants fun g member => (accepted.1.1 g member).1
      tokens := nodup_append_key keyed.tokens fun g member => (accepted.1.1 g member).2 }
  | audit row => exact ⟨keyed.agents, keyed.accounts, keyed.grants, keyed.tokens⟩

/-- The audit rows among rows to insert. -/
def auditRows (rows : List Row) : List ToolCallAuditLog :=
  rows.filterMap fun
    | .audit row => some row
    | _ => none

/-- What a flush of added rows does to the tables. -/
theorem insertAll_spec {rows : List Row} (inserted : db.insertAll? rows = some db') :
    db.Grows db' ∧ (db.Keyed → db'.Keyed) ∧ db'.audit = db.audit ++ auditRows rows ∧
      ∀ g ∈ db'.grants, g ∈ db.grants ∨ Row.grant g ∈ rows := by
  induction rows generalizing db with
  | nil =>
    obtain rfl := Option.some.inj inserted
    exact ⟨.refl db, id, by simp [auditRows], fun g member => .inl member⟩
  | cons row rows ih =>
    rw [insertAll?] at inserted
    split at inserted
    · rename_i accepted
      obtain ⟨grows, keyed, audit, grants⟩ := ih inserted
      refine ⟨(db.insert_grows row).trans grows, fun h => keyed (h.insert accepted), ?_, ?_⟩
      · rw [audit]
        cases row <;> simp [insert, auditRows]
      · intro g member
        rcases grants g member with old | new
        · cases row with
          | grant row =>
            rcases List.mem_append.mp old with old | new
            · exact .inl old
            · exact .inr (by simp [List.mem_singleton.mp new])
          | _ => exact .inl old
        · exact .inr (List.mem_cons_of_mem _ new)
    · cases inserted

end Database

/-! ## Commits -/

namespace Session

/-- The session does not take a revocation back. -/
def Mild (s : Session) : Prop :=
  ∀ stored assigned, s.grant = some (stored, assigned) →
    assigned.revokedAt = stored.revokedAt ∨ assigned.revokedAt.isSome = true

theorem updates_mild {s : Session} (mild : s.Mild) : ∀ u ∈ s.updates, u.2.Mild := by
  intro u member
  rcases List.mem_append.mp member with account | grant
  · cases loaded : s.account with
    | none => simp [loaded] at account
    | some pair =>
      obtain ⟨stored, assigned⟩ := pair
      simp only [loaded, accountChanges, List.map_append, List.mem_append] at account
      rcases account with (account | account) | account <;> split at account <;>
        simp at account <;> subst account <;> simp [Attr.Mild]
  · cases loaded : s.grant with
    | none => simp [loaded] at grant
    | some pair =>
      obtain ⟨stored, assigned⟩ := pair
      simp only [loaded, grantChanges] at grant
      split at grant
      · simp at grant
      · rename_i changed
        simp at grant
        subst grant
        rcases mild stored assigned loaded with same | some_
        · exact (changed same).elim
        · intro taken
          simp only [Attr.revokedAt.injEq] at taken
          simp [taken] at some_

/-- What its updates do to them. -/
theorem fold_updates_spec {updates : List (Uuid × Attr)} (mild : ∀ u ∈ updates, u.2.Mild)
    (db : Database) :
    let db' := updates.foldl (fun db u => db.update u.1 u.2) db
    db.Grows db' ∧ (db.Keyed → db'.Keyed) ∧ db'.audit = db.audit ∧
      ∀ g' ∈ db'.grants, ∃ g ∈ db.grants, g'.issued = g.issued := by
  induction updates generalizing db with
  | nil => exact ⟨.refl db, id, rfl, fun g member => ⟨g, member, rfl⟩⟩
  | cons u updates ih =>
    obtain ⟨grows, keyed, audit, grants⟩ :=
      ih (fun u' member => mild u' (List.mem_cons_of_mem _ member)) (db.update u.1 u.2)
    refine ⟨(db.update_grows u.1 (mild u (by simp))).trans grows, fun h => keyed (h.update _ _),
      audit, fun g' member => ?_⟩
    obtain ⟨g, member', same⟩ := grants g' member
    obtain ⟨g₀, old, same'⟩ := Database.mem_update_grants member'
    exact ⟨g₀, old, same.trans same'⟩

/-- What a commit does, and all it does. -/
theorem apply_spec {s : Session} {db db' : Database} (mild : s.Mild)
    (applied : s.apply db = some db') :
    db.Grows db' ∧ (db.Keyed → db'.Keyed) ∧ db'.audit = db.audit ++ Database.auditRows s.added ∧
      ∀ g' ∈ db'.grants, (∃ g ∈ db.grants, g'.issued = g.issued) ∨ Row.grant g' ∈ s.added := by
  obtain ⟨grows, keyed, audit, grants⟩ := fold_updates_spec (updates_mild mild) db
  obtain ⟨grows', keyed', audit', grants'⟩ := Database.insertAll_spec applied
  refine ⟨grows.trans grows', keyed' ∘ keyed, audit'.trans (by rw [audit]), fun g' member => ?_⟩
  rcases grants' g' member with old | new
  · exact .inl (grants g' old)
  · exact .inr new

/-! ## Sessions along a trace -/

/-- A trace that assigns revocations only. -/
def Revoking (tr : Trace BrokerSig) : Prop :=
  ∀ e ∈ tr, ∀ attr, e.op = .setGrant attr → ∃ now, attr = .revokedAt (some now)

theorem note_mild {s : Session} (mild : s.Mild) {e : Event BrokerSig}
    (revoking : ∀ attr, e.op = .setGrant attr → ∃ now, attr = .revokedAt (some now)) :
    (s.note e).Mild := by
  intro stored assigned loaded
  obtain ⟨e, a⟩ := e
  cases e with
  | setGrant attr =>
    obtain ⟨now, rfl⟩ := revoking attr rfl
    cases held : s.grant with
    | none => simp [note, held] at loaded
    | some pair =>
      simp only [note, held, Option.map_some, Option.some.injEq, Prod.mk.injEq] at loaded
      rw [← loaded.2]
      exact .inr rfl
  | query q =>
    rcases a with x | a
    · exact mild stored assigned (by cases q <;> exact loaded)
    · cases q with
      | grantById id =>
        cases a with
        | none => simp [note] at loaded
        | some g =>
          simp only [note, Option.map_some, Option.some.injEq, Prod.mk.injEq] at loaded
          rw [← loaded.1, ← loaded.2]
          exact .inl rfl
      | agentForUpdate id =>
        cases a <;> exact mild stored assigned loaded
      | _ => exact mild stored assigned loaded
  | commit =>
    rcases a with x | a
    · exact mild stored assigned loaded
    · cases held : s.grant with
      | none => simp [note, held] at loaded
      | some pair =>
        simp only [note, held, Option.map_some, Option.some.injEq, Prod.mk.injEq] at loaded
        rw [← loaded.1, ← loaded.2]
        exact .inl rfl
  | rollback => cases a <;> first | exact mild stored assigned loaded | simp [note, new] at loaded
  | close => simp [note, new] at loaded
  | flush => cases a <;> exact mild stored assigned loaded
  | _ => exact mild stored assigned loaded

/-- A program that assigns revocations only takes none back. -/
theorem replay_mild {tr : Trace BrokerSig} (revoking : Revoking tr) : (replay tr).Mild := by
  induction tr using List.reverseRecOn with
  | nil => intro stored assigned loaded; simp [new] at loaded
  | append_singleton tr e ih =>
    rw [replay_append_singleton]
    exact note_mild (ih fun e' member => revoking e' (List.mem_append_left _ member))
      (revoking e (by simp))

/-- One event adds at most its own row. -/
theorem mem_note_added {s : Session} {e : Event BrokerSig} {row : Row}
    (member : row ∈ (s.note e).added) : row ∈ s.added ∨ e.op = .add row := by
  obtain ⟨e, a⟩ := e
  cases e with
  | add row' =>
    rcases List.mem_append.mp member with old | new
    · exact .inl old
    · exact .inr (by rw [List.mem_singleton.mp new])
  | query q =>
    refine .inl ?_
    rcases a with x | a
    · cases q <;> exact member
    · cases q with
      | agentForUpdate id => cases a <;> exact member
      | _ => exact member
  | commit => cases a <;> first | exact .inl member | simp [note] at member
  | rollback => cases a <;> first | exact .inl member | simp [note, new] at member
  | close => simp [note, new] at member
  | flush => cases a <;> exact .inl member
  | _ => exact .inl member

/-- What a session holds to insert, its program added. -/
theorem mem_replay_added {tr : Trace BrokerSig} {row : Row} (member : row ∈ (replay tr).added) :
    ∃ pre a, pre ++ [⟨.add row, a⟩] <+: tr := by
  induction tr using List.reverseRecOn with
  | nil => simp [new] at member
  | append_singleton tr e ih =>
    rw [replay_append_singleton] at member
    rcases mem_note_added member with old | new
    · obtain ⟨pre, a, sub⟩ := ih old
      exact ⟨pre, a, sub.trans (List.prefix_append _ _)⟩
    · obtain ⟨e, a⟩ := e
      obtain rfl : e = .add row := new
      exact ⟨tr, a, List.prefix_rfl⟩

end Session

end CredBroker
