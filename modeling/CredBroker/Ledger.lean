import Mathlib.Logic.Function.Basic
import CredBroker.Tools

/-!
# The ledger

What the broker keeps, apart from how it is served: agents, connected accounts and
grants, each entered once under its identifier, and a log of tool calls. `Accepts`
says which changes the ledger admits and `apply` what they do. `Sound` and `Extends`
are laws of every ledger that only accepted changes are made to; `Bookkeeping` shows
that the tables of the broker are one.
-/

namespace CredBroker

structure Ledger where
  agents : Uuid → Option AgentIdentity
  accounts : Uuid → Option ConnectedAccount
  grants : Uuid → Option Grant
  log : List ToolCallAuditLog

/-- What can happen to a ledger. -/
inductive Change
  | enrol (agent : AgentIdentity)
  | connect (account : ConnectedAccount)
  | issue (grant : Grant)
  | revoke (id : Uuid) (time : Time)
  /-- One column of an account's credential. -/
  | renew (id : Uuid) (attr : Attr)
  | record (row : ToolCallAuditLog)

/-- The columns that hold a credential. -/
def Attr.isCredential : Attr → Bool
  | .revokedAt _ => false
  | _ => true

namespace Ledger

def empty : Ledger := ⟨fun _ => none, fun _ => none, fun _ => none, []⟩

/-- The agent and the account behind a grant: one user's, with the granted tool's
provider and scope, and a tool that the agent may use. -/
def Backed (l : Ledger) (grant : Grant) : Prop :=
  ∃ agent account tool, l.agents grant.agentId = some agent ∧
    l.accounts grant.connectedAccountId = some account ∧ account.userId = agent.userId ∧
    grant.toolName ∈ agent.allowedScopes ∧ getTool grant.toolName = .ok tool ∧
    account.provider = tool.provider ∧ grant.scope = tool.scope

/-- No grant has this token. -/
def Unused (l : Ledger) (tokenHash : Python.Str) : Prop :=
  ∀ id grant, l.grants id = some grant → grant.grantTokenHash ≠ tokenHash

/-- The changes that a ledger admits. -/
def Accepts (l : Ledger) : Change → Prop
  | .enrol agent => l.agents agent.id = none
  | .connect account => l.accounts account.id = none
  | .issue grant => l.grants grant.id = none ∧ l.Unused grant.grantTokenHash ∧ l.Backed grant ∧
      grant.revokedAt = none
  | .revoke id _ => (l.grants id).isSome = true
  | .renew id attr => (l.accounts id).isSome = true ∧ attr.isCredential = true
  | .record row => (l.grants row.grantId).isSome = true

def apply (l : Ledger) : Change → Ledger
  | .enrol agent => { l with agents := Function.update l.agents agent.id (some agent) }
  | .connect account => { l with accounts := Function.update l.accounts account.id (some account) }
  | .issue grant => { l with grants := Function.update l.grants grant.id (some grant) }
  | .revoke id time =>
    { l with grants := Function.update l.grants id ((l.grants id).map (·.set (.revokedAt time))) }
  | .renew id attr =>
    { l with accounts := Function.update l.accounts id ((l.accounts id).map (·.set attr)) }
  | .record row => { l with log := l.log ++ [row] }

/-- The changes of one commit, made one after the other. -/
inductive Commits : Ledger → List Change → Ledger → Prop
  | nil (l : Ledger) : Commits l [] l
  | cons {l l' : Ledger} {change : Change} {changes : List Change} (accepts : l.Accepts change)
      (rest : Commits (l.apply change) changes l') : Commits l (change :: changes) l'

variable {l l' l'' : Ledger} {change : Change} {changes changes' : List Change}

theorem Commits.append (first : Commits l changes l') (last : Commits l' changes' l'') :
    Commits l (changes ++ changes') l'' := by
  induction first with
  | nil l => exact last
  | cons accepts _ ih => exact .cons accepts (ih last)

/-- What every accepted change keeps, a commit keeps. -/
theorem Commits.preserves {P : Ledger → Prop} (commits : Commits l changes l')
    (keeps : ∀ l change, l.Accepts change → P l → P (l.apply change)) (holds : P l) : P l' := by
  induction commits with
  | nil l => exact holds
  | cons accepts _ ih => exact ih (keeps _ _ accepts holds)

/-! ## What is never lost -/

/-- Every entry of `l` is still in `l'`: agents as they were, accounts under the same owner,
grants as they were issued and revoked if they were, and the log. -/
structure Extends (l l' : Ledger) : Prop where
  agents : ∀ id agent, l.agents id = some agent → l'.agents id = some agent
  accounts : ∀ id account, l.accounts id = some account →
    ∃ account', l'.accounts id = some account' ∧ account'.id = account.id ∧
      account'.userId = account.userId ∧ account'.provider = account.provider
  grants : ∀ id grant, l.grants id = some grant →
    ∃ grant', l'.grants id = some grant' ∧ { grant' with revokedAt := grant.revokedAt } = grant ∧
      (grant.revokedAt.isSome = true → grant'.revokedAt.isSome = true)
  log : l.log <+: l'.log

theorem Extends.refl (l : Ledger) : l.Extends l where
  agents _ _ there := there
  accounts _ account there := ⟨account, there, rfl, rfl, rfl⟩
  grants _ grant there := ⟨grant, there, rfl, id⟩
  log := List.prefix_rfl

theorem Extends.trans (first : l.Extends l') (last : l'.Extends l'') : l.Extends l'' where
  agents id agent there := last.agents id agent (first.agents id agent there)
  accounts id account there := by
    obtain ⟨account', there', id_eq, user, provider⟩ := first.accounts id account there
    obtain ⟨account'', there'', id_eq', user', provider'⟩ := last.accounts id account' there'
    exact ⟨account'', there'', id_eq'.trans id_eq, user'.trans user, provider'.trans provider⟩
  grants id grant there := by
    obtain ⟨grant', there', same, stays⟩ := first.grants id grant there
    obtain ⟨grant'', there'', same', stays'⟩ := last.grants id grant' there'
    refine ⟨grant'', there'', ?_, stays' ∘ stays⟩
    rw [← same, ← same']
  log := first.log.trans last.log

/-- A new entry loses no old one. -/
theorem update_of_free {α : Type} {f : Uuid → Option α} {id other : Uuid} {a b : α}
    (free : f id = none) (there : f other = some b) :
    Function.update f id (some a) other = some b := by
  rw [Function.update_of_ne, there]
  rintro rfl
  rw [free] at there
  cases there

theorem Extends.apply (accepts : l.Accepts change) : l.Extends (l.apply change) := by
  have kept := Extends.refl l
  cases change with
  | enrol agent => exact { kept with agents := fun _ _ there => update_of_free accepts there }
  | connect account =>
    exact { kept with
      accounts := fun id account there => ⟨account, update_of_free accepts there, rfl, rfl, rfl⟩ }
  | issue grant =>
    exact { kept with
      grants := fun id grant there => ⟨grant, update_of_free accepts.1 there, rfl, fun h => h⟩ }
  | revoke id time =>
    refine { kept with grants := fun other grant there => ?_ }
    by_cases same : other = id
    · subst same
      exact ⟨grant.set (.revokedAt time), by simp [Ledger.apply, there], rfl, fun _ => rfl⟩
    · exact ⟨grant, by simp [Ledger.apply, Function.update_of_ne same, there], rfl, fun h => h⟩
  | renew id attr =>
    refine { kept with accounts := fun other account there => ?_ }
    by_cases same : other = id
    · subst same
      exact ⟨account.set attr, by simp [Ledger.apply, there], by cases attr <;> rfl,
        by cases attr <;> rfl, by cases attr <;> rfl⟩
    · exact ⟨account, by simp [Ledger.apply, Function.update_of_ne same, there], rfl, rfl, rfl⟩
  | record row => exact { kept with log := List.prefix_append _ _ }

theorem Commits.extends (commits : Commits l changes l') : l.Extends l' := by
  induction commits with
  | nil l => exact .refl l
  | cons accepts _ ih => exact (Extends.apply accepts).trans ih

/-! ## What changes an entry -/

/-- An account is changed by a renewal only. -/
theorem Commits.renewed (commits : Commits l changes l') {id : Uuid} {account : ConnectedAccount}
    (there : l.accounts id = some account) (changed : l'.accounts id ≠ some account) :
    ∃ attr, .renew id attr ∈ changes := by
  induction commits with
  | nil l => exact (changed there).elim
  | @cons l l' change changes accepts rest ih =>
    have later : (l.apply change).accounts id = some account →
        ∃ attr, .renew id attr ∈ change :: changes := by
      intro kept
      obtain ⟨attr, member⟩ := ih kept changed
      exact ⟨attr, List.mem_cons_of_mem _ member⟩
    cases change with
    | connect new => exact later (update_of_free accepts there)
    | renew other attr =>
      by_cases same : id = other
      · subst same
        exact ⟨attr, List.mem_cons_self⟩
      · exact later ((Function.update_of_ne same ..).trans there)
    | _ => exact later there

/-- A grant is changed by a revocation only. -/
theorem Commits.revoked (commits : Commits l changes l') {id : Uuid} {grant : Grant}
    (there : l.grants id = some grant) (changed : l'.grants id ≠ some grant) :
    ∃ time, .revoke id time ∈ changes := by
  induction commits with
  | nil l => exact (changed there).elim
  | @cons l l' change changes accepts rest ih =>
    have later : (l.apply change).grants id = some grant →
        ∃ time, .revoke id time ∈ change :: changes := by
      intro kept
      obtain ⟨time, member⟩ := ih kept changed
      exact ⟨time, List.mem_cons_of_mem _ member⟩
    cases change with
    | issue new => exact later (update_of_free accepts.1 there)
    | revoke other time =>
      by_cases same : id = other
      · subst same
        exact ⟨time, List.mem_cons_self⟩
      · exact later ((Function.update_of_ne same ..).trans there)
    | _ => exact later there

/-! ## Soundness -/

/-- What a ledger says fits together. -/
structure Sound (l : Ledger) : Prop where
  agents : ∀ id agent, l.agents id = some agent → agent.id = id
  accounts : ∀ id account, l.accounts id = some account → account.id = id
  grants : ∀ id grant, l.grants id = some grant → grant.id = id
  /-- A token is one grant's. -/
  tokens : ∀ id id' grant grant', l.grants id = some grant → l.grants id' = some grant' →
    grant.grantTokenHash = grant'.grantTokenHash → id = id'
  backed : ∀ id grant, l.grants id = some grant → l.Backed grant
  /-- Every call that is logged was made under a grant. -/
  logged : ∀ row ∈ l.log, (l.grants row.grantId).isSome = true

theorem sound_empty : empty.Sound where
  agents _ _ there := nomatch there
  accounts _ _ there := nomatch there
  grants _ _ there := nomatch there
  tokens _ _ _ _ there := nomatch there
  backed _ _ there := nomatch there
  logged _ member := absurd member List.not_mem_nil

/-- What backs a grant goes on doing so. -/
theorem Backed.mono {grant grant' : Grant} (backed : l.Backed grant) (extends_ : l.Extends l')
    (same : { grant' with revokedAt := grant.revokedAt } = grant) : l'.Backed grant' := by
  obtain ⟨agent, account, tool, agent_eq, account_eq, user, allowed, tool_eq, provider, scope⟩ :=
    backed
  obtain ⟨account', account_eq', -, user', provider'⟩ := extends_.accounts _ _ account_eq
  rw [← same] at agent_eq account_eq' allowed tool_eq scope
  exact ⟨agent, account', tool, extends_.agents _ _ agent_eq, account_eq',
    user'.trans user, allowed, tool_eq, provider'.trans provider, scope⟩

/-- An entry of an updated table is the new one or an old one. -/
theorem of_update {α : Type} {f : Uuid → Option α} {id other : Uuid} {value : Option α} {a : α}
    (there : Function.update f id value other = some a) :
    (other = id ∧ value = some a) ∨ f other = some a := by
  by_cases same : other = id
  · subst same
    exact .inl ⟨rfl, by simpa using there⟩
  · exact .inr (by rwa [Function.update_of_ne same] at there)

/-- Every grant of a changed ledger was there, as it was issued, or is being issued. -/
theorem grants_apply {id : Uuid} {grant : Grant} (accepts : l.Accepts change)
    (there : (l.apply change).grants id = some grant) :
    (∃ old, l.grants id = some old ∧ { grant with revokedAt := old.revokedAt } = old) ∨
      (change = .issue grant ∧ id = grant.id) := by
  cases change with
  | issue new =>
    rcases of_update there with ⟨rfl, same⟩ | old
    · obtain rfl := Option.some.inj same
      exact .inr ⟨rfl, rfl⟩
    · exact .inl ⟨grant, old, rfl⟩
  | revoke other time =>
    rcases of_update there with ⟨rfl, same⟩ | old
    · obtain ⟨old, there', rfl⟩ := Option.map_eq_some_iff.mp same
      exact .inl ⟨old, there', rfl⟩
    · exact .inl ⟨grant, old, rfl⟩
  | _ => exact .inl ⟨grant, there, rfl⟩

theorem Sound.apply (sound : l.Sound) (accepts : l.Accepts change) : (l.apply change).Sound := by
  have extends_ := Extends.apply accepts
  refine ⟨?_, ?_, ?_, ?_, ?_, ?_⟩
  · intro id agent there
    cases change with
    | enrol new =>
      rcases of_update there with ⟨rfl, same⟩ | old
      · rw [Option.some.inj same]
      · exact sound.agents id agent old
    | _ => exact sound.agents id agent there
  · intro id account there
    cases change with
    | connect new =>
      rcases of_update there with ⟨rfl, same⟩ | old
      · rw [Option.some.inj same]
      · exact sound.accounts id account old
    | renew other attr =>
      rcases of_update there with ⟨rfl, same⟩ | old
      · obtain ⟨old, there', rfl⟩ := Option.map_eq_some_iff.mp same
        rw [← sound.accounts id old there']
        cases attr <;> rfl
      · exact sound.accounts id account old
    | _ => exact sound.accounts id account there
  · intro id grant there
    rcases grants_apply accepts there with ⟨old, there', same⟩ | ⟨-, named⟩
    · rw [← sound.grants id old there', ← same]
    · exact named.symm
  · intro id id' grant grant' there there' hash
    rcases grants_apply accepts there with ⟨old, was, same⟩ | ⟨issued, named⟩ <;>
      rcases grants_apply accepts there' with ⟨old', was', same'⟩ | ⟨issued', named'⟩
    · refine sound.tokens id id' old old' was was' ?_
      rw [← same, ← same']
      exact hash
    · subst issued'
      refine absurd ?_ (accepts.2.1 id old was)
      rw [← same]
      exact hash
    · subst issued
      refine absurd ?_ (accepts.2.1 id' old' was')
      rw [← same']
      exact hash.symm
    · obtain rfl := Change.issue.inj (issued.symm.trans issued')
      exact named.trans named'.symm
  · intro id grant there
    rcases grants_apply accepts there with ⟨old, was, same⟩ | ⟨rfl, -⟩
    · exact (sound.backed id old was).mono extends_ same
    · exact accepts.2.2.1.mono extends_ rfl
  · have kept : ∀ row : ToolCallAuditLog, (l.grants row.grantId).isSome = true →
        ((l.apply change).grants row.grantId).isSome = true := by
      intro row there
      obtain ⟨grant, there⟩ := Option.isSome_iff_exists.mp there
      obtain ⟨grant', there', -⟩ := extends_.grants _ _ there
      rw [there']
      rfl
    intro row member
    cases change with
    | record new =>
      rcases List.mem_append.mp member with old | last
      · exact kept row (sound.logged row old)
      · rw [List.mem_singleton.mp last]
        exact kept new accepts
    | _ => exact kept row (sound.logged row member)

/-- A commit to a sound ledger leaves it sound. -/
theorem Commits.sound (commits : Commits l changes l') (sound : l.Sound) : l'.Sound :=
  commits.preserves (fun _ _ accepts holds => holds.apply accepts) sound

end Ledger

end CredBroker
