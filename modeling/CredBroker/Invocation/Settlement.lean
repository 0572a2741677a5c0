import CredBroker.Invocation.Cancel
import CredBroker.Reliability.Ownership

/-!
# What becomes of a reservation

A run of `_invoke_resolved` that has reserved its key performs the call, and then
looks at the key once more: where its own marker is still there, it puts the result
in its place, or drops it. `resolved_settles` reads this off the runs of the program,
and `key_unwedged_iff` says what the key holds when such a run is finished.
-/

namespace CredBroker

open Python Interaction

variable {lib : Lib} {svc : Services} {lossy : Bool} {req : InvokeRequest} {grant : Grant}
  {tokenHash : Str} {tool : ToolAdapter} {start : Time} {store : IdempotencyStore}
  {key owner : Str} {tr tr' : Trace BrokerSig}

/-! ## How the call settles its key -/

/-- The store's own commands on a key succeeded. -/
def Answered (key : Str) (tr : Trace BrokerSig) : Prop :=
  ∀ e ∈ tr, ∀ cmd, e.op = .redis cmd → cmd.name = IdempotencyStore.name key → ∃ v, e.ans = .ok v

/-- What follows a call that ended so under the reservation of `owner`. -/
inductive Settlement (store : IdempotencyStore) (key owner : Str)
    (ended : Except PyExn InvokeOutcome) : Trace BrokerSig → Prop
  | stale {found : Option Str} (other : found ≠ some (IdempotencyStore.pendingValue owner)) :
      Settlement store key owner ended [⟨.redis (.get (IdempotencyStore.name key)), .ok found⟩]
  | completed {o : InvokeOutcome} {done : Bool} (success : ended = .ok o)
      (status : o.status = .success) : Settlement store key owner ended [sawOwn key owner,
        ⟨.redis (.set (IdempotencyStore.name key)
          (Json.dumps .default (storedResult o.result)) false store.windowSeconds), .ok done⟩]
  | released {count : Nat} (failed : ∀ o, ended = .ok o → o.status ≠ .success) :
      Settlement store key owner ended [sawOwn key owner,
        ⟨.redis (.delete (IdempotencyStore.name key)), .ok count⟩]

/-- A command that succeeds, where those of the store do. -/
theorem Answered.ok {α : Type} {p : BrokerProg α} {r : Except PyExn α} {cmd : Redis.Cmd}
    {a : BrokerSig.Ans (.redis cmd)} (answered : Answered key tr')
    (rest : (broker lib svc lossy).Runs p (tr ++ [⟨.redis cmd, a⟩]) tr' r)
    (here : cmd.name = IdempotencyStore.name key) : ∃ v, a = .ok v := by
  have member : (⟨.redis cmd, a⟩ : Event BrokerSig) ∈ tr' :=
    rest.prefix_trace.subset (List.mem_append_right _ List.mem_cons_self)
  exact answered _ member cmd rfl here

theorem release_settles {r : Except PyExn Unit} {ended : Except PyExn InvokeOutcome}
    (runs : (broker lib svc lossy).Runs (IdempotencyStore.release key (some owner)) tr tr' r)
    (answered : Answered key tr') (failed : ∀ o, ended = .ok o → o.status ≠ .success) :
    ∃ ext, tr' = tr ++ ext ∧ Settlement store key owner ended ext := by
  cases runs with
  | call a may rest =>
    obtain ⟨found, rfl⟩ := answered.ok rest rfl
    rcases found with _ | value
    · cases rest with
      | ret _ _ => exact ⟨_, rfl, .stale nofun⟩
    · change (broker lib svc lossy).Runs (if _ then _ else if _ then _ else _) _ _ _ at rest
      split at rest
      · rename_i completed
        cases rest with
        | ret _ _ =>
          refine ⟨_, rfl, .stale fun own => ?_⟩
          rw [Option.some.inj own, IdempotencyStore.isPending_pendingValue] at completed
          cases completed
      · split at rest
        · rename_i other
          cases rest with
          | ret _ _ => exact ⟨_, rfl, .stale (by simpa using other)⟩
        · rename_i own
          obtain rfl : value = IdempotencyStore.pendingValue owner := by simpa using own
          cases rest with
          | call b may' rest =>
            obtain ⟨count, rfl⟩ := answered.ok rest rfl
            cases rest with
            | ret _ _ => exact ⟨_, List.append_assoc .., .released failed⟩

theorem complete_settles {r : Except PyExn Unit} {o : InvokeOutcome}
    (runs : (broker lib svc lossy).Runs
      (store.complete key (storedResult o.result) (some owner)) tr tr' r)
    (answered : Answered key tr') (status : o.status = .success) :
    ∃ ext, tr' = tr ++ ext ∧ Settlement store key owner (.ok o) ext := by
  cases runs with
  | call a may rest =>
    obtain ⟨found, rfl⟩ := answered.ok rest rfl
    change (broker lib svc lossy).Runs (if _ then _ else _) _ _ _ at rest
    split at rest
    · rename_i other
      cases rest with
      | ret _ _ => exact ⟨_, rfl, .stale other⟩
    · rename_i own
      obtain rfl : found = some (IdempotencyStore.pendingValue owner) := by simpa using own
      cases rest with
      | call b may' rest =>
        obtain ⟨done, rfl⟩ := answered.ok rest rfl
        cases rest with
        | ret _ _ => exact ⟨_, List.append_assoc .., .completed rfl status⟩

/-- However the call ends, its reservation is settled, unless the task is cancelled. -/
theorem executeReserved_settles {r : Except PyExn InvokeOutcome}
    (runs : (broker lib svc lossy).Runs
      (executeReserved lib svc req grant tokenHash tool start store key owner) tr tr' r)
    (answered : Answered key tr') (uncancelled : ¬ cancellation.Aborted tr') :
    ∃ ended called ext, (broker lib svc lossy).Runs
        (executeCall lib svc req grant tokenHash tool start) tr called ended ∧
      tr' = called ++ ext ∧ Settlement store key owner ended ext := by
  obtain ⟨ended, called, call, rest⟩ := Machine.Runs.attempt_bind runs
  have begun : ¬ cancellation.Aborted tr := fun aborted => uncancelled
    (cancellation.aborted_mono (call.prefix_trace.trans rest.prefix_trace) aborted)
  cases ended with
  | error x =>
    have exception : x.isException = true := by
      have aborts := call.post (cancels_executeCall.wp cancellation_legal begun)
      refine eq_true_of_ne_false fun fatal => uncancelled ?_
      exact cancellation.aborted_mono rest.prefix_trace (aborts.mpr ⟨x, rfl, fatal⟩)
    change (broker lib svc lossy).Runs (if _ then _ else _) _ _ _ at rest
    rw [if_pos exception] at rest
    have failed : ∀ o, (.error x : Except PyExn InvokeOutcome) = .ok o →
        o.status ≠ .success := nofun
    rcases rest.bind with ⟨_, mid, released, last⟩ | ⟨y, released, -⟩
    · cases last with
      | throw _ _ =>
        obtain ⟨ext, whole, settled⟩ := release_settles released answered failed
        exact ⟨_, _, ext, call, whole, settled⟩
    · obtain ⟨ext, whole, settled⟩ := release_settles released answered failed
      exact ⟨_, _, ext, call, whole, settled⟩
  | ok o =>
    change (broker lib svc lossy).Runs (settle store key owner o >>= fun _ => .ret o) _ _ _ at rest
    have settled {r : Except PyExn Unit} {mid : Trace BrokerSig}
        (runs : (broker lib svc lossy).Runs (settle store key owner o) called mid r)
        (answered : Answered key mid) :
        ∃ ext, mid = called ++ ext ∧ Settlement store key owner (.ok o) ext := by
      rw [settle] at runs
      split at runs
      · rename_i status
        exact complete_settles runs answered status
      · rename_i status
        refine release_settles runs answered fun o' same => ?_
        rwa [← Except.ok.inj same]
    rcases rest.bind with ⟨_, mid, settling, last⟩ | ⟨y, settling, -⟩
    · cases last with
      | ret _ _ =>
        obtain ⟨ext, whole, settled⟩ := settled settling answered
        exact ⟨_, _, ext, call, whole, settled⟩
    · obtain ⟨ext, whole, settled⟩ := settled settling answered
      exact ⟨_, _, ext, call, whole, settled⟩

/-! ## How a run gets its reservation -/

/-- No reservation was granted. -/
def Unreserved (tr : Trace BrokerSig) : Prop :=
  ∀ name value ex, ⟨.redis (.set name value true ex), .ok true⟩ ∉ tr

theorem Unreserved.append {ext : Trace BrokerSig} (none : Unreserved tr) (none' : Unreserved ext) :
    Unreserved (tr ++ ext) := fun name value ex member =>
  (List.mem_append.mp member).elim (none name value ex) (none' name value ex)

theorem unreserved_of {ext : Trace BrokerSig} (none : ∀ e ∈ ext, e.op.isReserve = false) :
    Unreserved ext := fun _ _ _ member => nomatch none _ member

/-- The event of a granted reservation. -/
abbrev granted (key owner : Str) : Event BrokerSig :=
  ⟨.redis (.set (IdempotencyStore.name key) (IdempotencyStore.pendingValue owner) true
    IdempotencyStore.reservationTtlSeconds), .ok true⟩

theorem Unreserved.not_granted (none : Unreserved tr) (key owner : Str) : granted key owner ∉ tr :=
  none _ _ _

/-- A program went on from `tr` to `tr'` and no reservation was granted. -/
def Unclaimed (tr tr' : Trace BrokerSig) : Prop := ∃ ext, tr' = tr ++ ext ∧ Unreserved ext

theorem Unclaimed.refl (tr : Trace BrokerSig) : Unclaimed tr tr :=
  ⟨[], (List.append_nil tr).symm, nofun⟩

theorem Unclaimed.trans {tr'' : Trace BrokerSig} (first : Unclaimed tr tr')
    (second : Unclaimed tr' tr'') : Unclaimed tr tr'' := by
  obtain ⟨ext, rfl, none⟩ := first
  obtain ⟨ext', rfl, none'⟩ := second
  exact ⟨ext ++ ext', List.append_assoc .., none.append none'⟩

/-- A program that reserves nothing claims nothing. -/
theorem Unclaimed.of_within {α : Type} {p : BrokerProg α} {r : Except PyExn α} {c : Op → Bool}
    (runs : (broker lib svc lossy).Runs p tr tr' r) (within : Within p c)
    (other : ∀ {e : Op}, c e = true → e.isReserve = false) : Unclaimed tr tr' := by
  obtain ⟨ext, whole, inside⟩ := runs.within within
  exact ⟨ext, whole, unreserved_of fun e member => other (inside e member)⟩

theorem Op.isReserve_of_isPlain {e : Op} (h : e.isPlain = true) : e.isReserve = false := by
  cases e <;> first | rfl | cases h

theorem Op.isReserve_of_isExecute {e : Op} (h : e.isExecute = true) : e.isReserve = false := by
  cases e with
  | redis cmd => cases cmd <;> first | rfl | cases h
  | _ => rfl

theorem checkInvokeRate_uses : Within (checkInvokeRate svc grant) Op.isEntry := by
  refine .ite (fun _ => .bind (within_op rfl) fun _ => .bind (within_op rfl) fun _ => ?_)
    fun _ => trivial
  exact .ite (fun _ => .bind (within_op rfl) fun _ => trivial) fun _ => trivial

theorem get_asks {r : Except PyExn Json}
    (runs : (broker lib svc lossy).Runs (IdempotencyStore.get lib key) tr tr' r) :
    ∃ found, tr' = tr ++ [⟨.redis (.get (IdempotencyStore.name key)), found⟩] := by
  cases runs with
  | call found may rest =>
    refine ⟨found, ?_⟩
    rcases found with x | _ | value
    · cases rest with
      | throw _ _ => rfl
    · cases rest with
      | ret _ _ => rfl
    · change (broker lib svc lossy).Runs (if _ then _ else _) _ _ _ at rest
      split at rest
      · cases rest with
        | throw _ _ => rfl
      · split at rest
        · cases rest with
          | ret _ _ => rfl
        · cases rest with
          | throw _ _ => rfl

/-- `reserve` returns the token whose reservation was granted. -/
theorem reserve_claims {r : Except PyExn (Option Str)}
    (runs : (broker lib svc lossy).Runs (IdempotencyStore.reserve key) tr tr' r) :
    (∃ owner, r = .ok (some owner) ∧ tr' = tr ++ [⟨.tokenHex, .ok owner⟩, granted key owner]) ∨
      (∀ owner, r ≠ .ok (some owner)) ∧ Unclaimed tr tr' := by
  cases runs with
  | call drawn may rest =>
    obtain ⟨owner, rfl⟩ := may_sync rfl may
    cases rest with
    | call claimed may rest =>
      rcases claimed with x | _ | _
      · cases rest with
        | throw _ _ => exact .inr ⟨nofun, _, List.append_assoc .., by simp [Unreserved]⟩
      · cases rest with
        | ret _ _ => exact .inr ⟨nofun, _, List.append_assoc .., by simp [Unreserved]⟩
      · cases rest with
        | ret _ _ => exact .inl ⟨owner, rfl, List.append_assoc ..⟩

/-- A conflict claims nothing. -/
theorem conflict_unclaimed {β : Type} {r : Except PyExn (Except InvokeOutcome β)}
    (runs : (broker lib svc lossy).Runs (.error <$> conflict start) tr tr' r) :
    (∀ b, r ≠ .ok (.ok b)) ∧ Unclaimed tr tr' := by
  refine ⟨?_, .of_within runs (.bind (refused_uses ..) fun _ => trivial) Op.isReserve_of_isPlain⟩
  rcases Machine.Runs.bind runs with ⟨o, mid, -, last⟩ | ⟨x, -, rfl⟩
  · cases last with
    | ret _ _ => nofun
  · nofun

/-- Step 6 gets the key, or nothing is reserved. -/
theorem claimKey_claims {r : Except PyExn (Except InvokeOutcome Str)}
    (runs : (broker lib svc lossy).Runs (claimKey lib start key) tr tr' r) :
    (∃ owner mid, r = .ok (.ok owner) ∧ Unclaimed tr mid ∧
        tr' = mid ++ [⟨.tokenHex, .ok owner⟩, granted key owner]) ∨
      (∀ owner, r ≠ .ok (.ok owner)) ∧ Unclaimed tr tr' := by
  obtain ⟨ended, mid, asked, rest⟩ := Machine.Runs.attempt_bind runs
  have looked : Unclaimed tr mid := by
    obtain ⟨found, rfl⟩ := get_asks asked
    exact ⟨_, rfl, unreserved_of (by simp [Op.isReserve])⟩
  have refused {r : Except PyExn (Except InvokeOutcome Str)} {mid tr' : Trace BrokerSig}
      (before : Unclaimed tr mid)
      (runs : (broker lib svc lossy).Runs (.error <$> conflict start) mid tr' r) :
      (∀ owner, r ≠ .ok (.ok owner)) ∧ Unclaimed tr tr' :=
    ⟨(conflict_unclaimed runs).1, before.trans (conflict_unclaimed runs).2⟩
  rcases ended with x | cached
  · cases x with
    | idempotencyConflictError msg => exact .inr (refused looked rest)
    | _ =>
      cases rest with
      | throw _ _ => exact .inr ⟨by simp, looked⟩
  · cases cached with
    | null =>
      rcases Machine.Runs.bind rest with ⟨reservation, mid', reserving, last⟩ | ⟨x, reserving, rfl⟩
      · rcases reserve_claims reserving with ⟨owner, same, rfl⟩ | ⟨lost, unclaimed⟩
        · obtain rfl := Except.ok.inj same
          cases last with
          | ret _ _ => exact .inl ⟨owner, mid, rfl, looked, rfl⟩
        · cases reservation with
          | none => exact .inr (refused (looked.trans unclaimed) last)
          | some owner => exact (lost owner rfl).elim
      · rcases reserve_claims reserving with ⟨owner, same, -⟩ | ⟨-, unclaimed⟩
        · cases same
        · exact .inr ⟨by simp, looked.trans unclaimed⟩
    | _ =>
      cases rest with
      | call now may rest =>
        obtain ⟨now, rfl⟩ := may_sync rfl may
        cases rest with
        | ret _ _ =>
          exact .inr ⟨by simp, looked.trans ⟨_, rfl, unreserved_of (by simp [Op.isReserve])⟩⟩

/-- A run of `_invoke_resolved` reserves nothing, or performs its call under the
reservation that it has just been granted. -/
theorem resolved_claims {fastRevoked : Bool} {r : Except PyExn InvokeOutcome}
    (runs : (broker lib svc lossy).Runs
      (invokeResolved lib svc req grant tokenHash start fastRevoked) tr tr' r) :
    Unclaimed tr tr' ∨ ∃ tool k store owner mid, getTool req.toolName = .ok tool ∧
      req.idempotencyKey = some k ∧ svc.idempotencyStore = some store ∧ Unclaimed tr mid ∧
      (broker lib svc lossy).Runs
        (executeReserved lib svc req grant tokenHash tool start store (fullKey req grant k) owner)
        (mid ++ [⟨.tokenHex, .ok owner⟩, granted (fullKey req grant k) owner]) tr' r := by
  have plain {status : Status} {msg : Str} {reason : Option DeniedReason}
      {mid tr' : Trace BrokerSig} {r : Except PyExn InvokeOutcome}
      (runs : (broker lib svc lossy).Runs (refused start status msg reason) mid tr' r) :
      Unclaimed mid tr' := .of_within runs (refused_uses ..) Op.isReserve_of_isPlain
  rw [invokeResolved] at runs
  split at runs
  · exact .inl (plain runs)
  · cases runs with
    | call now may rest =>
      obtain ⟨now, rfl⟩ := may_sync rfl may
      have clocked : Unclaimed tr (tr ++ [⟨.clock, .ok now⟩]) :=
        ⟨_, rfl, unreserved_of (by simp [Op.isReserve])⟩
      change (broker lib svc lossy).Runs (if _ then _ else _) _ _ _ at rest
      split at rest
      · exact .inl (clocked.trans (plain rest))
      · rcases Machine.Runs.bind rest with ⟨allowed, mid, rated, rest⟩ | ⟨x, rated, rfl⟩
        · have paced := clocked.trans
            (.of_within rated checkInvokeRate_uses Op.isReserve_of_isEntry)
          split at rest
          · exact .inl (paced.trans (plain rest))
          · split at rest
            · exact .inl (paced.trans (plain rest))
            · cases rest with
              | throw _ _ => exact .inl paced
            · rename_i tool tool_eq
              split at rest
              · exact .inl (paced.trans (plain rest))
              · split at rest
                · rename_i k store keyed stored
                  rcases Machine.Runs.bind rest with
                    ⟨claimed, mid', claiming, rest⟩ | ⟨x, claiming, rfl⟩
                  · rcases claimKey_claims claiming with
                      ⟨owner, before, same, looked, rfl⟩ | ⟨lost, unclaimed⟩
                    · obtain rfl := Except.ok.inj same
                      exact .inr ⟨tool, k, store, owner, before, tool_eq, keyed, stored,
                        paced.trans looked, rest⟩
                    · cases claimed with
                      | error outcome =>
                        cases rest with
                        | ret _ _ => exact .inl (paced.trans unclaimed)
                      | ok owner => exact (lost owner rfl).elim
                  · rcases claimKey_claims claiming with ⟨owner, -, same, -⟩ | ⟨-, unclaimed⟩
                    · cases same
                    · exact .inl (paced.trans unclaimed)
                · exact .inl (paced.trans
                    (.of_within rest executeCall_uses Op.isReserve_of_isExecute))
        · exact .inl (clocked.trans (.of_within rated checkInvokeRate_uses Op.isReserve_of_isEntry))

theorem executeReserved_uses :
    Within (executeReserved lib svc req grant tokenHash tool start store key owner)
      (fun e => !e.isReserve) := by
  have release_uses : Within (IdempotencyStore.release key (some owner))
      (fun e => !e.isReserve) := by
    refine .bind (within_op rfl) fun value => ?_
    split
    · trivial
    · exact .ite (fun _ => trivial) fun _ => .ite (fun _ => trivial) fun _ =>
        .bind (within_op rfl) fun _ => trivial
  refine .bind (.attempt (executeCall_uses.mono fun is => ?_)) fun ended => ?_
  · rw [Op.isReserve_of_isExecute is]
    rfl
  · cases ended with
    | error x => exact .ite (fun _ => .bind release_uses fun _ => trivial) fun _ => trivial
    | ok o =>
      refine .bind (.ite (fun _ => ?_) fun _ => release_uses) fun _ => trivial
      exact .bind (within_op rfl) fun value => .ite (fun _ => trivial) fun _ =>
        .bind (within_op rfl) fun _ => trivial

/-- What is neither in the first part nor in the last is in the middle. -/
theorem split_inside {α : Type} {past more first middle last : List α} {x : α} (none : x ∉ first)
    (none' : x ∉ last) (same : past ++ x :: more = first ++ middle ++ last) :
    ∃ rest, past ++ x :: rest = first ++ middle ∧ first <+: past := by
  rcases List.append_eq_append_iff.mp same with ⟨as, inside, tail⟩ | ⟨bs, -, tail⟩
  · cases as with
    | nil =>
      rw [List.nil_append] at tail
      exact (none' (tail ▸ List.mem_cons_self)).elim
    | cons y as =>
      obtain ⟨rfl, -⟩ := List.cons.inj tail
      rcases List.append_eq_append_iff.mp inside with ⟨cs, behind, -⟩ | ⟨cs, before, rest⟩
      · exact ⟨as, inside.symm, cs, behind.symm⟩
      · cases cs with
        | nil => exact ⟨as, inside.symm, [], by simpa using before⟩
        | cons z cs =>
          obtain ⟨rfl, -⟩ := List.cons.inj rest
          exact (none (before ▸ List.mem_append_right _ List.mem_cons_self)).elim
  · exact (none' (tail ▸ List.mem_append_right _ List.mem_cons_self)).elim

/-- Where the reservation of a run was granted. -/
theorem granted_once {base past rest mid after : Trace BrokerSig} {key' owner' : Str}
    {e : Event BrokerSig} (longer : base <+: past) (before : Unclaimed base (mid ++ [e]))
    (none : Unreserved after)
    (same : past ++ granted key owner :: rest = mid ++ e :: granted key' owner' :: after) :
    past = mid ++ [e] ∧ granted key owner = granted key' owner' ∧ rest = after := by
  have same : past ++ granted key owner :: rest = (mid ++ [e]) ++ granted key' owner' :: after := by
    rw [same, List.append_assoc]
    rfl
  rcases List.append_eq_append_iff.mp same with ⟨as, early, tail⟩ | ⟨bs, late, tail⟩
  · rcases as with _ | ⟨a, as⟩
    · obtain ⟨event, rest_eq⟩ := List.cons.inj tail
      exact ⟨by simpa using early.symm, event, rest_eq⟩
    · -- it was granted no earlier
      obtain ⟨rfl, -⟩ := List.cons.inj tail
      obtain ⟨ext, whole, unreserved⟩ := before
      obtain ⟨u, rfl⟩ := longer
      rw [whole, List.append_assoc] at early
      refine (unreserved.not_granted key owner ?_).elim
      rw [List.append_cancel_left early]
      exact List.mem_append_right _ List.mem_cons_self
  · rcases bs with _ | ⟨b, bs⟩
    · obtain ⟨event, rest_eq⟩ := List.cons.inj tail
      exact ⟨by simpa using late, event.symm, rest_eq.symm⟩
    · -- nor later
      obtain ⟨-, after_eq⟩ := List.cons.inj tail
      refine (none.not_granted key owner ?_).elim
      rw [after_eq]
      exact List.mem_append_right _ List.mem_cons_self

/-- A run of `_invoke_resolved` that was granted a reservation performs the call, and
then settles the key. -/
theorem resolved_settles {fastRevoked : Bool} {r : Except PyExn InvokeOutcome}
    {base past rest : Trace BrokerSig}
    (runs : (broker lib svc lossy).Runs
      (invokeResolved lib svc req grant tokenHash start fastRevoked) base
      (past ++ granted key owner :: rest) r) (longer : base <+: past)
    (answered : Answered key (past ++ granted key owner :: rest))
    (uncancelled : ¬ cancellation.Aborted (past ++ granted key owner :: rest)) :
    ∃ tool k store ended called ext, getTool req.toolName = .ok tool ∧
      req.idempotencyKey = some k ∧ fullKey req grant k = key ∧
      svc.idempotencyStore = some store ∧
      (broker lib svc lossy).Runs (executeCall lib svc req grant tokenHash tool start)
        (past ++ [granted key owner]) called ended ∧
      past ++ granted key owner :: rest = called ++ ext ∧
      Settlement store key owner ended ext := by
  rcases resolved_claims runs with
    ⟨ext, whole, none⟩ | ⟨tool, k, store, owner', mid, tool_eq, keyed, stored, before, reserved⟩
  · obtain ⟨u, rfl⟩ := longer
    rw [List.append_assoc] at whole
    refine (none.not_granted key owner ?_).elim
    rw [← List.append_cancel_left whole]
    exact List.mem_append_right _ List.mem_cons_self
  · obtain ⟨after, whole, inside⟩ := reserved.within executeReserved_uses
    have unreserved : Unreserved after :=
      unreserved_of fun e member => by simpa using inside e member
    obtain ⟨past_eq, event, rest_eq⟩ := granted_once longer
      (before.trans ⟨[⟨.tokenHex, .ok owner'⟩], rfl, by simp [Unreserved]⟩) unreserved
      (whole.trans (List.append_assoc ..))
    obtain ⟨name, value⟩ : IdempotencyStore.name key = IdempotencyStore.name (fullKey req grant k) ∧
        IdempotencyStore.pendingValue owner = IdempotencyStore.pendingValue owner' := by
      simpa using event
    obtain rfl := IdempotencyStore.name_inj name
    obtain rfl := IdempotencyStore.pendingValue_inj value
    obtain ⟨ended, called, ext, call, split, settled⟩ :=
      executeReserved_settles reserved answered uncancelled
    refine ⟨tool, k, store, ended, called, ext, tool_eq, keyed, rfl, stored, ?_, split, settled⟩
    rw [past_eq, List.append_assoc]
    exact call

/-! ## Within an invocation -/

/-- From `tr` to `tr'` nothing is reserved but in a run of `_invoke_resolved`. -/
inductive Resolves (lib : Lib) (svc : Services) (lossy : Bool) (req : InvokeRequest)
    (tr tr' : Trace BrokerSig) : Prop
  | unclaimed (unclaimed : Unclaimed tr tr')
  | resolved {grant : Grant} {start : Time} {fastRevoked : Bool} {base mid : Trace BrokerSig}
      {r : Except PyExn InvokeOutcome} (before : Unclaimed tr base)
      (runs : (broker lib svc lossy).Runs
        (invokeResolved lib svc req grant (hashToken lib req.grantToken) start fastRevoked) base
        mid r) (after : Unclaimed mid tr')

theorem Resolves.later {tr'' : Trace BrokerSig} (first : Unclaimed tr tr')
    (resolves : Resolves lib svc lossy req tr' tr'') : Resolves lib svc lossy req tr tr'' := by
  cases resolves with
  | unclaimed unclaimed => exact .unclaimed (first.trans unclaimed)
  | resolved before runs after => exact .resolved (first.trans before) runs after

theorem Resolves.longer {tr'' : Trace BrokerSig} (resolves : Resolves lib svc lossy req tr tr')
    (last : Unclaimed tr' tr'') : Resolves lib svc lossy req tr tr'' := by
  cases resolves with
  | unclaimed unclaimed => exact .unclaimed (unclaimed.trans last)
  | resolved before runs after => exact .resolved before runs (after.trans last)

/-- A program whose head or tail is such a run. -/
theorem Unclaimed.of_uses {α : Type} {p : BrokerProg α} {r : Except PyExn α}
    (runs : (broker lib svc lossy).Runs p tr tr' r) (uses : Within p fun e => !e.isReserve) :
    Unclaimed tr tr' :=
  .of_within runs uses fun is => by simpa using is

theorem refused_unclaimed {status : Status} {msg : Str} {reason : Option DeniedReason}
    {r : Except PyExn InvokeOutcome}
    (runs : (broker lib svc lossy).Runs (refused start status msg reason) tr tr' r) :
    Unclaimed tr tr' := .of_within runs (refused_uses ..) Op.isReserve_of_isPlain

theorem invokeAudited_resolves {fastRevoked : Bool} {r : Except PyExn InvokeOutcome}
    (runs : (broker lib svc lossy).Runs
      (invokeAudited lib svc req grant (hashToken lib req.grantToken) start fastRevoked) tr tr' r) :
    Resolves lib svc lossy req tr tr' := by
  obtain ⟨ended, mid, resolved, rest⟩ := Machine.Runs.attempt_bind runs
  refine .resolved (.refl tr) resolved ?_
  cases ended with
  | ok outcome =>
    cases rest with
    | ret _ _ => exact .refl _
  | error x =>
    refine .of_uses rest (.ite (fun _ => .bind (within_op rfl) fun _ => ?_) fun _ => trivial)
    refine (refused_uses ..).mono fun is => ?_
    rw [Op.isReserve_of_isPlain is]
    rfl

theorem invokeGranted_resolves {r : Except PyExn InvokeOutcome}
    (runs : (broker lib svc lossy).Runs (invokeGranted lib svc req start) tr tr' r) :
    Resolves lib svc lossy req tr tr' := by
  have marked_uses :
      Within (markedRevoked svc (hashToken lib req.grantToken)) fun e => !e.isReserve :=
    .ite (fun _ => .bind (within_op rfl) fun _ => trivial) fun _ => trivial
  rcases Machine.Runs.bind runs with ⟨marked, mid, marking, rest⟩ | ⟨x, marking, -⟩
  · refine .later (.of_uses marking marked_uses) ?_
    cases rest with
    | call found may rest =>
      refine .later ⟨[⟨.query (.grantByTokenHash (hashToken lib req.grantToken)), found⟩], rfl,
        unreserved_of (by simp [Op.isReserve])⟩ ?_
      rcases found with x | _ | grant
      · cases rest with
        | throw _ _ => exact .unclaimed (.refl _)
      · exact .unclaimed (refused_unclaimed rest)
      · change (broker lib svc lossy).Runs
          (invokeAudited lib svc req grant (hashToken lib req.grantToken) start marked >>= _) _ _ _
          at rest
        rcases Machine.Runs.bind rest with ⟨outcome, mid', audited, rest⟩ | ⟨x, audited, -⟩
        · refine (invokeAudited_resolves audited).longer (.of_uses rest ?_)
          exact .bind (.bind (within_op rfl) fun _ => within_op rfl) fun _ => trivial
        · exact invokeAudited_resolves audited
  · exact .unclaimed (.of_uses marking marked_uses)

/-- An invocation reserves nothing but in its run of `_invoke_resolved`. -/
theorem invoke_resolves {r : Except PyExn InvokeOutcome}
    (runs : (broker lib svc lossy).Runs (invoke lib svc req) tr tr' r) :
    Resolves lib svc lossy req tr tr' := by
  cases runs with
  | call now may rest =>
    obtain ⟨now, rfl⟩ := may_sync rfl may
    obtain ⟨verified, mid, verifying, rest⟩ := Machine.Runs.attempt_bind rest
    have before : Unclaimed tr mid := by
      refine .trans ⟨[⟨.clock, .ok now⟩], rfl, unreserved_of (by simp [Op.isReserve])⟩
        (.of_uses verifying ?_)
      exact .bind (within_op rfl) fun _ => Prog.uses_ofExcept _
    refine .later before ?_
    rcases verified with x | claims
    · cases x with
      | grantExpiredError msg => exact .unclaimed (refused_unclaimed rest)
      | grantTokenInvalidError msg => exact .unclaimed (refused_unclaimed rest)
      | _ =>
        cases rest with
        | throw _ _ => exact .unclaimed (.refl _)
    · change (broker lib svc lossy).Runs (if _ then _ else _) _ _ _ at rest
      split at rest
      · exact .unclaimed (refused_unclaimed rest)
      · obtain ⟨ended, mid', granted, rest⟩ := Machine.Runs.attempt_bind rest
        refine (invokeGranted_resolves granted).longer (.of_uses rest ?_)
        exact .bind (within_op rfl) fun _ => Prog.uses_ofExcept _

end CredBroker
