import CredBroker.Demo
import CredBroker.Runs

/-!
# Complete mediation

No provider call without every check before it, from the signature of the token
up to the last look at the revocation state.
-/

namespace CredBroker

open Python Interaction

variable {lib : Lib} {svc : Services} {lossy : Bool}

/-- The row that a lookup found is there, with the hash that was asked for. -/
theorem looked_row {w : World} {c : Broker} (run : (broker lib svc lossy).Reaches (.start w) c)
    {i : Nat} {t : Thread BrokerSig Request Response} (thread : c.threads[i]? = some t)
    {req : InvokeRequest} {grant : Grant} (found : looked lib req grant ∈ t.trace) :
    grant.grantTokenHash = hashToken lib req.grantToken ∧
      ∃ row ∈ c.world.db.grants, row.issued = grant.issued := by
  obtain ⟨v, answered, grows⟩ := read_truthful run thread found
  obtain ⟨member, hash⟩ := World.one_eq_some (of_decide_eq_true answered)
  obtain ⟨row, there, same, -⟩ := grows.grants grant member
  exact ⟨of_decide_eq_true hash, row, there, same⟩

/-- Complete mediation: whatever the state of the broker and the behaviour of
its collaborators, no program comes to the provider without every check. -/
theorem provider_call_mediated {w : World} {c : Broker}
    (run : (broker lib svc lossy).Reaches (.start w) c) {i : Nat}
    {t : Thread BrokerSig Request Response} (thread : c.threads[i]? = some t)
    {tool : ToolAdapter} {accessToken : Str} {arguments : Arguments}
    (calls : t.prog.next = some (.toolCall tool accessToken arguments)) :
    ∃ req grant, t.req = .invoke req ∧ arguments = req.arguments ∧
      Mediated lib svc req grant tool accessToken t.trace ∧
      grant.grantTokenHash = hashToken lib req.grantToken ∧
      ∃ row ∈ c.world.db.grants, row.issued = grant.issued := by
  obtain ⟨req, request, rfl, -, -, grant, mediated⟩ :=
    mediated_of_guard (next_kept run thread calls)
  obtain ⟨hash, row⟩ := looked_row run thread mediated.admitted.live.found
  exact ⟨req, grant, request, rfl, mediated, hash, row⟩

/-- The demo agent's call comes to the provider. -/
theorem Demo.calling : ∃ c,
    (broker Demo.lib Demo.services false).Reaches (.start (World.fresh Demo.midnight)) c ∧
    ∃ (i : Nat) (t : Thread BrokerSig Request Response) (tool : ToolAdapter) (accessToken : Str)
      (arguments : Arguments),
      c.threads[i]? = some t ∧ t.prog.next = some (.toolCall tool accessToken arguments) := by
  have calling : (Demo.played false
      (Demo.issued ++ Demo.invocation [] (some "k") :: Demo.run 2 18)).any (fun c =>
        c.threads[2]?.any fun t => t.prog.next.any Op.isToolCall) = true := by decide +kernel
  obtain ⟨c, run, calling⟩ := Demo.reached calling
  obtain ⟨t, thread, calling⟩ := (Option.any_eq_true _ _).mp calling
  obtain ⟨e, next, isCall⟩ := (Option.any_eq_true _ _).mp calling
  cases e with
  | toolCall tool accessToken arguments =>
    exact ⟨c, run, 2, t, tool, accessToken, arguments, thread, next⟩
  | _ => cases isCall

/-- Its checks are all there. -/
theorem provider_call_mediated_demo : ∃ (c : Broker) (i : Nat)
    (t : Thread BrokerSig Request Response) (tool : ToolAdapter) (accessToken : Str)
    (arguments : Arguments),
    (broker Demo.lib Demo.services false).Reaches (.start (World.fresh Demo.midnight)) c ∧
      c.threads[i]? = some t ∧ t.prog.next = some (.toolCall tool accessToken arguments) ∧
      ∃ req grant, t.req = .invoke req ∧ arguments = req.arguments ∧
        Mediated Demo.lib Demo.services req grant tool accessToken t.trace ∧
        grant.grantTokenHash = hashToken Demo.lib req.grantToken ∧
        ∃ row ∈ c.world.db.grants, row.issued = grant.issued := by
  obtain ⟨c, run, i, t, tool, accessToken, arguments, thread, next⟩ := Demo.calling
  exact ⟨c, i, t, tool, accessToken, arguments, run, thread, next,
    provider_call_mediated run thread next⟩

end CredBroker
