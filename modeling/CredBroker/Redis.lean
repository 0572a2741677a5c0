import CredBroker.Models

/-!
# Redis

The key space as the broker uses it: string values with an optional expiry, and
the six commands its clients send. A command is one atomic step; `Cmd.run` is
`none` where the server answers with an error.
-/

namespace CredBroker

open Python

namespace Redis

/-- A value, and the last instant at which it is still there. -/
structure Entry where
  value : Str
  expireAt : Option Time
  deriving DecidableEq

/-- Whether a read at `now` sees the entry. -/
def Entry.alive (e : Entry) (now : Time) : Bool :=
  match e.expireAt with
  | none => true
  | some t => decide (now ≤ t)

end Redis

/-- The keys of one database. -/
structure Redis where
  table : Str → Option Redis.Entry

namespace Redis

def empty : Redis := ⟨fun _ => none⟩

/-- What a read of `name` at `now` sees. -/
def find (r : Redis) (now : Time) (name : Str) : Option Entry :=
  (r.table name).filter (·.alive now)

/-- Replace what is stored under one name. -/
def put (r : Redis) (name : Str) (e : Option Entry) : Redis :=
  ⟨fun other => if other = name then e else r.table other⟩

/-- Drop every key that is not kept: eviction, and with nothing kept a flush. -/
def evict (r : Redis) (keep : Str → Bool) : Redis :=
  ⟨fun name => if keep name then r.table name else none⟩

@[simp] theorem put_table_self (r : Redis) (name : Str) (e : Option Entry) :
    (r.put name e).table name = e := by
  simp [put]

theorem put_table_ne (r : Redis) {name other : Str} (e : Option Entry) (ne : other ≠ name) :
    (r.put name e).table other = r.table other := by
  simp [put, ne]

/-! ## Commands -/

inductive Cmd
  | get (name : Str)
  | existsKey (name : Str)
  /-- `SET name value [NX] EX ex`. -/
  | set (name value : Str) (nx : Bool) (ex : Int)
  | delete (name : Str)
  | incr (name : Str)
  | expire (name : Str) (ttl : Int)
  deriving DecidableEq

namespace Cmd

/-- The key a command is about. -/
def name : Cmd → Str
  | .get name | .existsKey name | .set name _ _ _ | .delete name | .incr name
  | .expire name _ => name

/-- Whether a command only reads. -/
def isRead : Cmd → Bool
  | .get _ | .existsKey _ => true
  | _ => false

abbrev Reply : Cmd → Type
  | .get _ => Option Str
  | .existsKey _ => Nat
  | .set .. => Bool
  | .delete _ => Nat
  | .incr _ => Int
  | .expire .. => Bool

instance : (cmd : Cmd) → DecidableEq cmd.Reply
  | .get _ => inferInstanceAs (DecidableEq (Option Str))
  | .existsKey _ => inferInstanceAs (DecidableEq Nat)
  | .set .. => inferInstanceAs (DecidableEq Bool)
  | .delete _ => inferInstanceAs (DecidableEq Nat)
  | .incr _ => inferInstanceAs (DecidableEq Int)
  | .expire .. => inferInstanceAs (DecidableEq Bool)

end Cmd

/-- The integer a counter holds, `none` where it is not one. -/
def counter (value : Str) : Option Int :=
  match Str.int Str.decimalDigit value with
  | some n => if Str.ofInt n = value then some n else none
  | none => none

/-- The reply to a command at `now` and the keys after it. -/
def run (r : Redis) (now : Time) : (cmd : Cmd) → Option (cmd.Reply × Redis)
  | .get name => some ((r.find now name).map (·.value), r)
  | .existsKey name => some ((if (r.find now name).isSome then 1 else 0 : Nat), r)
  | .set name value nx ex =>
    if ex ≤ 0 then none
    else if nx && (r.find now name).isSome then some (false, r)
    else some (true, r.put name (some ⟨value, some (now + seconds ex)⟩))
  | .delete name =>
    some ((if (r.find now name).isSome then 1 else 0 : Nat), r.put name none)
  | .incr name =>
    match r.find now name with
    | none => some ((1 : Int), r.put name (some ⟨Str.ofInt 1, none⟩))
    | some e =>
      match counter e.value with
      | some n => some (n + 1, r.put name (some ⟨Str.ofInt (n + 1), e.expireAt⟩))
      | none => none
  | .expire name ttl =>
    match r.find now name with
    | none => some (false, r)
    | some e =>
      if ttl ≤ 0 then some (true, r.put name none)
      else some (true, r.put name (some ⟨e.value, some (now + seconds ttl)⟩))

/-- The keys after a command that took effect. -/
def after (r : Redis) (now : Time) (cmd : Cmd) : Redis :=
  match r.run now cmd with
  | some (_, r') => r'
  | none => r

/-- A command leaves every other key alone. -/
theorem after_table_ne (r : Redis) (now : Time) {cmd : Cmd} {other : Str}
    (ne : other ≠ cmd.name) : (r.after now cmd).table other = r.table other := by
  cases cmd with
  | get name => rfl
  | existsKey name => rfl
  | delete name => exact put_table_ne r none ne
  | set name value nx ex =>
    simp only [after, run]
    split_ifs
    · rfl
    · rfl
    · exact put_table_ne r _ ne
  | incr name =>
    simp only [after, run]
    cases r.find now name with
    | none => exact put_table_ne r _ ne
    | some e =>
      dsimp only
      cases counter e.value with
      | none => rfl
      | some n => exact put_table_ne r _ ne
  | expire name ttl =>
    simp only [after, run]
    cases r.find now name with
    | none => rfl
    | some e =>
      dsimp only
      split_ifs
      · exact put_table_ne r _ ne
      · exact put_table_ne r _ ne

/-- A `SET` stores its value, unless its expiry is refused or it finds a key it
must not replace. -/
theorem after_set_table (r : Redis) (now : Time) (name value : Str) (nx : Bool) (ex : Int) :
    (r.after now (.set name value nx ex)).table name =
      if ex ≤ 0 ∨ (nx = true ∧ (r.find now name).isSome = true) then r.table name
      else some ⟨value, some (now + seconds ex)⟩ := by
  simp only [after, run]
  by_cases refused : ex ≤ 0
  · simp [refused]
  · cases nx <;> cases r.find now name <;> simp [refused]

theorem after_delete_table (r : Redis) (now : Time) (name : Str) :
    (r.after now (.delete name)).table name = none := put_table_self r name none

/-- A read changes nothing. -/
theorem after_read (r : Redis) (now : Time) {cmd : Cmd} (read : cmd.isRead = true) :
    r.after now cmd = r := by
  cases cmd with
  | get name => rfl
  | existsKey name => rfl
  | _ => cases read

end Redis

end CredBroker
