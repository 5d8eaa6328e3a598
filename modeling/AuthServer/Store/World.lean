import AuthServer.Concurrent.Program
import AuthServer.Store.Payloads
import AuthServer.Store.Statements

/-!
# The world of the server and its atomic commands

Everything a request does outside its own memory is one of the commands below: a
SQL statement, a Redis command, a look at the clock, a random draw. Each is one
atomic step on the world.

## Implementation notes

A step is taken under a choice of the environment: how much time has passed since
the last step, whether the store fails, what a random source returns. Drawn UUIDs
and tokens are new: a choice that repeats an earlier draw is not a step. A failed
Redis command stands both for a failed command and for a failure to get a connection
from the pool, which the source treats alike everywhere; it has no effect.
-/

namespace AuthServer

/-- The shared state. -/
structure World where
  now : NaiveDateTime
  pg : Postgres
  redis : Redis
  activeKid : String
  uuids : List Uuid
  tokens : List String

/-- A SQL statement. -/
inductive Sql where
  | query (q : Query)
  | stmt (s : Stmt)
  | tx (s : TxStmt)
  deriving DecidableEq

/-- What a SQL statement reports. -/
def Sql.Res : Sql → Type
  | .query q => q.Res
  | .stmt s => s.Res
  | .tx s => s.Res

/-- The atomic commands of request programs. -/
inductive Op where
  | sql (s : Sql)
  | redis (c : RedisCmd)
  | now
  | newUuid
  | urlSafe (byteLength : Nat)
  | userCode
  | salt
  | jitteredTtl (base : Nat)
  | activeKid
  deriving DecidableEq

/-- The reply to a command. -/
def Res : Op → Type
  | .sql s => Except DbError s.Res
  | .redis c => Except String c.Res
  | .now => NaiveDateTime
  | .newUuid => Uuid
  | .urlSafe _ | .userCode | .salt | .activeKid => String
  | .jitteredTtl _ => Nat

/-- What the environment decides at a step. -/
structure Choice where
  elapse : Nat := 0
  fail : Option String := none
  uuid : Uuid := 0
  text : String := ""
  number : Nat := 0

/-- Execute a SQL statement that the environment lets succeed. -/
def Sql.exec (env : Env) (tid : Nat) (now : NaiveDateTime) (pg : Postgres) :
    (s : Sql) → Postgres.Outcome s.Res
  | .query q => some (.ok (q.exec env pg.tables), pg)
  | .stmt s => s.exec now pg
  | .tx s => s.exec tid pg

/-- The state left by a SQL statement that fails for a reason outside the model. -/
def Sql.fail (tid : Nat) (pg : Postgres) : Sql → Postgres
  | .query _ | .stmt _ => pg
  | .tx s => s.fail tid pg

namespace World

/-- Time passes. -/
def elapse (w : World) (d : Nat) : World := { w with now := w.now + d }

/-- Execute a command. -/
def exec (env : Env) (tid : Nat) (op : Op) (ch : Choice) (w₀ : World) : Option (Res op × World) :=
  let w := w₀.elapse ch.elapse
  match op with
  | .sql s =>
    match ch.fail with
    | some text => some (.error (.failure text), { w with pg := s.fail tid w.pg })
    | none => (s.exec env tid w.now w.pg).map fun y => (y.1, { w with pg := y.2 })
  | .redis c =>
    match ch.fail with
    | some text => some (.error text, w)
    | none =>
      let y := c.exec w.now w.redis
      some (.ok y.1, { w with redis := y.2 })
  | .now => some (w.now, w)
  | .newUuid =>
    if w.uuids.contains ch.uuid then none
    else some (ch.uuid, { w with uuids := ch.uuid :: w.uuids })
  | .urlSafe _ =>
    if w.tokens.contains ch.text then none
    else some (ch.text, { w with tokens := ch.text :: w.tokens })
  | .userCode => if Text.isUserCode ch.text then some (ch.text, w) else none
  | .salt => some (ch.text, w)
  | .jitteredTtl base =>
    -- ten per cent to either side, one more below for the rounding of the float product
    if 9 * base ≤ 10 * (ch.number + 1) ∧ 10 * ch.number ≤ 11 * base then
      some ((max ch.number 1 : Nat), w)
    else none
  | .activeKid => some (w.activeKid, w)

end World

/-- Why a request ended without an answer of its own: the error values that the source
propagates with `?`. -/
inductive Failure where
  | db (e : DbError)
  | redis (text : String)
  | redisUnavailable (text : String)
  | rateLimited (retryAfterSeconds : Nat)
  | other (text : String)
  deriving DecidableEq

open Concurrent

/-- A program over the server's commands. -/
abbrev Action := Prog Res

/-- A program that may end with a propagated error. -/
abbrev Handler := ExceptT Failure (Prog Res)

namespace Handler

variable {α : Type}

/-- Issue a command. -/
def perform (op : Op) : Handler (Res op) := ExceptT.lift (Prog.perform op)

/-- A SQL statement whose failure the caller inspects. -/
def trySql (s : Sql) : Handler (Except DbError s.Res) := perform (.sql s)

/-- A SQL statement whose failure is propagated. -/
def sql (s : Sql) : Handler s.Res := do
  match ← trySql s with
  | .ok x => pure x
  | .error e => throw (.db e)

/-- A Redis command whose failure the caller inspects. -/
def tryRedis (c : RedisCmd) : Handler (Except String c.Res) := perform (.redis c)

/-- A Redis command whose failure is propagated. -/
def redis (c : RedisCmd) : Handler c.Res := do
  match ← tryRedis c with
  | .ok x => pure x
  | .error e => throw (.redis e)

/-- Shorthands by kind of statement. -/
def query (q : Query) : Handler q.Res := sql (.query q)

def stmt (s : Stmt) : Handler s.Res := sql (.stmt s)

def tx (s : TxStmt) : Handler s.Res := sql (.tx s)

def now : Handler NaiveDateTime := perform .now

def newUuid : Handler Uuid := perform .newUuid

def urlSafe (byteLength : Nat) : Handler String := perform (.urlSafe byteLength)

/-- `let _ = f().await`: the outcome of the program is dropped. -/
def ignore (h : Handler α) : Handler Unit := ExceptT.mk (h.run >>= fun _ => pure (.ok ()))

/-- `f().await.is_ok()` and similar: the outcome of the program as a value. -/
def attempt (h : Handler α) : Handler (Except Failure α) := ExceptT.mk (h.run >>= fun x => pure (.ok x))

/-- How the scope of a transaction is left. -/
inductive TxEnd (α : Type) where
  | commit (a : α)
  | drop (a : α)

/-- A transaction that is dropped, by an early return or by a propagated error, is rolled
back. -/
def transaction (body : Handler (TxEnd α)) : Handler α := do
  tx .begin
  match ← attempt body with
  | .ok (.commit a) =>
    tx .commit
    return a
  | .ok (.drop a) =>
    let _ ← trySql (.tx .rollback)
    return a
  | .error e =>
    let _ ← trySql (.tx .rollback)
    throw e

end Handler

end AuthServer
