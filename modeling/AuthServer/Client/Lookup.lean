import AuthServer.Logic
import AuthServer.Replies

/-!
# Lookups of clients in a run

Clients are cached under their own id, so that a lookup finds the client it was asked
for, in the cache as well as in the table.
-/

namespace AuthServer

open Concurrent Handler Storage

/-- Each cached client has the id it is cached under. -/
def ClientsKeyed (w : World) : Prop :=
  ∀ clientId e, w.redis.clients.entry clientId = some e → e.value.clientId = clientId

/-- No request issues a command outside its footprint. -/
theorem footprint_unused (call : Call) : call.footprint.contains .unused = false := by
  cases call <;> rfl

/-- What a command of a footprint writes to the client cache is stored under its own id. -/
theorem clientId_of_writes {ks : List Kind} (hks : ks.contains .unused = false)
    {cmd : Kv String ClientSnapshot} (h : Within ks (.redis (.client cmd))) {snap : ClientSnapshot}
    (hw : cmd.writes = some snap) : snap.clientId = cmd.key := by
  cases cmd with
  | setex key v ttl =>
    obtain rfl := Option.some.inj hw
    by_cases hkey : v.clientId = key
    · exact hkey
    · simp only [Within, Op.kind, RedisCmd.kind, if_neg hkey] at h
      exact absurd (h.symm.trans hks) (by decide)
  | setnx key v ttl => exact absurd (h.symm.trans hks) (by decide)
  | _ => cases hw

section Runs

variable {env : Env} {R : Rules} {w₀ : World} {c : State} {tid : Nat}

theorem used_of_run (run : Run (server env) R (Config.start w₀) c) {t : Thread Res World Ret}
    {op : Op} {k : Res op → Action (Ret t.call)} (ht : c.threads[tid]? = some t)
    (hp : t.prog = .call op k) : op.kind ≠ .unused := by
  intro hkind
  have hwithin : Within t.call.footprint op :=
    (run.issues ht hp).uses (uses_program (handler_uses env t.call))
  rw [Within, hkind, footprint_unused] at hwithin
  cases hwithin

theorem clientsKeyed_of_run (hw : ClientsKeyed w₀) (run : Run (server env) R (Config.start w₀) c) :
    ClientsKeyed c.moment.world := by
  have huses : ∀ call, R.admits call → ((server env).program call).Uses fun op =>
      ∃ ks : List Kind, ks.contains .unused = false ∧ Within ks op := fun call _ =>
    Prog.Uses.mono (uses_program (handler_uses env call))
      fun op hop => ⟨call.footprint, footprint_unused call, hop⟩
  refine run.keeps (J := fun m => ClientsKeyed m.world) huses ?_ hw
  rintro m tid op ch r w hk ⟨ks, hks, hop⟩ - he clientId e hafter
  have hentry : w.redis.clients.entry clientId = some e := hafter
  rcases World.redis_exec (show World.exec env tid op ch m.world = some (r, w) from he) with
    hr | ⟨cmd, rfl, -, hr⟩
  · rw [hr] at hentry
    exact hk clientId e hentry
  · rw [hr] at hentry
    cases cmd with
    | client cmd =>
      rcases Kv.entry_exec hentry with hold | ⟨rfl, hwrites⟩
      · exact hk clientId e hold
      · exact clientId_of_writes hks hop hwrites
    | _ => exact hk clientId e hentry

/-- A client that has been found has the id it was looked up with. -/
theorem clientId_of_found (hw : ClientsKeyed w₀) (run : Run (server env) R (Config.start w₀) c)
    {clientId : String} {es : Replies} {client : Client} (h : ClientFound env clientId es client)
    (hes : ∀ e ∈ es, e ∈ c.moment.own tid) : client.clientId = clientId := by
  cases h with
  | cached snap =>
    obtain ⟨c₁, ch, run₁, -, -, hget⟩ := redis_reply run (hes _ (List.mem_singleton_self _))
    obtain ⟨e, he, -, rfl⟩ := Expiring.get_eq_some.mp hget.symm
    exact clientsKeyed_of_run hw run₁ clientId e he
  | stored miss row uris ttl filled hmiss =>
    obtain ⟨c₁, -, hfind⟩ := query_reply run (hes _ (.tail _ (.head _)))
    exact beq_iff_eq.mp (Table.mem_of_find? hfind.symm).2

end Runs

end AuthServer
