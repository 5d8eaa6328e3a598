import AuthServer.Concurrent.Sequential
import AuthServer.Crypto.KeyLife
import AuthServer.Crypto.TokenClaims

/-!
# Tokens across rotations, retirements and restarts

A token validates with exactly its claims until it expires or its key is retired, its key is
published all that time, and after the retirement it is refused.
-/

namespace AuthServer

open Storage Concurrent RsaKeyProvider KeyHandler SignedJwt KeyWorld

variable {L : RsaLib} {env : Env}

/-! ## Tokens at the points of a run -/

theorem KeyWorld.exec_now {w w' : KeyWorld L} {tid : Nat} {op : KeyOp L} {ch : KeyChoice L}
    {r : KeyRes L op} (h : exec tid op ch w = some (r, w')) : w'.now = w.now + ch.elapse := by
  cases op with
  | init =>
    simp only [exec] at h
    split at h
    · cases h
    · split at h
      · cases h
        rfl
      · cases h
        rfl
  | enter =>
    obtain ⟨_, -, heq⟩ := Option.map_eq_some_iff.mp h
    cases heq
    rfl
  | generateKeypair =>
    simp only [exec] at h
    split at h
    · cases h
    · obtain ⟨-, _, -, heq⟩ := inProcess_cases h
      cases heq
      rfl
  | newUuid =>
    simp only [exec] at h
    split at h
    · cases h
    · obtain ⟨-, _, -, heq⟩ := inProcess_cases h
      cases heq
      rfl
  | retire kid =>
    obtain ⟨-, _, -, heq⟩ := inProcess_cases h
    rcases retire_cases heq with ⟨-, rfl⟩ | ⟨-, -, -, rfl⟩ <;> rfl
  | _ =>
    obtain ⟨-, _, -, heq⟩ := inProcess_cases h
    cases heq
    rfl

section Runs

variable {R : Regime (KeyRes L) (KeyWorld L) (KeyChoice L) (KeyCall L)} {w₀ : KeyWorld L}
variable {c c' : KeyConfig L} {kid : String}

/-- The clock does not go back. -/
theorem now_le_of_run (run : Run (keyServer L env) R c c') :
    c.moment.world.now ≤ c'.moment.world.now := by
  refine run.invariant
    (J := fun c₁ : KeyConfig L => c.moment.world.now ≤ c₁.moment.world.now) ?_ ?_ le_rfl
  · exact fun _ _ _ _ h => h
  · intro c₁ tid t op k ch r w _ h _ _ _ hexec
    have hnow := exec_now hexec
    change c.moment.world.now ≤ w.now
    rw [hnow]
    exact Int.le_trans h (Int.le_add_of_nonneg_right (Int.natCast_nonneg _))

theorem numSeconds_le {s t : Int} (h : s ≤ t) : numSeconds s ≤ numSeconds t :=
  Int.tdiv_le_tdiv (by decide) h

/-- The lookup of a kid that names a key. -/
theorem KeyStore.decodingKeyByKid_some (store : KeyStore L) (hne : kid ≠ "") :
    store.decodingKeyByKid (some kid) = .ok ((store.byKid.get kid).map KeyPair.publicKey) := by
  have hfilter : (some kid).filter (fun k => k != "") = some kid := by simp [hne]
  unfold decodingKeyByKid
  rw [hfilter]

variable {pair : KeyPair L} {tid : Nat} {token : SignedJwt L} {c₁ : KeyConfig L}

theorem KeyStore.mem_allPublicKeys {store : KeyStore L} (h : store.byKid.get kid = some pair)
    : (kid, pair.publicKey) ∈ store.allPublicKeys := by
  have hmem : kid ∈ store.byKid.map Prod.fst := Fields.get_ne_none.mp (by rw [h]; nofun)
  refine List.mem_filterMap.mpr ⟨kid, (List.mem_insertionSort _).mpr hmem, ?_⟩
  rw [h]
  rfl

/-- A signed token has been signed with a key that was held then. -/
theorem holds_of_minted (hw : w₀.Initial) (hd : w₀.dir.Matching L)
    (hpub : ∀ kid, w₀.dir.get (.publicPem kid) ≠ none → kid ∈ w₀.issued)
    (run : Run (keyServer L env) R (.start w₀) c) {call : KeyCall L} {a : call.Answer}
    (ha : c.answered tid call (.ok a)) (hm : call.minted a = some token) (hx : call.PlainExtras) :
    ∃ kid key exp c₁, SignedWith env token kid key exp ∧ kid ≠ "" ∧
      Run (keyServer L env) R (.start w₀) c₁ ∧ Holds c₁.moment kid ⟨key, L.publicOf key⟩ ∧
      Run (keyServer L env) R c₁ c := by
  have hret := (run.replayed (Config.start_replayed w₀)).returns ha
  obtain ⟨kid, key, exp, hsigned, hmem⟩ := signedWith_of_minted hret hm hx
  obtain ⟨c₁, t, k, ch, w, run₁, ht, hp, hallow, hexec, later⟩ := run.executed_own hmem
  obtain ⟨-, store, hs, heq⟩ := inProcess_cases hexec
  obtain ⟨hkey, -⟩ := Prod.mk.inj heq
  obtain ⟨pair, hpair, hkid, hpriv⟩ : ∃ pair, store.byKid.get store.activeKid = some pair ∧
      store.activeKid = kid ∧ pair.privateKey = key := by
    unfold KeyStore.activeEncodingKey at hkey
    split at hkey
    · cases hkey
    · next pair hpair =>
      obtain ⟨hkid, hpriv⟩ := Prod.mk.inj (Except.ok.inj hkey)
      exact ⟨pair, hpair, hkid, hpriv⟩
  subst hkid
  have hk := keyInv_of_run hw run₁
  have hdisk := ((hk.running store hs).kids _).onDisk pair hpair
  obtain ⟨hmatch, hne⟩ := (matched_of_run hw hd hpub run₁).matching.pairs _ pair hdisk
  have hwhole : pair = ⟨key, L.publicOf key⟩ := by
    obtain ⟨priv, pub⟩ := pair
    subst hpriv
    exact congrArg (KeyPair.mk priv) hmatch
  subst hwhole
  refine ⟨_, key, exp, c₁, hsigned, hne, run₁, ⟨hdisk, fun store' hs' => ?_⟩,
    (Run.step (.refl c₁) ht hp hallow hexec).trans later⟩
  cases hs.symm.trans hs'
  exact hpair

/-- What a call that arrived later has been told came from a store that still held the key. -/
theorem held_since (hw : w₀.Initial) (run₁ : Run (keyServer L env) R (.start w₀) c₁)
    (hh : Holds c₁.moment kid pair) (run₂ : Run (keyServer L env) R c₁ c)
    (run₃ : Run (keyServer L env) R c c') (hretire : ¬ Retired c'.moment kid)
    (htid : c.threads.length ≤ tid) {op : KeyOp L} {r : KeyRes L op}
    (hmem : (⟨op, r⟩ : Reply (KeyRes L)) ∈ c'.moment.own tid) :
    ∃ (c₂ : KeyConfig L) (ch : KeyChoice L) (w : KeyWorld L), Holds c₂.moment kid pair ∧
      exec tid op ch c₂.moment.world = some (r, w) ∧ w.now ≤ c'.moment.world.now := by
  have hn := (run₁.trans run₂).numbered (Config.start_numbered w₀)
  obtain ⟨c₂, t, k, ch, w, run₄, ht, hp, hallow, hexec, run₅⟩ := run₃.executed_since hn htid hmem
  have hbefore : ¬ Retired c₂.moment kid :=
    fun h => hretire ((h.mono (Run.step (.refl _) ht hp hallow hexec)).mono run₅)
  exact ⟨c₂, ch, w, holds_of_run hw run₁ hh (run₂.trans run₄) hbefore, hexec, now_le_of_run run₅⟩

/-- A token that has not expired, signed with a key that is held until now, validates. -/
theorem accepted_of_holds (hw : w₀.Initial) {key : L.Private} {exp : Int}
    (hsigned : SignedWith env token kid key exp) (hne : kid ≠ "")
    (run₁ : Run (keyServer L env) R (.start w₀) c₁) (hh : Holds c₁.moment kid ⟨key, L.publicOf key⟩)
    (run₂ : Run (keyServer L env) R c₁ c) (run₃ : Run (keyServer L env) R c c')
    (hretire : ¬ Retired c'.moment kid) (hexp : numSeconds c'.moment.world.now < exp)
    (htid : c.threads.length ≤ tid) {y : Except String (Option JsonMap)}
    (ha : c'.answered tid (.validate token) y) :
    y = .ok (some token.claims) := by
  have hret := (((run₁.trans run₂).trans run₃).replayed (Config.start_replayed w₀)).returns ha
  obtain ⟨_, es, hown, hbody⟩ := returns_keyStep hret
  rcases returns_validateInternal hbody with ⟨halg, -⟩ | ⟨r, hr, hcases⟩
  · exact absurd hsigned.alg halg
  have hfound : r = .ok (some (L.publicOf key)) := by
    obtain ⟨c₂, ch, w, hh₂, hexec, -⟩ :=
      held_since hw run₁ hh run₂ run₃ hretire htid (hown ▸ List.mem_cons_of_mem _ hr)
    obtain ⟨-, store, hs, heq⟩ := inProcess_cases hexec
    obtain ⟨hr', -⟩ := Prod.mk.inj heq
    rw [← hr', hsigned.kid, store.decodingKeyByKid_some hne, hh₂.memory store hs]
    rfl
  subst hfound
  rcases hcases with ⟨e, he⟩ | ⟨hnone, -⟩ | ⟨key', t, hkey, ht, rfl⟩
  · cases he
  · cases Except.ok.inj hnone
  · cases Except.ok.inj hkey
    have hread : t ≤ c'.moment.world.now := by
      obtain ⟨c₂, ch, w, -, hexec, hle⟩ :=
        held_since hw run₁ hh run₂ run₃ hretire htid (hown ▸ List.mem_cons_of_mem _ ht)
      obtain ⟨-, _, -, heq⟩ := inProcess_cases hexec
      cases heq
      exact hle
    have haccept : (validationOf env false).accepts (numSeconds t) token.claims = true :=
      hsigned.claims.accepts rfl rfl (show (0 : Int) ≤ 60 by decide)
        (lt_of_le_of_lt (numSeconds_le hread) hexp)
    have hsig : token.signature.map L.publicOf = some (L.publicOf key) := by
      rw [hsigned.signature]
      rfl
    unfold SignedJwt.decode
    rw [if_pos ⟨hsig, haccept⟩]

/-- A key that is held until now is published. -/
theorem published_of_holds (hw : w₀.Initial) (run₁ : Run (keyServer L env) R (.start w₀) c₁)
    (hh : Holds c₁.moment kid pair) (run₂ : Run (keyServer L env) R c₁ c)
    (run₃ : Run (keyServer L env) R c c') (hretire : ¬ Retired c'.moment kid)
    (htid : c.threads.length ≤ tid) {y : Except String (List (String × L.Public))}
    (ha : c'.answered tid .jwks y) :
    ∃ published, y = .ok published ∧ (kid, pair.publicKey) ∈ published := by
  have hret := (((run₁.trans run₂).trans run₃).replayed (Config.start_replayed w₀)).returns ha
  obtain ⟨_, es, hown, hbody⟩ := returns_keyStep hret
  obtain ⟨entries, es', rfl, hloop⟩ := returns_keyStep hbody
  obtain ⟨published, rfl, hall⟩ := returns_jwksEntries hloop
  obtain ⟨found, hfound, hmem⟩ := hall (kid, pair.publicKey) (by
    obtain ⟨c₂, ch, w, hh₂, hexec, -⟩ := held_since hw run₁ hh run₂ run₃ hretire htid
      (hown ▸ List.mem_cons_of_mem _ List.mem_cons_self)
    obtain ⟨-, store, hs, heq⟩ := inProcess_cases hexec
    cases heq
    exact KeyStore.mem_allPublicKeys (hh₂.memory store hs))
  refine ⟨published, rfl, hmem _ ?_⟩
  obtain ⟨c₂, ch, w, hh₂, hexec, -⟩ := held_since hw run₁ hh run₂ run₃ hretire htid
    (hown ▸ List.mem_cons_of_mem _ (List.mem_cons_of_mem _ hfound))
  obtain ⟨-, store, hs, heq⟩ := inProcess_cases hexec
  cases heq
  rw [hh₂.memory store hs]
  rfl

/-- A retirement that succeeded is in the history. -/
theorem retired_of_answered (run : Run (keyServer L env) R (.start w₀) c)
    (ha : c.answered tid (.retire kid) (.ok (.ok true : Except String Bool))) :
    kid ≠ "" ∧ Retired c.moment kid := by
  have hret := (run.replayed (Config.start_replayed w₀)).returns ha
  obtain ⟨_, es, hown, hbody⟩ := returns_keyStep hret
  unfold RsaKeyProvider.retire at hbody
  split at hbody
  · obtain ⟨-, hb⟩ := hbody.ret
    cases hb
  · next hne =>
    obtain ⟨r, hr, rfl⟩ := returns_keyPerform hbody
    cases hr
    have hmem : (⟨.retire kid, (.ok true : Except String Bool)⟩ : Reply (KeyRes L)) ∈
        c.moment.own tid := by
      rw [hown]
      exact List.mem_cons_of_mem _ (List.mem_singleton_self _)
    obtain ⟨e, he, rfl, hreply⟩ := Moment.mem_own.mp hmem
    obtain ⟨i, op, r⟩ := e
    cases hreply
    exact ⟨hne, i, he⟩

/-- No token of a retired kid validates, expired or not. -/
theorem refused_of_retired (hw : w₀.Initial) (run : Run (keyServer L env) R (.start w₀) c)
    (hne : kid ≠ "") (hretired : Retired c.moment kid) (later : Run (keyServer L env) R c c') (htid : c.threads.length ≤ tid) (hkid : token.kid = some kid)
    {allowExpired : Bool} {y : Except String (Option JsonMap)}
    (h : ∃ e es, c'.moment.own tid = e :: es ∧
      Returns (SignedJwt.JwtValidator.validateInternal env token none allowExpired).run es y) :
    y = .ok none := by
  have hn := run.numbered (Config.start_numbered w₀)
  obtain ⟨e, es, hown, hbody⟩ := h
  rcases returns_validateInternal hbody with ⟨-, hy⟩ | ⟨r, hr, hcases⟩
  · exact hy
  have hlost : r = .ok none := by
    have hmem := hown ▸ List.mem_cons_of_mem _ hr
    obtain ⟨c₂, t, k, ch, w, run₂, -, -, -, hexec, -⟩ := later.executed_since hn htid hmem
    obtain ⟨-, store, hs, heq⟩ := inProcess_cases hexec
    obtain ⟨hr', -⟩ := Prod.mk.inj heq
    have hgone := (gone_of_run hw run hretired run₂).memory store hs
    rw [← hr', hkid, store.decodingKeyByKid_some hne, hgone]
    rfl
  subst hlost
  rcases hcases with ⟨e, he⟩ | ⟨-, hy⟩ | ⟨key, t, hkey, -⟩
  · cases he
  · exact hy
  · cases Except.ok.inj hkey

end Runs

/-! ## Reading calls are answered -/

/-- The commands that only read the store and the clock. -/
def KeyOp.Reads : KeyOp L → Prop
  | .decodingKeyByKid _ | .allPublicKeys | .publicKey _ | .now => True
  | _ => False

/-- A moment of the process that runs at `m₀`, at the same time and with the same retirements. -/
structure Serving (m₀ : KeyMoment L) (tid : Nat) (m : KeyMoment L) : Prop where
  live : tid ∈ m.world.live
  provider : m.world.provider = m₀.world.provider
  now : m.world.now = m₀.world.now
  retired : ∀ kid, Retired m kid → Retired m₀ kid

section Reading

variable {R : Regime (KeyRes L) (KeyWorld L) (KeyChoice L) (KeyCall L)}
variable {m₀ : KeyMoment L} {tid : Nat} {store : KeyStore L} {α β : Type}

theorem KeyOp.Reads.exec {op : KeyOp L} (h : op.Reads) {w : KeyWorld L} (hlive : tid ∈ w.live)
    (hs : w.provider = some store) (key : L.Private) :
    ∃ r, KeyWorld.exec tid op ⟨key, 0, 0⟩ w = some (r, w) := by
  have hin : ∀ {γ : Type} (f : KeyStore L → γ), w.inProcess tid f = some (f store) := by
    intro γ f
    unfold KeyWorld.inProcess
    rw [if_pos (by simpa using hlive), hs]
    rfl
  have hsame : { w with now := w.now + ((0 : Nat) : Int) } = w := by
    obtain ⟨dir, provider, live, issued, now, uuids⟩ := w
    exact congrArg (fun t => KeyWorld.mk dir provider live issued t uuids) (Int.add_zero now)
  cases op with
  | decodingKeyByKid kid =>
    refine ⟨store.decodingKeyByKid kid, ?_⟩
    simp only [KeyWorld.exec]
    rw [hsame]
    exact hin _
  | allPublicKeys =>
    refine ⟨store.allPublicKeys, ?_⟩
    simp only [KeyWorld.exec]
    rw [hsame]
    exact hin _
  | publicKey kid =>
    refine ⟨(store.byKid.get kid).map KeyPair.publicKey, ?_⟩
    simp only [KeyWorld.exec]
    rw [hsame]
    exact hin _
  | now =>
    refine ⟨w.now + ((0 : Nat) : Int), ?_⟩
    simp only [KeyWorld.exec]
    rw [hsame]
    exact hin _
  | _ => exact absurd h id

variable {m : KeyMoment L}

theorem Serving.after {op : KeyOp L} {r : KeyRes L op} {w : KeyWorld L} (h : Serving m₀ tid m)
    (hop : ∀ kid, op ≠ .retire kid) (hlive : tid ∈ w.live) (hprov : w.provider = m.world.provider)
    (hnow : w.now = m.world.now) :
    Serving m₀ tid (m.after tid op r w) := by
  refine ⟨hlive, hprov.trans h.provider, hnow.trans h.now, ?_⟩
  rintro kid ⟨i, he⟩
  rcases List.mem_cons.mp he with heq | he
  · cases heq
    exact absurd rfl (hop kid)
  · exact h.retired kid ⟨i, he⟩

/-- From every moment at which the process serves, the rest of a call runs to its end. -/
abbrev Finishes (env : Env) (m₀ : KeyMoment L) (tid : Nat) (p : Prog (KeyRes L) α) : Prop :=
  Progresses (keyServer L env) {} tid (Serving m₀ tid) p (Serving m₀ tid)

theorem finishes_reads (op : KeyOp L) (hop : op.Reads) {f : KeyRes L op → KeyHandler L β}
    (key : L.Private) (hs : m₀.world.provider = some store)
    (hf : ∀ r, Finishes env m₀ tid (f r).run) : Finishes env m₀ tid (perform op >>= f).run := by
  refine Progresses.call (fun m hm => ?_) hf
  obtain ⟨r, hr⟩ := hop.exec hm.live (hm.provider.trans hs) key
  refine ⟨⟨key, 0, 0⟩, r, m.world, trivial, hr, hm.after ?_ hm.live rfl rfl⟩
  rintro kid rfl
  exact hop

theorem finishes_validate (token : SignedJwt L) (allowExpired : Bool) (key : L.Private)
    (hs : m₀.world.provider = some store) :
    Finishes env m₀ tid
      (SignedJwt.JwtValidator.validateInternal env token none allowExpired).run := by
  unfold SignedJwt.JwtValidator.validateInternal
  split
  · exact Progresses.pure _ fun _ h => h
  · refine Progresses.bindE ?_ ?_ fun _ h => h
    · refine finishes_reads (.decodingKeyByKid token.kid) trivial key hs fun r => ?_
      cases r with
      | ok found => exact Progresses.pure _ fun _ h => h
      | error e => exact Progresses.pure _ fun _ h => h
    · intro found
      cases found with
      | none => exact Progresses.pure _ fun _ h => h
      | some pub =>
        exact finishes_reads .now trivial key hs fun t => Progresses.pure _ fun _ h => h

theorem finishes_jwks (key : L.Private) (hs : m₀.world.provider = some store) :
    Finishes env m₀ tid (SignedJwt.jwks (L := L)).run := by
  have hloop : ∀ entries : List (String × L.Public),
      Finishes env m₀ tid (jwksEntries entries).run := by
    intro entries
    induction entries with
    | nil => exact Progresses.pure _ fun _ h => h
    | cons entry rest ih =>
      refine finishes_reads (.publicKey entry.1) trivial key hs fun found => ?_
      exact Progresses.bindE ih (fun _ => Progresses.pure _ fun _ h => h) fun _ h => h
  exact finishes_reads .allPublicKeys trivial key hs hloop

/-- The calls that only read. -/
def KeyCall.Reading : KeyCall L → Prop
  | .validate _ | .validateAllowExpired _ | .jwks => True
  | _ => False

theorem finishes_entered {body : KeyHandler L α} (key : L.Private)
    (hs : m.world.provider = some store) (h : Finishes env m tid body.run) :
    ∃ y m', Alone (keyServer L env) {} tid (perform .enter >>= fun _ => body).run m y m' ∧
      Serving m tid m' := by
  let w : KeyWorld L :=
    { m.world with now := m.world.now + ((0 : Nat) : Int), live := tid :: m.world.live }
  have hexec : exec tid .enter ⟨key, 0, 0⟩ m.world = some ((), w) :=
    Option.map_eq_some_iff.mpr ⟨store, hs, rfl⟩
  have hserving : Serving m tid (m.after tid .enter () w) := by
    refine ⟨List.mem_cons_self, rfl, Int.add_zero _, ?_⟩
    rintro kid ⟨i, he⟩
    rcases List.mem_cons.mp he with heq | he
    · cases heq
    · exact ⟨i, he⟩
  obtain ⟨y, m', hrun, hm'⟩ := h _ hserving
  exact ⟨y, m', .call trivial hexec hrun, hm'⟩

theorem finishes_reading {call : KeyCall L} (hcall : call.Reading) (key : L.Private)
    (hs : m.world.provider = some store) :
    ∃ y m', Alone (keyServer L env) {} tid ((keyServer L env).program call) m y m' ∧
      Serving m tid m' := by
  cases call with
  | validate token => exact finishes_entered key hs (finishes_validate token false key hs)
  | validateAllowExpired token => exact finishes_entered key hs (finishes_validate token true key hs)
  | jwks => exact finishes_entered key hs (finishes_jwks key hs)
  | _ => exact absurd hcall id

end Reading

/-! ## The life of a token -/

/-- A world before the first start, whose directory holds matching pairs. -/
structure KeyWorld.Sound (w : KeyWorld L) : Prop where
  initial : w.Initial
  matching : w.dir.Matching L
  publics : ∀ kid, w.dir.get (.publicPem kid) ≠ none → kid ∈ w.issued

/-- A token that a signing call has returned. -/
def Minted (c : KeyConfig L) (token : SignedJwt L) : Prop :=
  ∃ (tid : Nat) (call : KeyCall L) (a : call.Answer), c.answered tid call (.ok a) ∧
    call.minted a = some token ∧ call.PlainExtras

/-- Tokens over every run of signing, rotations, retirements, restarts and the calls that use the
keys. -/
structure TokensLive (L : RsaLib) (env : Env) : Prop where
  /-- The claims that the issuer asks to be signed are within the runs. -/
  issued : ∀ (user : User) (client : Client) (session : UserSession) (roles scopes : List String)
    (scope : Option String) (request : ClaimsRequest),
    PlainExtra (TokenIssuer.buildAccessTokenClaims env user client session roles scope request) ∧
      PlainExtra (TokenIssuer.buildIdTokenClaims env user session scopes request) ∧
      PlainExtra [("scope", .str (scope.getD "")), ("client_id", .str client.clientId)]
  /-- A minted token names a kid, has an expiry, and was signed with one key. -/
  signed : ∀ (w₀ : KeyWorld L) (c : KeyConfig L), w₀.Sound →
    Run (keyServer L env) {} (.start w₀) c → ∀ token, Minted c token →
    ∃ kid key exp, SignedWith env token kid key exp
  /-- It validates, with its claims, until it expires or its kid is retired. -/
  accepted : ∀ (w₀ : KeyWorld L) (c c' : KeyConfig L), w₀.Sound →
    Run (keyServer L env) {} (.start w₀) c → Run (keyServer L env) {} c c' →
    ∀ token kid key exp, Minted c token → SignedWith env token kid key exp →
    ¬ Retired c'.moment kid → numSeconds c'.moment.world.now < exp →
    ∀ tid y, c.threads.length ≤ tid → c'.answered tid (.validate token) y →
      y = .ok (some token.claims : Option JsonMap)
  /-- Its key is published until the kid is retired. -/
  published : ∀ (w₀ : KeyWorld L) (c c' : KeyConfig L), w₀.Sound →
    Run (keyServer L env) {} (.start w₀) c → Run (keyServer L env) {} c c' →
    ∀ token kid key exp, Minted c token → SignedWith env token kid key exp →
    ¬ Retired c'.moment kid →
    ∀ tid y, c.threads.length ≤ tid → c'.answered tid .jwks y →
      ∃ entries : List (String × L.Public), y = .ok entries ∧ (kid, L.publicOf key) ∈ entries
  /-- Once a retirement of its kid has returned, no validation accepts it. -/
  refused : ∀ (w₀ : KeyWorld L) (c c' : KeyConfig L), w₀.Sound →
    Run (keyServer L env) {} (.start w₀) c → Run (keyServer L env) {} c c' →
    ∀ (kid : String) (i : Nat), c.answered i (.retire kid) (.ok (.ok true : Except String Bool)) →
    ∀ (token : SignedJwt L), token.kid = some kid → ∀ tid y, c.threads.length ≤ tid →
      c'.answered tid (.validate token) y ∨ c'.answered tid (.validateAllowExpired token) y →
      y = .ok (none : Option JsonMap)
  /-- While a process runs, a validation or a request for the keys that arrives can be answered at
  once, before time passes and before any kid is retired. -/
  answers : ∀ (w₀ : KeyWorld L) (c : KeyConfig L), w₀.Sound →
    Run (keyServer L env) {} (.start w₀) c → c.moment.world.provider ≠ none →
    ∀ call : KeyCall L, call.Reading → ∃ c' y, Run (keyServer L env) {} c c' ∧
      c'.answered c.threads.length call y ∧ c'.moment.world.now = c.moment.world.now ∧
      ∀ kid, Retired c'.moment kid → Retired c.moment kid

theorem SignedWith.unique {token : SignedJwt L} {kid kid' : String} {key key' : L.Private}
    {exp exp' : Int} (h : SignedWith env token kid key exp)
    (h' : SignedWith env token kid' key' exp') : kid' = kid ∧ key' = key ∧ exp' = exp := by
  refine ⟨Option.some.inj (h'.kid.symm.trans h.kid),
    Option.some.inj (h'.signature.symm.trans h.signature), ?_⟩
  exact Json.num.inj (Option.some.inj (h'.claims.exp.symm.trans h.claims.exp))

theorem tokens_live (L : RsaLib) (env : Env) : TokensLive L env where
  issued user client session roles scopes scope request :=
    ⟨plainExtra_access user client session roles scope request,
      plainExtra_id user session scopes request, plainExtra_client client scope⟩
  signed w₀ c hw run token hm := by
    obtain ⟨tid, call, a, ha, hmint, hx⟩ := hm
    obtain ⟨kid, key, exp, -, hsigned, -⟩ :=
      holds_of_minted hw.initial hw.matching hw.publics run ha hmint hx
    exact ⟨kid, key, exp, hsigned⟩
  accepted w₀ c c' hw run later token kid key exp hm hsigned hretire hexp tid y htid ha := by
    obtain ⟨i, call, a, hcall, hmint, hx⟩ := hm
    obtain ⟨kid, key, exp, c₁, hsigned₁, hne, run₁, hh, run₂⟩ :=
      holds_of_minted hw.initial hw.matching hw.publics run hcall hmint hx
    obtain ⟨rfl, rfl, rfl⟩ := hsigned₁.unique hsigned
    exact accepted_of_holds hw.initial hsigned hne run₁ hh run₂ later hretire hexp htid ha
  published w₀ c c' hw run later token kid key exp hm hsigned hretire tid y htid ha := by
    obtain ⟨i, call, a, hcall, hmint, hx⟩ := hm
    obtain ⟨kid, key, exp, c₁, hsigned₁, hne, run₁, hh, run₂⟩ :=
      holds_of_minted hw.initial hw.matching hw.publics run hcall hmint hx
    obtain ⟨rfl, rfl, rfl⟩ := hsigned₁.unique hsigned
    exact published_of_holds hw.initial run₁ hh run₂ later hretire htid ha
  refused w₀ c c' hw run later kid i hretire token hkid tid y htid ha := by
    obtain ⟨hne, hretired⟩ := retired_of_answered run hretire
    have hreplayed := (run.trans later).replayed (Config.start_replayed w₀)
    rcases ha with ha | ha
    · obtain ⟨_, es, hown, hbody⟩ := returns_keyStep (hreplayed.returns ha)
      exact refused_of_retired hw.initial run hne hretired later htid hkid ⟨_, es, hown, hbody⟩
    · obtain ⟨_, es, hown, hbody⟩ := returns_keyStep (hreplayed.returns ha)
      exact refused_of_retired hw.initial run hne hretired later htid hkid ⟨_, es, hown, hbody⟩
  answers w₀ c hw run hrunning call hcall := by
    obtain ⟨store, hs⟩ := Option.ne_none_iff_exists'.mp hrunning
    obtain ⟨pair, -⟩ := Option.ne_none_iff_exists'.mp
      ((keyInv_of_run hw.initial run).running store hs).active
    obtain ⟨y, m', halone, hserving⟩ :
        ∃ y m', Alone (keyServer L env) {} c.threads.length ((keyServer L env).program call) c.moment
          y m' ∧ Serving c.moment c.threads.length m' :=
      finishes_reading hcall pair.privateKey hs
    obtain ⟨c', later, rfl, ha⟩ := halone.run (c := c.spawn (keyServer L env) call) rfl
      List.getElem?_concat_length
    exact ⟨c', y, (Run.spawn (.refl c) trivial).trans later, ha, hserving.now, hserving.retired⟩

end AuthServer
