import AuthServer.Common.Environment
import AuthServer.Concurrent.Interleaving
import Mathlib.Data.List.Sort

/-!
# The RSA key provider

The keys that sign tokens: in memory under a lock, and as files of a directory from which a
restart loads them again. Loading, rotation and retirement follow the source; a call runs in the
process that is up when it enters, and a restart ends all calls of the process before it.

## Implementation notes

A file name is one of the shapes the provider distinguishes, so that stripping a suffix is a
match. A write to a temporary file with a rename is one step, and so is each section under the
lock. The directory never fails. `init` runs before the process takes calls, so it is one step.
-/

namespace AuthServer

open Storage Concurrent

/-- The RSA keys and encodings that the server takes from libraries. `fingerprint` is the
base64url text of the SHA-256 of the public key. -/
structure RsaLib where
  Private : Type
  Public : Type
  decEqPublic : DecidableEq Public
  publicOf : Private → Public
  privatePem : Private → String
  parsePrivate : String → Option Private
  publicPem : Public → String
  parsePublic : String → Option Public
  fingerprint : Public → List Char
  parsePrivate_pem : ∀ k, parsePrivate (privatePem k) = some k
  parsePublic_pem : ∀ k, parsePublic (publicPem k) = some k
  fingerprint_length : ∀ k, (fingerprint k).length = 43
  fingerprint_blank : ∀ k, ∀ c ∈ fingerprint k, Text.isWhitespace c = false

instance (L : RsaLib) : DecidableEq L.Public := L.decEqPublic

/-- `compute_kid`. -/
def RsaLib.computeKid (L : RsaLib) (k : L.Public) : String := String.ofList ((L.fingerprint k).take 16)

/-- The kid of a generated key. -/
def RsaLib.kidOf (L : RsaLib) (k : L.Private) : String := L.computeKid (L.publicOf k)

/-- The files of the key directory. -/
inductive KeyFile where
  | privatePem (kid : String)
  | publicPem (kid : String)
  | activeKid
  | legacyPrivate
  | legacyPublic
  | other (name : String)
  deriving DecidableEq

/-- The key directory: names and contents. -/
abbrev Directory := Fields KeyFile String

/-- `KeyPair`, without the encodings that are functions of the two keys. -/
structure KeyPair (L : RsaLib) where
  privateKey : L.Private
  publicKey : L.Public

/-- `Store`. -/
structure KeyStore (L : RsaLib) where
  byKid : Fields String (KeyPair L)
  activeKid : String

namespace RsaKeyProvider

variable {L : RsaLib}

/-- Parse the two files of a pair; the errors name the file. -/
def parsePair (what whatPublic priv pub : String) : Except String (KeyPair L) :=
  match L.parsePrivate priv, L.parsePublic pub with
  | none, _ => .error ("parse " ++ what)
  | some _, none => .error ("parse " ++ whatPublic)
  | some privateKey, some publicKey => .ok ⟨privateKey, publicKey⟩

/-- The pair of a kid on disk, if both of its files are there. -/
def pairAt (dir : Directory) (kid : String) : Option (Except String (KeyPair L)) :=
  match dir.get (.privatePem kid), dir.get (.publicPem kid) with
  | some priv, some pub =>
    some (parsePair (kid ++ ".private.pem") (kid ++ ".public.pem") priv pub)
  | _, _ => none

/-- One directory entry of `load_existing_keys`. -/
def loadEntry (dir : Directory) (into : Fields String (KeyPair L)) :
    KeyFile → Except String (Fields String (KeyPair L))
  | .privatePem kid =>
    match pairAt dir kid with
    | none => .ok into
    | some (.error e) => .error e
    | some (.ok pair) => .ok (into.set kid pair)
  | _ => .ok into

def loadExistingKeys (dir : Directory) : Except String (Fields String (KeyPair L)) :=
  dir.foldlM (fun into entry => loadEntry dir into entry.1) []

def writeKeyFiles (dir : Directory) (kid : String) (pair : KeyPair L) : Directory :=
  (dir.set (.privatePem kid) (L.privatePem pair.privateKey)).set (.publicPem kid)
    (L.publicPem pair.publicKey)

/-- The marker file names a key that has been loaded. -/
def storedActive (byKid : Fields String (KeyPair L)) (dir : Directory) : Option String :=
  match dir.get .activeKid with
  | none => none
  | some text =>
    let stored := Text.trim text
    if (byKid.get stored).isSome then some stored else none

/-- The pair of very early runs moves to the naming by kid. -/
def migrateLegacy (byKid : Fields String (KeyPair L)) (dir : Directory) :
    Except String (Fields String (KeyPair L) × Directory) :=
  match byKid.isEmpty, dir.get .legacyPrivate, dir.get .legacyPublic with
  | true, some priv, some pub =>
    match parsePair "legacy private.pem" "legacy public.pem" priv pub with
    | .error e => .error e
    | .ok pair =>
      let kid := L.computeKid pair.publicKey
      .ok (byKid.set kid pair,
        ((writeKeyFiles dir kid pair).erase .legacyPrivate).erase .legacyPublic)
  | _, _, _ => .ok (byKid, dir)

/-- A first key for an empty directory. -/
def generateInitial (fresh : L.Private) (byKid : Fields String (KeyPair L)) (dir : Directory) :
    Fields String (KeyPair L) × Directory :=
  if byKid.isEmpty then
    let pair : KeyPair L := ⟨fresh, L.publicOf fresh⟩
    (byKid.set (L.kidOf fresh) pair, writeKeyFiles dir (L.kidOf fresh) pair)
  else (byKid, dir)

/-- The keys of the map in its order. -/
def sortedKids (byKid : Fields String (KeyPair L)) : List String :=
  (byKid.map Prod.fst).insertionSort fun a b => a ≤ b

/-- `RsaKeyProvider::init` on a directory; `fresh` is the key that is generated if one is. -/
def init (dir : Directory) (fresh : L.Private) : Except String (KeyStore L × Directory) :=
  match loadExistingKeys dir with
  | .error e => .error e
  | .ok byKid =>
    match storedActive byKid dir with
    | some active => .ok (⟨byKid, active⟩, dir)
    | none =>
      match migrateLegacy byKid dir with
      | .error e => .error e
      | .ok (byKid, dir) =>
        let (byKid, dir) := generateInitial fresh byKid dir
        match (sortedKids byKid).head? with
        | none => .error "key set unexpectedly empty"
        | some first => .ok (⟨byKid, first⟩, dir.set .activeKid first)

end RsaKeyProvider

/-- The process and the directory: the store of the running provider, the calls that run in its
process, and the kids that have been given to a key. -/
structure KeyWorld (L : RsaLib) where
  dir : Directory
  provider : Option (KeyStore L) := none
  live : List Nat := []
  issued : List String := []
  now : NaiveDateTime := 0
  uuids : List Uuid := []

/-- The steps of the calls: the sections under the lock, file writes, key generation, the clock
and random ids. -/
inductive KeyOp (L : RsaLib) where
  | init
  | enter
  | generateKeypair
  | writeFile (file : KeyFile) (content : String)
  | install (kid : String) (pair : KeyPair L)
  | retire (kid : String)
  | activeEncodingKey
  | decodingKeyByKid (kid : Option String)
  | allPublicKeys
  | publicKey (kid : String)
  | keyId
  | now
  | newUuid

/-- The reply of a step. The lookups of the active key end in a panic when it is not loaded. -/
def KeyRes (L : RsaLib) : KeyOp L → Type
  | .init => Except String Unit
  | .enter | .writeFile _ _ | .install _ _ => Unit
  | .generateKeypair => L.Private
  | .retire _ => Except String Bool
  | .activeEncodingKey => Except String (String × L.Private)
  | .decodingKeyByKid _ => Except String (Option L.Public)
  | .allPublicKeys => List (String × L.Public)
  | .publicKey _ => Option L.Public
  | .keyId => String
  | .now => NaiveDateTime
  | .newUuid => Uuid

/-- What the environment decides at a step. -/
structure KeyChoice (L : RsaLib) where
  key : L.Private
  elapse : Nat := 0
  uuid : Uuid := 0

namespace KeyStore

variable {L : RsaLib}

/-- `active_encoding_key`. -/
def activeEncodingKey (store : KeyStore L) : Except String (String × L.Private) :=
  match store.byKid.get store.activeKid with
  | none => .error "active kid must point at a loaded pair"
  | some pair => .ok (store.activeKid, pair.privateKey)

/-- `decoding_key_by_kid`. -/
def decodingKeyByKid (store : KeyStore L) (kid : Option String) : Except String (Option L.Public) :=
  match kid.filter fun k => k != "" with
  | some k => .ok ((store.byKid.get k).map KeyPair.publicKey)
  | none =>
    match store.byKid.get store.activeKid with
    | none => .error "active kid must be loaded"
    | some pair => .ok (some pair.publicKey)

/-- `all_public_keys`, in the order of the kids. -/
def allPublicKeys (store : KeyStore L) : List (String × L.Public) :=
  (RsaKeyProvider.sortedKids store.byKid).filterMap fun kid =>
    (store.byKid.get kid).map fun pair => (kid, pair.publicKey)

/-- The store after the section of `rotate`. -/
def install (store : KeyStore L) (kid : String) (pair : KeyPair L) : KeyStore L :=
  ⟨store.byKid.set kid pair, kid⟩

end KeyStore

namespace KeyWorld

variable {L : RsaLib}

/-- The section of `retire` under the lock. -/
def retire (w : KeyWorld L) (store : KeyStore L) (kid : String) : Except String Bool × KeyWorld L :=
  if kid = store.activeKid then (.error "Cannot retire the active key — rotate first", w)
  else if (store.byKid.get kid).isNone then (.ok false, w)
  else
    (.ok true, { w with
      provider := some { store with byKid := store.byKid.erase kid }
      dir := (w.dir.erase (.privatePem kid)).erase (.publicPem kid) })

/-- A step of a call of the running process. -/
def inProcess {α : Type} (w : KeyWorld L) (tid : Nat) (f : KeyStore L → α) : Option α :=
  if w.live.contains tid then w.provider.map f else none

/-- Execute a step. A generated key has a kid that no key has had before. -/
def exec (tid : Nat) (op : KeyOp L) (ch : KeyChoice L) (w₀ : KeyWorld L) :
    Option (KeyRes L op × KeyWorld L) :=
  let w := { w₀ with now := w₀.now + ch.elapse }
  match op with
  | .init =>
    if w.issued.contains (L.kidOf ch.key) then none
    else match RsaKeyProvider.init w.dir ch.key with
      | .error e => some (.error e, { w with provider := none, live := [] })
      | .ok (store, dir) =>
        some (.ok (), { w with
          provider := some store, live := [], dir
          issued := store.byKid.map Prod.fst ++ w.issued })
  | .enter => w.provider.map fun _ => ((), { w with live := tid :: w.live })
  | .generateKeypair =>
    if w.issued.contains (L.kidOf ch.key) then none
    else w.inProcess tid fun _ => (ch.key, { w with issued := L.kidOf ch.key :: w.issued })
  | .writeFile file content => w.inProcess tid fun _ => ((), { w with dir := w.dir.set file content })
  | .install kid pair => w.inProcess tid fun store =>
    ((), { w with provider := some (store.install kid pair), dir := w.dir.set .activeKid kid })
  | .retire kid => w.inProcess tid fun store => w.retire store kid
  | .activeEncodingKey => w.inProcess tid fun store => (store.activeEncodingKey, w)
  | .decodingKeyByKid kid => w.inProcess tid fun store => (store.decodingKeyByKid kid, w)
  | .allPublicKeys => w.inProcess tid fun store => (store.allPublicKeys, w)
  | .publicKey kid => w.inProcess tid fun store => ((store.byKid.get kid).map KeyPair.publicKey, w)
  | .keyId => w.inProcess tid fun store => (store.activeKid, w)
  | .now => w.inProcess tid fun _ => (w.now, w)
  | .newUuid =>
    if w.uuids.contains ch.uuid then none
    else w.inProcess tid fun _ => (ch.uuid, { w with uuids := ch.uuid :: w.uuids })

end KeyWorld

/-- A call that may panic; the text is that of the `expect`. -/
abbrev KeyHandler (L : RsaLib) := ExceptT String (Prog (KeyRes L))

namespace KeyHandler

variable {L : RsaLib}

def perform (op : KeyOp L) : KeyHandler L (KeyRes L op) := ExceptT.lift (Prog.perform op)

/-- A step whose panic ends the call. -/
def unwrap {α : Type} (step : KeyHandler L (Except String α)) : KeyHandler L α := do
  match ← step with
  | .ok x => pure x
  | .error e => throw e

end KeyHandler

namespace RsaKeyProvider

open KeyHandler

variable {L : RsaLib}

def activeEncodingKey : KeyHandler L (String × L.Private) := unwrap (perform .activeEncodingKey)

def decodingKeyByKid (kid : Option String) : KeyHandler L (Option L.Public) :=
  unwrap (perform (.decodingKeyByKid kid))

def rotate : KeyHandler L String := do
  let privateKey : L.Private ← perform .generateKeypair
  let pair : KeyPair L := ⟨privateKey, L.publicOf privateKey⟩
  let kid := L.computeKid pair.publicKey
  let _ ← perform (.writeFile (.privatePem kid) (L.privatePem pair.privateKey))
  let _ ← perform (.writeFile (.publicPem kid) (L.publicPem pair.publicKey))
  let _ ← perform (.install kid pair)
  return kid

/-- The part of `retire` under the lock. -/
def retireLocked (kid : String) : KeyHandler L (Except String Bool) := perform (.retire kid)

/-- The outer result is that of the call, the inner one that of the source. -/
def retire (kid : String) : KeyHandler L (Except String Bool) :=
  if kid = "" then return .ok false else retireLocked kid

end RsaKeyProvider

end AuthServer
