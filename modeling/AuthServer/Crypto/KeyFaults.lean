import AuthServer.Crypto.KeyFiles
import AuthServer.Storage.Fallible

/-!
# The key provider on files that fail

`init`, `rotate` and `retire` with every file operation and every encoding of a key allowed to fail.
A failed call keeps what it has done to the files and to the memory until then. Calls of one process
interleave: a rotation generates a key, writes its two files and installs it in four steps, and a
restart drops the rotations that are under way.

## Implementation notes

A failed write to a temporary file leaves that file, a failed write to the marker file may leave
anything in it. The section under the lock is one step, and so is `init`, which runs before the
process takes calls. A process that is stopped inside a step leaves the files as a failure at that
point does.
-/

namespace AuthServer

open Storage

/-- Where a call can fail. -/
inductive KeyPoint where
  | reading
  | keygen
  | kid
  | encodePrivate
  | encodePublic
  | writePrivate
  | writePublic
  | build
  | marker
  | removePrivate
  | removePublic
  deriving DecidableEq

/-- A failure: its error text, and what a failed write has left in the file. -/
structure KeyFault where
  text : String
  residue : Option String := none

/-- What fails during a call. -/
abbrev KeyFaults := KeyPoint → Option KeyFault

/-- The directory after a failed write to a file. -/
def KeyFault.leave (f : KeyFault) (dir : Directory) (file : KeyFile) : Directory :=
  match f.residue with
  | none => dir
  | some text => dir.set file text

/-- The running process with its store, and the directory. -/
structure KeyHost (L : RsaLib) where
  dir : Directory
  provider : Option (KeyStore L) := none

/-- Calls on the process and its files. -/
abbrev KeyIo (L : RsaLib) := Fallible (KeyHost L)

namespace KeyIo

open Fallible RsaKeyProvider

variable {L : RsaLib}

/-- A step without an effect on the files. -/
def attempt : Option KeyFault → KeyIo L Unit
  | none => pure ()
  | some f => stop f.text

/-- The file that `write_atomic` writes before it renames. -/
def temporary : KeyFile → KeyFile
  | .privatePem kid => .other (kid ++ ".private.pem.tmp")
  | .publicPem kid => .other (kid ++ ".public.pem.tmp")
  | .activeKid => .other "active.kid.tmp"
  | .legacyPrivate => .other "private.pem.tmp"
  | .legacyPublic => .other "public.pem.tmp"
  | .other name => .other (name ++ ".tmp")

def writeAtomic (fault : Option KeyFault) (file : KeyFile) (content : String) : KeyIo L Unit :=
  match fault with
  | none => update fun h => { h with dir := (h.dir.erase (temporary file)).set file content }
  | some f => do
    update fun h => { h with dir := f.leave h.dir (temporary file) }
    stop f.text

/-- `fs::write`. -/
def writeFile (fault : Option KeyFault) (file : KeyFile) (content : String) : KeyIo L Unit :=
  match fault with
  | none => update fun h => { h with dir := h.dir.set file content }
  | some f => do
    update fun h => { h with dir := f.leave h.dir file }
    stop f.text

/-- `let _ = fs::remove_file(..)`. -/
def removeFile (fault : Option KeyFault) (file : KeyFile) : KeyIo L Unit :=
  match fault with
  | none => update fun h => { h with dir := h.dir.erase file }
  | some _ => pure ()

def writePrivate (faults : KeyFaults) (pair : KeyPair L) : KeyIo L Unit :=
  writeAtomic (faults .writePrivate) (.privatePem (L.computeKid pair.publicKey))
    (L.privatePem pair.privateKey)

def writePublic (faults : KeyFaults) (pair : KeyPair L) : KeyIo L Unit :=
  writeAtomic (faults .writePublic) (.publicPem (L.computeKid pair.publicKey))
    (L.publicPem pair.publicKey)

/-- Both keys are encoded before the first file is written. -/
def writeKeyFiles (faults : KeyFaults) (pair : KeyPair L) : KeyIo L Unit := do
  attempt (faults .encodePrivate)
  attempt (faults .encodePublic)
  writePrivate faults pair
  writePublic faults pair

def migrateLegacy (faults : KeyFaults) (byKid : Fields String (KeyPair L)) :
    KeyIo L (Fields String (KeyPair L)) := do
  let dir ← read KeyHost.dir
  match byKid.isEmpty, dir.get .legacyPrivate, dir.get .legacyPublic with
  | true, some priv, some pub =>
    let pair ← ofExcept (parsePair "legacy private.pem" "legacy public.pem" priv pub)
    attempt (faults .kid)
    writeKeyFiles faults pair
    attempt (faults .build)
    removeFile (faults .removePrivate) .legacyPrivate
    removeFile (faults .removePublic) .legacyPublic
    return byKid.set (L.computeKid pair.publicKey) pair
  | _, _, _ => return byKid

def generateInitial (faults : KeyFaults) (fresh : L.Private) (byKid : Fields String (KeyPair L)) :
    KeyIo L (Fields String (KeyPair L)) := do
  if byKid.isEmpty then
    let pair : KeyPair L := ⟨fresh, L.publicOf fresh⟩
    attempt (faults .keygen)
    attempt (faults .kid)
    writeKeyFiles faults pair
    attempt (faults .build)
    return byKid.set (L.computeKid pair.publicKey) pair
  else return byKid

/-- The process takes calls from here on. -/
def serve (store : KeyStore L) : KeyIo L Unit := update fun h => { h with provider := some store }

/-- The part of `init` for a directory without a usable marker file. -/
def choose (faults : KeyFaults) (fresh : L.Private) (byKid : Fields String (KeyPair L)) :
    KeyIo L Unit := do
  let byKid ← migrateLegacy faults byKid
  let byKid ← generateInitial faults fresh byKid
  match (sortedKids byKid).head? with
  | none => stop "key set unexpectedly empty"
  | some first =>
    writeFile (faults .marker) .activeKid first
    serve ⟨byKid, first⟩

/-- A new process starts; there is none until `init` has succeeded. -/
def init (faults : KeyFaults) (fresh : L.Private) : KeyIo L Unit := do
  update fun h => { h with provider := none }
  attempt (faults .reading)
  let dir ← read KeyHost.dir
  let byKid ← ofExcept (loadExistingKeys dir)
  match storedActive byKid dir with
  | some active => serve ⟨byKid, active⟩
  | none => choose faults fresh byKid

/-- The key of a rotation, up to its first file. -/
def draft (faults : KeyFaults) (key : L.Private) : KeyIo L (KeyPair L) := do
  attempt (faults .keygen)
  attempt (faults .kid)
  attempt (faults .encodePrivate)
  attempt (faults .encodePublic)
  return ⟨key, L.publicOf key⟩

/-- The end of a rotation: the memory is changed before the marker file is written. -/
def install (faults : KeyFaults) (pair : KeyPair L) : KeyIo L String := do
  attempt (faults .build)
  let kid := L.computeKid pair.publicKey
  update fun h => { h with provider := h.provider.map fun store => store.install kid pair }
  writeFile (faults .marker) .activeKid kid
  return kid

def rotate (faults : KeyFaults) (key : L.Private) : KeyIo L String := do
  let pair ← draft faults key
  writePrivate faults pair
  writePublic faults pair
  install faults pair

/-- The errors of both removals are dropped. -/
def retire (faults : KeyFaults) (kid : String) : KeyIo L Bool := do
  if kid = "" then return false
  match ← read KeyHost.provider with
  | none => stop "no provider"
  | some store =>
    if kid = store.activeKid then stop "Cannot retire the active key — rotate first"
    else if (store.byKid.get kid).isNone then return false
    else
      update fun h => { h with provider := some { store with byKid := store.byKid.erase kid } }
      removeFile (faults .removePrivate) (.privatePem kid)
      removeFile (faults .removePublic) (.publicPem kid)
      return true

end KeyIo

/-! ## Interleaved calls -/

/-- How far a rotation has come. -/
inductive DraftStage where
  | generated
  | privateWritten
  | publicWritten
  deriving DecidableEq

/-- A rotation under way. -/
structure KeyDraft (L : RsaLib) where
  pair : KeyPair L
  stage : DraftStage

/-- The kid of the new key. -/
def KeyDraft.kid {L : RsaLib} (d : KeyDraft L) : String := L.computeKid d.pair.publicKey

/-- The process, its rotations under way, the kids that have been used, and those that have been
retired. -/
structure KeyCalls (L : RsaLib) where
  host : KeyHost L
  drafts : List (KeyDraft L) := []
  issued : List String := []
  retired : List String := []

/-- The steps of the calls. -/
inductive KeyEvent (L : RsaLib) where
  | generate (key : L.Private) (faults : KeyFaults)
  | writePrivate (draft : Nat) (faults : KeyFaults)
  | writePublic (draft : Nat) (faults : KeyFaults)
  | install (draft : Nat) (faults : KeyFaults)
  | retire (kid : String) (faults : KeyFaults)
  | restart (fresh : L.Private) (faults : KeyFaults)

/-- The kids of the key files in a directory. -/
def Directory.kids (dir : Directory) : List String :=
  dir.filterMap fun entry =>
    match entry.1 with
    | .privatePem kid | .publicPem kid => some kid
    | _ => none

namespace KeyCalls

variable {L : RsaLib}

/-- A rotation that succeeds in a step goes on, one that fails has returned its error. -/
def advance {α : Type} (s : KeyCalls L) (i : Nat) (outcome : Except String α × KeyHost L)
    (next : Option (KeyDraft L)) : KeyCalls L :=
  { s with
    host := outcome.2
    drafts := match outcome.1, next with
      | .ok _, some d => s.drafts.set i d
      | _, _ => s.drafts.eraseIdx i }

/-- Execute a step. A generated key has a kid that no key has had before. -/
def step (s : KeyCalls L) : KeyEvent L → Option (KeyCalls L)
  | .generate key faults =>
    if s.host.provider.isNone || s.issued.contains (L.kidOf key) then none
    else
      match KeyIo.draft faults key s.host with
      | (.ok pair, host) =>
        some { s with
          host, drafts := s.drafts ++ [⟨pair, .generated⟩], issued := L.kidOf key :: s.issued }
      | (.error _, host) => some { s with host }
  | .writePrivate i faults =>
    match s.drafts[i]? with
    | some ⟨pair, .generated⟩ =>
      some (s.advance i (KeyIo.writePrivate faults pair s.host) (some ⟨pair, .privateWritten⟩))
    | _ => none
  | .writePublic i faults =>
    match s.drafts[i]? with
    | some ⟨pair, .privateWritten⟩ =>
      some (s.advance i (KeyIo.writePublic faults pair s.host) (some ⟨pair, .publicWritten⟩))
    | _ => none
  | .install i faults =>
    match s.drafts[i]? with
    | some ⟨pair, .publicWritten⟩ => some (s.advance i (KeyIo.install faults pair s.host) none)
    | _ => none
  | .retire kid faults =>
    if s.host.provider.isNone then none
    else
      let (answer, host) := KeyIo.retire faults kid s.host
      some { s with
        host
        retired := match answer with
          | .ok true => kid :: s.retired
          | _ => s.retired }
  | .restart fresh faults =>
    if s.issued.contains (L.kidOf fresh) then none
    else
      let host := (KeyIo.init faults fresh s.host).2
      some { s with
        host, drafts := [], issued := L.kidOf fresh :: (host.dir.kids ++ s.issued) }

/-- The runs whose steps are admitted. -/
inductive Runs (admits : KeyEvent L → Prop) : KeyCalls L → KeyCalls L → Prop
  | refl (s) : Runs admits s s
  | step {s s' s'' ev} (run : Runs admits s s') (ha : admits ev) (he : s'.step ev = some s'') :
      Runs admits s s''

/-- Execute a list of steps. -/
def play (s : KeyCalls L) : List (KeyEvent L) → Option (KeyCalls L)
  | [] => some s
  | ev :: evs => (s.step ev).bind fun s' => s'.play evs

variable {admits : KeyEvent L → Prop}

theorem Runs.head {s s' s'' : KeyCalls L} {ev : KeyEvent L} (ha : admits ev)
    (he : s.step ev = some s') (run : Runs admits s' s'') : Runs admits s s'' := by
  induction run with
  | refl => exact .step (.refl s) ha he
  | step _ ha' he' ih => exact .step ih ha' he'

theorem Runs.of_play {evs : List (KeyEvent L)} {s s' : KeyCalls L} (h : s.play evs = some s')
    (ha : ∀ ev ∈ evs, admits ev) : Runs admits s s' := by
  induction evs generalizing s with
  | nil =>
    obtain rfl := Option.some.inj h
    exact .refl s
  | cons ev evs ih =>
    obtain ⟨s₁, hstep, hrest⟩ := Option.bind_eq_some_iff.mp h
    exact .head (ha ev List.mem_cons_self) hstep
      (ih hrest fun ev hev => ha ev (List.mem_cons_of_mem _ hev))

/-- A property that every step keeps holds along a run. -/
theorem Runs.invariant {J : KeyCalls L → Prop} {s s' : KeyCalls L} (run : Runs admits s s')
    (hstep : ∀ s₁ ev s₂, J s₁ → admits ev → s₁.step ev = some s₂ → J s₂) (h : J s) : J s' := by
  induction run with
  | refl => exact h
  | step _ ha he ih => exact hstep _ _ _ ih ha he

end KeyCalls

/-- Three keys, whose texts are letters. -/
def threeKeys : RsaLib where
  Private := Fin 3
  Public := Fin 3
  decEqPublic := inferInstance
  publicOf k := k
  privatePem k := String.singleton (['a', 'b', 'c'].get k)
  parsePrivate text := [0, 1, 2].find? fun k => String.singleton (['a', 'b', 'c'].get k) == text
  publicPem k := String.singleton (['a', 'b', 'c'].get k)
  parsePublic text := [0, 1, 2].find? fun k => String.singleton (['a', 'b', 'c'].get k) == text
  fingerprint k := List.replicate 43 (['a', 'b', 'c'].get k)
  parsePrivate_pem := by decide
  parsePublic_pem := by decide
  fingerprint_length := by decide
  fingerprint_blank k c hc := by
    rw [List.eq_of_mem_replicate hc]
    match k with
    | 0 | 1 | 2 => rfl

/-- One of the three keys. -/
def threeKeys.key (k : Nat) : threeKeys.Private := Fin.ofNat 3 k

end AuthServer
